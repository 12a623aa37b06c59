/-!
# Mailboxes

A mailbox holds messages in the order in which they were posted. A mark among them ends the
delivery: taking it closes the mailbox, drops what was posted after it and refuses all that is
posted later.

## Main definitions

* `Mailbox`, with `post`, `shutDown` and `take`, and its contents `Mailbox.queue`;
* `deliverable`: what is delivered of a queue;
* `drain`: delivers messages one at a time.

## Main results

* `Mailbox.queue_add`, `Mailbox.take_fst`, `Mailbox.queue_take`: what is posted goes to the end of
  the queue, and what is taken comes from its front;
* `deliverable_append_of_isMarked`: nothing that is posted behind the mark is delivered;
* `exists_take_of_drain`, `drain_fst_le_of_bound`, `drain_eq_of_bound`: a delivery that has a bound
  ends where no message is left, after no more messages than its bound, and to allow for more changes
  nothing.
-/

namespace DebugBridge

/-- What lies in a mailbox. -/
inductive Envelope (μ : Type) where
  | message (content : μ)
  /-- Where the delivery ends. -/
  | shutdown

/-- Messages on their way: the oldest in front, oldest first, and all others at the back, newest
first. -/
structure Mailbox (μ : Type) where
  front : List (Envelope μ)
  back : List (Envelope μ)
  isOpen : Bool

namespace Mailbox

variable {μ : Type}

instance : EmptyCollection (Mailbox μ) := ⟨⟨[], [], true⟩⟩

instance : Inhabited (Mailbox μ) := ⟨∅⟩

/-- What lies in a mailbox, oldest first. -/
def queue (box : Mailbox μ) : List (Envelope μ) :=
  box.front ++ box.back.reverse

/-- Adds an envelope, unless the mailbox is closed. -/
def add (box : Mailbox μ) (envelope : Envelope μ) : Mailbox μ :=
  if box.isOpen then { box with back := envelope :: box.back } else box

/-- Adds a message. -/
def post (box : Mailbox μ) (content : μ) : Mailbox μ :=
  box.add (.message content)

/-- Marks the end of the delivery. -/
def shutDown (box : Mailbox μ) : Mailbox μ :=
  box.add .shutdown

/-- A mailbox that refuses everything. -/
def closed : Mailbox μ := ⟨[], [], false⟩

/-- The same mailbox with something in front, unless it is empty. -/
def turn (box : Mailbox μ) : Mailbox μ :=
  if box.front.isEmpty then { box with front := box.back.reverse, back := [] } else box

/-- Takes the oldest message. At the mark the mailbox closes. -/
def take (box : Mailbox μ) : Option μ × Mailbox μ :=
  let box := box.turn
  match box.front with
  | [] => (none, box)
  | .message content :: front => (some content, { box with front })
  | .shutdown :: _ => (none, closed)

/-! ### The queue -/

/-- An envelope that is added goes to the end of the queue. -/
theorem queue_add (box : Mailbox μ) (envelope : Envelope μ) :
    (box.add envelope).queue = if box.isOpen then box.queue ++ [envelope] else box.queue := by
  unfold add queue
  split <;> simp

/-- A turn of a mailbox leaves what is queued. -/
@[simp] theorem queue_turn (box : Mailbox μ) : box.turn.queue = box.queue := by
  unfold turn queue
  split
  · simp_all
  · rfl

/-- A turn of a mailbox leaves whether it is open. -/
@[simp] theorem isOpen_turn (box : Mailbox μ) : box.turn.isOpen = box.isOpen := by
  unfold turn
  split <;> rfl

/-- Only an empty mailbox has nothing in front after a turn. -/
theorem back_turn (box : Mailbox μ) (h : box.turn.front = []) : box.turn.back = [] := by
  unfold turn at h ⊢
  split
  · rfl
  · simp_all

/-- The message that is taken is the first of the queue. -/
theorem take_fst (box : Mailbox μ) :
    box.take.1 = match box.queue with
      | .message content :: _ => some content
      | _ => none := by
  rw [← queue_turn box]
  simp only [take, queue]
  split
  · rename_i h
    simp [h, back_turn box h]
  · rename_i h
    simp [h]
  · rename_i h
    simp [h]

/-- What is left after a message was taken is the rest of the queue, and after the mark nothing. -/
theorem queue_take (box : Mailbox μ) :
    box.take.2.queue = match box.queue with
      | .message _ :: rest => rest
      | _ => [] := by
  rw [← queue_turn box]
  simp only [take, queue]
  split
  · rename_i h
    simp [h, back_turn box h]
  · rename_i h
    simp [h]
  · rename_i h
    simp [h, closed]

end Mailbox

/-- What is logged when the handling of a message broke off. -/
def brokenOff (failure : String) : String :=
  "event handler panicked: " ++ failure

/-! ### What is delivered -/

/-- The messages in front of the mark. -/
def deliverable {μ : Type} : List (Envelope μ) → List μ
  | .message content :: rest => content :: deliverable rest
  | _ => []

/-- Whether the mark lies in a queue. -/
def isMarked {μ : Type} : List (Envelope μ) → Bool
  | [] => false
  | .message _ :: rest => isMarked rest
  | .shutdown :: _ => true

/-- What is posted behind the mark is not delivered. -/
theorem deliverable_append_of_isMarked {μ : Type} (queue later : List (Envelope μ))
    (h : isMarked queue = true) : deliverable (queue ++ later) = deliverable queue := by
  induction queue with
  | nil => simp [isMarked] at h
  | cons envelope rest ih =>
    cases envelope with
    | shutdown => rfl
    | message first => exact congrArg (first :: ·) (ih h)

/-- What is posted without a mark comes last. -/
theorem deliverable_append_of_not_isMarked {μ : Type} (queue later : List (Envelope μ))
    (h : isMarked queue = false) :
    deliverable (queue ++ later) = deliverable queue ++ deliverable later := by
  induction queue with
  | nil => rfl
  | cons envelope rest ih =>
    cases envelope with
    | shutdown => simp [isMarked] at h
    | message first => exact congrArg (first :: ·) (ih h)

/-! ### Delivery -/

/-- Delivers messages one at a time until none is left, at most as many as allowed, and adds their
number to a count. Handling a message may add others. -/
def drainFrom {S μ : Type} (take : S → Option μ × S) (deliver : μ → S → S) (count : Nat) :
    Nat → S → Nat × S
  | 0, s => (count, s)
  | most + 1, s =>
    match take s with
    | (none, s) => (count, s)
    | (some m, s) => drainFrom take deliver (count + 1) most (deliver m s)

/-- Delivers messages one at a time until none is left, at most as many as allowed, and counts
them. -/
def drain {S μ : Type} (take : S → Option μ × S) (deliver : μ → S → S) : Nat → S → Nat × S :=
  drainFrom take deliver 0

/-- The count that a delivery starts from is added to what it counts by itself. -/
theorem drainFrom_eq {S μ : Type} (take : S → Option μ × S) (deliver : μ → S → S)
    (count most : Nat) (s : S) :
    drainFrom take deliver count most s
      = (count + (drain take deliver most s).1, (drain take deliver most s).2) := by
  unfold drain
  induction most generalizing count s with
  | zero => rfl
  | succ most ih =>
    simp only [drainFrom]
    split
    · rfl
    · rename_i m t _
      rw [ih (count + 1), ih (0 + 1)]
      simp only [Prod.mk.injEq, and_true]
      omega

/-- A delivery takes a message, hands it over and goes on. -/
theorem drain_succ {S μ : Type} (take : S → Option μ × S) (deliver : μ → S → S) (most : Nat)
    (s : S) :
    drain take deliver (most + 1) s = match take s with
      | (none, s) => (0, s)
      | (some m, s) =>
        let (count, s) := drain take deliver most (deliver m s)
        (count + 1, s) := by
  rw [drain, drainFrom]
  split
  · rfl
  · rename_i m t _
    rw [drainFrom_eq, Nat.add_comm]
    rfl

/-! ### Deliveries that have a bound -/

section Bounded

variable {S μ : Type} {take : S → Option μ × S} {deliver : μ → S → S} {I : S → Prop} {L : S → Nat}

/-- A delivery that has a bound ends where no message is left. -/
theorem exists_take_of_drain
    (hstep : ∀ s m t, I s → take s = (some m, t) → I (deliver m t) ∧ L (deliver m t) < L s)
    (most : Nat) (s : S) (hs : I s) (hmost : L s < most) :
    ∃ t, I t ∧ take t = (none, (drain take deliver most s).2) := by
  induction most generalizing s with
  | zero => exact absurd hmost (Nat.not_lt_zero _)
  | succ most ih =>
    rw [drain_succ]
    cases htake : take s with
    | mk m t =>
      cases m with
      | none => exact ⟨s, hs, htake⟩
      | some m =>
        obtain ⟨hI, hless⟩ := hstep s m t hs htake
        exact ih (deliver m t) hI (by omega)

/-- It delivers no more than its bound. -/
theorem drain_fst_le_of_bound
    (hstep : ∀ s m t, I s → take s = (some m, t) → I (deliver m t) ∧ L (deliver m t) < L s)
    (most : Nat) (s : S) (hs : I s) : (drain take deliver most s).1 ≤ L s := by
  induction most generalizing s with
  | zero => exact Nat.zero_le _
  | succ most ih =>
    rw [drain_succ]
    cases htake : take s with
    | mk m t =>
      cases m with
      | none => exact Nat.zero_le _
      | some m =>
        obtain ⟨hI, hless⟩ := hstep s m t hs htake
        have hrest := ih (deliver m t) hI
        dsimp only
        omega

/-- To allow for more than its bound changes nothing. -/
theorem drain_eq_of_bound
    (hstep : ∀ s m t, I s → take s = (some m, t) → I (deliver m t) ∧ L (deliver m t) < L s)
    (most most' : Nat) (s : S) (hs : I s) (hmost : L s < most) (hmost' : L s < most') :
    drain take deliver most s = drain take deliver most' s := by
  induction most generalizing s most' with
  | zero => exact absurd hmost (Nat.not_lt_zero _)
  | succ most ih =>
    cases most' with
    | zero => exact absurd hmost' (Nat.not_lt_zero _)
    | succ most' =>
      rw [drain_succ, drain_succ]
      cases htake : take s with
      | mk m t =>
        cases m with
        | none => rfl
        | some m =>
          obtain ⟨hI, hless⟩ := hstep s m t hs htake
          have hrest := ih most' (deliver m t) hI (by omega) (by omega)
          dsimp only
          rw [hrest]

end Bounded

end DebugBridge
