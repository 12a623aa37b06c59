import DebugBridge.Dispatch.Recorder

/-!
# What a dispatcher hands over

Whoever sends something to a dispatcher, at whatever moment, adds it to one queue, and the loop of the
dispatcher takes one thing after the other from it, up to the first mark. So what the two sides get is
the beginning of what was sent in front of that mark, in the same order and each message once. A side
that fails while it handles a message takes no other message along.

The owner of a dispatcher posts, pumps and shuts down. A dispatcher with a thread of its own runs its
loop besides, at moments of its own choosing, and others may send while a message is handled.

## Main definitions

* `Processors.noting`: two sides that note what they get;
* `Dispatcher.Step`, `Dispatcher.Course`: what may happen to a dispatcher, and what is sent meanwhile;
* `Dispatcher.Accounted`: what was sent is what was handed over and what waits;
* `Dispatcher.Use`, `Dispatcher.afterUses`, `Dispatcher.sentByUses`: what owners do, and what is sent
  then;
* `Processors.IsBounded`: two sides that do not keep each other busy forever.

## Main results

* `Accounted.step`, `Accounted.course`: no message is lost, doubled or overtaken, whatever happens;
* `course_drain`: the loop of a dispatcher is such a course;
* `queue_run`: where what follows is bounded, the loop comes to its end, with nothing left;
* `hands_over_in_order`: what the two sides get, whatever happens and whatever owners do.
-/

namespace DebugBridge

-- Sums start from the zero of core, whatever algebra is in scope.
attribute [local instance (high)] Zero.ofOfNat0

variable {S : Type}

/-! ### Sides that note what they get -/

/-- Two sides that also note what they get: the one for the model notes events, the other one
requests. -/
def Processors.noting (p : Processors S) : Processors (S × List Message) where
  model event state :=
    let reaction := p.model event state.1
    ⟨(reaction.state, state.2 ++ [.event event]), reaction.posts, reaction.failure⟩
  runtime request state :=
    let reaction := p.runtime request state.1
    ⟨(reaction.state, state.2 ++ [.request request]), reaction.posts, reaction.failure⟩
  bound waiting state := p.bound waiting state.1

/-- Whoever handles a message notes it, be it that the handling fails. -/
theorem Processors.noted_react (p : Processors S) (m : Message) (state : S × List Message) :
    (p.noting.react m state).state.2 = state.2 ++ [m] := by
  cases m <;> rfl

/-- What follows from the messages that wait is bounded: each message that is handled leaves less to
be handled than there was with it. -/
def Processors.IsBounded (p : Processors S) : Prop :=
  ∀ m rest state,
    p.bound (rest ++ (p.react m state).posts) (p.react m state).state < p.bound (m :: rest) state

/-- Sides that take notes post nothing else. -/
theorem Processors.IsBounded.noting {p : Processors S} (h : p.IsBounded) : p.noting.IsBounded := by
  intro m rest state
  cases m with
  | event e => exact h (.event e) rest state.1
  | request r => exact h (.request r) rest state.1

/-! ### Mailboxes -/

namespace Mailbox

variable {μ : Type} {box box' : Mailbox μ}

/-- A message that comes leaves a mailbox open or not. -/
@[simp] theorem isOpen_add (box : Mailbox μ) (envelope : Envelope μ) :
    (box.add envelope).isOpen = box.isOpen := by
  unfold add
  split <;> simp_all

/-- Whatever is added to an open mailbox stands behind what was there, in its order. -/
theorem foldl_add (box : Mailbox μ) (es : List (Envelope μ)) :
    (es.foldl add box).isOpen = box.isOpen
      ∧ (es.foldl add box).queue = if box.isOpen then box.queue ++ es else box.queue := by
  induction es generalizing box with
  | nil => simp
  | cons e es ih =>
      obtain ⟨hopen, hqueue⟩ := ih (box.add e)
      refine ⟨hopen.trans (isOpen_add box e), hqueue.trans ?_⟩
      rw [isOpen_add, queue_add]
      split <;> simp

/-- A message that is taken stood in front. -/
theorem queue_of_take_some {m : μ} (h : box.take = (some m, box')) :
    box.queue = .message m :: box'.queue ∧ box'.isOpen = box.isOpen := by
  rw [← queue_turn box, ← isOpen_turn box]
  unfold take at h
  dsimp only at h
  split at h
  · cases h
  · next m' front hfront =>
      cases h
      exact ⟨by rw [queue, hfront, List.cons_append]; rfl, rfl⟩
  · cases h

/-- Where no message can be taken, there is none, or the mark stands in front and closes the
mailbox. Nothing is left then. -/
theorem queue_of_take_none (h : box.take = (none, box')) :
    box'.queue = [] ∧ (box.queue = [] ∧ box'.isOpen = box.isOpen
      ∨ box'.isOpen = false ∧ ∃ rest, box.queue = .shutdown :: rest) := by
  rw [← queue_turn box, ← isOpen_turn box]
  unfold take at h
  dsimp only at h
  split at h
  · next hfront =>
      cases h
      have hnil : box.turn.queue = [] := by rw [queue, hfront, back_turn box hfront]; rfl
      exact ⟨hnil, .inl ⟨hnil, rfl⟩⟩
  · cases h
  · next front hfront =>
      cases h
      exact ⟨rfl, .inr ⟨rfl, front ++ box.turn.back.reverse, by rw [queue, hfront]; rfl⟩⟩

end Mailbox

/-! ### Messages in front of the mark -/

section Deliverable

variable {μ : Type}

/-- The mark lies in two lists if it lies in one of them. -/
theorem isMarked_append (es later : List (Envelope μ)) :
    isMarked (es ++ later) = (isMarked es || isMarked later) := by
  induction es with
  | nil => rfl
  | cons e es ih =>
      cases e with
      | message m => exact ih
      | shutdown => rfl

/-- There is no mark among messages. -/
theorem isMarked_messages (ms : List μ) : isMarked (ms.map .message) = false := by
  induction ms with
  | nil => rfl
  | cons m ms ih => exact ih

/-- Messages without a mark are all delivered. -/
theorem deliverable_messages (ms : List μ) : deliverable (ms.map .message) = ms := by
  induction ms with
  | nil => rfl
  | cons m ms ih => exact congrArg (m :: ·) ih

/-- Messages in front of a list are delivered before what is delivered of the list. -/
theorem deliverable_messages_append (ms : List μ) (es : List (Envelope μ)) :
    deliverable (ms.map .message ++ es) = ms ++ deliverable es := by
  rw [deliverable_append_of_not_isMarked _ _ (isMarked_messages ms), deliverable_messages]

end Deliverable

/-! ### What may happen to a dispatcher -/

namespace Dispatcher

variable {p : Processors S} {d d' : Dispatcher S} {sent es : List (Envelope Message)}

/-- A step of a dispatcher, with what is sent in it. Anybody may send. When the loop hands a message
over, others may send while it is handled; what the side itself posts is sent in its order. At the mark
the loop closes the mailbox, and where there is nothing it waits. -/
inductive Step (p : Processors S) (d : Dispatcher S) :
    List (Envelope Message) → Dispatcher S → Prop where
  | sent (e : Envelope Message) : Step p d [e] { d with mailbox := d.mailbox.add e }
  | handed (m : Message) (rest : Dispatcher S) (es : List (Envelope Message))
      (htake : d.take = (some m, rest))
      (hposts : ((p.react m rest.state).posts.map Envelope.message).Sublist es) :
      Step p d es { deliver p m rest with mailbox := es.foldl Mailbox.add rest.mailbox }
  | rested (rest : Dispatcher S) (htake : d.take = (none, rest)) : Step p d [] rest

/-- Several steps, one after the other, with all that is sent in them, oldest first. -/
inductive Course (p : Processors S) (d : Dispatcher S) :
    List (Envelope Message) → Dispatcher S → Prop where
  | start : Course p d [] d
  | next {sent es : List (Envelope Message)} {d' d'' : Dispatcher S} (h : Course p d sent d')
      (hstep : Step p d' es d'') : Course p d (sent ++ es) d''

/-- A step is a course. -/
theorem Step.course (h : Step p d es d') : Course p d es d' :=
  .next .start h

/-- Two courses are one, with what is sent in their order. -/
theorem Course.trans {d'' : Dispatcher S} {sent' : List (Envelope Message)}
    (h : Course p d sent d') (h' : Course p d' sent' d'') : Course p d (sent ++ sent') d'' := by
  induction h' with
  | start => rwa [List.append_nil]
  | next _ hstep ih =>
      rw [← List.append_assoc]
      exact .next ih hstep

/-- What was sent is what was handed over, followed by what waits. Once the mark was taken, nothing
waits, and what was handed over is what was sent in front of the mark. -/
inductive Accounted (sent : List (Envelope Message)) (d : Dispatcher S) : Prop where
  | running (hopen : d.mailbox.isOpen = true)
      (hsent : sent = d.delivered.toList.map .message ++ d.mailbox.queue)
  | ended (hopen : d.mailbox.isOpen = false) (hqueue : d.mailbox.queue = [])
      (hmark : isMarked sent = true) (hsent : deliverable sent = d.delivered.toList)

/-- A dispatcher that was just started is accounted for, with nothing sent. -/
theorem accounted_start (mode : DeliveryMode) (state : S) : Accounted [] (start mode state) :=
  .running rfl rfl

/-- What was handed over, followed by what can still be, is what was sent in front of the mark. -/
theorem Accounted.delivered (h : Accounted sent d) :
    d.delivered.toList ++ deliverable d.mailbox.queue = deliverable sent := by
  cases h with
  | running _ hsent => rw [hsent, deliverable_messages_append]
  | ended _ hqueue _ hsent =>
      rw [hqueue, hsent]
      exact List.append_nil _

/-- What is sent is added to the account: behind what waits, or behind the mark, where it counts for
nothing. -/
theorem Accounted.gains (h : Accounted sent d) (es : List (Envelope Message))
    (hmailbox : d'.mailbox = es.foldl Mailbox.add d.mailbox) (hdelivered : d'.delivered = d.delivered) :
    Accounted (sent ++ es) d' := by
  obtain ⟨hopen', hqueue'⟩ := Mailbox.foldl_add d.mailbox es
  rw [← hmailbox] at hopen' hqueue'
  cases h with
  | running hopen hsent =>
      refine .running (hopen'.trans hopen) ?_
      rw [hsent, hdelivered, hqueue', if_pos hopen, List.append_assoc]
  | ended hopen hqueue hmark hsent =>
      refine .ended (hopen'.trans hopen) ?_ ?_ ?_
      · rw [hqueue', hopen, hqueue]
        rfl
      · rw [isMarked_append, hmark, Bool.true_or]
      · rw [deliverable_append_of_isMarked sent es hmark, hsent, hdelivered]

/-- What is taken is taken from the mailbox. -/
theorem take_mailbox {m : Option Message} {rest : Dispatcher S} (h : d.take = (m, rest)) :
    d.mailbox.take = (m, rest.mailbox) ∧ rest = { d with mailbox := rest.mailbox } := by
  obtain ⟨rfl, rfl⟩ := Prod.mk.inj h
  exact ⟨rfl, rfl⟩

/-- Every step leaves the account in order. -/
theorem Accounted.step (h : Accounted sent d) (hstep : Step p d es d') : Accounted (sent ++ es) d' := by
  cases hstep with
  | sent e => exact h.gains [e] rfl rfl
  | handed m rest es htake hposts =>
      obtain ⟨hbox, hrest⟩ := take_mailbox htake
      obtain ⟨hqueue, hopen⟩ := Mailbox.queue_of_take_some hbox
      -- A mailbox with something in it is not closed.
      cases h with
      | ended _ hnil =>
          rw [hnil] at hqueue
          cases hqueue
      | running hd hsent =>
          have htaken : Accounted sent ({ rest with delivered := rest.delivered.push m }) := by
            refine .running (hopen.trans hd) ?_
            rw [hsent, hqueue, hrest, Array.toList_push, List.map_append, List.append_assoc]
            rfl
          exact htaken.gains es rfl rfl
  | rested rest htake =>
      obtain ⟨hbox, hrest⟩ := take_mailbox htake
      have hdelivered : d'.delivered = d.delivered := by rw [hrest]
      obtain ⟨hnil, ⟨hempty, hopen⟩ | ⟨hclosed, rest, hmarked⟩⟩ := Mailbox.queue_of_take_none hbox
      · rw [List.append_nil]
        cases h with
        | running hd hsent => exact .running (hopen.trans hd) (by rw [hsent, hempty, hnil, hdelivered])
        | ended hd _ hmark hsent => exact .ended (hopen.trans hd) hnil hmark (hdelivered ▸ hsent)
      · have hall := h.delivered
        rw [hmarked] at hall
        replace hall : d.delivered.toList = deliverable sent := (List.append_nil _).symm.trans hall
        rw [List.append_nil]
        cases h with
        | running _ hsent =>
            refine .ended hclosed hnil ?_ (hdelivered ▸ hall.symm)
            rw [hsent, hmarked, isMarked_append, isMarked_messages]
            rfl
        | ended _ hempty =>
            rw [hempty] at hmarked
            cases hmarked

/-- No message is lost, doubled or overtaken, whatever happens. -/
theorem Accounted.course {sent' : List (Envelope Message)} (h : Accounted sent d)
    (hc : Course p d sent' d') : Accounted (sent ++ sent') d' := by
  induction hc with
  | start => rwa [List.append_nil]
  | next _ hstep ih =>
      rw [← List.append_assoc]
      exact ih.step hstep

/-- Two sides that note what they get have noted what was handed over. -/
theorem noted_course {p : Processors S} {d d' : Dispatcher (S × List Message)}
    (hc : Course p.noting d sent d') (h : d.state.2 = d.delivered.toList) :
    d'.state.2 = d'.delivered.toList := by
  induction hc with
  | start => exact h
  | next _ hstep ih =>
      cases hstep with
      | sent e => exact ih
      | handed m rest es htake hposts =>
          obtain rfl := (congrArg Prod.snd htake).symm
          change (p.noting.react m _).state.2 = (Array.push _ m).toList
          rw [p.noted_react, Array.toList_push]
          exact congrArg (· ++ [m]) ih
      | rested rest htake =>
          obtain rfl := (congrArg Prod.snd htake).symm
          exact ih

/-! ### The loop -/

/-- Messages that are posted come one behind the other. -/
theorem foldl_post (ms : List Message) (box : Mailbox Message) :
    ms.foldl Mailbox.post box = (ms.map Envelope.message).foldl Mailbox.add box := by
  rw [List.foldl_map]
  rfl

/-- When the loop hands a message over, the side posts what it posts, and nobody else sends. -/
theorem step_deliver {m : Message} {rest : Dispatcher S} (htake : d.take = (some m, rest)) :
    Step p d ((p.react m rest.state).posts.map .message) (deliver p m rest) := by
  have hstep : Step p d _ { deliver p m rest with mailbox := _ } :=
    .handed m rest _ htake (List.Sublist.refl _)
  rwa [← foldl_post] at hstep

/-- What the two sides post while the loop hands over as many messages as allowed. -/
def postedBy (p : Processors S) : Nat → Dispatcher S → List (Envelope Message)
  | 0, _ => []
  | most + 1, d =>
    match d.take with
    | (none, _) => []
    | (some m, rest) =>
      (p.react m rest.state).posts.map .message ++ postedBy p most (deliver p m rest)

/-- The loop goes step by step, and nobody else sends. -/
theorem course_drain (p : Processors S) (most : Nat) (d : Dispatcher S) :
    Course p d (postedBy p most d) (drain take (deliver p) most d).2 := by
  induction most generalizing d with
  | zero => exact .start
  | succ most ih =>
      rw [drain_succ, postedBy]
      cases htake : d.take with
      | mk taken rest =>
          cases taken with
          | none => exact (Step.rested rest htake).course
          | some m => exact (step_deliver htake).course.trans (ih (deliver p m rest))

/-- The loop counts what it hands over. -/
theorem count_drain (p : Processors S) (most : Nat) (d : Dispatcher S) :
    (drain take (deliver p) most d).1 + d.delivered.size
      = (drain take (deliver p) most d).2.delivered.size := by
  induction most generalizing d with
  | zero => exact Nat.zero_add _
  | succ most ih =>
      rw [drain_succ]
      cases htake : d.take with
      | mk taken rest =>
          have hrest : rest.delivered = d.delivered := by rw [(take_mailbox htake).2]
          cases taken with
          | none => exact (Nat.zero_add _).trans (congrArg Array.size hrest.symm)
          | some m =>
              have hcount := ih (deliver p m rest)
              have hpushed : (deliver p m rest).delivered.size = d.delivered.size + 1 :=
                (Array.size_push m).trans (congrArg (·.size + 1) hrest)
              dsimp only
              omega

/-- A message that is handed over leaves less to be handed over than there was with it, since the mark
cuts off what follows from it, or since what follows is bounded. -/
theorem limit_deliver_lt (hp : p.IsBounded) (h : Accounted sent d) {m : Message}
    {rest : Dispatcher S} (htake : d.take = (some m, rest)) :
    limit p (deliver p m rest) < limit p d := by
  obtain ⟨hbox, hrest⟩ := take_mailbox htake
  obtain ⟨hqueue, hopen⟩ := Mailbox.queue_of_take_some hbox
  -- Something lies in the mailbox, so it is open, and what the side posts comes to lie in it.
  have hd : d.mailbox.isOpen = true := by
    cases h with
    | running hd => exact hd
    | ended _ hnil =>
        rw [hnil] at hqueue
        cases hqueue
  have hposts : (deliver p m rest).mailbox.queue
      = rest.mailbox.queue ++ (p.react m rest.state).posts.map .message := by
    change (List.foldl Mailbox.post _ _).queue = _
    rw [foldl_post, (Mailbox.foldl_add _ _).2, if_pos (hopen.trans hd)]
  have hstate : rest.state = d.state := by rw [hrest]
  unfold limit
  rw [hposts, hqueue, isMarked_append, isMarked_messages, Bool.or_false]
  cases hmark : isMarked rest.mailbox.queue with
  | true =>
      rw [deliverable_append_of_isMarked _ _ hmark]
      simp [isMarked, hmark, deliverable]
  | false =>
      rw [deliverable_append_of_not_isMarked _ _ hmark, deliverable_messages, hstate]
      simpa [isMarked, hmark, deliverable, deliver, hstate] using hp m (deliverable rest.mailbox.queue) d.state

/-- Where what follows is bounded, the loop comes to its end: it leaves nothing. -/
theorem queue_run (hp : p.IsBounded) (h : Accounted sent d) :
    (run p d).2.mailbox.queue = [] := by
  obtain ⟨last, -, htake⟩ := exists_take_of_drain
    (I := fun d => ∃ sent, Accounted sent d) (L := limit p)
    (fun d m rest ⟨sent, h⟩ htake => ⟨⟨_, h.step (step_deliver htake)⟩, limit_deliver_lt hp h htake⟩)
    (limit p d + 1) d ⟨sent, h⟩ (Nat.lt_succ_self _)
  exact (Mailbox.queue_of_take_none (take_mailbox htake).1).1

/-! ### What owners do -/

/-- What the owner of a dispatcher, or anyone with access to it, does. -/
inductive Use where
  | post (m : Message)
  | pump
  | shutDown

/-- What an owner does, with the number it is told. -/
def used (p : Processors S) (d : Dispatcher S) : Use → Nat × Dispatcher S
  | .post m => (0, d.post p m)
  | .pump => d.pump p
  | .shutDown => (0, d.shutDown p)

/-- What the two sides send while the loop runs. -/
def postedInRun (p : Processors S) (d : Dispatcher S) : List (Envelope Message) :=
  postedBy p (limit p d + 1) d

/-- What the two sides send while a threaded dispatcher delivers what is there. -/
def postedInSettling (p : Processors S) (d : Dispatcher S) : List (Envelope Message) :=
  match d.mode with
  | .manual => []
  | .threaded => postedInRun p d

/-- What is sent when an owner does something, by the owner and by the two sides. -/
def sentBy (p : Processors S) (d : Dispatcher S) : Use → List (Envelope Message)
  | .post m => .message m :: postedInSettling p { d with mailbox := d.mailbox.post m }
  | .pump =>
    match d.mode with
    | .manual => postedInRun p d
    | .threaded => []
  | .shutDown => .shutdown :: postedInSettling p { d with mailbox := d.mailbox.shutDown }

/-- The dispatcher after all that its owner does, with the numbers the owner was told, added up. -/
def afterUses (p : Processors S) : List Use → Dispatcher S → Nat × Dispatcher S
  | [], d => (0, d)
  | u :: us, d =>
    let (count, d) := used p d u
    let (more, d) := afterUses p us d
    (count + more, d)

/-- All that is sent when an owner does one thing after the other. -/
def sentByUses (p : Processors S) : List Use → Dispatcher S → List (Envelope Message)
  | [], _ => []
  | u :: us, d => sentBy p d u ++ sentByUses p us (used p d u).2

/-- To settle a dispatcher is a course. -/
theorem course_settle (p : Processors S) (d : Dispatcher S) :
    Course p d (postedInSettling p d) (settle p d) := by
  cases hmode : d.mode with
  | manual =>
      simp only [postedInSettling, settle, hmode]
      exact .start
  | threaded =>
      simp only [postedInSettling, settle, hmode]
      exact course_drain p _ d

/-- What an owner does goes step by step. -/
theorem course_used (p : Processors S) (d : Dispatcher S) (u : Use) :
    Course p d (sentBy p d u) (used p d u).2 := by
  cases u with
  | post m => exact (Step.sent (.message m)).course.trans (course_settle p _)
  | shutDown => exact (Step.sent .shutdown).course.trans (course_settle p _)
  | pump =>
      cases hmode : d.mode with
      | manual =>
          simp only [sentBy, used, pump, hmode]
          exact course_drain p _ d
      | threaded =>
          simp only [sentBy, used, pump, hmode]
          exact .start

/-- All that an owner does is a course. -/
theorem course_afterUses (p : Processors S) (us : List Use) (d : Dispatcher S) :
    Course p d (sentByUses p us d) (afterUses p us d).2 := by
  induction us generalizing d with
  | nil => exact .start
  | cons u us ih => exact (course_used p d u).trans (ih _)

/-- A dispatcher keeps its mode. -/
theorem Course.mode_eq (h : Course p d sent d') : d'.mode = d.mode := by
  induction h with
  | start => rfl
  | next _ hstep ih =>
      rw [← ih]
      cases hstep with
      | sent e => rfl
      | handed m rest es htake =>
          change rest.mode = _
          rw [(take_mailbox htake).2]
      | rested rest htake => rw [(take_mailbox htake).2]

/-- The owner of a manual dispatcher is told of every message that is handed over. -/
theorem count_afterUses (p : Processors S) (us : List Use) (d : Dispatcher S)
    (hmode : d.mode = .manual) :
    (afterUses p us d).1 + d.delivered.size = (afterUses p us d).2.delivered.size := by
  induction us generalizing d with
  | nil => exact Nat.zero_add _
  | cons u us ih =>
      have hfirst : (used p d u).1 + d.delivered.size = (used p d u).2.delivered.size := by
        cases u with
        | post m =>
            simp only [used, post, settle, hmode]
            exact Nat.zero_add _
        | shutDown =>
            simp only [used, shutDown, settle, hmode]
            exact Nat.zero_add _
        | pump =>
            simp only [used, pump, hmode]
            exact count_drain p _ d
      have hrest := ih _ ((course_used p d u).mode_eq.trans hmode)
      dsimp only [afterUses]
      omega

/-- Where what follows is bounded, a threaded dispatcher leaves nothing to be handed over. -/
theorem queue_settle (hp : p.IsBounded) (h : Accounted sent d) (hmode : d.mode = .threaded) :
    (settle p d).mailbox.queue = [] := by
  simp only [settle, hmode]
  exact queue_run hp h

/-- A threaded dispatcher has nothing left whenever its owner looks, if what follows is bounded. -/
theorem queue_afterUses_threaded (hp : p.IsBounded) (us : List Use) (h : Accounted sent d)
    (hmode : d.mode = .threaded) (hqueue : d.mailbox.queue = []) :
    (afterUses p us d).2.mailbox.queue = [] := by
  induction us generalizing d sent with
  | nil => exact hqueue
  | cons u us ih =>
      have hcourse := course_used p d u
      refine ih (h.course hcourse) (hcourse.mode_eq.trans hmode) ?_
      cases u with
      | post m => exact queue_settle hp (h.gains [.message m] rfl rfl) hmode
      | shutDown => exact queue_settle hp (h.gains [.shutdown] rfl rfl) hmode
      | pump =>
          change (pump p d).2.mailbox.queue = []
          simp only [pump, hmode]
          exact hqueue

/-- The last thing that an owner does is done last. -/
theorem afterUses_append_singleton (p : Processors S) (us : List Use) (u : Use) (d : Dispatcher S) :
    (afterUses p (us ++ [u]) d).2 = (used p (afterUses p us d).2 u).2 := by
  induction us generalizing d with
  | nil => rfl
  | cons u' us ih => exact ih _

/-- Where what follows is bounded, a manual dispatcher leaves nothing when it was pumped. -/
theorem queue_afterUses_pump (hp : p.IsBounded) (us : List Use) (h : Accounted sent d)
    (hmode : d.mode = .manual) :
    (afterUses p (us ++ [.pump]) d).2.mailbox.queue = [] := by
  have hcourse := course_afterUses p us d
  have hmanual := hcourse.mode_eq.trans hmode
  rw [afterUses_append_singleton]
  simp only [used, pump, hmanual]
  exact queue_run hp (h.course hcourse)

/-- What the two sides of a dispatcher get. Whatever happens, each gets what is for it, and together they
get the messages that were sent in front of the first mark, in their order and each message once, up to
where the loop has come; be it that a side fails. What the owner does is such a course, and a manual
dispatcher counts for its owner what it hands over. Where what follows from a message is bounded, all
that was sent in front of the mark was handed over after a pump, and by a threaded dispatcher always. -/
theorem hands_over_in_order (p : Processors S) (mode : DeliveryMode) (state : S) :
    (∀ sent d, Course p.noting (start mode (state, [])) sent d →
      d.state.2 = d.delivered.toList
        ∧ d.delivered.toList ++ deliverable d.mailbox.queue = deliverable sent)
    ∧ ∀ us d n sent, afterUses p.noting us (start mode (state, [])) = (n, d) →
      sentByUses p.noting us (start mode (state, [])) = sent →
        Course p.noting (start mode (state, [])) sent d
          ∧ (mode = .manual → n = d.delivered.size)
          ∧ (p.IsBounded → (mode = .threaded ∨ ∃ earlier, us = earlier ++ [.pump]) →
            d.state.2 = deliverable sent) := by
  have hstart := accounted_start mode (state, ([] : List Message))
  have hcourses : ∀ sent d, Course p.noting (start mode (state, [])) sent d →
      d.state.2 = d.delivered.toList
        ∧ d.delivered.toList ++ deliverable d.mailbox.queue = deliverable sent :=
    fun sent d h => ⟨noted_course h rfl, (hstart.course h).delivered⟩
  refine ⟨hcourses, ?_⟩
  rintro us d n _ huses rfl
  obtain ⟨rfl, rfl⟩ := Prod.mk.inj huses.symm
  have hcourse := course_afterUses p.noting us (start mode (state, []))
  refine ⟨hcourse, fun hmode => ?_, fun hp hends => ?_⟩
  · exact count_afterUses p.noting us (start mode (state, [])) hmode
  · obtain ⟨hnoted, hall⟩ := hcourses _ _ hcourse
    have hqueue : (afterUses p.noting us (start mode (state, []))).2.mailbox.queue = [] := by
      cases hmode : mode with
      | threaded => exact queue_afterUses_threaded hp.noting us (accounted_start _ _) rfl rfl
      | manual =>
          rcases hends with hends | ⟨earlier, rfl⟩
          · rw [hends] at hmode
            cases hmode
          · exact queue_afterUses_pump hp.noting earlier (accounted_start _ _) rfl
    rw [hqueue] at hall
    rw [hnoted, ← hall]
    exact (List.append_nil _).symm

/-! ### A recorder between the two sides -/

/-- Messages without replies weigh as much as there are. -/
theorem sum_weight (r : Recorder) (depth : Nat) (ms : List Message)
    (h : ∀ m ∈ ms, r.repliesTo m = []) : (ms.map (r.weight depth)).sum = ms.length := by
  have hone : ∀ m ∈ ms, r.weight depth m = 1 := by
    intro m hm
    cases depth with
    | zero => rfl
    | succ depth => simp [Recorder.weight, h m hm]
  rw [List.map_congr_left hone, List.map_const', List.sum_replicate_nat, Nat.mul_one]

/-- A recorder does not keep itself busy if it replies to none of its replies. -/
theorem isBounded_processors (r : Recorder) (h : ∀ m, ∀ m' ∈ r.repliesTo m, r.repliesTo m' = []) :
    r.processors.IsBounded := by
  intro m rest notes
  have hreact : r.processors.react m notes = r.handle m notes := by cases m <;> rfl
  rw [hreact]
  change r.bound (rest ++ (r.handle m notes).posts) < r.bound (m :: rest)
  unfold Recorder.bound Recorder.handle
  rw [List.map_append, List.sum_append, List.map_cons, List.sum_cons, Recorder.weight, Nat.add_comm]
  refine Nat.add_lt_add_right ?_ _
  split
  · exact Nat.zero_lt_one
  · rw [sum_weight r _ _ (h m), sum_weight r _ _ (h m)]
    exact Nat.lt_succ_self _

/-- The recorder that answers a started engine with a request to end it, and that fails at the news
that an engine has ended. -/
def answering : Recorder where
  replies := [("event engine started", [.request .terminate])]
  refusals := ["event engine terminated"]

/-- What follows for the recorder that answers and fails is bounded. -/
theorem isBounded_answering : answering.processors.IsBounded := by
  refine isBounded_processors answering fun m m' hm' => ?_
  unfold Recorder.repliesTo answering at hm'
  rw [List.lookup_cons] at hm'
  split at hm'
  · obtain rfl := List.mem_singleton.mp hm'
    rfl
  · cases hm'

/-- The recorder fails at the first message, answers the second one, and gets nothing that comes behind
the mark. -/
theorem hands_over_in_order_answerAndFail :
    answering.processors.IsBounded
      ∧ (afterUses answering.processors.noting
          ([.post (.event .engineTerminated), .post (.event .engineStarted), .pump,
            .post (.request .removeAllBreakpoints), .shutDown, .post (.request .disconnect)] ++ [.pump])
          (start .manual (#[], []))).2.state.2
        = [.event .engineTerminated, .event .engineStarted, .request .terminate,
          .request .removeAllBreakpoints] :=
  ⟨isBounded_answering,
    ((hands_over_in_order answering.processors .manual #[]).2 _ _ _ _ rfl rfl).2.2
      isBounded_answering (.inr ⟨_, rfl⟩)⟩

end Dispatcher

end DebugBridge
