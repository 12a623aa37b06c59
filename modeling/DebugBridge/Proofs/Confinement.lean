import DebugBridge.Proofs.Handling
import DebugBridge.Proofs.Outline

/-!
# Steps that concern one session

What a session does with its messages is mostly its own affair: its queue gets longer or shorter, it
learns of variables of its frames, its engine is asked, values are made. Everything else stays as it was,
and so does what depends on it: who holds a frame, and what parents lead to.

## Main definitions

* `Journal.Smooth`: a journal that goes on without an error;
* `World.Confined`, `Bridge.Confined`: a step that concerns one session;
* `Standing`: where a session stands;
* `Bridge.Arrives`: a confined step, and where the session stands after it.

## Main results

* `World.Confined.isHeld`, `World.Confined.reach`: a confined step does not decide who holds a frame and
  where a parent leads to, as far as the messages do not;
* `Bridge.Arrives.send`, `Bridge.Arrives.take`, `Bridge.Arrives.posts`: messages that come and go;
* `Bridge.Arrives.frame_elsewhere`: what is known of other frames stays.
-/

namespace DebugBridge

/-! ### Steps that concern one session -/

/-- A journal that goes on, and in which no error is logged. -/
def Journal.Smooth (j j' : Journal) : Prop :=
  ∃ ls : List LogLine, j'.lines.toList = j.lines.toList ++ ls ∧ ∀ l ∈ ls, l.level ≠ .error

namespace Journal.Smooth

variable {j j' j'' : Journal}

/-- A journal with the lines that it had logs no error. -/
theorem of_lines (h : j'.lines = j.lines) : j.Smooth j' :=
  ⟨[], by rw [h, List.append_nil], List.forall_mem_nil _⟩

/-- A journal in which no error is logged twice has none. -/
theorem trans (h : j.Smooth j') (h' : j'.Smooth j'') : j.Smooth j'' := by
  obtain ⟨ls, hls, hlevel⟩ := h
  obtain ⟨ls', hls', hlevel'⟩ := h'
  exact ⟨ls ++ ls', by rw [hls', hls, List.append_assoc], List.forall_mem_append.mpr ⟨hlevel, hlevel'⟩⟩

/-- A line that is logged is no error unless its level is that. -/
theorem log (j : Journal) {level : Level} (hlevel : level ≠ .error) (topic text : String) :
    j.Smooth (j.log level topic text) :=
  ⟨[⟨level, topic, text, j.interpreter, j.turn⟩], Array.toList_push, by simpa using hlevel⟩

end Journal.Smooth

namespace World

variable {s : Nat} {w w' w'' : World}

/-- A step that leaves everything as it was but the heap, the messages and the frames of a session, what
reached its interpreter side, and the journal. Nothing breaks off in it. -/
structure Confined (s : Nat) (w w' : World) : Prop where
  outer : ∃ heap sessions received journal,
    w' = { w with heap := heap, sessions := sessions, received := received, journal := journal }
  here : ∃ mailbox frames, w'.session s = { w.session s with mailbox := mailbox, frames := frames }
    ∧ mailbox.isOpen = (w.session s).mailbox.isOpen
  elsewhere : ∀ t, t ≠ s → w'.session t = w.session t
  received : ∃ ds : List Delivery, w'.received.toList = w.received.toList ++ ds ∧ ∀ d ∈ ds, d.session = s
  logged : w.journal.Smooth w'.journal

/-- A step that does nothing is confined. -/
theorem Confined.refl (s : Nat) (w : World) : Confined s w w :=
  ⟨⟨_, _, _, _, rfl⟩, ⟨_, _, rfl, rfl⟩, fun _ _ => rfl,
    ⟨[], (List.append_nil _).symm, List.forall_mem_nil _⟩, .of_lines rfl⟩

/-- Two confined steps are one. -/
theorem Confined.trans (h : Confined s w w') (h' : Confined s w' w'') : Confined s w w'' where
  outer := by
    obtain ⟨_, _, _, _, rfl⟩ := h.outer
    obtain ⟨_, _, _, _, rfl⟩ := h'.outer
    exact ⟨_, _, _, _, rfl⟩
  here := by
    obtain ⟨_, _, hhere, hopen⟩ := h.here
    obtain ⟨box, frames, hhere', hopen'⟩ := h'.here
    rw [hhere] at hhere' hopen'
    exact ⟨box, frames, hhere', hopen'.trans hopen⟩
  elsewhere t ht := (h'.elsewhere t ht).trans (h.elsewhere t ht)
  received := by
    obtain ⟨ds, hds, hsession⟩ := h.received
    obtain ⟨ds', hds', hsession'⟩ := h'.received
    refine ⟨ds ++ ds', by rw [hds', hds, List.append_assoc], fun d hd => ?_⟩
    rcases List.mem_append.mp hd with hd | hd
    · exact hsession d hd
    · exact hsession' d hd
  logged := h.logged.trans h'.logged

/-- What changes the heap and the journal only. -/
theorem confined_of_outer (s : Nat) (w : World) (heap : Heap) {journal : Journal}
    (hj : w.journal.Smooth journal) : Confined s w { w with heap := heap, journal := journal } :=
  ⟨⟨_, _, _, _, rfl⟩, ⟨_, _, rfl, rfl⟩, fun _ _ => rfl,
    ⟨[], (List.append_nil _).symm, List.forall_mem_nil _⟩, hj⟩

/-- What changes the messages and the frames of the session only. -/
theorem confined_modifySession {f : Session → Session} {mailbox : Mailbox Message}
    {frames : Arena FrameState}
    (hf : f (w.session s) = { w.session s with mailbox := mailbox, frames := frames })
    (hopen : mailbox.isOpen = (w.session s).mailbox.isOpen) : Confined s w (w.modifySession s f) where
  outer := ⟨_, _, _, _, rfl⟩
  here := ⟨mailbox, frames, by rw [session_modifySession, if_pos rfl, hf], hopen⟩
  elsewhere t ht := by rw [session_modifySession, if_neg (Ne.symm ht)]
  received := ⟨[], (List.append_nil _).symm, List.forall_mem_nil _⟩
  logged := .of_lines rfl

/-- What reached the interpreter side is confined. -/
theorem confined_noteReceived (w : World) (s : Nat) (r : Request) : Confined s w (w.noteReceived s r) where
  outer := ⟨_, _, _, _, rfl⟩
  here := ⟨_, _, rfl, rfl⟩
  elsewhere _ _ := rfl
  received := ⟨[⟨s, r, r.text w.marks⟩], Array.toList_push, by simp⟩
  logged := .of_lines rfl

namespace Confined

/-- What can be read of a session without its messages and frames stays as it was. -/
theorem here_eq {α : Type} (h : Confined s w w') (read : Session → α)
    (hread : ∀ x mailbox frames, read { x with mailbox := mailbox, frames := frames } = read x) (t : Nat) :
    read (w'.session t) = read (w.session t) := by
  by_cases ht : t = s
  · subst ht
    obtain ⟨_, _, hhere, -⟩ := h.here
    rw [hhere, hread]
  · rw [h.elsewhere t ht]

/-- A confined step leaves all debuggers as they were. -/
theorem debugger (h : Confined s w w') (t : Nat) : (w'.session t).debugger = (w.session t).debugger :=
  h.here_eq Session.debugger (fun _ _ _ => rfl) t

/-- A confined step leaves sessions there or not. -/
theorem alive (h : Confined s w w') (t : Nat) : (w'.session t).alive = (w.session t).alive :=
  h.here_eq Session.alive (fun _ _ _ => rfl) t

/-- A confined step leaves sessions attached or not. -/
theorem attached (h : Confined s w w') (t : Nat) : (w'.session t).attached = (w.session t).attached :=
  h.here_eq Session.attached (fun _ _ _ => rfl) t

/-- A step is confined whatever is in hand. -/
theorem holding (h : Confined s w w') (held : Option FrameRef) :
    Confined s { w with inHand := held } { w' with inHand := held } where
  outer := by
    obtain ⟨_, _, _, _, rfl⟩ := h.outer
    exact ⟨_, _, _, _, rfl⟩
  here := h.here
  elsewhere := h.elsewhere
  received := h.received
  logged := h.logged

/-- A confined step leaves a mailbox open or not. -/
theorem isOpen (h : Confined s w w') :
    (w'.session s).mailbox.isOpen = (w.session s).mailbox.isOpen := by
  obtain ⟨mailbox, _, hhere, hopen⟩ := h.here
  rw [hhere, ← hopen]

/-- A confined step lets no front end fail. -/
theorem calm (h : Confined s w w') (hc : w.Calm) : w'.Calm := by
  obtain ⟨_, _, _, _, rfl⟩ := h.outer
  exact hc

/-- A confined step moves no mark. -/
theorem marks (h : Confined s w w') : w'.marks = w.marks := by
  obtain ⟨_, _, _, _, rfl⟩ := h.outer
  rfl

end Confined

/-- Whether messages of the session or requests that its threads put off mention a frame. -/
theorem any_isMentioned (w : World) (f : FrameRef) :
    (w.sessions.cells.any (isMentioned · f)) = true ↔ ∃ t, isMentioned (w.session t) f = true := by
  rw [Array.any_eq_true]
  constructor
  · rintro ⟨t, ht, hm⟩
    refine ⟨t, ?_⟩
    rw [session, Arena.get, Array.getElem?_eq_getElem ht]
    exact hm
  · rintro ⟨t, hm⟩
    rw [session, Arena.get] at hm
    by_cases ht : t < w.sessions.cells.size
    · rw [Array.getElem?_eq_getElem ht] at hm
      exact ⟨t, ht, hm⟩
    · rw [Array.getElem?_eq_none (Nat.le_of_not_lt ht)] at hm
      cases hm

/-- A message that mentions a frame holds it. -/
theorem isHeld_of_queue {f : FrameRef} (h : (w.session s).mailbox.queue.any (isInside f) = true) :
    w.isHeld f = true := by
  have hmentioned : w.sessions.cells.any (isMentioned · f) = true := by
    refine (w.any_isMentioned f).mpr ⟨s, ?_⟩
    unfold isMentioned
    rw [h]
    rfl
  simp [World.isHeld, hmentioned]

/-- Whether a frame is held does not depend on messages that do not mention it. -/
theorem Confined.isHeld (h : Confined s w w') (hd : (w.session s).debugger.isSome = true) {f : FrameRef}
    (hmail : (w'.session s).mailbox.queue.any (isInside f) = (w.session s).mailbox.queue.any (isInside f)) :
    w'.isHeld f = w.isHeld f := by
  have hstack : w'.isOnStack f = w.isOnStack f := by
    have hthreads := h.here_eq Session.threads (fun _ _ _ => rfl) f.session
    unfold isOnStack
    rw [hthreads, h.alive]
    obtain ⟨_, _, _, _, rfl⟩ := h.outer
    rfl
  have hone : ∀ t, isMentioned (w'.session t) f = isMentioned (w.session t) f := by
    intro t
    by_cases ht : t = s
    · subst ht
      unfold isMentioned
      rw [h.debugger, hmail]
    · rw [h.elsewhere t ht]
  have hmentioned : w'.sessions.cells.any (isMentioned · f) = w.sessions.cells.any (isMentioned · f) := by
    rw [Bool.eq_iff_iff, any_isMentioned, any_isMentioned]
    simp only [hone]
  have hreceived : w'.isReceived f = w.isReceived f := by
    obtain ⟨ds, hds, hsession⟩ := h.received
    have hnone : ds.any (fun d => (w'.session d.session).debugger.isNone
        && (framesOf (.request d.request)).contains f) = false := by
      rw [List.any_eq_false]
      intro d hmem
      rw [hsession d hmem, h.debugger, ← Option.not_isSome, hd]
      simp
    unfold isReceived
    rw [← Array.any_toList, ← Array.any_toList, hds, List.any_append, hnone, Bool.or_false]
    simp only [h.debugger]
  unfold World.isHeld
  rw [hstack, hmentioned, hreceived]
  obtain ⟨_, _, _, _, rfl⟩ := h.outer
  rfl

/-- Neither does what parents lead to. -/
theorem Confined.reach (h : Confined s w w') (hd : (w.session s).debugger.isSome = true)
    (hmail : ∀ f, (w'.session s).mailbox.queue.any (isInside f) = (w.session s).mailbox.queue.any (isInside f)) :
    w'.reach = w.reach := by
  funext p
  unfold World.reach
  simp only [h.alive, fun f => h.isHeld hd (hmail f)]

end World

/-! ### Where a session stands -/

/-- What an assignment may change: the messages of a session, what is known of its frames, the heap and
the engine. -/
structure Standing (σ : Type) where
  queue : List (Envelope Message)
  frames : Arena FrameState
  heap : Heap
  engine : σ

namespace Bridge

open World

variable {σ : Type} [Inhabited σ] {s : Nat} {b b' b'' : Bridge σ}

/-- Where a session stands. -/
def standing (b : Bridge σ) (s : Nat) : Standing σ :=
  ⟨(b.world.session s).mailbox.queue, (b.world.session s).frames, b.world.heap, b.engines.get s⟩

/-- A step that leaves everything as it was but where a session stands, what reached its interpreter side
and the journal. -/
structure Confined (s : Nat) (b b' : Bridge σ) : Prop where
  world : b.world.Confined s b'.world
  engines : ∀ t, t ≠ s → b'.engines.get t = b.engines.get t
  interpreters : b'.interpreters = b.interpreters

/-- A confined step after which the session stands somewhere. -/
structure Arrives (s : Nat) (st : Standing σ) (b b' : Bridge σ) : Prop where
  confined : Confined s b b'
  stands : b'.standing s = st

/-- A bridge on which nothing is done is confined. -/
theorem Confined.refl (s : Nat) (b : Bridge σ) : Confined s b b :=
  ⟨.refl s _, fun _ _ => rfl, rfl⟩

/-- Two confined steps of a bridge are one. -/
theorem Confined.trans (h : Confined s b b') (h' : Confined s b' b'') : Confined s b b'' :=
  ⟨h.world.trans h'.world, fun t ht => (h'.engines t ht).trans (h.engines t ht),
    h'.interpreters.trans h.interpreters⟩

/-- What changes the world only. -/
theorem confined_onWorld {f : World → World} (h : b.world.Confined s (f b.world)) :
    Confined s b (b.onWorld f) :=
  ⟨h, fun _ _ => rfl, rfl⟩

namespace Arrives

variable {st st' : Standing σ}

/-- A session on which nothing is done stands where it stood. -/
theorem refl (s : Nat) (b : Bridge σ) : Arrives s (b.standing s) b b :=
  ⟨.refl s b, rfl⟩

/-- A session stands where the last step left it. -/
theorem trans (h : Arrives s st b b') (h' : Arrives s st' b' b'') : Arrives s st' b b'' :=
  ⟨h.confined.trans h'.confined, h'.stands⟩

/-- The messages of a session are those of where it stands. -/
theorem queue (h : Arrives s st b b') : (b'.world.session s).mailbox.queue = st.queue :=
  congrArg Standing.queue h.stands

/-- The heap is that of where a session stands. -/
theorem heap (h : Arrives s st b b') : b'.world.heap = st.heap :=
  congrArg Standing.heap h.stands

/-- The engine is that of where a session stands. -/
theorem engine (h : Arrives s st b b') : b'.engines.get s = st.engine :=
  congrArg Standing.engine h.stands

/-- What is written into the journal changes nothing else. -/
theorem journal (h : Arrives s st b b') {journal : Journal} (hj : b'.world.journal.Smooth journal) :
    Arrives s st b (b'.onWorld fun w => { w with journal := journal }) :=
  ⟨h.confined.trans (confined_onWorld (confined_of_outer s b'.world b'.world.heap hj)), h.stands⟩

/-- A warning leaves a session where it stands. -/
theorem warn (h : Arrives s st b b') (text : String) : Arrives s st b (b'.warn text) :=
  h.journal (.log _ (by decide) _ _)

/-- What is traced leaves a session where it stands. -/
theorem trace (h : Arrives s st b b') (topic text : String) : Arrives s st b (b'.trace topic text) :=
  h.journal (.log _ (by decide) _ _)

/-- Who is at work does not matter to where a session stands. -/
theorem setActor (h : Arrives s st b b') (name : Option String) :
    Arrives s st b (b'.onWorld (·.setActor name)) :=
  h.journal (.of_lines rfl)

/-- A new turn leaves a session where it stands. -/
theorem newTurn (h : Arrives s st b b') : Arrives s st b b'.newTurn :=
  h.journal (.of_lines rfl)

/-- An engine that was asked. -/
theorem setEngine (h : Arrives s st b b') (e : σ) :
    Arrives s { st with engine := e } b { b' with engines := b'.engines.set s e } := by
  refine ⟨h.confined.trans ⟨.refl s _, fun t ht => Arena.get_set_of_ne _ (Ne.symm ht) _, rfl⟩, ?_⟩
  rw [← h.stands]
  unfold standing
  rw [Arena.get_set_self]

/-- What is done on the heap is done where a session stands. -/
theorem onHeap {α : Type} (h : Arrives s st b b') (op : HeapM α) :
    Arrives s { st with heap := (op.run st.heap).2 } b { b' with world := (b'.world.onHeap op).2 } := by
  refine ⟨h.confined.trans (confined_onWorld (f := fun w => (w.onHeap op).2)
    (confined_of_outer s b'.world _ (.of_lines rfl))), ?_⟩
  rw [← h.stands]
  rfl

/-- The mailbox of the session is replaced by another one that is open if it was. -/
theorem replace (h : Arrives s st b b') {f : Session → Session} {box : Mailbox Message}
    (hf : f (b'.world.session s) = { b'.world.session s with mailbox := box })
    (hopen : box.isOpen = (b'.world.session s).mailbox.isOpen) :
    Arrives s { st with queue := box.queue } b (b'.onWorld (·.modifySession s f)) := by
  refine ⟨h.confined.trans (confined_onWorld (confined_modifySession hf hopen)), ?_⟩
  have hhere : (b'.onWorld (·.modifySession s f)).world.session s
      = { b'.world.session s with mailbox := box } :=
    (session_modifySession b'.world s s f).trans ((if_pos rfl).trans hf)
  rw [← h.stands]
  unfold standing
  rw [hhere]
  rfl

/-- A message that is sent comes to the end of an open queue. -/
theorem send (h : Arrives s st b b') (hopen : (b.world.session s).mailbox.isOpen = true) (m : Message) :
    Arrives s { st with queue := st.queue ++ [.message m] } b (b'.onWorld (·.send s m)) := by
  let box := (b'.world.session s).mailbox
  have hgains : box.Gains [m] (box.post m) := Mailbox.gains_post box m
  have hqueue : (box.post m).queue = st.queue ++ [.message m] := by
    rw [hgains.queue (h.confined.world.isOpen.trans hopen), h.queue]
    rfl
  rw [← hqueue]
  exact (h.trace "dispatcher" _).replace rfl hgains.isOpen

/-- A message that is taken was the first of the queue. -/
theorem take {m : Message} {rest : List (Envelope Message)} (h : Arrives s st b b')
    (hqueue : st.queue = .message m :: rest) :
    (b'.take s).1 = some m ∧ Arrives s { st with queue := rest } b (b'.take s).2 := by
  let box := (b'.world.session s).mailbox
  have hbox : box.queue = .message m :: rest := h.queue.trans hqueue
  have hfirst : box.take.1 = some m := by rw [Mailbox.take_fst, hbox]
  have hrest : box.take.2.queue = rest := by rw [Mailbox.queue_take, hbox]
  obtain ⟨-, hopen⟩ := Mailbox.queue_of_take_some (Prod.ext hfirst rfl : box.take = (some m, box.take.2))
  rw [← hrest]
  exact ⟨hfirst, h.replace rfl hopen⟩

/-- Where no message is left, nothing is taken. -/
theorem take_none (h : Arrives s st b b') (hqueue : st.queue = []) :
    (b'.take s).1 = none ∧ Arrives s st b (b'.take s).2 := by
  let box := (b'.world.session s).mailbox
  have hbox : box.queue = [] := h.queue.trans hqueue
  have hnone : box.take.1 = none := by rw [Mailbox.take_fst, hbox]
  obtain ⟨hrest, ⟨-, hopen⟩ | ⟨-, _, hmark⟩⟩ :=
    Mailbox.queue_of_take_none (Prod.ext hnone rfl : box.take = (none, box.take.2))
  · have hend := h.replace (f := fun session => { session with mailbox := box.take.2 }) rfl hopen
    rw [hrest, ← hqueue] at hend
    exact ⟨hnone, hend⟩
  · rw [hbox] at hmark
    cases hmark

/-- What reached the interpreter side leaves a session where it stands. -/
theorem noteReceived (h : Arrives s st b b') (r : Request) :
    Arrives s st b (b'.onWorld (·.noteReceived s r)) :=
  ⟨h.confined.trans (confined_onWorld (confined_noteReceived b'.world s r)), h.stands⟩

/-- Requests of the model come to the end of the queue. -/
theorem posts (h : Arrives s st b b') (halive : (b.world.session s).alive = true)
    (hattached : (b.world.session s).attached = true) (hopen : (b.world.session s).mailbox.isOpen = true)
    (rs : List Request) :
    Arrives s { st with queue := st.queue ++ rs.map fun r => .message (.request r) } b
      (b'.onWorld fun w => rs.foldl (fun w r => w.post s r) w) := by
  induction rs generalizing st b' with
  | nil =>
      rw [List.map_nil, List.append_nil]
      exact h
  | cons r rs ih =>
      have hpost : b'.world.post s r = b'.world.send s (.request r) := by
        rw [World.post, h.confined.world.alive, h.confined.world.attached, halive, hattached]
        rfl
      have hstep : (b'.onWorld fun w => (r :: rs).foldl (fun w r => w.post s r) w)
          = (b'.onWorld (·.send s (.request r))).onWorld fun w => rs.foldl (fun w r => w.post s r) w :=
        congrArg (fun w => { b' with world := rs.foldl (fun w r => w.post s r) w }) hpost
      rw [hstep, List.map_cons, List.append_cons]
      exact ih (h.send hopen (.request r))

/-- What is known of a frame of the session. -/
theorem frame (h : Arrives s st b b') (hf : f.session = s) :
    b'.world.frame f = st.frames.get f.index := by
  unfold World.frame
  rw [hf]
  exact congrArg (fun st => st.frames.get f.index) h.stands

/-- What is known of all frames but one. -/
theorem frame_elsewhere (h : Arrives s st b b') {i : Nat}
    (hframes : ∀ k, k ≠ i → st.frames.get k = (b.standing s).frames.get k) {g : FrameRef}
    (hg : (g.session, g.index) ≠ (s, i)) : b'.world.frame g = b.world.frame g := by
  by_cases hs : g.session = s
  · have hi : g.index ≠ i := fun h => hg (by rw [hs, h])
    rw [h.frame hs, hframes g.index hi, (Arrives.refl s b).frame hs]
  · unfold World.frame
    rw [h.confined.world.elsewhere g.session hs]

end Arrives

end Bridge

end DebugBridge
