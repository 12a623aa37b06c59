import DebugBridge.Bridge.Delivery
import DebugBridge.Proofs.Executions
import DebugBridge.Proofs.Footprint
import DebugBridge.Tree.Command

/-!
# What the two sides of a session may change

The interpreter side of a session changes its debugger and tells the model of events; the model,
and a user who gives orders through it, ask the debugger by requests. Neither reaches into the
other: all that passes between them lies in the mailbox of the session, to which both only add.

## Main definitions

* `Mailbox.Gains`, `World.mail`: messages that are added, and those that wait;
* `World.Tells`: a step of the interpreter side of a session;
* `World.Speaks`: such a step that leaves the debugger and all activations where they are;
* `World.Asks`: a step of users, who give orders and look at things;
* `World.Still`: a step that shows in the journal and in the variables of frames at most;
* `World.Plain`: such a step that leaves nothing behind but plain notifications.

## Main results

* `tells_perform`, `tells_receive`: calls of interpreter threads and requests that a debugger takes
  are steps of the interpreter side;
* `keeps_commandThread` and the lemmas after it: what users do are steps of users.
-/

namespace DebugBridge

/-! ### Messages that are added -/

namespace Mailbox

variable {μ : Type}

/-- Messages came to the end of a queue, unless the mailbox is closed. -/
structure Gains (box : Mailbox μ) (ms : List μ) (box' : Mailbox μ) : Prop where
  isOpen : box'.isOpen = box.isOpen
  content : box'.queue = if box.isOpen then box.queue ++ ms.map .message else box.queue

/-- An open mailbox holds what it gained behind what it held. -/
theorem Gains.queue {box box' : Mailbox μ} {ms : List μ} (h : box.Gains ms box')
    (ho : box.isOpen = true) : box'.queue = box.queue ++ ms.map .message := by
  rw [h.content, if_pos ho]

/-- Where nothing came, nothing changed. -/
theorem Gains.queue_nil {box box' : Mailbox μ} (h : box.Gains [] box') :
    box'.queue = box.queue := by
  rw [h.content]
  simp

/-- A mailbox that is left as it is gained nothing. -/
theorem Gains.refl (box : Mailbox μ) : box.Gains [] box :=
  ⟨rfl, by simp⟩

/-- What is gained in two steps is gained in their order. -/
theorem Gains.trans {box box' box'' : Mailbox μ} {ms ns : List μ} (h : box.Gains ms box')
    (h' : box'.Gains ns box'') : box.Gains (ms ++ ns) box'' := by
  refine ⟨h'.isOpen.trans h.isOpen, ?_⟩
  rw [h'.content, h.content, h.isOpen]
  split
  · rw [List.map_append, List.append_assoc]
  · rfl

/-- A message that is posted is gained. -/
theorem gains_post (box : Mailbox μ) (m : μ) : box.Gains [m] (box.post m) := by
  refine ⟨?_, ?_⟩
  · unfold post add
    split <;> rfl
  · rw [post, queue_add]
    rfl

end Mailbox

/-- Messages hold no mark. -/
theorem isMarked_append_message {μ : Type} (queue : List (Envelope μ)) (ms : List μ) :
    isMarked (queue ++ ms.map .message) = isMarked queue := by
  induction queue with
  | nil =>
      induction ms with
      | nil => rfl
      | cons m ms ih => exact ih
  | cons envelope rest ih =>
      cases envelope with
      | message m => exact ih
      | shutdown => rfl

/-- Messages without a mark among them are all delivered. -/
@[simp] theorem deliverable_message {μ : Type} (ms : List μ) :
    deliverable (ms.map .message) = ms := by
  induction ms with
  | nil => rfl
  | cons m ms ih => exact congrArg (m :: ·) ih

/-- The messages of a session that wait to be delivered, oldest first. -/
def World.mail (w : World) (s : Nat) : List Message :=
  deliverable (w.session s).mailbox.queue

/-! ### Parts of a session -/

/-- A session without what it knows of its frames. -/
def Session.unframed (x : Session) : Session :=
  { x with frames := ∅ }

/-- What does not concern frames is the same in sessions that differ in nothing else. -/
theorem Session.eq_of_unframed {α : Type} {x y : Session} (f : Session → α)
    (hf : ∀ x : Session, f x.unframed = f x) (h : x.unframed = y.unframed) : f x = f y :=
  ((hf x).symm.trans (congrArg f h)).trans (hf y)

/-- What the model of a session holds, beside attributes and what it knows of its frames. -/
def Session.model (x : Session) : Session :=
  { x with
    process := x.process.map fun p => { p with attributes := [] }
    frames := ∅
    mailbox := .closed
    debugger := none }

/-- A model holds its threads. -/
theorem Session.threads_model (x : Session) : x.model.threads = x.threads := by
  unfold model threads
  cases x.process <;> rfl

/-- A session to which no debugger is attached. -/
def Session.IsDeserted (x : Session) : Prop :=
  ∀ d, x.debugger = some d → d.attached = false

/-- A session whose interpreter side took a step. A debugger that left its session does not come
back, and says nothing any more. -/
structure Session.Told (x x' : Session) : Prop where
  model : x'.model = x.model
  debugger : ∀ d', x'.debugger = some d' → ∃ d, x.debugger = some d ∧ d.Yields d'
  present : x'.debugger.isSome = x.debugger.isSome
  mailbox : ∃ es : List Event, x.mailbox.Gains (es.map .event) x'.mailbox ∧ (x.IsDeserted → es = [])

/-- Requests that a session sends as long as it is attached. Nobody resumes all threads at once but
a debugger that leaves. -/
def Request.IsProper : Request → Prop
  | .removeAllBreakpoints | .disconnect | .resume none _ => False
  | _ => True

/-- Requests by which users order something for one thread or look at something. -/
def Request.IsOrder : Request → Prop
  | .breakpoint _ _ _ => False
  | r => r.IsProper

/-- What users order is what a session sends as long as it is attached. -/
theorem Request.IsOrder.isProper {r : Request} (h : r.IsOrder) : r.IsProper := by
  cases r with
  | breakpoint => trivial
  | _ => exact h

/-- A session whose users took a step. One that is not attached drops what they ask for. -/
structure Session.Asked (x x' : Session) : Prop where
  model : x'.model = x.model
  debugger : x'.debugger = x.debugger
  mailbox : ∃ rs : List Request, (∀ r ∈ rs, r.IsOrder)
    ∧ x.mailbox.Gains (rs.map .request) x'.mailbox ∧ (x.attached = false → rs = [])

namespace Session

/-- A session that is left as it is took a step of its interpreter side. -/
theorem Told.refl (x : Session) : x.Told x :=
  ⟨rfl, fun d h => ⟨d, h, .refl d⟩, rfl, [], .refl _, fun _ => rfl⟩

/-- A debugger that left does not come back. -/
theorem Told.isDeserted {x y : Session} (h : x.Told y) (hx : x.IsDeserted) : y.IsDeserted := by
  intro d' hd'
  obtain ⟨d, hd, hy⟩ := h.debugger d' hd'
  cases ha : d'.attached with
  | false => rfl
  | true =>
      have hleft := hx d hd
      rw [hy.attached ha] at hleft
      cases hleft

/-- Two steps of the interpreter side are one. -/
theorem Told.trans {x y z : Session} (h : x.Told y) (h' : y.Told z) : x.Told z := by
  obtain ⟨es, hes, hleft⟩ := h.mailbox
  obtain ⟨es', hes', hleft'⟩ := h'.mailbox
  refine ⟨h'.model.trans h.model, fun d'' hd'' => ?_, h'.present.trans h.present, es ++ es', ?_,
    fun hx => ?_⟩
  · obtain ⟨d', hd', hy'⟩ := h'.debugger d'' hd''
    obtain ⟨d, hd, hy⟩ := h.debugger d' hd'
    exact ⟨d, hd, hy.trans hy'⟩
  · rw [List.map_append]
    exact hes.trans hes'
  · rw [hleft hx, hleft' (h.isDeserted hx)]
    rfl

/-- A session that is left as it is took a step of its users. -/
theorem Asked.refl (x : Session) : x.Asked x :=
  ⟨rfl, rfl, [], List.forall_mem_nil _, .refl _, fun _ => rfl⟩

/-- Two steps of users are one. -/
theorem Asked.trans {x y z : Session} (h : x.Asked y) (h' : y.Asked z) : x.Asked z := by
  obtain ⟨rs, hrs, hbox, hidle⟩ := h.mailbox
  obtain ⟨rs', hrs', hbox', hidle'⟩ := h'.mailbox
  have hatt : y.attached = x.attached := (congrArg Session.attached h.model :)
  refine ⟨h'.model.trans h.model, h'.debugger.trans h.debugger, rs ++ rs', ?_, ?_, fun hx => ?_⟩
  · intro r hr
    rcases List.mem_append.mp hr with hr | hr
    · exact hrs r hr
    · exact hrs' r hr
  · rw [List.map_append]
    exact hbox.trans hbox'
  · rw [hidle hx, hidle' (hatt.trans hx)]
    rfl

/-- Sessions that differ in what they know of frames only. -/
theorem Asked.of_unframed {x y : Session} (h : y.unframed = x.unframed) : x.Asked y := by
  have hd : y.unframed.debugger = x.unframed.debugger := by rw [h]
  have hm : y.unframed.mailbox = x.unframed.mailbox := by rw [h]
  have hx : y.unframed.model = x.unframed.model := by rw [h]
  have hbox : y.mailbox = x.mailbox := hm
  exact ⟨hx, hd, [], List.forall_mem_nil _, hbox ▸ .refl _, fun _ => rfl⟩

end Session

namespace World

/-! ### Steps of worlds -/

/-- A step of the interpreter side of a session. -/
structure Tells (s : Nat) (w w' : World) : Prop where
  here : (w.session s).Told (w'.session s)
  elsewhere : ∀ t, t ≠ s → w'.session t = w.session t
  managers : w'.managers = w.managers
  reaction : w'.reaction = w.reaction
  numbers : w.nextNumber ≤ w'.nextNumber
  mild : Mild w w'

/-- The interpreter side leaves the models of all sessions as they are. -/
theorem model_of_tells {s t : Nat} {w w' : World} (h : Tells t w w') :
    (w'.session s).model = (w.session s).model := by
  by_cases hst : s = t
  · subst hst
    exact h.here.model
  · rw [h.elsewhere s hst]

/-- A step of the interpreter side of a session that leaves its debugger as it is and moves no
activation. -/
structure Speaks (s : Nat) (w w' : World) : Prop extends Tells s w w' where
  same : (w'.session s).debugger = (w.session s).debugger
  marks : w'.marks = w.marks

/-- A step of users, who give orders and look at things. -/
structure Asks (w w' : World) : Prop where
  everywhere : ∀ t, (w.session t).Asked (w'.session t)
  managers : w'.managers = w.managers
  reaction : w'.reaction = w.reaction
  numbers : w.nextNumber ≤ w'.nextNumber
  mild : Mild w w'

/-- A step that shows in the journal, in the heap and in what is known of frames at most. -/
structure Still (w w' : World) : Prop where
  size : w.sessions.size ≤ w'.sessions.size
  everywhere : ∀ t, (w'.session t).unframed = (w.session t).unframed
  managers : w'.managers = w.managers
  reaction : w'.reaction = w.reaction
  numbers : w.nextNumber ≤ w'.nextNumber

/-- A step that shows in no session and leaves no more behind than plain notifications and frames
that are out of date. -/
structure Plain (w w' : World) : Prop extends Still w w' where
  marks : w'.marks = w.marks
  mild : Mild w w'

/-- Steps of the interpreter side hold of a sequence. -/
theorem steady_tells (s : Nat) : Steady (Tells s) where
  refl w := ⟨.refl _, fun _ _ => rfl, rfl, rfl, Nat.le_refl _, steady_mild.refl w⟩
  trans h h' :=
    ⟨h.here.trans h'.here, fun t ht => (h'.elsewhere t ht).trans (h.elsewhere t ht),
      h'.managers.trans h.managers, h'.reaction.trans h.reaction, Nat.le_trans h.numbers h'.numbers,
      steady_mild.trans h.mild h'.mild⟩

/-- Steps that leave the debugger as it is hold of a sequence. -/
theorem steady_speaks (s : Nat) : Steady (Speaks s) where
  refl w := ⟨(steady_tells s).refl w, rfl, rfl⟩
  trans h h' := ⟨(steady_tells s).trans h.toTells h'.toTells, h'.same.trans h.same,
    h'.marks.trans h.marks⟩

/-- Steps of users hold of a sequence. -/
theorem steady_asks : Steady Asks where
  refl w := ⟨fun _ => .refl _, rfl, rfl, Nat.le_refl _, steady_mild.refl w⟩
  trans h h' :=
    ⟨fun t => (h.everywhere t).trans (h'.everywhere t), h'.managers.trans h.managers,
      h'.reaction.trans h.reaction, Nat.le_trans h.numbers h'.numbers,
      steady_mild.trans h.mild h'.mild⟩

/-- Steps that are still hold of a sequence. -/
theorem steady_still : Steady Still where
  refl _ := ⟨Nat.le_refl _, fun _ => rfl, rfl, rfl, Nat.le_refl _⟩
  trans h h' :=
    ⟨Nat.le_trans h.size h'.size, fun t => (h'.everywhere t).trans (h.everywhere t),
      h'.managers.trans h.managers,
      h'.reaction.trans h.reaction, Nat.le_trans h.numbers h'.numbers⟩

/-- Steps that are plain hold of a sequence. -/
theorem steady_plain : Steady Plain where
  refl w := ⟨steady_still.refl w, rfl, steady_mild.refl w⟩
  trans h h' := ⟨steady_still.trans h.toStill h'.toStill, h'.marks.trans h.marks,
    steady_mild.trans h.mild h'.mild⟩

/-- What shows in no session is a step of users. -/
theorem Plain.asks {w w' : World} (h : Plain w w') : Asks w w' :=
  ⟨fun t => .of_unframed (h.everywhere t), h.managers, h.reaction, h.numbers, h.mild⟩

/-- What changes no session and no manager is still. -/
theorem Still.of_sessions {w w' : World} (h : w'.sessions = w.sessions)
    (hm : w'.managers = w.managers) (hr : w'.reaction = w.reaction)
    (hn : w.nextNumber ≤ w'.nextNumber) : Still w w' :=
  ⟨Nat.le_of_eq (by rw [h]), fun t => by rw [session, session, h], hm, hr, hn⟩

/-- A mild step that changes no session is plain, if it changes neither managers nor marks. -/
theorem Plain.of_sessions {w w' : World} (h : w'.sessions = w.sessions)
    (hm : w'.managers = w.managers) (hr : w'.reaction = w.reaction)
    (hn : w.nextNumber ≤ w'.nextNumber) (hmarks : w'.marks = w.marks) (hmild : Mild w w') :
    Plain w w' :=
  ⟨.of_sessions h hm hr hn, hmarks, hmild⟩

/-- What changes no session and no manager is a step of any interpreter side. -/
theorem Tells.of_sessions {s : Nat} {w w' : World} (h : w'.sessions = w.sessions)
    (hm : w'.managers = w.managers) (hr : w'.reaction = w.reaction)
    (hn : w.nextNumber ≤ w'.nextNumber) (hmild : Mild w w') : Tells s w w' := by
  have hs : ∀ t, w'.session t = w.session t := fun t => by rw [session, session, h]
  exact ⟨hs s ▸ .refl _, fun t _ => hs t, hm, hr, hn, hmild⟩

/-- A mild step that changes no session is one of any interpreter side, if it changes neither
managers nor marks. -/
theorem Speaks.of_sessions {s : Nat} {w w' : World} (h : w'.sessions = w.sessions)
    (hm : w'.managers = w.managers) (hr : w'.reaction = w.reaction)
    (hn : w.nextNumber ≤ w'.nextNumber) (hmarks : w'.marks = w.marks) (hmild : Mild w w') :
    Speaks s w w' :=
  ⟨.of_sessions h hm hr hn hmild, by rw [session, session, h], hmarks⟩

/-! ### Messages that are sent -/

/-- A message goes into the mailbox of its session and no other. -/
theorem session_send (w : World) (s t : Nat) (m : Message) :
    (w.send s m).session t
      = if s = t then { w.session s with mailbox := (w.session s).mailbox.post m }
        else w.session t := by
  simp only [send, session_modifySession, session_trace]

/-- The debugger of a session is the one that is there. -/
theorem debugger_eq {w : World} {s : Nat} {d : Debugger} (h : (w.session s).debugger = some d) :
    w.debugger s = d := by
  rw [debugger, h]
  rfl

/-- A session that has a debugger has the one that is read from it. -/
theorem debugger_of_isSome {w : World} {s : Nat} (h : (w.session s).debugger.isSome = true) :
    (w.session s).debugger = some (w.debugger s) := by
  obtain ⟨d, hd⟩ := Option.isSome_iff_exists.mp h
  rw [debugger_eq hd, hd]

/-- A debugger that is attached is there. -/
theorem debugger_of_attached {w : World} {s : Nat} (h : (w.debugger s).attached = true) :
    (w.session s).debugger = some (w.debugger s) := by
  cases hd : (w.session s).debugger with
  | none =>
      rw [debugger, hd] at h
      cases h
  | some d => rw [debugger_eq hd]

/-- A debugger that is attached posts an event to its own session. -/
theorem speaks_send (w : World) {s : Nat} (ha : (w.debugger s).attached = true) (e : Event) :
    Speaks s w (w.send s (.event e)) := by
  have hs : (w.send s (.event e)).session s
      = { w.session s with mailbox := (w.session s).mailbox.post (.event e) } := by
    rw [session_send, if_pos rfl]
  refine ⟨⟨?_, fun t ht => ?_, rfl, rfl, Nat.le_refl _, mild_send w s _⟩, by rw [hs], rfl⟩
  · rw [hs]
    refine ⟨rfl, fun d h => ⟨d, h, .refl d⟩, rfl, [e], Mailbox.gains_post _ _, fun hdeserted => ?_⟩
    rw [hdeserted _ (debugger_of_attached ha)] at ha
    cases ha
  · rw [session_send, if_neg (Ne.symm ht)]

/-- A debugger tells an event if it is attached, and else nothing happens. -/
theorem speaks_fire (w : World) (s : Nat) (e : Event) : Speaks s w (w.fire s e) := by
  unfold fire
  split
  · next ha => exact speaks_send w ha e
  · exact (steady_speaks s).refl w

/-- A session that is attached posts an order to itself. -/
theorem asks_send (w : World) {s : Nat} (ha : (w.session s).attached = true) {r : Request}
    (hr : r.IsOrder) : Asks w (w.send s (.request r)) := by
  refine ⟨fun t => ?_, rfl, rfl, Nat.le_refl _, mild_send w s _⟩
  rw [session_send]
  split
  · next h =>
      subst h
      exact ⟨rfl, rfl, [r], by simpa using hr, Mailbox.gains_post _ _, fun hidle => by
        rw [hidle] at ha; cases ha⟩
  · exact .refl _

/-- What is traced is plain. -/
theorem plain_trace (w : World) (topic text : String) : Plain w (w.trace topic text) :=
  .of_sessions rfl rfl rfl (Nat.le_refl _) rfl (mild_trace w topic text)

/-- A session sends an order if it is attached, and else nothing happens. -/
theorem asks_post (w : World) (s : Nat) {r : Request} (hr : r.IsOrder) :
    Asks w (w.post s r) := by
  unfold post
  split
  · exact steady_asks.refl w
  · split
    · next ha => exact asks_send w ha hr
    · exact (plain_trace w _ _).asks

/-! ### Steps of the interpreter side -/

section Debugger

variable {s : Nat}

/-- What the interpreter side traces is a step of it. -/
theorem speaks_trace (w : World) (topic text : String) : Speaks s w (w.trace topic text) :=
  .of_sessions rfl rfl rfl (Nat.le_refl _) rfl (mild_trace w topic text)

/-- What the interpreter side logs is a step of it. -/
theorem speaks_log (w : World) (level : Level) (topic text : String) :
    Speaks s w (w.log level topic text) :=
  .of_sessions rfl rfl rfl (Nat.le_refl _) rfl (.beside rfl rfl rfl)

/-- Who is at work does not show in any session. -/
theorem speaks_setActor (w : World) (who : Option String) : Speaks s w (w.setActor who) :=
  .of_sessions rfl rfl rfl (Nat.le_refl _) rfl (.beside rfl rfl rfl)

/-- What is careful with values is a step of the interpreter side. -/
theorem speaks_onHeap {α : Type} (w : World) {op : HeapM α} (h : Careful op) :
    Speaks s w (w.onHeap op).2 :=
  .of_sessions rfl rfl rfl (Nat.le_refl _) rfl (mild_onHeap w (h w.heap))

/-- The debugger of a session is changed in that session and in no other. -/
theorem session_modifyDebugger (w : World) (s t : Nat) (f : Debugger → Debugger) :
    (w.modifyDebugger s f).session t
      = if s = t then { w.session s with debugger := (w.session s).debugger.map f }
        else w.session t := by
  simp only [modifyDebugger, session_modifySession]

/-- A debugger that is changed is the one of its session. -/
theorem debugger_modifyDebugger (w : World) (f : Debugger → Debugger) :
    ((w.modifyDebugger s f).session s).debugger = (w.session s).debugger.map f := by
  rw [session_modifyDebugger, if_pos rfl]

/-- A debugger may be changed as long as it does not come back to a session that it left. -/
theorem tells_modifyDebugger (w : World) (f : Debugger → Debugger)
    (hf : ∀ d, (w.session s).debugger = some d → d.Yields (f d)) :
    Tells s w (w.modifyDebugger s f) := by
  refine ⟨?_, fun t ht => ?_, rfl, rfl, Nat.le_refl _, mild_modifyDebugger w s f⟩
  · rw [session_modifyDebugger, if_pos rfl]
    refine ⟨rfl, fun d' hd' => ?_, Option.isSome_map, [], .refl _, fun _ => rfl⟩
    obtain ⟨d, hd, rfl⟩ := Option.map_eq_some_iff.mp hd'
    exact ⟨d, hd, hf d hd⟩
  · rw [session_modifyDebugger, if_neg (Ne.symm ht)]

/-- Nobody is held up by a debugger that is gone. -/
theorem tells_putExecution (w : World) {x : Execution}
    (hx : (w.debugger s).Gone → x.waiting = none) : Tells s w (w.putExecution s x) :=
  tells_modifyDebugger w _ fun d hd => d.yields_put (debugger_eq hd ▸ hx)

/-- A debugger that knows a thread finds its execution as it is. -/
theorem executionOf_eq {w : World} {i : Interpreter} {d : Debugger} {x : Execution}
    (hd : (w.session i.session).debugger = some d) (hx : d.ofOwner? i.id = some x) :
    w.executionOf i = (x, w) := by
  unfold executionOf
  rw [debugger_eq hd, hx]

/-- A thread that is met for the first time is told of by a step of the interpreter side. -/
theorem tells_executionOf (w : World) (i : Interpreter) :
    Tells i.session w (w.executionOf i).2 := by
  unfold executionOf
  split
  · exact (steady_tells _).refl w
  · next hnew =>
      have hnumber : Tells i.session w w.number.2 :=
        .of_sessions rfl rfl rfl (Nat.le_succ _) (.beside rfl rfl rfl)
      refine (steady_tells _).trans hnumber
        (tells_modifyDebugger w.number.2 _ fun d hd => ?_)
      exact d.yields_insert (debugger_eq (w := w) hd ▸ hnew) rfl

/-- A change that keeps a debugger attached or not can be made to the debugger of a session. -/
theorem attached_modifyDebugger (w : World) {f : Debugger → Debugger}
    (hf : ∀ d, (f d).attached = d.attached) :
    ((w.modifyDebugger s f).debugger s).attached = (w.debugger s).attached := by
  rw [debugger, debugger, debugger_modifyDebugger]
  cases (w.session s).debugger with
  | none => rfl
  | some d => exact hf d

/-- What is known of a thread at first sight holds up nobody. -/
theorem attached_executionOf (w : World) (i : Interpreter) :
    ((w.executionOf i).2.debugger i.session).attached = (w.debugger i.session).attached := by
  unfold executionOf
  cases (w.debugger i.session).ofOwner? i.id with
  | some x => rfl
  | none => exact attached_modifyDebugger w.number.2 fun _ => rfl

/-- A thread of a debugger that is gone is not held up. -/
theorem waiting_executionOf (w : World) (i : Interpreter)
    (h : ((w.executionOf i).2.debugger i.session).Gone) : (w.executionOf i).1.waiting = none := by
  unfold executionOf at h ⊢
  cases hx : (w.debugger i.session).ofOwner? i.id with
  | some x =>
      rw [hx] at h
      exact h.free x (Debugger.mem_of_ofOwner? hx)
  | none => rfl

/-- A thread that leaves a call is traced, and nothing else happens. -/
theorem speaks_leaveCall (w : World) (x : Execution) : Speaks s w (w.leaveCall s x) := by
  have h := steady_speaks s
  have hactor := speaks_setActor (s := s) w x.handle.name
  have htrace := h.trans hactor
    (speaks_trace _ "runtime" s!"{x.handle.name} resumed ({x.resumeKind.name})")
  exact h.trans htrace (h.trans (speaks_fire _ s _) (speaks_setActor _ _))

/-- A thread that goes on is told of by a step of the interpreter side. -/
theorem tells_resumeExecution (w : World) (kind : ResumeKind) (x : Execution) :
    Tells s w (w.resumeExecution s kind x) := by
  have h := tells_putExecution (s := s) w (x := x.resume w.marks kind) fun _ => by simp
  unfold resumeExecution
  split
  · exact (steady_tells s).trans h (speaks_leaveCall _ _).toTells
  · exact h

/-- A thread that goes on is put back as it goes on. -/
theorem debugger_resumeExecution (w : World) (kind : ResumeKind) (x : Execution) :
    ((w.resumeExecution s kind x).session s).debugger
      = (w.session s).debugger.map (·.put (x.resume w.marks kind)) := by
  have h := debugger_modifyDebugger (s := s) w (·.put (x.resume w.marks kind))
  unfold resumeExecution
  split
  · exact (speaks_leaveCall _ _).same.trans h
  · exact h

/-- What is done for one execution after the other. -/
theorem tells_foldl {f : World → Execution → World} (hf : ∀ w x, Tells s w (f w x))
    (xs : List Execution) (w : World) : Tells s w (xs.foldl f w) := by
  induction xs generalizing w with
  | nil => exact (steady_tells s).refl w
  | cons x xs ih => exact (steady_tells s).trans (hf w x) (ih _)

/-- Whoever waits is released when every execution is resumed. -/
theorem gone_foldl (kind : ResumeKind) (xs : List Execution) (w : World) {d d' : Debugger}
    (hd : (w.session s).debugger = some d) (ha : d.attached = false) (ht : d.terminated = true)
    (hx : ∀ y ∈ d.executions, y.waiting = none ∨ y.owner ∈ xs.map Execution.owner)
    (hd' : ((xs.foldl (fun w x => w.resumeExecution s kind x) w).session s).debugger = some d') :
    d'.Gone := by
  induction xs generalizing w d with
  | nil =>
      obtain rfl := Option.some.inj (hd.symm.trans hd')
      exact ⟨ha, ht, fun y hy => (hx y hy).resolve_right (List.not_mem_nil)⟩
  | cons x xs ih =>
      have hput := debugger_resumeExecution (s := s) w kind x
      rw [hd] at hput
      refine ih _ hput ha ht (fun y hy => ?_) hd'
      obtain ⟨hy, hne⟩ | ⟨rfl, -⟩ := Debugger.mem_put hy
      · refine (hx y hy).imp id fun hmem => ?_
        rw [Execution.owner_resume] at hne
        exact (List.mem_cons.mp hmem).resolve_left hne
      · exact .inl (by simp)

/-- A debugger that leaves is told of by a step of the interpreter side. -/
theorem tells_detach (w : World) : Tells s w (w.detach s) := by
  have h := steady_tells s
  have hsilent : Tells s w (w.modifyDebugger s Debugger.silence) :=
    tells_modifyDebugger w _ fun d _ => d.yields_silence
  have hfree := tells_foldl (s := s) (fun w x => tells_resumeExecution w .clientRequest x)
  exact h.trans hsilent (h.trans (hfree _ _) (speaks_trace _ _ _).toTells)

/-- A debugger that takes leave of its session is gone. -/
theorem gone_detach (w : World) {d' : Debugger} (h : ((w.detach s).session s).debugger = some d') :
    d'.Gone := by
  let u := w.modifyDebugger s Debugger.silence
  have hu : (u.session s).debugger = (w.session s).debugger.map Debugger.silence :=
    debugger_modifyDebugger w _
  have hsome : (u.session s).debugger.isSome = true := by
    have hpresent := (tells_detach (s := s) w).here.present
    rw [h] at hpresent
    rw [hu, Option.isSome_map, ← hpresent]
    rfl
  obtain ⟨d, hd⟩ := Option.isSome_iff_exists.mp hsome
  obtain ⟨d₀, -, rfl⟩ := Option.map_eq_some_iff.mp (hu.symm.trans hd)
  refine gone_foldl .clientRequest (u.debugger s).executions u hd rfl rfl (fun y hy => .inr ?_) h
  rw [debugger_eq hd]
  exact List.mem_map_of_mem hy

/-- Threads that are resumed go on by a step of the interpreter side. -/
theorem tells_resume (w : World) (kind : ResumeKind) (thread : Option Handle) :
    Tells s w (w.resume s kind thread) := by
  cases thread with
  | none => exact tells_foldl (fun w x => tells_resumeExecution w kind x) _ _
  | some handle =>
      simp only [resume]
      split
      · exact tells_resumeExecution w kind _
      · exact (speaks_trace w _ _).toTells

/-- A breakpoint that comes or goes is put down by a step of the interpreter side. -/
theorem tells_updateTable (w : World) (script : Script) (b : Breakpoint) (mode : BreakpointMode) :
    Tells s w (w.updateTable s script b mode) := by
  refine tells_modifyDebugger w _ fun d _ => ?_
  cases mode with
  | add => exact d.yields_table _
  | remove => exact d.yields_table _

/-- Who is asked to stop by itself is marked, and that is all. -/
theorem askToSuspend_eq (w : World) (s : Nat) (thread : Option Handle) :
    ∃ f : Execution → Execution, (∀ x, f x = x ∨ f x = { x with suspendRequested := true })
      ∧ w.askToSuspend s thread
        = w.modifyDebugger s fun d => { d with executions := d.executions.map f } := by
  exact ⟨_, fun _ => (Decidable.em _).elim (fun h => .inr (if_pos h)) fun h => .inl (if_neg h), rfl⟩

/-- A thread may change in any way that leaves it waiting or not. -/
theorem tells_modifyExecution (w : World) (i : Interpreter) (f : Execution → Execution)
    (hf : ∀ x, (f x).waiting = x.waiting) : Tells i.session w (w.modifyExecution i f) :=
  (steady_tells _).trans (tells_executionOf w i) (tells_putExecution _ fun hgone =>
    (hf _).trans (waiting_executionOf w i hgone))

/-- A thread leaves an activation by a step of the interpreter side. -/
theorem tells_popActivation (w : World) (i : Interpreter) :
    Tells i.session w (w.popActivation i).2 :=
  tells_modifyExecution w i (fun x => { x with stack := x.stack.tail }) fun _ => rfl

/-- A thread comes to a line by a step of the interpreter side. -/
theorem tells_reachLine (w : World) (i : Interpreter) (script : Script) (line : Nat) :
    Tells i.session w (w.reachLine i script line).2 := by
  have h := steady_tells i.session
  have hx := tells_executionOf w i
  simp only [reachLine]
  split
  · exact hx
  · next top rest _ =>
      let u : World :=
        { (w.executionOf i).2 with marks := (w.executionOf i).2.marks.moveTo top line }
      have hm : Tells i.session (w.executionOf i).2 u :=
        .of_sessions rfl rfl rfl (Nat.le_refl _) (.beside rfl rfl rfl)
      split
      · exact h.trans hx hm
      · have hput := tells_putExecution (s := i.session) u
          (x := { (w.executionOf i).1 with suspendRequested := false }) (waiting_executionOf w i)
        exact h.trans hx (h.trans hm (h.trans hput (speaks_trace _ _ _).toTells))

/-- A thread that comes to a line leaves the debugger attached or not. -/
theorem attached_reachLine (w : World) (i : Interpreter) (script : Script) (line : Nat) :
    ((w.reachLine i script line).2.debugger i.session).attached = (w.debugger i.session).attached := by
  have hopen := attached_executionOf w i
  unfold reachLine
  generalize w.executionOf i = opened at hopen
  obtain ⟨x, u⟩ := opened
  dsimp only at hopen ⊢
  split
  · exact hopen
  · split
    · exact hopen
    · rw [← hopen]
      exact attached_modifyDebugger _ fun _ => rfl

/-- A thread that ends is told of by a step of the interpreter side. -/
theorem tells_finishThread (w : World) (i : Interpreter) :
    Tells i.session w (w.finishThread i) := by
  unfold finishThread
  split
  · exact (steady_tells _).refl w
  · have herase := tells_modifyDebugger (s := i.session) w (·.erase i.id) fun d _ =>
      d.yields_erase i.id
    exact (steady_tells _).trans herase (speaks_fire _ _ _).toTells

/-- An interpreter that ends is told of by a step of the interpreter side. -/
theorem tells_finishEngine (w : World) : Tells s w (w.finishEngine s) := by
  have h := steady_tells s
  have hfire := (speaks_fire w s .engineTerminated).toTells
  exact h.trans hfire (h.trans (tells_detach _) (tells_modifyDebugger _ _ fun d _ =>
    d.yields_forget))

end Debugger

end World

/-! ### Calls and requests -/

namespace Bridge

open World

variable {σ : Type} [Inhabited σ] [Engine σ] {s : Nat}

/-- Variables are reported by a step that leaves the debugger as it is. -/
theorem speaks_reportVariables (b : Bridge σ) (frame : FrameRef) :
    Speaks s b.world (b.reportVariables s frame).world := by
  unfold reportVariables askEngine
  dsimp only
  split
  · next b' h =>
      obtain ⟨-, rfl⟩ := Prod.mk.inj h
      exact speaks_log b.world _ _ _
  · next reports b' h =>
      obtain ⟨-, rfl⟩ := Prod.mk.inj h
      exact (steady_speaks s).trans (speaks_onHeap b.world (.mapM careful_make reports))
        (speaks_fire _ s _)

/-- An expression is evaluated by a step that leaves the debugger as it is. -/
theorem speaks_evaluate (b : Bridge σ) (frame : FrameRef) (expression : String) :
    Speaks s b.world (b.evaluate s frame expression).2.world := by
  unfold evaluate askEngine
  dsimp only
  split
  · next b' h =>
      obtain ⟨-, rfl⟩ := Prod.mk.inj h
      exact (steady_speaks s).refl b.world
  · next draft b' h =>
      obtain ⟨-, rfl⟩ := Prod.mk.inj h
      exact speaks_onHeap b.world (careful_realize draft)

/-- An expression is assigned by a step that leaves the debugger as it is. -/
theorem speaks_assign (b : Bridge σ) (frame : FrameRef) (name expression : String) :
    Speaks s b.world (b.assign s frame name expression).2.world := by
  have h := speaks_evaluate (s := s) b frame expression
  unfold assign
  split
  · next b' e => rwa [e] at h
  · next b' e => rwa [e] at h

/-- An assignment that is tried, and told of, leaves the debugger as it is. -/
theorem speaks_tryAssign (b : Bridge σ) (frame : FrameRef) (name expression : String) :
    Speaks s b.world (b.tryAssign s frame name expression).world := by
  have h := speaks_assign (s := s) b frame name expression
  unfold tryAssign
  split
  · next b' e => rwa [e] at h
  · next causes b' e =>
      rw [e] at h
      exact (steady_speaks s).trans h (speaks_log b'.world _ _ _)

/-- What a waiting thread serves is told to the model and changes nothing else. -/
theorem speaks_serve (b : Bridge σ) (x : Execution) (r : Request) :
    Speaks s b.world (b.serve s x r).world := by
  unfold serve
  split
  · exact speaks_fire _ s _
  · exact speaks_reportVariables b _
  · split
    · exact speaks_log b.world _ _ _
    · exact (steady_speaks s).trans (speaks_tryAssign b _ _ _) (speaks_reportVariables _ _)
  · exact (steady_speaks s).trans (speaks_evaluate b _ _) (speaks_fire _ s _)
  · exact speaks_trace _ _ _

/-- A thread that waits is one of a debugger that is still there. -/
theorem tells_serveAll (x : Execution) (rs : List Request) (b : Bridge σ)
    (ha : (b.world.debugger s).attached = true) :
    Tells s b.world (serveAll s x rs b).world := by
  induction rs generalizing b with
  | nil => exact (steady_tells s).refl _
  | cons r rs ih =>
      let u := b.onWorld (·.putExecution s { x with pending := rs })
      have hput : Tells s b.world u.world := tells_putExecution b.world fun hgone => by
        rw [hgone.attached] at ha
        cases ha
      have hserve := speaks_serve (s := s) u x r
      have hu : (u.world.session s).debugger
          = some ((b.world.debugger s).put { x with pending := rs }) := by
        have h := debugger_modifyDebugger (s := s) b.world (·.put { x with pending := rs })
        rw [debugger_of_attached ha] at h
        exact h
      have ha' : ((u.serve s x r).world.debugger s).attached = true := by
        rw [debugger_eq (hserve.same.trans hu)]
        exact ha
      exact (steady_tells s).trans hput ((steady_tells s).trans hserve.toTells (ih _ ha'))

/-- A request for a thread is served or put off by a step of the interpreter side. -/
theorem tells_enqueue (b : Bridge σ) (handle : Handle) (r : Request) :
    Tells s b.world (b.enqueue s handle r).world := by
  have h := steady_speaks s
  unfold enqueue
  split
  · exact (speaks_trace _ _ _).toTells
  · next x _ =>
      split
      · have hact := speaks_setActor (s := s) b.world x.handle.name
        have hserve := speaks_serve (s := s) (b.onWorld (·.setActor x.handle.name)) x r
        exact (h.trans hact (h.trans hserve (speaks_setActor _ _))).toTells
      · next hw => exact tells_putExecution _ fun _ => by simpa using hw

/-- A debugger that is not attached holds nobody up. -/
theorem suspend_of_unattached (b : Bridge σ) (i : Interpreter) (gate : Gate)
    (event : Execution → Event) (ha : (b.world.debugger i.session).attached = false) :
    b.suspend i gate event = b :=
  if_neg (by simp [ha])

/-- A thread that is held up says so, and then it serves what it put off. -/
theorem suspend_eq {b : Bridge σ} {i : Interpreter} {x : Execution} {w : World}
    (ha : (b.world.debugger i.session).attached = true) (hx : b.world.executionOf i = (x, w))
    (gate : Gate) (event : Execution → Event) :
    b.suspend i gate event = serveAll i.session { x with waiting := some gate } x.pending
      { b with world := ((w.putExecution i.session { x with waiting := some gate }).fire i.session
        (event { x with waiting := some gate })).trace "runtime" (i.name ++ " suspended") } := by
  rw [suspend, if_pos ha, hx]
  rfl

/-- A thread is held up by a step of the interpreter side. -/
theorem tells_suspend (b : Bridge σ) (i : Interpreter) (gate : Gate) (event : Execution → Event) :
    Tells i.session b.world (b.suspend i gate event).world := by
  have h := steady_tells i.session
  cases ha : (b.world.debugger i.session).attached with
  | false =>
      rw [suspend_of_unattached b i gate event ha]
      exact h.refl _
  | true =>
      let x : Execution := { (b.world.executionOf i).1 with waiting := some gate }
      let u := (b.world.executionOf i).2
      let w := (u.putExecution i.session x).fire i.session (event x)
      let v : Bridge σ := { b with world := w.trace "runtime" (i.name ++ " suspended") }
      have hrun : b.suspend i gate event = serveAll i.session x x.pending v :=
        suspend_eq ha rfl gate event
      have hu : (u.debugger i.session).attached = true := (attached_executionOf b.world i).trans ha
      have hput : Tells i.session u (u.putExecution i.session x) :=
        tells_putExecution u fun hgone => by
          rw [hgone.attached] at hu
          cases hu
      have hfire : Speaks i.session (u.putExecution i.session x) w := speaks_fire _ _ _
      have hw : (w.debugger i.session).attached = true := by
        have hd := debugger_modifyDebugger (s := i.session) u (·.put x)
        rw [debugger_of_attached hu] at hd
        rw [debugger_eq (hfire.same.trans hd)]
        exact hu
      have htrace : Speaks i.session w v.world := speaks_trace w _ _
      have hv : (v.world.debugger i.session).attached = true := by
        rw [debugger, htrace.same]
        exact hw
      have hserve := tells_serveAll (s := i.session) x x.pending v hv
      have hwait := h.trans hput (h.trans hfire.toTells (h.trans htrace.toTells hserve))
      rw [hrun]
      exact h.trans (tells_executionOf b.world i) hwait

/-- A thread comes to a script by a step of the interpreter side. -/
theorem tells_startScript (b : Bridge σ) (i : Interpreter) (script : Script) :
    Tells i.session b.world (b.startScript i script).world := by
  unfold startScript
  split
  · have hwait := tells_suspend { b with world := (b.world.executionOf i).2 } i .load
      fun x => .scriptReady script x.handle x.stack.isEmpty
    exact (steady_tells _).trans (tells_executionOf b.world i) hwait
  · exact (steady_tells _).refl _

/-- A thread comes to a line, where it may be held up, by a step of the interpreter side. -/
theorem tells_startLine (b : Bridge σ) (i : Interpreter) (script : Script) (line : Nat) :
    Tells i.session b.world (b.startLine i script line).world := by
  have h := tells_reachLine b.world i script line
  unfold startLine
  split
  · split
    · next w e => rwa [e] at h
    · next reason w e =>
        rw [e] at h
        have hwait := tells_suspend { b with world := w } i .line
          fun x => .suspended x.handle reason x.stack
        exact (steady_tells _).trans h hwait
  · exact (steady_tells _).refl _

/-- A call of an interpreter thread is a step of the interpreter side. -/
theorem tells_perform (b : Bridge σ) (i : Interpreter) (c : Call) :
    Tells i.session b.world (b.perform i c).2.world := by
  have h := steady_tells i.session
  cases c with
  | engineStarted => exact (speaks_fire _ _ _).toTells
  | engineFinished => exact tells_finishEngine _
  | threadStarted => exact h.trans (tells_executionOf b.world i) (speaks_fire _ _ _).toTells
  | threadFinished => exact tells_finishThread _ _
  | scriptStarted script => exact tells_startScript b i script
  | push a =>
      exact tells_modifyExecution b.world i (fun x => { x with stack := a :: x.stack }) fun _ => rfl
  | pop => exact tells_popActivation _ _
  | line script number => exact tells_startLine b i script number
  | stack => exact tells_executionOf _ _
  | currentThread => exact tells_executionOf _ _
  | bind name content => exact h.refl _
  | check => exact h.refl _

/-- An engine is asked to terminate by a step of the interpreter side. -/
theorem tells_terminate (b : Bridge σ) : Tells s b.world (b.terminate s).world := by
  have h := steady_tells s
  have hclear : Tells s b.world (b.world.clearTable s) :=
    tells_modifyDebugger _ _ fun d _ => d.yields_table []
  have hend := fun w : World =>
    h.trans (speaks_fire w s .engineTerminated).toTells (tells_detach _)
  refine h.trans hclear ?_
  unfold terminate askEngine
  dsimp only
  split
  · exact hend _
  · next causes _ =>
      have hwarn := speaks_log (s := s) (b.world.clearTable s) .warn "runtime"
        ("terminate request: " ++ (Failure.engine causes).message)
      exact h.trans hwarn.toTells (hend _)

/-- A request to resume reaches the execution of its handle. -/
theorem world_obey_resume_of_some {b : Bridge σ} {d : Debugger} (hd : (b.world.session s).debugger = some d)
    {handle : Handle} {x : Execution} (hx : d.ofHandle? handle = some x) (kind : ResumeKind) :
    (b.obey s (.resume (some handle) kind)).world = b.world.resumeExecution s kind x := by
  simp only [obey, onWorld, World.resume]
  rw [debugger_eq hd, hx]

/-- A request to resume whose handle has no execution is dropped. -/
theorem world_obey_resume_of_none {b : Bridge σ} {d : Debugger} (hd : (b.world.session s).debugger = some d)
    {handle : Handle} (hx : d.ofHandle? handle = none) (kind : ResumeKind) :
    (b.obey s (.resume (some handle) kind)).world
      = b.world.trace "runtime" ("resume request for unknown thread " ++ handle.name) := by
  simp only [obey, onWorld, World.resume]
  rw [debugger_eq hd, hx]

/-- A request is obeyed by a step of the interpreter side. -/
theorem tells_obey (b : Bridge σ) (r : Request) : Tells s b.world (b.obey s r).world := by
  cases r with
  | resume thread kind => exact tells_resume _ _ _
  | suspend thread =>
      obtain ⟨f, hf, hrun⟩ := askToSuspend_eq b.world s thread
      have hobey : (b.obey s (.suspend thread)).world = _ := hrun
      rw [hobey]
      exact tells_modifyDebugger _ _ fun d _ => d.yields_asks hf
  | breakpoint script point mode => exact tells_updateTable _ _ _ _
  | removeAllBreakpoints => exact tells_modifyDebugger _ _ fun d _ => d.yields_table []
  | terminate => exact tells_terminate b
  | disconnect => exact tells_detach _
  | getStackFrames thread => exact tells_enqueue b _ _
  | getVariables frame => exact tells_enqueue b _ _
  | setVariable context binding name expression =>
      simp only [obey]
      split
      · exact tells_enqueue b _ _
      · exact (speaks_trace _ _ _).toTells
  | evaluate expression frame thread listener => exact tells_enqueue b _ _

/-- A request that a debugger takes makes a step of the interpreter side. -/
theorem tells_receive (b : Bridge σ) (r : Request) : Tells s b.world (b.receive s r).world := by
  unfold receive
  split
  · exact (steady_tells s).refl _
  · have htold := tells_obey (s := s) (b.trace "runtime" ("process " ++ r.text b.world.marks)) r
    exact (steady_tells s).trans (speaks_trace _ _ _).toTells htold

end Bridge

/-! ### What users do -/

open World

/-- A notification is plain unless it is that of the end of a session. -/
theorem plain_notify (s : Nat) {notice : Notice} (hn : notice ≠ .terminated .target) :
    Keeps Plain (notify s notice) := by
  refine Keeps.bind steady_plain (Keeps.get steady_plain) fun w => ?_
  dsimp only
  split
  · refine Keeps.bind steady_plain (Keeps.change fun w => ?_) fun _ => ?_
    · exact .of_sessions rfl rfl rfl (Nat.le_refl _) rfl (mild_note w hn)
    · split
      · exact Keeps.throw steady_plain _
      · exact Keeps.pure steady_plain _
  · exact Keeps.pure steady_plain _

/-- The front end is told of a frame that changed, and nothing else happens. -/
theorem plain_frameChanged (f : FrameRef) (detail : ChangeDetail) :
    Keeps Plain (frameChanged f detail) :=
  plain_notify _ nofun

/-- What is known of a frame is a part of its session that nothing else looks at. -/
theorem still_modifyFrame (w : World) (f : FrameRef) (g : FrameState → FrameState) :
    Still w (w.modifyFrame f g) := by
  refine ⟨Arena.size_le_modify _ _ _, fun t => ?_, rfl, rfl, Nat.le_refl _⟩
  rw [modifyFrame, session_modifySession]
  split
  · next h => rw [← h]; rfl
  · rfl

/-- A frame that is out of date is plain. -/
theorem plain_setDirty (f : FrameRef) : Keeps Plain (setDirty f) := by
  refine Keeps.bind steady_plain (Keeps.change fun w => ⟨still_modifyFrame w f _, rfl, ?_⟩) fun _ =>
    plain_frameChanged f _
  exact mild_modifyFrame w f _ fun _ => .inl ⟨rfl, fun _ => rfl⟩

/-- What is done on the heap shows in no session. -/
theorem still_onHeap {α : Type} (op : HeapM α) : Keeps Still (onHeap op) :=
  fun _ => .of_sessions rfl rfl rfl (Nat.le_refl _)

/-- What shows in no session is a step of users. -/
theorem Keeps.asks {α : Type} {op : Act α} (h : Keeps Plain op) : Keeps Asks op :=
  fun w => (h w).asks

/-- To send an order is a step of users. -/
theorem keeps_post (s : Nat) {r : Request} (hr : r.IsOrder) : Keeps Asks (post s r) :=
  Keeps.change fun w => asks_post w s hr

/-- What a command asks for is an order. -/
theorem isOrder_request (c : Command) (thread : Handle) : (c.request thread).IsOrder := by
  cases c <;> trivial

/-- To ask that a thread terminates is a step of users. -/
theorem keeps_terminateThread (s i : Nat) : Keeps Asks (terminateThread s i) := by
  refine Keeps.bind steady_asks (Keeps.get steady_asks) fun w => ?_
  split
  · exact Keeps.bind steady_asks (keeps_post s trivial) fun _ => Keeps.pure steady_asks _
  · exact Keeps.pure steady_asks _

/-- A command for a thread is a step of users. -/
theorem keeps_commandThread (s i : Nat) (c : Command) : Keeps Asks (commandThread s i c) := by
  have h : Keeps Asks (do
      post s (c.request ((← get).thread s i).handle)
      return (.ok () : Except Failure Unit)) :=
    Keeps.bind steady_asks (Keeps.get steady_asks) fun w =>
      Keeps.bind steady_asks (keeps_post s (isOrder_request c _)) fun _ => Keeps.pure steady_asks _
  cases c with
  | terminate => exact keeps_terminateThread s i
  | _ => exact h

/-- A command for a target is a step of users. -/
theorem keeps_commandTarget (s : Nat) (c : Command) : Keeps Asks (commandTarget s c) := by
  have h : Keeps Asks (onlyThread s fun i => do
      post s (c.request ((← get).thread s i).handle)) := by
    refine Keeps.bind steady_asks (Keeps.get steady_asks) fun w => ?_
    split
    · exact Keeps.bind steady_asks (Keeps.get steady_asks) fun _ =>
        keeps_post s (isOrder_request c _)
    · exact Keeps.pure steady_asks _
  cases c with
  | terminate => exact keeps_post s trivial
  | _ => exact h

/-- To look at the stack of a thread is a step of users. -/
theorem keeps_stackFrames (s i : Nat) : Keeps Asks (stackFrames s i) := by
  refine Keeps.bind steady_asks (Keeps.get steady_asks) fun w => ?_
  dsimp only
  split
  · exact Keeps.bind steady_asks (keeps_post s trivial) fun _ => Keeps.pure steady_asks _
  · exact Keeps.pure steady_asks _

/-- To look at the variables of a frame is a step of users. -/
theorem keeps_frameVariables (f : FrameRef) : Keeps Asks (frameVariables f) := by
  refine Keeps.bind steady_asks (Keeps.get steady_asks) fun w => ?_
  dsimp only
  split
  · exact Keeps.bind steady_asks (keeps_post _ trivial) fun _ => Keeps.pure steady_asks _
  · exact Keeps.pure steady_asks _

/-- To ask for the value of an expression is a step of users. -/
theorem keeps_evaluateIn (expression : String) (context : Element) (listener : String) :
    Keeps Asks (evaluateIn expression context listener) := by
  cases context with
  | frame f =>
      refine Keeps.bind steady_asks (Keeps.get steady_asks) fun w => ?_
      split
      · exact Keeps.bind steady_asks (keeps_post _ trivial) fun _ => Keeps.pure steady_asks _
      · exact Keeps.pure steady_asks _
  | _ => exact Keeps.pure steady_asks _

/-- To assign to a variable is a step of users. -/
theorem keeps_assignVariable (x : VariableId) (expression : String) :
    Keeps Asks (assignVariable x expression) := by
  intro w
  unfold assignVariable worldAfter
  rw [run_get_bind]
  dsimp only
  cases hslot : (w.heap.bindings.get x).origin.slot? with
  | none =>
      cases w.reach (w.heap.bindings.get x).parent with
      | none => exact steady_asks.refl w
      | some s =>
          let r : Request :=
            .setVariable (w.heap.bindings.get x).parent x (w.heap.bindings.get x).name expression
          have hpost : Keeps Asks (do
              post s r
              return (.ok () : Except Failure Unit)) :=
            Keeps.bind steady_asks (keeps_post s trivial) fun _ => Keeps.pure steady_asks _
          exact hpost w
  | some place =>
      obtain ⟨owner, slot, type⟩ := place
      let op := assignSlot x owner slot type expression
      have hwritten : Plain w (w.onHeap op).2 :=
        .of_sessions rfl rfl rfl (Nat.le_refl _) rfl
          (mild_onHeap w (keeps_assignSlot w.heap x owner slot type expression (by simp [hslot])))
      have hrun : onHeap op w = .ok (w.onHeap op).1 (w.onHeap op).2 := rfl
      dsimp only
      rw [run_bind_ok hrun]
      refine steady_asks.trans hwritten.asks ?_
      cases (w.onHeap op).1 with
      | error failure => exact steady_asks.refl _
      | ok _ =>
          cases w.frameOf (w.heap.bindings.get x).parent with
          | none => exact steady_asks.refl _
          | some f =>
              exact Keeps.bind steady_asks (plain_frameChanged f _).asks
                (fun _ => Keeps.pure steady_asks _) _

end DebugBridge
