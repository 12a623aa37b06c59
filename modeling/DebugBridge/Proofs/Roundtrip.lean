import DebugBridge.Proofs.Confinement
import DebugBridge.Proofs.Draining
import DebugBridge.Proofs.Freshness
import DebugBridge.Proofs.Slots

/-!
# Assignments that come back

To assign a variable of a frame is to ask the interpreter for it. The request goes through the mailbox to
the thread that is held up, which has the engine evaluate the expression and assign the value, and then
report the variables of the frame. These come back through the mailbox and the frame takes them in. Each
of the three questions may fail: without a value nothing is assigned, an assignment that fails is followed
by the report all the same, and without a report the frame is left as it was. The session serves as before
in any case.

## Main definitions

* `Engine.attempt`, `Standing.reported`, `Standing.assigned`, `Standing.refreshed`: what becomes of the
  engine, the heap, the queue and the frames at each stage;
* `Bridge.Serving`: a session that goes on, with a thread that is held up;
* `Watched`: an engine that has what it is asked written down;
* `Bridge.ComesBack`: what comes of an assignment in the end.

## Main results

* `Bridge.nextInterpreter?_settle`: threads that have settled can not go on;
* `Bridge.Serving.deliver_assignment`, `Bridge.Serving.deliver_variables`: the two messages as they are
  handed over, whatever waits behind them;
* `Bridge.Serving.pump_assignment`: the session as it is pumped, for every engine;
* `Bridge.assignment_comes_back`: the whole way, from the user to the frame.
-/

namespace DebugBridge

/-! ### Frames that take variables in -/

section Refreshing

open World

variable {s : Nat} {w : World} {f : FrameRef}

/-- A front end that does not fail is told. -/
theorem run_notify_of_calm (hc : w.Calm) (s : Nat) (notice : Notice) :
    ∃ j, w.journal.Smooth j ∧ notify s notice w = .ok () { w with journal := j } := by
  rw [run_notify]
  split
  · dsimp only
    rw [hc]
    exact ⟨w.journal.note (.model s notice (w.noticeText s notice)), .of_lines rfl, rfl⟩
  · exact ⟨w.journal, .of_lines rfl, rfl⟩

/-- An operation that succeeds with a frame in hand puts down the frame that it took up. -/
theorem withInHand_of_ok {α : Type} {op : Act α} {a : α} {w' : World}
    (h : op { w with inHand := some f } = .ok a w') :
    withInHand f op w = .ok a { w' with inHand := w.inHand } := by
  unfold withInHand
  rw [h]

/-- A frame that is told of variables takes them in and is clean, and the front end is told. While that
happens the frame is held. -/
theorem run_handleEvent_frameVariables (hc : w.Calm) (ha : (w.session s).attached = true)
    (made : List VariableId) :
    let merging := (mergeVariables { w with inHand := some f }.reach f (w.frame f).known made).run w.heap
    ∃ j, w.journal.Smooth j ∧ handleEvent s (.frameVariables f made) w
      = .ok () ({ w with heap := merging.2, journal := j }.modifyFrame f fun _ => ⟨merging.1, false⟩) := by
  let u := { w.trace "model" ("process " ++ (Event.frameVariables f made).text w.marks) with
    inHand := some f }
  let merging := (mergeVariables u.reach f (u.frame f).known made).run u.heap
  let v := { u with heap := merging.2 }.modifyFrame f fun _ => ⟨merging.1, false⟩
  obtain ⟨j, hj, hnotify⟩ := run_notify_of_calm (w := v) hc f.session (.changed (.frame f) .content)
  have hset : setVariables f made u = .ok () { v with journal := j } := hnotify
  have hevent : handleEvent s (.frameVariables f made) w = .ok () { v with journal := j, inHand := w.inHand } :=
    (handleEvent_eq ha).trans (withInHand_of_ok hset)
  exact ⟨j, (Journal.Smooth.log _ (by decide) _ _).trans hj, hevent⟩

end Refreshing

/-! ### What an assignment makes of it -/

section Serving

variable {σ : Type} [Engine σ]

/-- What becomes of an engine and of the heap where the value of an expression is assigned to a variable.
Without a value nothing is assigned. -/
def Engine.attempt (e : σ) (scope : Scope) (name expression : String) (h : Heap) : σ × Heap :=
  match Engine.evaluate e scope expression with
  | (.error _, e) => (e, h)
  | (.ok draft, e) =>
    ((Engine.assign e scope name ((realize draft).run h).1).2, ((realize draft).run h).2)

/-- Where a session stands after its engine was asked for the variables of a frame. If it gave them, they
are on their way. -/
def Standing.reported (st : Standing σ) (scope : Scope) (f : FrameRef) : Standing σ :=
  match Engine.visible st.engine scope with
  | (.error _, e) => { st with engine := e }
  | (.ok reports, e) =>
    let made := (reports.mapM Report.make).run st.heap
    { st with
      engine := e
      heap := made.2
      queue := st.queue ++ [.message (.event (.frameVariables f made.1))] }

/-- Where a session stands after a variable of a frame was assigned. -/
def Standing.assigned (st : Standing σ) (scope : Scope) (f : FrameRef) (name expression : String) :
    Standing σ :=
  let attempt := Engine.attempt st.engine scope name expression st.heap
  { st with engine := attempt.1, heap := attempt.2 }.reported scope f

/-- Where a session stands after a frame took variables in. -/
def Standing.refreshed (st : Standing σ) (reach : Parent → Option Nat) (f : FrameRef)
    (made : List VariableId) : Standing σ :=
  let merging := (mergeVariables reach f (st.frames.get f.index).known made).run st.heap
  { st with heap := merging.2, frames := st.frames.modify f.index fun _ => ⟨merging.1, false⟩ }

variable {st : Standing σ} {scope : Scope}

/-- An engine that can not give the variables leaves everything but itself as it was. -/
theorem Standing.reported_of_error {causes : Causes}
    (h : (Engine.visible st.engine scope).1 = .error causes) (f : FrameRef) :
    st.reported scope f = { st with engine := (Engine.visible st.engine scope).2 } := by
  unfold Standing.reported
  revert h
  cases Engine.visible st.engine scope with
  | mk answer e =>
      rintro rfl
      rfl

/-- Variables that an engine gives are made and put on their way. -/
theorem Standing.reported_of_ok {reports : List Report}
    (h : (Engine.visible st.engine scope).1 = .ok reports) (f : FrameRef) :
    st.reported scope f = { st with
      engine := (Engine.visible st.engine scope).2
      heap := ((reports.mapM Report.make).run st.heap).2
      queue := st.queue
        ++ [.message (.event (.frameVariables f ((reports.mapM Report.make).run st.heap).1))] } := by
  unfold Standing.reported
  revert h
  cases Engine.visible st.engine scope with
  | mk answer e =>
      rintro rfl
      rfl

/-- The variables are put behind all that waits. -/
theorem Standing.queue_reported (st : Standing σ) (scope : Scope) (f : FrameRef) :
    ∃ answers, (st.reported scope f).queue = st.queue ++ answers := by
  cases hanswer : (Engine.visible st.engine scope).1 with
  | error causes => exact ⟨[], by rw [reported_of_error hanswer, List.append_nil]⟩
  | ok reports => exact ⟨_, by rw [reported_of_ok hanswer]⟩

end Serving

namespace Bridge

open World

variable {σ : Type} [Inhabited σ] [Engine σ] {s : Nat} {b : Bridge σ} {f : FrameRef}

omit [Engine σ] in
/-- What is confined to a session leaves where its frames are. -/
theorem scopeOf_confined {b' : Bridge σ} (h : Confined s b b') (f : FrameRef) :
    b'.scopeOf f = b.scopeOf f := by
  rw [scopeOf, scopeOf, h.world.marks]

/-- The value of an expression is asked for, and comes into the heap. -/
theorem arrives_evaluate (b : Bridge σ) (s : Nat) (f : FrameRef) (expression : String) :
    let answer := Engine.evaluate (b.engines.get s) (b.scopeOf f) expression
    match answer.1 with
    | .error failure => (b.evaluate s f expression).1 = .error failure
        ∧ Arrives s { b.standing s with engine := answer.2 } b (b.evaluate s f expression).2
    | .ok draft => (b.evaluate s f expression).1 = .ok ((realize draft).run b.world.heap).1
        ∧ Arrives s { b.standing s with
            engine := answer.2, heap := ((realize draft).run b.world.heap).2 } b
          (b.evaluate s f expression).2 := by
  unfold evaluate askEngine
  dsimp only
  cases Engine.evaluate (b.engines.get s) (b.scopeOf f) expression with
  | mk evaluated e =>
      have hasked := (Arrives.refl s b).setEngine e
      cases evaluated with
      | error failure => exact ⟨rfl, hasked⟩
      | ok draft => exact ⟨rfl, hasked.onHeap (realize draft)⟩

/-- An assignment asks the engine for the value, and to assign it if there is one. Failures are logged. -/
theorem arrives_tryAssign (b : Bridge σ) (s : Nat) (f : FrameRef) (name expression : String) :
    Arrives s { b.standing s with
        engine := (Engine.attempt (b.engines.get s) (b.scopeOf f) name expression b.world.heap).1
        heap := (Engine.attempt (b.engines.get s) (b.scopeOf f) name expression b.world.heap).2 } b
      (b.tryAssign s f name expression) := by
  have hvalue := b.arrives_evaluate s f expression
  unfold Engine.attempt tryAssign assign
  revert hvalue
  dsimp only
  cases Engine.evaluate (b.engines.get s) (b.scopeOf f) expression with
  | mk evaluated e =>
      cases b.evaluate s f expression with
      | mk value u =>
          intro hvalue
          cases evaluated with
          | error failure =>
              obtain ⟨rfl, hreached⟩ := hvalue
              exact hreached.warn _
          | ok draft =>
              obtain ⟨rfl, hreached⟩ := hvalue
              dsimp only [askEngine]
              rw [scopeOf_confined hreached.confined, hreached.engine]
              have hassigned := hreached.setEngine
                (Engine.assign e (b.scopeOf f) name ((realize draft).run b.world.heap).1).2
              revert hassigned
              cases Engine.assign e (b.scopeOf f) name ((realize draft).run b.world.heap).1 with
              | mk result e' =>
                  intro hassigned
                  cases result with
                  | error causes => exact hassigned.warn _
                  | ok done => exact hassigned

namespace Arrives

variable {st : Standing σ} {b' : Bridge σ}

omit [Engine σ] in
/-- What the interpreter side reports comes to the end of the queue. -/
theorem fire (h : Arrives s st b b') (hattached : (b.world.debugger s).attached = true)
    (hopen : (b.world.session s).mailbox.isOpen = true) (e : Event) :
    Arrives s { st with queue := st.queue ++ [.message (.event e)] } b (b'.fire s e) := by
  have hfire : b'.fire s e = b'.onWorld (·.send s (.event e)) := by
    have hattached' : (b'.world.debugger s).attached = true := by
      rw [World.debugger, h.confined.world.debugger]
      exact hattached
    exact congrArg (fun w => { b' with world := w }) (if_pos hattached')
  exact hfire ▸ h.send hopen (.event e)

/-- The engine is asked for the variables of a frame, and those that it gives are reported. -/
theorem reportVariables (h : Arrives s st b b') (hattached : (b.world.debugger s).attached = true)
    (hopen : (b.world.session s).mailbox.isOpen = true) (f : FrameRef) :
    Arrives s (st.reported (b.scopeOf f) f) b (b'.reportVariables s f) := by
  unfold Standing.reported Bridge.reportVariables askEngine
  dsimp only
  rw [h.engine, scopeOf_confined h.confined]
  cases Engine.visible st.engine (b.scopeOf f) with
  | mk answer e =>
      have hasked := h.setEngine e
      cases answer with
      | error causes => exact hasked.warn _
      | ok reports =>
          have hmade := hasked.onHeap (reports.mapM Report.make)
          rw [← h.heap] at hmade ⊢
          exact hmade.fire hattached hopen _

/-- A thread that serves an assignment tries it and reports the variables, however that ended. -/
theorem serve (h : Arrives s st b b') (hattached : (b.world.debugger s).attached = true)
    (hopen : (b.world.session s).mailbox.isOpen = true) (hheld : b'.world.isHeld f = true) (t : Execution)
    (x : VariableId) (name expression : String) :
    Arrives s (st.assigned (b.scopeOf f) f name expression) b
      (b'.serve s t (.setVariable (.frame f) x name expression)) := by
  have hframe : b'.world.frameOf (.frame f) = some f := if_pos hheld
  have hserve : b'.serve s t (.setVariable (.frame f) x name expression)
      = (b'.tryAssign s f name expression).reportVariables s f := by
    unfold Bridge.serve
    dsimp only
    rw [hframe]
  have htried := h.trans (b'.arrives_tryAssign s f name expression)
  rw [h.stands, h.engine, h.heap, scopeOf_confined h.confined] at htried
  rw [hserve]
  exact htried.reportVariables hattached hopen f

end Arrives

/-! ### Sessions that serve -/

/-- A session that goes on, with a thread that is held up. No front end fails, and no thread of an
interpreter can go on, as none can after they have settled. -/
structure Serving (b : Bridge σ) (s : Nat) (handle : Handle) : Prop where
  alive : (b.world.session s).alive = true
  attached : (b.world.session s).attached = true
  isOpen : (b.world.session s).mailbox.isOpen = true
  heldUp : ∃ d x, (b.world.session s).debugger = some d ∧ d.attached = true ∧ d.terminated = false
    ∧ d.ofHandle? handle = some x ∧ x.waiting.isSome = true
  idle : b.nextInterpreter? = none
  calm : b.world.Calm

/-- Threads that can not go on do nothing. -/
theorem steps_of_idle (h : b.nextInterpreter? = none) (n : Nat) : steps n b = b := by
  induction n with
  | zero => rfl
  | succ n ih => rw [steps, show b.step = b by rw [step, h], ih]

/-- Where no interpreter can go on, all have settled. -/
theorem settle_of_idle (h : b.nextInterpreter? = none) : b.settle = b :=
  steps_of_idle h b.stepsLeft

/-- A thread that goes on has less to do afterwards, and all others have as much as before. -/
theorem stepsLeft_step_lt (hids : (b.interpreters.map Interpreter.id).Nodup) {i : Interpreter}
    (hnext : b.nextInterpreter? = some i) : b.step.stepsLeft < b.stepsLeft := by
  have hi : i ∈ b.interpreters := List.mem_of_find?_eq_some hnext
  have hrunning : i.running = true := by
    have hgoes := List.find?_some hnext
    exact (Bool.and_eq_true_iff.mp hgoes).1
  have hput : ∀ (u : Bridge σ) (j : Interpreter), u.interpreters = b.interpreters → i.id = j.id →
      j.steps < i.steps → (u.putInterpreter j).stepsLeft < b.stepsLeft := by
    intro u j hu hid hless
    have hsum := sum_map_replace Interpreter.id Interpreter.steps hids hi hid
    unfold stepsLeft putInterpreter
    rw [hu]
    dsimp only
    omega
  have hstep : b.step = b.stepOf i := by rw [step, hnext]
  rw [hstep, stepOf]
  split
  · refine hput b i.rest rfl rfl ?_
    simp [Interpreter.steps, Interpreter.rest, hrunning]
  · next c rest hcalls =>
      refine hput _ _ (interpreters_perform _ i c) rfl (i.steps_advance_lt _ hrunning ?_)
      simp [hcalls]

/-- A step of the interpreters leaves who they are. -/
theorem ids_step (b : Bridge σ) :
    b.step.interpreters.map Interpreter.id = b.interpreters.map Interpreter.id := by
  unfold step
  split
  · next i _ => exact ids_stepOf b i
  · rfl

/-- After threads have settled, none of them can go on. -/
theorem nextInterpreter?_settle (hids : (b.interpreters.map Interpreter.id).Nodup) :
    b.settle.nextInterpreter? = none := by
  have hsteps : ∀ n (b : Bridge σ), (b.interpreters.map Interpreter.id).Nodup → b.stepsLeft ≤ n →
      (steps n b).nextInterpreter? = none := by
    intro n
    induction n with
    | zero =>
        intro b hids hn
        cases hnext : b.nextInterpreter? with
        | none => exact hnext
        | some i => exact absurd (stepsLeft_step_lt hids hnext) (by omega)
    | succ n ih =>
        intro b hids hn
        cases hnext : b.nextInterpreter? with
        | none => rw [steps_of_idle hnext, hnext]
        | some i =>
            have hless := stepsLeft_step_lt hids hnext
            exact ih b.step (ids_step b ▸ hids) (by omega)
  exact hsteps b.stepsLeft b hids (Nat.le_refl _)

omit [Engine σ] in
/-- What is confined to a session leaves which interpreter goes on next. -/
theorem nextInterpreter?_confined {b' : Bridge σ} (h : Confined s b b') :
    b'.nextInterpreter? = b.nextInterpreter? := by
  unfold nextInterpreter? isWaiting World.debugger
  simp only [h.interpreters, h.world.debugger]

namespace Serving

variable {b' : Bridge σ} {handle : Handle}

omit [Engine σ] in
/-- What is confined to a session leaves it in service. -/
theorem confined (hs : b.Serving s handle) (h : Confined s b b') : b'.Serving s handle where
  alive := (h.world.alive s).trans hs.alive
  attached := (h.world.attached s).trans hs.attached
  isOpen := h.world.isOpen.trans hs.isOpen
  heldUp := by
    rw [h.world.debugger]
    exact hs.heldUp
  idle := (nextInterpreter?_confined h).trans hs.idle
  calm := h.world.calm hs.calm

omit [Inhabited σ] [Engine σ] in
/-- A session in service has a debugger. -/
theorem present (hs : b.Serving s handle) : (b.world.session s).debugger.isSome = true := by
  obtain ⟨d, _, hdebugger, -⟩ := hs.heldUp
  rw [hdebugger]
  rfl

omit [Engine σ] in
/-- The messages that wait decide whether a frame is held. -/
theorem isHeld (hs : b.Serving s handle) {st : Standing σ} (h : Arrives s st b b') {g : FrameRef}
    (hmail : st.queue.any (isInside g) = (b.world.session s).mailbox.queue.any (isInside g)) :
    b'.world.isHeld g = b.world.isHeld g :=
  h.confined.world.isHeld hs.present (h.queue ▸ hmail)

end Serving

namespace Arrives

variable {st : Standing σ} {b' : Bridge σ}

/-- The debugger of a session leaves an assignment to the thread of the frame, which serves it. -/
theorem receive (h : Arrives s st b b') (hs : b.Serving s f.handle) (hheld : b'.world.isHeld f = true)
    (x : VariableId) (name expression : String) :
    Arrives s (st.assigned (b.scopeOf f) f name expression) b
      (b'.receive s (.setVariable (.frame f) x name expression)) := by
  let r : Request := .setVariable (.frame f) x name expression
  obtain ⟨d, t, hdebugger, hattached, hterminated, hthread, hwaiting⟩ := hs.heldUp
  have hfires : (b.world.debugger s).attached = true := debugger_eq hdebugger ▸ hattached
  have hsame : b'.world.debugger s = d := debugger_eq ((h.confined.world.debugger s).trans hdebugger)
  let u := b'.trace "runtime" ("process " ++ r.text b'.world.marks)
  have hframe : u.world.frameOf (.frame f) = some f := if_pos hheld
  have hthread' : (u.world.debugger s).ofHandle? f.handle = some t := by
    rw [← hthread, ← hsame]
    rfl
  have hobey : u.obey s r = u.enqueue s f.handle r := by
    dsimp only [obey, r]
    rw [hframe]
  have henqueue : u.enqueue s f.handle r = u.actAs t.handle.name (·.serve s t r) := by
    unfold enqueue
    rw [hthread']
    exact if_pos hwaiting
  have hreceive : b'.receive s r = u.obey s r := by
    refine if_neg ?_
    rw [hsame, hterminated]
    exact Bool.false_ne_true
  rw [hreceive, hobey, henqueue]
  exact (((h.trace _ _).setActor _).serve hfires hs.isOpen hheld t x name expression).setActor _

end Arrives

/-- A request to assign is handed over to the thread that is held up, which serves it. -/
theorem Serving.deliver_assignment (hs : b.Serving s f.handle) (hheld : b.world.isHeld f = true)
    {x : VariableId} {name expression : String} {rest : List (Envelope Message)}
    (hqueue : (b.world.session s).mailbox.queue
      = .message (.request (.setVariable (.frame f) x name expression)) :: rest) :
    (b.take s).1 = some (.request (.setVariable (.frame f) x name expression))
      ∧ Arrives s ({ b.standing s with queue := rest }.assigned (b.scopeOf f) f name expression) b
        ((b.take s).2.deliver s (.request (.setVariable (.frame f) x name expression))) := by
  let r : Request := .setVariable (.frame f) x name expression
  obtain ⟨htaken, hreached⟩ := (Arrives.refl s b).take hqueue
  let t := (b.take s).2.trace "dispatcher" ("route " ++ (Message.request r).text (b.take s).2.world.marks)
  let u := t.onWorld (·.noteReceived s r)
  have hnoted : Arrives s { b.standing s with queue := rest } b u := (hreached.trace _ _).noteReceived r
  -- The request is not what holds the frame.
  have hheld' : u.world.isHeld f = true := (hs.isHeld hnoted (by rw [hqueue]; rfl)).trans hheld
  have hdeliver : (b.take s).2.deliver s (.request r) = (u.receive s r).settle.newTurn :=
    if_pos (hs.confined hnoted.confined).present
  have hreceived := hnoted.receive hs hheld' x name expression
  refine ⟨htaken, ?_⟩
  rw [hdeliver, settle_of_idle (hs.confined hreceived.confined).idle]
  exact hreceived.newTurn

omit [Engine σ] in
/-- A frame of the session takes variables in. -/
theorem Arrives.refresh {st : Standing σ} {b' : Bridge σ} (h : Arrives s st b b') (hf : f.session = s)
    (reach : Parent → Option Nat) (made : List VariableId) {journal : Journal}
    (hj : b'.world.journal.Smooth journal) :
    let merging := (mergeVariables reach f (b'.world.frame f).known made).run b'.world.heap
    Arrives s (st.refreshed reach f made) b { b' with world :=
      { b'.world with heap := merging.2, journal := journal }.modifyFrame f fun _ => ⟨merging.1, false⟩ } := by
  subst hf
  let merging := (mergeVariables reach f (b'.world.frame f).known made).run b'.world.heap
  let u : World := { b'.world with heap := merging.2, journal := journal }
  have hu : b'.world.Confined f.session u := confined_of_outer f.session b'.world _ hj
  have hfilled : u.Confined f.session (u.modifyFrame f fun _ => ⟨merging.1, false⟩) :=
    confined_modifySession rfl rfl
  refine ⟨h.confined.trans ⟨hu.trans hfilled, fun _ _ => rfl, rfl⟩, ?_⟩
  rw [← h.stands]
  unfold standing modifyFrame
  rw [session_modifySession, if_pos rfl]
  rfl

/-- Variables that are reported for a frame are handed over to the model, and the frame takes them in. -/
theorem Serving.deliver_variables (hs : b.Serving s f.handle) (hf : f.session = s)
    {made : List VariableId} {rest : List (Envelope Message)}
    (hqueue : (b.world.session s).mailbox.queue = .message (.event (.frameVariables f made)) :: rest) :
    (b.take s).1 = some (.event (.frameVariables f made))
      ∧ Arrives s ({ b.standing s with queue := rest }.refreshed
          { (b.take s).2.world with inHand := some f }.reach f made) b
        ((b.take s).2.deliver s (.event (.frameVariables f made))) := by
  obtain ⟨htaken, hreached⟩ := (Arrives.refl s b).take hqueue
  let u := (b.take s).2.trace "dispatcher"
    ("route " ++ (Message.event (.frameVariables f made)).text (b.take s).2.world.marks)
  have hu : Arrives s { b.standing s with queue := rest } b u := hreached.trace _ _
  let merging := (mergeVariables { u.world with inHand := some f }.reach f (u.world.frame f).known made).run
    u.world.heap
  obtain ⟨j, hj, hevent⟩ := run_handleEvent_frameVariables (hu.confined.world.calm hs.calm)
    ((hu.confined.world.attached s).trans hs.attached) (f := f) made
  have hdeliver : (b.take s).2.deliver s (.event (.frameVariables f made))
      = { u with world :=
          { u.world with heap := merging.2, journal := j }.modifyFrame f fun _ => ⟨merging.1, false⟩ } := by
    change u.deliverEvent s (.frameVariables f made) = _
    unfold deliverEvent act
    rw [hevent]
  rw [hdeliver]
  exact ⟨htaken, hu.refresh hf _ made hj⟩

/-- A request to assign is handed over before all requests that are posted later, and served at once. -/
theorem Serving.deliver_queued (hs : b.Serving s f.handle) (hheld : b.world.isHeld f = true)
    (hqueue : (b.world.session s).mailbox.queue = []) (x : VariableId) (name expression : String)
    (later : List Request) :
    let r : Request := .setVariable (.frame f) x name expression
    let queued := b.onWorld fun w => later.foldl (fun w r => w.post s r) (w.send s (.request r))
    (queued.take s).1 = some (.request r)
      ∧ Arrives s ({ b.standing s with queue := later.map fun r => .message (.request r) }.assigned
          (b.scopeOf f) f name expression) b ((queued.take s).2.deliver s (.request r)) := by
  intro r queued
  let waiting : List (Envelope Message) := later.map fun r => .message (.request r)
  have hsent := ((Arrives.refl s b).send hs.isOpen (.request r)).posts hs.alive hs.attached hs.isOpen later
  have hqueued : Arrives s { b.standing s with queue := .message (.request r) :: waiting } b queued := by
    have hempty : (b.standing s).queue = [] := hqueue
    rw [hempty] at hsent
    exact hsent
  have hheld' : queued.world.isHeld f = true := by
    cases hmentioned : waiting.any (isInside f) with
    | true =>
        refine isHeld_of_queue (s := s) ?_
        rw [hqueued.queue, List.any_cons, hmentioned, Bool.or_true]
    | false =>
        refine (hs.isHeld hqueued ?_).trans hheld
        rw [hqueue, List.any_cons, hmentioned]
        rfl
  obtain ⟨htaken, hserved⟩ := (hs.confined hqueued.confined).deliver_assignment hheld' hqueued.queue
  rw [hqueued.stands, scopeOf_confined hqueued.confined] at hserved
  exact ⟨htaken, hqueued.trans hserved⟩

end Bridge

/-! ### Assignments that are pumped -/

section Draining

variable {S μ : Type} {take : S → Option μ × S} {deliver : μ → S → S} {s : S}

/-- Where a message can be taken, it is handed over, and the delivery goes on from there. -/
theorem drain_of_some {m : μ} (h : (take s).1 = some m) (most : Nat) :
    drain take deliver (most + 1) s
      = ((drain take deliver most (deliver m (take s).2)).1 + 1,
        (drain take deliver most (deliver m (take s).2)).2) := by
  rw [drain_succ, show take s = (some m, (take s).2) from Prod.ext h rfl]

/-- An empty box is drained at once. -/
theorem drain_of_none (h : (take s).1 = none) (most : Nat) :
    drain take deliver (most + 1) s = (0, (take s).2) := by
  rw [drain_succ, show take s = (none, (take s).2) from Prod.ext h rfl]

end Draining

namespace Bridge

open World

variable {σ : Type} [Inhabited σ] [Engine σ] {s : Nat} {b : Bridge σ} {f : FrameRef}

omit [Inhabited σ] [Engine σ] in
/-- What comes of an assignment follows from two messages. -/
theorem exists_workload {parent : Parent} {x : VariableId} {name expression : String}
    {rest : List (Envelope Message)}
    (hqueue : (b.world.session s).mailbox.queue
      = .message (.request (.setVariable parent x name expression)) :: rest) :
    ∃ n, b.workload s = n + 2 := by
  refine ⟨b.workload s - 2, (Nat.sub_add_cancel ?_).symm⟩
  unfold workload
  dsimp only
  rw [hqueue]
  change 2 ≤ (2 + _) + _ + _
  omega

section Draining

variable {st : Standing σ} {b' : Bridge σ}

/-- Where no message is left, the delivery ends. -/
theorem Arrives.drain_nil (h : Arrives s st b b') (hnil : st.queue = []) (most : Nat) :
    (drain (Bridge.take s) (deliver s) (most + 1) b').1 = 0
      ∧ Arrives s st b (drain (Bridge.take s) (deliver s) (most + 1) b').2 := by
  obtain ⟨hnone, hend⟩ := h.take_none hnil
  rw [drain_of_none hnone]
  exact ⟨rfl, hend⟩

/-- Where variables are on their way to a frame, the frame takes them in, and the delivery ends. -/
theorem Arrives.drain_variables (h : Arrives s st b b') (hs : b.Serving s f.handle) (hf : f.session = s)
    (hstart : (b.world.session s).mailbox.queue = []) {made : List VariableId}
    (hqueue : st.queue = [.message (.event (.frameVariables f made))]) (most : Nat) :
    (drain (Bridge.take s) (deliver s) (most + 2) b').1 = 1
      ∧ Arrives s ({ st with queue := [] }.refreshed { b.world with inHand := some f }.reach f made) b
        (drain (Bridge.take s) (deliver s) (most + 2) b').2 := by
  obtain ⟨-, htaken⟩ := h.take hqueue
  obtain ⟨hfirst, hfilled⟩ := (hs.confined h.confined).deliver_variables hf (h.queue.trans hqueue)
  have hreach : { (b'.take s).2.world with inHand := some f }.reach
      = { b.world with inHand := some f }.reach := by
    refine (htaken.confined.world.holding (some f)).reach hs.present fun g => ?_
    change ((b'.take s).2.world.session s).mailbox.queue.any (isInside g)
      = (b.world.session s).mailbox.queue.any (isInside g)
    rw [htaken.queue, hstart]
  rw [hreach, h.stands] at hfilled
  obtain ⟨hcount, hend⟩ := (h.trans hfilled).drain_nil rfl most
  rw [drain_of_some hfirst]
  exact ⟨congrArg (· + 1) hcount, hend⟩

end Draining

/-- A session is pumped that has nothing but an assignment to do. The thread tries the assignment. Where the
engine gives the variables then, the frame takes them in. -/
theorem Serving.pump_assignment (hs : b.Serving s f.handle) (hf : f.session = s)
    (hheld : b.world.isHeld f = true) (hqueue : (b.world.session s).mailbox.queue = []) (x : VariableId)
    {name expression : String} {e : σ} {h : Heap}
    (hattempt : Engine.attempt (b.engines.get s) (b.scopeOf f) name expression b.world.heap = (e, h)) :
    let sent := b.onWorld (·.send s (.request (.setVariable (.frame f) x name expression)))
    let st : Standing σ := { b.standing s with queue := [], engine := (Engine.visible e (b.scopeOf f)).2 }
    (∀ causes, (Engine.visible e (b.scopeOf f)).1 = .error causes → (sent.pump s).1 = 1
      ∧ Arrives s { st with heap := h } b (sent.pump s).2)
    ∧ ∀ reports, (Engine.visible e (b.scopeOf f)).1 = .ok reports →
      let made := (reports.mapM Report.make).run h
      (sent.pump s).1 = 2 ∧ Arrives s ({ st with heap := made.2 }.refreshed
        { b.world with inHand := some f }.reach f made.1) b (sent.pump s).2 := by
  intro sent st
  let r : Request := .setVariable (.frame f) x name expression
  let next := (sent.take s).2.deliver s (.request r)
  obtain ⟨hfirst, hserved⟩ := hs.deliver_queued hheld hqueue x name expression []
  change (sent.take s).1 = some (.request r) at hfirst
  have htried : Arrives s ({ b.standing s with queue := [], engine := e, heap := h }.reported
      (b.scopeOf f) f) b next := by
    change Arrives s ({ b.standing s with
      queue := []
      engine := (Engine.attempt (b.engines.get s) (b.scopeOf f) name expression b.world.heap).1
      heap := (Engine.attempt (b.engines.get s) (b.scopeOf f) name expression b.world.heap).2 }.reported
        (b.scopeOf f) f) b next at hserved
    rw [hattempt] at hserved
    exact hserved
  obtain ⟨n, hload⟩ : ∃ n, sent.workload s = n + 2 := by
    have hsent := (Arrives.refl s b).send hs.isOpen (.request r)
    have hempty : (b.standing s).queue = [] := hqueue
    rw [hempty] at hsent
    exact exists_workload hsent.queue
  have hpump : sent.pump s = ((drain (take s) (deliver s) (n + 2) next).1 + 1,
      (drain (take s) (deliver s) (n + 2) next).2) := by
    rw [pump, hload, drain_of_some hfirst]
  rw [hpump]
  constructor
  · intro causes herror
    rw [Standing.reported_of_error herror] at htried
    obtain ⟨hcount, hend⟩ := htried.drain_nil rfl (n + 1)
    dsimp only
    rw [hcount]
    exact ⟨rfl, hend⟩
  · intro reports hok made
    rw [Standing.reported_of_ok hok] at htried
    obtain ⟨hcount, hend⟩ := htried.drain_variables hs hf hqueue rfl n
    dsimp only
    rw [hcount]
    exact ⟨rfl, hend⟩

end Bridge

/-! ### Engines that are watched -/

/-- What an engine is asked by a debugger that looks into a scope. -/
inductive Inquiry where
  | visible (scope : Scope)
  | evaluate (scope : Scope) (expression : String)
  | assign (scope : Scope) (name : String) (content : Datum)
deriving DecidableEq

/-- An engine, and all that it was asked so far. -/
structure Watched (σ : Type) where
  engine : σ
  asked : List Inquiry

namespace Watched

variable {σ α : Type}

instance [Inhabited σ] : Inhabited (Watched σ) := ⟨⟨default, []⟩⟩

/-- The engine answers, and the inquiry is written down. -/
def noting (e : Watched σ) (q : Inquiry) (ask : σ → α × σ) : α × Watched σ :=
  let answer := ask e.engine
  (answer.1, ⟨answer.2, e.asked ++ [q]⟩)

/-- A watched engine is the engine that is watched. -/
instance [Engine σ] : Engine (Watched σ) where
  visible e scope := e.noting (.visible scope) (Engine.visible · scope)
  evaluate e scope expression :=
    e.noting (.evaluate scope expression) (Engine.evaluate · scope expression)
  assign e scope name content :=
    e.noting (.assign scope name content) (Engine.assign · scope name content)
  terminate e :=
    let (answer, engine) := Engine.terminate e.engine
    (answer, { e with engine })
  isStopped e := Engine.isStopped e.engine
  bind e name content := { e with engine := Engine.bind e.engine name content }

end Watched

section Attempts

variable {σ : Type} [Engine σ]

/-- What an engine is asked where the value of an expression is assigned to a variable. -/
def Engine.inquiries (e : σ) (scope : Scope) (name expression : String) (h : Heap) : List Inquiry :=
  match (Engine.evaluate e scope expression).1 with
  | .error _ => [.evaluate scope expression]
  | .ok draft => [.evaluate scope expression, .assign scope name ((realize draft).run h).1]

/-- A watched engine does what the engine does that is watched, and has it written down. -/
theorem Watched.attempt_eq (e : Watched σ) (scope : Scope) (name expression : String) (h : Heap) :
    Engine.attempt e scope name expression h
      = (⟨(Engine.attempt e.engine scope name expression h).1,
          e.asked ++ Engine.inquiries e.engine scope name expression h⟩,
        (Engine.attempt e.engine scope name expression h).2) := by
  have hevaluate : Engine.evaluate e scope expression
      = e.noting (.evaluate scope expression) (Engine.evaluate · scope expression) := rfl
  unfold Engine.attempt Engine.inquiries
  rw [hevaluate, noting]
  cases Engine.evaluate e.engine scope expression with
  | mk answer e' =>
      cases answer with
      | error failure => rfl
      | ok draft =>
          simp only [Engine.assign, noting, List.append_assoc]
          rfl

end Attempts

/-! ### Assignments that come back -/

namespace Bridge

open World

section ComingBack

variable {σ : Type} [Inhabited σ] [Engine σ] {f : FrameRef}

omit [Inhabited σ] in
/-- An attempt to assign leaves the heap as it was, but for a new text. -/
theorem heap_attempt (e : σ) (scope : Scope) (name expression : String) (h : Heap) :
    (Engine.attempt e scope name expression h).2.bindings = h.bindings
      ∧ (Engine.attempt e scope name expression h).2.values = h.values
      ∧ (Engine.attempt e scope name expression h).2.objects = h.objects := by
  unfold Engine.attempt
  cases Engine.evaluate e scope expression with
  | mk answer e' =>
      cases answer with
      | error failure => exact ⟨rfl, rfl, rfl⟩
      | ok draft =>
          obtain ⟨hobjects, hvalues, hbindings, -⟩ := Heap.realize_eq draft h
          exact ⟨hbindings, hvalues, hobjects⟩

/-- What comes of an attempt to assign a variable of a frame: the engine, without its notes, and the
heap. -/
def attempted (b : Bridge (Watched σ)) (f : FrameRef) (name expression : String) : σ × Heap :=
  Engine.attempt (b.engines.get f.session).engine (b.scopeOf f) name expression b.world.heap

/-- What comes of an assignment to a variable of a frame, after a number of messages: the engine of the
session is asked for the value, to assign it if there is one, and for the variables. If it gives them, the
frame takes them in and is clean, and if it does not, the frame is left as it was. No other frame and no
other engine is touched, and nothing breaks off. -/
structure ComesBack (b : Bridge (Watched σ)) (f : FrameRef) (name expression : String) (count : Nat)
    (b' : Bridge (Watched σ)) : Prop where
  asked : (b'.engines.get f.session).asked = (b.engines.get f.session).asked
    ++ Engine.inquiries (b.engines.get f.session).engine (b.scopeOf f) name expression b.world.heap
    ++ [.visible (b.scopeOf f)]
  refreshed : ∀ reports,
    (Engine.visible (b.attempted f name expression).1 (b.scopeOf f)).1 = .ok reports →
      let made := (reports.mapM Report.make).run (b.attempted f name expression).2
      let merging := (mergeVariables { b.world with inHand := some f }.reach f (b.world.frame f).known
        made.1).run made.2
      count = 2 ∧ b'.world.frame f = ⟨merging.1, false⟩ ∧ b'.world.heap = merging.2
  left : ∀ causes,
    (Engine.visible (b.attempted f name expression).1 (b.scopeOf f)).1 = .error causes →
      count = 1 ∧ b'.world.frame f = b.world.frame f ∧ b'.world.heap.bindings = b.world.heap.bindings
        ∧ b'.world.heap.values = b.world.heap.values ∧ b'.world.heap.objects = b.world.heap.objects
  elsewhere : ∀ g : FrameRef, (g.session, g.index) ≠ (f.session, f.index) →
    b'.world.frame g = b.world.frame g
  others : ∀ t, t ≠ f.session → b'.engines.get t = b.engines.get t
  logged : b.world.journal.Smooth b'.world.journal

/-- A session that is pumped with nothing but an assignment to do lets it come back and serves as before. -/
theorem Serving.comesBack {b : Bridge (Watched σ)} (hs : b.Serving f.session f.handle)
    (hheld : b.world.isHeld f = true) (hqueue : (b.world.session f.session).mailbox.queue = [])
    (x : VariableId) (name expression : String) :
    let sent := b.onWorld (·.send f.session (.request (.setVariable (.frame f) x name expression)))
    b.ComesBack f name expression (sent.pump f.session).1 (sent.pump f.session).2
      ∧ (sent.pump f.session).2.Serving f.session f.handle
      ∧ ((sent.pump f.session).2.world.session f.session).mailbox.queue = [] := by
  intro sent
  let s := f.session
  let scope := b.scopeOf f
  let e := b.engines.get s
  let attempt := b.attempted f name expression
  let asked := e.asked ++ Engine.inquiries e.engine scope name expression b.world.heap
  let answer := Engine.visible attempt.1 scope
  have hattempt : Engine.attempt e scope name expression b.world.heap = (⟨attempt.1, asked⟩, attempt.2) :=
    e.attempt_eq scope name expression b.world.heap
  obtain ⟨herrors, hreports⟩ := hs.pump_assignment rfl hheld hqueue x hattempt
  change ∀ causes, answer.1 = .error causes → _ at herrors
  change ∀ reports, answer.1 = .ok reports → _ at hreports
  obtain ⟨st, hend, hempty, hasked, hframes⟩ : ∃ st, Arrives s st b (sent.pump s).2 ∧ st.queue = []
      ∧ st.engine.asked = asked ++ [.visible scope]
      ∧ ∀ k, k ≠ f.index → st.frames.get k = (b.standing s).frames.get k := by
    cases hanswer : answer.1 with
    | error causes => exact ⟨_, (herrors causes hanswer).2, rfl, rfl, fun _ _ => rfl⟩
    | ok reports =>
        refine ⟨_, (hreports reports hanswer).2, rfl, rfl, fun k hk => ?_⟩
        exact (Arena.get_modify ..).trans (if_neg (Ne.symm hk))
  have hback : b.ComesBack f name expression (sent.pump s).1 (sent.pump s).2 :=
    { asked := by rw [hend.engine, hasked]
      refreshed := fun reports hok => by
        obtain ⟨hcount, hfilled⟩ := hreports reports hok
        refine ⟨hcount, ?_, hfilled.heap⟩
        exact (hfilled.frame rfl).trans ((Arena.get_modify ..).trans (if_pos rfl))
      left := fun causes herror => by
        obtain ⟨hcount, hleft⟩ := herrors causes herror
        rw [hleft.heap]
        exact ⟨hcount, hleft.frame rfl, heap_attempt e.engine scope name expression b.world.heap⟩
      elsewhere := fun _ hg => hend.frame_elsewhere hframes hg
      others := hend.confined.engines
      logged := hend.confined.world.logged }
  exact ⟨hback, hs.confined hend.confined, hend.queue.trans hempty⟩

/-- An assignment to a variable of a frame whose thread is held up sends a request and changes nothing else.
When the session is pumped, the assignment comes back, and the session serves as before. Requests that were
posted behind it are handed over next, to a session that serves. -/
theorem assignment_comes_back {b : Bridge (Watched σ)} (hs : b.Serving f.session f.handle)
    (hheld : b.world.isHeld f = true) (hqueue : (b.world.session f.session).mailbox.queue = [])
    {x : VariableId} (hbinding : (b.world.heap.bindings.get x).origin.slot? = none)
    (hparent : (b.world.heap.bindings.get x).parent = .frame f) (expression : String) :
    let s := f.session
    let name := (b.world.heap.bindings.get x).name
    let r : Request := .setVariable (.frame f) x name expression
    let sent := b.onWorld (·.send s (.request r))
    b.act (assignVariable x expression) = (.ok (.ok ()), sent)
      ∧ b.ComesBack f name expression (sent.pump s).1 (sent.pump s).2
      ∧ (sent.pump s).2.Serving s f.handle
      ∧ ((sent.pump s).2.world.session s).mailbox.queue = []
      ∧ ∀ later : List Request,
        let queued := b.onWorld fun w => later.foldl (fun w r => w.post s r) (w.send s (.request r))
        let next := (queued.take s).2.deliver s (.request r)
        queued.pump s = ((drain (take s) (deliver s) (queued.workload s) next).1 + 1,
            (drain (take s) (deliver s) (queued.workload s) next).2)
          ∧ next.Serving s f.handle
          ∧ ∃ answers, (next.world.session s).mailbox.queue
            = later.map (fun r => .message (.request r)) ++ answers := by
  intro s name r sent
  have hreach : b.world.reach (.frame f) = some s := by
    rw [reach, hheld, hs.alive]
    rfl
  have hact : b.act (assignVariable x expression) = (.ok (.ok ()), sent) := by
    have hassign := assignVariable_of_binding hbinding (hparent ▸ hreach) hs.attached expression
    rw [hparent] at hassign
    unfold act
    rw [hassign]
    rfl
  obtain ⟨hback, hserving, hempty⟩ := hs.comesBack hheld hqueue x name expression
  refine ⟨hact, hback, hserving, hempty, fun later => ?_⟩
  intro queued next
  obtain ⟨hfirst, hserved⟩ := hs.deliver_queued hheld hqueue x name expression later
  refine ⟨drain_of_some hfirst _, hs.confined hserved.confined, ?_⟩
  rw [hserved.queue]
  exact Standing.queue_reported _ _ _

end ComingBack

/-- A session whose only thread is held up at a line of a frame that knows one variable, a flag. -/
def heldAtFlag : Bridge (Watched Flag) :=
  let x : Execution := { Execution.start 0 onlyFrame.handle with
    stack := [onlyFrame.activation], waiting := some .line }
  { (∅ : Bridge (Watched Flag)) with
    world := (worldOf [0] [("flag", false, .frame onlyFrame)]).modifySession 0 fun session =>
      { session with mailbox := ∅, debugger := some { Debugger.start false true with executions := [x] } } }

/-- The flag is raised. Its engine is asked for the value and to assign it, and after that for the
variables, which the frame takes in. -/
theorem assignment_comes_back_flag :
    let scope : Scope := ⟨onlyFrame.activation, 0⟩
    let sent := heldAtFlag.onWorld
      (·.send 0 (.request (.setVariable (.frame onlyFrame) 0 "flag" "true")))
    heldAtFlag.Serving 0 onlyFrame.handle ∧ heldAtFlag.world.isHeld onlyFrame = true
      ∧ (heldAtFlag.world.session 0).mailbox.queue = []
      ∧ (heldAtFlag.world.heap.bindings.get 0).origin.slot? = none
      ∧ (heldAtFlag.world.heap.bindings.get 0).parent = .frame onlyFrame
      ∧ (heldAtFlag.act (assignVariable 0 "true")).2 = sent
      ∧ heldAtFlag.ComesBack onlyFrame "flag" "true" (sent.pump 0).1 (sent.pump 0).2
      ∧ (sent.pump 0).1 = 2
      ∧ Engine.inquiries (heldAtFlag.engines.get 0).engine scope "flag" "true" heldAtFlag.world.heap
        = [.evaluate scope "true", .assign scope "flag" (.scalar (.bool true))] := by
  intro scope sent
  have hs : heldAtFlag.Serving 0 onlyFrame.handle :=
    { alive := rfl
      attached := rfl
      isOpen := rfl
      heldUp := ⟨_, _, rfl, rfl, rfl, rfl, rfl⟩
      idle := rfl
      calm := fun _ _ => rfl }
  have hheld : heldAtFlag.world.isHeld onlyFrame = true := by decide
  obtain ⟨hact, hback, -⟩ := assignment_comes_back hs hheld rfl (x := 0) rfl rfl "true"
  obtain ⟨hcount, -⟩ := hback.refreshed _ rfl
  exact ⟨hs, hheld, rfl, rfl, rfl, congrArg Prod.snd hact, hback, hcount, by decide +kernel⟩

end Bridge

end DebugBridge
