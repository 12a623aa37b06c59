import Mathlib.Data.List.Induction
import DebugBridge.Proofs.Services

/-!
# What becomes of executions

A call of an interpreter thread changes the execution of that thread, and a request that a debugger
takes changes the executions of the threads that it is for. Here this is said in full: what the
executions are afterwards, and what the model is told first. What a thread answers when it serves
what it was asked for comes behind, and leaves its execution as it is.

## Main definitions

* `Debugger.stopAt`: why a thread stops at a line of a script;
* `Debugger.Performs`: what a call makes of a debugger;
* `Debugger.Obeys`: what a request makes of a debugger.

## Main results

* `performs_perform`: a call makes of an attached debugger what `Debugger.Performs` says;
* `obeys_receive`: a request makes of one what `Debugger.Obeys` says, unless it leaves.
-/

namespace DebugBridge

/-- What a call makes of the calls that are active. -/
def Call.moves : Call → List Activation → List Activation
  | .push a, active => a :: active
  | .pop, active => active.tail
  | _, active => active

/-- Whether a request for a thread, or for all threads, is for this one. -/
def Execution.isMeant (x : Execution) : Option Handle → Bool
  | none => true
  | some handle => x.handle.id = handle.id

/-- An execution after a request to suspend a thread, or all threads. -/
def Execution.nudge (x : Execution) (thread : Option Handle) : Execution :=
  if x.isMeant thread then { x with suspendRequested := true } else x

/-- A request to suspend leaves to whom an execution belongs. -/
@[simp] theorem Execution.owner_nudge (x : Execution) (thread : Option Handle) :
    (x.nudge thread).owner = x.owner := by
  unfold nudge
  split <;> rfl

/-- A request to suspend leaves the name of the thread. -/
@[simp] theorem Execution.handle_nudge (x : Execution) (thread : Option Handle) :
    (x.nudge thread).handle = x.handle := by
  unfold nudge
  split <;> rfl

/-- A request to suspend leaves where a thread waits. -/
@[simp] theorem Execution.waiting_nudge (x : Execution) (thread : Option Handle) :
    (x.nudge thread).waiting = x.waiting := by
  unfold nudge
  split <;> rfl

/-- Calls in which a thread goes its way, but needs an execution. -/
def Call.IsMove : Call → Prop
  | .threadStarted | .push _ | .pop | .stack | .currentThread => True
  | _ => False

namespace Debugger

/-- The execution of an interpreter thread. At first sight it begins, under the next number. -/
def executionFor (d : Debugger) (n : Nat) (i : Interpreter) : Execution :=
  (d.ofOwner? i.id).getD (.start i.id ⟨n, i.name⟩)

/-- A debugger all of whose executions change in one way. -/
def each (d : Debugger) (f : Execution → Execution) : Debugger :=
  { d with executions := d.executions.map f }

/-- A debugger that knows an interpreter thread. -/
def meet (d : Debugger) (n : Nat) (i : Interpreter) : Debugger :=
  match d.ofOwner? i.id with
  | some _ => d
  | none => d.insert (.start i.id ⟨n, i.name⟩)

/-- Whether a debugger stops anybody at a line of a script. -/
def minds (d : Debugger) (script : Script) (line : Nat) : Bool :=
  d.isTracked script && 1 ≤ line

/-- Why a thread stops that reaches a line of a script, if it does. -/
def stopAt (d : Debugger) (m : Marks) (x : Execution) (script : Script) (line : Nat) :
    Option SuspendReason :=
  match x.stack with
  | [] => none
  | top :: _ => x.stopReason (m.moveTo top line) (d.table.isActive m script line)

/-- What a call of an interpreter thread makes of a debugger, and what the model is told, where the
next number is given. -/
inductive Performs (d : Debugger) (m : Marks) (n : Nat) (i : Interpreter) :
    Call → Debugger → List Event → Prop where
  /-- The call is none of its business, or it only passes on what it hears. -/
  | aside (c : Call) (es : List Event) (hes : es = [] ∨ es = [.engineStarted])
      (hline : ∀ script line, c = .line script line → d.minds script line = false)
      (hscript : ∀ script, c = .scriptStarted script → d.isTracked script = false)
      (hc : ¬c.IsMove) : Performs d m n i c d es
  /-- The thread goes its way. -/
  | moved (c : Call) (hc : c.IsMove) (es : List Event)
      (hes : es = [] ∨ es = [.threadCreated (d.executionFor n i).handle]) :
      Performs d m n i c ((d.meet n i).put { d.executionFor n i with
        stack := c.moves (d.executionFor n i).stack }) es
  /-- The thread is held up before a script. -/
  | held (script : Script) (ht : d.isTracked script = true) (answers : List Event)
      (ha : ∀ e ∈ answers, e.isAnswer = true) :
      Performs d m n i (.scriptStarted script) ((d.meet n i).put { d.executionFor n i with
        waiting := some .load, pending := [] })
        (.scriptReady script (d.executionFor n i).handle (d.executionFor n i).stack.isEmpty :: answers)
  /-- The thread passes a line. -/
  | passed (script : Script) (line : Nat) (ht : d.minds script line = true)
      (hr : d.stopAt m (d.executionFor n i) script line = none) :
      Performs d m n i (.line script line) (d.meet n i) []
  /-- The thread stops at a line. -/
  | stopped (script : Script) (line : Nat) (reason : SuspendReason)
      (ht : d.minds script line = true)
      (hr : d.stopAt m (d.executionFor n i) script line = some reason) (answers : List Event)
      (ha : ∀ e ∈ answers, e.isAnswer = true) :
      Performs d m n i (.line script line) ((d.meet n i).put { d.executionFor n i with
        waiting := some .line, suspendRequested := false, pending := [] })
        (.suspended (d.executionFor n i).handle reason (d.executionFor n i).stack :: answers)
  /-- The thread is gone. -/
  | gone (x : Execution) (hx : d.ofOwner? i.id = some x) :
      Performs d m n i .threadFinished (d.erase i.id) [.threadTerminated x.handle]

/-- What a request makes of a debugger, and what the model is told. -/
inductive Obeys (d : Debugger) (m : Marks) (r : Request) : Debugger → List Event → Prop where
  /-- One thread is resumed. -/
  | resumed (handle : Handle) (kind : ResumeKind) (x : Execution)
      (hr : r = .resume (some handle) kind) (hx : d.ofHandle? handle = some x) :
      Obeys d m r (d.put (x.resume m kind))
        (if x.waiting.isSome then [.resumed x.handle (x.resume m kind).resumeKind] else [])
  /-- All threads are resumed. -/
  | resumedAll (kind : ResumeKind) (hr : r = .resume none kind) (es : List Event) :
      Obeys d m r (d.each (·.resume m kind)) es
  /-- Threads are asked to stop by themselves. -/
  | nudged (thread : Option Handle) (hr : r = .suspend thread) :
      Obeys d m r (d.each (·.nudge thread)) []
  /-- Breakpoints are set or removed. -/
  | noted (table : BreakpointTable)
      (hr : ∀ thread, r ≠ .suspend thread ∧ ∀ kind, r ≠ .resume thread kind) :
      Obeys d m r { d with table } []
  /-- A thread puts off what it is asked for. -/
  | putOff (x : Execution) (pending : List Request) (hx : x ∈ d.executions)
      (hr : ∀ thread, r ≠ .suspend thread ∧ ∀ kind, r ≠ .resume thread kind) :
      Obeys d m r (d.put { x with pending }) []
  /-- A thread answers, or the request is for nobody. -/
  | served (answers : List Event) (ha : ∀ e ∈ answers, e.isAnswer = true)
      (hr : ∀ thread, r ≠ .suspend thread)
      (hx : ∀ thread kind, r = .resume thread kind →
        ∃ handle, thread = some handle ∧ d.ofHandle? handle = none) : Obeys d m r d answers

/-! ### Debuggers that know a thread -/

variable {d : Debugger} {n : Nat} {i : Interpreter}

/-- A debugger listens to its session as before when it meets a thread. -/
@[simp] theorem attached_meet (d : Debugger) (n : Nat) (i : Interpreter) :
    (d.meet n i).attached = d.attached := by
  unfold meet
  split <;> rfl

/-- A debugger has the breakpoints it had when it meets a thread. -/
@[simp] theorem table_meet (d : Debugger) (n : Nat) (i : Interpreter) :
    (d.meet n i).table = d.table := by
  unfold meet
  split <;> rfl

/-- A debugger shows generated code as before when it meets a thread. -/
@[simp] theorem showDynamicCode_meet (d : Debugger) (n : Nat) (i : Interpreter) :
    (d.meet n i).showDynamicCode = d.showDynamicCode := by
  unfold meet
  split <;> rfl

/-- A debugger that met a thread has its execution. -/
theorem ofOwner?_meet (d : Debugger) (n : Nat) (i : Interpreter) :
    (d.meet n i).ofOwner? i.id = some (d.executionFor n i) := by
  unfold meet executionFor
  cases hx : d.ofOwner? i.id with
  | some x => simpa using hx
  | none => simp [ofOwner?_insert, hx, Execution.start]

/-- A debugger that meets a thread has the executions of others as before. -/
theorem ofOwner?_meet_of_ne {o : Nat} (h : o ≠ i.id) : (d.meet n i).ofOwner? o = d.ofOwner? o := by
  unfold meet
  split
  · rfl
  · rw [ofOwner?_insert, if_neg fun h' => h h'.symm]
    simp

/-- The execution of a thread belongs to its interpreter. -/
theorem owner_executionFor (d : Debugger) (n : Nat) (i : Interpreter) :
    (d.executionFor n i).owner = i.id :=
  owner_of_ofOwner? (ofOwner?_meet d n i)

/-- A thread that does not wait does not wait in the execution that it gets. -/
theorem waiting_executionFor (h : d.isWaiting i.id = false) :
    (d.executionFor n i).waiting = none := by
  unfold executionFor
  cases hx : d.ofOwner? i.id with
  | some x => exact isWaiting_eq_false h hx
  | none => rfl

/-- Executions stay in order when one begins under the next number. -/
theorem Orderly.meet (h : d.Orderly n) (i : Interpreter) : (d.meet n i).Orderly (n + 1) := by
  unfold Debugger.meet
  split
  · exact h.mono (Nat.le_succ n)
  · next hnew => exact h.insert hnew i.name

/-- To resume the threads of a debugger one after the other is to resume each. -/
theorem foldl_put (h : d.Orderly n) {f : Execution → Execution}
    (hf : ∀ x, (f x).owner = x.owner) (xs : List Execution) (hxs : ∀ x ∈ xs, x ∈ d.executions) :
    xs.foldl (fun d x => d.put (f x)) d
      = d.each fun y => if y.owner ∈ xs.map Execution.owner then f y else y := by
  induction xs using List.reverseRecOn with
  | nil => simp [each]
  | append_singleton xs x ih =>
      have hx : x ∈ d.executions := hxs x (by simp)
      rw [List.foldl_append, ih fun y hy => hxs y (List.mem_append_left _ hy)]
      simp only [List.foldl_cons, List.foldl_nil, put, each, List.map_map, hf]
      congr 1
      refine List.map_congr_left fun y hy => ?_
      by_cases ho : y.owner = x.owner
      · obtain rfl := h.eq_of_owner hy hx ho
        simp only [Function.comp_apply, List.map_append, List.mem_append]
        split <;> simp [hf]
      · simp only [Function.comp_apply, List.map_append, List.mem_append]
        split <;> simp_all

end Debugger

namespace World

variable {s : Nat} {d : Debugger} {w : World}

/-! ### Executions that begin -/

/-- The execution of a thread is found, or it begins under the next number. -/
theorem becomes_executionOf {i : Interpreter} (hd : (w.session i.session).debugger = some d) :
    Becomes i.session (d.meet w.nextNumber i) [] w (w.executionOf i).2
      ∧ (w.executionOf i).1 = d.executionFor w.nextNumber i
      ∧ (w.executionOf i).2.marks = w.marks := by
  unfold executionOf Debugger.meet Debugger.executionFor
  rw [debugger_eq hd]
  cases hx : d.ofOwner? i.id with
  | some x => exact ⟨.refl hd, rfl, rfl⟩
  | none =>
      let x := Execution.start i.id ⟨w.nextNumber, i.name⟩
      have hnumber : Becomes i.session d [] w w.number.2 :=
        becomes_of_sessions hd rfl rfl rfl (Nat.le_succ _) (.beside rfl rfl rfl)
      have hinsert := becomes_modifyDebugger hnumber.debugger (·.insert x) (d.yields_insert hx rfl)
      exact ⟨hnumber.trans hinsert, rfl, rfl⟩

/-- To look a thread up is to meet it, and to leave it as it is. -/
theorem becomes_meet_put {i : Interpreter} (hd : (w.session i.session).debugger = some d)
    (ho : d.Orderly w.nextNumber) :
    Becomes i.session ((d.meet w.nextNumber i).put (d.executionFor w.nextNumber i)) [] w
      (w.executionOf i).2 := by
  have hmem := Debugger.mem_of_ofOwner? (Debugger.ofOwner?_meet d w.nextNumber i)
  rw [(ho.meet i).put_self hmem]
  exact (becomes_executionOf hd).1

/-- The execution of a thread is changed where it is, or where it begins. -/
theorem becomes_modifyExecution {i : Interpreter} (hd : (w.session i.session).debugger = some d)
    (ha : d.attached = true) (f : Execution → Execution) :
    Becomes i.session ((d.meet w.nextNumber i).put (f (d.executionFor w.nextNumber i))) [] w
      (w.modifyExecution i f) := by
  obtain ⟨hopen, hx, -⟩ := becomes_executionOf hd
  have hput := becomes_putExecution hopen.debugger ((d.attached_meet _ i).trans ha)
    (f (d.executionFor w.nextNumber i))
  rw [← hx] at hput
  have hrun : w.modifyExecution i f
      = (w.executionOf i).2.putExecution i.session (f (w.executionOf i).1) := rfl
  rw [hrun, ← hx]
  exact hopen.trans hput

/-- A thread that reaches a line of a script passes it, or it has a reason to stop there, and then a
request to suspend is spent. -/
theorem becomes_reachLine {i : Interpreter} (hd : (w.session i.session).debugger = some d)
    (ha : d.attached = true) (script : Script) (line : Nat) :
    (d.stopAt w.marks (d.executionFor w.nextNumber i) script line = none
        ∧ ∃ u, w.reachLine i script line = (none, u)
          ∧ Becomes i.session (d.meet w.nextNumber i) [] w u)
      ∨ ∃ reason u, d.stopAt w.marks (d.executionFor w.nextNumber i) script line = some reason
        ∧ w.reachLine i script line = (some reason, u)
        ∧ Becomes i.session ((d.meet w.nextNumber i).put
          { d.executionFor w.nextNumber i with suspendRequested := false }) [] w u := by
  obtain ⟨hopen, hx, hmarks⟩ := becomes_executionOf (i := i) hd
  have hattached := (d.attached_meet w.nextNumber i).trans ha
  unfold reachLine Debugger.stopAt
  rw [debugger_eq hd, ← hx]
  cases hrun : w.executionOf i with
  | mk x v =>
      rw [hrun] at hopen hmarks
      obtain ⟨owner, handle, stack, kind, depth, top, waiting, asked, pending⟩ := x
      cases stack with
      | nil => exact .inl ⟨rfl, v, rfl, hopen⟩
      | cons a rest =>
          let u : World := { v with marks := w.marks.moveTo a line }
          have hmove : Becomes i.session (d.meet w.nextNumber i) [] w u :=
            hopen.trans (becomes_of_sessions hopen.debugger rfl rfl rfl (Nat.le_refl _)
              (.beside rfl rfl rfl))
          dsimp only at hmarks ⊢
          rw [hmarks]
          split
          · next hreason => exact .inl ⟨hreason, u, rfl, hmove⟩
          · next reason hreason =>
              have hput := hmove.trans (becomes_putExecution hmove.debugger hattached
                ⟨owner, handle, a :: rest, kind, depth, top, waiting, false, pending⟩)
              have hsaid := hput.trans (becomes_trace hput.debugger "runtime"
                s!"{i.name} stops at {script.title}:{line} ({reason.name})")
              exact .inr ⟨reason, _, hreason, rfl, hsaid⟩

/-- To resume a thread moves no activation. -/
theorem marks_resumeExecution (w : World) (s : Nat) (kind : ResumeKind) (x : Execution) :
    (w.resumeExecution s kind x).marks = w.marks := by
  have hfire : ∀ (w : World) e, (w.fire s e).marks = w.marks := by
    intro w e
    unfold fire
    split <;> rfl
  unfold resumeExecution
  split
  · exact hfire _ _
  · rfl

/-- A request to resume all threads. -/
theorem becomes_resumeAll {n : Nat} (hd : (w.session s).debugger = some d)
    (ha : d.attached = true) (ho : d.Orderly n) (kind : ResumeKind) :
    ∃ es, Becomes s (d.each (·.resume w.marks kind)) es w (w.resume s kind none) := by
  have hfold : ∀ (xs : List Execution) (w : World) (d : Debugger),
      (w.session s).debugger = some d → d.attached = true →
      ∃ es, Becomes s (xs.foldl (fun d x => d.put (x.resume w.marks kind)) d) es w
        (xs.foldl (fun w x => w.resumeExecution s kind x) w) := by
    intro xs
    induction xs with
    | nil => exact fun w d hd _ => ⟨[], .refl hd⟩
    | cons x xs ih =>
        intro w d hd ha
        have hfirst := becomes_resumeExecution hd ha kind x
        obtain ⟨es, hrest⟩ := ih (w.resumeExecution s kind x) _ hfirst.debugger ha
        rw [marks_resumeExecution] at hrest
        exact ⟨_, hfirst.trans hrest⟩
  obtain ⟨es, h⟩ := hfold d.executions w d hd ha
  have hput := d.foldl_put ho (f := (·.resume w.marks kind)) (fun x => x.owner_resume w.marks kind)
    d.executions fun _ => id
  have hall : d.executions.map (fun y => if y.owner ∈ d.executions.map Execution.owner
      then y.resume w.marks kind else y) = d.executions.map (·.resume w.marks kind) :=
    List.map_congr_left fun y hy => if_pos (List.mem_map_of_mem hy)
  rw [Debugger.each, hall] at hput
  rw [hput] at h
  refine ⟨es, ?_⟩
  have hrun : w.resume s kind none
      = d.executions.foldl (fun w x => w.resumeExecution s kind x) w := by
    rw [← debugger_eq hd]
    rfl
  rw [hrun]
  exact h

end World

namespace Bridge

open World Debugger

variable {σ : Type} [Inhabited σ] [Engine σ] {s : Nat} {d : Debugger} {b : Bridge σ}

/-! ### Calls -/

/-- A thread that is held up says so, and answers what it was asked for. -/
theorem becomes_suspend {i : Interpreter} {x : Execution} {n : Nat}
    (hd : (b.world.session i.session).debugger = some d) (ha : d.attached = true)
    (ho : d.Orderly n) (hx : d.ofOwner? i.id = some x) (gate : Gate) (event : Execution → Event) :
    ∃ answers : List Event, (∀ e ∈ answers, e.isAnswer = true) ∧
      Becomes i.session (d.put { x with waiting := some gate, pending := [] })
        (event { x with waiting := some gate } :: answers) b.world
        (b.suspend i gate event).world := by
  let y : Execution := { x with waiting := some gate }
  let u := (b.world.putExecution i.session y).fire i.session (event y)
  let v : Bridge σ := { b with world := u.trace "runtime" (i.name ++ " suspended") }
  have hsusp : b.suspend i gate event = serveAll i.session y y.pending v :=
    suspend_eq (by rw [debugger_eq hd]; exact ha) (executionOf_eq hd hx) gate event
  have hmem := mem_of_ofOwner? hx
  have hput := becomes_putExecution hd ha y
  have hfire := hput.trans (becomes_fire hput.debugger ha (event y))
  have htold : Becomes i.session (d.put y) [event y] b.world v.world :=
    hfire.trans (becomes_trace hfire.debugger _ _)
  have hy : { y with pending := y.pending } ∈ (d.put y).executions := mem_put_self hmem rfl
  have horder : (d.put y).Orderly n := ho.put hmem rfl rfl
  have hserve : Becomes i.session ((d.put y).put { y with pending := [] })
      ((services i.session y y.pending v).flatMap (Service.answer i.session)) v.world
      (serveAll i.session y y.pending v).world :=
    (becomes_serveAll horder htold.debugger ha rfl hy).1
  have hlast : (d.put y).put { y with pending := [] } = d.put { y with pending := [] } :=
    d.put_put rfl
  rw [hlast] at hserve
  rw [hsusp]
  refine ⟨_, fun e he => ?_, htold.trans hserve⟩
  obtain ⟨v, -, he⟩ := List.mem_flatMap.mp he
  exact isAnswer_answer _ _ _ _ e he

/-- A thread that is over takes its execution along, if the debugger knows it. -/
theorem performs_threadFinished {i : Interpreter}
    (hd : (b.world.session i.session).debugger = some d) (ha : d.attached = true) :
    ∃ d' es, d.Performs b.world.marks b.world.nextNumber i .threadFinished d' es
      ∧ Becomes i.session d' es b.world (b.perform i .threadFinished).2.world := by
  cases hx : d.ofOwner? i.id with
  | none =>
      have hrun : (b.perform i .threadFinished).2.world = b.world := by
        simp only [perform, onWorld, finishThread]
        rw [debugger_eq hd, hx]
      rw [hrun]
      exact ⟨d, _, .aside _ [] (.inl rfl) (by simp) (by simp) (by simp [Call.IsMove]), .refl hd⟩
  | some x =>
      have hrun : (b.perform i .threadFinished).2.world
          = (b.world.modifyDebugger i.session (·.erase i.id)).fire i.session
            (.threadTerminated x.handle) := by
        simp only [perform, onWorld, finishThread]
        rw [debugger_eq hd, hx]
      have herase := becomes_modifyDebugger hd (·.erase i.id) (d.yields_erase i.id)
      rw [hrun]
      exact ⟨_, _, .gone x hx, herase.trans (becomes_fire herase.debugger ha _)⟩

/-- A thread that begins is met, and the model hears of it. -/
theorem performs_threadStarted {i : Interpreter}
    (hd : (b.world.session i.session).debugger = some d) (ha : d.attached = true)
    (ho : d.Orderly b.world.nextNumber) :
    ∃ d' es, d.Performs b.world.marks b.world.nextNumber i .threadStarted d' es
      ∧ Becomes i.session d' es b.world (b.perform i .threadStarted).2.world := by
  obtain ⟨-, hx, -⟩ := becomes_executionOf (i := i) hd
  have hopen := becomes_meet_put hd ho
  have htold := becomes_fire hopen.debugger ((d.attached_meet _ i).trans ha)
    (.threadCreated (b.world.executionOf i).1.handle)
  have hrun : (b.perform i .threadStarted).2.world = (b.world.executionOf i).2.fire i.session
      (.threadCreated (b.world.executionOf i).1.handle) := rfl
  rw [hrun]
  rw [hx] at htold ⊢
  exact ⟨_, _, .moved .threadStarted trivial [.threadCreated _] (.inr rfl), hopen.trans htold⟩

/-- A thread that comes to a script is held up before it, if the debugger tracks the script. -/
theorem performs_scriptStarted {i : Interpreter}
    (hd : (b.world.session i.session).debugger = some d) (ha : d.attached = true)
    (ho : d.Orderly b.world.nextNumber) (script : Script) :
    ∃ d' es, d.Performs b.world.marks b.world.nextNumber i (.scriptStarted script) d' es
      ∧ Becomes i.session d' es b.world (b.perform i (.scriptStarted script)).2.world := by
  cases ht : d.isTracked script with
  | false =>
      have hrun : (b.perform i (.scriptStarted script)).2 = b :=
        if_neg (by rw [debugger_eq hd]; simp [ht])
      rw [hrun]
      refine ⟨d, _, .aside _ [] (.inl rfl) (by simp) ?_ (by simp [Call.IsMove]), .refl hd⟩
      rintro script' h
      cases h
      exact ht
  | true =>
      let u : Bridge σ := { b with world := (b.world.executionOf i).2 }
      have hrun : (b.perform i (.scriptStarted script)).2
          = u.suspend i .load fun x => .scriptReady script x.handle x.stack.isEmpty :=
        if_pos (by rw [debugger_eq hd]; exact ht)
      have hopen := (becomes_executionOf (i := i) hd).1
      obtain ⟨answers, hanswers, h⟩ := becomes_suspend (b := u) hopen.debugger
        ((d.attached_meet _ i).trans ha) (ho.meet i) (ofOwner?_meet d _ i) .load
        fun x => .scriptReady script x.handle x.stack.isEmpty
      rw [hrun]
      exact ⟨_, _, .held script ht answers hanswers, hopen.trans h⟩

/-- A thread that comes to a line passes it or stops there, if the debugger minds the line. -/
theorem performs_line {i : Interpreter}
    (hd : (b.world.session i.session).debugger = some d) (ha : d.attached = true)
    (ho : d.Orderly b.world.nextNumber) (script : Script) (line : Nat) :
    ∃ d' es, d.Performs b.world.marks b.world.nextNumber i (.line script line) d' es
      ∧ Becomes i.session d' es b.world (b.perform i (.line script line)).2.world := by
  let n := b.world.nextNumber
  let x := d.executionFor n i
  have hown : (d.meet n i).ofOwner? i.id = some x := ofOwner?_meet d n i
  cases ht : d.minds script line with
  | false =>
      have hrun : (b.perform i (.line script line)).2 = b :=
        if_neg (by rw [debugger_eq hd]; simp [minds] at ht; simp; tauto)
      rw [hrun]
      refine ⟨d, _, .aside _ [] (.inl rfl) ?_ (by simp) (by simp [Call.IsMove]), .refl hd⟩
      rintro script' line' h
      cases h
      exact ht
  | true =>
      have hrun : (b.perform i (.line script line)).2 = _ :=
        if_pos (by rw [debugger_eq hd]; exact ht)
      rw [hrun]
      obtain ⟨hreason, u, hline, hu⟩ | ⟨reason, u, hreason, hline, hu⟩ :=
        becomes_reachLine hd ha script line
      · rw [hline]
        exact ⟨_, _, .passed script line ht hreason, hu⟩
      · -- the wish to stop is spent at the line, before the thread is held up
        let y : Execution := { x with suspendRequested := false }
        have hy : ((d.meet n i).put y).ofOwner? i.id = some y := ofOwner?_put_self hown rfl
        obtain ⟨answers, hanswers, h⟩ := becomes_suspend (b := { b with world := u })
          hu.debugger ((d.attached_meet n i).trans ha)
          ((ho.meet i).put (mem_of_ofOwner? hown) rfl rfl) hy .line
          fun x => .suspended x.handle reason x.stack
        have hlast : ((d.meet n i).put y).put { y with waiting := some .line, pending := [] }
            = (d.meet n i).put { y with waiting := some .line, pending := [] } :=
          (d.meet n i).put_put rfl
        rw [hline]
        change Becomes i.session (((d.meet n i).put y).put _) _ _ _ at h
        rw [hlast] at h
        exact ⟨_, _, .stopped script line reason ht hreason answers hanswers, hu.trans h⟩

/-- A call of a thread makes of an attached debugger what `Debugger.Performs`
says, but for the call by which the interpreter finishes. -/
theorem performs_perform {i : Interpreter} (hd : (b.world.session i.session).debugger = some d)
    (ha : d.attached = true) (ho : d.Orderly b.world.nextNumber) {c : Call}
    (hc : c ≠ .engineFinished) :
    ∃ d' es, d.Performs b.world.marks b.world.nextNumber i c d' es
      ∧ Becomes i.session d' es b.world (b.perform i c).2.world := by
  cases c with
  | engineFinished => exact absurd rfl hc
  | engineStarted =>
      exact ⟨d, _, .aside _ [.engineStarted] (.inr rfl) (by simp) (by simp) (by simp [Call.IsMove]),
        becomes_fire hd ha _⟩
  | bind name content =>
      exact ⟨d, _, .aside _ [] (.inl rfl) (by simp) (by simp) (by simp [Call.IsMove]), .refl hd⟩
  | check =>
      exact ⟨d, _, .aside _ [] (.inl rfl) (by simp) (by simp) (by simp [Call.IsMove]), .refl hd⟩
  | threadStarted => exact performs_threadStarted hd ha ho
  | threadFinished => exact performs_threadFinished hd ha
  | stack => exact ⟨_, _, .moved .stack trivial [] (.inl rfl), becomes_meet_put hd ho⟩
  | currentThread =>
      exact ⟨_, _, .moved .currentThread trivial [] (.inl rfl), becomes_meet_put hd ho⟩
  | push a =>
      exact ⟨_, _, .moved (.push a) trivial [] (.inl rfl),
        becomes_modifyExecution hd ha fun x => { x with stack := a :: x.stack }⟩
  | pop =>
      exact ⟨_, _, .moved .pop trivial [] (.inl rfl),
        becomes_modifyExecution hd ha fun x => { x with stack := x.stack.tail }⟩
  | scriptStarted script => exact performs_scriptStarted hd ha ho script
  | line script line => exact performs_line hd ha ho script line

/-! ### Requests -/

/-- What a thread is asked for it serves or puts off, if the debugger knows it. -/
theorem obeys_enqueue (hd : (b.world.session s).debugger = some d) (ha : d.attached = true)
    (handle : Handle) (m : Marks) {r : Request}
    (hr : ∀ thread, r ≠ .suspend thread ∧ ∀ kind, r ≠ .resume thread kind) :
    ∃ d' es, d.Obeys m r d' es ∧ Becomes s d' es b.world (b.enqueue s handle r).world := by
  have hresume : ∀ thread kind, r = .resume thread kind →
      ∃ handle, thread = some handle ∧ d.ofHandle? handle = none := fun thread kind h =>
    absurd h ((hr thread).2 kind)
  unfold enqueue
  rw [debugger_eq hd]
  split
  · exact ⟨d, [], .served [] (by simp) (fun thread => (hr thread).1) hresume, becomes_trace hd _ _⟩
  · next x hx =>
      split
      · let u := b.onWorld (·.setActor x.handle.name)
        have hactor : Becomes s d [] b.world u.world := becomes_setActor hd _
        have hserve := hactor.trans (becomes_serve (b := u) hactor.debugger ha x r)
        have hback := hserve.trans (becomes_setActor hserve.debugger b.world.journal.interpreter)
        rw [List.append_nil] at hback
        exact ⟨d, _, .served _ (isAnswer_answer u s x r) (fun thread => (hr thread).1) hresume, hback⟩
      · exact ⟨_, [], .putOff x (x.pending ++ [r]) (mem_of_ofHandle? hx) hr,
          becomes_putExecution hd ha _⟩

/-- A request makes of an attached debugger what `Debugger.Obeys` says, if it does not bid it
leave. -/
theorem obeys_obey (hd : (b.world.session s).debugger = some d) (ha : d.attached = true)
    {n : Nat} (ho : d.Orderly n) {r : Request} (hr : r ≠ .terminate) (hr' : r ≠ .disconnect) :
    ∃ d' es, d.Obeys b.world.marks r d' es ∧ Becomes s d' es b.world (b.obey s r).world := by
  cases r with
  | terminate => exact absurd rfl hr
  | disconnect => exact absurd rfl hr'
  | suspend thread =>
      exact ⟨_, [], .nudged thread rfl, becomes_modifyDebugger hd (·.each (·.nudge thread))
        (d.yields_map (·.nudge thread) (fun x => x.owner_nudge thread)
          fun x => x.waiting_nudge thread)⟩
  | resume thread kind =>
      cases thread with
      | none =>
          obtain ⟨es, h⟩ := becomes_resumeAll hd ha ho kind
          exact ⟨_, es, .resumedAll kind rfl es, h⟩
      | some handle =>
          cases hx : d.ofHandle? handle with
          | some x =>
              rw [world_obey_resume_of_some hd hx]
              exact ⟨_, _, .resumed handle kind x rfl hx, becomes_resumeExecution hd ha kind x⟩
          | none =>
              rw [world_obey_resume_of_none hd hx]
              refine ⟨d, [], .served [] (by simp) (by simp) ?_, becomes_trace hd _ _⟩
              rintro thread kind' h
              cases h
              exact ⟨handle, rfl, hx⟩
  | breakpoint script point mode =>
      cases mode with
      | add =>
          exact ⟨_, [], .noted (d.table.add script point) (by simp),
            becomes_modifyDebugger hd (fun d => { d with table := d.table.add script point })
              (d.yields_table _)⟩
      | remove =>
          exact ⟨_, [], .noted (d.table.remove script point) (by simp),
            becomes_modifyDebugger hd (fun d => { d with table := d.table.remove script point })
              (d.yields_table _)⟩
  | removeAllBreakpoints =>
      exact ⟨_, [], .noted [] (by simp),
        becomes_modifyDebugger hd (fun d => { d with table := [] }) (d.yields_table _)⟩
  | getStackFrames thread => exact obeys_enqueue hd ha _ _ (by simp)
  | getVariables frame => exact obeys_enqueue hd ha _ _ (by simp)
  | setVariable context binding name expression =>
      simp only [obey]
      split
      · exact obeys_enqueue hd ha _ _ (by simp)
      · exact ⟨d, [], .served [] (by simp) (by simp) (by simp), becomes_trace hd _ _⟩
  | evaluate expression frame thread listener => exact obeys_enqueue hd ha _ _ (by simp)

/-- A request makes of an attached debugger that is not terminated what `Debugger.Obeys` says, or
the debugger leaves. -/
theorem obeys_receive (hd : (b.world.session s).debugger = some d) (ha : d.attached = true)
    (ht : d.terminated = false) {n : Nat} (ho : d.Orderly n) (r : Request) :
    (∃ d' es, d.Obeys b.world.marks r d' es ∧ Becomes s d' es b.world (b.receive s r).world)
      ∨ ((r = .terminate ∨ r = .disconnect)
        ∧ ∀ d', ((b.receive s r).world.session s).debugger = some d' → d'.Gone) := by
  let u := b.trace "runtime" ("process " ++ r.text b.world.marks)
  have htrace : Becomes s d [] b.world u.world := becomes_trace hd _ _
  have hrun : b.receive s r = u.obey s r := if_neg (by rw [debugger_eq hd]; simp [ht])
  rw [hrun]
  by_cases hterminate : r = .terminate
  · subst hterminate
    exact .inr ⟨.inl rfl, (leaves_terminate htrace.debugger ha).left⟩
  by_cases hdisconnect : r = .disconnect
  · subst hdisconnect
    exact .inr ⟨.inr rfl, (leaves_quietly u.world s).left⟩
  obtain ⟨d', es, hobeys, h⟩ := obeys_obey htrace.debugger ha ho hterminate hdisconnect
  exact .inl ⟨d', es, hobeys, htrace.trans h⟩

end Bridge

end DebugBridge
