import DebugBridge.Proofs.Sides

/-!
# What the interpreter side reports

A call of an interpreter thread, and a request that a debugger takes, come down to few kinds of
steps: the execution of one thread changes, and the model is told of it in the same breath. What is
told depends on the change alone. Where a thread waits, its stack stands still.

Only one step is of another kind: a debugger that terminates takes leave of its session.

## Main definitions

* `World.Becomes`: a debugger became another and told events;
* `Execution.Says`, `World.Reports`: the kinds of steps;
* `World.Works`: several such steps for one thread, one after the other.

## Main results

* `works_perform`: a call of a thread works for this thread;
* `obeyed_obey`: what a debugger does that takes a request.
-/

namespace DebugBridge

/-! ### Executions -/

/-- The scripts that a thread may enter by a call. -/
def Call.scripts : Call → List Script
  | .scriptStarted script => [script]
  | .push a => [a.script]
  | _ => []

/-- Events that concern no thread of the model. -/
def Event.IsQuiet : Event → Prop
  | .engineStarted | .frameVariables _ _ | .evaluated _ _ _ _ => True
  | _ => False

namespace Execution

/-- How an execution changes, and what it says of the change, where its thread may enter scripts of
a list. -/
inductive Says (ts : List Script) : Execution → Execution → List Event → Prop where
  /-- A thread that is not held up goes its way. -/
  | moved (x x' : Execution) (hw : x.waiting = none) (hw' : x'.waiting = none)
      (howner : x'.owner = x.owner) (hhandle : x'.handle = x.handle)
      (hstack : ∀ a ∈ x'.stack, a ∈ x.stack ∨ a.script ∈ ts) : Says ts x x' []
  /-- Requests are put off, or taken out again. -/
  | putOff (x : Execution) (pending : List Request) : Says ts x { x with pending } []
  /-- A thread is held up before a script. -/
  | held (x : Execution) (script : Script) (root : Bool) (hw : x.waiting = none)
      (hs : script ∈ ts) :
      Says ts x { x with waiting := some .load } [.scriptReady script x.handle root]
  /-- A thread stops at a line. -/
  | stopped (x : Execution) (reason : SuspendReason) (hw : x.waiting = none) :
      Says ts x { x with waiting := some .line } [.suspended x.handle reason x.stack]
  /-- A thread that was held up or had stopped goes on. -/
  | released (x x' : Execution) (kind : ResumeKind) (hw : x.waiting.isSome = true)
      (hw' : x'.waiting = none) (howner : x'.owner = x.owner) (hhandle : x'.handle = x.handle)
      (hstack : x'.stack = x.stack) : Says ts x x' [.resumed x.handle kind]

/-- An execution that changes belongs to whom it belonged. -/
theorem Says.owner {ts : List Script} {x x' : Execution} {es : List Event}
    (h : x.Says ts x' es) : x'.owner = x.owner := by
  cases h with
  | moved _ _ _ howner _ _ => exact howner
  | released _ _ _ _ howner _ _ => exact howner
  | _ => rfl

/-- An execution that changes keeps its handle. -/
theorem Says.handle {ts : List Script} {x x' : Execution} {es : List Event}
    (h : x.Says ts x' es) : x'.handle = x.handle := by
  cases h with
  | moved _ _ _ _ hhandle _ => exact hhandle
  | released _ _ _ _ _ hhandle _ => exact hhandle
  | _ => rfl

/-- The handle of a thread, and where it waits. -/
def station (x : Execution) : Handle × Option Gate :=
  (x.handle, x.waiting)

/-- Events that name a thread and leave its execution as it is. -/
inductive Mentions (x : Execution) : Event → Prop where
  | created (hw : x.waiting = none) : Mentions x (.threadCreated x.handle)
  | frames (hw : x.waiting.isSome = true) : Mentions x (.stackFrames x.handle x.stack)

end Execution

/-- A table after a breakpoint of a script was added or removed. -/
def BreakpointTable.update (table : BreakpointTable) (script : Script) (p : Breakpoint)
    (mode : BreakpointMode) : BreakpointTable :=
  match mode with
  | .add => table.add script p
  | .remove => table.remove script p

namespace World

/-! ### Steps that are told -/

/-- The debugger of a session became another, and told events. -/
structure Becomes (s : Nat) (d' : Debugger) (es : List Event) (w w' : World) : Prop where
  tells : Tells s w w'
  debugger : (w'.session s).debugger = some d'
  mailbox : (w.session s).mailbox.Gains (es.map .event) (w'.session s).mailbox

variable {s o : Nat} {ts : List Script} {d d' d'' : Debugger}

/-- A debugger that stays as it is told nothing. -/
theorem Becomes.refl {w : World} (hd : (w.session s).debugger = some d) : Becomes s d [] w w :=
  ⟨(steady_tells s).refl w, hd, .refl _⟩

/-- What is told in two steps is told in their order. -/
theorem Becomes.trans {es es' : List Event} {u v w : World} (h : Becomes s d es u v)
    (h' : Becomes s d' es' v w) : Becomes s d' (es ++ es') u w := by
  refine ⟨(steady_tells s).trans h.tells h'.tells, h'.debugger, ?_⟩
  rw [List.map_append]
  exact h.mailbox.trans h'.mailbox

/-- What shows in no session leaves the debugger as it is. -/
theorem becomes_of_sessions {w w' : World} (hd : (w.session s).debugger = some d)
    (h : w'.sessions = w.sessions) (hm : w'.managers = w.managers)
    (hr : w'.reaction = w.reaction) (hn : w.nextNumber ≤ w'.nextNumber) (hmild : Mild w w') :
    Becomes s d [] w w' := by
  have hs : w'.session s = w.session s := by rw [session, session, h]
  exact ⟨.of_sessions h hm hr hn hmild, hs ▸ hd, hs ▸ .refl _⟩

/-- A debugger that is attached tells the event that it fires. -/
theorem becomes_fire {w : World} (hd : (w.session s).debugger = some d) (ha : d.attached = true)
    (e : Event) : Becomes s d [e] w (w.fire s e) := by
  have hrun : w.fire s e = w.send s (.event e) := by
    rw [fire, debugger_eq hd, if_pos ha]
  rw [hrun]
  refine ⟨(speaks_send w (debugger_eq hd ▸ ha) e).toTells, ?_, ?_⟩
  · rw [session_send, if_pos rfl]
    exact hd
  · rw [session_send, if_pos rfl]
    exact Mailbox.gains_post _ _

/-- A debugger may change what it yields without a word. -/
theorem becomes_modifyDebugger {w : World} (hd : (w.session s).debugger = some d)
    (f : Debugger → Debugger) (hf : d.Yields (f d)) :
    Becomes s (f d) [] w (w.modifyDebugger s f) := by
  refine ⟨tells_modifyDebugger w f fun d' hd' => ?_, ?_, ?_⟩
  · obtain rfl := Option.some.inj (hd.symm.trans hd')
    exact hf
  · rw [session_modifyDebugger, if_pos rfl, hd]
    rfl
  · rw [session_modifyDebugger, if_pos rfl]
    exact .refl _

/-- An execution may be put back without a word. -/
theorem becomes_putExecution {w : World} (hd : (w.session s).debugger = some d)
    (ha : d.attached = true) (x : Execution) :
    Becomes s (d.put x) [] w (w.putExecution s x) :=
  becomes_modifyDebugger hd (·.put x) (d.yields_put fun hgone => by
    rw [hgone.attached] at ha
    cases ha)

/-- The kinds of steps of an interpreter side that is attached, for one thread. -/
inductive Reports (s o : Nat) (ts : List Script) (w : World) (d : Debugger) (w' : World) :
    Debugger → Prop where
  /-- A thread is seen for the first time. -/
  | opened (name : String) (hnew : d.ofOwner? o = none) (hn : w.nextNumber < w'.nextNumber)
      (h : Becomes s (d.insert (.start o ⟨w.nextNumber, name⟩)) [] w w') :
      Reports s o ts w d w' (d.insert (.start o ⟨w.nextNumber, name⟩))
  /-- The execution of the thread changes. -/
  | said (x x' : Execution) (es : List Event) (hx : x ∈ d.executions) (ho : x.owner = o)
      (hs : x.Says ts x' es) (h : Becomes s (d.put x') es w w') : Reports s o ts w d w' (d.put x')
  /-- The execution of the thread is mentioned. -/
  | told (x : Execution) (e : Event) (hx : x ∈ d.executions) (ho : x.owner = o)
      (he : x.Mentions e) (h : Becomes s d [e] w w') : Reports s o ts w d w' d
  /-- Something else is told. -/
  | quiet (es : List Event) (hq : ∀ e ∈ es, e.IsQuiet) (h : Becomes s d es w w') :
      Reports s o ts w d w' d
  /-- The thread is gone. -/
  | gone (x : Execution) (hx : x ∈ d.executions) (ho : x.owner = o)
      (h : Becomes s (d.erase o) [.threadTerminated x.handle] w w') :
      Reports s o ts w d w' (d.erase o)

/-- Several steps for one thread, one after the other. -/
inductive Works (s o : Nat) (ts : List Script) (w : World) (d : Debugger) :
    World → Debugger → Prop where
  | refl (hd : (w.session s).debugger = some d) : Works s o ts w d w d
  | step {u w' : World} {d' d'' : Debugger} (h : Works s o ts w d u d')
      (h' : Reports s o ts u d' w' d'') : Works s o ts w d w' d''

/-- One step for a thread is a change of the debugger with some events. -/
theorem Reports.becomes {w w' : World} (h : Reports s o ts w d w' d') :
    ∃ es, Becomes s d' es w w' := by
  cases h with
  | opened _ _ _ h => exact ⟨_, h⟩
  | said _ _ _ _ _ _ h => exact ⟨_, h⟩
  | told _ _ _ _ _ h => exact ⟨_, h⟩
  | quiet _ _ h => exact ⟨_, h⟩
  | gone _ _ _ h => exact ⟨_, h⟩

/-- No such step tells that the interpreter has ended. -/
theorem Reports.unended {w w' : World} (h : Reports s o ts w d w' d') :
    ∃ es, Becomes s d' es w w' ∧ .engineTerminated ∉ es := by
  cases h with
  | opened _ _ _ h => exact ⟨_, h, List.not_mem_nil⟩
  | said x x' es _ _ hs h =>
      refine ⟨es, h, ?_⟩
      cases hs <;> simp
  | told x e _ _ he h =>
      refine ⟨[e], h, ?_⟩
      cases he <;> simp
  | quiet es hq h => exact ⟨es, h, fun he => hq _ he⟩
  | gone _ _ _ h => exact ⟨_, h, by simp⟩

/-- The debugger after several steps is the last one. -/
theorem Works.debugger {w w' : World} (h : Works s o ts w d w' d') :
    (w'.session s).debugger = some d' := by
  cases h with
  | refl hd => exact hd
  | step _ h' =>
      obtain ⟨es, hb⟩ := h'.becomes
      exact hb.debugger

/-- Several steps for a thread are a change of the debugger with some events. -/
theorem Works.becomes {w w' : World} (h : Works s o ts w d w' d') : ∃ es, Becomes s d' es w w' := by
  induction h with
  | refl hd => exact ⟨[], .refl hd⟩
  | step _ h' ih =>
      obtain ⟨es, hb⟩ := ih
      obtain ⟨es', hb'⟩ := h'.becomes
      exact ⟨es ++ es', hb.trans hb'⟩

/-- Steps for a thread never tell that the interpreter has ended. -/
theorem Works.unended {w w' : World} (h : Works s o ts w d w' d') :
    ∃ es, Becomes s d' es w w' ∧ .engineTerminated ∉ es := by
  induction h with
  | refl hd => exact ⟨[], .refl hd, List.not_mem_nil⟩
  | step _ h' ih =>
      obtain ⟨es, hb, hes⟩ := ih
      obtain ⟨es', hb', hes'⟩ := h'.unended
      exact ⟨es ++ es', hb.trans hb', fun he => (List.mem_append.mp he).elim hes hes'⟩

/-- Steps for a thread come one after the other. -/
theorem Works.trans {u v w : World} (h : Works s o ts u d v d') (h' : Works s o ts v d' w d'') :
    Works s o ts u d w d'' := by
  induction h' with
  | refl _ => exact h
  | step _ hr ih => exact .step ih hr

/-- One step for a thread is several steps. -/
theorem Works.single {w w' : World} (hd : (w.session s).debugger = some d)
    (h : Reports s o ts w d w' d') : Works s o ts w d w' d' :=
  .step (.refl hd) h

/-- A debugger stays as it is in all that concerns no execution. -/
structure Alike (d d' : Debugger) : Prop where
  showDynamicCode : d'.showDynamicCode = d.showDynamicCode
  attached : d'.attached = d.attached
  terminated : d'.terminated = d.terminated
  table : d'.table = d.table

/-- A step for a thread leaves all that concerns no execution. -/
theorem Reports.alike {w w' : World} (h : Reports s o ts w d w' d') : Alike d d' := by
  cases h <;> exact ⟨rfl, rfl, rfl, rfl⟩

/-- Steps for a thread leave all that concerns no execution. -/
theorem Works.alike {w w' : World} (h : Works s o ts w d w' d') : Alike d d' := by
  induction h with
  | refl _ => exact ⟨rfl, rfl, rfl, rfl⟩
  | step _ h' ih =>
      have h := h'.alike
      exact ⟨h.showDynamicCode.trans ih.showDynamicCode, h.attached.trans ih.attached,
        h.terminated.trans ih.terminated, h.table.trans ih.table⟩

/-- What is done for one thread leaves the executions of the others as they are. -/
theorem Reports.ofOwner?_of_ne {w w' : World} (h : Reports s o ts w d w' d') {o' : Nat}
    (ho' : o' ≠ o) : d'.ofOwner? o' = d.ofOwner? o' := by
  cases h with
  | opened name _ _ _ =>
      rw [Debugger.ofOwner?_insert, if_neg (fun h => ho' h.symm)]
      simp
  | said x x' es hx ho hs _ =>
      rw [Debugger.ofOwner?_put, if_neg fun h => ho' (h.symm.trans (hs.owner.trans ho))]
  | told => rfl
  | quiet => rfl
  | gone => exact Debugger.ofOwner?_erase_of_ne d ho'

/-- Executions stay in order. -/
theorem Reports.orderly {w w' : World} (h : Reports s o ts w d w' d')
    (hd : d.Orderly w.nextNumber) : d'.Orderly w'.nextNumber := by
  cases h with
  | opened name hnew hn _ => exact (hd.insert hnew name).mono hn
  | said x x' es hx _ hs h => exact (hd.put hx hs.owner hs.handle).mono h.tells.numbers
  | told _ _ _ _ _ h => exact hd.mono h.tells.numbers
  | quiet _ _ h => exact hd.mono h.tells.numbers
  | gone x hx _ h => exact (hd.erase o).mono h.tells.numbers

/-- Steps for a thread keep the numbers of executions in order. -/
theorem Works.orderly {w w' : World} (h : Works s o ts w d w' d')
    (hd : d.Orderly w.nextNumber) : d'.Orderly w'.nextNumber := by
  induction h with
  | refl _ => exact hd
  | step _ h' ih => exact h'.orderly ih

/-- Steps for a thread leave the executions of all others. -/
theorem Works.ofOwner?_of_ne {w w' : World} (h : Works s o ts w d w' d') {o' : Nat}
    (ho' : o' ≠ o) : d'.ofOwner? o' = d.ofOwner? o' := by
  induction h with
  | refl _ => rfl
  | step _ h' ih => exact (h'.ofOwner?_of_ne ho').trans ih

/-! ### Executions that come, go on and go -/

/-- What is traced is not told. -/
theorem becomes_trace {w : World} (hd : (w.session s).debugger = some d) (topic text : String) :
    Becomes s d [] w (w.trace topic text) :=
  becomes_of_sessions hd rfl rfl rfl (Nat.le_refl _) (mild_trace w topic text)

/-- Who is at work is not told. -/
theorem becomes_setActor {w : World} (hd : (w.session s).debugger = some d)
    (who : Option String) : Becomes s d [] w (w.setActor who) :=
  becomes_of_sessions hd rfl rfl rfl (Nat.le_refl _) (.beside rfl rfl rfl)

/-- The execution of a thread is found, or it begins. Nothing is told of that. -/
theorem works_executionOf {w : World} {i : Interpreter}
    (hd : (w.session i.session).debugger = some d) :
    ∃ d', Works i.session i.id ts w d (w.executionOf i).2 d'
      ∧ d'.ofOwner? i.id = some (w.executionOf i).1
      ∧ (d.isWaiting i.id = false → (w.executionOf i).1.waiting = none)
      ∧ Becomes i.session d' [] w (w.executionOf i).2 := by
  cases hx : d.ofOwner? i.id with
  | some x =>
      rw [executionOf_eq hd hx]
      exact ⟨d, .refl hd, hx, fun hw => Debugger.isWaiting_eq_false hw hx, .refl hd⟩
  | none =>
      let x := Execution.start i.id ⟨w.nextNumber, i.name⟩
      have hrun : w.executionOf i
          = (x, w.number.2.modifyDebugger i.session (·.insert x)) := by
        unfold executionOf
        rw [debugger_eq hd, hx]
        rfl
      have hnumber : Becomes i.session d [] w w.number.2 :=
        becomes_of_sessions hd rfl rfl rfl (Nat.le_succ _) (.beside rfl rfl rfl)
      have hinsert := becomes_modifyDebugger hnumber.debugger (·.insert x) (d.yields_insert hx rfl)
      rw [hrun]
      refine ⟨d.insert x, .single hd (.opened i.name hx (Nat.lt_succ_self _)
        (hnumber.trans hinsert)), ?_, fun _ => rfl, hnumber.trans hinsert⟩
      have howner : x.owner = i.id := rfl
      rw [Debugger.ofOwner?_insert, hx, if_pos howner]
      rfl

/-- A thread that leaves a call says that it goes on. -/
theorem becomes_leaveCall {w : World} (hd : (w.session s).debugger = some d)
    (ha : d.attached = true) (x : Execution) :
    Becomes s d [.resumed x.handle x.resumeKind] w (w.leaveCall s x) := by
  have hactor := becomes_setActor hd (some x.handle.name)
  have htrace := hactor.trans (becomes_trace hactor.debugger "runtime"
    s!"{x.handle.name} resumed ({x.resumeKind.name})")
  have hfire := htrace.trans (becomes_fire htrace.debugger ha (.resumed x.handle x.resumeKind))
  exact hfire.trans (becomes_setActor hfire.debugger w.journal.interpreter)

/-- A request to resume changes one execution, and is told if that lets its thread go on. -/
theorem becomes_resumeExecution {w : World} (hd : (w.session s).debugger = some d)
    (ha : d.attached = true) (kind : ResumeKind) (x : Execution) :
    Becomes s (d.put (x.resume w.marks kind))
      (if x.waiting.isSome then [.resumed x.handle (x.resume w.marks kind).resumeKind] else [])
      w (w.resumeExecution s kind x) := by
  have hput := becomes_putExecution hd ha (x.resume w.marks kind)
  unfold resumeExecution
  split
  · have hleave := becomes_leaveCall hput.debugger ha (x.resume w.marks kind)
    rw [Execution.handle_resume] at hleave
    exact hput.trans hleave
  · exact hput

/-- A thread that is resumed says so if it waited. -/
theorem says_resume (x : Execution) (m : Marks) (kind : ResumeKind) :
    x.Says ts (x.resume m kind)
      (if x.waiting.isSome then [.resumed x.handle (x.resume m kind).resumeKind] else []) := by
  split
  · next h => exact .released x _ _ h (by simp) (by simp) (by simp) (by simp)
  · next h =>
      refine .moved x _ (by simpa using h) (by simp) (by simp) (by simp) fun a ha => .inl ?_
      rwa [Execution.stack_resume] at ha

/-- A debugger that resumes a thread reports it. -/
theorem reports_resumeExecution {w : World} (hd : (w.session s).debugger = some d)
    (ha : d.attached = true) (kind : ResumeKind) {x : Execution} (hx : x ∈ d.executions) :
    Reports s x.owner ts w d (w.resumeExecution s kind x) (d.put (x.resume w.marks kind)) :=
  .said x _ _ hx rfl (says_resume x w.marks kind) (becomes_resumeExecution hd ha kind x)

/-- An execution that changes while its thread goes its way. -/
theorem works_put {w : World} (hd : (w.session s).debugger = some d) (ha : d.attached = true)
    {x : Execution} (hx : d.ofOwner? o = some x) (x' : Execution) (hs : x.Says ts x' []) :
    Works s o ts w d (w.putExecution s x') (d.put x') :=
  .single hd (.said x x' [] (Debugger.mem_of_ofOwner? hx) (Debugger.owner_of_ofOwner? hx) hs
    (becomes_putExecution hd ha x'))

/-- An execution that was changed is found as it is now. -/
theorem ofOwner?_put_self {x x' : Execution} (hx : d.ofOwner? o = some x)
    (howner : x'.owner = x.owner) : (d.put x').ofOwner? o = some x' := by
  rw [Debugger.ofOwner?_put, if_pos (howner.trans (Debugger.owner_of_ofOwner? hx)), hx]
  rfl

/-- A thread may change within its call as long as it enters scripts of the list only. -/
theorem works_modifyExecution {w : World} {i : Interpreter}
    (hd : (w.session i.session).debugger = some d) (ha : d.attached = true)
    (hw : d.isWaiting i.id = false)
    (f : Execution → Execution) (hf : ∀ x, (f x).waiting = x.waiting ∧ (f x).owner = x.owner
      ∧ (f x).handle = x.handle ∧ ∀ a ∈ (f x).stack, a ∈ x.stack ∨ a.script ∈ ts) :
    ∃ d', Works i.session i.id ts w d (w.modifyExecution i f) d' := by
  obtain ⟨d₁, hopen, hx, hgo, -⟩ := works_executionOf hd
  let x := (w.executionOf i).1
  obtain ⟨hwaiting, howner, hhandle, hstack⟩ := hf x
  have hs : x.Says ts (f x) [] :=
    .moved x (f x) (hgo hw) (hwaiting.trans (hgo hw)) howner hhandle hstack
  exact ⟨_, hopen.trans
    (works_put hopen.debugger (hopen.alike.attached.trans ha) hx (f x) hs)⟩

/-- A thread that leaves an activation works on, and says nothing of it. -/
theorem works_popActivation {w : World} {i : Interpreter}
    (hd : (w.session i.session).debugger = some d) (ha : d.attached = true)
    (hw : d.isWaiting i.id = false) :
    ∃ d', Works i.session i.id ts w d (w.popActivation i).2 d' :=
  works_modifyExecution hd ha hw (fun x => { x with stack := x.stack.tail }) fun _ =>
    ⟨rfl, rfl, rfl, fun _ ha => .inl (List.mem_of_mem_tail ha)⟩

/-- A thread that ends says so, and is forgotten. -/
theorem works_finishThread {w : World} {i : Interpreter}
    (hd : (w.session i.session).debugger = some d) (ha : d.attached = true) :
    ∃ d', Works i.session i.id ts w d (w.finishThread i) d' := by
  cases hx : d.ofOwner? i.id with
  | none =>
      have hrun : w.finishThread i = w := by
        unfold finishThread
        rw [debugger_eq hd, hx]
      rw [hrun]
      exact ⟨d, .refl hd⟩
  | some x =>
      have hrun : w.finishThread i
          = (w.modifyDebugger i.session (·.erase i.id)).fire i.session
            (.threadTerminated x.handle) := by
        unfold finishThread
        rw [debugger_eq hd, hx]
      have herase := becomes_modifyDebugger hd (·.erase i.id) (d.yields_erase i.id)
      have hfire := herase.trans (becomes_fire herase.debugger ha (.threadTerminated x.handle))
      rw [hrun]
      exact ⟨d.erase i.id, .single hd (.gone x (Debugger.mem_of_ofOwner? hx)
        (Debugger.owner_of_ofOwner? hx) hfire)⟩

/-- A thread that reaches a line has its own execution brought up to date. -/
theorem works_reachLine {w : World} {i : Interpreter}
    (hd : (w.session i.session).debugger = some d) (ha : d.attached = true)
    (hw : d.isWaiting i.id = false)
    (script : Script) (line : Nat) :
    ∃ d' x, Works i.session i.id ts w d (w.reachLine i script line).2 d'
      ∧ d'.ofOwner? i.id = some x ∧ x.waiting = none := by
  obtain ⟨d₁, hopen, hx, hgo, -⟩ := works_executionOf hd
  have hw' := hgo hw
  simp only [reachLine]
  split
  · exact ⟨d₁, _, hopen, hx, hw'⟩
  · next top rest _ =>
      let u : World :=
        { (w.executionOf i).2 with marks := (w.executionOf i).2.marks.moveTo top line }
      have hmove : Works i.session i.id ts w d u d₁ :=
        hopen.step (.quiet [] (by simp)
          (becomes_of_sessions hopen.debugger rfl rfl rfl (Nat.le_refl _) (.beside rfl rfl rfl)))
      split
      · exact ⟨d₁, _, hmove, hx, hw'⟩
      · have hs : (w.executionOf i).1.Says ts
            { (w.executionOf i).1 with suspendRequested := false } [] :=
          .moved _ _ hw' hw' rfl rfl fun _ => .inl
        have hput := hmove.trans
          (works_put hmove.debugger (hopen.alike.attached.trans ha) hx _ hs)
        refine ⟨_, _, hput.step (.quiet [] (by simp) (becomes_trace hput.debugger _ _)),
          ofOwner?_put_self hx rfl, hw'⟩

end World

/-! ### Requests that a waiting thread serves -/

namespace Bridge

open World

variable {σ : Type} [Inhabited σ] [Engine σ] {s o : Nat} {ts : List Script} {d : Debugger}

/-- The event in which a thread lists the variables of a frame, if its engine gives them. -/
def listing (b : Bridge σ) (s : Nat) (frame : FrameRef) : List Event :=
  match (Engine.visible (b.engines.get s) (b.scopeOf frame)).1 with
  | .error _ => []
  | .ok reports => [.frameVariables frame (b.world.onHeap (reports.mapM Report.make)).1]

/-- What a thread answers to a request. -/
def answer (b : Bridge σ) (s : Nat) (x : Execution) : Request → List Event
  | .getStackFrames _ => [.stackFrames x.handle x.stack]
  | .getVariables frame => b.listing s frame
  | .setVariable context _ name expression =>
    match b.world.frameOf context with
    | none => []
    | some frame => (b.tryAssign s frame name expression).listing s frame
  | .evaluate expression frame _ listener =>
    [.evaluated expression frame (b.evaluate s frame expression).1 listener]
  | _ => []

/-- A thread that lists the variables of a frame tells them. -/
theorem becomes_reportVariables {b : Bridge σ} (hd : (b.world.session s).debugger = some d)
    (ha : d.attached = true) (frame : FrameRef) :
    Becomes s d (b.listing s frame) b.world (b.reportVariables s frame).world := by
  unfold reportVariables listing askEngine
  dsimp only
  cases Engine.visible (b.engines.get s) (b.scopeOf frame) with
  | mk result engine =>
      cases result with
      | error causes =>
          exact becomes_of_sessions hd rfl rfl rfl (Nat.le_refl _) (.beside rfl rfl rfl)
      | ok reports =>
          have hmade : Becomes s d [] b.world (b.world.onHeap (reports.mapM Report.make)).2 :=
            becomes_of_sessions hd rfl rfl rfl (Nat.le_refl _)
              (mild_onHeap _ (Careful.mapM careful_make reports b.world.heap))
          exact hmade.trans (becomes_fire hmade.debugger ha _)

/-- An expression is evaluated without a word of the debugger. -/
theorem becomes_evaluate {b : Bridge σ} (hd : (b.world.session s).debugger = some d)
    (frame : FrameRef) (expression : String) :
    Becomes s d [] b.world (b.evaluate s frame expression).2.world := by
  unfold evaluate askEngine
  dsimp only
  split
  · next b' h =>
      obtain ⟨-, rfl⟩ := Prod.mk.inj h
      exact .refl hd
  · next draft b' h =>
      obtain ⟨-, rfl⟩ := Prod.mk.inj h
      exact becomes_of_sessions hd rfl rfl rfl (Nat.le_refl _)
        (mild_onHeap _ (careful_realize draft b.world.heap))

/-- An assignment is tried without a word of the debugger. -/
theorem becomes_tryAssign {b : Bridge σ} (hd : (b.world.session s).debugger = some d)
    (frame : FrameRef) (name expression : String) :
    Becomes s d [] b.world (b.tryAssign s frame name expression).world := by
  have hvalue := becomes_evaluate hd frame expression
  have hassign : Becomes s d [] b.world (b.assign s frame name expression).2.world := by
    unfold assign
    split
    · next h => rwa [h] at hvalue
    · next h => rwa [h] at hvalue
  unfold tryAssign
  split
  · next h => rwa [h] at hassign
  · next h =>
      rw [h] at hassign
      exact hassign.trans (becomes_of_sessions hassign.debugger rfl rfl rfl (Nat.le_refl _)
        (.beside rfl rfl rfl))

/-- A thread that serves a request answers it, and that is all. -/
theorem becomes_serve {b : Bridge σ} (hd : (b.world.session s).debugger = some d)
    (ha : d.attached = true) (x : Execution) (r : Request) :
    Becomes s d (b.answer s x r) b.world (b.serve s x r).world := by
  cases r with
  | getStackFrames thread => exact becomes_fire hd ha (.stackFrames x.handle x.stack)
  | getVariables frame => exact becomes_reportVariables hd ha frame
  | setVariable context binding name expression =>
      cases hf : b.world.frameOf context with
      | none =>
          simp only [serve, answer, hf]
          exact becomes_of_sessions hd rfl rfl rfl (Nat.le_refl _) (.beside rfl rfl rfl)
      | some frame =>
          simp only [serve, answer, hf]
          have hassign := becomes_tryAssign hd frame name expression
          exact hassign.trans (becomes_reportVariables hassign.debugger ha frame)
  | evaluate expression frame thread listener =>
      have hvalue := becomes_evaluate hd frame expression
      exact hvalue.trans (becomes_fire hvalue.debugger ha
        (.evaluated expression frame (b.evaluate s frame expression).1 listener))
  | _ => exact becomes_trace hd _ _

/-- A list of variables concerns no thread of the model. -/
theorem quiet_listing (b : Bridge σ) (s : Nat) (frame : FrameRef) :
    ∀ e ∈ b.listing s frame, e.IsQuiet := by
  unfold listing
  split <;> simp [Event.IsQuiet]

/-- An answer that concerns the thread itself is about its stack. -/
theorem quiet_answer (b : Bridge σ) (s : Nat) (x : Execution) {r : Request}
    (hr : ∀ thread, r ≠ .getStackFrames thread) : ∀ e ∈ b.answer s x r, e.IsQuiet := by
  cases r with
  | getStackFrames thread => exact absurd rfl (hr thread)
  | getVariables frame => exact quiet_listing b s frame
  | setVariable context binding name expression =>
      unfold answer
      dsimp only
      split
      · simp
      · exact quiet_listing _ s _
  | evaluate expression frame thread listener => simp [answer, Event.IsQuiet]
  | _ => simp [answer]

/-- What a waiting thread serves leaves its execution as it is. -/
theorem reports_serve {b : Bridge σ} (hd : (b.world.session s).debugger = some d)
    (ha : d.attached = true) {x y : Execution} (hy : y ∈ d.executions) (ho : y.owner = o)
    (hw : y.waiting.isSome = true) (hh : x.handle = y.handle) (hstack : x.stack = y.stack)
    (r : Request) : Reports s o ts b.world d (b.serve s x r).world d := by
  have hserve := becomes_serve hd ha x r
  cases r with
  | getStackFrames thread =>
      have hframes : b.answer s x (.getStackFrames thread) = [.stackFrames y.handle y.stack] := by
        rw [← hh, ← hstack]
        rfl
      rw [hframes] at hserve
      exact .told y _ hy ho (.frames hw) hserve
  | _ => exact .quiet _ (quiet_answer b s x (by simp)) hserve

/-- A waiting thread serves what was put off, and goes on waiting. -/
theorem works_serveAll (x : Execution) (ho : x.owner = o) (hw : x.waiting.isSome = true)
    (rs : List Request) {b : Bridge σ} (hd : (b.world.session s).debugger = some d)
    (ha : d.attached = true) (hx : ∃ pending, d.ofOwner? o = some { x with pending }) :
    ∃ d', Works s o ts b.world d (serveAll s x rs b).world d'
      ∧ ∃ pending, d'.ofOwner? o = some { x with pending } := by
  induction rs generalizing b d with
  | nil => exact ⟨d, .refl hd, hx⟩
  | cons r rs ih =>
      obtain ⟨pending, hx⟩ := hx
      let y : Execution := { x with pending := rs }
      let u := b.onWorld (·.putExecution s y)
      have hput : Works s o ts b.world d u.world (d.put y) :=
        works_put hd ha hx y (.putOff { x with pending } rs)
      have hy : (d.put y).ofOwner? o = some y := ofOwner?_put_self hx rfl
      have hserve : Reports s o ts u.world (d.put y) (u.serve s x r).world (d.put y) :=
        reports_serve hput.debugger ha (Debugger.mem_of_ofOwner? hy) ho hw rfl rfl r
      obtain ⟨d', hrest, hx'⟩ := ih (hput.step hserve).debugger ha ⟨rs, hy⟩
      exact ⟨d', (hput.step hserve).trans hrest, hx'⟩

/-- What a thread is asked for that waits it serves at once, and any other puts it off. -/
theorem works_enqueue {b : Bridge σ} (hd : (b.world.session s).debugger = some d)
    (ha : d.attached = true) {n : Nat} (hord : d.Orderly n) (handle : Handle) (r : Request) :
    ∃ o d', Works s o ts b.world d (b.enqueue s handle r).world d'
      ∧ ∀ o', (d'.ofOwner? o').map Execution.station = (d.ofOwner? o').map Execution.station := by
  unfold enqueue
  rw [debugger_eq hd]
  split
  · exact ⟨0, d, .single hd (.quiet [] (by simp) (becomes_trace hd _ _)), fun _ => rfl⟩
  · next x hx =>
      have hmem := Debugger.mem_of_ofHandle? hx
      split
      · next hw =>
          let u := b.onWorld (·.setActor x.handle.name)
          have hactor : Works s x.owner ts b.world d u.world d :=
            .single hd (.quiet [] (by simp) (becomes_setActor hd _))
          have hserve := hactor.step
            (reports_serve (b := u) hactor.debugger ha hmem rfl hw rfl rfl r)
          exact ⟨x.owner, d, hserve.step (.quiet [] (by simp) (becomes_setActor hserve.debugger _)),
            fun _ => rfl⟩
      · let y : Execution := { x with pending := x.pending ++ [r] }
        refine ⟨x.owner, d.put y, works_put hd ha (hord.keyed x hmem) y (.putOff x _), fun o' => ?_⟩
        rw [Debugger.ofOwner?_put]
        split
        · next ho =>
            obtain rfl : x.owner = o' := ho
            rw [hord.keyed x hmem]
            rfl
        · rfl

/-! ### Calls of a thread -/

/-- A thread that is held up says so, and then it serves what it was asked for. -/
theorem works_suspend {b : Bridge σ} {i : Interpreter} {x : Execution}
    (hd : (b.world.session i.session).debugger = some d) (ha : d.attached = true)
    (hx : d.ofOwner? i.id = some x) (gate : Gate) (event : Execution → Event)
    (hs : x.Says ts { x with waiting := some gate } [event { x with waiting := some gate }]) :
    ∃ u d₁ d', Reports i.session i.id ts b.world d u d₁
      ∧ Becomes i.session d₁ [event { x with waiting := some gate }] b.world u
      ∧ Works i.session i.id ts u d₁ (b.suspend i gate event).world d'
      ∧ ∃ pending, d'.ofOwner? i.id = some { x with waiting := some gate, pending } := by
  let y : Execution := { x with waiting := some gate }
  let u := (b.world.putExecution i.session y).fire i.session (event y)
  let v : Bridge σ := { b with world := u.trace "runtime" (i.name ++ " suspended") }
  have hsusp : b.suspend i gate event = serveAll i.session y y.pending v :=
    suspend_eq (by rw [debugger_eq hd]; exact ha) (executionOf_eq hd hx) gate event
  have hput := becomes_putExecution hd ha y
  have hfire : Becomes i.session (d.put y) [event y] b.world u :=
    hput.trans (becomes_fire hput.debugger ha _)
  have hsaid : Reports i.session i.id ts b.world d u (d.put y) :=
    .said x y _ (Debugger.mem_of_ofOwner? hx) (Debugger.owner_of_ofOwner? hx) hs hfire
  have htrace : Works i.session i.id ts u (d.put y) v.world (d.put y) :=
    .single hfire.debugger (.quiet [] (by simp) (becomes_trace hfire.debugger _ _))
  have howner : y.owner = i.id := (Debugger.owner_of_ofOwner? hx :)
  obtain ⟨d', hserve, hy⟩ := works_serveAll y howner rfl y.pending htrace.debugger ha
    ⟨y.pending, ofOwner?_put_self hx rfl⟩
  exact ⟨u, d.put y, d', hsaid, hfire, hsusp ▸ htrace.trans hserve, hy⟩

/-- A thread that is about to run a visible script is held up. It says so before it serves what it
was asked for. -/
theorem works_holdScript {b : Bridge σ} {i : Interpreter}
    (hd : (b.world.session i.session).debugger = some d) (ha : d.attached = true)
    (hw : d.isWaiting i.id = false) {script : Script} (hs : d.isTracked script = true) :
    ∃ u d₁ d' y root, Works i.session i.id [script] b.world d u d₁
      ∧ Becomes i.session d₁ [.scriptReady script y.handle root] b.world u
      ∧ Works i.session i.id [script] u d₁ (b.startScript i script).world d'
      ∧ d'.ofOwner? i.id = some y ∧ y.waiting = some .load := by
  unfold startScript
  rw [debugger_eq hd, if_pos hs]
  obtain ⟨d₁, hopen, hx, hgo, hquiet⟩ := works_executionOf hd
  obtain ⟨u, d₂, d', hsaid, htold, hserve, pending, hy⟩ := works_suspend (b := { b with
    world := (b.world.executionOf i).2 }) hopen.debugger (hopen.alike.attached.trans ha) hx .load
    (fun x => .scriptReady script x.handle x.stack.isEmpty)
    (.held _ script _ (hgo hw) List.mem_cons_self)
  let y : Execution := { (b.world.executionOf i).1 with waiting := some .load, pending }
  exact ⟨u, d₂, d', y, y.stack.isEmpty, hopen.step hsaid, hquiet.trans htold, hserve, hy, rfl⟩

/-- A thread that comes to a script works for it. -/
theorem works_startScript {b : Bridge σ} {i : Interpreter}
    (hd : (b.world.session i.session).debugger = some d) (ha : d.attached = true)
    (hw : d.isWaiting i.id = false) (script : Script) :
    ∃ d', Works i.session i.id [script] b.world d (b.startScript i script).world d' := by
  cases hs : d.isTracked script with
  | true =>
      obtain ⟨u, d₁, d', y, root, hsaid, -, hserve, -⟩ := works_holdScript hd ha hw hs
      exact ⟨d', hsaid.trans hserve⟩
  | false =>
      unfold startScript
      rw [debugger_eq hd, if_neg (by simp [hs])]
      exact ⟨d, .refl hd⟩

/-- A thread that reaches a line of a visible script may stop there. -/
theorem works_startLine {b : Bridge σ} {i : Interpreter}
    (hd : (b.world.session i.session).debugger = some d) (ha : d.attached = true)
    (hw : d.isWaiting i.id = false) (script : Script) (line : Nat) :
    ∃ d', Works i.session i.id ts b.world d (b.startLine i script line).world d' := by
  unfold startLine
  split
  · obtain ⟨d₁, x, hreach, hx, hgo⟩ := works_reachLine hd ha hw script line
    split
    · next w h =>
        rw [h] at hreach
        exact ⟨d₁, hreach⟩
    · next reason w h =>
        rw [h] at hreach
        obtain ⟨u, d₂, d', hsaid, -, hserve, -⟩ := works_suspend (b := { b with world := w })
          hreach.debugger (hreach.alike.attached.trans ha) hx .line
          (fun x => .suspended x.handle reason x.stack) (.stopped _ reason hgo)
        exact ⟨d', (hreach.step hsaid).trans hserve⟩
  · exact ⟨d, .refl hd⟩

/-- A call of a thread that is not held up works for this thread, but for the call by which the
interpreter finishes. -/
theorem works_perform {b : Bridge σ} {i : Interpreter}
    (hd : (b.world.session i.session).debugger = some d) (ha : d.attached = true)
    (hw : d.isWaiting i.id = false) {c : Call} (hc : c ≠ .engineFinished) :
    ∃ d', Works i.session i.id c.scripts b.world d (b.perform i c).2.world d' := by
  cases c with
  | engineStarted =>
      exact ⟨d, .single hd (.quiet [.engineStarted] (by simp [Event.IsQuiet])
        (becomes_fire hd ha _))⟩
  | engineFinished => exact absurd rfl hc
  | threadStarted =>
      obtain ⟨d', hopen, hx, hgo, -⟩ := works_executionOf hd
      refine ⟨d', hopen.step (.told _ _ (Debugger.mem_of_ofOwner? hx)
        (Debugger.owner_of_ofOwner? hx) (.created (hgo hw)) ?_)⟩
      exact becomes_fire hopen.debugger (hopen.alike.attached.trans ha) _
  | threadFinished => exact works_finishThread hd ha
  | scriptStarted script => exact works_startScript hd ha hw script
  | push a =>
      refine works_modifyExecution hd ha hw (fun x => { x with stack := a :: x.stack }) fun x =>
        ⟨rfl, rfl, rfl, fun a' ha => ?_⟩
      rcases List.mem_cons.mp ha with rfl | ha
      · exact .inr List.mem_cons_self
      · exact .inl ha
  | pop => exact works_popActivation hd ha hw
  | line script number => exact works_startLine hd ha hw script number
  | stack =>
      obtain ⟨d', hopen, -⟩ := works_executionOf hd
      exact ⟨d', hopen⟩
  | currentThread =>
      obtain ⟨d', hopen, -⟩ := works_executionOf hd
      exact ⟨d', hopen⟩
  | bind name content => exact ⟨d, .refl hd⟩
  | check => exact ⟨d, .refl hd⟩

/-! ### The end of the interpreter -/

/-- A debugger that takes leave of its session says nothing any more. -/
theorem gains_detach (w : World) (s : Nat) :
    (w.session s).mailbox.Gains ([].map .event) ((w.detach s).session s).mailbox := by
  let u := w.modifyDebugger s Debugger.silence
  have hu : u.session s
      = { w.session s with debugger := (w.session s).debugger.map Debugger.silence } := by
    rw [session_modifyDebugger, if_pos rfl]
  have htells : Tells s u (w.detach s) := by
    have hfree := tells_foldl (s := s) (fun w x => tells_resumeExecution w .clientRequest x)
    exact (steady_tells s).trans (hfree _ _) (speaks_trace _ _ _).toTells
  obtain ⟨es, hes, hdeserted⟩ := htells.here.mailbox
  have hnil : es = [] := hdeserted fun d hd => by
    rw [hu] at hd
    obtain ⟨d₀, -, rfl⟩ := Option.map_eq_some_iff.mp hd
    rfl
  rwa [hnil, hu] at hes

/-- A debugger leaves with some last words, and says nothing from then on. -/
structure Leaves (s : Nat) (es : List Event) (w w' : World) : Prop where
  tells : Tells s w w'
  left : ∀ d', (w'.session s).debugger = some d' → d'.Gone
  said : (w.session s).mailbox.Gains (es.map .event) (w'.session s).mailbox

/-- A debugger that detaches leaves with the word that the interpreter has ended. -/
theorem leaves_detach {w w' : World} (h : Becomes s d [] w w') (ha : d.attached = true) :
    Leaves s [.engineTerminated] w ((w'.fire s .engineTerminated).detach s) := by
  have hfire := h.trans (becomes_fire h.debugger ha .engineTerminated)
  refine ⟨(steady_tells s).trans hfire.tells (tells_detach _), fun d' => gone_detach _, ?_⟩
  exact hfire.mailbox.trans (gains_detach _ s)

/-- An interpreter that ends takes its debugger along, which says so. -/
theorem leaves_finishEngine {w : World} (hd : (w.session s).debugger = some d)
    (ha : d.attached = true) : Leaves s [.engineTerminated] w (w.finishEngine s) := by
  have hleaves := leaves_detach (.refl hd) ha
  have hforget := tells_modifyDebugger (s := s) ((w.fire s .engineTerminated).detach s)
    (fun d => { d with executions := [] }) fun d _ => d.yields_forget
  refine ⟨tells_finishEngine w, fun d' h => ?_, ?_⟩
  · obtain ⟨d₁, hd₁, hyields⟩ := hforget.here.debugger d' h
    exact hyields.gone (hleaves.left d₁ hd₁)
  · have hrun : ((w.finishEngine s).session s).mailbox
        = (((w.fire s .engineTerminated).detach s).session s).mailbox := by
      rw [finishEngine, session_modifyDebugger, if_pos rfl]
    rw [hrun]
    exact hleaves.said

/-- An engine that is asked to terminate takes its debugger along, which says so. -/
theorem leaves_terminate {b : Bridge σ} (hd : (b.world.session s).debugger = some d)
    (ha : d.attached = true) :
    Leaves s [.engineTerminated] b.world (b.terminate s).world := by
  let d₁ : Debugger := { d with table := [] }
  have hclear : Becomes s d₁ [] b.world (b.world.clearTable s) :=
    becomes_modifyDebugger hd (fun d => { d with table := [] }) (d.yields_table [])
  -- Whether the engine refuses or not, the end is told before the debugger leaves.
  unfold terminate askEngine
  dsimp only
  split
  · exact leaves_detach hclear ha
  · next causes _ =>
      let text := "terminate request: " ++ (Failure.engine causes).message
      have hwarn : Becomes s d₁ [] b.world ((b.world.clearTable s).log .warn "runtime" text) :=
        hclear.trans (becomes_of_sessions hclear.debugger rfl rfl rfl (Nat.le_refl _)
          (.beside rfl rfl rfl))
      exact leaves_detach hwarn ha

/-- Who takes leave of its session without the end of the interpreter says nothing. -/
theorem leaves_quietly (w : World) (s : Nat) : Leaves s [] w (w.detach s) :=
  ⟨tells_detach w, fun _ => gone_detach w, gains_detach w s⟩

/-! ### Requests that a debugger takes -/

/-- What a debugger does that takes a request. -/
inductive Obeyed (s : Nat) (d : Debugger) (r : Request) (w w' : World) : Prop where
  /-- A thread is resumed. -/
  | resumed (handle : Handle) (kind : ResumeKind) (x : Execution)
      (hr : r = .resume (some handle) kind) (hx : d.ofHandle? handle = some x)
      (h : Reports s x.owner [] w d w' (d.put (x.resume w.marks kind)))
  /-- One thread is asked for something, or nobody has to be resumed. No thread goes on. -/
  | served (o : Nat) (d' : Debugger) (hr : ∀ script point mode, r ≠ .breakpoint script point mode)
      (hx : ∀ handle kind, r = .resume (some handle) kind → d.ofHandle? handle = none)
      (h : Works s o [] w d w' d')
      (hw : ∀ o', (d'.ofOwner? o').map Execution.station = (d.ofOwner? o').map Execution.station)
  /-- Threads are asked to stop by themselves. -/
  | nudged (thread : Option Handle) (hr : r = .suspend thread) (f : Execution → Execution)
      (hf : ∀ x, f x = x ∨ f x = { x with suspendRequested := true })
      (h : Becomes s { d with executions := d.executions.map f } [] w w')
  /-- A breakpoint of a script is set or removed. -/
  | noted (script : Script) (point : Breakpoint) (mode : BreakpointMode)
      (hr : r = .breakpoint script point mode)
      (h : Becomes s { d with table := d.table.update script point mode } [] w w')
  /-- The interpreter was ended. -/
  | left (hr : r = .terminate) (h : Leaves s [.engineTerminated] w w')

/-- A debugger that is attached obeys a request in one of few ways. -/
theorem obeyed_obey {b : Bridge σ} (hd : (b.world.session s).debugger = some d)
    (ha : d.attached = true) {n : Nat} (hord : d.Orderly n) {r : Request} (hr : r.IsProper) :
    Obeyed s d r b.world (b.obey s r).world := by
  have henqueue : ∀ handle, (∀ script point mode, r ≠ .breakpoint script point mode) →
      (∀ handle kind, r ≠ .resume (some handle) kind) →
      Obeyed s d r b.world (b.enqueue s handle r).world := by
    intro handle hr hne
    obtain ⟨o, d', h, hw⟩ := works_enqueue hd ha hord handle r
    exact .served o d' hr (fun handle kind h => absurd h (hne handle kind)) h hw
  cases r with
  | suspend thread =>
      obtain ⟨f, hf, hrun⟩ := askToSuspend_eq b.world s thread
      have hobey : (b.obey s (.suspend thread)).world = _ := hrun
      rw [hobey]
      exact .nudged thread rfl f hf (becomes_modifyDebugger hd
        (fun d => { d with executions := d.executions.map f }) (d.yields_asks hf))
  | resume thread kind =>
      cases thread with
      | none => exact absurd hr id
      | some handle =>
          cases hx : d.ofHandle? handle with
          | some x =>
              rw [world_obey_resume_of_some hd hx]
              exact .resumed handle kind x rfl hx
                (reports_resumeExecution hd ha kind (Debugger.mem_of_ofHandle? hx))
          | none =>
              rw [world_obey_resume_of_none hd hx]
              refine .served 0 d (by simp) ?_ (.single hd (.quiet [] (by simp)
                (becomes_trace hd _ _))) fun _ => rfl
              rintro handle' kind' h
              cases h
              exact hx
  | getStackFrames thread => exact henqueue _ (by simp) (by simp)
  | getVariables frame => exact henqueue _ (by simp) (by simp)
  | setVariable context binding name expression =>
      simp only [obey]
      split
      · exact henqueue _ (by simp) (by simp)
      · exact .served 0 d (by simp) (by simp) (.single hd (.quiet [] (by simp)
          (becomes_trace hd _ _))) fun _ => rfl
  | evaluate expression frame thread listener => exact henqueue _ (by simp) (by simp)
  | breakpoint script point mode =>
      refine .noted script point mode rfl ?_
      cases mode with
      | add =>
          exact becomes_modifyDebugger hd (fun d => { d with table := d.table.add script point })
            (d.yields_table _)
      | remove =>
          exact becomes_modifyDebugger hd (fun d => { d with table := d.table.remove script point })
            (d.yields_table _)
  | removeAllBreakpoints => exact absurd hr id
  | terminate => exact .left rfl (leaves_terminate hd ha)
  | disconnect => exact absurd hr id

end Bridge

end DebugBridge
