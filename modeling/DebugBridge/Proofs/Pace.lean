import DebugBridge.Proofs.Steps
import DebugBridge.Proofs.Telling

/-!
# The pace of a thread

Where a thread stops depends on the calls that are active, on the lines at which these stand, and on
what the thread was told: how it was last resumed, and whether it was asked to stop. If there is no
other thread, and nobody sets breakpoints, then it depends on nothing else. All this together is the
pace of the thread.

A pace does not know the number of a thread or its name, nor what the thread was asked for besides.
How a thread was resumed matters to it only as long as the thread is in a step. So a thread that is
held up before a script, and goes on as before or freely, goes on at the pace at which it came.

## Main definitions

* `Bridge.marksAfter`: the lines at which activations stand after a call;
* `Execution.gist`: what of an execution decides where its thread stops;
* `Pace`, with `Pace.call` and `Pace.deliver`: a pace, and what becomes of it;
* `Pace.stopIn`: where a thread stops, by its pace;
* `Debugger.Paced`: a debugger that listens to one thread, which goes at a pace.

## Main results

* `marks_perform`, `marks_handOver`: no activation moves but by a line that its thread reaches;
* `gist_resume_of_load`: a thread that goes on from a script is as it was;
* `Paced.performs`, `Paced.resumes`, `Paced.nudges`: a thread goes on as its pace tells, in a call
  and when it is asked to go on or to stop.
-/

namespace DebugBridge

/-- Marks after the innermost activation of a stack, if there is one, came to a line. -/
def Marks.reach (m : Marks) (stack : List Activation) (line : Nat) : Marks :=
  match stack with
  | [] => m
  | top :: _ => m.moveTo top line

namespace World

/-- What is traced moves no mark. -/
@[simp] theorem marks_trace (w : World) (topic text : String) :
    (w.trace topic text).marks = w.marks :=
  rfl

/-- A debugger that is changed moves no mark. -/
@[simp] theorem marks_modifyDebugger (w : World) (s : Nat) (f : Debugger → Debugger) :
    (w.modifyDebugger s f).marks = w.marks :=
  rfl

/-- An execution that is put back moves no mark. -/
@[simp] theorem marks_putExecution (w : World) (s : Nat) (x : Execution) :
    (w.putExecution s x).marks = w.marks :=
  rfl

/-- An event that is told moves no mark. -/
@[simp] theorem marks_fire (w : World) (s : Nat) (e : Event) : (w.fire s e).marks = w.marks :=
  (speaks_fire w s e).marks

/-- A request that is sent moves no mark. -/
theorem marks_post (w : World) (s : Nat) (r : Request) : (w.post s r).marks = w.marks := by
  unfold post
  split
  · rfl
  · split <;> rfl

/-- A thread that is met moves no mark. -/
@[simp] theorem marks_executionOf (w : World) (i : Interpreter) :
    (w.executionOf i).2.marks = w.marks := by
  unfold executionOf
  split <;> rfl

/-- To resume threads, one after the other, moves no activation. -/
theorem marks_foldl (s : Nat) (kind : ResumeKind) (xs : List Execution) (w : World) :
    (xs.foldl (fun w x => w.resumeExecution s kind x) w).marks = w.marks := by
  induction xs generalizing w with
  | nil => rfl
  | cons x xs ih => exact (ih _).trans (marks_resumeExecution w s kind x)

/-- Threads that are resumed move no mark. -/
theorem marks_resume (w : World) (s : Nat) (kind : ResumeKind) (thread : Option Handle) :
    (w.resume s kind thread).marks = w.marks := by
  unfold resume
  split
  · exact marks_foldl s kind _ w
  · split
    · exact marks_resumeExecution w s kind _
    · rfl

/-- A debugger that leaves moves no mark. -/
@[simp] theorem marks_detach (w : World) (s : Nat) : (w.detach s).marks = w.marks := by
  unfold detach
  dsimp only
  rw [marks_trace, marks_foldl, marks_modifyDebugger]

/-- An interpreter that ends moves no mark. -/
theorem marks_finishEngine (w : World) (s : Nat) : (w.finishEngine s).marks = w.marks := by
  unfold finishEngine
  dsimp only
  rw [marks_modifyDebugger, marks_detach, marks_fire]

/-- A thread that ends moves no mark. -/
theorem marks_finishThread (w : World) (i : Interpreter) :
    (w.finishThread i).marks = w.marks := by
  unfold finishThread
  split
  · rfl
  · exact (speaks_fire _ i.session _).marks

/-- The innermost activation of a thread that reaches a line comes to it. -/
theorem marks_reachLine (w : World) (i : Interpreter) (script : Script) (line : Nat) :
    (w.reachLine i script line).2.marks = w.marks.reach (w.executionOf i).1.stack line := by
  have hmarks := w.marks_executionOf i
  unfold reachLine Marks.reach
  dsimp only
  cases (w.executionOf i).1.stack with
  | nil => exact hmarks
  | cons top rest =>
      rw [← hmarks]
      dsimp only
      split <;> rfl

/-- A session that ends moves no mark. -/
theorem marks_endSession (w : World) (s : Nat) : (worldAfter (endSession s) w).marks = w.marks := by
  have hclose : (w.close s).marks = w.marks := by
    unfold close
    dsimp only
    split
    · rfl
    · split <;> rfl
  rw [worldAfter_endSession]
  split
  · exact hclose
  · exact hclose

/-- Requests that are sent move no mark. -/
theorem marks_postAll (w : World) (s : Nat) (rs : List Request) :
    (w.postAll s rs).marks = w.marks := by
  induction rs generalizing w with
  | nil => rfl
  | cons r rs ih => exact (ih _).trans (marks_post w s r)

end World

namespace Bridge

open World

variable {σ : Type} [Inhabited σ] [Engine σ]

/-- Requests that are served move no mark. -/
theorem marks_serveAll (s : Nat) (x : Execution) (rs : List Request) (b : Bridge σ) :
    (serveAll s x rs b).world.marks = b.world.marks := by
  induction rs generalizing b with
  | nil => rfl
  | cons r rs ih => exact (ih _).trans (speaks_serve (s := s) _ x r).marks

/-- A thread that is held up moves no mark. -/
theorem marks_suspend (b : Bridge σ) (i : Interpreter) (gate : Gate) (event : Execution → Event) :
    (b.suspend i gate event).world.marks = b.world.marks := by
  unfold suspend
  dsimp only
  split
  · simp [marks_serveAll, Bridge.trace, Bridge.fire, onWorld]
  · rfl

/-- An execution that was just looked up or begun is the one that is found. -/
theorem stack_executionOf {w : World} {i : Interpreter} {d : Debugger}
    (hd : (w.session i.session).debugger = some d) :
    (w.executionOf i).1.stack = (d.executionFor w.nextNumber i).stack :=
  congrArg Execution.stack (becomes_executionOf hd).2.1

/-- The lines at which activations stand after a call of a thread with a stack. -/
def marksAfter (d : Debugger) (m : Marks) (stack : List Activation) : Call → Marks
  | .line script line => if d.minds script line then m.reach stack line else m
  | _ => m

/-- A thread that comes to a script moves no mark. -/
theorem marks_startScript (b : Bridge σ) (i : Interpreter) (script : Script) :
    (b.startScript i script).world.marks = b.world.marks := by
  unfold startScript
  dsimp only
  split
  · rw [marks_suspend]
    exact b.world.marks_executionOf i
  · rfl

/-- A thread that comes to a line moves the mark of its activation there, if the debugger minds that
line. -/
theorem marks_startLine {b : Bridge σ} {i : Interpreter} {d : Debugger}
    (hd : (b.world.session i.session).debugger = some d) (script : Script) (line : Nat) :
    (b.startLine i script line).world.marks
      = if d.minds script line
          then b.world.marks.reach (d.executionFor b.world.nextNumber i).stack line
          else b.world.marks := by
  have hreach := b.world.marks_reachLine i script line
  rw [stack_executionOf hd] at hreach
  unfold startLine Debugger.minds
  rw [debugger_eq hd]
  split
  · split
    · next world hreached =>
        rw [hreached] at hreach
        exact hreach
    · next reason world hreached =>
        rw [hreached] at hreach
        rw [marks_suspend]
        exact hreach
  · rfl

/-- Only by a line does an activation move, the innermost one of the thread that reaches it. -/
theorem marks_perform {b : Bridge σ} {i : Interpreter} {d : Debugger}
    (hd : (b.world.session i.session).debugger = some d) (c : Call) :
    (b.perform i c).2.world.marks
      = marksAfter d b.world.marks (d.executionFor b.world.nextNumber i).stack c := by
  cases c with
  | engineStarted => exact (speaks_fire b.world i.session _).marks
  | engineFinished => exact b.world.marks_finishEngine i.session
  | threadStarted =>
      exact (speaks_fire _ i.session _).marks.trans (b.world.marks_executionOf i)
  | threadFinished => exact b.world.marks_finishThread i
  | scriptStarted script => exact b.marks_startScript i script
  | line script line => exact marks_startLine hd script line
  | push a => exact b.world.marks_executionOf i
  | pop => exact b.world.marks_executionOf i
  | stack => exact b.world.marks_executionOf i
  | currentThread => exact b.world.marks_executionOf i
  | bind name content => rfl
  | check => rfl

/-- A request for a thread moves no mark. -/
theorem marks_enqueue (b : Bridge σ) (s : Nat) (handle : Handle) (r : Request) :
    (b.enqueue s handle r).world.marks = b.world.marks := by
  unfold enqueue
  split
  · rfl
  · next x _ =>
      split
      · exact (speaks_serve (s := s) (b.onWorld (·.setActor x.handle.name)) x r).marks
      · rfl

/-- An engine that is asked to terminate moves no mark. -/
theorem marks_terminate (b : Bridge σ) (s : Nat) : (b.terminate s).world.marks = b.world.marks := by
  unfold terminate askEngine Bridge.fire onWorld
  dsimp only
  rw [marks_detach, marks_fire]
  split <;> rfl

/-- No request moves an activation. -/
theorem marks_receive (b : Bridge σ) (s : Nat) (r : Request) :
    (b.receive s r).world.marks = b.world.marks := by
  unfold receive
  split
  · rfl
  · cases r with
    | resume thread kind => exact marks_resume _ s kind thread
    | terminate => exact marks_terminate _ s
    | disconnect => exact marks_detach _ s
    | getStackFrames thread => exact marks_enqueue _ s thread _
    | getVariables frame => exact marks_enqueue _ s frame.handle _
    | setVariable context binding name expression =>
        unfold obey
        dsimp only
        split
        · exact marks_enqueue _ s _ _
        · rfl
    | evaluate expression frame thread listener => exact marks_enqueue _ s thread _
    | _ => rfl

omit [Inhabited σ] [Engine σ] in
/-- No event that the model hears of moves an activation. -/
theorem marks_handleEvent (s : Nat) (e : Event) :
    Keeps (fun w w' => w'.marks = w.marks) (handleEvent s e) := by
  have hsteady : Steady fun w w' : World => w'.marks = w.marks :=
    ⟨fun _ => rfl, fun h h' => h'.trans h⟩
  have hheld := fun {op : Act Unit} (f : FrameRef)
      (h : Keeps (fun w w' => w'.marks = w.marks) op) =>
    keeps_withInHand hsteady (fun _ _ => rfl) f h
  refine keeps_handleEvent_of hsteady e (fun h => h.marks) (fun _ _ => rfl)
    (fun w r _ => marks_post w s r) (fun frame reported _ => hheld frame ?_)
    (fun expression frame result listener _ => hheld frame ?_) fun _ w => ?_
  · refine .bind hsteady (.get hsteady) fun w => .bind hsteady (fun _ => rfl) fun merged => ?_
    exact .bind hsteady (.change fun _ => rfl) fun _ u => (plain_frameChanged frame _ u).marks
  · refine .bind hsteady (.get hsteady) fun w => .bind hsteady (fun _ => rfl) fun shown => ?_
    exact .change fun _ => rfl
  · exact marks_endSession w s

/-- Whatever is handed over, no activation moves. -/
theorem marks_handOver (b : Bridge σ) (s : Nat) : (b.handOver s).world.marks = b.world.marks := by
  have htaken : (b.take s).2.world.marks = b.world.marks := rfl
  unfold handOver
  split
  · next b' h =>
      rw [h] at htaken
      exact htaken
  · next m b' h =>
      rw [h] at htaken
      refine Eq.trans ?_ htaken
      let u := b'.trace "dispatcher" ("route " ++ m.text b'.world.marks)
      cases m with
      | event e =>
          obtain ⟨j, hj⟩ := world_deliverEvent u s e
          have hrun : (b'.accept s (.event e)).world = (u.deliverEvent s e).world := rfl
          rw [hrun, hj]
          exact marks_handleEvent s e u.world
      | request r =>
          let v := u.onWorld (·.noteReceived s r)
          have hrun : b'.accept s (.request r)
              = if (v.world.session s).debugger.isSome then v.receive s r else v := rfl
          rw [hrun]
          split
          · exact marks_receive v s r
          · rfl

end Bridge

/-! ### What decides where a thread stops -/

namespace Execution

/-- An execution without what makes no difference to where its thread stops: whose it is, what it
was asked for besides and, unless it is in a step, how it was resumed. -/
def gist (x : Execution) : Execution :=
  let p := if x.resumeKind.isStep then x.origin else .free
  ⟨0, ⟨0, ""⟩, x.stack, p.kind, p.depth, p.line, x.waiting, x.suspendRequested, []⟩

/-- The stack makes a difference. -/
@[simp] theorem stack_gist (x : Execution) : x.gist.stack = x.stack :=
  rfl

/-- It makes a difference whether a thread waits. -/
@[simp] theorem waiting_gist (x : Execution) : x.gist.waiting = x.waiting :=
  rfl

/-- It makes a difference whether a thread was asked to stop. -/
@[simp] theorem suspendRequested_gist (x : Execution) :
    x.gist.suspendRequested = x.suspendRequested :=
  rfl

/-- The line at which a thread stands is known from what makes a difference. -/
@[simp] theorem topLine_gist (x : Execution) (m : Marks) : x.gist.topLine m = x.topLine m :=
  rfl

/-- It makes a difference whether a thread is in a step. -/
theorem isStep_gist (x : Execution) : x.gist.resumeKind.isStep = x.resumeKind.isStep := by
  cases hk : x.resumeKind <;> simp [gist, origin, ResumePoint.free, ResumeKind.isStep, hk]

/-- Only a step comes to an end. -/
theorem isStepEnd_gist (x : Execution) (m : Marks) : x.gist.isStepEnd m = x.isStepEnd m := by
  unfold isStepEnd
  rw [topLine_gist]
  cases hk : x.resumeKind <;> simp [gist, origin, ResumePoint.free, ResumeKind.isStep, hk]

/-- Why a thread stops is known from what makes a difference. -/
theorem stopReason_gist (x : Execution) (m : Marks) (onBreakpoint : Bool) :
    x.gist.stopReason m onBreakpoint = x.stopReason m onBreakpoint := by
  simp only [stopReason, stack_gist, suspendRequested_gist, isStepEnd_gist]

/-- What becomes of a thread that is resumed shows in what matters of it. -/
theorem gist_resume (x : Execution) (m : Marks) (kind : ResumeKind) :
    (x.gist.resume m kind).gist = (x.resume m kind).gist := by
  unfold resume
  split
  · cases hk : x.resumeKind <;> simp [gist, origin, ResumePoint.free, ResumeKind.isStep, hk]
  · rfl

/-- Who goes on from a script as it was told to, or freely if it is in no step, is as before. -/
theorem gist_resume_of_load (x : Execution) (m : Marks) :
    (x.resume m (if x.resumeKind.isStep then .unspecified else .clientRequest)).gist
      = { x.gist with waiting := none } := by
  cases hk : x.resumeKind <;>
    simp [gist, resume, origin, ResumePoint.free, ResumeKind.isStep, hk]

end Execution

/-- A request without the name of the thread that it is for. -/
def Request.nameless : Request → Request
  | .resume (some _) kind => .resume none kind
  | .suspend (some _) => .suspend none
  | r => r

/-- Whether a request resumes a thread. -/
def Request.resumes : Request → Bool
  | .resume _ _ => true
  | _ => false

/-- The name of a thread does not say whether it is resumed. -/
@[simp] theorem Request.resumes_nameless (r : Request) : r.nameless.resumes = r.resumes := by
  cases r with
  | resume thread kind => cases thread <;> rfl
  | suspend thread => cases thread <;> rfl
  | _ => rfl

/-- A command asks for the same of every thread. -/
theorem nameless_request (c : Command) (thread thread' : Handle) :
    (c.request thread).nameless = (c.request thread').nameless := by
  cases c <;> rfl

/-- All that decides where a thread stops, if there is no other and nobody sets breakpoints. -/
structure Pace where
  /-- What matters of its execution. -/
  self : Execution
  /-- The lines at which activations stand. -/
  marks : Marks
  /-- What users asked for and the debugger has not heard yet, oldest first. -/
  orders : List Request
  /-- Whether generated code is followed too. -/
  dynamic : Bool

namespace Pace

/-- A debugger that follows the same code and has no breakpoints. -/
def debugger (p : Pace) : Debugger :=
  .start p.dynamic true

/-- Why the thread stops in a call, if it does. -/
def stopIn (p : Pace) : Call → Option SuspendReason
  | .line script line =>
    if p.debugger.minds script line then p.debugger.stopAt p.marks p.self script line else none
  | _ => none

/-- What a call makes of a pace. -/
def call (p : Pace) (c : Call) : Pace :=
  { p with
    marks := Bridge.marksAfter p.debugger p.marks p.self.stack c
    self :=
      if (p.stopIn c).isSome then { p.self with waiting := some .line, suspendRequested := false }
      else { p.self with stack := c.moves p.self.stack } }

/-- What a request makes of a pace. Nothing is left of it if the debugger leaves. -/
def heed (p : Pace) : Request → Option Pace
  | .resume _ kind => some { p with self := (p.self.resume p.marks kind).gist }
  | .suspend _ => some { p with self := { p.self with suspendRequested := true } }
  | .terminate | .disconnect => none
  | _ => some p

/-- The debugger hears of what users asked for first. -/
def deliver (p : Pace) : Option Pace :=
  match p.orders with
  | [] => some p
  | r :: rest => { p with orders := rest }.heed r

/-- A pace while its thread waits before a script. -/
def held (p : Pace) : Pace :=
  { p with self := { p.self with waiting := some .load } }

/-- Users ask for something. -/
def ask (p : Pace) (rs : List Request) : Pace :=
  { p with orders := p.orders ++ rs.map Request.nameless }

/-- A thread does not wait before a script. It is asked to go on only if it stopped at a line, and
only once. -/
structure Fair (p : Pace) : Prop where
  passing : p.self.waiting ≠ some .load
  standing : ∀ r ∈ p.orders, r.resumes = true → p.self.waiting = some .line
  once : p.orders.Pairwise fun r r' => ¬(r.resumes = true ∧ r'.resumes = true)

variable {p p' : Pace} {c : Call} {r : Request}

/-- A call of a thread that does not wait keeps a pace fair. -/
theorem Fair.call (h : p.Fair) (hw : p.self.waiting = none) (c : Call) : (p.call c).Fair := by
  have hnone : ∀ r ∈ p.orders, r.resumes ≠ true := fun r hr hres => by
    have hline := h.standing r hr hres
    rw [hw] at hline
    cases hline
  refine ⟨?_, fun r hr hres => absurd hres (hnone r hr), h.once⟩
  unfold Pace.call
  dsimp only
  split
  · nofun
  · exact h.passing

/-- Users may ask a thread to go on that stopped at a line, once. -/
theorem Fair.ask {rs : List Request} (h : p.Fair) (ho : p.orders = [])
    (hrs : ∀ r ∈ rs, r.resumes = true → p.self.waiting = some .line)
    (honce : rs.Pairwise fun r r' => ¬(r.resumes = true ∧ r'.resumes = true)) :
    (p.ask rs).Fair := by
  have horders : (p.ask rs).orders = rs.map Request.nameless := by
    rw [Pace.ask, ho]
    rfl
  refine ⟨h.passing, fun r hr hres => ?_, ?_⟩
  · rw [horders] at hr
    obtain ⟨r', hr', rfl⟩ := List.mem_map.mp hr
    exact hrs r' hr' (r'.resumes_nameless ▸ hres)
  · rw [horders, List.pairwise_map]
    simpa using honce

/-- A request that is heeded is not asked for again. -/
theorem orders_heed (h : p.heed r = some p') : p'.orders = p.orders := by
  cases r <;> simp only [heed, reduceCtorEq, Option.some.injEq] at h <;> rw [← h]

/-- A pace stays fair when the debugger hears of what was asked for. -/
theorem Fair.deliver (h : p.Fair) (hp : p.deliver = some p') : p'.Fair := by
  unfold Pace.deliver at hp
  cases horders : p.orders with
  | nil =>
      rw [horders] at hp
      exact Option.some.inj hp ▸ h
  | cons r rest =>
      rw [horders] at hp
      have honce := h.once
      rw [horders, List.pairwise_cons] at honce
      have hstanding : ∀ r' ∈ rest, r'.resumes = true → p.self.waiting = some .line :=
        fun r' hr' => h.standing r' (horders ▸ List.mem_cons_of_mem _ hr')
      cases r with
      | resume thread kind =>
          obtain rfl := Option.some.inj hp
          refine ⟨?_, fun r' hr' hres => absurd ⟨rfl, hres⟩ (honce.1 r' hr'), honce.2⟩
          rw [Execution.waiting_gist, Execution.waiting_resume]
          nofun
      | suspend thread =>
          obtain rfl := Option.some.inj hp
          exact ⟨h.passing, hstanding, honce.2⟩
      | terminate => cases hp
      | disconnect => cases hp
      | _ =>
          obtain rfl := Option.some.inj hp
          exact ⟨h.passing, hstanding, honce.2⟩

end Pace

/-! ### A debugger that follows one thread -/

/-- What an event of the interpreter is for the model, other than that it has to answer, or that the
interpreter has ended. -/
def Event.IsNews : Event → Prop
  | .scriptReady _ _ _ | .engineTerminated => False
  | _ => True

/-- An answer is news. -/
theorem Event.isNews_of_isAnswer {e : Event} (h : e.isAnswer = true) : e.IsNews := by
  cases e <;> trivial

/-- The reason for which an event says that a thread stopped, if it does. -/
def Event.reason? : Event → Option SuspendReason
  | .suspended _ reason _ => some reason
  | _ => none

/-- An answer gives no reason for a stop. -/
theorem Event.reason?_of_isAnswer {e : Event} (h : e.isAnswer = true) : e.reason? = none := by
  cases e <;> first | rfl | cases h

/-- Answers give no reason for a stop. -/
theorem Event.findSome?_reason?_of_isAnswer {answers : List Event}
    (h : ∀ e ∈ answers, e.isAnswer = true) : answers.findSome? Event.reason? = none :=
  List.findSome?_eq_none_iff.mpr fun e he => reason?_of_isAnswer (h e he)

/-- A call in which a thread goes on with what it does. -/
def Call.GoesOn : Call → Prop
  | .engineFinished | .threadFinished | .scriptStarted _ => False
  | _ => True

instance : DecidablePred Call.GoesOn := fun c =>
  match c with
  | .engineFinished | .threadFinished | .scriptStarted _ => inferInstanceAs (Decidable False)
  | .engineStarted | .threadStarted | .push _ | .pop | .line _ _ | .stack | .currentThread
  | .bind _ _ | .check => inferInstanceAs (Decidable True)

namespace Debugger

variable {i : Interpreter} {p : Pace} {d d' : Debugger} {n n' : Nat} {m m' : Marks} {c : Call}
  {es : List Event} {r : Request}

/-- A debugger that listens to one thread and has no breakpoints, where a pace says what matters of
that thread. -/
structure Paced (i : Interpreter) (p : Pace) (d : Debugger) (n : Nat) (m : Marks) : Prop where
  listens : d.Listens n
  alone : ∀ x ∈ d.executions, x.owner = i.id
  blank : d.table = []
  shows : d.showDynamicCode = p.dynamic
  self : (d.executionFor n i).gist = p.self
  marks : m = p.marks

/-- A thread that a debugger knows keeps its handle. -/
def KeepsHandle (i : Interpreter) (d d' : Debugger) : Prop :=
  ∀ x, d.ofOwner? i.id = some x → ∃ x', d'.ofOwner? i.id = some x' ∧ x'.handle = x.handle

/-- What matters of a thread does not depend on the number that it gets when it begins. -/
theorem gist_executionFor (d : Debugger) (n n' : Nat) (i : Interpreter) :
    (d.executionFor n' i).gist = (d.executionFor n i).gist := by
  unfold executionFor
  cases d.ofOwner? i.id <;> rfl

/-- A debugger lets a thread wait if it has an execution of it that waits. -/
theorem isWaiting_eq_executionFor (d : Debugger) (n : Nat) (i : Interpreter) :
    d.isWaiting i.id = (d.executionFor n i).waiting.isSome := by
  unfold isWaiting executionFor
  cases d.ofOwner? i.id <;> rfl

namespace Paced

/-- Numbers may be given out meanwhile. -/
theorem mono (h : d.Paced i p n m) (hn : n ≤ n') : d.Paced i p n' m :=
  ⟨⟨h.listens.attached, h.listens.running, h.listens.orderly.mono hn⟩, h.alone, h.blank, h.shows,
    (gist_executionFor d n n' i).trans h.self, h.marks⟩

/-- What users asked for is no concern of a debugger that has not heard of it. -/
theorem reorder (h : d.Paced i p n m) (orders : List Request) :
    d.Paced i { p with orders } n m :=
  ⟨h.listens, h.alone, h.blank, h.shows, h.self, h.marks⟩

/-- A thread waits if it does in its pace. -/
theorem isWaiting (h : d.Paced i p n m) : d.isWaiting i.id = p.self.waiting.isSome := by
  rw [isWaiting_eq_executionFor d n i, ← h.self, Execution.waiting_gist]

/-- A thread has the stack that it has in its pace. -/
theorem stack (h : d.Paced i p n m) : (d.executionFor n i).stack = p.self.stack := by
  rw [← h.self, Execution.stack_gist]

/-- A debugger minds the lines that the one of the pace minds. -/
theorem minds (h : d.Paced i p n m) (script : Script) (line : Nat) :
    d.minds script line = p.debugger.minds script line := by
  unfold Debugger.minds isTracked Pace.debugger Debugger.start
  rw [h.shows]

/-- Where a thread stops is decided by what matters of it. -/
theorem stopAt (h : d.Paced i p n m) (script : Script) (line : Nat) :
    d.stopAt m (d.executionFor n i) script line
      = p.debugger.stopAt p.marks p.self script line := by
  have hnone : ∀ m : Marks, BreakpointTable.isActive [] m script line = false := fun _ => rfl
  unfold Debugger.stopAt
  rw [h.blank, ← h.self, Execution.stack_gist, h.marks]
  cases (d.executionFor n i).stack with
  | nil => rfl
  | cons top rest =>
      dsimp only
      rw [Execution.stopReason_gist, hnone]
      rfl

/-- A call moves the marks that it moves in the pace. -/
theorem marksAfter (h : d.Paced i p n m) (c : Call) :
    Bridge.marksAfter d m (d.executionFor n i).stack c
      = Bridge.marksAfter p.debugger p.marks p.self.stack c := by
  cases c with
  | line script line =>
      unfold Bridge.marksAfter
      dsimp only
      rw [h.minds, h.marks, h.stack]
  | _ => exact h.marks

/-- A debugger that came to know a thread, or changed what it knows of it. -/
theorem of_put (h : d.Paced i p n m) {x' : Execution} (ho : x'.owner = i.id)
    (hl : ((d.meet n i).put x').Listens n') {p' : Pace} (hx : x'.gist = p'.self)
    (hshows : p'.dynamic = p.dynamic) (hm : m' = p'.marks) :
    ((d.meet n i).put x').Paced i p' n' m' := by
  have hmeet : ∀ y ∈ (d.meet n i).executions, y.owner = i.id := by
    intro y hy
    unfold meet at hy
    split at hy
    · exact h.alone y hy
    · rcases List.mem_append.mp hy with hy | hy
      · exact h.alone y hy
      · obtain rfl := List.mem_singleton.mp hy
        rfl
  have hself : ((d.meet n i).put x').ofOwner? i.id = some x' :=
    World.ofOwner?_put_self (ofOwner?_meet d n i) (ho.trans (owner_executionFor d n i).symm)
  refine ⟨hl, fun y hy => ?_, (table_meet d n i).trans h.blank,
    (showDynamicCode_meet d n i).trans (h.shows.trans hshows.symm), ?_, hm⟩
  · obtain ⟨hy, -⟩ | ⟨rfl, -⟩ := mem_put hy
    · exact hmeet y hy
    · exact ho
  · rw [executionFor, hself]
    exact hx

/-- A thread that is put back with its handle keeps it. -/
theorem keepsHandle_put {x' : Execution} (howner : x'.owner = i.id)
    (hhandle : x'.handle = (d.executionFor n i).handle) :
    KeepsHandle i d ((d.meet n i).put x') := by
  intro x hx
  refine ⟨x', World.ofOwner?_put_self (ofOwner?_meet d n i)
    (howner.trans (owner_executionFor d n i).symm), hhandle.trans ?_⟩
  rw [executionFor_eq hx]

/-- What a call or a request makes of a debugger that listens to a thread, and what is told. -/
structure Proceeds (i : Interpreter) (p' : Pace) (d d' : Debugger) (n' : Nat) (m' : Marks)
    (es : List Event) : Prop where
  paced : d'.Paced i p' n' m'
  keeps : KeepsHandle i d d'
  news : ∀ e ∈ es, e.IsNews

/-- A thread that does not wait goes on in a call as its pace tells, and it reports a stop exactly
where that tells so. -/
theorem performs (h : d.Paced i p n m) (hc : c.GoesOn)
    (hp : d.Performs m n i c d' es) (hl : d'.Listens n')
    (hm : m' = Bridge.marksAfter d m (d.executionFor n i).stack c) :
    Proceeds i (p.call c) d d' n' m' es ∧ es.findSome? Event.reason? = p.stopIn c := by
  have hmarks : m' = (p.call c).marks := hm.trans (h.marksAfter c)
  -- Whoever goes on is as before, but for the calls that are active.
  have hgoes : p.stopIn c = none →
      (p.call c).self = { p.self with stack := c.moves p.self.stack } := fun hnone => by
    rw [Pace.call, hnone]
    rfl
  have howner := owner_executionFor d n i
  cases hp with
  | aside c es hes hline hscript hmove =>
      have hnone : p.stopIn c = none := by
        cases c with
        | line script line =>
            rw [Pace.stopIn, ← h.minds, hline script line rfl]
            rfl
        | _ => rfl
      have hstack : c.moves p.self.stack = p.self.stack := by
        cases c <;> first | rfl | exact absurd trivial hmove
      refine ⟨⟨⟨hl, h.alone, h.blank, h.shows, ?_, hmarks⟩, fun x hx => ⟨x, hx, rfl⟩, ?_⟩, ?_⟩
      · rw [gist_executionFor d n n', h.self, hgoes hnone, hstack]
      · obtain rfl | rfl := hes
        · exact List.forall_mem_nil _
        · exact List.forall_mem_singleton.mpr trivial
      · obtain rfl | rfl := hes <;> rw [hnone] <;> rfl
  | moved c hmove es hes =>
      have hnone : p.stopIn c = none := by
        cases c <;> first | rfl | exact hmove.elim
      let x : Execution :=
        { d.executionFor n i with stack := c.moves (d.executionFor n i).stack }
      have hx : x.owner = i.id := howner
      have hgist : x.gist = (p.call c).self := by
        rw [hgoes hnone, ← h.self]
        rfl
      refine ⟨⟨h.of_put hx hl hgist rfl hmarks, keepsHandle_put hx rfl, ?_⟩, ?_⟩
      · obtain rfl | rfl := hes
        · exact List.forall_mem_nil _
        · exact List.forall_mem_singleton.mpr trivial
      · obtain rfl | rfl := hes <;> rw [hnone] <;> rfl
  | held script => exact hc.elim
  | passed script line ht hr =>
      have hnone : p.stopIn (.line script line) = none := by
        rw [Pace.stopIn, ← h.minds, if_pos ht, ← h.stopAt, hr]
      have hsame : (d.meet n i).put (d.executionFor n i) = d.meet n i :=
        (h.listens.orderly.meet i).put_self (mem_of_ofOwner? (ofOwner?_meet d n i))
      rw [← hsame] at hl ⊢
      refine ⟨⟨h.of_put howner hl ?_ rfl hmarks, keepsHandle_put howner rfl,
        List.forall_mem_nil _⟩, hnone.symm⟩
      rw [hgoes hnone, h.self]
      rfl
  | stopped script line reason ht hr answers ha =>
      have hsome : p.stopIn (.line script line) = some reason := by
        rw [Pace.stopIn, ← h.minds, if_pos ht, ← h.stopAt, hr]
      let x : Execution :=
        { d.executionFor n i with waiting := some .line, suspendRequested := false, pending := [] }
      have hx : x.owner = i.id := howner
      refine ⟨⟨h.of_put hx hl ?_ rfl hmarks, keepsHandle_put hx rfl, ?_⟩, hsome.symm⟩
      · rw [Pace.call, hsome, ← h.self]
        rfl
      · exact List.forall_mem_cons.mpr ⟨trivial, fun e he => Event.isNews_of_isAnswer (ha e he)⟩
  | gone => exact hc.elim

/-- A thread that comes to a script waits before it, and says so. -/
theorem holds {script : Script} (h : d.Paced i p n m) (ht : d.isTracked script = true)
    (hp : d.Performs m n i (.scriptStarted script) d' es) (hl : d'.Listens n') (hm : m' = m) :
    ∃ x answers, d'.ofOwner? i.id = some x ∧ KeepsHandle i d d'
      ∧ d'.Paced i p.held n' m'
      ∧ (∀ e ∈ answers, e.isAnswer = true)
      ∧ es = .scriptReady script x.handle x.stack.isEmpty :: answers := by
  have howner := owner_executionFor d n i
  cases hp with
  | aside c es hes hline hscript =>
      rw [hscript script rfl] at ht
      cases ht
  | moved c hmove => exact hmove.elim
  | held script ht answers ha =>
      let x : Execution := { d.executionFor n i with waiting := some .load, pending := [] }
      have hx : x.owner = i.id := howner
      have hself : ((d.meet n i).put x).ofOwner? i.id = some x :=
        World.ofOwner?_put_self (ofOwner?_meet d n i) rfl
      refine ⟨x, answers, hself, keepsHandle_put hx rfl,
        h.of_put hx hl ?_ rfl (hm.trans h.marks), ha, rfl⟩
      change x.gist = { p.self with waiting := some .load }
      rw [← h.self]
      rfl

/-- A thread that is found under a handle. -/
theorem of_put_known {x x' : Execution} (h : d.Paced i p n m) (hx : d.ofOwner? i.id = some x)
    (ho : x'.owner = x.owner) (hl : (d.put x').Listens n') {p' : Pace} (hgist : x'.gist = p'.self)
    (hshows : p'.dynamic = p.dynamic) (hm : m' = p'.marks) : (d.put x').Paced i p' n' m' := by
  have hmeet : d.meet n i = d := meet_eq hx
  have hput := h.of_put (ho.trans (owner_of_ofOwner? hx)) (hmeet.symm ▸ hl) hgist hshows hm
  rwa [hmeet] at hput

/-- The execution that a debugger has of a thread is the one of the pace, but for what makes no
difference. -/
theorem gist_eq {x : Execution} (h : d.Paced i p n m) (hx : d.ofOwner? i.id = some x) :
    x.gist = p.self := by
  rw [← h.self, executionFor_eq hx]

/-- A thread that is resumed, and has a reason to be. -/
theorem resumes {x : Execution} {handle : Handle} {kind : ResumeKind} (h : d.Paced i p n m)
    (hx : d.ofOwner? i.id = some x) (hid : x.handle.id = handle.id)
    (ho : d.Obeys m (.resume (some handle) kind) d' es) (hl : d'.Listens n') {p' : Pace}
    (hgist : (x.resume m kind).gist = p'.self) (hshows : p'.dynamic = p.dynamic)
    (hm : m = p'.marks) :
    d'.Paced i p' n' m ∧ d'.ofOwner? i.id = some (x.resume m kind)
      ∧ es = if x.waiting.isSome then [.resumed x.handle (x.resume m kind).resumeKind] else [] := by
  have hfound := h.listens.orderly.ofHandle?_eq (mem_of_ofOwner? hx) hid
  cases ho with
  | resumed handle kind y hr hy =>
      cases hr
      obtain rfl := Option.some.inj (hfound.symm.trans hy)
      have howner : (x.resume m kind).owner = x.owner := Execution.owner_resume _ _ _
      exact ⟨h.of_put_known hx howner hl hgist hshows hm, World.ofOwner?_put_self hx howner, rfl⟩
  | resumedAll kind hr => cases hr
  | nudged thread hr => cases hr
  | noted table hr => exact absurd rfl ((hr (some handle)).2 kind)
  | putOff y pending hy hr => exact absurd rfl ((hr (some handle)).2 kind)
  | served answers ha hr hnone =>
      obtain ⟨handle', heq, hnone⟩ := hnone _ _ rfl
      obtain rfl := Option.some.inj heq
      rw [hfound] at hnone
      cases hnone

/-- A thread that is asked to stop. -/
theorem nudges {x : Execution} {handle : Handle} (h : d.Paced i p n m)
    (hx : d.ofOwner? i.id = some x) (hid : x.handle.id = handle.id)
    (ho : d.Obeys m (.suspend (some handle)) d' es) (hl : d'.Listens n') :
    d'.Paced i { p with self := { p.self with suspendRequested := true } } n' m
      ∧ (∃ y, d'.ofOwner? i.id = some y ∧ y.handle = x.handle) ∧ es = [] := by
  cases ho with
  | resumed handle kind y hr => cases hr
  | resumedAll kind hr => cases hr
  | noted table hr => exact absurd rfl (hr (some handle)).1
  | putOff y pending hy hr => exact absurd rfl (hr (some handle)).1
  | served answers ha hr => exact absurd rfl (hr (some handle))
  | nudged thread hr =>
      cases hr
      have hself : (d.each (·.nudge (some handle))).ofOwner? i.id
          = some (x.nudge (some handle)) := by
        have hmap := d.ofOwner?_map (f := (·.nudge (some handle)))
          (fun y => y.owner_nudge (some handle)) i.id
        rw [hx] at hmap
        exact hmap
      refine ⟨⟨hl, fun y hy => ?_, h.blank, h.shows, ?_, h.marks⟩,
        ⟨_, hself, x.handle_nudge _⟩, rfl⟩
      · obtain ⟨z, hz, rfl⟩ := List.mem_map.mp hy
        rw [Execution.owner_nudge]
        exact h.alone z hz
      · have hmeant : x.isMeant (some handle) = true := by simpa [Execution.isMeant] using hid
        rw [executionFor, hself, ← h.gist_eq hx, Option.getD_some, Execution.nudge, if_pos hmeant]
        rfl

end Paced

end Debugger

end DebugBridge
