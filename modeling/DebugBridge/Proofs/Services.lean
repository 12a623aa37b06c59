import DebugBridge.Proofs.Recall

/-!
# What threads serve

A request for a thread arrives at its execution. A thread that waits serves it at once; any other
serves it when it is next held up, after what it was asked for before. The lists of this module name
what arrives and what is served in a call and in a request. They follow the definitions of calls and
requests clause by clause.

## Main definitions

* `Service`: a request that a thread serves, in the state in which it does;
* `Bridge.heldUp`, `Bridge.performed`: the thread that a call holds up, and what it serves;
* `Bridge.asked`, `Bridge.arrivals`, `Bridge.received`: the thread that a request is for, and what it
  is asked for and serves.

## Main results

* `becomes_serveAll`: a thread that serves what it was asked for answers it, in order;
* `perform_cases`, `receives`: what a call and a request do to what threads were asked for.
-/

namespace DebugBridge

/-- A request that a thread serves, in the state in which it does. -/
structure Service (σ : Type) where
  state : Bridge σ
  thread : Execution
  request : Request

/-- The thread that a request is for. -/
def Request.addressee (w : World) : Request → Option Handle
  | .getStackFrames thread => some thread
  | .getVariables frame => some frame.handle
  | .setVariable context _ _ _ => (w.frameOf context).map (·.handle)
  | .evaluate _ _ thread _ => some thread
  | _ => none

namespace Service

variable {σ : Type} [Inhabited σ] [Engine σ]

/-- What a thread answers. -/
def answer (s : Nat) (v : Service σ) : List Event :=
  v.state.answer s v.thread v.request

omit [Inhabited σ] [Engine σ] in
/-- A thread that is held up while it serves a request. -/
def IsHeld (s : Nat) (v : Service σ) : Prop :=
  ∃ d, (v.state.world.session s).debugger = some d ∧ v.thread ∈ d.executions
    ∧ v.thread.waiting.isSome = true

end Service

namespace Bridge

open World

variable {σ : Type} [Inhabited σ] [Engine σ] {s : Nat} {d : Debugger} {b : Bridge σ}

/-! ### Calls -/

/-- What a thread serves that was asked for several things. -/
def services (s : Nat) (x : Execution) : List Request → Bridge σ → List (Service σ)
  | [], _ => []
  | r :: rest, b =>
    let b := b.onWorld (·.putExecution s { x with pending := rest })
    ⟨b, { x with pending := rest }, r⟩ :: services s x rest (b.serve s x r)

/-- The thread that is held up, in the state in which it begins to serve. -/
def heldAt (b : Bridge σ) (i : Interpreter) (gate : Gate) (event : Execution → Event) :
    Option (Execution × Bridge σ) :=
  if (b.world.debugger i.session).attached then
    let (x, world) := b.world.executionOf i
    let x := { x with waiting := some gate }
    let b := { b with world := world.putExecution i.session x }.fire i.session (event x)
    some (x, b.trace "runtime" (i.name ++ " suspended"))
  else none

/-- The thread that a call holds up, in the state in which it begins to serve. -/
def heldUp (b : Bridge σ) (i : Interpreter) : Call → Option (Execution × Bridge σ)
  | .scriptStarted script =>
    if (b.world.debugger i.session).isTracked script then
      let (_, world) := b.world.executionOf i
      { b with world }.heldAt i .load fun x => .scriptReady script x.handle x.stack.isEmpty
    else none
  | .line script line =>
    if (b.world.debugger i.session).isTracked script && 1 ≤ line then
      match b.world.reachLine i script line with
      | (none, _) => none
      | (some reason, world) =>
        { b with world }.heldAt i .line fun x => .suspended x.handle reason x.stack
    else none
  | _ => none

omit [Inhabited σ] [Engine σ] in
/-- A call that holds a thread up found its execution, or moved it to a line, and held it up there. -/
theorem exists_heldAt_of_heldUp {b : Bridge σ} {i : Interpreter} {c : Call}
    {found : Execution × Bridge σ} (h : b.heldUp i c = some found) :
    ∃ w gate event, heldAt { b with world := w } i gate event = some found
      ∧ (w = (b.world.executionOf i).2
        ∨ ∃ script line, w = (b.world.reachLine i script line).2) := by
  unfold heldUp at h
  split at h
  · split at h
    · exact ⟨_, _, _, h, .inl rfl⟩
    · cases h
  · next script line =>
      split at h
      · split at h
        · cases h
        · next reason w hline => exact ⟨w, _, _, h, .inr ⟨script, line, by rw [hline]⟩⟩
      · cases h
  · cases h

/-- What the thread serves that a call holds up. -/
def performed (b : Bridge σ) (i : Interpreter) (c : Call) : List (Service σ) :=
  match b.heldUp i c with
  | some (x, u) => services i.session x x.pending u
  | none => []

/-- All that a thread answers is an answer. -/
theorem isAnswer_answer (b : Bridge σ) (s : Nat) (x : Execution) (r : Request) :
    ∀ e ∈ b.answer s x r, e.isAnswer = true := by
  have hlisting : ∀ (b : Bridge σ) frame, ∀ e ∈ b.listing s frame, e.isAnswer = true := by
    intro b frame
    unfold listing
    split <;> simp [Event.isAnswer]
  cases r with
  | getVariables frame => exact hlisting b frame
  | setVariable context binding name expression =>
      unfold answer
      dsimp only
      split
      · exact List.forall_mem_nil _
      · exact hlisting _ _
  | _ => simp [answer, Event.isAnswer]

/-- A thread that serves several requests takes each from its execution first. -/
theorem requests_services (s : Nat) (x : Execution) (rs : List Request) (b : Bridge σ) :
    (services s x rs b).map Service.request = rs := by
  induction rs generalizing b with
  | nil => rfl
  | cons r rs ih => exact congrArg (r :: ·) (ih _)

/-- What a thread serves one request after the other it serves itself. -/
theorem handle_services (s : Nat) (x : Execution) (rs : List Request) (b : Bridge σ) :
    ∀ v ∈ services s x rs b, v.thread.handle = x.handle := by
  induction rs generalizing b with
  | nil => exact List.forall_mem_nil _
  | cons r rs ih =>
      refine List.forall_mem_cons.mpr ⟨rfl, ih _⟩

/-- What a thread was asked for besides makes no difference to an answer. -/
theorem answer_pending (b : Bridge σ) (s : Nat) (x : Execution) (rs : List Request) (r : Request) :
    b.answer s { x with pending := rs } r = b.answer s x r := by
  cases r <;> rfl

/-- A thread that serves what it was asked for is held up all the time, and answers one request after
the other. -/
theorem becomes_serveAll {x : Execution} {rs : List Request} {n : Nat} (ho : d.Orderly n)
    (hd : (b.world.session s).debugger = some d) (ha : d.attached = true)
    (hw : x.waiting.isSome = true) (hx : { x with pending := rs } ∈ d.executions) :
    Becomes s (d.put { x with pending := [] }) ((services s x rs b).flatMap (Service.answer s))
        b.world (serveAll s x rs b).world
      ∧ ∀ v ∈ services s x rs b, v.IsHeld s := by
  induction rs generalizing b d with
  | nil =>
      rw [ho.put_self hx]
      exact ⟨.refl hd, List.forall_mem_nil _⟩
  | cons r rs ih =>
      let y : Execution := { x with pending := rs }
      let u := b.onWorld (·.putExecution s y)
      have hput : Becomes s (d.put y) [] b.world u.world := becomes_putExecution hd ha y
      have hy : y ∈ (d.put y).executions := Debugger.mem_put_self hx rfl
      have hserve : Becomes s (d.put y) (u.answer s y r) u.world (u.serve s x r).world := by
        rw [answer_pending]
        exact becomes_serve hput.debugger ha x r
      have ho' : (d.put y).Orderly n := ho.put hx rfl rfl
      obtain ⟨hrest, hheld⟩ := ih ho' hserve.debugger ha hy
      have hlast : (d.put y).put { x with pending := [] } = d.put { x with pending := [] } :=
        d.put_put rfl
      rw [hlast] at hrest
      exact ⟨hput.trans (hserve.trans hrest),
        List.forall_mem_cons.mpr ⟨⟨d.put y, hput.debugger, hy, hw⟩, hheld⟩⟩

/-- A thread is held up that the debugger knows by then, and the model is told. -/
inductive HoldsUp (s : Nat) (w : World) (x : Execution) (u : World) : Prop where
  | intro (v : World) (d : Debugger) (y : Execution) (gate : Gate) (e : Event)
      (h : Recalls s w v) (hd : (v.session s).debugger = some d) (ha : d.attached = true)
      (hy : y ∈ d.executions) (hx : x = { y with waiting := some gate })
      (he : e.isAnswer = false) (hu : Becomes s (d.put x) [e] v u)

omit [Inhabited σ] [Engine σ] in
/-- A thread that is held up after messages were recalled is held up all in all. -/
theorem HoldsUp.after {w w' u : World} {x : Execution} (h : Recalls s w w')
    (hx : HoldsUp s w' x u) : HoldsUp s w x u := by
  obtain ⟨v, d, y, gate, e, hv, hd, ha, hy, hx, he, hu⟩ := hx
  exact ⟨v, d, y, gate, e, (steady_recalls s).trans h hv, hd, ha, hy, hx, he, hu⟩

/-- A thread is held up and serves what it was asked for, or its debugger is not attached. -/
theorem suspend_cases (b : Bridge σ) (i : Interpreter) (gate : Gate) (event : Execution → Event)
    (he : ∀ x, (event x).isAnswer = false) :
    b.heldAt i gate event = none ∧ b.suspend i gate event = b
      ∨ ∃ x u, b.heldAt i gate event = some (x, u) ∧ HoldsUp i.session b.world x u.world
        ∧ b.suspend i gate event = serveAll i.session x x.pending u := by
  cases ha : (b.world.debugger i.session).attached with
  | false => exact .inl ⟨if_neg (by simp [ha]), if_neg (by simp [ha])⟩
  | true =>
      let y := (b.world.executionOf i).1
      let v := (b.world.executionOf i).2
      let x : Execution := { y with waiting := some gate }
      let u : Bridge σ := { b with
        world := ((v.putExecution i.session x).fire i.session (event x)).trace "runtime"
          (i.name ++ " suspended") }
      have hopen := recalls_executionOf b.world i
      have hattached : (v.debugger i.session).attached = true :=
        (attached_executionOf b.world i).trans ha
      have hd := debugger_of_attached hattached
      refine .inr ⟨x, u, if_pos ha, ?_, if_pos ha⟩
      have hput := becomes_putExecution hd hattached x
      have hfire := hput.trans (becomes_fire hput.debugger hattached (event x))
      exact ⟨v, _, y, gate, event x, hopen, hd, hattached, mem_executionOf hd, rfl, he x,
        hfire.trans (becomes_trace hfire.debugger _ _)⟩

/-- A call that comes to a place where its thread may be held up. -/
theorem cases_of_suspend {b u : Bridge σ} {i : Interpreter} {c : Call} {gate : Gate}
    {event : Execution → Event} (h : Recalls i.session b.world u.world)
    (hheld : b.heldUp i c = u.heldAt i gate event)
    (hrun : (b.perform i c).2 = u.suspend i gate event) (he : ∀ x, (event x).isAnswer = false) :
    b.heldUp i c = none ∧ Recalls i.session b.world (b.perform i c).2.world
      ∨ ∃ x u, b.heldUp i c = some (x, u) ∧ HoldsUp i.session b.world x u.world
        ∧ (b.perform i c).2 = serveAll i.session x x.pending u := by
  rw [hheld, hrun]
  obtain ⟨hnone, hsame⟩ | ⟨x, v, hsome, hx, hserve⟩ := suspend_cases u i gate event he
  · rw [hsame]
    exact .inl ⟨hnone, h⟩
  · exact .inr ⟨x, v, hsome, hx.after h, hserve⟩

/-- A call holds its thread up, which then serves what it was asked for, or nothing is served. -/
theorem perform_cases (b : Bridge σ) (i : Interpreter) (c : Call) :
    b.heldUp i c = none ∧ Recalls i.session b.world (b.perform i c).2.world
      ∨ ∃ x u, b.heldUp i c = some (x, u) ∧ HoldsUp i.session b.world x u.world
        ∧ (b.perform i c).2 = serveAll i.session x x.pending u := by
  have h := steady_recalls i.session
  cases c with
  | engineStarted => exact .inl ⟨rfl, recalls_fire _ _ rfl⟩
  | engineFinished => exact .inl ⟨rfl, recalls_finishEngine _ _⟩
  | threadStarted =>
      exact .inl ⟨rfl, h.trans (recalls_executionOf b.world i) (recalls_fire _ _ rfl)⟩
  | threadFinished => exact .inl ⟨rfl, recalls_finishThread _ i⟩
  | scriptStarted script =>
      cases ht : (b.world.debugger i.session).isTracked script with
      | false =>
          have hrun : (b.perform i (.scriptStarted script)).2 = b := if_neg (by simp [ht])
          rw [hrun]
          exact .inl ⟨if_neg (by simp [ht]), h.refl b.world⟩
      | true =>
          have hopen := recalls_executionOf b.world i
          exact cases_of_suspend (u := { b with world := (b.world.executionOf i).2 }) hopen
            (if_pos ht) (if_pos ht) fun _ => rfl
  | push a =>
      exact .inl ⟨rfl, recalls_modifyExecution b.world i (f := fun x => { x with stack := a :: x.stack })
        fun _ => ⟨rfl, rfl, rfl, id⟩⟩
  | pop => exact .inl ⟨rfl, recalls_popActivation b.world i⟩
  | line script number =>
      cases ht : (b.world.debugger i.session).isTracked script && 1 ≤ number with
      | false =>
          have hrun : (b.perform i (.line script number)).2 = b := if_neg (by simp [ht])
          rw [hrun]
          exact .inl ⟨if_neg (by simp [ht]), h.refl b.world⟩
      | true =>
          have hreach := recalls_reachLine b.world i script number
          have hheld : b.heldUp i (.line script number) = _ := if_pos ht
          have hrun : (b.perform i (.line script number)).2 = _ := if_pos ht
          cases hline : b.world.reachLine i script number with
          | mk reason world =>
              rw [hline] at hreach hheld hrun
              cases reason with
              | none =>
                  rw [hrun]
                  exact .inl ⟨hheld, hreach⟩
              | some reason =>
                  exact cases_of_suspend (u := { b with world }) hreach hheld hrun fun _ => rfl
  | stack => exact .inl ⟨rfl, recalls_executionOf b.world i⟩
  | currentThread => exact .inl ⟨rfl, recalls_executionOf b.world i⟩
  | bind name content => exact .inl ⟨rfl, h.refl b.world⟩
  | check => exact .inl ⟨rfl, h.refl b.world⟩

/-! ### Requests -/

/-- The execution of the thread that a request is for, if the debugger knows it. -/
def asked (b : Bridge σ) (s : Nat) (r : Request) : Option Execution :=
  if (b.world.debugger s).terminated then none
  else (r.addressee b.world).bind (b.world.debugger s).ofHandle?

/-- What a thread is asked for by a request. -/
def arrivals (b : Bridge σ) (s : Nat) (r : Request) : List (Handle × Request) :=
  (b.asked s r).toList.map fun x => (x.handle, r)

/-- What a thread serves at once that is asked for something. -/
def received (b : Bridge σ) (s : Nat) (r : Request) : List (Service σ) :=
  match b.asked s r with
  | some x =>
    if x.waiting.isSome then
      let b := b.trace "runtime" ("process " ++ r.text b.world.marks)
      [⟨b.onWorld (·.setActor x.handle.name), x, r⟩]
    else []
  | none => []

/-- A request that is for no thread that the debugger knows is not served. -/
theorem recalls_enqueue {handle : Handle} {r : Request}
    (h : (b.world.debugger s).ofHandle? handle = none) :
    Recalls s b.world (b.enqueue s handle r).world := by
  unfold enqueue
  rw [h]
  exact recalls_beside rfl (Nat.le_refl _)

/-- A request for a thread is put down for that thread. -/
theorem obey_of_addressee {r : Request} {handle : Handle}
    (h : r.addressee b.world = some handle) : b.obey s r = b.enqueue s handle r := by
  cases r with
  | setVariable context binding name expression =>
      obtain ⟨frame, hf, rfl⟩ := Option.map_eq_some_iff.mp h
      simp only [obey, hf]
  | getStackFrames thread =>
      cases h
      rfl
  | getVariables frame =>
      cases h
      rfl
  | evaluate expression frame thread listener =>
      cases h
      rfl
  | _ => cases h

/-- A request for no thread in particular recalls what it is about. -/
theorem recalls_obey {r : Request} (h : r.addressee b.world = none) :
    Recalls s b.world (b.obey s r).world := by
  cases r with
  | resume thread kind => exact recalls_resume b.world s kind thread
  | suspend thread => exact recalls_askToSuspend b.world s thread
  | breakpoint script point mode => exact recalls_updateTable b.world s script point mode
  | removeAllBreakpoints => exact recalls_of_executions (fun _ => rfl) fun _ => rfl
  | terminate => exact recalls_terminate b s
  | disconnect => exact recalls_detach b.world s
  | setVariable context binding name expression =>
      have hf : b.world.frameOf context = none := Option.map_eq_none_iff.mp h
      simp only [obey, hf]
      exact recalls_beside rfl (Nat.le_refl _)
  | getStackFrames thread => cases h
  | getVariables frame => cases h
  | evaluate expression frame thread listener => cases h

/-- What a debugger does that takes a request. -/
inductive Receives (b : Bridge σ) (s : Nat) (r : Request) : Prop where
  /-- The request is for no thread that the debugger knows. -/
  | passed (hx : b.asked s r = none) (h : Recalls s b.world (b.receive s r).world)
  /-- The thread goes its way and puts the request off. -/
  | putOff (x : Execution) (u : World) (hx : b.asked s r = some x) (hw : x.waiting = none)
      (hs : u.sessions = b.world.sessions) (hn : u.nextNumber = b.world.nextNumber)
      (h : (b.receive s r).world = u.putExecution s { x with pending := x.pending ++ [r] })
  /-- The thread waits and serves the request. -/
  | served (x : Execution) (u : Bridge σ) (hx : b.asked s r = some x)
      (hw : x.waiting.isSome = true) (hv : b.received s r = [⟨u, x, r⟩])
      (hs : u.world.sessions = b.world.sessions) (hn : u.world.nextNumber = b.world.nextNumber)
      (hs' : (b.receive s r).world.sessions = (u.serve s x r).world.sessions)
      (hn' : (b.receive s r).world.nextNumber = (u.serve s x r).world.nextNumber)
      (hh : u.world.heap = b.world.heap)
      (hh' : (b.receive s r).world.heap = (u.serve s x r).world.heap)

/-- Whatever a debugger is asked, it receives it in one of these ways. -/
theorem receives (b : Bridge σ) (s : Nat) (r : Request) : b.Receives s r := by
  let v := b.trace "runtime" ("process " ++ r.text b.world.marks)
  have hv : Recalls s b.world v.world := recalls_beside rfl (Nat.le_refl _)
  cases ht : (b.world.debugger s).terminated with
  | true =>
      have hrun : b.receive s r = b := if_pos ht
      refine .passed (if_pos ht) ?_
      rw [hrun]
      exact (steady_recalls s).refl b.world
  | false =>
      have hrun : b.receive s r = v.obey s r := if_neg (by simp [ht])
      have hasked : b.asked s r = (r.addressee b.world).bind (b.world.debugger s).ofHandle? :=
        if_neg (by simp [ht])
      cases hr : r.addressee b.world with
      | none =>
          refine .passed (by rw [hasked, hr]; rfl) ?_
          rw [hrun]
          exact (steady_recalls s).trans hv (recalls_obey hr)
      | some handle =>
          have henqueue : b.receive s r = v.enqueue s handle r := by
            rw [hrun]
            exact obey_of_addressee hr
          rw [hr] at hasked
          cases hx : (b.world.debugger s).ofHandle? handle with
          | none =>
              refine .passed (hasked.trans hx) ?_
              rw [henqueue]
              exact (steady_recalls s).trans hv (recalls_enqueue hx)
          | some x =>
              have hx' : b.asked s r = some x := hasked.trans hx
              have hfind : (v.world.debugger s).ofHandle? handle = some x := hx
              cases hw : x.waiting with
              | none =>
                  refine .putOff x v.world hx' hw rfl rfl ?_
                  rw [henqueue, enqueue, hfind]
                  simp only [hw]
                  rfl
              | some gate =>
                  have hwaits : x.waiting.isSome = true := by rw [hw]; rfl
                  let u := v.onWorld (·.setActor x.handle.name)
                  have hserve : b.receive s r = v.actAs x.handle.name (·.serve s x r) := by
                    rw [henqueue, enqueue, hfind]
                    exact if_pos hwaits
                  refine .served x u hx' hwaits ?_ rfl rfl (by rw [hserve]; rfl) (by rw [hserve]; rfl) rfl
                    (by rw [hserve]; rfl)
                  rw [received, hx']
                  exact if_pos hwaits

end Bridge

end DebugBridge
