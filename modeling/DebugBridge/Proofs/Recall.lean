import DebugBridge.Proofs.Reports

/-!
# What threads were asked for

A debugger remembers for each of its threads what that thread was asked for and has not served.
Nothing but a request adds to that, and nothing but the thread itself takes anything away, when it
serves what it was asked for. A thread that is seen for the first time was not asked for anything
yet, and one that is gone is forgotten with all that it was asked for.

## Main definitions

* `Debugger.Upright`: a debugger that holds up threads only while it is attached;
* `Debugger.Recalls`: a debugger that remembers what its threads were asked for;
* `World.Recalls`: a step in which a debugger remembers that, and in which nothing is answered.

## Main results

* `recalls_executionOf` and the lemmas after it: the parts of calls and of requests are such steps;
* `recalls_detach`: a debugger that leaves remembers what its threads were asked for.
-/

namespace DebugBridge

/-- Whether an event answers a request. -/
def Event.isAnswer : Event → Bool
  | .stackFrames _ _ | .frameVariables _ _ | .evaluated _ _ _ _ => true
  | _ => false

/-- An execution of the same thread, which was asked for the same and waits only if the other
does. -/
structure Execution.Follows (x' x : Execution) : Prop where
  owner : x'.owner = x.owner
  handle : x'.handle = x.handle
  pending : x'.pending = x.pending
  waiting : x'.waiting.isSome = true → x.waiting.isSome = true

/-- An execution that stays as it is follows itself. -/
theorem Execution.Follows.refl (x : Execution) : x.Follows x :=
  ⟨rfl, rfl, rfl, id⟩

/-- An execution that follows one that follows a third follows that. -/
theorem Execution.Follows.trans {x x' x'' : Execution} (h' : x''.Follows x') (h : x'.Follows x) :
    x''.Follows x :=
  ⟨h'.owner.trans h.owner, h'.handle.trans h.handle, h'.pending.trans h.pending,
    fun hw => h.waiting (h'.waiting hw)⟩

/-- A thread that goes on was asked for the same, and does not wait. -/
theorem Execution.follows_resume (x : Execution) (m : Marks) (kind : ResumeKind) :
    (x.resume m kind).Follows x := by
  refine ⟨x.owner_resume m kind, x.handle_resume m kind, ?_, fun h => ?_⟩
  · unfold resume
    split <;> rfl
  · rw [waiting_resume] at h
    cases h

namespace Debugger

variable {d d' d'' : Debugger} {n n' n'' : Nat}

/-- A debugger that holds up threads only while it is attached. -/
def Upright (d : Debugger) : Prop :=
  ∀ x ∈ d.executions, x.waiting.isSome = true → d.attached = true

/-- A debugger that remembers what its threads were asked for. A thread that it did not know was not
asked for anything. -/
def Recalls (d : Debugger) (n : Nat) (d' : Debugger) : Prop :=
  ∀ x' ∈ d'.executions, (∃ x ∈ d.executions, x'.Follows x)
    ∨ n ≤ x'.handle.id ∧ x'.pending = [] ∧ x'.waiting = none

/-- A debugger that stays as it is remembers all. -/
theorem Recalls.refl (d : Debugger) (n : Nat) : d.Recalls n d :=
  fun x hx => .inl ⟨x, hx, .refl x⟩

/-- What is remembered over two steps is remembered. -/
theorem Recalls.trans (hn : n ≤ n') (h : d.Recalls n d') (h' : d'.Recalls n' d'') :
    d.Recalls n d'' := by
  intro x'' hx''
  obtain ⟨x', hx', hf'⟩ | ⟨hid, hnew⟩ := h' x'' hx''
  · obtain ⟨x, hx, hf⟩ | ⟨hid, hp, hw⟩ := h x' hx'
    · exact .inl ⟨x, hx, hf'.trans hf⟩
    · refine .inr ⟨hf'.handle ▸ hid, hf'.pending.trans hp, ?_⟩
      cases hw' : x''.waiting with
      | none => rfl
      | some gate =>
          have hheld := hf'.waiting (by rw [hw']; rfl)
          rw [hw] at hheld
          cases hheld
  · exact .inr ⟨Nat.le_trans hn hid, hnew⟩

/-- A debugger that keeps to its executions stays upright, as long as it stays attached. -/
theorem Recalls.upright (h : d.Recalls n d') (ha : d'.attached = d.attached) (hu : d.Upright) :
    d'.Upright := by
  intro x' hx' hw
  obtain ⟨x, hx, hf⟩ | ⟨-, -, hnone⟩ := h x' hx'
  · exact ha.trans (hu x hx (hf.waiting hw))
  · rw [hnone] at hw
    cases hw

/-- A debugger that keeps its executions remembers what they were asked for. -/
theorem Recalls.of_executions (h : d'.executions = d.executions) : d.Recalls n d' := by
  unfold Recalls
  rw [h]
  exact Recalls.refl d n

/-- An execution that is put back is remembered. -/
theorem recalls_put {x x' : Execution} (hx : x ∈ d.executions) (hf : x'.Follows x) :
    d.Recalls n (d.put x') := by
  intro y hy
  obtain ⟨hy, -⟩ | ⟨rfl, -⟩ := mem_put hy
  · exact .inl ⟨y, hy, .refl y⟩
  · exact .inl ⟨x, hx, hf⟩

/-- A thread that is met was not asked for anything. -/
theorem recalls_insert (d : Debugger) (o : Nat) (name : String) :
    d.Recalls n (d.insert (.start o ⟨n, name⟩)) := by
  intro y hy
  rcases List.mem_append.mp hy with hy | hy
  · exact .inl ⟨y, hy, .refl y⟩
  · obtain rfl := List.mem_singleton.mp hy
    exact .inr ⟨Nat.le_refl n, rfl, rfl⟩

/-- A thread that is forgotten leaves the others remembered. -/
theorem recalls_erase (d : Debugger) (o : Nat) : d.Recalls n (d.erase o) :=
  fun y hy => .inl ⟨y, (List.mem_filter.mp hy).1, .refl y⟩

/-- Executions that change but for what they were asked for are remembered. -/
theorem recalls_map (d : Debugger) {f : Execution → Execution} (hf : ∀ x, (f x).Follows x) :
    d.Recalls n { d with executions := d.executions.map f } := by
  intro y hy
  obtain ⟨x, hx, rfl⟩ := List.mem_map.mp hy
  exact .inl ⟨x, hx, hf x⟩

end Debugger

namespace World

variable {s : Nat} {w w' : World} {d : Debugger}

/-- What becomes of a debugger that remembers what its threads were asked for, and answers
nothing. -/
structure Remembered (s : Nat) (w : World) (d : Debugger) (w' : World) : Prop where
  numbers : w.nextNumber ≤ w'.nextNumber
  debugger : ∃ d', (w'.session s).debugger = some d' ∧ d.Recalls w.nextNumber d'
    ∧ d'.Orderly w'.nextNumber ∧ (d.Upright → d'.Upright)
  mailbox : ∃ es : List Event, (∀ e ∈ es, e.isAnswer = false)
    ∧ (w.session s).mailbox.Gains (es.map .event) (w'.session s).mailbox

/-- A step in which a debugger remembers what its threads were asked for, and in which nothing is
answered. -/
def Recalls (s : Nat) (w w' : World) : Prop :=
  ∀ d, (w.session s).debugger = some d → d.Orderly w.nextNumber → Remembered s w d w'

/-- What each step remembers a sequence of them remembers. -/
theorem steady_recalls (s : Nat) : Steady (Recalls s) where
  refl w d hd ho := ⟨Nat.le_refl _, ⟨d, hd, .refl d _, ho, id⟩, [], by simp, .refl _⟩
  trans h h' := by
    intro d hd ho
    obtain ⟨hn, ⟨d', hd', hr, ho', hu⟩, es, hes, hg⟩ := h d hd ho
    obtain ⟨hn', ⟨d'', hd'', hr', ho'', hu'⟩, es', hes', hg'⟩ := h' d' hd' ho'
    refine ⟨Nat.le_trans hn hn', ⟨d'', hd'', hr.trans hn hr', ho'', fun h => hu' (hu h)⟩, es ++ es',
      fun e he => (List.mem_append.mp he).elim (hes e) (hes' e), ?_⟩
    rw [List.map_append]
    exact hg.trans hg'

/-- What leaves a debugger as it is and answers nothing. -/
theorem recalls_of_gains (es : List Event)
    (hd : (w'.session s).debugger = (w.session s).debugger) (hn : w.nextNumber ≤ w'.nextNumber)
    (hes : ∀ e ∈ es, e.isAnswer = false)
    (hg : (w.session s).mailbox.Gains (es.map .event) (w'.session s).mailbox) : Recalls s w w' :=
  fun d hd₀ ho => ⟨hn, ⟨d, hd.trans hd₀, .refl d _, ho.mono hn, id⟩, es, hes, hg⟩

/-- A step that changes no session remembers all. -/
theorem recalls_beside (h : w'.sessions = w.sessions) (hn : w.nextNumber ≤ w'.nextNumber) :
    Recalls s w w' := by
  have hs : w'.session s = w.session s := by rw [session, session, h]
  exact recalls_of_gains [] (by rw [hs]) hn (by simp) (hs ▸ .refl _)

/-- A debugger that tells an event which answers nothing remembers all. -/
theorem recalls_fire (w : World) (s : Nat) {e : Event} (he : e.isAnswer = false) :
    Recalls s w (w.fire s e) := by
  unfold fire
  split
  · refine recalls_of_gains [e] ?_ (Nat.le_refl _) (by simpa using he) ?_
    · rw [session_send, if_pos rfl]
    · rw [session_send, if_pos rfl]
      exact Mailbox.gains_post _ _
  · exact (steady_recalls s).refl w

/-- A debugger may change as long as it remembers what its threads were asked for. -/
theorem recalls_of_debugger {f : Debugger → Debugger} (hn : w.nextNumber ≤ w'.nextNumber)
    (hs : w'.session s = { w.session s with debugger := (w.session s).debugger.map f })
    (hf : ∀ d, (w.session s).debugger = some d → d.Orderly w.nextNumber →
      d.Recalls w.nextNumber (f d) ∧ (f d).Orderly w'.nextNumber)
    (ha : ∀ d, (f d).attached = d.attached) : Recalls s w w' := by
  intro d hd ho
  obtain ⟨hr, ho'⟩ := hf d hd ho
  refine ⟨hn, ⟨f d, ?_, hr, ho', hr.upright (ha d)⟩, [], by simp, ?_⟩
  · rw [hs, hd]
    rfl
  · rw [hs]
    exact .refl _

/-- A debugger that changes but for what its threads were asked for remembers all. -/
theorem recalls_modifyDebugger {f : Debugger → Debugger}
    (hf : ∀ d, (w.session s).debugger = some d → d.Orderly w.nextNumber →
      d.Recalls w.nextNumber (f d) ∧ (f d).Orderly w.nextNumber)
    (ha : ∀ d, (f d).attached = d.attached) : Recalls s w (w.modifyDebugger s f) :=
  recalls_of_debugger (Nat.le_refl _) ((session_modifyDebugger ..).trans (if_pos rfl)) hf ha

/-- A table of breakpoints asks no thread for anything. -/
theorem recalls_of_executions {f : Debugger → Debugger}
    (hf : ∀ d, (f d).executions = d.executions) (ha : ∀ d, (f d).attached = d.attached) :
    Recalls s w (w.modifyDebugger s f) :=
  recalls_modifyDebugger (fun d _ ho => ⟨.of_executions (hf d), ho.congr (hf d)⟩) ha

/-- An execution may be replaced by one of the same thread that was asked for the same. -/
theorem recalls_putExecution {x' : Execution}
    (hx : ∀ d, (w.session s).debugger = some d → ∃ x ∈ d.executions, x'.Follows x) :
    Recalls s w (w.putExecution s x') := by
  refine recalls_modifyDebugger (fun d hd ho => ?_) fun _ => rfl
  obtain ⟨x, hx, hf⟩ := hx d hd
  exact ⟨Debugger.recalls_put hx hf, ho.put hx hf.owner hf.handle⟩

/-! ### Parts of calls -/

/-- A debugger that looks for a thread, or meets it, remembers all. -/
theorem recalls_executionOf (w : World) (i : Interpreter) :
    Recalls i.session w (w.executionOf i).2 := by
  unfold executionOf
  split
  · exact (steady_recalls _).refl w
  · next hnew =>
      refine recalls_of_debugger (f := (·.insert (.start i.id ⟨w.nextNumber, i.name⟩)))
        (Nat.le_succ _) ((session_modifyDebugger ..).trans (if_pos rfl)) (fun d hd ho => ?_)
        fun _ => rfl
      exact ⟨d.recalls_insert i.id i.name, ho.insert (debugger_eq hd ▸ hnew) i.name⟩

/-- Where there is a debugger, it has an execution for the thread. -/
theorem mem_executionOf {i : Interpreter}
    (hd : ((w.executionOf i).2.session i.session).debugger = some d) :
    (w.executionOf i).1 ∈ d.executions := by
  unfold executionOf at hd ⊢
  cases hx : (w.debugger i.session).ofOwner? i.id with
  | some x =>
      rw [hx] at hd
      exact Debugger.mem_of_ofOwner? (debugger_eq hd ▸ hx)
  | none =>
      rw [hx] at hd
      dsimp only at hd ⊢
      rw [debugger_modifyDebugger] at hd
      obtain ⟨d₀, -, rfl⟩ := Option.map_eq_some_iff.mp hd
      exact List.mem_append_right _ List.mem_cons_self

/-- A thread that changes within its call is remembered. -/
theorem recalls_modifyExecution (w : World) (i : Interpreter) {f : Execution → Execution}
    (hf : ∀ x, (f x).Follows x) : Recalls i.session w (w.modifyExecution i f) := by
  refine (steady_recalls _).trans (recalls_executionOf w i) (recalls_putExecution fun d hd => ?_)
  exact ⟨_, mem_executionOf hd, hf _⟩

/-- A thread that leaves an activation is remembered. -/
theorem recalls_popActivation (w : World) (i : Interpreter) :
    Recalls i.session w (w.popActivation i).2 :=
  recalls_modifyExecution w i (f := fun x => { x with stack := x.stack.tail })
    fun _ => ⟨rfl, rfl, rfl, id⟩

/-- A thread that comes to a line is remembered. -/
theorem recalls_reachLine (w : World) (i : Interpreter) (script : Script) (line : Nat) :
    Recalls i.session w (w.reachLine i script line).2 := by
  have h := steady_recalls i.session
  have hopen := recalls_executionOf w i
  simp only [reachLine]
  split
  · exact hopen
  · next top rest _ =>
      let u : World :=
        { (w.executionOf i).2 with marks := (w.executionOf i).2.marks.moveTo top line }
      have hmove : Recalls i.session w u := h.trans hopen (recalls_beside rfl (Nat.le_refl _))
      split
      · exact hmove
      · have hput : Recalls i.session u
            (u.putExecution i.session { (w.executionOf i).1 with suspendRequested := false }) :=
          recalls_putExecution fun d hd => ⟨_, mem_executionOf hd, rfl, rfl, rfl, id⟩
        exact h.trans hmove (h.trans hput (recalls_beside rfl (Nat.le_refl _)))

/-- A thread that ends is forgotten, and the others are remembered. -/
theorem recalls_finishThread (w : World) (i : Interpreter) :
    Recalls i.session w (w.finishThread i) := by
  unfold finishThread
  split
  · exact (steady_recalls _).refl w
  · have herase : Recalls i.session w (w.modifyDebugger i.session (·.erase i.id)) :=
      recalls_modifyDebugger (fun d _ ho => ⟨d.recalls_erase i.id, ho.erase i.id⟩) fun _ => rfl
    exact (steady_recalls _).trans herase (recalls_fire _ _ rfl)

/-! ### Threads that are released -/

/-- A thread that leaves a call is remembered. -/
theorem recalls_leaveCall (w : World) (s : Nat) (x : Execution) :
    Recalls s w (w.leaveCall s x) := by
  have h := steady_recalls s
  have hsay : Recalls s w ((w.setActor x.handle.name).trace "runtime"
      s!"{x.handle.name} resumed ({x.resumeKind.name})") := recalls_beside rfl (Nat.le_refl _)
  exact h.trans hsay (h.trans (recalls_fire _ s rfl) (recalls_beside rfl (Nat.le_refl _)))

/-- A request to resume a thread leaves what it was asked for. -/
theorem recalls_resumeExecution {kind : ResumeKind} {x : Execution}
    (hx : ∀ d, (w.session s).debugger = some d →
      ∃ y ∈ d.executions, { x with waiting := none }.Follows y) :
    Recalls s w (w.resumeExecution s kind x) := by
  have hput : Recalls s w (w.putExecution s (x.resume w.marks kind)) :=
    recalls_putExecution fun d hd => by
      obtain ⟨y, hy, hf⟩ := hx d hd
      have hresume := x.follows_resume w.marks kind
      exact ⟨y, hy, hresume.owner.trans hf.owner, hresume.handle.trans hf.handle,
        hresume.pending.trans hf.pending, fun hw => by simp at hw⟩
  unfold resumeExecution
  split
  · exact (steady_recalls s).trans hput (recalls_leaveCall _ s _)
  · exact hput

/-- The same for several threads, one after the other. -/
theorem recalls_foldl {kind : ResumeKind} {xs : List Execution}
    (hd : (w.session s).debugger = some d) (ho : d.Orderly w.nextNumber)
    (hxs : ∀ x ∈ xs, ∃ y ∈ d.executions, { x with waiting := none }.Follows y) :
    Remembered s w d (xs.foldl (fun w x => w.resumeExecution s kind x) w) := by
  induction xs generalizing w d with
  | nil => exact (steady_recalls s).refl w d hd ho
  | cons x xs ih =>
      have hfirst : Recalls s w (w.resumeExecution s kind x) := by
        refine recalls_resumeExecution fun d' hd' => ?_
        obtain rfl := Option.some.inj (hd.symm.trans hd')
        exact hxs x List.mem_cons_self
      obtain ⟨hn, ⟨d', hd', -, ho', hu⟩, es, hes, hg⟩ := hfirst d hd ho
      let x' := x.resume w.marks kind
      have hput : d' = d.put x' := by
        have hput := debugger_resumeExecution (s := s) w kind x
        rw [hd'] at hput
        rw [hd] at hput
        exact Option.some.inj hput
      -- What is to be resumed later is found where it was, or it was this one.
      have hrest : ∀ z ∈ xs, ∃ y ∈ d'.executions, { z with waiting := none }.Follows y := by
        intro z hz
        obtain ⟨y, hy, hf⟩ := hxs z (List.mem_cons_of_mem x hz)
        obtain ⟨y₀, hy₀, hf₀⟩ := hxs x List.mem_cons_self
        rw [hput]
        by_cases hsame : y.owner = x'.owner
        · have hx' := x.follows_resume w.marks kind
          have howner : y.owner = y₀.owner := hsame.trans (hx'.owner.trans hf₀.owner)
          obtain rfl := ho.eq_of_owner hy hy₀ howner
          refine ⟨x', Debugger.mem_put_self hy hsame, hf.owner.trans (hf₀.owner.symm.trans hx'.owner.symm),
            hf.handle.trans (hf₀.handle.symm.trans hx'.handle.symm),
            hf.pending.trans (hf₀.pending.symm.trans hx'.pending.symm), nofun⟩
        · exact ⟨y, Debugger.mem_put_of_ne hy hsame, hf⟩
      have htail := ih hd' ho' hrest
      have hall : Recalls s (w.resumeExecution s kind x)
          (xs.foldl (fun w x => w.resumeExecution s kind x) (w.resumeExecution s kind x)) := by
        intro d₂ hd₂ _
        obtain rfl := Option.some.inj (hd'.symm.trans hd₂)
        exact htail
      exact (steady_recalls s).trans hfirst hall d hd ho

/-- Threads that are resumed are remembered. -/
theorem recalls_resume (w : World) (s : Nat) (kind : ResumeKind) (thread : Option Handle) :
    Recalls s w (w.resume s kind thread) := by
  cases thread with
  | none =>
      intro d hd ho
      refine recalls_foldl hd ho fun x hx => ?_
      rw [debugger_eq hd] at hx
      exact ⟨x, hx, rfl, rfl, rfl, nofun⟩
  | some handle =>
      simp only [resume]
      split
      · next x hx =>
          refine recalls_resumeExecution fun d hd => ?_
          rw [debugger_eq hd] at hx
          exact ⟨x, Debugger.mem_of_ofHandle? hx, rfl, rfl, rfl, nofun⟩
      · exact recalls_beside rfl (Nat.le_refl _)

/-- A debugger that leaves remembers what its threads were asked for, although none of them will
serve it. -/
theorem recalls_detach (w : World) (s : Nat) : Recalls s w (w.detach s) := by
  intro d hd ho
  let u := w.modifyDebugger s Debugger.silence
  have hs : u.session s
      = { w.session s with debugger := (w.session s).debugger.map Debugger.silence } :=
    (session_modifyDebugger ..).trans (if_pos rfl)
  have hu : (u.session s).debugger = some d.silence := by
    rw [hs, hd]
    rfl
  have hfold : Remembered s u d.silence ((u.debugger s).executions.foldl
      (fun w x => w.resumeExecution s .clientRequest x) u) := by
    refine recalls_foldl hu (ho.congr rfl) fun x hx => ?_
    rw [debugger_eq hu] at hx
    exact ⟨x, hx, rfl, rfl, rfl, nofun⟩
  obtain ⟨hn, ⟨d', hd', hr, ho', -⟩, es, hes, hg⟩ := hfold
  have hd' : ((w.detach s).session s).debugger = some d' := hd'
  refine ⟨hn, ⟨d', hd', hr, ho', fun _ x hx hw => ?_⟩, es, hes, ?_⟩
  · rw [(gone_detach w hd').free x hx] at hw
    cases hw
  · rw [hs] at hg
    exact hg

/-- An interpreter that ends has its debugger forget all threads. -/
theorem recalls_finishEngine (w : World) (s : Nat) : Recalls s w (w.finishEngine s) := by
  have h := steady_recalls s
  refine h.trans (recalls_fire w s (e := .engineTerminated) rfl)
    (h.trans (recalls_detach _ s) (recalls_modifyDebugger (fun d _ _ => ?_) fun _ => rfl))
  exact ⟨fun x hx => absurd hx List.not_mem_nil, ⟨nofun, nofun, nofun⟩⟩

/-! ### Parts of requests -/

/-- Threads that are asked to stop are remembered. -/
theorem recalls_askToSuspend (w : World) (s : Nat) (thread : Option Handle) :
    Recalls s w (w.askToSuspend s thread) := by
  obtain ⟨f, hf, hrun⟩ := askToSuspend_eq w s thread
  have hfollows : ∀ x, (f x).Follows x := by
    intro x
    obtain hx | hx := hf x <;> rw [hx]
    · exact .refl x
    · exact ⟨rfl, rfl, rfl, id⟩
  rw [hrun]
  exact recalls_modifyDebugger (fun d _ ho => ⟨d.recalls_map hfollows,
    ho.map f (fun x => (hfollows x).owner) fun x => (hfollows x).handle⟩) fun _ => rfl

/-- A breakpoint that is put down lets all threads be remembered. -/
theorem recalls_updateTable (w : World) (s : Nat) (script : Script) (p : Breakpoint)
    (mode : BreakpointMode) : Recalls s w (w.updateTable s script p mode) := by
  cases mode <;> exact recalls_of_executions (fun _ => rfl) fun _ => rfl

end World

namespace Bridge

open World

variable {σ : Type} [Inhabited σ] [Engine σ]

/-- An engine that is asked to terminate has its debugger forget all threads. -/
theorem recalls_terminate (b : Bridge σ) (s : Nat) : Recalls s b.world (b.terminate s).world := by
  have h := steady_recalls s
  unfold terminate
  cases hask : (b.onWorld (·.clearTable s)).askEngine s Engine.terminate with
  | mk result u =>
      have hu : Recalls s b.world u.world := by
        have hworld : u.world = b.world.clearTable s := (congrArg (·.2.world) hask).symm
        rw [hworld]
        exact recalls_of_executions (fun _ => rfl) fun _ => rfl
      have hend : ∀ w, Recalls s b.world w →
          Recalls s b.world ((w.fire s .engineTerminated).detach s) := fun w hw =>
        h.trans hw (h.trans (recalls_fire w s rfl) (recalls_detach _ s))
      cases result with
      | ok _ => exact hend u.world hu
      | error causes =>
          let text := "terminate request: " ++ (Failure.engine causes).message
          exact hend (u.warn text).world (h.trans hu (recalls_beside rfl (Nat.le_refl _)))

end Bridge

end DebugBridge
