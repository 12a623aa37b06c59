import Mathlib.Data.List.Nodup
import DebugBridge.Proofs.Lifetime

/-!
# What a step leads to

Messages lead to others: a script that is ready is answered, a thread that goes on says so, and what
a thread is asked for it answers. How many can still follow from the messages that wait and from the
executions of a session is bounded by a number. Each step of the interpreter side raises it by no
more than was foreseen for the call or the request that made it.

## Main definitions

* `World.InOrder`: a session whose messages are delivered;
* `World.load`: a bound on what follows from the messages that wait and from the executions;
* `World.Costs`: a step of the interpreter side that raises the bound by a number at most.

## Main results

* `costs_perform`, `costs_receive`: what a call and a request raise the bound by.
-/

namespace DebugBridge

-- Sums start from the zero of core, whatever algebra is in scope.
attribute [local instance (high)] Zero.ofOfNat0

/-- An element that takes the place of another changes its own summand and no other. -/
theorem sum_map_replace {α : Type} (key f : α → Nat) {xs : List α} (hk : (xs.map key).Nodup)
    {x y : α} (hy : y ∈ xs) (hkey : key y = key x) :
    ((xs.map fun z => if key z = key x then x else z).map f).sum + f y
      = (xs.map f).sum + f x := by
  induction xs with
  | nil => cases hy
  | cons z xs ih =>
      obtain ⟨hz, hk⟩ := List.nodup_cons.mp hk
      simp only [List.map_cons, List.sum_cons]
      rcases List.mem_cons.mp hy with rfl | hy
      · have hrest : (xs.map fun z => if key z = key x then x else z) = xs := by
          have hkeep : ∀ z ∈ xs, (if key z = key x then x else z) = z := fun z hmem =>
            if_neg fun he => hz (List.mem_map.mpr ⟨z, hmem, he.trans hkey.symm⟩)
          exact (List.map_congr_left hkeep).trans (List.map_id xs)
        rw [hrest, if_pos hkey]
        omega
      · have hne : key z ≠ key x := fun he => hz (List.mem_map.mpr ⟨y, hy, hkey.trans he.symm⟩)
        have hrest := ih hk hy
        rw [if_neg hne]
        omega

/-- What is dropped from a list makes its sum no greater. -/
theorem sum_map_filter_le {α : Type} (f : α → Nat) (p : α → Bool) (xs : List α) :
    ((xs.filter p).map f).sum ≤ (xs.map f).sum := by
  induction xs with
  | nil => exact Nat.le_refl _
  | cons x xs ih =>
      rw [List.filter_cons]
      split <;> simp only [List.map_cons, List.sum_cons] <;> omega

namespace Debugger

/-- The execution of a thread is found if no thread has two. -/
theorem Distinct.ofOwner?_eq {d : Debugger} (h : d.Distinct) {x : Execution}
    (hx : x ∈ d.executions) : d.ofOwner? x.owner = some x := by
  cases hf : d.ofOwner? x.owner with
  | none => simpa using List.find?_eq_none.mp hf x hx
  | some y =>
      have hy := mem_of_ofOwner? hf
      exact congrArg some (List.inj_on_of_nodup_map h hy hx (owner_of_ofOwner? hf))

end Debugger

namespace World

variable {n s : Nat} {w w' : World} {d : Debugger}

/-! ### Sessions whose messages are delivered -/

/-- A session that is held, with a mailbox in order and a debugger to which no thread is known
twice. -/
structure InOrder (w : World) (s : Nat) : Prop where
  alive : (w.session s).alive = true
  present : (w.session s).debugger.isSome = true
  isOpen : (w.session s).mailbox.isOpen = true
  unmarked : isMarked (w.session s).mailbox.queue = false
  distinct : ∀ d, (w.session s).debugger = some d → d.Distinct

/-- A debugger in order knows no thread twice. -/
theorem InOrder.distinct_debugger (h : w.InOrder s) : (w.debugger s).Distinct :=
  h.distinct _ (debugger_of_isSome h.present)

/-- What is gained is behind all that waits. -/
theorem InOrder.mail_gains (h : w.InOrder s) {ms : List Message}
    (hg : (w.session s).mailbox.Gains ms (w'.session s).mailbox) : w'.mail s = w.mail s ++ ms := by
  unfold mail
  rw [hg.queue h.isOpen, deliverable_append_of_not_isMarked _ _ h.unmarked, deliverable_message]

/-- A session is in order after its mailbox gained messages. -/
theorem InOrder.gains (h : w.InOrder s) (ha : (w'.session s).alive = (w.session s).alive)
    (hp : (w'.session s).debugger.isSome = (w.session s).debugger.isSome) {ms : List Message}
    (hg : (w.session s).mailbox.Gains ms (w'.session s).mailbox)
    (hd : ∀ d, (w'.session s).debugger = some d → d.Distinct) : w'.InOrder s where
  alive := ha.trans h.alive
  present := hp.trans h.present
  isOpen := hg.isOpen.trans h.isOpen
  unmarked := by rw [hg.queue h.isOpen, isMarked_append_message, h.unmarked]
  distinct := hd

/-- A session is in order after a step of its interpreter side. -/
theorem InOrder.tells (h : w.InOrder s) (ht : Tells s w w') : w'.InOrder s := by
  obtain ⟨es, hg, -⟩ := ht.here.mailbox
  refine h.gains (congrArg Session.alive ht.here.model :) ht.here.present hg fun d' hd' => ?_
  obtain ⟨d, hd, hyields⟩ := ht.here.debugger d' hd'
  exact hyields.distinct (h.distinct d hd)

/-- A session is in order if mailbox and debugger stay as they are. -/
theorem InOrder.same (h : w.InOrder s) (hl : (w'.session s).alive = (w.session s).alive)
    (hbox : (w'.session s).mailbox = (w.session s).mailbox)
    (hd : (w'.session s).debugger = (w.session s).debugger) : w'.InOrder s :=
  ⟨hl.trans h.alive, hd ▸ h.present, hbox ▸ h.isOpen, hbox ▸ h.unmarked, hd ▸ h.distinct⟩

/-- A session is in order after requests were posted to it. -/
theorem InOrder.posted (h : w.InOrder s) {rs : List Request}
    (hp : (w.session s).Posted rs (w'.session s)) : w'.InOrder s :=
  h.gains hp.alive (by rw [hp.debugger]) hp.mailbox fun d hd => h.distinct d (hp.debugger.symm.trans hd)

/-- A session is in order after its oldest message was taken, and has the rest. -/
theorem InOrder.takes {u : World} (h : w.InOrder s) (hu : Takes s w u) {m : Message}
    (hm : (w.session s).mailbox.take.1 = some m) : u.InOrder s ∧ w.mail s = m :: u.mail s := by
  refine ⟨⟨?_, ?_, (hu.isOpen h.unmarked).trans h.isOpen, hu.unmarked hm h.unmarked,
    fun d hd => h.distinct d ?_⟩, hu.mail_eq hm⟩
  · rw [hu.here]; exact h.alive
  · rw [hu.here]; exact h.present
  · rw [hu.here] at hd
    exact hd

/-! ### A bound on what follows -/

open Bridge (messageLoad executionLoad callLoad)

/-- A bound on the messages that follow from those that wait and from the executions of a session,
where a script has at most a number of breakpoints. -/
def load (w : World) (n s : Nat) : Nat :=
  ((w.mail s).map (messageLoad n)).sum + ((w.debugger s).executions.map executionLoad).sum

/-- The bound depends on what waits and on the debugger only. -/
theorem load_congr (hm : w'.mail s = w.mail s)
    (hd : (w'.session s).debugger = (w.session s).debugger) : w'.load n s = w.load n s := by
  rw [load, load, hm, debugger, debugger, hd]

/-- The bound of a session is the same where the session is. -/
theorem load_of_session (h : w'.session s = w.session s) : w'.load n s = w.load n s :=
  load_congr (by rw [mail, mail, h]) (by rw [h])

/-- A step of the interpreter side after which the bound is higher by a number at most. -/
structure Costs (n s k : Nat) (w w' : World) : Prop where
  tells : Tells s w w'
  load : w'.load n s ≤ w.load n s + k

/-- What two steps cost is added up. -/
theorem Costs.trans {k l : Nat} {u v w : World} (h : Costs n s k u v) (h' : Costs n s l v w) :
    Costs n s (k + l) u w := by
  have := h.load
  have := h'.load
  exact ⟨(steady_tells s).trans h.tells h'.tells, by omega⟩

/-- A step costs no more than what was allowed. -/
theorem Costs.mono {k l : Nat} (h : Costs n s k w w') (hkl : k ≤ l) : Costs n s l w w' :=
  ⟨h.tells, Nat.le_trans h.load (Nat.add_le_add_left hkl _)⟩

/-- What shows in no session costs nothing. -/
theorem costs_beside (ht : Tells s w w') (h : w'.sessions = w.sessions) : Costs n s 0 w w' :=
  ⟨ht, Nat.le_of_eq (load_of_session (by rw [session, session, h]))⟩

/-- What is traced costs nothing. -/
theorem costs_trace (w : World) (topic text : String) : Costs n s 0 w (w.trace topic text) :=
  costs_beside (speaks_trace w topic text).toTells rfl

/-- What is logged costs nothing. -/
theorem costs_log (w : World) (level : Level) (topic text : String) :
    Costs n s 0 w (w.log level topic text) :=
  costs_beside (speaks_log w level topic text).toTells rfl

/-- Who is at work costs nothing. -/
theorem costs_setActor (w : World) (actor : Option String) : Costs n s 0 w (w.setActor actor) :=
  costs_beside (speaks_setActor w actor).toTells rfl

/-- An event costs what follows from it, and nothing if nobody is there to tell it. -/
theorem costs_fire (h : w.InOrder s) (e : Event) :
    Costs n s (messageLoad n (.event e)) w (w.fire s e) := by
  refine ⟨(speaks_fire w s e).toTells, ?_⟩
  unfold fire
  split
  · next ha =>
      have hspeaks := speaks_send w ha e
      have hs : (w.send s (.event e)).session s
          = { w.session s with mailbox := (w.session s).mailbox.post (.event e) } := by
        rw [session_send, if_pos rfl]
      have hmail : (w.send s (.event e)).mail s = w.mail s ++ [.event e] :=
        h.mail_gains (by rw [hs]; exact Mailbox.gains_post _ _)
      rw [load, load, hmail, debugger, hspeaks.same]
      simp only [List.map_append, List.map_cons, List.map_nil, List.sum_append, List.sum_cons,
        List.sum_nil, debugger]
      omega
  · exact Nat.le_add_right _ _

/-- A debugger whose executions lead to no more than before costs nothing. -/
theorem costs_modifyDebugger (w : World) (f : Debugger → Debugger)
    (hf : ∀ d, (w.session s).debugger = some d → d.Yields (f d))
    (hload : ∀ d, (w.session s).debugger = some d →
      ((f d).executions.map executionLoad).sum ≤ (d.executions.map executionLoad).sum) :
    Costs n s 0 w (w.modifyDebugger s f) := by
  refine ⟨tells_modifyDebugger w f hf, ?_⟩
  have hs : (w.modifyDebugger s f).session s
      = { w.session s with debugger := (w.session s).debugger.map f } := by
    rw [session_modifyDebugger, if_pos rfl]
  have hmail : (w.modifyDebugger s f).mail s = w.mail s := by
    rw [mail, mail, hs]
  rw [load, load, hmail, debugger, debugger, hs]
  cases hd : (w.session s).debugger with
  | none => exact Nat.le_refl _
  | some d => exact Nat.add_le_add_left (hload d hd) _

/-- The execution of a thread that is replaced leads to what the new one leads to. -/
theorem load_putExecution (h : w.InOrder s) {x y : Execution}
    (hy : (w.debugger s).ofOwner? x.owner = some y) :
    (w.putExecution s x).load n s + executionLoad y = w.load n s + executionLoad x := by
  have hs : (w.putExecution s x).session s
      = { w.session s with debugger := (w.session s).debugger.map (·.put x) } := by
    rw [putExecution, session_modifyDebugger, if_pos rfl]
  have hmail : (w.putExecution s x).mail s = w.mail s := by
    rw [mail, mail, hs]
  cases hd : (w.session s).debugger with
  | none =>
      rw [debugger, hd] at hy
      cases hy
  | some d =>
      rw [debugger_eq hd] at hy
      have hput : (w.putExecution s x).debugger s = d.put x := by
        rw [debugger, hs, hd]
        rfl
      have hsum := sum_map_replace Execution.owner executionLoad (h.distinct d hd)
        (Debugger.mem_of_ofOwner? hy) (Debugger.owner_of_ofOwner? hy)
      rw [load, load, hmail, hput, debugger_eq hd]
      simp only [Debugger.put]
      omega

/-- An execution that is put back costs what it has more to do than before. -/
theorem costs_putExecution (h : w.InOrder s) {x y : Execution} {k : Nat}
    (hy : (w.debugger s).ofOwner? x.owner = some y)
    (hx : (w.debugger s).Gone → x.waiting = none) (hk : executionLoad x ≤ executionLoad y + k) :
    Costs n s k w (w.putExecution s x) := by
  have hload := load_putExecution (n := n) h hy
  exact ⟨tells_putExecution w hx, by omega⟩

/-- A thread that is seen for the first time leads to nothing. -/
theorem costs_executionOf (w : World) (i : Interpreter) :
    Costs n i.session 0 w (w.executionOf i).2 := by
  refine ⟨tells_executionOf w i, ?_⟩
  unfold executionOf
  split
  · exact Nat.le_refl _
  · next hnew =>
      have hnumber : w.number.2.load n i.session = w.load n i.session := load_of_session rfl
      have hinsert := costs_modifyDebugger (n := n) (s := i.session) w.number.2
        (·.insert (.start i.id ⟨w.nextNumber, i.name⟩))
        (fun d hd => d.yields_insert (debugger_eq (w := w) hd ▸ hnew) rfl) fun d _ => by
          simp [Debugger.insert, executionLoad, Execution.start]
      exact hnumber ▸ hinsert.load

/-- The execution of a thread is there once it was asked for, if there is a debugger. -/
theorem ofOwner?_executionOf (w : World) (i : Interpreter)
    (hd : (w.session i.session).debugger.isSome = true) :
    ((w.executionOf i).2.debugger i.session).ofOwner? i.id = some (w.executionOf i).1 := by
  obtain ⟨d', hworks, hx, -⟩ := @works_executionOf [] _ w i (debugger_of_isSome hd)
  rw [debugger_eq hworks.debugger]
  exact hx

/-- A thread that goes on says so, and does not wait any more. -/
theorem costs_resumeExecution (h : w.InOrder s) (kind : ResumeKind) {x : Execution}
    (hx : (w.debugger s).ofOwner? x.owner = some x) :
    Costs n s 0 w (w.resumeExecution s kind x) := by
  let y := x.resume w.marks kind
  have hy : (w.debugger s).ofOwner? y.owner = some x := by
    rw [Execution.owner_resume]
    exact hx
  have hput := load_putExecution (n := n) h hy
  have hpending : y.pending = x.pending := by
    dsimp only [y]
    unfold Execution.resume
    split <;> rfl
  have hloady : executionLoad y = x.pending.length := by
    simp [executionLoad, hpending, y]
  refine ⟨tells_resumeExecution w kind x, ?_⟩
  unfold resumeExecution
  split
  · next hw =>
      have hloadx : executionLoad x = x.pending.length + 1 := by
        rw [executionLoad, if_pos hw]
      have hin : (w.putExecution s y).InOrder s := h.tells (tells_putExecution w fun _ => by simp [y])
      have hactor : ((w.putExecution s y).setActor y.handle.name).InOrder s := hin.same rfl rfl rfl
      have hleave : ((w.putExecution s y).leaveCall s y).load n s
          ≤ (w.putExecution s y).load n s + 1 :=
        (costs_fire (n := n) (hactor.tells (speaks_trace _ "runtime"
          s!"{y.handle.name} resumed ({y.resumeKind.name})").toTells)
          (.resumed y.handle y.resumeKind)).load
      change ((w.putExecution s y).leaveCall s y).load n s ≤ _
      omega
  · next hw =>
      have hloadx : executionLoad x = x.pending.length := by
        rw [executionLoad, if_neg hw, Nat.add_zero]
      change (w.putExecution s y).load n s ≤ _
      omega

/-- Threads that go on one after the other. -/
theorem costs_foldl_resume (kind : ResumeKind) (xs : List Execution) (h : w.InOrder s)
    (hxs : (xs.map Execution.owner).Nodup)
    (hx : ∀ x ∈ xs, (w.debugger s).ofOwner? x.owner = some x) :
    Costs n s 0 w (xs.foldl (fun w x => w.resumeExecution s kind x) w) := by
  induction xs generalizing w with
  | nil => exact ⟨(steady_tells s).refl w, Nat.le_refl _⟩
  | cons x xs ih =>
      obtain ⟨hnew, hxs⟩ := List.nodup_cons.mp hxs
      have hfirst := costs_resumeExecution (n := n) h kind (hx x List.mem_cons_self)
      refine hfirst.trans (ih (h.tells hfirst.tells) hxs fun y hy => ?_)
      have hne : (x.resume w.marks kind).owner ≠ y.owner := by
        rw [Execution.owner_resume]
        exact fun he => hnew (List.mem_map.mpr ⟨y, hy, he.symm⟩)
      have hdebugger := debugger_resumeExecution (s := s) w kind x
      have hfound := hx y (List.mem_cons_of_mem _ hy)
      cases hd : (w.session s).debugger with
      | none =>
          rw [debugger, hd] at hfound
          cases hfound
      | some d =>
          rw [hd] at hdebugger
          rw [debugger_eq hd] at hfound
          rw [debugger_eq hdebugger, Debugger.ofOwner?_put, if_neg hne]
          exact hfound

/-- A debugger that leaves costs nothing. -/
theorem costs_detach (h : w.InOrder s) : Costs n s 0 w (w.detach s) := by
  have hsilent : Costs n s 0 w (w.modifyDebugger s Debugger.silence) :=
    costs_modifyDebugger w _ (fun d _ => d.yields_silence) fun _ _ => Nat.le_refl _
  let u := w.modifyDebugger s Debugger.silence
  have hu : u.InOrder s := h.tells hsilent.tells
  have hfree := costs_foldl_resume (n := n) .clientRequest (u.debugger s).executions hu
    hu.distinct_debugger fun x hx => hu.distinct_debugger.ofOwner?_eq hx
  let v := (u.debugger s).executions.foldl (fun w x => w.resumeExecution s .clientRequest x) u
  have hlog : Costs n s 0 v (w.detach s) := costs_trace v "runtime" "debugger detached"
  exact hsilent.trans (hfree.trans hlog)

/-- To resume threads costs nothing: they have less to do than before. -/
theorem costs_resume (h : w.InOrder s) (kind : ResumeKind) (thread : Option Handle) :
    Costs n s 0 w (w.resume s kind thread) := by
  cases thread with
  | none =>
      exact costs_foldl_resume kind _ h h.distinct_debugger fun x hx =>
        h.distinct_debugger.ofOwner?_eq hx
  | some handle =>
      unfold resume
      dsimp only
      split
      · next x hx =>
          exact costs_resumeExecution h kind
            (h.distinct_debugger.ofOwner?_eq (Debugger.mem_of_ofHandle? hx))
      · exact costs_trace _ _ _

/-- A thread that changes within its call costs nothing. -/
theorem costs_modifyExecution {i : Interpreter} (h : w.InOrder i.session) (f : Execution → Execution)
    (hf : ∀ x, (f x).waiting = x.waiting ∧ (f x).pending = x.pending ∧ (f x).owner = x.owner) :
    Costs n i.session 0 w (w.modifyExecution i f) := by
  let x := (w.executionOf i).1
  let u := (w.executionOf i).2
  have hopen : Costs n i.session 0 w u := costs_executionOf w i
  have hx : (u.debugger i.session).ofOwner? i.id = some x := ofOwner?_executionOf w i h.present
  obtain ⟨hwaiting, hpending, howner⟩ := hf x
  have hfound : (u.debugger i.session).ofOwner? (f x).owner = some x := by
    rw [howner, Debugger.owner_of_ofOwner? hx]
    exact hx
  have hk : executionLoad (f x) ≤ executionLoad x + 0 := by
    rw [executionLoad, executionLoad, hwaiting, hpending]
    exact Nat.le_refl _
  have hput : Costs n i.session 0 u (u.putExecution i.session (f x)) :=
    costs_putExecution (h.tells hopen.tells) hfound
      (fun hgone => hwaiting.trans (waiting_executionOf w i hgone)) hk
  exact hopen.trans hput

/-- A thread that comes to a line costs nothing. -/
theorem costs_reachLine {i : Interpreter} (h : w.InOrder i.session) (script : Script)
    (line : Nat) :
    Costs n i.session 0 w (w.reachLine i script line).2 := by
  have hopen := costs_executionOf (n := n) w i
  simp only [reachLine]
  split
  · exact hopen
  · next top rest _ =>
      let x := (w.executionOf i).1
      let u : World :=
        { (w.executionOf i).2 with marks := (w.executionOf i).2.marks.moveTo top line }
      have hmove : Costs n i.session 0 w u := by
        have hmarks : Tells i.session (w.executionOf i).2 u :=
          .of_sessions rfl rfl rfl (Nat.le_refl _) (.beside rfl rfl rfl)
        exact hopen.trans (costs_beside hmarks rfl)
      have hx : (u.debugger i.session).ofOwner? x.owner = some x := by
        have hfound := ofOwner?_executionOf w i h.present
        have howner : x.owner = i.id := Debugger.owner_of_ofOwner? hfound
        rw [howner]
        exact hfound
      split
      · exact hmove
      · have hput : Costs n i.session 0 u
            (u.putExecution i.session { x with suspendRequested := false }) :=
          costs_putExecution (h.tells hmove.tells) hx (waiting_executionOf w i) (Nat.le_refl _)
        exact hmove.trans (hput.trans (costs_trace _ _ _))

/-- A thread that ends costs the word that it ends. -/
theorem costs_finishThread {i : Interpreter} (h : w.InOrder i.session) :
    Costs n i.session 1 w (w.finishThread i) := by
  unfold finishThread
  split
  · exact ⟨(steady_tells _).refl w, Nat.le_add_right _ _⟩
  · next x _ =>
      have herase : Costs n i.session 0 w (w.modifyDebugger i.session (·.erase i.id)) :=
        costs_modifyDebugger w _ (fun d _ => d.yields_erase i.id) fun d _ =>
          sum_map_filter_le executionLoad _ d.executions
      exact herase.trans (costs_fire (h.tells herase.tells) (.threadTerminated x.handle))

/-- An interpreter that ends costs the word that it ends. -/
theorem costs_finishEngine (h : w.InOrder s) : Costs n s 1 w (w.finishEngine s) := by
  have hfire := costs_fire (n := n) h .engineTerminated
  have hdetach := hfire.trans (costs_detach (n := n) (h.tells hfire.tells))
  have hforget : Costs n s 0 ((w.fire s .engineTerminated).detach s) (w.finishEngine s) :=
    costs_modifyDebugger _ _ (fun d _ => d.yields_forget) fun _ _ => Nat.zero_le _
  exact hdetach.trans hforget

/-- A breakpoint that is put down costs nothing. -/
theorem costs_updateTable (w : World) (script : Script) (p : Breakpoint) (mode : BreakpointMode) :
    Costs n s 0 w (w.updateTable s script p mode) := by
  refine costs_modifyDebugger w _ (fun d _ => ?_) fun d _ => ?_
  · cases mode with
    | add => exact d.yields_table _
    | remove => exact d.yields_table _
  · cases mode <;> exact Nat.le_refl _

/-- A thread that is asked to stop costs nothing. -/
theorem costs_askToSuspend (w : World) (thread : Option Handle) :
    Costs n s 0 w (w.askToSuspend s thread) := by
  obtain ⟨f, hf, hrun⟩ := askToSuspend_eq w s thread
  rw [hrun]
  refine costs_modifyDebugger w _ (fun d _ => d.yields_asks hf) fun d _ => ?_
  have hsame : ∀ x, executionLoad (f x) = executionLoad x := by
    intro x
    obtain hx | hx := hf x <;> rw [hx]
    rfl
  rw [List.map_map]
  exact Nat.le_of_eq (congrArg List.sum (List.map_congr_left fun x _ => hsame x))

end World

/-! ### Calls and requests -/

namespace Bridge

open World

variable {σ : Type} [Inhabited σ] [Engine σ] {n s : Nat} {b : Bridge σ}

/-- A step of an engine that shows neither in a session nor in the work of a thread. -/
structure Inward (b b' : Bridge σ) : Prop where
  sessions : b'.world.sessions = b.world.sessions
  interpreters : b'.interpreters = b.interpreters

/-- An expression is evaluated inwardly. -/
theorem inward_evaluate (b : Bridge σ) (frame : FrameRef) (expression : String) :
    b.Inward (b.evaluate s frame expression).2 := by
  unfold evaluate askEngine
  dsimp only
  split
  · next b' h =>
      obtain ⟨-, rfl⟩ := Prod.mk.inj h
      exact ⟨rfl, rfl⟩
  · next draft b' h =>
      obtain ⟨-, rfl⟩ := Prod.mk.inj h
      exact ⟨rfl, rfl⟩

/-- An assignment is tried inwardly. -/
theorem inward_tryAssign (b : Bridge σ) (frame : FrameRef) (name expression : String) :
    b.Inward (b.tryAssign s frame name expression) := by
  have hvalue := inward_evaluate (s := s) b frame expression
  have hassign : b.Inward (b.assign s frame name expression).2 := by
    unfold assign
    split
    · next h => rwa [h] at hvalue
    · next h =>
        rw [h] at hvalue
        exact ⟨hvalue.sessions, hvalue.interpreters⟩
  unfold tryAssign
  split
  · next h => rwa [h] at hassign
  · next h =>
      rw [h] at hassign
      exact ⟨hassign.sessions, hassign.interpreters⟩

/-- Variables that are reported cost one message. -/
theorem costs_reportVariables (h : b.world.InOrder s) (frame : FrameRef) :
    Costs n s 1 b.world (b.reportVariables s frame).world := by
  unfold reportVariables askEngine
  dsimp only
  split
  · next b' h =>
      obtain ⟨-, rfl⟩ := Prod.mk.inj h
      exact (costs_log b.world _ _ _).mono (Nat.zero_le _)
  · next reports b' hb =>
      obtain ⟨-, rfl⟩ := Prod.mk.inj hb
      have hmade := speaks_onHeap (s := s) b.world (.mapM careful_make reports)
      exact (costs_beside hmade.toTells rfl).trans
        (costs_fire (h.tells hmade.toTells) (.frameVariables frame _))

/-- What is served is answered by one event at most. -/
theorem costs_serve (h : b.world.InOrder s) (x : Execution) (r : Request) :
    Costs n s 1 b.world (b.serve s x r).world := by
  have hlog : ∀ topic text, Costs n s 1 b.world (b.world.trace topic text) := fun _ _ =>
    (costs_trace _ _ _).mono (Nat.zero_le _)
  cases r with
  | getStackFrames thread => exact costs_fire h (.stackFrames x.handle x.stack)
  | getVariables frame => exact costs_reportVariables h frame
  | setVariable context binding name expression =>
      unfold serve
      dsimp only
      split
      · exact (costs_log b.world _ _ _).mono (Nat.zero_le _)
      · next frame _ =>
          have hassign := speaks_tryAssign (s := s) b frame name expression
          have hfree : Costs n s 0 b.world (b.tryAssign s frame name expression).world :=
            costs_beside hassign.toTells (inward_tryAssign b frame name expression).sessions
          exact hfree.trans (costs_reportVariables (h.tells hassign.toTells) frame)
  | evaluate expression frame thread listener =>
      have hvalue := speaks_evaluate (s := s) b frame expression
      have hfree : Costs n s 0 b.world (b.evaluate s frame expression).2.world :=
        costs_beside hvalue.toTells (inward_evaluate b frame expression).sessions
      exact hfree.trans (costs_fire (h.tells hvalue.toTells)
        (.evaluated expression frame (b.evaluate s frame expression).1 listener))
  | _ => exact hlog _ _

/-- What a thread serves that was put off is taken out of what is put off. -/
theorem costs_serveAll (x : Execution) (rs : List Request) {b : Bridge σ} (h : b.world.InOrder s)
    (ha : (b.world.debugger s).attached = true)
    (hx : (b.world.debugger s).ofOwner? x.owner = some { x with pending := rs }) :
    Costs n s 0 b.world (serveAll s x rs b).world := by
  induction rs generalizing b with
  | nil => exact ⟨(steady_tells s).refl _, Nat.le_refl _⟩
  | cons r rs ih =>
      let y : Execution := { x with pending := rs }
      let u := b.onWorld (·.putExecution s y)
      have hput : Tells s b.world u.world := tells_putExecution b.world fun hgone => by
        rw [hgone.attached] at ha
        cases ha
      have hload : u.world.load n s + executionLoad { x with pending := r :: rs }
          = b.world.load n s + executionLoad y := load_putExecution (x := y) h hx
      have hless : executionLoad { x with pending := r :: rs } = executionLoad y + 1 := by
        simp only [executionLoad, y, List.length_cons]
        omega
      have hu := h.tells hput
      have hserve := costs_serve (n := n) hu x r
      have hdebugger : ((u.serve s x r).world.session s).debugger
          = some ((b.world.debugger s).put y) := by
        rw [(speaks_serve u x r).same]
        have hd := debugger_modifyDebugger (s := s) b.world (·.put y)
        rw [debugger_of_attached ha] at hd
        exact hd
      have hrest := ih (b := u.serve s x r) (hu.tells hserve.tells)
        (by rw [debugger_eq hdebugger]; exact ha)
        (by rw [debugger_eq hdebugger]; exact ofOwner?_put_self hx rfl)
      have htells := (steady_tells s).trans hput ((steady_tells s).trans hserve.tells hrest.tells)
      refine ⟨htells, ?_⟩
      have := hserve.load
      have := hrest.load
      change (serveAll s x rs (u.serve s x r)).world.load n s ≤ _
      omega

/-- What a thread is asked for is answered by one event, now or later. -/
theorem costs_enqueue (h : b.world.InOrder s) (handle : Handle) (r : Request) :
    Costs n s 1 b.world (b.enqueue s handle r).world := by
  unfold enqueue
  split
  · exact (costs_trace _ _ _).mono (Nat.zero_le _)
  · next x hx =>
      split
      · let u := b.onWorld (·.setActor x.handle.name)
        have hactor : Costs n s 0 b.world u.world :=
          costs_setActor _ _
        have hserve := hactor.trans (costs_serve (b := u) (h.tells hactor.tells) x r)
        have hback : Costs n s 0 (u.serve s x r).world
            (b.actAs x.handle.name (·.serve s x r)).world :=
          costs_setActor (u.serve s x r).world b.world.journal.interpreter
        exact hserve.trans hback
      · next hw =>
          have hfound := h.distinct_debugger.ofOwner?_eq (Debugger.mem_of_ofHandle? hx)
          refine costs_putExecution h hfound (fun _ => by simpa using hw) ?_
          simp only [executionLoad, List.length_append, List.length_cons, List.length_nil]
          omega

/-- A thread that is held up will say that it goes on. -/
theorem costs_suspend {i : Interpreter} (h : b.world.InOrder i.session) (gate : Gate)
    (event : Execution → Event) {k : Nat}
    (hk : ∀ x, messageLoad n (.event (event x)) ≤ k) :
    Costs n i.session (k + 1) b.world (b.suspend i gate event).world := by
  cases ha : (b.world.debugger i.session).attached with
  | false =>
      rw [suspend_of_unattached b i gate event ha]
      exact ⟨(steady_tells _).refl _, Nat.le_add_right _ _⟩
  | true =>
      let x := (b.world.executionOf i).1
      let y : Execution := { x with waiting := some gate }
      let u := (b.world.executionOf i).2
      let v := u.putExecution i.session y
      let w := v.fire i.session (event y)
      let c : Bridge σ := { b with world := w.trace "runtime" (i.name ++ " suspended") }
      have hrun : b.suspend i gate event = serveAll i.session y y.pending c :=
        suspend_eq ha rfl gate event
      have hopen := costs_executionOf (n := n) b.world i
      have hu : (u.debugger i.session).attached = true := (attached_executionOf b.world i).trans ha
      have hx : (u.debugger i.session).ofOwner? i.id = some x :=
        ofOwner?_executionOf b.world i h.present
      have howner : y.owner = i.id := (Debugger.owner_of_ofOwner? hx :)
      have hput : Costs n i.session 1 u v := by
        refine costs_putExecution (h.tells hopen.tells) (howner ▸ hx) (fun hgone => ?_) ?_
        · rw [hgone.attached] at hu
          cases hu
        · simp only [executionLoad, y, Option.isSome_some, if_true]
          omega
      have hin := (h.tells hopen.tells).tells hput.tells
      have hfire : Costs n i.session k v w := (costs_fire hin (event y)).mono (hk y)
      have htrace : Speaks i.session w c.world := speaks_trace w _ _
      have hdebugger : (c.world.session i.session).debugger
          = some ((u.debugger i.session).put y) := by
        rw [htrace.same, (speaks_fire v i.session (event y)).same]
        have hd := debugger_modifyDebugger (s := i.session) u (·.put y)
        rw [debugger_of_attached hu] at hd
        exact hd
      have hfound : ((u.debugger i.session).put y).ofOwner? y.owner = some y := by
        rw [howner]
        exact ofOwner?_put_self hx rfl
      have hserve := costs_serveAll (n := n) (b := c) y y.pending
        ((hin.tells hfire.tells).tells htrace.toTells)
        (by rw [debugger_eq hdebugger]; exact hu)
        (by rw [debugger_eq hdebugger]; exact hfound)
      have hlog : Costs n i.session 0 w c.world := costs_trace w _ _
      rw [hrun]
      have hall := hopen.trans (hput.trans (hfire.trans (hlog.trans hserve)))
      have hk : 0 + (1 + (k + (0 + 0))) = k + 1 := by omega
      rw [hk] at hall
      exact hall

/-- A thread that comes to a script costs what it takes to answer it. -/
theorem costs_startScript {i : Interpreter} (h : b.world.InOrder i.session) (script : Script) :
    Costs n i.session (n + 3) b.world (b.startScript i script).world := by
  unfold startScript
  split
  · have hopen := costs_executionOf (n := n) b.world i
    have hwait := costs_suspend (b := { b with world := (b.world.executionOf i).2 })
      (h.tells hopen.tells) .load (fun x => .scriptReady script x.handle x.stack.isEmpty)
      (n := n) (k := n + 2) fun _ => Nat.le_refl _
    exact (hopen.trans hwait).mono (by omega)
  · exact ⟨(steady_tells _).refl _, Nat.le_add_right _ _⟩

/-- A thread that comes to a line costs two messages at most. -/
theorem costs_startLine {i : Interpreter} (h : b.world.InOrder i.session) (script : Script)
    (line : Nat) :
    Costs n i.session 2 b.world (b.startLine i script line).world := by
  have hreach := costs_reachLine (n := n) h script line
  unfold startLine
  split
  · split
    · next w e =>
        rw [e] at hreach
        exact hreach.mono (Nat.zero_le _)
    · next reason w e =>
        rw [e] at hreach
        have hwait := costs_suspend (b := { b with world := w }) (h.tells hreach.tells) .line
          (fun x => .suspended x.handle reason x.stack) (n := n) (k := 1) fun _ => Nat.le_refl _
        exact (hreach.trans hwait).mono (by omega)
  · exact ⟨(steady_tells _).refl _, Nat.le_add_right _ _⟩

/-- What a call leads to was foreseen. -/
theorem costs_perform {i : Interpreter} (h : b.world.InOrder i.session) (c : Call) :
    Costs n i.session (callLoad n c) b.world (b.perform i c).2.world := by
  have hopen := costs_executionOf (n := n) b.world i
  cases c with
  | engineStarted => exact costs_fire h .engineStarted
  | engineFinished => exact costs_finishEngine h
  | threadStarted =>
      exact (hopen.trans (costs_fire (h.tells hopen.tells) (.threadCreated _))).mono
        (Nat.le_refl _)
  | threadFinished => exact costs_finishThread h
  | scriptStarted script => exact costs_startScript h script
  | push a =>
      exact costs_modifyExecution h (fun x => { x with stack := a :: x.stack })
        fun _ => ⟨rfl, rfl, rfl⟩
  | pop =>
      exact costs_modifyExecution h (fun x => { x with stack := x.stack.tail })
        fun _ => ⟨rfl, rfl, rfl⟩
  | line script number => exact costs_startLine h script number
  | stack => exact hopen
  | currentThread => exact hopen
  | bind name content => exact ⟨(steady_tells _).refl _, Nat.le_refl _⟩
  | check => exact ⟨(steady_tells _).refl _, Nat.le_refl _⟩

/-- A table that is cleared costs nothing. -/
theorem costs_clearTable (w : World) : Costs n s 0 w (w.clearTable s) :=
  costs_modifyDebugger w _ (fun d _ => d.yields_table []) fun _ _ => Nat.le_refl _

/-- An engine that is asked to terminate costs the word that it ends. -/
theorem costs_terminate (h : b.world.InOrder s) :
    Costs n s 1 b.world (b.terminate s).world := by
  have hclear : Costs n s 0 b.world (b.world.clearTable s) := costs_clearTable b.world
  have hend : ∀ w : World, w.InOrder s →
      Costs n s 1 w ((w.fire s .engineTerminated).detach s) := fun w hw => by
    have hfire : Costs n s 1 w (w.fire s .engineTerminated) := costs_fire hw .engineTerminated
    exact hfire.trans (costs_detach (hw.tells hfire.tells))
  have hu := h.tells hclear.tells
  have hrest : Costs n s 1 (b.world.clearTable s) (b.terminate s).world := by
    unfold terminate askEngine
    dsimp only
    split
    · exact hend _ hu
    · next causes _ =>
        have hwarn := costs_log (n := n) (s := s) (b.world.clearTable s) .warn "runtime"
          ("terminate request: " ++ (Failure.engine causes).message)
        exact hwarn.trans (hend _ (hu.tells hwarn.tells))
  exact hclear.trans hrest

/-- What a request leads to was foreseen. -/
theorem costs_obey (h : b.world.InOrder s) (r : Request) :
    Costs n s (messageLoad n (.request r) - 1) b.world (b.obey s r).world := by
  cases r with
  | resume thread kind => exact costs_resume h kind thread
  | suspend thread => exact costs_askToSuspend b.world thread
  | breakpoint script point mode => exact costs_updateTable b.world script point mode
  | removeAllBreakpoints => exact costs_clearTable b.world
  | terminate => exact costs_terminate h
  | disconnect => exact costs_detach h
  | getStackFrames thread => exact costs_enqueue h thread _
  | getVariables frame => exact costs_enqueue h frame.handle _
  | setVariable context binding name expression =>
      simp only [obey]
      split
      · next frame _ => exact costs_enqueue h frame.handle _
      · exact (costs_trace _ _ _).mono (Nat.zero_le _)
  | evaluate expression frame thread listener => exact costs_enqueue h thread _

/-- A request that is taken costs less than what was foreseen for it. -/
theorem costs_receive (h : b.world.InOrder s) (r : Request) :
    Costs n s (messageLoad n (.request r) - 1) b.world (b.receive s r).world := by
  unfold receive
  split
  · exact ⟨(steady_tells s).refl _, Nat.le_add_right _ _⟩
  · let u := b.trace "runtime" ("process " ++ r.text b.world.marks)
    have htrace : Costs n s 0 b.world u.world := costs_trace b.world _ _
    exact (htrace.trans (costs_obey (h.tells htrace.tells) r)).mono (Nat.le_of_eq (Nat.zero_add _))

end Bridge

end DebugBridge
