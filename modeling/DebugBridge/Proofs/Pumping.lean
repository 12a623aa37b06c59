import DebugBridge.Proofs.Closing

/-!
# Pumps come to an end

The messages of a session lead to others: a script that is ready is answered, a request makes a thread
go on, which says so and makes calls. Still they do not keep each other going forever. What can follow
from the messages that wait and from the threads that are held up is bounded by a number, which grows
with every call by what was foreseen for it, and gets less with every message that is handed over.

So the work of a session is done after as many messages as was foreseen, in whatever order its threads
go on while it is pumped. This holds at every moment of a session that was joined once: while it goes
on, while its end is on its way, and when it is over.

## Main definitions

* `Deed.load`: how many messages follow from a deed.

## Main results

* `candid_run_append`: the debugger of a session that was attached once stays candid;
* `load_run`: what a run hands over was foreseen;
* `pump_ends`: a session that is pumped has no message left, however much it may deliver.
-/

namespace DebugBridge

-- Sums start from the zero of core, whatever algebra is in scope.
attribute [local instance (high)] Zero.ofOfNat0

/-- How many messages of a session follow from a deed, if there are at most some breakpoints. -/
def Deed.load {σ : Type} (n s : Nat) : Deed σ → Nat
  | .call i c => if i.session = s then Bridge.callLoad n c else 0
  | _ => 0

namespace Bridge

open World

variable {σ : Type} [Inhabited σ] [Engine σ] {n s k : Nat} {b : Bridge σ} {x : Deed σ}

/-! ### Sessions that were joined once -/

/-- The debugger of a session that was attached once stays candid, as long as the session is held. -/
theorem candid_run_append {ds : List (Deed σ)} (h : Candid (run ds b).world s (told s ds b))
    (es : List (Deed σ)) (hkeep : ∀ x ∈ es, x ≠ .dropSession s) :
    Candid (run (ds ++ es) b).world s (told s (ds ++ es) b) := by
  induction es using List.reverseRecOn with
  | nil => rwa [List.append_nil]
  | append_singleton es x ih =>
      have hbefore := ih fun y hy => hkeep y (List.mem_append_left _ hy)
      have hx : x ≠ .dropSession s := hkeep x (List.mem_append_right _ List.mem_cons_self)
      obtain ⟨ms, hmail, hcandid⟩ :=
        candid_stirs hbefore (stirs_after (run (ds ++ es) b) hbefore.inOrder x hx)
      rw [← List.append_assoc, told_append_singleton hmail, run_append]
      exact hcandid

/-! ### What a run hands over -/

/-- A message of a session is handed over, or a thread makes a call. -/
def IsTurnOf (s : Nat) (x : Deed σ) : Prop :=
  x = .deliver s ∨ ∃ i c, x = .call i c

omit [Inhabited σ] [Engine σ] in
/-- Where nothing can be taken, there is as much to do as before. -/
theorem Within.rested (h : b.Within n s k) (hm : (b.take s).1 = none) :
    (b.take s).2.Within n s k := by
  have hu : Takes s b.world (b.take s).2.world := takes_take b
  have hg : (b.world.session s).mailbox.Gains [] ((b.take s).2.world.session s).mailbox := by
    rw [hu.here]
    exact Mailbox.gains_take_none _ h.inOrder.unmarked hm
  have hd : ((b.take s).2.world.session s).debugger = (b.world.session s).debugger := by
    rw [hu.here]
  have hmail : (b.take s).2.world.mail s = b.world.mail s := by
    rw [h.inOrder.mail_gains hg, List.append_nil]
  refine ⟨h.inOrder.gains (by rw [hu.here]) (by rw [hd]) hg fun d hd' => ?_, h.ids, ?_, ?_⟩
  · exact h.inOrder.distinct d (hd ▸ hd')
  · exact (congrArg List.length (breakpoints_of_takes hu)).trans h.breakpoints
  · have hbound := h.bound
    unfold Bridge.bound at *
    rw [load_congr hmail hd]
    exact hbound

/-- A turn hands over no more than was foreseen. -/
theorem Within.turn (h : b.Within n s (b.bound n s)) (hx : IsTurnOf s x) :
    (b.after x).Within n s ((b.after x).bound n s)
      ∧ (b.handed s x).toList.length + (b.after x).bound n s ≤ b.bound n s + x.load n s := by
  obtain rfl | ⟨i, c, rfl⟩ := hx
  · have hhanded : b.handed s (.deliver s) = (b.take s).1 := if_pos rfl
    rw [hhanded]
    cases htake : b.take s with
    | mk taken b' =>
        cases taken with
        | none =>
            have hrun : b.after (.deliver s) = b' := by rw [Bridge.after, handOver, htake]
            have hrested := h.rested (congrArg Prod.fst htake)
            rw [htake] at hrested
            rw [hrun]
            exact ⟨hrested.self, by simpa using Nat.le_add_right_of_le hrested.bound⟩
        | some m =>
            have hrun : b.after (.deliver s) = b'.accept s m := by
              rw [Bridge.after, handOver, htake]
            obtain ⟨ht, hload⟩ := h.taken htake
            have hdone := ht.accept m
            have hpos := messageLoad_pos n m
            have hless := hdone.bound
            rw [hrun]
            refine ⟨hdone.self, ?_⟩
            change 1 + _ ≤ _ + 0
            omega
  · have hcall : (b.after (.call i c)).Within n s
        (b.bound n s + if i.session = s then callLoad n c else 0) := by
      cases hw : b.isWaiting i with
      | true =>
          have hrun : b.after (.call i c) = b := by simp only [Bridge.after, hw, if_true]
          exact hrun.symm ▸ h.mono (Nat.le_add_right _ _)
      | false =>
          have hrun : b.after (.call i c) = (b.perform i c).2 := by
            simp only [Bridge.after, hw, Bool.false_eq_true, if_false]
          exact hrun.symm ▸ h.perform i c
    refine ⟨hcall.self, ?_⟩
    change 0 + _ ≤ _
    rw [Nat.zero_add]
    exact hcall.bound

/-- A turn of the pump neither adds nor removes interpreters. -/
theorem interpreters_turn (hx : IsTurnOf s x) : (b.after x).interpreters = b.interpreters := by
  obtain rfl | ⟨i, c, rfl⟩ := hx
  · change (b.handOver s).interpreters = _
    unfold handOver
    split
    · next b' htake => exact congrArg (·.2.interpreters) htake.symm
    · next m b' htake =>
        refine Eq.trans ?_ (congrArg (·.2.interpreters) htake.symm :)
        cases m with
        | event e => exact interpreters_deliverEvent _ s e
        | request r =>
            unfold accept
            dsimp only
            split
            · exact interpreters_receive _ r
            · rfl
  · unfold Bridge.after
    dsimp only
    split
    · rfl
    · exact interpreters_perform b i c

/-- What a run hands over was foreseen, and so is what can still follow. -/
theorem Within.turns (h : b.Within n s (b.bound n s)) (xs : List (Deed σ))
    (hxs : ∀ x ∈ xs, IsTurnOf s x) :
    (run xs b).interpreters = b.interpreters
      ∧ (handled s xs b).length + (run xs b).bound n s
        ≤ b.bound n s + (xs.map (Deed.load n s)).sum := by
  induction xs generalizing b with
  | nil => exact ⟨rfl, by simp [handled]⟩
  | cons x xs ih =>
      have hx := hxs x List.mem_cons_self
      obtain ⟨hnext, hfirst⟩ := h.turn hx
      obtain ⟨hi, hrest⟩ := ih hnext fun y hy => hxs y (List.mem_cons_of_mem x hy)
      refine ⟨hi.trans (interpreters_turn hx), ?_⟩
      rw [run_cons, handled, List.length_append, List.map_cons, List.sum_cons]
      omega

/-- What a run hands over followed from what was there, or from the calls that were made meanwhile. -/
theorem load_run (h : b.Within n s (b.bound n s)) (xs : List (Deed σ))
    (hxs : ∀ x ∈ xs, IsTurnOf s x) :
    (handled s xs b).length + (run xs b).world.load n s
      ≤ b.world.load n s + (xs.map (Deed.load n s)).sum := by
  obtain ⟨hi, hbound⟩ := h.turns xs hxs
  unfold Bridge.bound at hbound
  rw [hi] at hbound
  omega

/-! ### Pumps -/

/-- A pump hands over no more messages than were foreseen. -/
theorem fst_pump_le (h : b.world.InOrder s) (hids : (b.interpreters.map Interpreter.id).Nodup) :
    (b.pump s).1 ≤ b.workload s := by
  let n := (b.world.breakpoints s).length
  rw [workload_eq]
  exact drain_fst_le_of_bound (I := fun b => b.Within n s (b.bound n s))
    (L := fun b => b.bound n s) (fun _ _ _ hb htake => hb.delivered htake) _ b
    (within_workload h hids)

/-- A pump that may hand over more than was foreseen is no other pump. -/
theorem drain_eq_pump (h : b.world.InOrder s) (hids : (b.interpreters.map Interpreter.id).Nodup)
    {most : Nat} (hmost : b.workload s < most) :
    drain (take s) (deliver s) most b = b.pump s := by
  let n := (b.world.breakpoints s).length
  rw [workload_eq] at hmost
  exact drain_eq_of_bound (I := fun b => b.Within n s (b.bound n s)) (L := fun b => b.bound n s)
    (fun _ _ _ hb htake => hb.delivered htake) most (b.workload s + 1) b (within_workload h hids)
    hmost (Nat.lt_succ_of_le (Nat.le_of_eq (workload_eq b s).symm))

/-- Pumps come to an end, at every moment of a session that was joined once, whatever waits, and
whatever work its threads have. A session that was pumped has no message left. It was handed no more
messages than were foreseen, and to allow for more changes nothing. Neither does it matter when the
threads go on: in any order of messages and calls, no more messages are handed over than follow from
what was there and from these calls. -/
theorem pump_ends (hb : b.Fresh) (ds : List (Deed σ)) (hj : Joined (run ds b).world s)
    (es : List (Deed σ)) (hes : ∀ y ∈ es, y ≠ .dropSession s)
    (hids : ((run (ds ++ es) b).interpreters.map Interpreter.id).Nodup) :
    (((run (ds ++ es) b).pump s).2.world.session s).mailbox.queue = []
      ∧ ((run (ds ++ es) b).pump s).1 ≤ (run (ds ++ es) b).workload s
      ∧ (∀ most, (run (ds ++ es) b).workload s < most →
          drain (take s) (deliver s) most (run (ds ++ es) b) = (run (ds ++ es) b).pump s)
      ∧ ∀ n xs, n = ((run (ds ++ es) b).world.breakpoints s).length → (∀ x ∈ xs, IsTurnOf s x) →
          (handled s xs (run (ds ++ es) b)).length + (run (ds ++ es ++ xs) b).world.load n s
            ≤ (run (ds ++ es) b).world.load n s + (xs.map (Deed.load n s)).sum := by
  have hin := (candid_run_append (candid_run hb ds hj) es hes).inOrder
  refine ⟨queue_pump _ hin hids, fst_pump_le hin hids, fun most => drain_eq_pump hin hids, ?_⟩
  rintro n xs rfl hxs
  rw [run_append (ds ++ es) xs]
  exact load_run (within_workload hin hids) xs hxs

/-- A thread waits before a script, and the user asks it to terminate. The session is pumped, and
nothing is left. -/
theorem pump_ends_startHeld :
    (run startHeld oneThread).isWaiting (.idle 0 "main" 0) = true
      ∧ (((run (startHeld ++ [.orderTarget 0 .terminate]) oneThread).pump 0).2.world.session
          0).mailbox.queue = []
      ∧ ((run (startHeld ++ [.orderTarget 0 .terminate]) oneThread).pump 0).1
        ≤ (run (startHeld ++ [.orderTarget 0 .terminate]) oneThread).workload 0 := by
  have hj : Joined (run startHeld oneThread).world 0 :=
    ⟨by decide +kernel, by decide +kernel, by decide +kernel⟩
  obtain ⟨hqueue, hcount, -, -⟩ := pump_ends ⟨_, rfl⟩ startHeld hj [.orderTarget 0 .terminate]
    (fun y hy => by rw [List.mem_singleton.mp hy]; nofun) (by decide +kernel)
  exact ⟨by decide +kernel, hqueue, hcount⟩

end Bridge

end DebugBridge
