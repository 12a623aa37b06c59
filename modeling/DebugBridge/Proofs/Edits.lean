import DebugBridge.Proofs.Subscription

/-!
# What a user does to breakpoints

A user adds, removes and switches breakpoints, and only what changes something is announced: a breakpoint
that is registered already is not added again, one that is not registered is not removed, and a switch
counts where it makes a difference to a registered breakpoint. What changes is changed first; then every
subscriber that is still held is told, one after the other.

## Main definitions

* `Edit`, `World.edit`: what a user does;
* `World.change?`, `World.edited`: what is announced of it, and what is changed before anybody is told;
* `Edit.onto`: what it leaves of the breakpoints that are registered;
* `World.requestsFor`: what the sessions of the manager make of it for a script.

## Main results

* `edit_eq`: to edit is to change and to announce;
* `Edit.nodup_onto`, `manager_edited`, `enrolled_edited`: a manager whose breakpoints were edited.
-/

namespace DebugBridge

/-- What a user does to the breakpoints of a manager. -/
inductive Edit where
  | add (p : Breakpoint)
  | remove (p : Breakpoint)
  | enable (p : Breakpoint) (enabled : Bool)

/-- The breakpoint that a user has to do with. -/
def Edit.breakpoint : Edit → Breakpoint
  | .add p | .remove p | .enable p _ => p

/-- The breakpoints that are registered after that. -/
def Edit.onto (ps : List Breakpoint) : Edit → List Breakpoint
  | .add p => if ps.any (·.id = p.id) then ps else ps ++ [p]
  | .remove p => ps.filter (·.id ≠ p.id)
  | .enable _ _ => ps

/-- No breakpoint is registered twice. -/
theorem Edit.nodup_onto (x : Edit) {ps : List Breakpoint} (h : (ps.map (·.id)).Nodup) :
    ((x.onto ps).map (·.id)).Nodup := by
  cases x with
  | add p =>
      rw [Edit.onto]
      split
      · exact h
      · next hnot =>
          have hnew : ∀ q ∈ ps, q.id ≠ p.id := by simpa using hnot
          rw [List.map_append, List.nodup_append]
          refine ⟨h, List.pairwise_singleton _ _, fun k hk k' hk' heq => ?_⟩
          obtain ⟨q, hq, rfl⟩ := List.mem_map.mp hk
          exact hnew q hq (heq.trans (List.mem_singleton.mp hk'))
  | remove p => exact h.sublist (List.filter_sublist.map _)
  | enable p enabled => exact h

namespace World

/-- What comes of it. -/
def edit (w : World) (m : Nat) : Edit → World
  | .add p => w.addBreakpoint m p
  | .remove p => (w.removeBreakpoint m p).2
  | .enable p enabled => w.enableBreakpoint m p enabled

/-- The change that is announced, if there is one. -/
def change? (w : World) (m : Nat) : Edit → Option BreakpointChange
  | .add p => if (w.manager m).has p then none else some .added
  | .remove p => if (w.manager m).has p then some .removed else none
  | .enable p enabled =>
    if w.marks.isEnabled p ≠ enabled ∧ (w.manager m).has p then some .changed else none

/-- The breakpoints and their flags after what a user did. Nobody was told yet. -/
def edited (w : World) (m : Nat) : Edit → World
  | .add p =>
    if (w.manager m).has p then w
    else w.modifyManager m fun manager => { manager with breakpoints := manager.breakpoints ++ [p] }
  | .remove p =>
    if (w.manager m).has p then
      w.modifyManager m fun manager =>
        { manager with breakpoints := manager.breakpoints.filter fun q => q.id ≠ p.id }
    else w
  | .enable p enabled => { w with marks := w.marks.enable p enabled }

/-- The requests by which a session that knows a script for the breakpoint passes the change on: a new
breakpoint is added and one that is gone is removed; one that was switched is removed and added. -/
def requestsFor (w : World) (m : Nat) (x : Edit) (script : Script) : List Request :=
  match x with
  | .add p => if (w.manager m).has p then [] else [.breakpoint script p .add]
  | .remove p => if (w.manager m).has p then [.breakpoint script p .remove] else []
  | .enable p enabled =>
    if w.marks.isEnabled p ≠ enabled ∧ (w.manager m).has p then
      [.breakpoint script p .remove, .breakpoint script p .add]
    else []

variable {w : World} {m : Nat} {x : Edit}

/-- What debuggers are asked for by an edit depends on the change that the manager makes. -/
theorem requestsFor_eq (w : World) (m : Nat) (x : Edit) (script : Script) :
    w.requestsFor m x script = match w.change? m x with
      | some c => (modesOf c).map (.breakpoint script x.breakpoint ·)
      | none => [] := by
  cases x with
  | add p => cases h : (w.manager m).has p <;> simp [requestsFor, change?, h, modesOf, Edit.breakpoint]
  | remove p => cases h : (w.manager m).has p <;> simp [requestsFor, change?, h, modesOf, Edit.breakpoint]
  | enable p enabled =>
      by_cases h : w.marks.isEnabled p ≠ enabled ∧ (w.manager m).has p
      · simp [requestsFor, change?, if_pos h, modesOf, Edit.breakpoint]
      · simp [requestsFor, change?, if_neg h]

/-- To edit is to change, and to announce the change if there is one. -/
theorem edit_eq (w : World) (m : Nat) (x : Edit) :
    w.edit m x = match w.change? m x with
      | some c => (w.edited m x).announce m x.breakpoint c
      | none => w.edited m x := by
  cases x with
  | add p =>
      cases h : (w.manager m).has p <;>
        simp [edit, addBreakpoint, change?, edited, h, Edit.breakpoint]
  | remove p =>
      cases h : (w.manager m).has p <;>
        simp [edit, removeBreakpoint, change?, edited, h, Edit.breakpoint]
  | enable p enabled =>
      have hrun : w.edit m (.enable p enabled)
          = if w.marks.isEnabled p ≠ enabled ∧ (w.manager m).has p
            then (w.edited m (.enable p enabled)).announce m p .changed
            else w.edited m (.enable p enabled) := rfl
      rw [hrun]
      by_cases h : w.marks.isEnabled p ≠ enabled ∧ (w.manager m).has p
      · simp only [change?, if_pos h, Edit.breakpoint]
      · simp only [change?, if_neg h]

/-- An edit of the breakpoints of a manager leaves all sessions. -/
@[simp] theorem session_edited (w : World) (m : Nat) (x : Edit) (s : Nat) :
    (w.edited m x).session s = w.session s := by
  cases x with
  | add p =>
      rw [edited]
      split <;> rfl
  | remove p =>
      rw [edited]
      split <;> rfl
  | enable p enabled => rfl

/-- To take out a breakpoint that is not registered takes nothing out. -/
theorem filter_ne_of_not_has {manager : BreakpointManager} {p : Breakpoint} (hnot : ¬manager.has p = true) :
    manager.breakpoints.filter (·.id ≠ p.id) = manager.breakpoints := by
  refine List.filter_eq_self.mpr fun q hq => decide_eq_true fun hid => ?_
  exact hnot ((BreakpointManager.has_iff _ p).mpr ⟨q, hq, hid⟩)

/-- An edit changes the breakpoints of its manager, and nothing else of that. -/
theorem manager_edited (w : World) (m : Nat) (x : Edit) : (w.edited m x).manager m
    = { w.manager m with breakpoints := x.onto (w.manager m).breakpoints } := by
  cases x with
  | add p =>
      rw [edited, Edit.onto, ← BreakpointManager.has]
      split
      · rfl
      · rw [manager_modifyManager, if_pos rfl]
  | remove p =>
      rw [edited, Edit.onto]
      split
      · rw [manager_modifyManager, if_pos rfl]
      · next hnot =>
          rw [filter_ne_of_not_has hnot]
  | enable p enabled => rfl

/-- To edit breakpoints changes no subscription. -/
theorem enrolled_edited (m : Nat) (x : Edit) (he : Enrolled w) : Enrolled (w.edited m x) := by
  cases x with
  | add p =>
      rw [edited]
      split
      · exact he
      · exact enrolled_modifyBreakpoints w he m (· ++ [p])
  | remove p =>
      rw [edited]
      split
      · exact enrolled_modifyBreakpoints w he m (List.filter fun q => q.id ≠ p.id)
      · exact he
  | enable p enabled => exact he.congr rfl rfl

end World

end DebugBridge
