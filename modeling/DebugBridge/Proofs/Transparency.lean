import DebugBridge.Interpreter.VariableTable
import DebugBridge.Proofs.Passage

/-!
# Loading is transparent to stepping

A session has one thread, there are no breakpoints, and it does not stop for scripts. Its thread
makes calls, messages are handed over, and users order what makes sense where nothing is on its way.
In between the thread comes to scripts. Each time it waits, and messages are handed over until it
goes on.

Two such sessions may go the same way but for their scripts. Then they have the same pace at each
call, as what is loaded leaves a pace as it is. So the thread stops at the same lines, for the same
reasons. This asks for one thing: when the thread comes to a script, nothing may be on its way that
users asked for. It would be handed over earlier than without the script.

## Main definitions

* `Episode`, with `Episode.deeds`: what happens in such a session;
* `Episode.Permitted`, `Episode.Apart`: what may happen, and where scripts may be loaded;
* `Bridge.stops`: how the calls end that a thread makes, and for which reason it stops;
* `Bridge.Stage`: how far a session is, at the pace of its thread.

## Main results

* `Stage.step`: whatever happens, a pace tells how a call ends and what becomes of the session;
* `Stage.stops`: so it tells how all calls end;
* `stops_congr_loads`: scripts that are loaded change no stop and no reason;
* `stops_ne_load_behind_suspend`: they may, if users asked for something before.
-/

namespace DebugBridge

open World

/-! ### Happenings -/

/-- What happens in a session with one interpreter thread. -/
inductive Episode where
  /-- The thread makes a call. -/
  | call (c : Call)
  /-- The oldest message is handed over. -/
  | deliver
  /-- A user gives an order for a thread of the model. -/
  | order (k : Nat) (c : Command)
  /-- A user gives an order for the target. -/
  | orderTarget (c : Command)
  | disconnect
  /-- The thread comes to a script, and messages are handed over until it goes on. -/
  | load (script : Script) (messages : Nat)

namespace Episode

/-- Whether a script is loaded. -/
def isLoad : Episode → Bool
  | .load _ _ => true
  | _ => false

variable {σ : Type}

/-- All that is done when something happens. -/
def deeds (i : Interpreter) : Episode → List (Deed σ)
  | .call c => [.call i c]
  | .deliver => [.deliver i.session]
  | .order k c => [.order i.session k c]
  | .orderTarget c => [.orderTarget i.session c]
  | .disconnect => [.disconnect i.session]
  | .load script n => .call i (.scriptStarted script) :: List.replicate n (.deliver i.session)

variable [Inhabited σ] [Engine σ]

/-- Whether something may happen. A thread that waits makes no calls. Users order what makes sense,
and only where nothing is on its way. A script that is loaded is followed, and the thread goes on
from it in the end. -/
def Permitted (i : Interpreter) (b : Bridge σ) : Episode → Prop
  | .call c => c.GoesOn ∧ b.isWaiting i = false
  | .deliver => True
  | .order k c => b.world.mail i.session = [] ∧ k < (b.world.session i.session).threads.length
      ∧ b.world.threadAllows i.session k c = true
  | .orderTarget c => b.world.mail i.session = [] ∧ (b.world.session i.session).allows c = true
  | .disconnect => b.world.mail i.session = [] ∧ (b.world.session i.session).terminated = false
  | .load script n => b.isWaiting i = false
      ∧ (b.world.debugger i.session).isTracked script = true
      ∧ (Bridge.run ((Episode.load script n).deeds i) b).isWaiting i = false

/-- Whether no script is loaded while something that users asked for is on its way. -/
def Apart (i : Interpreter) (b : Bridge σ) (x : Episode) : Prop :=
  x.isLoad = true → ∀ m ∈ b.world.mail i.session, m.event?.isSome = true

instance (i : Interpreter) (b : Bridge σ) (x : Episode) : Decidable (x.Permitted i b) :=
  match x with
  | .call c => inferInstanceAs (Decidable (c.GoesOn ∧ b.isWaiting i = false))
  | .deliver => inferInstanceAs (Decidable True)
  | .order k c => inferInstanceAs (Decidable (b.world.mail i.session = []
      ∧ k < (b.world.session i.session).threads.length
      ∧ b.world.threadAllows i.session k c = true))
  | .orderTarget c => inferInstanceAs (Decidable (b.world.mail i.session = []
      ∧ (b.world.session i.session).allows c = true))
  | .disconnect => inferInstanceAs (Decidable (b.world.mail i.session = []
      ∧ (b.world.session i.session).terminated = false))
  | .load script n => inferInstanceAs (Decidable (b.isWaiting i = false
      ∧ (b.world.debugger i.session).isTracked script = true
      ∧ (Bridge.run ((Episode.load script n).deeds i) b).isWaiting i = false))

instance (i : Interpreter) (b : Bridge σ) (x : Episode) : Decidable (x.Apart i b) :=
  inferInstanceAs (Decidable (_ → _))

end Episode

namespace Bridge

variable {σ : Type} [Inhabited σ] [Engine σ] {i : Interpreter} {p p' : Pace} {d d' : Debugger}
  {b : Bridge σ} {o : Option Pace} {c : Call} {x : Episode} {xs ys : List Episode}

/-- Whether a thread stands still after a call, and the reason that is told. -/
def outcome (b : Bridge σ) (i : Interpreter) (c : Call) : Bool × Option SuspendReason :=
  let b' := b.after (.call i c)
  let told := (b'.world.mail i.session).drop (b.world.mail i.session).length
  (b'.isWaiting i, (eventsOf told).findSome? Event.reason?)

/-- How the calls end that are made when something happens, other than those for scripts. -/
def outcomes (b : Bridge σ) (i : Interpreter) : Episode → List (Bool × Option SuspendReason)
  | .call c => [b.outcome i c]
  | _ => []

/-- How the calls of a thread end, one after the other, other than those for scripts. -/
def stops (i : Interpreter) : List Episode → Bridge σ → List (Bool × Option SuspendReason)
  | [], _ => []
  | x :: xs, b => b.outcomes i x ++ stops i xs (run (x.deeds i) b)

/-- Whether a property holds each time when something happens. -/
def Meets (P : Interpreter → Bridge σ → Episode → Prop) (i : Interpreter) :
    List Episode → Bridge σ → Prop
  | [], _ => True
  | x :: xs, b => P i b x ∧ Meets P i xs (run (x.deeds i) b)

instance decidableMeets (P : Interpreter → Bridge σ → Episode → Prop)
    [∀ i b x, Decidable (P i b x)] (i : Interpreter) :
    ∀ (xs : List Episode) (b : Bridge σ), Decidable (Meets P i xs b)
  | [], _ => inferInstanceAs (Decidable True)
  | x :: xs, b =>
    have := decidableMeets P i xs (run (x.deeds i) b)
    inferInstanceAs (Decidable (P i b x ∧ Meets P i xs (run (x.deeds i) b)))

/-! ### What a pace foretells -/

/-- How a call ends of a thread that goes as a pace tells, or that nobody follows any more. -/
def foreseen (o : Option Pace) (c : Call) : Bool × Option SuspendReason :=
  let reason := o.bind fun p => p.stopIn c
  (reason.isSome, reason)

end Bridge

namespace Episode

open Bridge

/-- What becomes of a pace when something happens. A script that is loaded leaves it as it is. -/
def paces : Episode → Option Pace → Option Pace
  | .call c, o => o.map fun p => p.call c
  | .deliver, o => o.bind Pace.deliver
  | .order _ c, o | .orderTarget c, o => o.map fun p => p.ask [c.request ⟨0, ""⟩]
  | .disconnect, o => o.map fun p => p.ask p.farewell
  | .load _ _, o => o

/-- How a call ends that is made when something happens, as a pace tells. Nothing else that happens is
foretold. -/
def foreseen (o : Option Pace) : Episode → List (Bool × Option SuspendReason)
  | .call c => [Bridge.foreseen o c]
  | _ => []

/-- How the calls of a thread end, one after the other, as its pace tells. -/
def foretold : List Episode → Option Pace → List (Bool × Option SuspendReason)
  | [], _ => []
  | x :: xs, o => x.foreseen o ++ foretold xs (x.paces o)

/-- Scripts that are loaded are of no concern to a pace. -/
theorem foretold_filter (xs : List Episode) (o : Option Pace) :
    foretold (xs.filter (!·.isLoad)) o = foretold xs o := by
  induction xs generalizing o with
  | nil => rfl
  | cons x xs ih =>
      cases x with
      | load script n => exact ih o
      | _ => exact congrArg (_ ++ ·) (ih _)

end Episode

namespace Bridge

variable {σ : Type} [Inhabited σ] [Engine σ] {i : Interpreter} {p p' : Pace} {d d' : Debugger}
  {b : Bridge σ} {o : Option Pace} {c : Call} {x : Episode} {xs ys : List Episode}

/-! ### Sessions that go as a pace tells -/

/-- How far a session is. Its debugger follows the thread, and the session is attached; or it was
left, which the debugger still has to hear; or the debugger is gone. -/
inductive Stage (i : Interpreter) (b : Bridge σ) : Option Pace → Prop where
  | attached (p : Pace) (d : Debugger) (h : b.world.Accompanies i p d)
      (ht : b.world.Tracks i p d) : Stage i b (some p)
  | leaving (p : Pace) (d : Debugger) (ht : b.world.Tracks i p d)
      (hleave : .disconnect ∈ p.orders) : Stage i b (some p)
  | gone (h : IsDeserted b.world i.session) : Stage i b none

omit [Inhabited σ] [Engine σ] in
/-- Whether a thread waits is what its pace says. -/
theorem isWaiting_of_paces (h : b.world.Paces i p d) :
    b.isWaiting i = p.self.waiting.isSome := by
  rw [isWaiting, debugger_eq h.here, h.paced.isWaiting]

omit [Inhabited σ] [Engine σ] in
/-- A thread that does not wait stands at no gate. -/
theorem waiting_eq_none_of_paces (h : b.world.Paces i p d) (hw : b.isWaiting i = false) :
    p.self.waiting = none := by
  rw [isWaiting_of_paces h] at hw
  simpa using hw

/-- A thread that does not wait makes its call. -/
theorem after_call (hw : b.isWaiting i = false) : b.after (.call i c) = (b.perform i c).2 := by
  rw [after, hw]
  rfl

omit [Inhabited σ] [Engine σ] in
/-- No thread waits in a session that nobody follows any more. -/
theorem isWaiting_of_isDeserted (h : IsDeserted b.world i.session) : b.isWaiting i = false := by
  unfold isWaiting World.debugger
  cases hd : (b.world.session i.session).debugger with
  | some d => exact (h d hd).isWaiting_eq_false i.id
  | none => rfl

/-- How a call ends is told by the events that came of it. -/
theorem outcome_of_becomes (hr : Reached i.session b) (hw : b.isWaiting i = false)
    (h' : (b.perform i c).2.world.Paces i (p.call c) d') {es : List Event}
    (hnone : p.self.waiting = none) (hb : Becomes i.session d' es b.world (b.perform i c).2.world)
    (hreason : es.findSome? Event.reason? = p.stopIn c) :
    b.outcome i c = foreseen (some p) c := by
  have hrun : b.after (.call i c) = (b.perform i c).2 := after_call hw
  have hmail := hr.inOrder.mail_gains hb.mailbox
  have hwait : (b.after (.call i c)).isWaiting i = (p.stopIn c).isSome := by
    rw [hrun, isWaiting_of_paces h', Pace.call]
    dsimp only
    split
    · next hstop => rw [hstop]; rfl
    · next hstop =>
        rw [Bool.not_eq_true] at hstop
        rw [hstop]
        exact congrArg Option.isSome hnone
  unfold outcome foreseen
  dsimp only
  rw [hwait, hrun, hmail, List.drop_left, eventsOf_event, hreason]
  rfl

/-- A call that a thread may make ends as its pace tells. -/
theorem Stage.call (h : Stage i b o) (hr : Reached i.session b) (hc : c.GoesOn)
    (hw : b.isWaiting i = false) :
    Stage i (b.after (.call i c)) (o.map fun p => p.call c) ∧ b.outcome i c = foreseen o c := by
  have hrun : b.after (.call i c) = (b.perform i c).2 := after_call hw
  cases h with
  | attached p d h ht =>
      have hnone := waiting_eq_none_of_paces h.toPaces hw
      obtain ⟨d', es, h', ht', hb, hreason⟩ := accompanies_perform hr h ht hnone hc
      exact ⟨hrun ▸ .attached _ d' h' ht', outcome_of_becomes hr hw h'.toPaces hnone hb hreason⟩
  | leaving p d ht hleave =>
      have hnone := waiting_eq_none_of_paces ht.toPaces hw
      obtain ⟨d', es, ht', -, -, hb, hreason⟩ := tracks_perform ht hr.inOrder hnone hc
      exact ⟨hrun ▸ .leaving _ d' ht' hleave, outcome_of_becomes hr hw ht'.toPaces hnone hb hreason⟩
  | gone hgone =>
      have hgone' := hr.isDeserted (x := .call i c) nofun hgone
      obtain ⟨es, hmailbox, hsilent⟩ := (tells_perform b i c).here.mailbox
      have hes : es = [] := hsilent fun d hd => (hgone d hd).attached
      have hmail := hr.inOrder.mail_gains hmailbox
      refine ⟨.gone hgone', ?_⟩
      unfold outcome foreseen
      dsimp only
      rw [isWaiting_of_isDeserted hgone', hrun, hmail, hes]
      simp [eventsOf]

/-- What is handed over makes of a pace what it tells. -/
theorem Stage.deliver (h : Stage i b o) (hr : Reached i.session b) :
    Stage i (b.after (.deliver i.session)) (o.bind Pace.deliver) := by
  cases h with
  | attached p d h ht =>
      rw [Option.bind_some]
      obtain ⟨p', d', hp, h', ht'⟩ | ⟨hp, hgone⟩ := accompanies_deliver hr h ht
      · exact hp ▸ .attached p' d' h' ht'
      · exact hp ▸ .gone hgone
  | leaving p d ht hleave =>
      rw [Option.bind_some]
      obtain ⟨p', d', -, -, hp, -, -, -, ht'⟩ | ⟨hp, hgone⟩ :=
        tracks_handOver ht hr.inOrder (List.ne_nil_of_mem hleave)
      · exact hp ▸ .leaving p' d' ht' (Pace.disconnect_mem_deliver hp hleave)
      · exact hp ▸ .gone hgone
  | gone hgone => exact .gone (hr.isDeserted nofun hgone)

/-- What a user asks for, where nothing is on its way, makes of a pace what it tells. -/
theorem Stage.request {r : Request} {x : Deed σ} (h : Stage i b o) (hr : Reached i.session b)
    (hmail : b.world.mail i.session = []) (hx : x ≠ .dropSession i.session)
    (hpost : (b.after x).world = b.world.post i.session r)
    (hfor : ∀ p d, b.world.Accompanies i p d →
      r.IsFor i d ∧ (r.resumes = true → p.self.waiting = some .line)) :
    Stage i (b.after x) (o.map fun p => p.ask [r]) := by
  cases h with
  | attached p d h ht =>
      obtain ⟨hmeant, hstands⟩ := hfor p d h
      obtain ⟨h', ht'⟩ := accompanies_request hr h ht hmail hmeant hstands
      rw [← hpost] at h' ht'
      exact .attached _ d h' ht'
  | leaving p d ht hleave =>
      rw [ht.bears.orders_of_mail_nil hmail] at hleave
      cases hleave
  | gone hgone => exact .gone (hr.isDeserted hx hgone)

omit [Inhabited σ] [Engine σ] in
/-- To whom an order is given does not matter where there is one thread. -/
theorem ask_request (c : Command) (thread thread' : Handle) :
    (fun p : Pace => p.ask [c.request thread]) = fun p => p.ask [c.request thread'] := by
  funext p
  rw [Pace.ask, Pace.ask, List.map_singleton, List.map_singleton, nameless_request c thread thread']

/-- An order of users for a thread that can take it is put to the pace, at whatever stage the
session is. -/
theorem Stage.order {k : Nat} {c : Command} (h : Stage i b o) (hr : Reached i.session b)
    (hmail : b.world.mail i.session = []) (hk : k < (b.world.session i.session).threads.length)
    (hallows : b.world.threadAllows i.session k c = true) :
    Stage i (b.after (.order i.session k c)) (o.map fun p => p.ask [c.request ⟨0, ""⟩]) := by
  have hmem : b.world.thread i.session k ∈ (b.world.session i.session).threads := by
    rw [World.thread, Session.thread, List.getElem?_eq_getElem hk]
    exact List.getElem_mem hk
  have hsuits : c.suits (b.world.thread i.session k) = true := by
    cases c with
    | terminate =>
        have hcan : b.world.canTerminateThread i.session k = true := hallows
        unfold World.canTerminateThread at hcan
        dsimp only at hcan
        split at hcan
        · simp only [Bool.and_eq_true] at hcan
          exact hcan.1.1
        · cases hcan
    | _ => exact hallows
  have hpost : (b.after (.order i.session k c)).world
      = b.world.post i.session (c.request (b.world.thread i.session k).handle) :=
    (world_act b _).trans (worldAfter_commandThread hallows)
  rw [ask_request c ⟨0, ""⟩ (b.world.thread i.session k).handle]
  exact h.request hr hmail (by simp) hpost fun p d h' => isFor_request hr h' hmail hmem hsuits

/-- An order of users for all threads that can take it is put to the pace, at whatever stage the
session is. -/
theorem Stage.orderTarget {c : Command} (h : Stage i b o) (hr : Reached i.session b)
    (hmail : b.world.mail i.session = []) (hallows : (b.world.session i.session).allows c = true) :
    Stage i (b.after (.orderTarget i.session c)) (o.map fun p => p.ask [c.request ⟨0, ""⟩]) := by
  have hpost : (b.after (.orderTarget i.session c)).world
      = b.world.post i.session (c.request (b.world.thread i.session 0).handle) :=
    (world_act b _).trans (worldAfter_commandTarget hallows)
  rw [ask_request c ⟨0, ""⟩ (b.world.thread i.session 0).handle]
  refine h.request hr hmail nofun hpost fun p d h' => ?_
  by_cases hend : c = .terminate
  · subst hend
    exact ⟨trivial, nofun⟩
  · obtain ⟨-, hmem, hsuits⟩ := suits_of_allows hallows hend
    exact isFor_request hr h' hmail hmem hsuits

/-- Users who leave a session have its thread go on, at whatever stage the session is. -/
theorem Stage.disconnect (h : Stage i b o) (hr : Reached i.session b)
    (hmail : b.world.mail i.session = [])
    (hrunning : (b.world.session i.session).terminated = false) :
    Stage i (b.after (.disconnect i.session)) (o.map fun p => p.ask p.farewell) := by
  cases h with
  | attached p d h ht =>
      refine .leaving _ d (tracks_disconnect hr h ht hmail hrunning) ?_
      exact List.mem_append_right _ (List.mem_map_of_mem (List.mem_append_right _
        List.mem_cons_self))
  | leaving p d ht hleave =>
      rw [ht.bears.orders_of_mail_nil hmail] at hleave
      cases hleave
  | gone hgone => exact .gone (hr.isDeserted nofun hgone)

/-! ### Several deeds -/

/-- Deeds that neither fail nor end a session lead on, and a session that was left stays so. -/
theorem Reached.deeds {s : Nat} {ds : List (Deed σ)} (h : Reached s b)
    (hpoint : ∀ x ∈ ds, x.point? = none) (hkeep : ∀ x ∈ ds, x ≠ .dropSession s) :
    Reached s (Bridge.run ds b)
      ∧ (IsDeserted b.world s → IsDeserted (Bridge.run ds b).world s) := by
  induction ds generalizing b with
  | nil => exact ⟨h, id⟩
  | cons x ds ih =>
      obtain ⟨hx, hrest⟩ := List.forall_mem_cons.mp hpoint
      obtain ⟨hkeepX, hkeepRest⟩ := List.forall_mem_cons.mp hkeep
      obtain ⟨hreached, hgone⟩ := ih (h.after hx hkeepX) hrest hkeepRest
      exact ⟨hreached, fun hd => hgone (h.isDeserted hkeepX hd)⟩

omit [Inhabited σ] [Engine σ] in
/-- Nothing that happens touches breakpoints or gives a session up. -/
theorem Episode.mem_deeds {y : Deed σ} (hy : y ∈ x.deeds i) :
    y.point? = none ∧ y ≠ .dropSession i.session := by
  cases x with
  | load script n =>
      rcases List.mem_cons.mp hy with rfl | hy
      · exact ⟨rfl, nofun⟩
      · rw [List.eq_of_mem_replicate hy]
        exact ⟨rfl, nofun⟩
  | _ =>
      rw [List.mem_singleton.mp hy]
      exact ⟨rfl, nofun⟩

/-- A thread that passes a script and was asked for nothing is on its way through any number of
deliveries. -/
theorem Passes.deliveries (h : Passes i p b) (hr : Reached i.session b) (hfair : p.Fair)
    (hw : p.self.waiting = none) (ho : p.orders = []) (n : Nat) :
    Passes i p (run (List.replicate n (.deliver i.session)) b) := by
  induction n generalizing b with
  | zero => exact h
  | succ n ih => exact ih (h.deliver hr hfair hw ho) (hr.after rfl nofun)

omit [Inhabited σ] [Engine σ] in
/-- A thread that does not wait before a script any more has passed it. -/
theorem Passes.stage (h : Passes i p b) (hw : b.isWaiting i = false) : Stage i b (some p) := by
  have hheld : ∀ {d}, b.world.Accompanies i p.held d → False := fun h => by
    rw [isWaiting_of_paces h.toPaces] at hw
    cases hw
  cases h with
  | announced d x h => exact (hheld h).elim
  | answered d x h => exact (hheld h).elim
  | passed d h ht => exact .attached p d h ht

/-- A script that is loaded while nothing is on its way that users asked for leaves a pace as it
is. -/
theorem Stage.load {script : Script} {n : Nat} (h : Stage i b o) (hr : Reached i.session b)
    (hx : (Episode.load script n).Permitted i b)
    (hclear : ∀ r, .request r ∉ b.world.mail i.session) :
    Stage i (run ((Episode.load script n).deeds i) b) o := by
  obtain ⟨hw, htracked, hfree⟩ := hx
  cases h with
  | attached p d h ht =>
      have hnone := waiting_eq_none_of_paces h.toPaces hw
      have ho := ht.bears.orders_eq_nil hclear
      rw [debugger_eq h.here] at htracked
      have hpasses := announced_of_scriptStarted hr h ht hnone ho htracked
      rw [← after_call hw] at hpasses
      exact (hpasses.deliveries (hr.after rfl nofun) ht.fair hnone ho n).stage hfree
  | leaving p d ht hleave =>
      rw [ht.bears.orders_eq_nil hclear] at hleave
      cases hleave
  | gone hgone =>
      exact .gone ((hr.deeds (fun y hy => (Episode.mem_deeds hy).1)
        fun y hy => (Episode.mem_deeds hy).2).2 hgone)

/-- Whatever happens, a pace tells how calls end and what becomes of a session. -/
theorem Stage.step (h : Stage i b o) (hr : Reached i.session b) (hx : x.Permitted i b)
    (hapart : x.Apart i b) :
    Stage i (run (x.deeds i) b) (x.paces o) ∧ b.outcomes i x = x.foreseen o := by
  cases x with
  | call c =>
      obtain ⟨h', hout⟩ := h.call hr hx.1 hx.2
      exact ⟨h', congrArg (fun y => [y]) hout⟩
  | deliver => exact ⟨h.deliver hr, rfl⟩
  | order k c => exact ⟨h.order hr hx.1 hx.2.1 hx.2.2, rfl⟩
  | orderTarget c => exact ⟨h.orderTarget hr hx.1 hx.2, rfl⟩
  | disconnect => exact ⟨h.disconnect hr hx.1 hx.2, rfl⟩
  | load script n =>
      refine ⟨h.load hr hx fun r hr' => ?_, rfl⟩
      cases hapart rfl _ hr'

/-- A pace tells how all calls end. -/
theorem Stage.stops (h : Stage i b o) (hr : Reached i.session b)
    (hx : Meets Episode.Permitted i xs b) (hapart : Meets Episode.Apart i xs b) :
    Bridge.stops i xs b = Episode.foretold xs o := by
  induction xs generalizing b o with
  | nil => rfl
  | cons x xs ih =>
      obtain ⟨h', hout⟩ := h.step hr hx.1 hapart.1
      have hr' := (hr.deeds (fun y hy => (Episode.mem_deeds hy).1)
        fun y hy => (Episode.mem_deeds (x := x) hy).2).1
      rw [Bridge.stops, Episode.foretold, hout, ih h' hr' hx.2 hapart.2]

/-! ### Sessions that were just opened -/

/-- A session that was just opened goes at the pace of a thread that has not begun. -/
theorem exists_stage_launch {setup : Setup} (hb : b.world = .start)
    (hj : Joined (b.launch setup).2.world 0) (hi : i.session = 0)
    (hstartup : ((b.launch setup).2.world.session 0).options.suspendOnStartup = false)
    (hload : ((b.launch setup).2.world.session 0).options.suspendOnScriptLoad = false) :
    Reached 0 (b.launch setup).2 ∧ ∃ p, Stage i (b.launch setup).2 (some p) := by
  have hfresh : b.Fresh := ⟨World.start.reaction, hb⟩
  have hzero : b.world.sessions.size = 0 := by
    rw [hb]
    rfl
  have hreached : Reached 0 (b.launch setup).2 :=
    ⟨⟨b, [.launch setup], hb, List.forall_mem_singleton.mpr rfl, rfl⟩, _,
      candid_run hfresh [.launch setup] hj⟩
  obtain ⟨d, hopened⟩ := exists_opened_launch b setup (hzero.symm ▸ hj)
  rw [hzero] at hopened
  let w := (b.launch setup).2.world
  have hlistens : d.Listens w.nextNumber := ⟨hopened.listens, hopened.running, hopened.orderly⟩
  have hunknown : d.ofOwner? i.id = none := by
    rw [Debugger.ofOwner?, hopened.executions]
    rfl
  let p : Pace := ⟨(d.executionFor w.nextNumber i).gist, w.marks, [], d.showDynamicCode⟩
  have hwaiting : p.self.waiting = none := by
    rw [Execution.waiting_gist, Debugger.executionFor, hunknown]
    rfl
  have hpaces : w.Paces i p d := by
    refine ⟨hi.symm ▸ hopened.here, hlistens, fun x hx => ?_, hopened.table, rfl, rfl, rfl⟩
    rw [hopened.executions] at hx
    cases hx
  have hfair : p.Fair := ⟨by rw [hwaiting]; exact (Option.some_ne_none _).symm, List.forall_mem_nil _, .nil⟩
  have hbears : w.Bears i d p.orders :=
    ⟨[], [], hi.symm ▸ hopened.mail, rfl, List.forall_mem_nil _, List.forall_mem_nil _⟩
  have hrunsOn : (w.session i.session).RunsOn := by
    rw [hi]
    exact ⟨hopened.attached, hstartup, hload⟩
  refine ⟨hreached, p, .attached p d ⟨hpaces, hrunsOn, fun x hx => ?_⟩ ⟨hpaces, hfair, hbears⟩⟩
  rw [hunknown] at hx
  cases hx

/-! ### Loads and stops -/

/-- To load scripts is transparent to stepping. Where sessions that do not stop for scripts go the
same way but for the scripts that they load, at any places where nothing is on its way that users
asked for, all lines end alike. The thread stops at the same ones, and for the same reasons. -/
theorem stops_congr_loads {setup : Setup} (hb : b.world = .start)
    (hj : Joined (b.launch setup).2.world 0)
    (hstartup : ((b.launch setup).2.world.session 0).options.suspendOnStartup = false)
    (hload : ((b.launch setup).2.world.session 0).options.suspendOnScriptLoad = false)
    (hi : i.session = 0) (hxs : Meets Episode.Permitted i xs (b.launch setup).2)
    (hxsApart : Meets Episode.Apart i xs (b.launch setup).2)
    (hys : Meets Episode.Permitted i ys (b.launch setup).2)
    (hysApart : Meets Episode.Apart i ys (b.launch setup).2)
    (hsame : xs.filter (!·.isLoad) = ys.filter (!·.isLoad)) :
    stops i xs (b.launch setup).2 = stops i ys (b.launch setup).2 := by
  obtain ⟨hreached, p, hstage⟩ := exists_stage_launch (i := i) hb hj hi hstartup hload
  rw [← hi] at hreached
  rw [hstage.stops hreached hxs hxsApart, hstage.stops hreached hys hysApart,
    ← Episode.foretold_filter xs, ← Episode.foretold_filter ys, hsame]

/-- A thread steps over a call, and comes to scripts before it, within it and behind it. It stops
where it stops without them. -/
theorem stops_congr_loads_stepOver :
    let b : Bridge VariableTable := run [.launch ⟨.off, 0, true, true, true⟩] ∅
    let i : Interpreter := .idle 0 "main" 0
    let main : Script := ⟨0, "main", none, false⟩
    let lib : Script := ⟨1, "lib", none, false⟩
    let start : List Episode :=
      [.call .threadStarted, .deliver, .call (.push ⟨0, main, .file, none⟩), .order 0 .suspend,
        .deliver, .call (.line main 1), .deliver, .order 0 .stepOver, .deliver, .deliver]
    let xs : List Episode := start
      ++ [.call (.push ⟨1, lib, .function, some "f"⟩), .call (.line lib 1), .call .pop,
        .call (.line main 2)]
    let ys : List Episode := start
      ++ [.load lib 3, .call (.push ⟨1, lib, .function, some "f"⟩), .load main 2,
        .call (.line lib 1), .call .pop, .load lib 4, .load lib 2, .call (.line main 2)]
    stops i xs b = stops i ys b
      ∧ (stops i ys b).filterMap Prod.snd = [.clientRequest, .stepEnd] := by
  intro b i main lib start xs ys
  have h : stops i xs b = stops i ys b :=
    stops_congr_loads rfl ⟨by decide +kernel, by decide +kernel, by decide +kernel⟩
      (by decide +kernel) (by decide +kernel) rfl (by decide +kernel) (by decide +kernel)
      (by decide +kernel) (by decide +kernel) rfl
  exact ⟨h, by decide +kernel⟩

/-- A thread that is asked to stop, and comes to a script before its debugger hears of that, stops
behind the script. Without the script it goes on. -/
theorem stops_ne_load_behind_suspend :
    let b : Bridge VariableTable := run [.launch ⟨.off, 0, true, true, true⟩] ∅
    let i : Interpreter := .idle 0 "main" 0
    let main : Script := ⟨0, "main", none, false⟩
    let lib : Script := ⟨1, "lib", none, false⟩
    let start : List Episode :=
      [.call .threadStarted, .call (.push ⟨0, main, .file, none⟩), .deliver, .order 0 .suspend]
    let xs : List Episode := start ++ [.call (.line main 1), .deliver]
    let ys : List Episode := start ++ [.load lib 4, .call (.line main 1), .deliver]
    Joined b.world 0 ∧ (b.world.session 0).options = .off
      ∧ Meets Episode.Permitted i xs b ∧ Meets Episode.Permitted i ys b
      ∧ ys.filter (!·.isLoad) = xs
      ∧ stops i xs b = [(false, none), (false, none), (false, none)]
      ∧ stops i ys b = [(false, none), (false, none), (true, some .clientRequest)] :=
  ⟨⟨by decide +kernel, by decide +kernel, by decide +kernel⟩, by decide +kernel,
    by decide +kernel, by decide +kernel, rfl, by decide +kernel, by decide +kernel⟩

end Bridge

end DebugBridge
