import DebugBridge.Proofs.Ledger
import DebugBridge.Proofs.Telling

/-!
# The history of a session

A run of a session is a history of its debugger, as long as the session stays joined. What each deed
adds to the history is what the deed is for the session: a thread makes a call, or the debugger takes
a request, or nothing arrives and nothing is served.

## Main definitions

* `Bridge.arriving`, `Bridge.serving`: what arrives at the threads of a session by a deed, and what
  they serve;
* `Bridge.arrivedIn`, `Bridge.servedIn`: the same for a run.

## Main results

* `exists_attends_after`: what a deed does to a session that remains joined becomes a part of its
  history;
* `attends_run`: what arrived at the threads of a session in a run, what they served and what was
  told of it make up a history of its debugger.
-/

namespace DebugBridge

namespace Bridge

open World

variable {σ : Type} [Inhabited σ] [Engine σ] {s : Nat} {b b' : Bridge σ} {ds : List (Deed σ)}
  {x : Deed σ} {as : List (Handle × Request)} {vs : List (Service σ)} {es : List Event}

/-- A bridge on which a request was taken and is about to be looked into. -/
def presented (s : Nat) (r : Request) (b : Bridge σ) : Bridge σ :=
  (b.offered s (.request r)).onWorld (·.noteReceived s r)

/-- What arrives at the threads of a session by a deed. -/
def arriving (s : Nat) (b : Bridge σ) (x : Deed σ) : List (Handle × Request) :=
  match b.handed s x with
  | some (.request r) => (b.presented s r).arrivals s r
  | _ => []

/-- What the threads of a session serve by a deed: a call, or a request that is handed over. -/
def serving (s : Nat) (b : Bridge σ) (x : Deed σ) : List (Service σ) :=
  match x with
  | .call i c => if i.session = s ∧ b.isWaiting i = false then b.performed i c else []
  | x =>
    match b.handed s x with
    | some (.request r) => (b.presented s r).received s r
    | _ => []

/-- What arrives at the threads of a session in a run, oldest first. -/
def arrivedIn (s : Nat) : List (Deed σ) → Bridge σ → List (Handle × Request)
  | [], _ => []
  | x :: ds, b => b.arriving s x ++ arrivedIn s ds (b.after x)

/-- What the threads of a session serve in a run, oldest first. -/
def servedIn (s : Nat) : List (Deed σ) → Bridge σ → List (Service σ)
  | [], _ => []
  | x :: ds, b => b.serving s x ++ servedIn s ds (b.after x)

/-- What arrives in a run arrives deed by deed. -/
theorem arrivedIn_append_singleton (ds : List (Deed σ)) (x : Deed σ) (b : Bridge σ) :
    arrivedIn s (ds ++ [x]) b = arrivedIn s ds b ++ (run ds b).arriving s x := by
  induction ds generalizing b with
  | nil => exact List.append_nil _
  | cons y ds ih => rw [List.cons_append, arrivedIn, arrivedIn, ih, List.append_assoc, run_cons]

/-- What is served in a run is served deed by deed. -/
theorem servedIn_append_singleton (ds : List (Deed σ)) (x : Deed σ) (b : Bridge σ) :
    servedIn s (ds ++ [x]) b = servedIn s ds b ++ (run ds b).serving s x := by
  induction ds generalizing b with
  | nil => exact List.append_nil _
  | cons y ds ih => rw [List.cons_append, servedIn, servedIn, ih, List.append_assoc, run_cons]

/-! ### What a deed adds -/

omit [Inhabited σ] [Engine σ] in
/-- What arrives was handed over. -/
theorem handed_of_mem_arriving {e : Handle × Request} (h : e ∈ b.arriving s x) :
    b.handed s x = some (.request e.2) := by
  unfold arriving at h
  split at h
  · next r hm =>
      obtain ⟨y, -, rfl⟩ := List.mem_map.mp h
      exact hm
  · cases h

omit [Inhabited σ] [Engine σ] in
/-- To take a request changes nothing of a session but what waits for it. -/
theorem takes_presented (b : Bridge σ) (r : Request) : Takes s b.world (b.presented s r).world :=
  (takes_take b).of_sessions rfl rfl rfl rfl rfl rfl

/-- The debugger of a session takes the request that it is handed. -/
theorem after_of_handed_request {r : Request} (hm : b.handed s x = some (.request r))
    (hd : (b.world.session s).debugger.isSome = true) : b.after x = (b.presented s r).receive s r := by
  obtain rfl := eq_deliver_of_handed hm
  have htaken : (b.take s).1 = some (.request r) := (if_pos rfl).symm.trans hm
  have hpair : b.take s = (some (.request r), (b.take s).2) := Prod.ext htaken rfl
  have hpresent : ((b.presented s r).world.session s).debugger.isSome = true := by
    rw [(takes_presented b r).here]
    exact hd
  change b.handOver s = _
  rw [handOver, hpair]
  exact if_pos hpresent

omit [Inhabited σ] [Engine σ] in
/-- Who makes no call and is handed no request has nothing arrive and serves nothing. -/
theorem arriving_eq_nil (hm : ∀ r, b.handed s x ≠ some (.request r)) : b.arriving s x = [] := by
  unfold arriving
  split
  · next r hr => exact absurd hr (hm r)
  · rfl

/-- Nothing is served by a deed that hands no request over and is no call of a thread that goes on.
-/
theorem serving_eq_nil (hm : ∀ r, b.handed s x ≠ some (.request r))
    (hx : ∀ i c, x = .call i c → ¬(i.session = s ∧ b.isWaiting i = false)) : b.serving s x = [] := by
  unfold serving
  split
  · next i c => exact if_neg (hx i c rfl)
  · split
    · next r hr => exact absurd hr (hm r)
    · rfl

/-- What is served by a request that is handed over is what is received of it. -/
theorem serving_of_handed {r : Request} (hm : b.handed s x = some (.request r)) :
    b.serving s x = (b.presented s r).received s r := by
  obtain rfl := eq_deliver_of_handed hm
  unfold serving
  dsimp only
  rw [hm]

/-- A call that a thread makes becomes a part of the history of its session. -/
theorem exists_attends_call {b₀ : Bridge σ} {showDynamicCode attached : Bool} {i : Interpreter}
    (hstart : (b₀.world.session s).debugger = some (.start showDynamicCode attached))
    (h : Attends s as vs es b₀ b) (hin : b.world.InOrder s) (hi : i.session = s)
    (hw : b.isWaiting i = false) (c : Call) :
    ∃ ms, Attends s as (vs ++ b.performed i c) (es ++ eventsOf ms) b₀ (b.perform i c).2
      ∧ b.world.mail s ++ ms = (b.perform i c).2.world.mail s := by
  obtain ⟨d, hd⟩ := accounted_attends hstart h
  obtain ⟨d', new, -, hg⟩ := hd.call hi c
  refine ⟨new.map .event, ?_, (hin.mail_gains hg).symm⟩
  rw [eventsOf_event]
  exact h.call i c new hi hw hin.isOpen hg

/-- A request that is handed over becomes a part of the history of its session. -/
theorem exists_attends_request {b₀ : Bridge σ} {showDynamicCode attached : Bool} {r : Request}
    (hstart : (b₀.world.session s).debugger = some (.start showDynamicCode attached))
    (h : Attends s as vs es b₀ b) (hin : b.world.InOrder s) (hm : b.handed s x = some (.request r)) :
    ∃ ms, Attends s (as ++ b.arriving s x) (vs ++ b.serving s x) (es ++ eventsOf ms) b₀ (b.after x)
      ∧ b.world.mail s ++ ms = .request r :: (b.after x).world.mail s := by
  have hrun := after_of_handed_request hm hin.present
  have hu := takes_presented (s := s) b r
  obtain ⟨hinU, hmail⟩ := hin.takes hu (take_of_handed hm)
  have hdebugger : ((b.presented s r).world.session s).debugger = (b.world.session s).debugger := by
    rw [hu.here]
  have hattends := h.besides _ hdebugger (Nat.le_of_eq hu.numbers.symm)
  obtain ⟨d, hd⟩ := accounted_attends hstart hattends
  obtain ⟨d', new, -, hg⟩ := hd.take r
  have harriving : b.arriving s x = (b.presented s r).arrivals s r := by rw [arriving, hm]
  have hserving := serving_of_handed hm
  refine ⟨new.map .event, ?_, ?_⟩
  · rw [harriving, hserving, eventsOf_event, hrun]
    exact hattends.take r new hinU.isOpen hg
  · rw [hmail, hrun, hinU.mail_gains hg]
    rfl

/-- What a deed does to a session that remains joined becomes a part of its history. -/
theorem exists_attends_after {b₀ : Bridge σ} {showDynamicCode attached : Bool}
    (hstart : (b₀.world.session s).debugger = some (.start showDynamicCode attached))
    (h : Attends s as vs es b₀ b) (hin : b.world.InOrder s) (hj : Joined (b.after x).world s)
    (hs : Stirs s b x (b.after x)) :
    ∃ ms, Attends s (as ++ b.arriving s x) (vs ++ b.serving s x) (es ++ eventsOf ms) b₀ (b.after x)
      ∧ b.world.mail s ++ ms = (b.handed s x).toList ++ (b.after x).world.mail s := by
  by_cases hcall : ∃ i c, x = .call i c ∧ i.session = s ∧ b.isWaiting i = false
  · obtain ⟨i, c, rfl, hi, hw⟩ := hcall
    have hrun : b.after (.call i c) = (b.perform i c).2 := if_neg (by simp [hw])
    have hserving : b.serving s (.call i c) = b.performed i c := if_pos ⟨hi, hw⟩
    have harriving : b.arriving s (.call i c) = [] :=
      arriving_eq_nil fun r hr => by cases eq_deliver_of_handed hr
    rw [hserving, harriving, List.append_nil, hrun]
    exact exists_attends_call hstart h hin hi hw c
  by_cases hrequest : ∃ r, b.handed s x = some (.request r)
  · obtain ⟨r, hm⟩ := hrequest
    rw [hm]
    exact exists_attends_request hstart h hin hm
  have hnone : ∀ r, b.handed s x ≠ some (.request r) := fun r hr => hrequest ⟨r, hr⟩
  rw [arriving_eq_nil hnone, serving_eq_nil hnone fun i c hx hi => hcall ⟨i, c, hx, hi⟩,
    List.append_nil, List.append_nil]
  have hbesides : ∀ rs : List Request,
      ((b.after x).world.session s).debugger = (b.world.session s).debugger →
      b.world.nextNumber ≤ (b.after x).world.nextNumber →
      Attends s as vs (es ++ eventsOf (rs.map .request)) b₀ (b.after x) := by
    intro rs hdebugger hn
    rw [eventsOf_request, List.append_nil]
    exact h.besides _ hdebugger hn
  have hended : ∀ {w : World}, ¬Shuts s w (b.after x).world := by
    intro w hshuts
    have hattached := hj.attached
    rw [hshuts.attached] at hattached
    cases hattached
  cases hs with
  | sent hm hsends =>
      obtain ⟨rs, -, hbox⟩ := hsends.here.mailbox
      refine ⟨rs.map .request, hbesides rs hsends.here.debugger hsends.numbers, ?_⟩
      rw [hm, hin.mail_gains hbox]
      rfl
  | heard e u hm hu he hsends =>
      obtain ⟨hinU, hmail⟩ := hin.takes hu (take_of_handed hm)
      obtain ⟨rs, -, hbox⟩ := hsends.here.mailbox
      have hdebugger : (u.session s).debugger = (b.world.session s).debugger := by rw [hu.here]
      refine ⟨rs.map .request, hbesides rs (hsends.here.debugger.trans hdebugger)
        (hu.numbers ▸ hsends.numbers), ?_⟩
      rw [hm, hmail, hinU.mail_gains hbox]
      rfl
  | ended u hm hu ha hshuts => exact absurd hshuts hended
  | called i c hx hi hw => exact absurd ⟨i, c, hx, hi, hw⟩ hcall
  | obeyed r u hm => exact absurd hm (hnone r)
  | left u hx ht hu hshuts => exact absurd hshuts hended

/-! ### Sessions that are opened -/

omit [Inhabited σ] [Engine σ] in
/-- A thread is held at a gate only by a debugger that listens. -/
theorem attached_of_heldAt {i : Interpreter} {gate : Gate} {event : Execution → Event}
    {found : Execution × Bridge σ} (h : b.heldAt i gate event = some found) :
    (b.world.debugger i.session).attached = true := by
  unfold heldAt at h
  split at h
  · assumption
  · cases h

omit [Inhabited σ] [Engine σ] in
/-- Only a debugger that is attached holds threads up. -/
theorem attached_of_heldUp {i : Interpreter} {c : Call} {found : Execution × Bridge σ}
    (h : b.heldUp i c = some found) : (b.world.debugger i.session).attached = true := by
  obtain ⟨w, gate, event, hheld, hw⟩ := exists_heldAt_of_heldUp h
  have hattached := attached_of_heldAt hheld
  obtain rfl | ⟨script, line, rfl⟩ := hw
  · exact (attached_executionOf b.world i).symm.trans hattached
  · exact (attached_reachLine b.world i script line).symm.trans hattached

/-- A thread performs nothing for a debugger that no longer listens. -/
theorem performed_eq_nil {i : Interpreter} (h : (b.world.debugger i.session).attached = false)
    (c : Call) : b.performed i c = [] := by
  cases hheld : b.heldUp i c with
  | none => rw [performed, hheld]
  | some found =>
      rw [attached_of_heldUp hheld] at h
      cases h

/-- Nothing is served for a session that was not opened yet. -/
theorem serving_of_le (h : b.world.sessions.size ≤ s) : b.serving s x = [] := by
  by_cases hcall : ∃ i c, x = .call i c ∧ i.session = s ∧ b.isWaiting i = false
  · obtain ⟨i, c, rfl, rfl, hw⟩ := hcall
    have habsent : (b.world.debugger i.session).attached = false := by
      rw [World.debugger, session_of_le h]
      rfl
    exact (if_pos ⟨rfl, hw⟩).trans (performed_eq_nil habsent c)
  · exact serving_eq_nil (fun r hr => absurd (lt_of_handed hr) (Nat.not_lt.mpr h))
      fun i c hx hi => hcall ⟨i, c, hx, hi⟩

/-- Nothing is served in a session that was never opened. -/
theorem servedIn_of_le (h : (run ds b).world.sessions.size ≤ s) : servedIn s ds b = [] := by
  induction ds using List.reverseRecOn with
  | nil => rfl
  | append_singleton ds x ih =>
      rw [run_append] at h
      have hbefore := Nat.le_trans (size_after_le (run ds b) x) h
      rw [servedIn_append_singleton, ih hbefore, serving_of_le hbefore]
      rfl

/-- Nothing arrives in a session that was never opened. -/
theorem arrivedIn_of_le (h : (run ds b).world.sessions.size ≤ s) : arrivedIn s ds b = [] := by
  induction ds using List.reverseRecOn with
  | nil => rfl
  | append_singleton ds x ih =>
      rw [run_append] at h
      have hbefore := Nat.le_trans (size_after_le (run ds b) x) h
      have harriving : (run ds b).arriving s x = [] :=
        arriving_eq_nil fun r hr => absurd (lt_of_handed hr) (Nat.not_lt.mpr hbefore)
      rw [arrivedIn_append_singleton, ih hbefore, harriving]
      rfl

/-- Nothing arrived so far at the threads of a session that is opened. -/
theorem arrivedIn_launch (ds : List (Deed σ)) (setup : Setup) (b : Bridge σ) :
    arrivedIn (run ds b).world.sessions.size (ds ++ [.launch setup]) b = [] := by
  rw [arrivedIn_append_singleton, arrivedIn_of_le (Nat.le_refl _)]
  rfl

/-- The threads of a session that is opened served nothing so far. -/
theorem servedIn_launch (ds : List (Deed σ)) (setup : Setup) (b : Bridge σ) :
    servedIn (run ds b).world.sessions.size (ds ++ [.launch setup]) b = [] := by
  rw [servedIn_append_singleton, servedIn_of_le (Nat.le_refl _)]
  rfl

omit [Inhabited σ] [Engine σ] in
/-- A session that was just opened has a new debugger. -/
theorem debugger_of_opened {w : World} {d : Debugger} (h : Opened w s d) :
    (w.session s).debugger = some (.start d.showDynamicCode true) := by
  rw [h.here]
  obtain ⟨showDynamicCode, attached, terminated, executions, table⟩ := d
  obtain rfl : attached = true := h.listens
  obtain rfl : terminated = false := h.running
  obtain rfl : executions = [] := h.executions
  obtain rfl : table = [] := h.table
  rfl

/-- A run of a session that is joined is a history of its debugger. What arrived, what was served and
what was told in that history is what arrived, what was served and what was told in the run. -/
theorem attends_run (hb : b.Fresh) (ds : List (Deed σ)) (hj : Joined (run ds b).world s) :
    ∃ (b₀ : Bridge σ) (showDynamicCode : Bool),
      (b₀.world.session s).debugger = some (.start showDynamicCode true)
        ∧ Attends s (arrivedIn s ds b) (servedIn s ds b) (told s ds b) b₀ (run ds b) := by
  refine joined_induction hb (J := fun ds => ∃ (b₀ : Bridge σ) (showDynamicCode : Bool),
    (b₀.world.session s).debugger = some (.start showDynamicCode true)
      ∧ Attends s (arrivedIn s ds b) (servedIn s ds b) (told s ds b) b₀ (run ds b))
    (fun ds setup d hsize hopened => ?_) (fun ds x hbefore ih hj => ?_) ds hj
  · subst hsize
    rw [arrivedIn_launch, servedIn_launch, told_launch hopened]
    exact ⟨_, d.showDynamicCode, debugger_of_opened hopened, .start _⟩
  · obtain ⟨b₀, showDynamicCode, hstart, hattends⟩ := ih
    have hin := (candid_run hb ds hbefore).inOrder
    have hstirs := stirs_after (run ds b) hin x (ne_dropSession_of_joined hj)
    obtain ⟨ms, hattends', hmail⟩ := exists_attends_after hstart hattends hin hj hstirs
    refine ⟨b₀, showDynamicCode, hstart, ?_⟩
    rw [arrivedIn_append_singleton, servedIn_append_singleton, told_append_singleton hmail, run_append]
    exact hattends'

end Bridge

end DebugBridge
