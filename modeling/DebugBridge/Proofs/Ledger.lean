import DebugBridge.Proofs.Services

/-!
# Requests are served once and in order

All that arrives at a thread, and all that it serves, can be written down as it happens. What a
thread has served so far, followed by what it puts off, is what has arrived. And a thread that waits
puts nothing off. So a thread serves in each stop what arrived before the stop and during it, and
nothing twice, and it answers in the order in which it was asked.

## Main definitions

* `Bridge.Attends`: a history of a debugger, with what arrived, what was served and what was told;
* `Bridge.Accounted`: a debugger that served what it should.

## Main results

* `Ledger.serve`, `Ledger.arrive`, `Ledger.arrive_serve`: what one step does to the accounts;
* `accounted_attends`: every debugger is accounted for, in every history.
-/

namespace DebugBridge

/-- What arrived at a thread, oldest first. -/
def arrived (thread : Handle) (arrivals : List (Handle × Request)) : List Request :=
  (arrivals.filter fun e => e.1.id = thread.id).map Prod.snd

/-- What a thread served, oldest first. -/
def served {σ : Type} (thread : Handle) (services : List (Service σ)) : List Request :=
  (services.filter fun v => v.thread.handle.id = thread.id).map Service.request

section

variable {σ : Type} {thread other : Handle} {as as' : List (Handle × Request)}
  {vs vs' : List (Service σ)}

/-- What arrived at a thread in two parts arrived in one part and then in the other. -/
theorem arrived_append : arrived thread (as ++ as') = arrived thread as ++ arrived thread as' := by
  simp [arrived]

/-- What a thread served in two parts it served in one part and then in the other. -/
theorem served_append : served thread (vs ++ vs') = served thread vs ++ served thread vs' := by
  simp [served]

/-- All that is served by one thread is served by it. -/
theorem served_of_handle (h : ∀ v ∈ vs, v.thread.handle.id = thread.id) :
    served thread vs = vs.map Service.request := by
  rw [served, List.filter_eq_self.mpr fun v hv => by simpa using h v hv]

/-- What one thread serves is not served by another. -/
theorem served_of_ne (h : ∀ v ∈ vs, v.thread.handle.id = other.id) (hne : other.id ≠ thread.id) :
    served thread vs = [] := by
  rw [served, List.filter_eq_nil_iff.mpr fun v hv => by simp [h v hv, hne]]
  rfl

end

namespace Debugger

/-- The accounts of a debugger: what each of its threads served so far, followed by what it puts
off, is what arrived at it. No thread served more than arrived. -/
structure Ledger {σ : Type} (as : List (Handle × Request)) (vs : List (Service σ)) (d : Debugger)
    (n : Nat) : Prop where
  orderly : d.Orderly n
  upright : d.Upright
  balance : ∀ x ∈ d.executions, arrived x.handle as = served x.handle vs ++ x.pending
  prefixed : ∀ thread, served thread vs <+: arrived thread as
  known : ∀ e ∈ as, e.1.id < n

namespace Ledger

variable {σ : Type} {as : List (Handle × Request)} {vs vs' : List (Service σ)} {d d' : Debugger}
  {n n' : Nat} {x y : Execution}

/-- A thread that is seen for the first time was not asked for anything. -/
theorem arrived_eq_nil (h : Ledger as vs d n) {thread : Handle} (hid : n ≤ thread.id) :
    arrived thread as = [] := by
  rw [arrived, List.filter_eq_nil_iff.mpr fun e he => by
    have hlt := h.known e he
    simp only [decide_eq_true_eq]
    omega]
  rfl

/-- The accounts of a debugger that remembers them are in order. -/
theorem recalls (h : Ledger as vs d n) (hn : n ≤ n') (hr : d.Recalls n d') (ho : d'.Orderly n')
    (hu : d'.Upright) : Ledger as vs d' n' := by
  refine ⟨ho, hu, fun x' hx' => ?_, h.prefixed, fun e he => Nat.lt_of_lt_of_le (h.known e he) hn⟩
  obtain ⟨x, hx, hf⟩ | ⟨hid, hp, -⟩ := hr x' hx'
  · rw [hf.handle, hf.pending]
    exact h.balance x hx
  · have hnone := h.arrived_eq_nil hid
    have hserved := h.prefixed x'.handle
    rw [hnone, List.prefix_nil] at hserved
    rw [hnone, hserved, hp]
    rfl

/-- Accounts that are in order remain so when later numbers are free. -/
theorem mono (h : Ledger as vs d n) (hn : n ≤ n') : Ledger as vs d n' :=
  h.recalls hn (.refl d n) (h.orderly.mono hn) h.upright

/-- A thread may come to wait, while its debugger is attached. -/
theorem hold (h : Ledger as vs d n) (ha : d.attached = true) (hy : y ∈ d.executions)
    (gate : Gate) : Ledger as vs (d.put { y with waiting := some gate }) n := by
  refine ⟨h.orderly.put hy rfl rfl, fun _ _ _ => ha, fun z hz => ?_, h.prefixed, h.known⟩
  obtain ⟨hz, -⟩ | ⟨rfl, -⟩ := mem_put hz
  · exact h.balance z hz
  · exact h.balance y hy

/-- A thread serves what it put off. -/
theorem serve (h : Ledger as vs d n) (hx : x ∈ d.executions)
    (hrequests : vs'.map Service.request = x.pending)
    (hthread : ∀ v ∈ vs', v.thread.handle = x.handle) :
    Ledger as (vs ++ vs') (d.put { x with pending := [] }) n := by
  have hids : ∀ v ∈ vs', v.thread.handle.id = x.handle.id := fun v hv => by rw [hthread v hv]
  have hself : served x.handle (vs ++ vs') = served x.handle vs ++ x.pending := by
    rw [served_append, served_of_handle hids, hrequests]
  have hother : ∀ {thread : Handle}, x.handle.id ≠ thread.id →
      served thread (vs ++ vs') = served thread vs := fun hne => by
    rw [served_append, served_of_ne hids hne, List.append_nil]
  refine ⟨h.orderly.put hx rfl rfl, ?_, fun z hz => ?_, fun thread => ?_, h.known⟩
  · intro z hz hw
    obtain ⟨hz, -⟩ | ⟨rfl, -⟩ := mem_put hz
    · exact h.upright z hz hw
    · exact h.upright x hx hw
  · obtain ⟨hz, hne⟩ | ⟨rfl, -⟩ := mem_put hz
    · have hid : x.handle.id ≠ z.handle.id := fun hid =>
        hne (congrArg Execution.owner (h.orderly.eq_of_handle hx hz hid)).symm
      rw [hother hid]
      exact h.balance z hz
    · change arrived x.handle as = served x.handle (vs ++ vs') ++ []
      rw [hself, List.append_nil]
      exact h.balance x hx
  · by_cases hid : x.handle.id = thread.id
    · have hsame : served thread (vs ++ vs') = served x.handle (vs ++ vs') := by
        rw [served, served, hid]
      have harrived : arrived thread as = arrived x.handle as := by rw [arrived, arrived, hid]
      have hall : served thread (vs ++ vs') = arrived thread as := by
        rw [hsame, hself, harrived, h.balance x hx]
      exact ⟨[], by rw [List.append_nil, hall]⟩
    · rw [hother hid]
      exact h.prefixed thread

/-- A request arrives at a thread, which puts it off. -/
theorem arrive (h : Ledger as vs d n) (hx : x ∈ d.executions) (r : Request) :
    Ledger (as ++ [(x.handle, r)]) vs (d.put { x with pending := x.pending ++ [r] }) n := by
  refine ⟨h.orderly.put hx rfl rfl, ?_, fun z hz => ?_, fun thread => ?_, fun e he => ?_⟩
  · intro z hz hw
    obtain ⟨hz, -⟩ | ⟨rfl, -⟩ := mem_put hz
    · exact h.upright z hz hw
    · exact h.upright x hx hw
  · rw [arrived_append]
    obtain ⟨hz, hne⟩ | ⟨rfl, -⟩ := mem_put hz
    · have hid : x.handle.id ≠ z.handle.id := fun hid =>
        hne (congrArg Execution.owner (h.orderly.eq_of_handle hx hz hid)).symm
      rw [h.balance z hz]
      simp [arrived, hid]
    · change arrived x.handle as ++ arrived x.handle [(x.handle, r)] = _
      rw [h.balance x hx, List.append_assoc]
      simp [arrived]
  · rw [arrived_append]
    exact (h.prefixed thread).trans (List.prefix_append _ _)
  · rcases List.mem_append.mp he with he | he
    · exact h.known e he
    · rw [List.mem_singleton.mp he]
      exact h.orderly.below x hx

/-- A request arrives at a thread that puts nothing off, and the thread serves it at once. -/
theorem arrive_serve (h : Ledger as vs d n) (hx : x ∈ d.executions) (hp : x.pending = [])
    (v : Service σ) (hv : v.thread = x) :
    Ledger (as ++ [(x.handle, v.request)]) (vs ++ [v]) d n := by
  let y : Execution := { x with pending := x.pending ++ [v.request] }
  have hy : y ∈ (d.put y).executions := mem_put_self hx rfl
  have hrequests : [v].map Service.request = y.pending := by simp [y, hp]
  have hthread : ∀ v' ∈ [v], v'.thread.handle = y.handle := by simp [y, hv]
  have hserve := (h.arrive hx v.request).serve hy hrequests hthread
  have hback : ({ x with pending := [] } : Execution) = x := by rw [← hp]
  have hsame : (d.put y).put { x with pending := [] } = d := by
    have hput : (d.put y).put { x with pending := [] } = d.put { x with pending := [] } :=
      d.put_put rfl
    rw [hput, hback, h.orderly.put_self hx]
  change Ledger _ _ ((d.put y).put { x with pending := [] }) n at hserve
  rwa [hsame] at hserve

end Ledger

end Debugger

/-! ### Histories of a debugger -/

/-- Events that came to the end of a mailbox are known from what the mailbox holds. -/
theorem Mailbox.Gains.unique {box box' : Mailbox Message} {es es' : List Event}
    (h : box.Gains (es.map .event) box') (h' : box.Gains (es'.map .event) box')
    (ho : box.isOpen = true) : es = es' := by
  have hqueue := (h.queue ho).symm.trans (h'.queue ho)
  have hmap := List.append_cancel_left hqueue
  rw [List.map_map, List.map_map] at hmap
  exact (List.map_inj_right fun e e' heq => Message.event.inj (Envelope.message.inj heq)).mp hmap

namespace Bridge

open World Debugger

variable {σ : Type} [Inhabited σ] [Engine σ] {s : Nat} {as : List (Handle × Request)}
  {vs : List (Service σ)} {es : List Event} {b b' : Bridge σ} {w w' : World} {d : Debugger}

/-- A history of the debugger of a session, from a state to another: what arrived at its threads,
what they served, and what it told. Threads make calls unless they wait, and the debugger takes
requests, whatever they are. What happens besides leaves it as it is. -/
inductive Attends (s : Nat) : List (Handle × Request) → List (Service σ) → List Event →
    Bridge σ → Bridge σ → Prop where
  | start (b : Bridge σ) : Attends s [] [] [] b b
  /-- A thread makes a call. -/
  | call {as : List (Handle × Request)} {vs : List (Service σ)} {es : List Event} {b b' : Bridge σ}
      (h : Attends s as vs es b b') (i : Interpreter) (c : Call) (new : List Event)
      (hi : i.session = s) (hw : b'.isWaiting i = false)
      (ho : (b'.world.session s).mailbox.isOpen = true)
      (hg : (b'.world.session s).mailbox.Gains (new.map .event)
        ((b'.perform i c).2.world.session s).mailbox) :
      Attends s as (vs ++ b'.performed i c) (es ++ new) b (b'.perform i c).2
  /-- The debugger takes a request. -/
  | take {as : List (Handle × Request)} {vs : List (Service σ)} {es : List Event} {b b' : Bridge σ}
      (h : Attends s as vs es b b') (r : Request) (new : List Event)
      (ho : (b'.world.session s).mailbox.isOpen = true)
      (hg : (b'.world.session s).mailbox.Gains (new.map .event)
        ((b'.receive s r).world.session s).mailbox) :
      Attends s (as ++ b'.arrivals s r) (vs ++ b'.received s r) (es ++ new) b (b'.receive s r)
  /-- Something else happens. -/
  | besides {as : List (Handle × Request)} {vs : List (Service σ)} {es : List Event}
      {b b' : Bridge σ} (h : Attends s as vs es b b') (b'' : Bridge σ)
      (hd : (b''.world.session s).debugger = (b'.world.session s).debugger)
      (hn : b'.world.nextNumber ≤ b''.world.nextNumber) : Attends s as vs es b b''

/-- A debugger that served what it should. Its accounts are in order, threads that wait put nothing
off, threads served while they were held up, and what was answered is what they answered, in order. -/
structure Accounted (s : Nat) (as : List (Handle × Request)) (vs : List (Service σ))
    (es : List Event) (w : World) (d : Debugger) : Prop where
  here : (w.session s).debugger = some d
  ledger : d.Ledger as vs w.nextNumber
  idle : ∀ x ∈ d.executions, x.waiting.isSome = true → x.pending = []
  held : ∀ v ∈ vs, v.IsHeld s
  told : es.filter Event.isAnswer = vs.flatMap (Service.answer s)

namespace Accounted

/-- What is remembered is accounted for. -/
theorem recalls (h : Accounted s as vs es w d) (hr : Recalls s w w') :
    ∃ d' new, Accounted s as vs (es ++ new) w' d'
      ∧ (w.session s).mailbox.Gains (new.map .event) (w'.session s).mailbox := by
  obtain ⟨hn, ⟨d', hd', hrecalls, ho', hu⟩, new, hnew, hg⟩ := hr d h.here h.ledger.orderly
  refine ⟨d', new, ⟨hd', h.ledger.recalls hn hrecalls ho' (hu h.ledger.upright), ?_, h.held, ?_⟩, hg⟩
  · intro x' hx' hw
    obtain ⟨x, hx, hf⟩ | ⟨-, hp, -⟩ := hrecalls x' hx'
    · exact hf.pending.trans (h.idle x hx (hf.waiting hw))
    · exact hp
  · have hnone : new.filter Event.isAnswer = [] :=
      List.filter_eq_nil_iff.mpr fun e he => by simp [hnew e he]
    rw [List.filter_append, hnone, List.append_nil]
    exact h.told

/-- A thread that is held up serves what it was asked for. -/
theorem holdsUp (h : Accounted s as vs es w d) {x : Execution} {u : Bridge σ}
    (hx : HoldsUp s w x u.world) :
    ∃ d' new, Accounted s as (vs ++ services s x x.pending u) (es ++ new)
        (serveAll s x x.pending u).world d'
      ∧ (w.session s).mailbox.Gains (new.map .event)
        ((serveAll s x x.pending u).world.session s).mailbox := by
  obtain ⟨v, d₁, y, gate, e, hv, hd₁, ha, hy, rfl, he, hu⟩ := hx
  obtain ⟨d', es₁, h₁, hg₁⟩ := h.recalls hv
  obtain rfl := Option.some.inj (h₁.here.symm.trans hd₁)
  let x : Execution := { y with waiting := some gate }
  have hheld := (h₁.ledger.hold ha hy gate).mono hu.tells.numbers
  have hx : { x with pending := x.pending } ∈ (d'.put x).executions := mem_put_self hy rfl
  obtain ⟨hserved, hvs⟩ := becomes_serveAll (x := x) hheld.orderly hu.debugger ha rfl hx
  have hledger := (hheld.serve hx (requests_services s x x.pending u)
    (handle_services s x x.pending u)).mono hserved.tells.numbers
  let answers := (services s x x.pending u).flatMap (Service.answer s)
  refine ⟨_, es₁ ++ (e :: answers), ⟨hserved.debugger, hledger, fun z hz hw => ?_, fun v hv => ?_, ?_⟩,
    ?_⟩
  · obtain ⟨hz, hne⟩ | ⟨rfl, -⟩ := mem_put hz
    · obtain ⟨hz, -⟩ | ⟨rfl, -⟩ := mem_put hz
      · exact h₁.idle z hz hw
      · exact absurd rfl hne
    · rfl
  · exact (List.mem_append.mp hv).elim (h.held v) (hvs v)
  · have hall : answers.filter Event.isAnswer = answers :=
      List.filter_eq_self.mpr fun e he => by
        obtain ⟨v, -, he⟩ := List.mem_flatMap.mp he
        exact isAnswer_answer _ _ _ _ e he
    rw [← List.append_assoc, List.filter_append, h₁.told, List.filter_cons_of_neg (by simp [he]),
      hall, List.flatMap_append]
  · rw [List.map_append]
    exact hg₁.trans (hu.mailbox.trans hserved.mailbox)

/-- A thread makes a call. -/
theorem call (h : Accounted s as vs es b.world d) {i : Interpreter} (hi : i.session = s)
    (c : Call) :
    ∃ d' new, Accounted s as (vs ++ b.performed i c) (es ++ new) (b.perform i c).2.world d'
      ∧ (b.world.session s).mailbox.Gains (new.map .event)
        ((b.perform i c).2.world.session s).mailbox := by
  subst hi
  obtain ⟨hnone, hr⟩ | ⟨x, u, hsome, hx, hserve⟩ := perform_cases b i c
  · rw [performed, hnone, List.append_nil]
    exact h.recalls hr
  · rw [performed, hsome, hserve]
    exact h.holdsUp hx

/-- The debugger takes a request. -/
theorem take (h : Accounted s as vs es b.world d) (r : Request) :
    ∃ d' new, Accounted s (as ++ b.arrivals s r) (vs ++ b.received s r) (es ++ new)
        (b.receive s r).world d'
      ∧ (b.world.session s).mailbox.Gains (new.map .event)
        ((b.receive s r).world.session s).mailbox := by
  have hmem : ∀ {x}, b.asked s r = some x → x ∈ d.executions := by
    intro x hx
    unfold asked at hx
    rw [debugger_eq h.here] at hx
    split at hx
    · cases hx
    · obtain ⟨handle, -, hx⟩ := Option.bind_eq_some_iff.mp hx
      exact mem_of_ofHandle? hx
  cases receives b s r with
  | passed hx hr =>
      rw [arrivals, received, hx, Option.toList_none, List.map_nil, List.append_nil,
        List.append_nil]
      exact h.recalls hr
  | putOff x u hx hw hs hn hrun =>
      let x' : Execution := { x with pending := x.pending ++ [r] }
      have hsession : u.session s = b.world.session s := by rw [session, session, hs]
      have hput : (u.putExecution s x').session s
          = { b.world.session s with debugger := some (d.put x') } := by
        rw [putExecution, session_modifyDebugger, if_pos rfl, hsession, h.here]
        rfl
      have hreceived : b.received s r = [] := by
        rw [received, hx]
        exact if_neg (by simp [hw])
      rw [arrivals, hreceived, hx, Option.toList_some, List.append_nil, hrun]
      refine ⟨d.put x', [], ⟨?_, ?_, fun z hz hz' => ?_, h.held, ?_⟩, ?_⟩
      · rw [hput]
      · exact (h.ledger.arrive (hmem hx) r).mono (Nat.le_of_eq hn.symm)
      · obtain ⟨hz, -⟩ | ⟨rfl, -⟩ := mem_put hz
        · exact h.idle z hz hz'
        · have hwaits : x.waiting.isSome = true := hz'
          rw [hw] at hwaits
          cases hwaits
      · rw [List.append_nil]
        exact h.told
      · rw [hput]
        exact .refl _
  | served x u hx hw hv hs hn hs' hn' =>
      have hsession : u.world.session s = b.world.session s := by rw [session, session, hs]
      have hserve := becomes_serve (b := u) (hsession ▸ h.here) (h.ledger.upright x (hmem hx) hw) x r
      have hend : (b.receive s r).world.session s = (u.serve s x r).world.session s := by
        rw [session, session, hs']
      rw [arrivals, hv, hx, Option.toList_some]
      refine ⟨d, u.answer s x r, ⟨?_, ?_, h.idle, fun v hv => ?_, ?_⟩, ?_⟩
      · rw [hend]
        exact hserve.debugger
      · have hledger := h.ledger.arrive_serve (hmem hx) (h.idle x (hmem hx) hw) ⟨u, x, r⟩ rfl
        refine hledger.mono ?_
        rw [hn', ← hn]
        exact hserve.tells.numbers
      · rcases List.mem_append.mp hv with hv | hv
        · exact h.held v hv
        · rw [List.mem_singleton.mp hv]
          exact ⟨d, hsession ▸ h.here, hmem hx, hw⟩
      · have hall : (u.answer s x r).filter Event.isAnswer = u.answer s x r :=
          List.filter_eq_self.mpr (isAnswer_answer u s x r)
        rw [List.filter_append, h.told, hall, List.flatMap_append, List.flatMap_singleton]
        rfl
      · rw [hend, ← hsession]
        exact hserve.mailbox

end Accounted

/-- In every history of a debugger it serves what it should: whatever its threads do and whatever it
is asked for, what a thread served so far and what it puts off is what has arrived, threads that wait
put nothing off, they serve only while they are held up, and they answer in the order in which they
serve. -/
theorem accounted_attends {showDynamicCode attached : Bool}
    (hd : (b.world.session s).debugger = some (.start showDynamicCode attached))
    (h : Attends s as vs es b b') : ∃ d, Accounted s as vs es b'.world d := by
  induction h with
  | start b =>
      have hnone : ∀ {P : Execution → Prop},
          ∀ x ∈ (Debugger.start showDynamicCode attached).executions, P x :=
        fun x hx => absurd hx List.not_mem_nil
      exact ⟨_, hd, ⟨⟨hnone, hnone, hnone⟩, hnone, hnone, fun _ => List.prefix_rfl,
        List.forall_mem_nil _⟩, hnone, List.forall_mem_nil _, rfl⟩
  | call h i c new hi hw ho hg ih =>
      obtain ⟨d, hd⟩ := ih hd
      obtain ⟨d', new', h', hg'⟩ := hd.call hi c
      obtain rfl := hg.unique hg' ho
      exact ⟨d', h'⟩
  | take h r new ho hg ih =>
      obtain ⟨d, hd⟩ := ih hd
      obtain ⟨d', new', h', hg'⟩ := hd.take r
      obtain rfl := hg.unique hg' ho
      exact ⟨d', h'⟩
  | besides h b'' hsame hn ih =>
      obtain ⟨d, hd⟩ := ih hd
      exact ⟨d, hsame.trans hd.here, hd.ledger.mono hn, hd.idle, hd.held, hd.told⟩

end Bridge

end DebugBridge
