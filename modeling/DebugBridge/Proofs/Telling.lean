import DebugBridge.Proofs.Costs
import DebugBridge.Proofs.Loading

/-!
# What a debugger tells

Whether its session is attached or not, and whatever its users do, a debugger meets few things. It
gets requests, the model hears of an event, a thread makes a call, or it takes a request. As long as
it listens it never tells that the interpreter has ended. It tells that once, with its last word, and
from then on it says nothing.

## Main definitions

* `World.Sends`: a step in which requests are sent to a session, and nothing else happens to it;
* `Bridge.Stirs`: what a deed is for a session that is held, be it attached or not;
* `World.Candid`: a debugger that listens and told of no end, or that is gone and told of it last.

## Main results

* `stirs_after`: every deed is one of these things, unless the session is given up;
* `tends_perform`, `tends_receive`: what a call and a request make of a debugger that listens;
* `candid_stirs`: a debugger stays candid, whatever happens;
* `candid_run`: the debugger of a session that is attached is candid.
-/

namespace DebugBridge

/-- The event that a message brings, if it is one. -/
def Message.event? : Message → Option Event
  | .event e => some e
  | .request _ => none

/-- The events among messages. -/
def eventsOf (ms : List Message) : List Event :=
  ms.filterMap Message.event?

/-- Events of two lists of messages are those of the first and then those of the second. -/
@[simp] theorem eventsOf_append (ms ns : List Message) :
    eventsOf (ms ++ ns) = eventsOf ms ++ eventsOf ns :=
  List.filterMap_append

/-- An event is among the events. -/
@[simp] theorem eventsOf_cons_event (e : Event) (ms : List Message) :
    eventsOf (.event e :: ms) = e :: eventsOf ms :=
  rfl

/-- A request is not among the events. -/
@[simp] theorem eventsOf_cons_request (r : Request) (ms : List Message) :
    eventsOf (.request r :: ms) = eventsOf ms :=
  rfl

/-- There is no event among requests. -/
@[simp] theorem eventsOf_request (rs : List Request) : eventsOf (rs.map .request) = [] := by
  induction rs with
  | nil => rfl
  | cons r rs ih => exact ih

/-- All of some events are events. -/
@[simp] theorem eventsOf_event (es : List Event) : eventsOf (es.map .event) = es := by
  induction es with
  | nil => rfl
  | cons e es ih => exact congrArg (e :: ·) ih

/-- The events among messages are those that a message brings. -/
theorem mem_eventsOf {ms : List Message} {e : Event} : e ∈ eventsOf ms ↔ .event e ∈ ms := by
  refine List.mem_filterMap.trans ⟨?_, fun h => ⟨_, h, rfl⟩⟩
  rintro ⟨m, hm, he⟩
  cases m with
  | event e' =>
      cases he
      exact hm
  | request r => cases he

/-! ### Requests that are sent -/

/-- An order is a request that is sent before leave is taken. -/
theorem Request.IsOrder.isSent {r : Request} (h : r.IsOrder) : r.IsSent := by
  cases r with
  | resume thread kind =>
      cases thread with
      | none => exact h
      | some handle => trivial
  | disconnect => exact h
  | _ => trivial

/-- A session that gets requests, and to which nothing else happens. -/
structure Session.Gets (x x' : Session) : Prop where
  alive : x'.alive = x.alive
  attached : x'.attached = x.attached
  terminated : x'.terminated = x.terminated
  debugger : x'.debugger = x.debugger
  mailbox : ∃ rs : List Request, (∀ r ∈ rs, r.IsSent)
    ∧ x.mailbox.Gains (rs.map .request) x'.mailbox

namespace Session.Gets

variable {x y z : Session}

/-- A session to which nothing happens gets no requests. -/
theorem refl (x : Session) : x.Gets x :=
  ⟨rfl, rfl, rfl, rfl, [], List.forall_mem_nil _, .refl _⟩

/-- What comes in two steps comes in their order. -/
theorem trans (h : x.Gets y) (h' : y.Gets z) : x.Gets z := by
  obtain ⟨rs, hrs, hbox⟩ := h.mailbox
  obtain ⟨rs', hrs', hbox'⟩ := h'.mailbox
  refine ⟨h'.alive.trans h.alive, h'.attached.trans h.attached, h'.terminated.trans h.terminated,
    h'.debugger.trans h.debugger, rs ++ rs', fun r hr => ?_, ?_⟩
  · rcases List.mem_append.mp hr with hr | hr
    · exact hrs r hr
    · exact hrs' r hr
  · rw [List.map_append]
    exact hbox.trans hbox'

/-- A session that differs in what it knows only gets no requests. -/
theorem of_outer (h : y.outer = x.outer) : x.Gets y := by
  have hbox : y.mailbox = x.mailbox := (congrArg Session.mailbox h :)
  exact ⟨(congrArg Session.alive h :), (congrArg Session.attached h :),
    (congrArg Session.terminated h :), (congrArg Session.debugger h :), [],
    List.forall_mem_nil _, hbox ▸ .refl _⟩

/-- What users ask for is sent, and nothing else happens to the session. -/
theorem of_asked (h : x.Asked y) : x.Gets y := by
  obtain ⟨rs, hrs, hbox, -⟩ := h.mailbox
  exact ⟨(congrArg Session.alive h.model :), (congrArg Session.attached h.model :),
    (congrArg Session.terminated h.model :), h.debugger, rs, fun r hr => (hrs r hr).isSent, hbox⟩

/-- What is posted to a session is sent, and nothing else happens to it. -/
theorem of_posted {rs : List Request} (hrs : ∀ r ∈ rs, r.IsSent) (h : x.Posted rs y) : x.Gets y :=
  ⟨h.alive, h.attached, (congrArg Session.terminated h.model :), h.debugger, rs, hrs, h.mailbox⟩

end Session.Gets

/-- A debugger that listens to its session. -/
structure Debugger.Listens (d : Debugger) (n : Nat) : Prop where
  attached : d.attached = true
  running : d.terminated = false
  orderly : d.Orderly n

namespace World

variable {s t : Nat}

/-- A step in which a session gets requests at most. -/
structure Sends (s : Nat) (w w' : World) : Prop where
  here : (w.session s).Gets (w'.session s)
  numbers : w.nextNumber ≤ w'.nextNumber

/-- Steps in which requests are sent hold of a sequence. -/
theorem steady_sends (s : Nat) : Steady (Sends s) where
  refl _ := ⟨.refl _, Nat.le_refl _⟩
  trans h h' := ⟨h.here.trans h'.here, Nat.le_trans h.numbers h'.numbers⟩

/-- A step that leaves all but what a session knows sends nothing. -/
theorem Sends.of_outer {w w' : World} (h : (w'.session s).outer = (w.session s).outer)
    (hn : w.nextNumber ≤ w'.nextNumber) : Sends s w w' :=
  ⟨.of_outer h, hn⟩

/-- A step that is still sends nothing. -/
theorem sends_of_still {w w' : World} (h : Still w w') : Sends s w w' :=
  .of_outer (outer_of_unframed (h.everywhere s)) h.numbers

/-- A step that changes what is shown of threads and frames sends nothing. -/
theorem sends_of_shows {ts : List Script} {w w' : World} (h : Shows t ts w w') : Sends s w w' := by
  by_cases hst : s = t
  · subst hst
    exact .of_outer (outer_of_shell h.here) h.numbers
  · exact .of_outer (outer_of_unframed (h.elsewhere s hst)) h.numbers

/-- Requests that are posted are sent. -/
theorem sends_of_posts {rs : List Request} (hrs : ∀ r ∈ rs, r.IsSent) {w w' : World}
    (h : Posts t rs w w') : Sends s w w' := by
  refine ⟨?_, h.numbers⟩
  by_cases hst : s = t
  · subst hst
    exact .of_posted hrs h.here
  · rw [h.elsewhere s hst]
    exact .refl _

end World

namespace Bridge

open World

variable {σ : Type} [Inhabited σ] [Engine σ] {s : Nat} {d d' : Debugger} {b b' : Bridge σ}
  {x : Deed σ}

/-- Whatever users and models do, a session gets requests at most. -/
theorem handles_sends (s : Nat) :
    Handles (fun _ => True) (fun _ => True) (fun _ => True) (Sends s) where
  toSteady := steady_sends s
  beside hs _ _ hn _ := .of_outer (by rw [session, session, hs]) hn
  onHeap _ _ _ := .of_outer rfl (Nat.le_refl _)
  asks h := ⟨.of_asked (h.everywhere s), h.numbers⟩
  depicts h := sends_of_shows h.toShows
  posts := fun ⟨_, _, hrs, h⟩ => sends_of_posts hrs h
  register w t script := .of_outer (outer_register w t script) (Nat.le_refl _)
  fill frame reported _ w :=
    sends_of_still (still_withInHand frame (keeps_setVariables frame reported) w)
  result _ frame _ listener _ w :=
    sends_of_still (still_withInHand frame (keeps_deliverResult listener _) w)
  enter _ _ _ _ _ := .of_outer rfl (Nat.le_refl _)
  leave _ _ _ := .of_outer rfl (Nat.le_refl _)
  prune _ _ := .of_outer rfl (Nat.le_refl _)
  listen _ _ _ := .of_outer rfl (Nat.le_refl _)

omit [Inhabited σ] [Engine σ] in
/-- A step that spares a session sends it nothing. -/
theorem Spares.sends {w w' : World} (h : Spares s w w') : Sends s w w' :=
  .of_outer (outer_of_unframed h.here) h.numbers

/-! ### What a deed is for a session that is held -/

/-- A session that is over from now on, with what its mailbox and its debugger had. -/
structure Shuts (s : Nat) (w w' : World) : Prop where
  alive : (w'.session s).alive = (w.session s).alive
  attached : (w'.session s).attached = false
  terminated : (w'.session s).terminated = true
  mailbox : (w'.session s).mailbox = (w.session s).mailbox
  debugger : (w'.session s).debugger = (w.session s).debugger
  numbers : w.nextNumber ≤ w'.nextNumber

/-- What a deed is for a session that is held, be it attached or not. -/
inductive Stirs (s : Nat) (b : Bridge σ) (x : Deed σ) (b' : Bridge σ) : Prop where
  /-- It gets requests, or nothing happens to it. -/
  | sent (hm : b.handed s x = none) (h : Sends s b.world b'.world)
  /-- Its model hears of an event and goes on. -/
  | heard (e : Event) (u : World) (hm : b.handed s x = some (.event e)) (hu : Takes s b.world u)
      (he : (b.world.session s).attached = true → e ≠ .engineTerminated)
      (h : Sends s u b'.world)
  /-- Its model hears that the interpreter has ended. -/
  | ended (u : World) (hm : b.handed s x = some (.event .engineTerminated))
      (hu : Takes s b.world u) (ha : (b.world.session s).attached = true)
      (h : Shuts s u b'.world)
  /-- One of its threads makes a call. -/
  | called (i : Interpreter) (c : Call) (hx : x = .call i c) (hi : i.session = s)
      (hw : b.isWaiting i = false) (h : b' = (b.perform i c).2)
  /-- Its debugger takes a request. -/
  | obeyed (r : Request) (u : Bridge σ) (hm : b.handed s x = some (.request r))
      (hu : Takes s b.world u.world) (h : b' = u.receive s r)
  /-- Its users leave. -/
  | left (u : World) (hx : x = .disconnect s) (ht : (b.world.session s).terminated = false)
      (hu : Sends s b.world u) (h : Shuts s (u.post s .disconnect) b'.world)

/-- A session that ends is over, with what its mailbox and its debugger had. -/
theorem shuts_endSession (w : World) : Shuts s w (worldAfter (endSession s) w) := by
  have hstill := still_endSession s w
  have same : ∀ {α : Type} (f : Session → α), (∀ x : Session, f x.unframed = f x) →
      f ((worldAfter (endSession s) w).session s) = f ((w.close s).session s) :=
    fun f hf => Session.eq_of_unframed f hf (hstill.everywhere s)
  have hclose := session_close_self w s
  have hnumbers : w.nextNumber ≤ (w.close s).nextNumber := by
    unfold close
    dsimp only
    split
    · exact Nat.le_refl _
    · split <;> exact Nat.le_refl _
  have hn := Nat.le_trans hnumbers hstill.numbers
  cases ht : (w.session s).terminated with
  | true =>
      rw [ht, if_pos rfl] at hclose
      rw [hclose] at same
      exact ⟨same Session.alive fun _ => rfl, same Session.attached fun _ => rfl,
        (same Session.terminated fun _ => rfl).trans ht, same Session.mailbox fun _ => rfl,
        same Session.debugger fun _ => rfl, hn⟩
  | false =>
      rw [ht, if_neg (by simp)] at hclose
      rw [hclose] at same
      exact ⟨same Session.alive fun _ => rfl, same Session.attached fun _ => rfl,
        same Session.terminated fun _ => rfl, same Session.mailbox fun _ => rfl,
        same Session.debugger fun _ => rfl, hn⟩

/-- A model that is told of an event ends its session, or it sends requests. -/
theorem stirs_deliverEvent {u : Bridge σ} {e : Event} (hm : b.handed s x = some (.event e))
    (hu : Takes s b.world u.world) (hw : b'.world = (u.deliverEvent s e).world) :
    Stirs s b x b' := by
  obtain ⟨j, hj⟩ := world_deliverEvent u s e
  have hattached : (u.world.session s).attached = (b.world.session s).attached := by rw [hu.here]
  let w := worldAfter (handleEvent s e) u.world
  have hafter : b'.world = { w with journal := j } := hw.trans hj
  have hsends : Sends s u.world w → Sends s u.world b'.world := fun h =>
    (steady_sends s).trans h (.of_outer (by rw [hafter]; rfl) (Nat.le_of_eq (by rw [hafter])))
  cases ha : (b.world.session s).attached with
  | false =>
      have hidle : w = u.world := by
        change worldAfter (handleEvent s e) u.world = u.world
        rw [worldAfter, handleEvent_unattached (hattached.trans ha)]
      exact .heard e u.world hm hu (by simp [ha]) (hsends (hidle ▸ (steady_sends s).refl _))
  | true =>
      by_cases he : e = .engineTerminated
      · subst he
        let v := u.world.trace "model" ("process " ++ Event.engineTerminated.text u.world.marks)
        have hend : w = worldAfter (endSession s) v := by
          change worldAfter (handleEvent s .engineTerminated) u.world = _
          rw [worldAfter, handleEvent_eq (hattached.trans ha)]
          rfl
        have hshuts := hend ▸ shuts_endSession (s := s) v
        refine .ended u.world hm hu ha ?_
        rw [hafter]
        exact ⟨hshuts.alive, hshuts.attached, hshuts.terminated, hshuts.mailbox, hshuts.debugger,
          hshuts.numbers⟩
      · exact .heard e u.world hm hu (fun _ => he)
          (hsends ((handles_sends s).handleEvent s trivial (fun h => absurd h he) u.world))

/-- A session is handed its oldest message, if there is one. -/
theorem stirs_handOver (h : b.world.InOrder s) : Stirs s b (.deliver s) (b.handOver s) := by
  have htakes : Takes s b.world (b.take s).2.world := takes_take b
  have hhanded : b.handed s (.deliver s) = (b.take s).1 := if_pos rfl
  have hm : (b.take s).1 = (b.world.session s).mailbox.take.1 := rfl
  cases htake : b.take s with
  | mk taken b₁ =>
      rw [htake] at htakes hhanded hm
      cases taken with
      | none =>
          have hrun : b.handOver s = b₁ := by rw [handOver, htake]
          refine .sent hhanded ⟨?_, ?_⟩
          · rw [hrun, htakes.here]
            exact ⟨rfl, rfl, rfl, rfl, [], List.forall_mem_nil _,
              Mailbox.gains_take_none _ h.unmarked hm.symm⟩
          · rw [hrun]
            exact Nat.le_of_eq htakes.numbers.symm
      | some m =>
          have hrun : b.handOver s = b₁.accept s m := by rw [handOver, htake]
          let u := b₁.trace "dispatcher" ("route " ++ m.text b₁.world.marks)
          have hu : Takes s b.world u.world := htakes.of_sessions rfl rfl rfl rfl rfl rfl
          cases m with
          | event e => exact stirs_deliverEvent hhanded hu (congrArg Bridge.world hrun)
          | request r =>
              let v := u.onWorld (·.noteReceived s r)
              have hv : Takes s b.world v.world := hu.of_sessions rfl rfl rfl rfl rfl rfl
              have hpresent : (v.world.session s).debugger.isSome = true := by
                rw [hv.here]
                exact h.present
              exact .obeyed r v hhanded hv (hrun.trans (if_pos hpresent))

/-- Who disconnects from a session that is not over sends what it has to say, and leaves. -/
theorem shuts_disconnect (b : Bridge σ) (ht : (b.world.session s).terminated = false) :
    ∃ u, Sends s b.world u ∧ Shuts s (u.post s .disconnect) (b.after (.disconnect s)).world := by
  have hrun : (b.after (.disconnect s)).world = worldAfter (DebugBridge.disconnect s) b.world :=
    world_act b _
  obtain ⟨hover, -⟩ | ⟨-, u, ⟨-, rs, hrs, hu⟩, hend⟩ := disconnect_cases s b.world
  · rw [ht] at hover
    cases hover
  · refine ⟨u, sends_of_posts hrs hu, ?_⟩
    rw [hrun, hend]
    exact shuts_endSession _

/-- Who disconnects leaves, unless the session is over. -/
theorem stirs_disconnect (b : Bridge σ) : Stirs s b (.disconnect s) (b.after (.disconnect s)) := by
  cases ht : (b.world.session s).terminated with
  | false =>
      obtain ⟨u, hu, hshuts⟩ := shuts_disconnect b ht
      exact .left u rfl ht hu hshuts
  | true =>
      have hrun : (b.after (.disconnect s)).world
          = worldAfter (DebugBridge.disconnect s) b.world := world_act b _
      obtain ⟨-, hsame⟩ | ⟨hgoing, -⟩ := disconnect_cases s b.world
      · refine .sent rfl ?_
        rw [hrun, hsame]
        exact (steady_sends s).refl _
      · rw [ht] at hgoing
        cases hgoing

/-- Whatever is done, a session that is held is stirred in one of few ways, unless it is given
up. -/
theorem stirs_after (b : Bridge σ) (h : b.world.InOrder s) (x : Deed σ)
    (hkeep : x ≠ .dropSession s) : Stirs s b x (b.after x) := by
  have hspares : b.handed s x = none → Spares s b.world (b.after x).world →
      Stirs s b x (b.after x) := fun hm hs => .sent hm hs.sends
  cases x with
  | launch setup =>
      exact hspares rfl (spares_launch b setup (Nat.ne_of_lt (lt_of_alive h.alive)))
  | call i c =>
      have hrun : b.after (.call i c) = if b.isWaiting i then b else (b.perform i c).2 := rfl
      cases hw : b.isWaiting i with
      | true =>
          rw [hrun, hw]
          exact .sent rfl ((steady_sends s).refl _)
      | false =>
          rw [hw] at hrun
          by_cases hi : i.session = s
          · exact .called i c rfl hi hw hrun
          · exact hspares rfl (hrun ▸ spares_of_tells (Ne.symm hi) (tells_perform b i c))
  | deliver t =>
      by_cases hst : s = t
      · subst hst
        exact stirs_handOver h
      · exact hspares (if_neg (Ne.symm hst)) (spares_handOver hst b)
  | disconnect t =>
      by_cases hst : s = t
      · subst hst
        exact stirs_disconnect b
      · have hrun : (b.after (.disconnect t)).world
            = worldAfter (DebugBridge.disconnect t) b.world := world_act b _
        exact hspares rfl (hrun ▸ spares_disconnect hst b.world)
  | dropSession t =>
      have hst : s ≠ t := fun ht => hkeep (congrArg Deed.dropSession ht.symm)
      exact hspares rfl (spares_modifySession b.world hst _)
  | _ =>
      exact .sent rfl ((handles_sends s).manual b trivial (fun _ _ _ => trivial)
        fun _ _ => trivial)

/-! ### What becomes of a debugger that listens -/

/-- A debugger that goes on to listen, and tells of no end. -/
def Continues (s : Nat) (w w' : World) : Prop :=
  ∃ d' es, Becomes s d' es w w' ∧ d'.Listens w'.nextNumber ∧ .engineTerminated ∉ es

omit [Inhabited σ] [Engine σ] in
/-- A debugger that works for a thread goes on to listen. -/
theorem Continues.of_works {w w' : World} {o : Nat} {ts : List Script}
    (h : Works s o ts w d w' d') (hl : d.Listens w.nextNumber) : Continues s w w' := by
  obtain ⟨es, hb, hes⟩ := h.unended
  exact ⟨d', es, hb, ⟨h.alike.attached.trans hl.attached, h.alike.terminated.trans hl.running,
    h.orderly hl.orderly⟩, hes⟩

/-- A call leaves a debugger listening, or the interpreter finishes. -/
theorem tends_perform {i : Interpreter} (hd : (b.world.session i.session).debugger = some d)
    (hl : d.Listens b.world.nextNumber) (hw : d.isWaiting i.id = false) (c : Call) :
    Continues i.session b.world (b.perform i c).2.world
      ∨ Leaves i.session [.engineTerminated] b.world (b.perform i c).2.world := by
  by_cases hc : c = .engineFinished
  · subst hc
    exact .inr (leaves_finishEngine hd hl.attached)
  · obtain ⟨d', hworks⟩ := works_perform hd hl.attached hw hc
    exact .inl (.of_works hworks hl)

/-- A debugger that obeys goes on to listen, unless it is asked to terminate. -/
theorem continues_obey (hd : (b.world.session s).debugger = some d)
    (hl : d.Listens b.world.nextNumber) {r : Request} (hr : r.IsProper) (hend : r ≠ .terminate) :
    Continues s b.world (b.obey s r).world := by
  cases obeyed_obey hd hl.attached hl.orderly hr with
  | resumed handle kind x _ hx h => exact .of_works (.single hd h) hl
  | served o d' _ _ h _ => exact .of_works h hl
  | nudged thread _ f hf h =>
      exact ⟨_, [], h, ⟨hl.attached, hl.running, (hl.orderly.asks hf).mono h.tells.numbers⟩,
        List.not_mem_nil⟩
  | noted script point mode _ h =>
      exact ⟨_, [], h, ⟨hl.attached, hl.running, (hl.orderly.mono h.tells.numbers).congr rfl⟩,
        List.not_mem_nil⟩
  | left hr _ => exact absurd hr hend

/-- A request leaves a debugger listening, unless it is one to end or to leave. -/
theorem tends_obey (hd : (b.world.session s).debugger = some d)
    (hl : d.Listens b.world.nextNumber) {r : Request} (hr : r.IsSent ∨ r = .disconnect) :
    (r ≠ .terminate ∧ r ≠ .disconnect) ∧ Continues s b.world (b.obey s r).world
      ∨ r = .terminate ∧ Leaves s [.engineTerminated] b.world (b.obey s r).world
      ∨ r = .disconnect ∧ Leaves s [] b.world (b.obey s r).world := by
  have hgo : r.IsProper → r ≠ .terminate → r ≠ .disconnect →
      (r ≠ .terminate ∧ r ≠ .disconnect) ∧ Continues s b.world (b.obey s r).world :=
    fun hr hend hleave => ⟨⟨hend, hleave⟩, continues_obey hd hl hr hend⟩
  cases r with
  | terminate => exact .inr (.inl ⟨rfl, leaves_terminate hd hl.attached⟩)
  | disconnect => exact .inr (.inr ⟨rfl, leaves_quietly b.world s⟩)
  | removeAllBreakpoints =>
      have hclear := becomes_modifyDebugger hd (fun d => { d with table := [] }) (d.yields_table [])
      exact .inl ⟨⟨nofun, nofun⟩, _, [], hclear, ⟨hl.attached, hl.running,
        (hl.orderly.mono hclear.tells.numbers).congr rfl⟩, List.not_mem_nil⟩
  | resume thread kind =>
      cases thread with
      | none => exact absurd hr (by simp [Request.IsSent])
      | some handle => exact .inl (hgo trivial nofun nofun)
  | _ => exact .inl (hgo trivial nofun nofun)

/-- A debugger that listens looks into every request. -/
theorem tends_receive (hd : (b.world.session s).debugger = some d)
    (hl : d.Listens b.world.nextNumber) {r : Request} (hr : r.IsSent ∨ r = .disconnect) :
    (r ≠ .terminate ∧ r ≠ .disconnect) ∧ Continues s b.world (b.receive s r).world
      ∨ r = .terminate ∧ Leaves s [.engineTerminated] b.world (b.receive s r).world
      ∨ r = .disconnect ∧ Leaves s [] b.world (b.receive s r).world := by
  let u := b.trace "runtime" ("process " ++ r.text b.world.marks)
  have hrun : b.receive s r = u.obey s r := by
    rw [receive, debugger_eq hd, if_neg (by simp [hl.running])]
  have htrace : Becomes s d [] b.world u.world := becomes_trace hd _ _
  have hleaves : ∀ {es w'}, Leaves s es u.world w' → Leaves s es b.world w' := fun h =>
    ⟨(steady_tells s).trans htrace.tells h.tells, h.left, htrace.mailbox.trans h.said⟩
  rw [hrun]
  obtain ⟨hne, d', es, hb, hl', hes⟩ | ⟨hr, h⟩ | ⟨hr, h⟩ := tends_obey (b := u) htrace.debugger hl hr
  · exact .inl ⟨hne, d', es, htrace.trans hb, hl', hes⟩
  · exact .inr (.inl ⟨hr, hleaves h⟩)
  · exact .inr (.inr ⟨hr, hleaves h⟩)

end Bridge

/-! ### Candid debuggers -/

/-- Nothing was told after the end of the interpreter. -/
def EndsLast (es : List Event) : Prop :=
  ∀ xs ys, es = xs ++ .engineTerminated :: ys → ys = []

/-- Where no end is told, nothing is told after it. -/
theorem endsLast_of_not_mem {es : List Event} (h : .engineTerminated ∉ es) : EndsLast es := by
  rintro xs ys rfl
  exact absurd (List.mem_append_right xs List.mem_cons_self) h

/-- An end that is told last has nothing after it. -/
theorem endsLast_append {es : List Event} (h : .engineTerminated ∉ es) :
    EndsLast (es ++ [.engineTerminated]) := by
  intro xs ys heq
  obtain ⟨zs, rfl, hzs⟩ | ⟨zs, rfl, hzs⟩ := List.append_eq_append_iff.mp heq
  · cases zs with
    | nil => exact (List.cons.inj hzs).2.symm
    | cons z zs => cases zs <;> cases hzs
  · cases zs with
    | nil => exact (List.cons.inj hzs).2
    | cons z zs =>
        obtain ⟨rfl, -⟩ := List.cons.inj hzs
        exact absurd (List.mem_append_right xs List.mem_cons_self) h

namespace World

open Bridge (Shuts Continues Leaves)

variable {s : Nat} {news : List Event} {w w' u : World}

/-- A session whose debugger listens. -/
def IsAttended (w : World) (s : Nat) : Prop :=
  ∃ d, (w.session s).debugger = some d ∧ d.Listens w.nextNumber

/-- A session whose debugger is gone. -/
def IsDeserted (w : World) (s : Nat) : Prop :=
  ∀ d, (w.session s).debugger = some d → d.Gone

/-- A session is attended as long as its debugger stays. -/
theorem IsAttended.congr (h : IsAttended w s)
    (hd : (w'.session s).debugger = (w.session s).debugger) (hn : w.nextNumber ≤ w'.nextNumber) :
    IsAttended w' s := by
  obtain ⟨d, hd', hl⟩ := h
  exact ⟨d, hd.trans hd', hl.attached, hl.running, hl.orderly.mono hn⟩

/-- A session is deserted as long as its debugger stays away. -/
theorem IsDeserted.congr (h : IsDeserted w s)
    (hd : (w'.session s).debugger = (w.session s).debugger) : IsDeserted w' s :=
  fun d hd' => h d (hd.symm.trans hd')

/-- A debugger that is gone does not come back, whatever the interpreter side does. -/
theorem IsDeserted.tells (h : IsDeserted w s) (ht : Tells s w w') : IsDeserted w' s := by
  intro d' hd'
  obtain ⟨d, hd, hyields⟩ := ht.here.debugger d' hd'
  exact hyields.gone (h d hd)

/-- Nobody both listens and is gone. -/
theorem IsAttended.not_deserted (h : IsAttended w s) (h' : IsDeserted w s) : False := by
  obtain ⟨d, hd, hl⟩ := h
  have hgone := (h' d hd).attached
  rw [hl.attached] at hgone
  cases hgone

/-- A debugger that listens to its session and told of no end so far. -/
structure Listening (w : World) (s : Nat) (news : List Event) : Prop where
  listens : IsAttended w s
  unended : .engineTerminated ∉ news

/-- A debugger that is gone. If it told of the end, it did so last. -/
structure Silent (w : World) (s : Nat) (news : List Event) : Prop where
  left : IsDeserted w s
  last : EndsLast news

/-- A session that is held, with the events that its debugger told so far. A debugger that is asked
to leave was asked by a session that is over. -/
structure Candid (w : World) (s : Nat) (news : List Event) : Prop where
  inOrder : w.InOrder s
  sent : ∀ r, .request r ∈ w.mail s →
    r.IsSent ∨ r = .disconnect ∧ (w.session s).attached = false
  spoke : Listening w s news ∨ Silent w s news

/-- What a debugger told so far does not depend on anything else. -/
theorem spoke_congr (h : Listening w s news ∨ Silent w s news)
    (hd : (w'.session s).debugger = (w.session s).debugger) (hn : w.nextNumber ≤ w'.nextNumber) :
    Listening w' s news ∨ Silent w' s news :=
  h.imp (fun h => ⟨h.listens.congr hd hn, h.unended⟩) fun h => ⟨h.left.congr hd, h.last⟩

/-- What came was sent. -/
theorem sent_append {P : Request → Prop} {ms : List Message} {rs : List Request}
    (h : ∀ r, .request r ∈ ms → P r) (hrs : ∀ r ∈ rs, P r) :
    ∀ r, .request r ∈ ms ++ rs.map .request → P r := by
  intro r hr
  rcases List.mem_append.mp hr with hr | hr
  · exact h r hr
  · obtain ⟨r', hr', he⟩ := List.mem_map.mp hr
    cases he
    exact hrs r hr'

/-- Events that come behind the messages add no request. -/
theorem sent_append_event {P : Request → Prop} {ms : List Message} {es : List Event}
    (h : ∀ r, .request r ∈ ms → P r) : ∀ r, .request r ∈ ms ++ es.map .event → P r := by
  intro r hr
  rcases List.mem_append.mp hr with hr | hr
  · exact h r hr
  · obtain ⟨e, -, he⟩ := List.mem_map.mp hr
    cases he

/-- A session that gets requests stays candid, and has them behind what waits. -/
theorem Candid.sends (h : Candid w s news) (hs : Sends s w w') :
    Candid w' s news ∧ ∃ rs : List Request, w'.mail s = w.mail s ++ rs.map .request := by
  obtain ⟨rs, hrs, hg⟩ := hs.here.mailbox
  have hmail := h.inOrder.mail_gains hg
  refine ⟨⟨?_, ?_, spoke_congr h.spoke hs.here.debugger hs.numbers⟩, rs, hmail⟩
  · exact h.inOrder.gains hs.here.alive (by rw [hs.here.debugger]) hg fun d hd =>
      h.inOrder.distinct d (hs.here.debugger.symm.trans hd)
  · rw [hmail, hs.here.attached]
    exact sent_append h.sent fun r hr => .inl (hrs r hr)

/-- A session that takes a message stays candid, and has the rest. -/
theorem Candid.takes (h : Candid w s news) (hu : Takes s w u) {m : Message}
    (hm : (w.session s).mailbox.take.1 = some m) : Candid u s news ∧ w.mail s = m :: u.mail s := by
  obtain ⟨hin, hmail⟩ := h.inOrder.takes hu hm
  refine ⟨⟨hin, fun r hr => ?_, spoke_congr h.spoke (by rw [hu.here]) (Nat.le_of_eq hu.numbers.symm)⟩,
    hmail⟩
  rw [hu.here]
  exact h.sent r (hmail ▸ List.mem_cons_of_mem _ hr)

/-- A session that is over stays candid, with what waits. -/
theorem Candid.shuts (h : Candid w s news) (hs : Shuts s w w') :
    Candid w' s news ∧ w'.mail s = w.mail s := by
  have hmail : w'.mail s = w.mail s := by rw [mail, mail, hs.mailbox]
  refine ⟨⟨h.inOrder.same hs.alive hs.mailbox hs.debugger, fun r hr => ?_,
    spoke_congr h.spoke hs.debugger hs.numbers⟩, hmail⟩
  rw [hs.attached]
  exact (h.sent r (hmail ▸ hr)).imp id fun hr => ⟨hr.1, rfl⟩

/-- Who leaves asks the debugger to leave too. -/
theorem Candid.parts (h : Candid w s news) (hs : Shuts s (w.post s .disconnect) w') :
    Candid w' s news ∧ w'.mail s
      = w.mail s ++ ((if (w.session s).attached then [.disconnect] else []).map .request) := by
  obtain ⟨rs, hrs, hp⟩ : ∃ rs, rs = (if (w.session s).attached then [.disconnect] else [])
      ∧ Posts s rs w (w.post s .disconnect) := by
    refine ⟨_, rfl, ?_⟩
    split
    · next ha => exact posts_post w s .disconnect h.inOrder.alive ha
    · next ha =>
        obtain ⟨rs, hp⟩ := exists_posts_post w s .disconnect
        obtain rfl := hp.here.idle (by simpa using ha)
        exact hp
  have hmail := h.inOrder.mail_gains hp.here.mailbox
  have hmail' : w'.mail s = (w.post s .disconnect).mail s := by rw [mail, mail, hs.mailbox]
  rw [hmail, hrs] at hmail'
  refine ⟨⟨(h.inOrder.posted hp.here).same hs.alive hs.mailbox hs.debugger, ?_,
    spoke_congr h.spoke (hs.debugger.trans hp.here.debugger) (Nat.le_trans hp.numbers hs.numbers)⟩,
    hmail'⟩
  rw [hmail', hs.attached]
  refine sent_append (fun r hr => (h.sent r hr).imp id fun hr => ⟨hr.1, rfl⟩) fun r hr => ?_
  split at hr
  · exact .inr ⟨List.mem_singleton.mp hr, rfl⟩
  · cases hr

/-- A session stays candid when its interpreter side tells events. -/
theorem Candid.told_of_tells (h : Candid w s news) (ht : Tells s w w') {es : List Event}
    (hg : (w.session s).mailbox.Gains (es.map .event) (w'.session s).mailbox)
    (hspoke : Listening w' s (news ++ es) ∨ Silent w' s (news ++ es)) :
    Candid w' s (news ++ es) ∧ w'.mail s = w.mail s ++ es.map .event := by
  have hmail := h.inOrder.mail_gains hg
  have hattached : (w'.session s).attached = (w.session s).attached :=
    (congrArg Session.attached ht.here.model :)
  refine ⟨⟨h.inOrder.tells ht, ?_, hspoke⟩, hmail⟩
  rw [hmail, hattached]
  exact sent_append_event h.sent

/-- A debugger that goes on stays candid. -/
theorem Candid.continues (h : Candid w s news) (hl : Listening w s news)
    (hc : Continues s w w') :
    ∃ es, Candid w' s (news ++ es) ∧ w'.mail s = w.mail s ++ es.map .event := by
  obtain ⟨d', es, hb, hl', hes⟩ := hc
  have hlistening : Listening w' s (news ++ es) :=
    ⟨⟨d', hb.debugger, hl'⟩, fun he => (List.mem_append.mp he).elim hl.unended hes⟩
  exact ⟨es, h.told_of_tells hb.tells hb.mailbox (.inl hlistening)⟩

/-- A debugger that lets go stays candid: the end, if it says so, is the last it says. -/
theorem Candid.leaves (h : Candid w s news) (hl : Listening w s news) {es : List Event}
    (hes : es = [] ∨ es = [.engineTerminated]) (hlv : Leaves s es w w') :
    Candid w' s (news ++ es) ∧ w'.mail s = w.mail s ++ es.map .event := by
  have hsilent : Silent w' s (news ++ es) := by
    refine ⟨hlv.left, ?_⟩
    obtain rfl | rfl := hes
    · rw [List.append_nil]
      exact endsLast_of_not_mem hl.unended
    · exact endsLast_append hl.unended
  exact h.told_of_tells hlv.tells hlv.said (.inr hsilent)

/-- A debugger that is gone says nothing. -/
theorem Candid.silent (h : Candid w s news) (hs : Silent w s news) (ht : Tells s w w') :
    ∃ es, Candid w' s (news ++ es) ∧ w'.mail s = w.mail s ++ es.map .event := by
  obtain ⟨es, hg, hnil⟩ := ht.here.mailbox
  obtain rfl := hnil fun d hd => (hs.left d hd).attached
  have hlast : EndsLast (news ++ []) := by
    rw [List.append_nil]
    exact hs.last
  exact ⟨[], h.told_of_tells ht hg (.inr ⟨hs.left.tells ht, hlast⟩)⟩

end World

namespace Bridge

open World

variable {σ : Type} [Inhabited σ] [Engine σ] {s : Nat} {b b' : Bridge σ} {x : Deed σ}
  {news : List Event}

omit [Inhabited σ] [Engine σ] in
/-- A message that is handed over is the oldest of its session. -/
theorem take_of_handed {m : Message} (h : b.handed s x = some m) :
    (b.world.session s).mailbox.take.1 = some m := by
  rw [eq_deliver_of_handed h] at h
  exact (if_pos rfl).symm.trans h

/-- Whoever hears of an event goes on, unless the session was attached and its interpreter ended. -/
theorem Stirs.of_event (h : Stirs s b x b') {e : Event} (he : b.handed s x = some (.event e)) :
    ∃ u, Takes s b.world u
      ∧ (((b.world.session s).attached = true → e ≠ .engineTerminated) ∧ Sends s u b'.world
        ∨ e = .engineTerminated ∧ Shuts s u b'.world) := by
  cases h with
  | sent hm => cases hm.symm.trans he
  | heard e' u hm hu hne h =>
      obtain rfl := Message.event.inj (Option.some.inj (hm.symm.trans he))
      exact ⟨u, hu, .inl ⟨hne, h⟩⟩
  | ended u hm hu ha h =>
      obtain rfl := Message.event.inj (Option.some.inj (hm.symm.trans he))
      exact ⟨u, hu, .inr ⟨rfl, h⟩⟩
  | called i c hx => cases hx.symm.trans (eq_deliver_of_handed he)
  | obeyed r u hm => cases hm.symm.trans he
  | left u hx => cases hx.symm.trans (eq_deliver_of_handed he)

/-- Whatever an interpreter thread does, the debugger stays candid, and what it says of it comes
into the mailbox. -/
theorem candid_perform {i : Interpreter} (h : Candid b.world i.session news)
    (hw : b.isWaiting i = false) (c : Call) :
    ∃ es, Candid (b.perform i c).2.world i.session (news ++ es)
      ∧ (b.perform i c).2.world.mail i.session = b.world.mail i.session ++ es.map .event := by
  obtain hl | hsil := h.spoke
  · obtain ⟨d, hd, hlistens⟩ := hl.listens
    have hwait : d.isWaiting i.id = false := by
      rw [← hw, isWaiting, debugger_eq hd]
    obtain hc | hlv := tends_perform hd hlistens hwait c
    · exact h.continues hl hc
    · exact ⟨_, h.leaves hl (.inr rfl) hlv⟩
  · exact h.silent hsil (tells_perform b i c)

/-- Whatever the debugger is told to do, it stays candid, and what it says of it comes into the
mailbox. -/
theorem candid_receive (h : Candid b.world s news) {r : Request}
    (hr : r.IsSent ∨ r = .disconnect) :
    ∃ es, Candid (b.receive s r).world s (news ++ es)
      ∧ (b.receive s r).world.mail s = b.world.mail s ++ es.map .event := by
  obtain hl | hsil := h.spoke
  · obtain ⟨d, hd, hlistens⟩ := hl.listens
    obtain ⟨-, hc⟩ | ⟨-, hlv⟩ | ⟨-, hlv⟩ := tends_receive hd hlistens hr
    · exact h.continues hl hc
    · exact ⟨_, h.leaves hl (.inr rfl) hlv⟩
    · exact ⟨_, h.leaves hl (.inl rfl) hlv⟩
  · exact h.silent hsil (tells_receive b r)

/-- A debugger stays candid whatever happens. What is not handed over stays in the mailbox, and what
comes stands behind. -/
theorem candid_stirs (h : Candid b.world s news) (hs : Stirs s b x b') :
    ∃ ms, b.world.mail s ++ ms = (b.handed s x).toList ++ b'.world.mail s
      ∧ Candid b'.world s (news ++ eventsOf ms) := by
  have hrequests : ∀ {rs : List Request}, Candid b'.world s news →
      Candid b'.world s (news ++ eventsOf (rs.map .request)) := by
    intro rs h
    rwa [eventsOf_request, List.append_nil]
  cases hs with
  | sent hm hsends =>
      obtain ⟨hc, rs, hmail⟩ := h.sends hsends
      exact ⟨rs.map .request, by rw [hm, hmail]; rfl, hrequests hc⟩
  | heard e u hm hu he hsends =>
      obtain ⟨hc, hmail⟩ := h.takes hu (take_of_handed hm)
      obtain ⟨hc', rs, hmail'⟩ := hc.sends hsends
      exact ⟨rs.map .request, by rw [hm, hmail, hmail']; rfl, hrequests hc'⟩
  | ended u hm hu ha hshuts =>
      obtain ⟨hc, hmail⟩ := h.takes hu (take_of_handed hm)
      obtain ⟨hc', hmail'⟩ := hc.shuts hshuts
      refine ⟨[], by rw [hm, hmail, hmail', List.append_nil]; rfl, ?_⟩
      rwa [eventsOf, List.filterMap_nil, List.append_nil]
  | called i c hx hi hw hrun =>
      subst hi
      have hnone : b.handed i.session x = none := by rw [hx]; rfl
      obtain ⟨es, hc, hmail⟩ := candid_perform h hw c
      exact ⟨es.map .event, by rw [hnone, hrun, hmail]; rfl, by rw [eventsOf_event, hrun]; exact hc⟩
  | obeyed r u hm hu hrun =>
      obtain ⟨hc, hmail⟩ := h.takes hu (take_of_handed hm)
      have hr : r.IsSent ∨ r = .disconnect :=
        (h.sent r (by rw [hmail]; exact List.mem_cons_self)).imp id And.left
      obtain ⟨es, hc', hmail'⟩ := candid_receive hc hr
      exact ⟨es.map .event, by rw [hm, hmail, hrun, hmail']; rfl,
        by rw [eventsOf_event, hrun]; exact hc'⟩
  | left u hx ht hu hshuts =>
      have hnone : b.handed s x = none := by rw [hx]; rfl
      obtain ⟨hc, rs, hmail⟩ := h.sends hu
      obtain ⟨hc', hmail'⟩ := hc.parts hshuts
      let leave : List Request := if (u.session s).attached then [.disconnect] else []
      refine ⟨(rs ++ leave).map .request, ?_, hrequests hc'⟩
      rw [hnone, hmail', hmail, List.map_append, List.append_assoc]
      rfl

/-! ### What was told in a run -/

/-- The events that the debugger of a session told in a run, oldest first. -/
def told (s : Nat) (ds : List (Deed σ)) (b : Bridge σ) : List Event :=
  eventsOf (handled s ds b ++ (run ds b).world.mail s)

/-- What comes behind all that waits is told last. -/
theorem told_append_singleton {ds : List (Deed σ)} {ms : List Message}
    (h : (run ds b).world.mail s ++ ms
      = ((run ds b).handed s x).toList ++ ((run ds b).after x).world.mail s) :
    told s (ds ++ [x]) b = told s ds b ++ eventsOf ms := by
  have hrun : run (ds ++ [x]) b = (run ds b).after x := run_append ds [x] b
  rw [told, told, handled_append_singleton, hrun, List.append_assoc, ← h, ← List.append_assoc,
    eventsOf_append]

/-- Sessions are not lost. -/
theorem spans_size : Spans (fun _ => True) (fun _ => True) (fun _ => True)
    fun w w' => w.sessions.size ≤ w'.sessions.size where
  refl _ := Nat.le_refl _
  trans := Nat.le_trans
  beside _ _ _ _ h := h.size
  onHeap _ _ _ := Nat.le_refl _
  asks h := h.mild.size
  depicts h := h.mild.size
  posts h := h.1.size
  register _ _ _ := Arena.size_le_modify _ _ _
  fill frame reported _ w :=
    (still_withInHand frame (keeps_setVariables frame reported) w).size
  result _ frame _ listener _ w :=
    (still_withInHand frame (keeps_deliverResult listener _) w).size
  enter _ _ _ _ _ := Nat.le_refl _
  leave _ _ _ := Nat.le_refl _
  prune _ _ := Nat.le_refl _
  listen _ _ _ := Nat.le_refl _
  tells h := h.mild.size
  take _ _ := Arena.size_le_modify _ _ _
  part w s := (mild_post w s .disconnect).size
  finish s w := by
    refine Nat.le_trans ?_ (still_endSession s w).size
    unfold close
    dsimp only
    split
    · exact Arena.size_le_modify _ _ _
    · split <;> exact Arena.size_le_modify _ _ _
  drop _ _ := Arena.size_le_modify _ _ _

/-- A deed loses no session. -/
theorem size_after_le (b : Bridge σ) (x : Deed σ) :
    b.world.sessions.size ≤ (b.after x).world.sessions.size := by
  refine spans_size.after b x (fun _ _ _ => trivial) (fun _ _ _ => trivial) (fun _ _ => trivial)
    fun setup hx => ?_
  subst hx
  exact (mild_launch b setup).size

omit [Inhabited σ] [Engine σ] in
/-- A session that is handed something is there. -/
theorem lt_of_handed {m : Message} (h : b.handed s x = some m) : s < b.world.sessions.size := by
  by_contra hsize
  have htake := take_of_handed h
  rw [session_of_le (Nat.not_lt.mp hsize)] at htake
  cases htake

/-- A session that was not opened yet was handed nothing. -/
theorem handled_eq_nil (ds : List (Deed σ)) (hs : (run ds b).world.sessions.size ≤ s) :
    handled s ds b = [] := by
  induction ds using List.reverseRecOn with
  | nil => rfl
  | append_singleton ds x ih =>
      rw [run_append] at hs
      have hsize := Nat.le_trans (size_after_le (run ds b) x) hs
      rw [handled_append_singleton, ih hsize]
      cases hx : (run ds b).handed s x with
      | none => rfl
      | some m => exact absurd (lt_of_handed hx) (Nat.not_lt.mpr hsize)

/-- A session that is opened was handed nothing so far. -/
theorem handled_launch (ds : List (Deed σ)) (setup : Setup) (b : Bridge σ) :
    handled (run ds b).world.sessions.size (ds ++ [.launch setup]) b = [] := by
  rw [handled_append_singleton, handled_eq_nil ds (Nat.le_refl _)]
  rfl

/-- The debugger of a session that is opened told nothing so far. -/
theorem told_launch {ds : List (Deed σ)} {setup : Setup}
    (h : Opened (run (ds ++ [.launch setup]) b).world (run ds b).world.sessions.size d) :
    told (run ds b).world.sessions.size (ds ++ [.launch setup]) b = [] := by
  rw [told, handled_launch]
  exact congrArg eventsOf h.mail

/-- The debugger of a session that is attached is candid. -/
theorem candid_run (hb : b.Fresh) (ds : List (Deed σ)) (hj : Joined (run ds b).world s) :
    Candid (run ds b).world s (told s ds b) := by
  refine joined_induction hb (J := fun ds => Candid (run ds b).world s (told s ds b))
    (fun ds setup d hs hopened => ?_) (fun ds x _ hcandid hj => ?_) ds hj
  · subst hs
    rw [told_launch hopened]
    refine ⟨⟨hopened.alive, hopened.debugger, hopened.isOpen, hopened.unmarked, ?_⟩, ?_,
      .inl ⟨⟨d, hopened.here, hopened.listens, hopened.running, hopened.orderly⟩,
        List.not_mem_nil⟩⟩
    · intro d' hd'
      obtain rfl := Option.some.inj (hopened.here.symm.trans hd')
      rw [Debugger.Distinct, hopened.executions]
      exact List.nodup_nil
    · intro r hr
      rw [hopened.mail] at hr
      cases hr
  · obtain ⟨ms, hmail, hcandid'⟩ := candid_stirs hcandid
      (stirs_after (run ds b) hcandid.inOrder x (ne_dropSession_of_joined hj))
    rw [told_append_singleton hmail, run_append]
    exact hcandid'

end Bridge

end DebugBridge
