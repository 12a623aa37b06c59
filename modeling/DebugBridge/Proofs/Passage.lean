import DebugBridge.Proofs.Following

/-!
# The way past a script

A thread that comes to a script waits, and the debugger tells so. The model answers by a request to
go on. It asks for that in one of two ways: if it shows the thread in a step, the thread is to go on
as before, and else freely. What the model shows it heard of, so it may lag behind. But before it
hears of the script it has heard all that was told before. By then it knows whether the thread is in
a step, since nothing is told of a thread between its last turn and the script.

So a thread that passed a script goes on at the pace at which it came, if nothing that users asked
for is on its way meanwhile.

## Main definitions

* `Event.turns`: the events by which a thread stands still, goes on or ends;
* `World.Knows`: a model that will show whether a thread is in a step;
* `World.Accompanies`: a session that goes on at the pace of its thread, with such a model;
* `Bridge.Passes`: how far a thread came on its way past a script;
* `Pace.farewell`: what users ask for who leave.

## Main results

* `accompanies_perform`, `accompanies_deliver`: calls, and messages that are handed over;
* `announced_of_scriptStarted`, `Passes.deliver`: a thread comes to a script, and each message that
  is handed over brings it nearer to going on;
* `accompanies_request`, `tracks_disconnect`: what users ask for where nothing is on its way.
-/

namespace DebugBridge

open World

/-! ### Outlines of a thread in a step -/

/-- Whether an event tells that a thread stands still, goes on or is gone. -/
def Event.turns : Event → Bool
  | .suspended _ _ _ | .resumed _ _ | .threadTerminated _ => true
  | _ => false

/-- An answer does not tell that a thread turns. -/
theorem Event.turns_of_isAnswer {e : Event} (h : e.isAnswer = true) : e.turns = false := by
  cases e <;> first | rfl | cases h

section Turns

variable {options : LaunchOptions} {id : Nat} {e : Event}

/-- An event that turns nothing leaves the state that an outline shows. -/
theorem state_followEvent (h : e.turns = false) (o : Option Outline) :
    ((followEvent options id o e).getD .start).state = (o.getD .start).state := by
  have hfollow : ∀ p : Outline, (p.follow options e).state = p.state := by
    intro p
    unfold Outline.follow
    split
    · rfl
    · cases e <;> first | rfl | cases h
  unfold followEvent
  cases e.thread? with
  | none => rfl
  | some handle =>
      dsimp only
      split
      · exact hfollow _
      · rfl

/-- Where nothing of the kind is told, a thread stays in the state in which it is. -/
theorem state_foldl_followEvent (es : List Event) (h : ∀ e ∈ es, e.turns = false)
    (o : Option Outline) :
    ((es.foldl (followEvent options id) o).getD .start).state = (o.getD .start).state := by
  induction es generalizing o with
  | nil => rfl
  | cons e es ih =>
      rw [List.foldl_cons, ih fun e' he' => h e' (List.mem_cons_of_mem _ he'),
        state_followEvent (h e List.mem_cons_self)]

end Turns

/-! ### Models that know of steps -/

/-- A call in which a thread does not stop at a line tells of no turn, unless the thread is gone. -/
theorem Debugger.Performs.turns {i : Interpreter} {d d' : Debugger} {m : Marks} {n : Nat} {c : Call}
    {es : List Event} (h : d.Performs m n i c d' es) (hc : c ≠ .threadFinished)
    (hnone : es.findSome? Event.reason? = none) : ∀ e ∈ es, e.turns = false := by
  cases h with
  | aside c es hes =>
      obtain rfl | rfl := hes
      · exact List.forall_mem_nil _
      · exact List.forall_mem_singleton.mpr rfl
  | moved c hc es hes =>
      obtain rfl | rfl := hes
      · exact List.forall_mem_nil _
      · exact List.forall_mem_singleton.mpr rfl
  | held script ht answers ha =>
      exact List.forall_mem_cons.mpr ⟨rfl, fun e he => Event.turns_of_isAnswer (ha e he)⟩
  | passed => exact List.forall_mem_nil _
  | stopped => cases hnone
  | gone => exact absurd rfl hc

/-- A session that is attached and does not stop for scripts. -/
structure Session.RunsOn (x : Session) : Prop where
  attached : x.attached = true
  startup : x.options.suspendOnStartup = false
  load : x.options.suspendOnScriptLoad = false

/-- Whether a session runs on is a matter of its model. -/
theorem Session.RunsOn.of_model {x y : Session} (h : x.RunsOn) (hm : y.model = x.model) :
    y.RunsOn := by
  have ho : y.options = x.options := (congrArg Session.options hm :)
  refine ⟨(congrArg Session.attached hm :).trans h.attached, ?_, ?_⟩
  · rw [ho]
    exact h.startup
  · rw [ho]
    exact h.load

namespace World

variable {i : Interpreter} {p p' : Pace} {d d' : Debugger} {u w w' : World} {s id : Nat}

/-- What a model will show once it heard all events that wait tells whether a thread is in a step,
unless the thread stands still at a line. -/
def Knows (w : World) (s : Nat) (p : Pace) (id : Nat) : Prop :=
  p.self.waiting ≠ some .line →
    (((w.foretold s id).getD .start).state = .stepping ↔ p.self.resumeKind.isStep = true)

/-- What a model will know of a step depends on what is foretold alone. -/
theorem Knows.congr (h : w.Knows s p id) (hf : w'.foretold s id = w.foretold s id) :
    w'.Knows s p id := by
  unfold Knows
  rw [hf]
  exact h

/-- Where no turn is told, a model knows as much as before. -/
theorem Knows.told (h : w.Knows s p id) (hm : (w'.session s).model = (w.session s).model)
    {es : List Event} (hmail : w'.mail s = w.mail s ++ es.map .event)
    (hes : ∀ e ∈ es, e.turns = false)
    (hw : p'.self.waiting ≠ some .line → p.self.waiting ≠ some .line)
    (hk : p'.self.resumeKind = p.self.resumeKind) : w'.Knows s p' id := by
  intro hline
  rw [foretold_append hm hmail, foldl_followMessage_event, state_foldl_followEvent es hes, hk]
  exact h (hw hline)

/-- A model hears how a thread goes on. -/
theorem knows_resumed {handle : Handle} {kind : ResumeKind}
    (hm : (w'.session s).model = (w.session s).model)
    (hmail : w'.mail s = w.mail s ++ [.event (.resumed handle kind)])
    (hstate : ((w.foretold s handle.id).getD .start).state ≠ .terminated)
    (hk : p'.self.resumeKind.isStep = kind.isStep) : w'.Knows s p' handle.id := by
  intro _
  rw [foretold_append hm hmail, hk]
  change ((followEvent _ handle.id _ (.resumed handle kind)).getD .start).state = _ ↔ _
  rw [followEvent_self rfl, Option.getD_some, Outline.follow, if_neg hstate]
  cases kind <;> simp [ResumeKind.isStep]

/-- Whatever a model hears, and asks for in answer, it was foretold. -/
theorem foretold_of_heard {e : Event} {ms : List Message} {rs : List Request}
    (h : Follows s e w w') (ho : (w'.session s).options = (w.session s).options)
    (hmail : w.mail s = .event e :: ms) (hmail' : w'.mail s = ms ++ rs.map .request) :
    w'.foretold s = w.foretold s := by
  funext id
  rw [foretold, foretold, hmail, hmail', List.foldl_append, foldl_followMessage_request, ho,
    h.outline]
  rfl

/-- A session that goes on at the pace of its thread, with a model that knows whether that is in a
step. -/
structure Accompanies (w : World) (i : Interpreter) (p : Pace) (d : Debugger) : Prop
    extends Paces w i p d where
  runsOn : (w.session i.session).RunsOn
  knows : ∀ x, d.ofOwner? i.id = some x → w.Knows i.session p x.handle.id

end World

namespace Bridge

variable {σ : Type} [Inhabited σ] [Engine σ] {i : Interpreter} {p p' : Pace} {d d' : Debugger}
  {b : Bridge σ} {c : Call}

/-- A debugger that accompanies its thread at a pace is alive. -/
theorem Reached.live_of_accompanies (hr : Reached i.session b) (h : b.world.Accompanies i p d) :
    Live b.world i.session d :=
  hr.live h.runsOn.attached h.here h.paced.listens.attached

/-- What a model knows of a thread it knows after a call. -/
theorem knows_perform (hr : Reached i.session b) (h : b.world.Accompanies i p d)
    {es : List Event} {w' : World}
    (hperforms : d.Performs b.world.marks b.world.nextNumber i c d' es)
    (hbecomes : Becomes i.session d' es b.world w') (hkeeps : Debugger.KeepsHandle i d d')
    (hc : c ≠ .threadFinished) (hnone : es.findSome? Event.reason? = none)
    (hw : p'.self.waiting ≠ some .line → p.self.waiting ≠ some .line)
    (hk : p'.self.resumeKind = p.self.resumeKind) :
    ∀ x, d'.ofOwner? i.id = some x → w'.Knows i.session p' x.handle.id := by
  intro x' hx'
  have hmodel := hbecomes.tells.here.model
  have hmail := hr.inOrder.mail_gains hbecomes.mailbox
  have hturns := hperforms.turns hc hnone
  cases hx : d.ofOwner? i.id with
  | some x =>
      obtain ⟨y, hy, hh⟩ := hkeeps x hx
      obtain rfl := Option.some.inj (hy.symm.trans hx')
      rw [hh]
      exact (h.knows x hx).told hmodel hmail hturns hw hk
  | none =>
      -- Nothing is known yet of a thread that begins.
      have hunborn : b.world.foretold i.session b.world.nextNumber = none :=
        (hr.inStep (hr.live_of_accompanies h)).agrees.unborn _ (Nat.le_refl _)
      have hfree : p.self.resumeKind.isStep = false := by
        rw [← h.paced.self, Debugger.executionFor, hx]
        rfl
      have hid : x'.handle.id = b.world.nextNumber := by
        obtain ⟨y, hy, howner, -⟩ | hnew := hperforms.executions (Debugger.mem_of_ofOwner? hx')
        · have hkey := h.paced.listens.orderly.keyed y hy
          rw [h.paced.alone y hy, hx] at hkey
          cases hkey
        · exact hnew
      have hknows : b.world.Knows i.session p b.world.nextNumber := fun _ => by
        rw [hunborn, hfree]
        simp [Outline.start]
      rw [hid]
      exact hknows.told hmodel hmail hturns hw hk

/-- What holds of an attached session holds after a call. -/
theorem accompanies_perform (hr : Reached i.session b) (h : b.world.Accompanies i p d)
    (ht : b.world.Tracks i p d) (hw : p.self.waiting = none) (hc : c.GoesOn) :
    ∃ d' es, (b.perform i c).2.world.Accompanies i (p.call c) d'
      ∧ (b.perform i c).2.world.Tracks i (p.call c) d'
      ∧ Becomes i.session d' es b.world (b.perform i c).2.world
      ∧ es.findSome? Event.reason? = p.stopIn c := by
  obtain ⟨d', es, ht', hkeeps, hperforms, hbecomes, hreason⟩ := tracks_perform ht hr.inOrder hw hc
  have hmodel := hbecomes.tells.here.model
  refine ⟨d', es, ⟨ht'.toPaces, h.runsOn.of_model hmodel, fun x hx => ?_⟩, ht', hbecomes, hreason⟩
  cases hstop : p.stopIn c with
  | some reason =>
      refine fun hline => absurd ?_ hline
      rw [Pace.call, hstop]
      rfl
  | none =>
      have hend : c ≠ .threadFinished := by
        rintro rfl
        exact hc
      have hself : (p.call c).self = { p.self with stack := c.moves p.self.stack } := by
        rw [Pace.call, hstop]
        rfl
      refine knows_perform hr h hperforms hbecomes hkeeps hend (hreason.trans hstop) ?_ ?_ x hx
      · rw [hself]
        exact id
      · rw [hself]

/-! ### Messages that are handed over -/

/-- A session that is attached hears of an event other than the end of the interpreter. -/
theorem advances_of_event (hr : Reached i.session b) (h : b.world.Accompanies i p d) {e : Event}
    {ms : List Message} (hmail : b.world.mail i.session = .event e :: ms)
    (he : e ≠ .engineTerminated) :
    Live (b.after (.deliver i.session)).world i.session d
      ∧ Advances i.session b d (.deliver i.session) (b.after (.deliver i.session)) d := by
  have hlive := hr.live_of_accompanies h
  have hstirs := stirs_after b hr.inOrder (.deliver i.session) nofun
  obtain ⟨u, hu, ⟨-, hs⟩ | ⟨hend, -⟩⟩ := hstirs.of_event (handed_of_mail rfl hmail)
  case inr => exact absurd hend he
  have hafter : Reached i.session (b.after (.deliver i.session)) := hr.after rfl nofun
  have hlive' : Live (b.after (.deliver i.session)).world i.session d := by
    refine hafter.live (hs.here.attached.trans ?_) (hs.here.debugger.trans ?_) hlive.listens
    · rw [hu.here]
      exact h.runsOn.attached
    · rw [hu.here]
      exact h.here
  exact ⟨hlive', hr.advances hlive hlive'⟩

/-- A model hears of an event that needs no answer. -/
theorem shown_of_event (hr : Reached i.session b) (h : b.world.Accompanies i p d) {e : Event}
    {ms : List Message} (hmail : b.world.mail i.session = .event e :: ms) (he : e.IsNews) :
    (b.after (.deliver i.session)).world.mail i.session = ms
      ∧ (b.after (.deliver i.session)).world.foretold i.session = b.world.foretold i.session
      ∧ Live (b.after (.deliver i.session)).world i.session d
      ∧ Advances i.session b d (.deliver i.session) (b.after (.deliver i.session)) d := by
  have hend : e ≠ .engineTerminated := by
    rintro rfl
    exact he
  obtain ⟨hlive', hadvances⟩ := advances_of_event hr h hmail hend
  have hhanded := handed_of_mail rfl hmail
  cases id hadvances with
  | shown e' hx hd hready hmail' hfollows hoptions hn =>
      obtain ⟨-, hms⟩ := List.cons.inj (hmail'.symm.trans hmail)
      have hrest : (b.after (.deliver i.session)).world.mail i.session
          = (b.after (.deliver i.session)).world.mail i.session
            ++ ([] : List Request).map .request := (List.append_nil _).symm
      exact ⟨hms, foretold_of_heard hfollows hoptions hmail' hrest, hlive', hadvances⟩
  | posted rs hnone => cases hhanded.symm.trans hnone
  | called i c es hx => cases hx
  | answered script thread handle root behind hx hd hid hmail' =>
      obtain ⟨heq, -⟩ := List.cons.inj (hmail'.symm.trans hmail)
      cases heq
      exact he.elim
  | obeyed r es behind hx hmail' =>
      obtain ⟨heq, -⟩ := List.cons.inj (hmail'.symm.trans hmail)
      cases heq

/-- What a session hears changes nothing for its thread, if the model knows of it as before. -/
theorem accompanies_of_advances (h : b.world.Accompanies i p d)
    (hlive' : Live (b.after (.deliver i.session)).world i.session d)
    (hadvances : Advances i.session b d (.deliver i.session) (b.after (.deliver i.session)) d)
    (hf : (b.after (.deliver i.session)).world.foretold i.session = b.world.foretold i.session) :
    (b.after (.deliver i.session)).world.Accompanies i p d := by
  have hoptions := hadvances.options
  refine ⟨⟨hlive'.here, ?_⟩,
    ⟨hlive'.attached, hoptions ▸ h.runsOn.startup, hoptions ▸ h.runsOn.load⟩,
    fun x hx => (h.knows x hx).congr (congrFun hf _)⟩
  rw [after, marks_handOver]
  exact h.paced.mono hadvances.numbers

/-- What a model knows of a thread it knows when the debugger heeded a request. -/
theorem accompanies_of_heeds (hr : Reached i.session b) (h : b.world.Accompanies i p d)
    {u w' : World} {r : Request} {es : List Event} (hu : Takes i.session b.world u)
    (hmail : b.world.mail i.session = .request r :: u.mail i.session)
    (hheeds : Heeds i p p' d d' es u w') : w'.Accompanies i p' d' := by
  have hmodel : (w'.session i.session).model = (b.world.session i.session).model := by
    rw [hheeds.becomes.tells.here.model, hu.here]
    rfl
  refine ⟨⟨hheeds.becomes.debugger, hheeds.paced⟩, h.runsOn.of_model hmodel, fun y hy => ?_⟩
  obtain ⟨x, hx, hh⟩ := hheeds.known y hy
  obtain ⟨hinU, -⟩ := hr.inOrder.takes hu (take_of_handed (handed_of_mail rfl hmail))
  have hmail' := hinU.mail_gains hheeds.becomes.mailbox
  have hforetold := foretold_of_takes hu hmail
  rw [← hh]
  cases hheeds.echoes with
  | silent hw hk =>
      exact ((h.knows x hx).congr (congrFun hforetold _)).told hheeds.becomes.tells.here.model
        hmail' (List.forall_mem_nil _) (hw ▸ id) hk
  | resumed x₀ kind hx₀ hk =>
      obtain rfl := Option.some.inj (hx₀.symm.trans hx)
      have hfits := (hr.inStep (hr.live_of_accompanies h)).agrees.fits x₀
        (Debugger.mem_of_ofOwner? hx)
      refine knows_resumed hheeds.becomes.tells.here.model hmail' ?_ hk
      rw [hforetold]
      exact hfits.state_ne_terminated

/-- Where nothing is on its way, nothing is handed over. -/
theorem accompanies_deliver_nil (h : b.world.Accompanies i p d)
    (hmail : b.world.mail i.session = []) :
    (b.after (.deliver i.session)).world.Accompanies i p d
      ∧ (b.after (.deliver i.session)).world.mail i.session = [] := by
  have hu := takes_take (s := i.session) b
  have hrun : b.after (.deliver i.session) = (b.take i.session).2 := by
    have hpair : b.take i.session = (none, (b.take i.session).2) :=
      Prod.ext ((if_pos rfl).symm.trans (handed_of_mail_nil hmail)) rfl
    rw [after, handOver, hpair]
  have hmail' : (b.take i.session).2.world.mail i.session = [] := by
    have hbox := Mailbox.queue_take (b.world.session i.session).mailbox
    rw [mail, hu.here, hbox]
    unfold mail at hmail
    split
    · next m rest hq =>
        rw [hq] at hmail
        cases hmail
    · rfl
  have hf : ∀ id, (b.take i.session).2.world.foretold i.session id
      = b.world.foretold i.session id := fun id => by
    rw [foretold, foretold, hmail, hmail', hu.here]
    rfl
  rw [hrun]
  refine ⟨⟨⟨?_, ?_⟩, ?_, fun x hx => (h.knows x hx).congr (hf _)⟩, hmail'⟩
  · rw [hu.here]
    exact h.here
  · rw [hu.numbers, hu.marks]
    exact h.paced
  · rw [hu.here]
    exact ⟨h.runsOn.attached, h.runsOn.startup, h.runsOn.load⟩

/-- A session that is handed a message goes on as before, but for what its users asked for first. -/
theorem accompanies_deliver (hr : Reached i.session b) (h : b.world.Accompanies i p d)
    (ht : b.world.Tracks i p d) :
    (∃ p' d', p.deliver = some p' ∧ (b.after (.deliver i.session)).world.Accompanies i p' d'
        ∧ (b.after (.deliver i.session)).world.Tracks i p' d')
      ∨ p.deliver = none ∧ IsDeserted (b.after (.deliver i.session)).world i.session := by
  by_cases horders : p.orders = []
  · left
    have hsame : p.deliver = some p := by rw [Pace.deliver, horders]
    refine ⟨p, d, hsame, ?_⟩
    obtain ⟨rs, es, hmail, hrs, -, hnews⟩ := ht.bears
    rw [horders, List.map_eq_nil_iff] at hrs
    subst hrs
    have htracks : ∀ es' : List Event, (b.after (.deliver i.session)).world.Accompanies i p d →
        (b.after (.deliver i.session)).world.mail i.session = es'.map .event →
        (∀ e ∈ es', e.IsNews) → (b.after (.deliver i.session)).world.Tracks i p d :=
      fun es' h' hmail' hes => ⟨h'.toPaces, ht.fair, [], es', hmail', horders.symm,
        List.forall_mem_nil _, hes⟩
    cases es with
    | nil =>
        obtain ⟨h', hmail'⟩ := accompanies_deliver_nil h hmail
        exact ⟨h', htracks [] h' hmail' (List.forall_mem_nil _)⟩
    | cons e es =>
        obtain ⟨he, hes⟩ := List.forall_mem_cons.mp hnews
        obtain ⟨hmail', hf, hlive', hadvances⟩ := shown_of_event hr h hmail he
        have h' := accompanies_of_advances h hlive' hadvances hf
        exact ⟨h', htracks es h' hmail' hes⟩
  · obtain ⟨p', d', es, u, hdeliver, hu, ⟨r, hmailU⟩, hheeds, ht'⟩ | hgone :=
      tracks_handOver ht hr.inOrder horders
    · exact .inl ⟨p', d', hdeliver, accompanies_of_heeds hr h hu hmailU hheeds, ht'⟩
    · exact .inr hgone

/-! ### Scripts that are loaded -/

/-- How a thread goes on that waited before a script: as it did before, or freely if it is in no
step. -/
def passing (x : Execution) : ResumeKind :=
  if x.resumeKind.isStep then .unspecified else .clientRequest

/-- The news that a script is ready, and a thread waits, is on its way, or the request to go on
is, or the thread went on already. -/
inductive Passes (i : Interpreter) (p : Pace) (b : Bridge σ) : Prop where
  | announced (d : Debugger) (x : Execution) (h : b.world.Accompanies i p.held d)
      (hx : d.ofOwner? i.id = some x) (news answers : List Event) (script : Script) (root : Bool)
      (hmail : b.world.mail i.session
        = news.map .event ++ (.scriptReady script x.handle root :: answers).map .event)
      (hnews : ∀ e ∈ news, e.IsNews) (ha : ∀ e ∈ answers, e.isAnswer = true)
  | answered (d : Debugger) (x : Execution) (h : b.world.Accompanies i p.held d)
      (hx : d.ofOwner? i.id = some x) (news : List Event) (handle : Handle)
      (hmail : b.world.mail i.session
        = news.map .event ++ [.request (.resume (some handle) (passing x))])
      (hnews : ∀ e ∈ news, e.IsNews) (hid : x.handle.id = handle.id)
  | passed (d : Debugger) (h : b.world.Accompanies i p d) (ht : b.world.Tracks i p d)

variable {ms : List Message}

/-- A script that is ready is answered by a request to go on as before. -/
theorem answered_of_ready (hr : Reached i.session b) (h : b.world.Accompanies i p.held d)
    {x : Execution} (hx : d.ofOwner? i.id = some x) {answers : List Event} {script : Script}
    {root : Bool} (hmail : b.world.mail i.session
      = .event (.scriptReady script x.handle root) :: answers.map .event)
    (ha : ∀ e ∈ answers, e.isAnswer = true) : Passes i p (b.after (.deliver i.session)) := by
  obtain ⟨hlive', hadvances⟩ := advances_of_event hr h hmail (by simp)
  have hhanded := handed_of_mail rfl hmail
  cases id hadvances with
  | answered script' thread handle root' behind hxd hd hid hmailB hmail' hfollows hoptions hn =>
      obtain ⟨heq, hbehind⟩ := List.cons.inj (hmailB.symm.trans hmail)
      cases heq
      subst hbehind
      have hplain : (b.world.session i.session).options.stopsAt script root = false := by
        rw [LaunchOptions.stopsAt, h.runsOn.startup, h.runsOn.load]
        simp
      -- What the model knows now is what it will know: no turn is on its way.
      have hstate : (((b.world.session i.session).outline x.handle.id).getD .start).state
          = ((b.world.foretold i.session x.handle.id).getD .start).state := by
        have hall : b.world.mail i.session
            = (Event.scriptReady script x.handle root :: answers).map .event := hmail
        rw [foretold, hall, foldl_followMessage_event, state_foldl_followEvent]
        exact List.forall_mem_cons.mpr ⟨rfl, fun e he => Event.turns_of_isAnswer (ha e he)⟩
      have hstepping := h.knows x hx fun hline => by cases hline
      have hkind : x.resumeKind.isStep = p.held.self.resumeKind.isStep := by
        rw [← h.paced.gist_eq hx, Execution.isStep_gist]
      have hload : loadResume (b.world.session i.session).options script root
          ((((b.world.session i.session).outline x.handle.id).getD .start).state = .stepping)
          = passing x := by
        rw [loadResume, hplain, hstate, passing, hkind]
        simp only [Bool.false_eq_true, if_false, decide_eq_true_eq, hstepping]
      have hasked : (b.after (.deliver i.session)).world.mail i.session
          = answers.map .event ++ [Request.resume (some handle) (passing x)].map .request := by
        rw [hmail', hr.breakpoints, hload]
        simp
      have hforetold := foretold_of_heard hfollows hoptions hmail hasked
      refine .answered d x (accompanies_of_advances h hlive' hadvances hforetold) hx answers handle
        hasked (fun e he => Event.isNews_of_isAnswer (ha e he)) hid.symm
  | shown e hxd hd hready hmailB =>
      obtain ⟨heq, -⟩ := List.cons.inj (hmailB.symm.trans hmail)
      cases heq
      exact absurd rfl (hready _ _ _)
  | posted rs hnone => cases hhanded.symm.trans hnone
  | called i c es hxd => cases hxd
  | obeyed r es behind hxd hmailB =>
      obtain ⟨heq, -⟩ := List.cons.inj (hmailB.symm.trans hmail)
      cases heq

/-- A thread that is asked to go on from a script goes on as before. -/
theorem passed_of_request (hr : Reached i.session b) (h : b.world.Accompanies i p.held d)
    (hfair : p.Fair) (hw : p.self.waiting = none) (ho : p.orders = []) {x : Execution}
    (hx : d.ofOwner? i.id = some x) {handle : Handle} (hid : x.handle.id = handle.id)
    (hmail : b.world.mail i.session = [.request (.resume (some handle) (passing x))]) :
    Passes i p (b.after (.deliver i.session)) := by
  have hm := handed_of_mail rfl hmail
  have hrun := after_of_handed_request hm hr.inOrder.present
  have hu := takes_presented (s := i.session) b (.resume (some handle) (passing x))
  obtain ⟨hinU, hmailU⟩ := hr.inOrder.takes hu (take_of_handed hm)
  have hpresent : ((b.presented i.session (.resume (some handle) (passing x))).world.session
      i.session).debugger = some d := by
    rw [hu.here]
    exact h.here
  have hpaced := h.paced
  rw [← hu.numbers, ← hu.marks] at hpaced
  have hwait : x.waiting.isSome = true := by
    rw [← x.waiting_gist, hpaced.gist_eq hx]
    rfl
  have hgist : (x.resume p.held.marks (passing x)).gist = p.self := by
    rw [passing, Execution.gist_resume_of_load, hpaced.gist_eq hx, ← hw]
    rfl
  obtain ⟨d', es, hheeds⟩ := heeds_resume p hpresent hpaced hx hid hwait hgist rfl rfl
  rw [← hrun] at hheeds
  have h' := accompanies_of_heeds hr h hu hmailU hheeds
  refine .passed d' h'
    ⟨h'.toPaces, hfair, [], es, ?_, ho.symm, List.forall_mem_nil _, fun e he => ?_⟩
  · rw [hinU.mail_gains hheeds.becomes.mailbox, ← (List.cons.inj (hmail.symm.trans hmailU)).2]
    rfl
  · cases hheeds.echoes with
    | silent => cases he
    | resumed x kind =>
        obtain rfl := List.mem_singleton.mp he
        trivial

/-- A thread that comes to a script waits before it, and the news of that is on its way. -/
theorem announced_of_scriptStarted (hr : Reached i.session b) (h : b.world.Accompanies i p d)
    (ht : b.world.Tracks i p d) (hw : p.self.waiting = none) (ho : p.orders = []) {script : Script}
    (htracked : d.isTracked script = true) :
    Passes i p (b.perform i (.scriptStarted script)).2 := by
  obtain ⟨d', es, hperforms, hbecomes, hl⟩ :=
    listens_perform (c := .scriptStarted script) h.toPaces hw nofun
  obtain ⟨x, answers, hx, hkeeps, hpaced, ha, rfl⟩ :=
    h.paced.holds htracked hperforms hl (marks_perform h.here (.scriptStarted script))
  have hmodel := hbecomes.tells.here.model
  obtain ⟨rs, news, hmail, horders, -, hnews⟩ := ht.bears
  rw [ho, List.map_eq_nil_iff] at horders
  subst horders
  have hnone : List.findSome? Event.reason?
      (.scriptReady script x.handle x.stack.isEmpty :: answers) = none := by
    rw [List.findSome?_cons]
    exact Event.findSome?_reason?_of_isAnswer ha
  refine .announced d' x ⟨⟨hbecomes.debugger, hpaced⟩, h.runsOn.of_model hmodel, ?_⟩ hx news answers
    script x.stack.isEmpty ?_ hnews ha
  · exact knows_perform hr h hperforms hbecomes hkeeps nofun hnone (fun _ => by rw [hw]; nofun) rfl
  · rw [hr.inOrder.mail_gains hbecomes.mailbox, hmail]
    rfl

/-- A message that is handed over brings a thread that waits before a script nearer to going on. -/
theorem Passes.deliver (h : Passes i p b) (hr : Reached i.session b) (hfair : p.Fair)
    (hw : p.self.waiting = none) (ho : p.orders = []) :
    Passes i p (b.after (.deliver i.session)) := by
  have htail : ∀ {e : Event} {news : List Event}, (∀ e' ∈ e :: news, e'.IsNews) →
      ∀ e' ∈ news, e'.IsNews := fun h e' he' => h e' (List.mem_cons_of_mem _ he')
  cases h with
  | announced d x h hx news answers script root hmail hnews ha =>
      cases news with
      | nil => exact answered_of_ready hr h hx hmail ha
      | cons e news =>
          obtain ⟨hmail', hf, hlive', hadvances⟩ :=
            shown_of_event hr h hmail (hnews e List.mem_cons_self)
          exact .announced d x (accompanies_of_advances h hlive' hadvances hf) hx news answers
            script root hmail' (htail hnews) ha
  | answered d x h hx news handle hmail hnews hid =>
      cases news with
      | nil => exact passed_of_request hr h hfair hw ho hx hid hmail
      | cons e news =>
          obtain ⟨hmail', hf, hlive', hadvances⟩ :=
            shown_of_event hr h hmail (hnews e List.mem_cons_self)
          exact .answered d x (accompanies_of_advances h hlive' hadvances hf) hx news handle hmail'
            (htail hnews) hid
  | passed d h ht =>
      obtain ⟨p', d', hdeliver, h', ht'⟩ | ⟨hdeliver, -⟩ := accompanies_deliver hr h ht
      · rw [Pace.deliver, ho] at hdeliver
        obtain rfl := Option.some.inj hdeliver
        exact .passed d' h' ht'
      · rw [Pace.deliver, ho] at hdeliver
        cases hdeliver

/-! ### What users ask for -/

end Bridge

/-- What users ask for who leave a session: a thread that stopped at a line goes on. -/
def Pace.farewell (p : Pace) : List Request :=
  .removeAllBreakpoints
    :: (if p.self.waiting = some .line then [.resume none .clientRequest] else []) ++ [.disconnect]

/-- A fair pace that was asked for nothing is fair when users leave. -/
theorem Pace.Fair.farewell {p : Pace} (h : p.Fair) (ho : p.orders = []) :
    (p.ask p.farewell).Fair := by
  refine h.ask ho (fun r hr hres => ?_) ?_
  · unfold Pace.farewell at hr
    split at hr
    · next hline => exact hline
    · simp only [List.nil_append, List.cons_append, List.mem_cons, List.not_mem_nil, or_false] at hr
      rcases hr with rfl | rfl <;> cases hres
  · unfold Pace.farewell
    split <;> simp [Request.resumes]

/-- Who is to leave, and has not left yet, still is. -/
theorem Pace.disconnect_mem_deliver {p p' : Pace} (h : p.deliver = some p')
    (hleave : .disconnect ∈ p.orders) : .disconnect ∈ p'.orders := by
  unfold Pace.deliver at h
  cases horders : p.orders with
  | nil =>
      rw [horders] at hleave
      cases hleave
  | cons r rest =>
      rw [horders] at h hleave
      rcases List.mem_cons.mp hleave with rfl | hmem
      · cases h
      · rwa [Pace.orders_heed h]

/-- Of threads that are numbered, one may be singled out. -/
theorem filterMap_of_numbered {α : Type} {ts : List Thread} (hn : Numbered ts) {t : Thread}
    (ht : t ∈ ts) {f : Thread → Option α} {a : α} (hf : f t = some a)
    (honly : ∀ u ∈ ts, f u ≠ none → u.handle.id = t.handle.id) : ts.filterMap f = [a] := by
  induction ts with
  | nil => cases ht
  | cons u ts ih =>
      have hnodup : u.handle.id ∉ ts.map (·.handle.id) ∧ Numbered ts := List.nodup_cons.mp hn
      rcases List.mem_cons.mp ht with rfl | ht
      · have hnone : ts.filterMap f = [] := by
          refine List.filterMap_eq_nil_iff.mpr fun v hv => ?_
          by_contra hsome
          have hid := honly v (List.mem_cons_of_mem _ hv) hsome
          exact hnodup.1 (hid ▸ List.mem_map_of_mem hv)
        rw [List.filterMap_cons_some hf, hnone]
      · have hother : f u = none := by
          by_contra hsome
          have hid := honly u List.mem_cons_self hsome
          exact hnodup.1 (hid ▸ List.mem_map_of_mem ht)
        rw [List.filterMap_cons_none hother]
        exact ih hnodup.2 ht fun v hv => honly v (List.mem_cons_of_mem _ hv)

namespace Bridge

variable {σ : Type} [Inhabited σ] [Engine σ] {i : Interpreter} {p p' : Pace} {d d' : Debugger}
  {b : Bridge σ} {c : Call}

/-- Requests that are posted are put to the pace, where nothing else is on its way. -/
theorem tracks_posts {w w' : World} {rs : List Request} (h : w.Tracks i p d)
    (hin : w.InOrder i.session) (hmail : w.mail i.session = []) (hp : Posts i.session rs w w')
    (hmarks : w'.marks = w.marks) (hrs : ∀ r ∈ rs, r.IsFor i d) (hfair : (p.ask rs).Fair) :
    w'.Tracks i (p.ask rs) d := by
  refine ⟨⟨hp.here.debugger.trans h.here, ?_⟩, hfair, rs, [], ?_, ?_, hrs, List.forall_mem_nil _⟩
  · rw [hmarks]
    exact (h.paced.mono hp.numbers).reorder _
  · rw [hin.mail_gains hp.here.mailbox, hmail]
    simp
  · rw [Pace.ask, h.bears.orders_of_mail_nil hmail]
    rfl

/-- Requests that are posted are put to the pace that a session goes on at. -/
theorem accompanies_posts {w w' : World} {rs : List Request} (h : w.Accompanies i p d)
    (hin : w.InOrder i.session) (hp : Posts i.session rs w w') (hmarks : w'.marks = w.marks) :
    w'.Accompanies i (p.ask rs) d := by
  have hforetold := foretold_requests hp.here.model (hin.mail_gains hp.here.mailbox)
  refine ⟨⟨hp.here.debugger.trans h.here, ?_⟩, h.runsOn.of_model hp.here.model,
    fun x hx => (h.knows x hx).congr (congrFun hforetold _)⟩
  rw [hmarks]
  exact (h.paced.mono hp.numbers).reorder _

/-- Where nothing is on its way, a thread that the model shows, and not as gone, is the one that the
debugger knows. It waits at a line if it is shown as suspended. -/
theorem exists_execution_of_thread (hr : Reached i.session b) (h : b.world.Accompanies i p d)
    (hmail : b.world.mail i.session = []) {t : Thread}
    (ht : t ∈ (b.world.session i.session).threads) (hstate : t.state ≠ .terminated) :
    ∃ x, d.ofOwner? i.id = some x ∧ x.handle.id = t.handle.id
      ∧ (t.state = .suspended → p.self.waiting = some .line) := by
  have hs := hr.inStep (hr.live_of_accompanies h)
  have hshown : b.world.foretold i.session t.handle.id = some t.outline := by
    rw [foretold, hmail, Session.outline, outlineIn_of_mem hs.numbered ht]
    rfl
  have hknown : ∃ x ∈ d.executions, x.handle.id = t.handle.id := by
    by_contra hnone
    refine hstate (hs.agrees.left t.handle.id (fun x hx hid => hnone ⟨x, hx, hid⟩) _ hshown)
  obtain ⟨x, hx, hid⟩ := hknown
  have hself : d.ofOwner? i.id = some x := by
    have hkey := h.paced.listens.orderly.keyed x hx
    rwa [h.paced.alone x hx] at hkey
  refine ⟨x, hself, hid, fun hsuspended => ?_⟩
  rw [← h.paced.gist_eq hself, Execution.waiting_gist]
  by_contra hline
  have hfits := hs.agrees.fits x hx
  exact (hfits.of_ne_line hline t.outline (hid ▸ hshown)).1 hsuspended

/-- A command that suits a thread is for the one that the debugger knows. If it lets the thread go
on, then the thread waits at a line. -/
theorem isFor_request (hr : Reached i.session b) (h : b.world.Accompanies i p d)
    (hmail : b.world.mail i.session = []) {t : Thread}
    (ht : t ∈ (b.world.session i.session).threads) {k : Command} (hk : k.suits t = true) :
    (k.request t.handle).IsFor i d
      ∧ ((k.request t.handle).resumes = true → p.self.waiting = some .line) := by
  have hresume : t.canResume = true → (∃ x, d.ofOwner? i.id = some x ∧ x.handle.id = t.handle.id)
      ∧ p.self.waiting = some .line := by
    intro hcan
    have hsuspended : t.state = .suspended := by simpa [Thread.canResume] using hcan
    obtain ⟨x, hx, hid, hline⟩ :=
      exists_execution_of_thread hr h hmail ht (by rw [hsuspended]; nofun)
    exact ⟨⟨x, hx, hid⟩, hline hsuspended⟩
  cases k with
  | suspend =>
      have hstate : t.state ≠ .terminated := by
        intro hgone
        simp [Command.suits, Thread.canSuspend, hgone] at hk
      obtain ⟨x, hx, hid, -⟩ := exists_execution_of_thread hr h hmail ht hstate
      exact ⟨⟨x, hx, hid⟩, nofun⟩
  | terminate => exact ⟨trivial, nofun⟩
  | _ => exact ⟨(hresume hk).1, fun _ => (hresume hk).2⟩

/-- An order that makes sense is posted, and nothing else happens. -/
theorem worldAfter_commandThread {w : World} {s k : Nat} {c : Command}
    (h : w.threadAllows s k c = true) :
    worldAfter (commandThread s k c) w = w.post s (c.request (w.thread s k).handle) := by
  cases c with
  | terminate =>
      change worldAfter (terminateThread s k) w = _
      have hcan : w.canTerminateThread s k = true := h
      unfold worldAfter terminateThread
      rw [run_get_bind, if_pos hcan]
      rfl
  | _ => rfl

/-- What makes sense for a target suits its only thread. -/
theorem suits_of_allows {x : Session} {c : Command} (h : x.allows c = true) (hc : c ≠ .terminate) :
    x.onlyThread? = some 0 ∧ x.thread 0 ∈ x.threads ∧ c.suits (x.thread 0) = true := by
  have hof : x.ofOnlyThread c.suits = true := by
    cases c with
    | terminate => exact absurd rfl hc
    | _ => exact h
  by_cases hone : x.threads.length = 1
  · have honly : x.onlyThread? = some 0 := if_pos hone
    have hlt : 0 < x.threads.length := by omega
    refine ⟨honly, ?_, ?_⟩
    · rw [Session.thread, List.getElem?_eq_getElem hlt]
      exact List.getElem_mem hlt
    · rwa [Session.ofOnlyThread, honly] at hof
  · have hnone : x.onlyThread? = none := if_neg hone
    rw [Session.ofOnlyThread, hnone] at hof
    cases hof

/-- A command for all threads posts its request, if it is allowed. -/
theorem worldAfter_commandTarget {w : World} {s : Nat} {c : Command}
    (h : (w.session s).allows c = true) :
    worldAfter (commandTarget s c) w = w.post s (c.request (w.thread s 0).handle) := by
  cases c with
  | terminate => rfl
  | _ =>
      have honly := (suits_of_allows h nofun).1
      unfold worldAfter commandTarget onlyThread
      dsimp only
      rw [run_get_bind, honly]
      rfl

/-- A session that is attached and has nothing on its way is asked for something. -/
theorem accompanies_request (hr : Reached i.session b) (h : b.world.Accompanies i p d)
    (ht : b.world.Tracks i p d) (hmail : b.world.mail i.session = []) {r : Request}
    (hfor : r.IsFor i d) (hstands : r.resumes = true → p.self.waiting = some .line) :
    (b.world.post i.session r).Accompanies i (p.ask [r]) d
      ∧ (b.world.post i.session r).Tracks i (p.ask [r]) d := by
  have hposts := posts_post b.world i.session r hr.inOrder.alive h.runsOn.attached
  have hmarks := marks_post b.world i.session r
  have horders := ht.bears.orders_of_mail_nil hmail
  have hfair : (p.ask [r]).Fair :=
    ht.fair.ask horders (List.forall_mem_singleton.mpr hstands) (List.pairwise_singleton _ _)
  exact ⟨accompanies_posts h hr.inOrder hposts hmarks,
    tracks_posts ht hr.inOrder hmail hposts hmarks (List.forall_mem_singleton.mpr hfor) hfair⟩

/-- Where nothing is on its way, the threads that are asked to go on are the one that stopped at a
line, if there is one. -/
theorem pleas_of_accompanies (hr : Reached i.session b) (h : b.world.Accompanies i p d)
    (hmail : b.world.mail i.session = []) :
    ((b.world.session i.session).pleas ++ [Request.disconnect]).map Request.nameless
        = p.farewell.map Request.nameless
      ∧ ∀ r ∈ (b.world.session i.session).pleas ++ [Request.disconnect], r.IsFor i d := by
  have hs := hr.inStep (hr.live_of_accompanies h)
  -- Whoever is asked to go on is shown as suspended, and so it stopped at a line.
  have hplea : ∀ t ∈ (b.world.session i.session).threads, t.plea? ≠ none →
      (∃ x, d.ofOwner? i.id = some x ∧ x.handle.id = t.handle.id)
        ∧ p.self.waiting = some .line := by
    intro t ht hsome
    unfold Thread.plea? at hsome
    split at hsome
    · next hsuspended =>
        obtain ⟨x, hx, hid, hline⟩ :=
          exists_execution_of_thread hr h hmail ht (by rw [hsuspended]; exact ThreadState.noConfusion)
        exact ⟨⟨x, hx, hid⟩, hline hsuspended⟩
    · exact absurd rfl hsome
  refine ⟨?_, fun r hr => ?_⟩
  · unfold Session.pleas Pace.farewell
    split
    · next hline =>
        obtain ⟨x, hx⟩ : ∃ x, d.ofOwner? i.id = some x := by
          cases hx : d.ofOwner? i.id with
          | some x => exact ⟨x, rfl⟩
          | none =>
              have hself := h.paced.self
              rw [Debugger.executionFor, hx] at hself
              rw [← hself] at hline
              cases hline
        have hwait : x.waiting = some .line := by
          rw [← x.waiting_gist, h.paced.gist_eq hx, hline]
        have hshown := (hs.agrees.fits x (Debugger.mem_of_ofOwner? hx)).of_line hwait
        rw [foretold, hmail] at hshown
        obtain ⟨t, ht, hid, ho⟩ := exists_of_outlineIn hshown
        have hsuspended : t.state = .suspended := (congrArg Outline.state ho :)
        have honly := filterMap_of_numbered hs.numbered ht (f := Thread.plea?) (if_pos hsuspended)
          fun u hu hsome => by
            obtain ⟨⟨y, hy, hyid⟩, -⟩ := hplea u hu hsome
            obtain rfl := Option.some.inj (hx.symm.trans hy)
            exact hyid.symm.trans hid.symm
        rw [honly]
        rfl
    · next hline =>
        have hnone : (b.world.session i.session).threads.filterMap Thread.plea? = [] := by
          refine List.filterMap_eq_nil_iff.mpr fun t ht => ?_
          by_contra hsome
          exact hline (hplea t ht hsome).2
        rw [hnone]
  · rcases List.mem_append.mp hr with hr | hr
    · rcases List.mem_cons.mp hr with rfl | hr
      · trivial
      · obtain ⟨t, ht, hsome⟩ := List.mem_filterMap.mp hr
        obtain ⟨hfor, -⟩ := hplea t ht (by rw [hsome]; exact Option.some_ne_none _)
        unfold Thread.plea? at hsome
        split at hsome
        · exact Option.some.inj hsome ▸ hfor
        · cases hsome
    · exact List.mem_singleton.mp hr ▸ trivial

/-- Whose session is left hears of that in the end. -/
theorem tracks_disconnect (hr : Reached i.session b) (h : b.world.Accompanies i p d)
    (ht : b.world.Tracks i p d) (hmail : b.world.mail i.session = [])
    (hover : (b.world.session i.session).terminated = false) :
    (b.after (.disconnect i.session)).world.Tracks i (p.ask p.farewell) d := by
  obtain ⟨hsame, hfor⟩ := pleas_of_accompanies hr h hmail
  let rs := (b.world.session i.session).pleas ++ [.disconnect]
  let u := b.world.postAll i.session rs
  have hposts : Posts i.session rs b.world u := by
    have hfold := posts_foldl i.session id rs b.world hr.inOrder.alive h.runsOn.attached
    rwa [List.map_id] at hfold
  have hrun : (b.after (.disconnect i.session)).world = worldAfter (endSession i.session) u := by
    have hact : (b.after (.disconnect i.session)).world
        = worldAfter (DebugBridge.disconnect i.session) b.world := world_act b _
    rw [hact, worldAfter_disconnect hover]
    have hu : u = (b.world.postAll i.session (b.world.session i.session).pleas).post i.session
        .disconnect := List.foldl_append ..
    rw [hu]
  have hask : p.ask rs = p.ask p.farewell := by
    unfold Pace.ask
    rw [hsame]
  have htracks : u.Tracks i (p.ask p.farewell) d := by
    rw [← hask]
    refine tracks_posts ht hr.inOrder hmail hposts (marks_postAll ..) hfor ?_
    rw [hask]
    exact ht.fair.farewell (ht.bears.orders_of_mail_nil hmail)
  rw [hrun]
  exact htracks.shuts (shuts_endSession u) (marks_endSession u i.session)

end Bridge

end DebugBridge
