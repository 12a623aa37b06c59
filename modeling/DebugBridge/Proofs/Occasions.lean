import DebugBridge.Proofs.Absorption

/-!
# What an encounter does to a session

Of all that may happen on a bridge, little shows in the model of one session. It is opened, it hears of an
event, its users leave it, or else it changes hands at most: it is attached, detached or given up. Whatever
is said of a model throughout a run has to be looked at in these cases only.

## Main definitions

* `Session.substance`: a model, whoever holds it;
* `Bridge.hears`: what a session hears of in an encounter, and where;
* `Bridge.Touches`: the cases.

## Main results

* `touches`: there are no other cases.
-/

namespace DebugBridge

/-- What the model of a session holds, whoever holds the session and whether it is attached or not. -/
def Session.substance (x : Session) : Session :=
  { x.model with alive := false, attached := false }

/-- The substance of a session is a matter of its model. -/
theorem Session.substance_of_model {x x' : Session} (h : x'.model = x.model) :
    x'.substance = x.substance :=
  congrArg (fun y : Session => { y with alive := false, attached := false }) h

/-- The threads of a session are part of its substance. -/
theorem Session.threads_of_substance {x x' : Session} (h : x'.substance = x.substance) :
    x'.threads = x.threads := by
  have hself : ∀ y : Session, y.substance.threads = y.threads := fun y => y.threads_model
  rw [← hself, h, hself]

namespace Bridge

open World

variable {σ : Type} [Inhabited σ] [Engine σ] {s : Nat} {b : Bridge σ}

/-- The event that a session is handed in an encounter, with the world in which it is. -/
def hears (s : Nat) (b : Bridge σ) (i : Encounter σ) : Option (Event × World) :=
  match i with
  | .does d =>
    match b.handed s d with
    | some (.event e) => some (e, (b.offered s (.event e)).world)
    | _ => none
  | .befalls t h =>
    match h with
    | .heard e => if t = s then some (e, b.world) else none
    | _ => none

/-- What an encounter can do to the model of a session. -/
inductive Touches (s : Nat) (b : Bridge σ) (i : Encounter σ) : Prop where
  /-- It changes hands at most. If it is handed an event, it does not listen. -/
  | spared
      (hhears : ∀ e u, b.hears s i = some (e, u) → (u.session s).attached = false)
      (hsame : ((b.meet i).world.session s).substance = (b.world.session s).substance)
      (halive : ((b.meet i).world.session s).alive = true → (b.world.session s).alive = true)
  | opened (setup : Setup) (hi : i = .does (.launch setup)) (hs : s = b.world.sessions.size)
      (hnew : ((b.meet i).world.session s).substance = (b.world.newSession setup).substance)
  | heard (e : Event) (u : World) (j : Journal) (hhears : b.hears s i = some (e, u))
      (ha : (b.world.session s).attached = true)
      (hu : (u.session s).model = (b.world.session s).model)
      (hafter : (b.meet i).world = { worldAfter (handleEvent s e) u with journal := j })
  /-- Its users leave it. -/
  | left (u : World) (hhears : b.hears s i = none)
      (hu : (u.session s).model = (b.world.session s).model)
      (hafter : (b.meet i).world = worldAfter (endSession s) u)

/-- An encounter that leaves the model of a session spares it. -/
theorem Touches.of_model {i : Encounter σ}
    (hhears : ∀ e u, b.hears s i = some (e, u) → (u.session s).attached = false)
    (hmodel : ((b.meet i).world.session s).model = (b.world.session s).model) : Touches s b i :=
  .spared hhears (Session.substance_of_model hmodel) ((congrArg Session.alive hmodel :).symm.trans ·)

omit [Inhabited σ] [Engine σ] in
/-- A session that is opened is a new one. -/
theorem substance_launch (b : Bridge σ) (setup : Setup) :
    ((b.launch setup).2.world.session b.world.sessions.size).substance
      = (b.world.newSession setup).substance := by
  have hnew : ∀ j, ({ b.world.opened setup with journal := j } : World).session
      b.world.sessions.size = b.world.newSession setup := fun j =>
    (session_opened ..).trans (if_pos rfl)
  have hjoined : ∀ w : World, ((w.joined b.world.sessions.size setup).session
      b.world.sessions.size).substance = (w.session b.world.sessions.size).substance := by
    intro w
    unfold joined
    cases setup.withDebugger <;> cases setup.joined <;>
      simp [addDebugger, joinSides, modifyDebugger, session_modifySession, Session.substance,
        Session.model]
  obtain ⟨j, h | h⟩ := world_launch b setup
  · rw [h, hjoined, hnew]
  · rw [h, dropSession, session_modifySession, if_pos rfl, hnew]
    rfl

/-- A session is handed its oldest message. If that is an event, it hears of it. -/
theorem touches_deliver (s : Nat) (b : Bridge σ) : Touches s b (.does (.deliver s)) := by
  have htaken : ((b.take s).2.world.session s).model = (b.world.session s).model := by
    rw [(takes_take b).here]
    rfl
  have hhanded : b.handed s (.deliver s) = (b.take s).1 := if_pos rfl
  have hspared : b.hears s (.does (.deliver s)) = none →
      ((b.handOver s).world.session s).model = (b.world.session s).model →
      Touches s b (.does (.deliver s)) := fun hhears hmodel =>
    .of_model (fun e u h => by rw [hhears] at h; cases h) hmodel
  cases hm : (b.take s).1 with
  | none =>
      have hrun : b.handOver s = (b.take s).2 := by
        rw [handOver, show b.take s = (none, (b.take s).2) from Prod.ext hm rfl]
      refine hspared ?_ (hrun ▸ htaken)
      rw [hears, hhanded, hm]
  | some m =>
      have hrun : b.handOver s = (b.take s).2.accept s m := by
        rw [handOver, show b.take s = (some m, (b.take s).2) from Prod.ext hm rfl]
      cases m with
      | event e =>
          let u := b.offered s (.event e)
          have hhears : b.hears s (.does (.deliver s)) = some (e, u.world) := by
            rw [hears, hhanded, hm]
          obtain ⟨j, hj⟩ := world_deliverEvent u s e
          have hafter : (b.handOver s).world = { worldAfter (handleEvent s e) u.world with journal := j } :=
            hrun ▸ hj
          cases ha : (b.world.session s).attached with
          | true => exact .heard e u.world j hhears ha htaken hafter
          | false =>
              have hu : (u.world.session s).attached = false := (congrArg Session.attached htaken :).trans ha
              have hmodel : ((b.handOver s).world.session s).model = (b.world.session s).model := by
                rw [hafter, worldAfter, handleEvent_unattached hu]
                exact htaken
              refine .of_model (fun e' u' h => ?_) hmodel
              rw [hhears] at h
              cases h
              exact hu
      | request r =>
          let v := (b.offered s (.request r)).onWorld (·.noteReceived s r)
          refine hspared ?_ ?_
          · rw [hears, hhanded, hm]
          · have hrun' : b.handOver s = if (v.world.session s).debugger.isSome then v.receive s r else v :=
              hrun
            rw [hrun']
            split
            · exact (model_of_tells (tells_receive v r)).trans htaken
            · exact htaken

/-- Users who leave a session end it, unless it has ended. -/
theorem touches_disconnect {i : Encounter σ} (hhears : b.hears s i = none)
    (hrun : (b.meet i).world = worldAfter (disconnect s) b.world) : Touches s b i := by
  obtain ⟨-, hsame⟩ | ⟨-, u, ⟨-, rs, -, hu⟩, hend⟩ := disconnect_cases s b.world
  · exact .of_model (fun e u h => by rw [hhears] at h; cases h) (by rw [hrun, hsame])
  · obtain ⟨rs', hpost⟩ := exists_posts_post u s .disconnect
    exact .left _ hhears ((model_of_posts hpost).trans (model_of_posts hu)) (hrun.trans hend)

omit [Inhabited σ] [Engine σ] in
/-- Of what is not heard nothing is to be shown. -/
theorem attached_of_hears_eq_none {i : Encounter σ} (h : b.hears s i = none) (e : Event) (u : World)
    (hhears : b.hears s i = some (e, u)) : (u.session s).attached = false := by
  rw [h] at hhears
  cases hhears

/-- What a deed can be for the model of a session. -/
theorem touches_does (s : Nat) (b : Bridge σ) (d : Deed σ) : Touches s b (.does d) := by
  by_cases hopen : ∃ setup, d = .launch setup ∧ s = b.world.sessions.size
  · obtain ⟨setup, rfl, rfl⟩ := hopen
    exact .opened setup rfl rfl (substance_launch b setup)
  by_cases hdeliver : d = .deliver s
  · subst hdeliver
    exact touches_deliver s b
  have hhears : b.hears s (.does d) = none := by
    have hhanded : b.handed s d = none := by
      cases d with
      | deliver t => exact if_neg fun ht => hdeliver (by rw [ht])
      | _ => rfl
    rw [hears, hhanded]
  by_cases hleave : d = .disconnect s
  · subst hleave
    exact touches_disconnect hhears (world_act b _)
  by_cases hdrop : d = .dropSession s
  · subst hdrop
    have hself : (b.meet (.does (.dropSession s))).world.session s
        = { b.world.session s with alive := false, mailbox := .closed } :=
      (session_modifySession ..).trans (if_pos rfl)
    refine .spared (attached_of_hears_eq_none hhears) ?_ ?_
    · rw [hself]
      rfl
    · rw [hself]
      exact fun h => by cases h
  · exact .of_model (attached_of_hears_eq_none hhears) (model_after_of_unopened b
      (fun setup hd hs => hopen ⟨setup, hd, hs⟩) hdrop hdeliver hleave)

/-- A change that leaves what a session shows spares it. -/
theorem touches_modifySession {i : Encounter σ} (f : Session → Session)
    (hrun : (b.meet i).world = b.world.modifySession s f)
    (hf : ∀ x, (f x).substance = x.substance ∧ (f x).alive = x.alive)
    (hhears : b.hears s i = none) : Touches s b i := by
  have hself : (b.meet i).world.session s = f (b.world.session s) := by
    rw [hrun, session_modifySession, if_pos rfl]
  refine .spared (attached_of_hears_eq_none hhears) ?_ ?_
  · rw [hself, (hf _).1]
  · rw [hself, (hf _).2]
    exact id

/-- What befalls a session is one of few things for its model. -/
theorem touches_befalls (s : Nat) (b : Bridge σ) (h : Happening) : Touches s b (.befalls s h) := by
  cases h with
  | heard e =>
      have hhears : b.hears s (.befalls s (.heard e)) = some (e, b.world) := if_pos rfl
      cases ha : (b.world.session s).attached with
      | true => exact .heard e b.world _ hhears ha rfl rfl
      | false =>
          have hrun : (b.meet (.befalls s (.heard e))).world = b.world := by
            change worldAfter (handleEvent s e) b.world = _
            rw [worldAfter, handleEvent_unattached ha]
          refine .of_model (fun e' u h => ?_) (by rw [hrun])
          rw [hhears] at h
          cases h
          exact ha
  | disconnected => exact touches_disconnect rfl rfl
  | detached => exact touches_modifySession _ rfl (fun _ => ⟨rfl, rfl⟩) rfl
  | attached box => exact touches_modifySession _ rfl (fun _ => ⟨rfl, rfl⟩) rfl

/-- Nothing else can happen to the model of a session. -/
theorem touches (s : Nat) (b : Bridge σ) (i : Encounter σ) : Touches s b i := by
  cases i with
  | does d => exact touches_does s b d
  | befalls t h =>
      by_cases hst : t = s
      · subst hst
        exact touches_befalls t b h
      · have hhears : b.hears s (.befalls t h) = none := by
          cases h with
          | heard e => exact if_neg hst
          | _ => rfl
        exact .of_model (attached_of_hears_eq_none hhears)
          (congrArg Session.model (spares_happening (Ne.symm hst) b.world h).here :)

end Bridge

end DebugBridge
