import DebugBridge.Proofs.Telling

/-!
# The farewell of a session

A front end is told of the end of its session once, in the moment in which the session ends. What
happens before and after leaves no such notification behind. A session that is over, with a debugger
that is gone and no message on its way, stays as it is.

## Main definitions

* `World.farewells`: how often the front end of a session was told of the end;
* `World.Bidden`: a session whose front end was told as often as it should;
* `World.Over`: a session that is over on both sides.

## Main results

* `bidden_run`: front ends are told of the end as often as they should, in every run;
* `over_run`: a session that is over on both sides stays so, whatever happens.
-/

namespace DebugBridge

/-- Whether a notification says that a session has ended. -/
def Note.isFarewell (s : Nat) : Note → Bool
  | .model t (.terminated .target) _ => t == s
  | _ => false

/-- A plain notification is no farewell. -/
theorem Note.IsPlain.isFarewell {n : Note} (h : n.IsPlain) (s : Nat) : n.isFarewell s = false := by
  unfold Note.isFarewell
  split
  · exact absurd rfl h
  · rfl

namespace World

variable {s t : Nat} {w w' : World}

/-- How often the front end of a session was told of its end. -/
def farewells (w : World) (s : Nat) : Nat :=
  w.journal.notes.toList.countP (Note.isFarewell s)

/-- Plain notifications are no farewells. -/
theorem Mild.farewells (h : Mild w w') (s : Nat) : w'.farewells s = w.farewells s := by
  obtain ⟨ns, hns, hplain⟩ := h.notes
  have hnone : ns.countP (Note.isFarewell s) = 0 :=
    List.countP_eq_zero.mpr fun n hn => by simp [(hplain n hn).isFarewell s]
  rw [World.farewells, World.farewells, hns, List.countP_append, hnone, Nat.add_zero]

/-- A note counts for a session if it is its farewell. -/
theorem farewells_note (w : World) (n : Note) (s : Nat) :
    (w.note n).farewells s = w.farewells s + if n.isFarewell s then 1 else 0 := by
  have hnotes : (w.note n).journal.notes.toList = w.journal.notes.toList ++ [n] := by
    simp [note, Journal.note]
  rw [farewells, farewells, hnotes, List.countP_append, List.countP_singleton]

/-- Nobody takes leave. -/
def Unparted (s : Nat) (w w' : World) : Prop :=
  w'.farewells s = w.farewells s

/-- Steps in which nobody takes leave hold of a sequence. -/
theorem steady_unparted (s : Nat) : Steady (Unparted s) where
  refl _ := rfl
  trans h h' := Eq.trans h' h

/-- Nobody takes leave when variables are taken in. -/
theorem unparted_setVariables (s : Nat) (frame : FrameRef) (reported : List VariableId) :
    Keeps (Unparted s) (withInHand frame (setVariables frame reported)) := by
  have h := steady_unparted s
  refine keeps_withInHand h (fun _ _ => rfl) frame (Keeps.bind h (Keeps.get h) fun w =>
    Keeps.bind h (fun _ => rfl) fun merged => Keeps.bind h (Keeps.change fun _ => rfl) fun _ => ?_)
  exact fun w => (plain_frameChanged frame .content w).mild.farewells s

/-- Nobody takes leave when a result is handed on. -/
theorem unparted_deliverResult (s : Nat) (frame : FrameRef) (listener : String)
    (result : WatchResult) :
    Keeps (Unparted s) (withInHand frame (deliverResult listener result)) := by
  have h := steady_unparted s
  refine keeps_withInHand h (fun _ _ => rfl) frame (Keeps.bind h (Keeps.get h) fun w =>
    Keeps.bind h (fun _ => rfl) fun shown => Keeps.change fun w => ?_)
  exact farewells_note w (.watch listener result shown) s

/-- Nobody takes leave when a session is closed. -/
theorem farewells_close (w : World) (t : Nat) : (w.close t).farewells s = w.farewells s := by
  unfold close
  dsimp only
  split
  · rfl
  · split <;> rfl

/-- A front end that listens is told of the end when it comes. -/
theorem farewells_endSession (w : World) :
    (worldAfter (endSession s) w).farewells s = w.farewells s
      + if !(w.session s).terminated && (w.session s).alive && (w.session s).observed then 1
        else 0 := by
  rw [worldAfter_endSession]
  split
  · have hself : (Note.farewell s).isFarewell s = true := beq_self_eq_true s
    rw [farewells_note, farewells_close, hself, if_pos rfl]
  · rw [farewells_close]
    rfl

/-- Other sessions take no leave when one ends. -/
theorem farewells_endSession_of_ne (hst : s ≠ t) (w : World) :
    (worldAfter (endSession t) w).farewells s = w.farewells s := by
  rw [worldAfter_endSession]
  split
  · have hother : (Note.farewell t).isFarewell s = false := beq_false_of_ne (Ne.symm hst)
    rw [farewells_note, farewells_close, hother]
    rfl
  · exact farewells_close w t

/-- The end of a session leaves the others as they are. -/
theorem outer_endSession_of_ne (hst : s ≠ t) (w : World) :
    ((worldAfter (endSession t) w).session s).outer = (w.session s).outer := by
  have h := outer_of_unframed ((still_endSession t w).everywhere s)
  rwa [session_close_of_ne w hst] at h

/-! ### Farewells that were bidden -/

/-- A front end that listens was told of the end of its session, once, and not before. -/
structure Bidden (w : World) (s : Nat) : Prop where
  once : w.farewells s ≤ 1
  unobserved : (w.session s).observed = false → w.farewells s = 0
  ongoing : (w.session s).terminated = false → w.farewells s = 0
  ended : (w.session s).alive = true → (w.session s).terminated = true →
    (w.session s).observed = true → w.farewells s = 1

/-- A front end was bidden farewell if it listens, and was told as often. -/
theorem Bidden.congr (h : Bidden w s) (hf : w'.farewells s = w.farewells s)
    (ho : (w'.session s).observed = (w.session s).observed)
    (ht : (w'.session s).terminated = (w.session s).terminated)
    (hl : (w'.session s).alive = true → (w.session s).alive = true) : Bidden w' s where
  once := hf ▸ h.once
  unobserved ho' := hf.trans (h.unobserved (ho.symm.trans ho'))
  ongoing ht' := hf.trans (h.ongoing (ht.symm.trans ht'))
  ended hl' ht' ho' := hf.trans (h.ended (hl hl') (ht.symm.trans ht') (ho.symm.trans ho'))

/-- A front end was bidden farewell if the model is what it was. -/
theorem Bidden.of_model (h : Bidden w s) (hf : w'.farewells s = w.farewells s)
    (hm : (w'.session s).model = (w.session s).model) : Bidden w' s :=
  h.congr hf (congrArg Session.observed hm :) (congrArg Session.terminated hm :)
    fun hl => (congrArg Session.alive hm :).symm.trans hl

/-- A front end was bidden farewell if only what the model shows is different. -/
theorem Bidden.of_outer (h : Bidden w s) (hf : w'.farewells s = w.farewells s)
    (hs : (w'.session s).outer = (w.session s).outer) : Bidden w' s :=
  h.congr hf (congrArg Session.observed hs :) (congrArg Session.terminated hs :)
    fun hl => (congrArg Session.alive hs :).symm.trans hl

/-- A front end is bidden farewell once when its session ends. -/
theorem bidden_endSession (h : Bidden w s) : Bidden (worldAfter (endSession s) w) s := by
  have hf := farewells_endSession (s := s) w
  have hshuts := Bridge.shuts_endSession (s := s) w
  have ho : ((worldAfter (endSession s) w).session s).observed = (w.session s).observed := by
    have hs := (still_endSession s w).everywhere s
    have hclose : ((w.close s).session s).observed = (w.session s).observed := by
      rw [session_close_self]
      split <;> rfl
    exact (congrArg Session.observed hs :).trans hclose
  refine ⟨?_, fun ho' => ?_, fun ht' => ?_, fun hl' _ ho' => ?_⟩
  · rw [hf]
    cases ht : (w.session s).terminated with
    | true => exact h.once
    | false =>
        rw [h.ongoing ht]
        split <;> omega
  · have hobserved := ho.symm.trans ho'
    rw [hf, h.unobserved hobserved, hobserved]
    simp
  · rw [hshuts.terminated] at ht'
    cases ht'
  · have hobserved := ho.symm.trans ho'
    have halive := hshuts.alive.symm.trans hl'
    rw [hf, hobserved, halive]
    cases ht : (w.session s).terminated with
    | true =>
        rw [h.ended halive ht hobserved]
        rfl
    | false =>
        rw [h.ongoing ht]
        rfl

end World

namespace Bridge

open World

variable {σ : Type} [Inhabited σ] [Engine σ] {s : Nat} {b : Bridge σ}

/-- A step that changes threads shows in what a model shows of them only. -/
theorem outer_of_depicts {t : Nat} {ts : List Script} {w w' : World} (h : Depicts t ts w w') :
    (w'.session s).outer = (w.session s).outer := by
  by_cases hst : s = t
  · subst hst
    exact outer_of_shell h.here
  · exact outer_of_unframed (h.elsewhere s hst)

/-- Whatever is done, a front end is bidden farewell once, when its session ends. -/
theorem spans_bidden (s : Nat) : Spans (fun _ => True) (fun _ => True) (fun _ => True)
    fun w w' => Bidden w s → Bidden w' s where
  refl _ := id
  trans h h' hb := h' (h hb)
  beside hs _ _ _ hmild hb := hb.of_outer (hmild.farewells s) (by rw [session, session, hs])
  onHeap _ _ _ hb := hb.of_outer rfl rfl
  asks h hb := hb.of_model (h.mild.farewells s) (h.everywhere s).model
  depicts h hb := hb.of_outer (h.mild.farewells s) (outer_of_depicts h)
  posts := fun ⟨hmild, _, _, h⟩ hb => hb.of_model (hmild.farewells s) (model_of_posts h)
  register w t script hb := hb.of_outer rfl (outer_register w t script)
  fill frame reported _ w hb := hb.of_outer (unparted_setVariables s frame reported w)
    (outer_of_unframed ((still_withInHand frame (keeps_setVariables frame reported) w).everywhere s))
  result _ frame _ listener _ w hb := hb.of_outer (unparted_deliverResult s frame listener _ w)
    (outer_of_unframed ((still_withInHand frame (keeps_deliverResult listener _) w).everywhere s))
  enter _ _ _ _ _ hb := hb.of_outer rfl rfl
  leave _ _ _ hb := hb.of_outer rfl rfl
  prune _ _ hb := hb.of_outer rfl rfl
  listen _ _ _ hb := hb.of_outer rfl rfl
  tells h hb := hb.of_model (h.mild.farewells s) (model_of_tells h)
  take w t hb := by
    refine hb.of_model rfl ?_
    rw [session_modifySession]
    split
    · next hst => subst hst; rfl
    · rfl
  part w t hb := by
    obtain ⟨rs, h⟩ := exists_posts_post w t .disconnect
    exact hb.of_model ((mild_post w t .disconnect).farewells s) (model_of_posts h)
  finish t w hb := by
    by_cases hst : s = t
    · subst hst
      exact bidden_endSession hb
    · exact hb.of_outer (farewells_endSession_of_ne hst w) (outer_endSession_of_ne hst w)
  drop w t hb := by
    have hs : (w.dropSession t).session s
        = if t = s then { w.session t with alive := false, mailbox := .closed }
          else w.session s := session_modifySession ..
    refine hb.congr rfl ?_ ?_ ?_
    · rw [hs]
      split
      · next hst => subst hst; rfl
      · rfl
    · rw [hs]
      split
      · next hst => subst hst; rfl
      · rfl
    · rw [hs]
      split
      · exact fun h => by cases h
      · exact id

omit [Inhabited σ] [Engine σ] in
/-- A session that was just opened has not ended. -/
theorem terminated_launch (b : Bridge σ) (setup : Setup) :
    ((b.launch setup).2.world.session b.world.sessions.size).terminated = false := by
  have hnew : ∀ j, (({ b.world.opened setup with journal := j } : World).session
      b.world.sessions.size).terminated = false := by
    intro j
    change ((b.world.opened setup).session _).terminated = false
    rw [session_opened, if_pos rfl]
    rfl
  have hjoined : ∀ w : World, ((w.joined b.world.sessions.size setup).session
      b.world.sessions.size).terminated = (w.session b.world.sessions.size).terminated := by
    intro w
    unfold joined
    cases setup.withDebugger <;> cases setup.joined <;>
      simp [addDebugger, joinSides, modifyDebugger, session_modifySession]
  obtain ⟨j, h | h⟩ := world_launch b setup
  · rw [h, hjoined]
    exact hnew j
  · rw [h, dropSession, session_modifySession, if_pos rfl]
    exact hnew j

omit [Inhabited σ] [Engine σ] in
/-- A session that is opened has not ended, and nobody was told that it had. -/
theorem bidden_launch (setup : Setup) (h : Bidden b.world s) :
    Bidden (b.launch setup).2.world s := by
  have hf := (mild_launch b setup).farewells s
  by_cases hs : s = b.world.sessions.size
  · have hnone : b.world.farewells s = 0 := by
      refine h.unobserved ?_
      rw [hs]
      simp [session, Arena.get, Arena.size, default, Session.absent]
    refine ⟨hf ▸ h.once, fun _ => hf.trans hnone, fun _ => hf.trans hnone, fun _ ht _ => ?_⟩
    rw [hs, terminated_launch] at ht
    cases ht
  · exact h.of_outer hf (outer_of_unframed (spares_launch b setup hs).here)

/-- Every deed leaves it at the farewells that were bidden. -/
theorem bidden_after (b : Bridge σ) (x : Deed σ) (h : Bidden b.world s) :
    Bidden (b.after x).world s := by
  refine (spans_bidden s).after b x (fun _ _ _ => trivial) (fun _ _ _ => trivial)
    (fun _ _ => trivial) (fun setup hx hb => ?_) h
  subst hx
  exact bidden_launch setup hb

omit [Inhabited σ] [Engine σ] in
/-- Nobody was told of an end where nothing has begun. -/
theorem bidden_of_fresh (hb : b.Fresh) : Bidden b.world s := by
  obtain ⟨reaction, hb⟩ := hb
  rw [hb]
  exact ⟨Nat.zero_le 1, fun _ => rfl, fun _ => rfl, nofun⟩

/-- Front ends are told of the end of their sessions as often as they should. -/
theorem bidden_run (hb : b.Fresh) (ds : List (Deed σ)) : Bidden (run ds b).world s :=
  run_induction (P := fun b => Bidden b.world s) (bidden_of_fresh hb) bidden_after ds

end Bridge

/-! ### Sessions that are over -/

namespace World

variable {s t : Nat} {w w' : World}

/-- A session that is over on both sides: the front end was told, the debugger is gone, and nothing
is on its way. -/
structure Over (w : World) (s : Nat) : Prop where
  attached : (w.session s).attached = false
  terminated : (w.session s).terminated = true
  farewells : w.farewells s = if (w.session s).observed then 1 else 0
  present : (w.session s).debugger.isSome = true
  left : ∀ d, (w.session s).debugger = some d → d.Gone
  queue : (w.session s).mailbox.queue = []

/-- A session is over if it was, up to what its model shows. -/
theorem Over.of_outer (h : Over w s) (hf : w'.farewells s = w.farewells s)
    (hs : (w'.session s).outer = (w.session s).outer) : Over w' s where
  attached := (congrArg Session.attached hs :).trans h.attached
  terminated := (congrArg Session.terminated hs :).trans h.terminated
  farewells := by
    have ho : (w'.session s).observed = (w.session s).observed := (congrArg Session.observed hs :)
    rw [hf, ho]
    exact h.farewells
  present := (congrArg (·.debugger.isSome) hs :).trans h.present
  left d hd := h.left d ((congrArg Session.debugger hs :).symm.trans hd)
  queue := (congrArg (·.mailbox.queue) hs :).trans h.queue

/-- A session that is over gets no message. -/
theorem Over.gains (h : Over w s) (hf : w'.farewells s = w.farewells s)
    (hm : (w'.session s).model = (w.session s).model)
    (hp : (w'.session s).debugger.isSome = (w.session s).debugger.isSome)
    (hd : ∀ d, (w'.session s).debugger = some d → d.Gone)
    (hg : (w.session s).mailbox.Gains [] (w'.session s).mailbox) : Over w' s where
  attached := (congrArg Session.attached hm :).trans h.attached
  terminated := (congrArg Session.terminated hm :).trans h.terminated
  farewells := by
    have ho : (w'.session s).observed = (w.session s).observed := (congrArg Session.observed hm :)
    rw [hf, ho]
    exact h.farewells
  present := hp.trans h.present
  left := hd
  queue := hg.queue_nil.trans h.queue

/-- Requests that are posted leave what is over over. -/
theorem Over.posted (h : Over w s) {rs : List Request} (hmild : Mild w w') (hp : Posts t rs w w') :
    Over w' s := by
  by_cases hst : s = t
  · subst hst
    obtain rfl := hp.here.idle h.attached
    exact h.gains (hmild.farewells s) hp.here.model (by rw [hp.here.debugger])
      (fun d hd => h.left d (hp.here.debugger.symm.trans hd)) hp.here.mailbox
  · exact h.of_outer (hmild.farewells s) (by rw [hp.elsewhere s hst])

/-- What users ask for leaves what is over over. -/
theorem Over.asked (h : Over w s) (ha : Asks w w') : Over w' s := by
  have hs := ha.everywhere s
  obtain ⟨rs, -, hg, hidle⟩ := hs.mailbox
  obtain rfl := hidle h.attached
  exact h.gains (ha.mild.farewells s) hs.model (by rw [hs.debugger])
    (fun d hd => h.left d (hs.debugger.symm.trans hd)) hg

/-- Steps of interpreter sides leave what is over over. -/
theorem Over.told (h : Over w s) (ht : Tells t w w') : Over w' s := by
  by_cases hst : s = t
  · subst hst
    obtain ⟨es, hg, hnil⟩ := ht.here.mailbox
    obtain rfl := hnil fun d hd => (h.left d hd).attached
    refine h.gains (ht.mild.farewells s) ht.here.model ht.here.present (fun d' hd' => ?_) hg
    obtain ⟨d, hd, hyields⟩ := ht.here.debugger d' hd'
    exact hyields.gone (h.left d hd)
  · exact h.of_outer (ht.mild.farewells s) (by rw [ht.elsewhere s hst])

/-- What is over does not end again. -/
theorem Over.finished (h : Over w s) : Over (worldAfter (endSession t) w) s := by
  by_cases hst : s = t
  · subst hst
    have hend : worldAfter (endSession s) w = w.close s := by
      rw [worldAfter_endSession, h.terminated]
      rfl
    have hs := session_close_self w s
    rw [h.terminated, if_pos rfl] at hs
    refine h.of_outer (by rw [hend, farewells_close]) ?_
    rw [hend, hs]
    have hatt := h.attached
    generalize w.session s = x at hatt
    obtain ⟨⟩ := x
    obtain rfl : _ = false := hatt
    rfl
  · exact h.of_outer (farewells_endSession_of_ne hst w) (outer_endSession_of_ne hst w)

/-- A session that is given up leaves what is over over. -/
theorem Over.dropped (h : Over w s) : Over (w.dropSession t) s := by
  have hs : (w.dropSession t).session s
      = if t = s then { w.session t with alive := false, mailbox := .closed }
        else w.session s := session_modifySession ..
  by_cases hst : s = t
  · subst hst
    rw [if_pos rfl] at hs
    have hf : (w.dropSession s).farewells s = w.farewells s := rfl
    refine ⟨?_, ?_, ?_, ?_, fun d hd => ?_, ?_⟩
    · rw [hs]; exact h.attached
    · rw [hs]; exact h.terminated
    · rw [hs, hf]; exact h.farewells
    · rw [hs]; exact h.present
    · rw [hs] at hd
      exact h.left d hd
    · rw [hs]; rfl
  · rw [if_neg (Ne.symm hst)] at hs
    exact h.of_outer rfl (by rw [hs])

/-- A message that is taken leaves what is over over. -/
theorem Over.taken (h : Over w s) :
    Over (w.modifySession t fun session =>
      { session with mailbox := (w.session t).mailbox.take.2 }) s := by
  by_cases hst : s = t
  · subst hst
    have hs : (w.modifySession s fun session =>
        { session with mailbox := (w.session s).mailbox.take.2 }).session s
          = { w.session s with mailbox := (w.session s).mailbox.take.2 } :=
      (session_modifySession ..).trans (if_pos rfl)
    have hunmarked : isMarked (w.session s).mailbox.queue = false := by
      rw [h.queue]
      rfl
    have htake : (w.session s).mailbox.take.1 = none := by
      rw [Mailbox.take_fst, h.queue]
    refine h.gains rfl (by rw [hs]; rfl) (by rw [hs]) (fun d hd => ?_) ?_
    · rw [hs] at hd
      exact h.left d hd
    · rw [hs]
      exact Mailbox.gains_take_none _ hunmarked htake
  · refine h.of_outer rfl ?_
    rw [session_modifySession, if_neg (Ne.symm hst)]

end World

namespace Bridge

open World

variable {σ : Type} [Inhabited σ] [Engine σ] {s : Nat} {b : Bridge σ}

/-- Whatever is done, what is over remains over. -/
theorem spans_over (s : Nat) : Spans (fun _ => True) (fun _ => True) (fun _ => True)
    fun w w' => Over w s → Over w' s where
  refl _ := id
  trans h h' ho := h' (h ho)
  beside hs _ _ _ hmild ho := ho.of_outer (hmild.farewells s) (by rw [session, session, hs])
  onHeap _ _ _ ho := ho.of_outer rfl rfl
  asks h ho := ho.asked h
  depicts h ho := ho.of_outer (h.mild.farewells s) (outer_of_depicts h)
  posts := fun ⟨hmild, _, _, h⟩ ho => ho.posted hmild h
  register w t script ho := ho.of_outer rfl (outer_register w t script)
  fill frame reported _ w ho := ho.of_outer (unparted_setVariables s frame reported w)
    (outer_of_unframed ((still_withInHand frame (keeps_setVariables frame reported) w).everywhere s))
  result _ frame _ listener _ w ho := ho.of_outer (unparted_deliverResult s frame listener _ w)
    (outer_of_unframed ((still_withInHand frame (keeps_deliverResult listener _) w).everywhere s))
  enter _ _ _ _ _ ho := ho.of_outer rfl rfl
  leave _ _ _ ho := ho.of_outer rfl rfl
  prune _ _ ho := ho.of_outer rfl rfl
  listen _ _ _ ho := ho.of_outer rfl rfl
  tells h ho := ho.told h
  take _ _ ho := ho.taken
  part w t ho := by
    obtain ⟨rs, h⟩ := exists_posts_post w t .disconnect
    exact ho.posted (mild_post w t .disconnect) h
  finish _ _ ho := ho.finished
  drop _ _ ho := ho.dropped

/-- What is over on both sides stays so, whatever happens. -/
theorem over_after (b : Bridge σ) (x : Deed σ) (h : Over b.world s) : Over (b.after x).world s := by
  refine (spans_over s).after b x (fun _ _ _ => trivial) (fun _ _ _ => trivial)
    (fun _ _ => trivial) (fun setup hx ho => ?_) h
  subst hx
  refine ho.of_outer ((mild_launch b setup).farewells s)
    (outer_of_unframed (spares_launch b setup fun hs => ?_).here)
  have hpresent := ho.present
  rw [hs] at hpresent
  simp [session, Arena.get, Arena.size, default, Session.absent] at hpresent

/-- What is over remains over in every run. -/
theorem over_run (b : Bridge σ) (h : Over b.world s) (ds : List (Deed σ)) :
    Over (run ds b).world s :=
  run_induction (P := fun b => Over b.world s) h over_after ds

/-- A session that is over is handed nothing. -/
theorem handled_of_over (b : Bridge σ) (h : Over b.world s) (ds : List (Deed σ)) :
    handled s ds b = [] := by
  induction ds generalizing b with
  | nil => rfl
  | cons x ds ih =>
      rw [handled, ih _ (over_after b x h), List.append_nil]
      cases hx : b.handed s x with
      | none => rfl
      | some m =>
          have htake := take_of_handed hx
          rw [Mailbox.take_fst, h.queue] at htake
          cases htake

/-- A debugger that is gone, with nothing on its way, tells nothing any more. -/
theorem told_of_over {ds : List (Deed σ)} (h : Over (run ds b).world s) (es : List (Deed σ)) :
    told s (ds ++ es) b = told s ds b := by
  have hq : ∀ {w : World}, Over w s → w.mail s = [] := fun h => by
    rw [mail, h.queue]
    rfl
  rw [told, told, handled_append, handled_of_over _ h, run_append, hq (over_run _ h es), hq h,
    List.append_nil]

end Bridge

end DebugBridge
