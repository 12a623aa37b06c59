import DebugBridge.Proofs.Farewell
import DebugBridge.Proofs.Listings
import DebugBridge.Proofs.Outline

/-!
# What becomes of frames

What is known of a frame lasts, until one of two things happens. When a thread is suspended, the
variables of all its frames are out of date. When variables are listed for a frame, it takes them in
and shows what was reported for it.

## Main definitions

* `World.Carries`: a step in which what is known of frames lasts;
* `World.Outdated`: a thread whose frames are all out of date.

## Main results

* `spans_carries`: hardly anything that is done changes what is known of frames;
* `outdated_handleEvent`: a thread that is suspended is a thread whose frames are out of date;
* `fills_handleEvent`: a frame takes in what is listed for it.
-/

namespace DebugBridge

namespace World

variable {s : Nat} {u v w w' : World}

/-! ### Frames that last -/

/-- A step in which what is known of frames lasts and the frames of a session keep their numbers. -/
structure Carries (s : Nat) (w w' : World) : Prop extends Lasts w w' where
  regroups : Regroups s w w'

/-- What each step carries a sequence of them carries. -/
theorem steady_carries (s : Nat) : Steady (Carries s) where
  refl w := ⟨steady_lasts.refl w, .refl s w⟩
  trans h h' := ⟨steady_lasts.trans h.toLasts h'.toLasts, h.regroups.trans h'.regroups (h'.frames s)⟩

/-- What leaves the threads as they are leaves their frames. -/
theorem Lasts.carries (h : Lasts w w') (ht : (w'.session s).threads = (w.session s).threads) :
    Carries s w w' :=
  ⟨h, regroups_of_eq (h.room s) ht⟩

/-- The threads of a session are those of its model. -/
theorem threads_of_model (h : (w'.session s).model = (w.session s).model) :
    (w'.session s).threads = (w.session s).threads := by
  rw [← Session.threads_model (w.session s), ← h, Session.threads_model]

/-- What changes no session and no value lasts. -/
theorem carries_beside (hs : w'.sessions = w.sessions) (hh : w'.heap = w.heap) : Carries s w w' :=
  (Lasts.beside hs hh).carries (by rw [session, session, hs])

/-- A change of one session that keeps its threads leaves the threads of all sessions. -/
theorem threads_modifySession (w : World) (t : Nat) (f : Session → Session)
    (hf : (f (w.session t)).threads = (w.session t).threads) :
    ((w.modifySession t f).session s).threads = (w.session s).threads := by
  rw [session_modifySession]
  split
  · next h => rw [hf, h]
  · rfl

/-- A change of one session that keeps its threads and frames carries all frames. -/
theorem carries_modifySession (w : World) (t : Nat) (f : Session → Session)
    (hframes : (f (w.session t)).frames = (w.session t).frames)
    (hthreads : (f (w.session t)).threads = (w.session t).threads) :
    Carries s w (w.modifySession t f) :=
  (lasts_modifySession w t f hframes).carries (threads_modifySession w t f hthreads)

/-- A session that ends has no frames to carry. -/
theorem carries_ended (w : World) (t : Nat) : Carries s w (w.modifySession t Session.ended) := by
  have hlasts := lasts_modifySession w t Session.ended rfl
  refine ⟨hlasts, regroups_of_threads (hlasts.room s) fun t' ht' f hf => ?_⟩
  rw [session_modifySession] at ht'
  split at ht'
  · -- What is gone has no frames.
    have hgone : t'.frames = [] := by
      unfold Session.ended Session.threads at ht'
      cases hp : (w.session t).process with
      | none =>
          rw [hp] at ht'
          cases ht'
      | some p =>
          rw [hp] at ht'
          obtain ⟨_, -, rfl⟩ := List.mem_map.mp ht'
          rfl
    rw [hgone] at hf
    cases hf
  · exact ⟨t', ht', rfl, hf⟩

/-- Sides that are joined leave the threads of all sessions. -/
theorem threads_joined (w : World) (t : Nat) (setup : Setup) :
    ((w.joined t setup).session s).threads = (w.session s).threads := by
  have hadd : ∀ w : World, ((w.addDebugger t).session s).threads = (w.session s).threads :=
    fun w => threads_modifySession w t _ rfl
  have hjoin : ∀ w : World, ((w.joinSides t).session s).threads = (w.session s).threads := fun w =>
    (threads_modifySession _ t _ rfl).trans (threads_modifySession w t _ rfl)
  unfold joined
  cases setup.withDebugger <;> cases setup.joined
  · rfl
  · exact hjoin w
  · exact hadd w
  · exact (hjoin _).trans (hadd w)

/-- A session that ends keeps what it knows of frames, and its threads have none. -/
theorem carries_close (w : World) (t : Nat) : Carries s w (w.close t) := by
  unfold close
  dsimp only
  split
  · exact carries_modifySession w t _ rfl rfl
  · split
    · next number _ =>
        let u := w.modifyManager (w.session t).manager (·.unsubscribe number)
        have hu : Carries s w u := carries_beside rfl rfl
        exact (steady_carries s).trans hu (carries_ended u t)
    · exact carries_ended w t

/-- The end of a session carries the frames of others. -/
theorem carries_endSession (t : Nat) : Keeps (Carries s) (endSession t) := by
  intro w
  rw [worldAfter_endSession]
  split
  · exact (steady_carries s).trans (carries_close w t) (carries_beside rfl rfl)
  · exact carries_close w t

end World

namespace Bridge

open World

variable {σ : Type} [Inhabited σ] [Engine σ] {s : Nat}

/-- Whatever is done, but for variables that a frame takes in and values that are written behind the
back of the interpreter, what is known of frames lasts. -/
theorem spans_carries (s : Nat) : Spans (fun _ => True) (fun e => e.listing? = none) (fun _ => False)
    (Carries s) where
  toSteady := steady_carries s
  beside hs _ _ _ h := h.toLasts.carries (by rw [session, session, hs])
  onHeap _ _ h := h.elim
  asks h := h.mild.toLasts.carries (threads_of_model (h.everywhere s).model)
  depicts h := ⟨h.mild.toLasts, h.regroups s⟩
  posts := fun ⟨h, _, _, hp⟩ => h.toLasts.carries (threads_of_model (model_of_posts hp))
  register w t script := carries_modifySession w t _ rfl rfl
  fill frame reported h := by cases h
  result _ frame result listener _ := by
    have hR := steady_carries s
    refine keeps_withInHand hR (fun _ _ => carries_beside rfl rfl) frame ?_
    refine Keeps.bind hR (Keeps.get hR) fun w => Keeps.bind hR (fun v => ?_) fun shown => ?_
    · exact (lasts_onHeap v (careful_datumText _ _ v.heap)).carries rfl
    · exact Keeps.change fun _ => carries_beside rfl rfl
  enter _ _ _ _ _ := carries_beside rfl rfl
  leave _ _ _ := carries_beside rfl rfl
  prune _ _ := carries_beside rfl rfl
  listen _ _ _ := carries_beside rfl rfl
  tells h := h.mild.toLasts.carries (threads_of_model (model_of_tells h))
  take w t := carries_modifySession w t _ rfl rfl
  part w t := by
    obtain ⟨rs, h⟩ := exists_posts_post w t .disconnect
    exact (mild_post w t .disconnect).toLasts.carries (threads_of_model (model_of_posts h))
  finish t := carries_endSession t
  drop w t := carries_modifySession w t _ rfl rfl

omit [Inhabited σ] [Engine σ] in
/-- To open a session changes nothing that is known of frames. -/
theorem carries_launch (b : Bridge σ) (setup : Setup) :
    Carries s b.world (b.launch setup).2.world := by
  refine (mild_launch b setup).toLasts.carries ?_
  have hopened : ((b.world.opened setup).session s).threads = (b.world.session s).threads := by
    rw [session_opened]
    split
    · next hs =>
        rw [hs, session, Arena.get, Arena.size, Array.getElem?_eq_none (Nat.le_refl _)]
        rfl
    · rfl
  obtain ⟨j, hrun | hrun⟩ := world_launch b setup
  · rw [hrun, ← hopened]
    exact threads_joined _ _ setup
  · rw [hrun, ← hopened]
    exact threads_modifySession _ _ _ rfl

end Bridge

/-! ### Threads that are suspended -/

namespace World

variable {s i : Nat} {w w' : World}

/-- A thread whose frames are all out of date, unless it is gone. -/
def Outdated (w : World) (s i : Nat) : Prop :=
  ∀ t, (w.session s).threads[i]? = some t →
    t.isTerminated = true ∨ ∀ f ∈ t.frames, (w.frame f).dirty = true

/-- What is out of date remains so. -/
theorem Plain.dirty (h : Plain w w') {f : FrameRef} (hf : (w.frame f).dirty = true) :
    (w'.frame f).dirty = true := by
  obtain ⟨-, hdirty⟩ | hforgotten := h.mild.frames f.session f.index
  · exact hdirty hf
  · rw [frame, hforgotten]
    rfl

/-- Frames that are out of date are so after a step that is plain. -/
theorem Outdated.plain (h : Outdated w s i) (hp : Plain w w') : Outdated w' s i := by
  intro t ht
  rw [threads_of_still hp.toStill] at ht
  exact (h t ht).imp id fun hframes f hf => hp.dirty (hframes f hf)

/-- A thread that is gone has no frame that is up to date. -/
theorem outdated_of_gone (h : (w.thread s i).isTerminated = true) : Outdated w s i := by
  intro t ht
  rw [thread_eq ht] at h
  exact .inl h

end World

section Calm

open World

variable {s i : Nat} {w : World}

/-- Where no front end fails, a frame that goes out of date is out of date. -/
theorem dirty_setDirty (hc : w.Calm) (f : FrameRef) :
    Ends (setDirty f) w fun _ w' => Plain w w' ∧ (w'.frame f).dirty = true := by
  let u := w.modifyFrame f fun state => { state with dirty := true }
  have hu : Plain w u := ⟨still_modifyFrame w f _, rfl, mild_modifyFrame w f _ fun _ => .inl ⟨rfl, fun _ => rfl⟩⟩
  have hdirty : (u.frame f).dirty = true := by
    simp [u, World.frame, modifyFrame, session_modifySession, Arena.get_modify]
  refine Ends.bind (Ends.change ?_)
  refine ((ends_notify (hc.still hu.toStill) _).keeps (plain_frameChanged f .content)).mono ?_
  rintro _ w' ⟨-, h⟩
  exact ⟨steady_plain.trans hu h, h.dirty hdirty⟩

/-- Each of several frames may be marked as out of date. -/
theorem dirty_forM (hc : w.Calm) (fs : List FrameRef) :
    Ends (fs.forM setDirty) w fun _ w' => Plain w w' ∧ ∀ f ∈ fs, (w'.frame f).dirty = true := by
  induction fs generalizing w with
  | nil => exact Ends.pure ⟨steady_plain.refl w, List.forall_mem_nil _⟩
  | cons f fs ih =>
      refine Ends.bind ((dirty_setDirty hc f).mono ?_)
      rintro _ u ⟨hu, hf⟩
      refine (ih (hc.still hu.toStill)).mono ?_
      rintro _ w' ⟨hw', hfs⟩
      refine ⟨steady_plain.trans hu hw', fun g hg => ?_⟩
      rcases List.mem_cons.mp hg with rfl | hg
      · exact hw'.dirty hf
      · exact hfs g hg

/-- Where no front end fails, notifications but the farewell are plain. -/
theorem plain_notices {α : Type} (hc : w.Calm) (f : α → Notice)
    (hf : ∀ a, f a ≠ .terminated .target) (xs : List α) :
    Ends (xs.forM fun a => notify s (f a)) w fun _ w' => Plain w w' :=
  ((ends_notices hc f xs).keeps (Keeps.forM steady_plain (fun a => plain_notify s (hf a)) xs)).mono
    fun _ _ h => h.2

/-- The frames of a reported stack are out of date, the old ones as well as the new ones. -/
theorem outdated_setStack (hc : w.Calm) (i : Nat) (stack : List Activation) :
    Ends (setStack s i stack) w fun _ w' => w'.Outdated s i := by
  unfold setStack
  refine Ends.bind (Ends.get ?_)
  let c := FrameChange.of s (w.thread s i).handle (w.thread s i).frames (w.session s).frames.size stack
  dsimp only
  split
  · next hgone => exact Ends.change (outdated_of_gone hgone)
  · next hgone =>
      let v := w.trace "model" ((w.thread s i).name ++ ": " ++ c.summary)
      let u := v.putFrames s i c
      have hcalm : u.Calm := by
        intro notes n
        have hreaction : u.reaction = v.reaction := (plain_makeRoom c.created v).toStill.reaction
        rw [hreaction]
        exact hc notes n
      have hcreated : ∀ f ∈ c.created, (u.frame f).dirty = true := by
        have hown : ∀ f ∈ c.created, f.session = s := fun f hf => (created_of hf).1
        intro f hf
        rw [World.frame, hown f hf, frames_putFrames, (room_makeRoom hown v f hf).2]
        rfl
      have hthread : ∀ t, (u.session s).threads[i]? = some t → t.frames = c.frames := by
        intro t ht
        rw [threads_putFrames, List.getElem?_modify_eq] at ht
        obtain ⟨_, -, rfl⟩ := Option.map_eq_some_iff.mp ht
        rfl
      refine Ends.bind (Ends.change (Ends.bind (Ends.change ?_)))
      refine Ends.bind ((dirty_forM hcalm c.reused).mono ?_)
      rintro _ w₁ ⟨h₁, hreused⟩
      have hout : w₁.Outdated s i := by
        intro t ht
        rw [threads_of_still h₁.toStill] at ht
        refine .inr fun f hf => ?_
        obtain ⟨-, hold⟩ | hnew := mem_frames_of (hthread t ht ▸ hf)
        · exact hreused f hold
        · exact h₁.dirty (hcreated f hnew)
      refine Ends.bind ((plain_notices (hcalm.still h₁.toStill) _ (by simp) _).mono fun _ w₂ h₂ => ?_)
      have h₁₂ := steady_plain.trans h₁ h₂
      refine Ends.bind ((plain_notices (hcalm.still h₁₂.toStill) _ (by simp) _).mono fun _ w₃ h₃ => ?_)
      have h₁₃ := steady_plain.trans h₁₂ h₃
      refine ((ends_notify (hcalm.still h₁₃.toStill) _).keeps (plain_notify s (by simp))).mono ?_
      rintro _ w₄ ⟨-, h₄⟩
      exact ((hout.plain h₂).plain h₃).plain h₄

/-- Where no front end fails, a thread that stops has all its frames out of date. -/
theorem outdated_threadSuspended (hc : w.Calm) (i : Nat) (reason : SuspendReason)
    (stack : List Activation) :
    Ends (threadSuspended s i reason stack) w fun _ w' => w'.Outdated s i := by
  unfold threadSuspended
  refine Ends.bind (Ends.get ?_)
  cases hgone : (w.thread s i).isTerminated with
  | true => exact Ends.pure (outdated_of_gone hgone)
  | false =>
      let u := w.modifyThread s i (·.suspend reason)
      have hcalm : u.Calm := hc
      simp only [Bool.false_eq_true, if_false]
      have hkeeps : Keeps (Depicts s (stack.map Activation.script)) (setStack s i stack) :=
        keeps_setStack i stack fun a => List.mem_map_of_mem
      refine Ends.bind (Ends.change (Ends.bind (((outdated_setStack hcalm i stack).keeps hkeeps).mono ?_)))
      rintro _ v ⟨hv, hshows⟩
      refine ((ends_notify (hcalm.shows hshows.toShows) _).keeps (plain_notify s (by simp))).mono ?_
      rintro _ w' ⟨-, h⟩
      exact hv.plain h

/-- A thread that is suspended is one whose frames are out of date. -/
theorem outdated_handleEvent (hc : w.Calm) (ha : (w.session s).attached = true) (thread : Handle)
    (reason : SuspendReason) (stack : List Activation) :
    Ends (handleEvent s (.suspended thread reason stack)) w fun _ w' =>
      ∃ i, (w'.session s).threads.findIdx? (fun t => t.handle.id = thread.id) = some i
        ∧ w'.Outdated s i := by
  let u := w.trace "model" ("process " ++ (Event.suspended thread reason stack).text w.marks)
  have hcalm : u.Calm := hc
  have h : Ends (applyEvent s (.suspended thread reason stack)) u fun _ w' =>
      ∃ i, (w'.session s).threads.findIdx? (fun t => t.handle.id = thread.id) = some i
        ∧ w'.Outdated s i := by
    refine Ends.bind (Ends.get (Ends.bind
      (((ends_threadOf hcalm thread).keeps (@keeps_threadOf s [] thread)).mono ?_)))
    rintro i v ⟨⟨-, hi⟩, hshows⟩
    have hcalm' := hcalm.shows hshows.toShows
    refine ((ends_threadSuspended hcalm' i reason _).and
      (outdated_threadSuspended hcalm' i reason _)).mono ?_
    rintro _ w' ⟨⟨frames, -, hw'⟩, hout⟩
    refine ⟨i, ?_, hout⟩
    rw [hw', findIdx?_modify _ _ fun t => by split <;> rfl]
    exact hi
  obtain ⟨_, w', hrun, hw'⟩ := h
  exact ⟨(), w', (handleEvent_eq ha).trans hrun, hw'⟩

end Calm

/-! ### Frames that take variables in -/

namespace World

/-- A step in which a frame takes listed variables in. What is known of other frames stays. -/
structure Fills (s : Nat) (f : FrameRef) (made : List VariableId) (w w' : World) : Prop where
  threads : (w'.session s).threads = (w.session s).threads
  room : (w.session s).frames.size ≤ (w'.session s).frames.size
  filled : ∃ reach, ∃ merged, (mergeVariables reach f (w.frame f).known made).run w.heap = (merged, w'.heap)
    ∧ ∀ k, (w'.session s).frames.get k
      = if f.index = k then ⟨merged, false⟩ else (w.session s).frames.get k

end World

section Fill

open World

variable {s : Nat} {w : World} {f : FrameRef}

/-- A frame that takes variables in merges them, knows what is listed, and tells of that. -/
theorem worldAfter_setVariables (f : FrameRef) (made : List VariableId) (w : World) :
    ∃ j, worldAfter (setVariables f made) w
      = { (w.onHeap (mergeVariables w.reach f (w.frame f).known made)).2.modifyFrame f fun _ =>
          ⟨(w.onHeap (mergeVariables w.reach f (w.frame f).known made)).1, false⟩ with journal := j } := by
  let merging := mergeVariables w.reach f (w.frame f).known made
  let v := (w.onHeap merging).2.modifyFrame f fun _ => ⟨(w.onHeap merging).1, false⟩
  have hrun : setVariables f made w = notify f.session (.changed (.frame f) .content) v := rfl
  obtain ⟨j, hok | ⟨failure, herror⟩⟩ := notify_cases f.session (.changed (.frame f) .content) v
  · exact ⟨j, by rw [worldAfter, hrun, hok]⟩
  · exact ⟨j, by rw [worldAfter, hrun, herror]⟩

/-- An operation with a frame in hand lays it down at the end. -/
theorem worldAfter_withInHand (f : FrameRef) (op : Act Unit) (w : World) :
    worldAfter (withInHand f op) w
      = { worldAfter op { w with inHand := some f } with inHand := w.inHand } := by
  unfold worldAfter withInHand
  cases op { w with inHand := some f } <;> rfl

/-- A frame takes in what is listed for it, whether its front end fails or not. -/
theorem fills_handleEvent (ha : (w.session s).attached = true) (hf : f.session = s)
    (made : List VariableId) :
    Fills s f made w (worldAfter (handleEvent s (.frameVariables f made)) w) := by
  let u := { w.trace "model" ("process " ++ (Event.frameVariables f made).text w.marks) with
    inHand := some f }
  have hrun : worldAfter (handleEvent s (.frameVariables f made)) w
      = { worldAfter (setVariables f made) u with inHand := w.inHand } := by
    rw [worldAfter, handleEvent_eq ha]
    exact worldAfter_withInHand f (setVariables f made) _
  obtain ⟨j, hset⟩ := worldAfter_setVariables f made u
  have hthreads : (worldAfter (setVariables f made) u).session s
      = (u.modifyFrame f fun _ => ⟨(u.onHeap (mergeVariables u.reach f (u.frame f).known made)).1,
          false⟩).session s := by
    rw [hset]
    rfl
  rw [hrun]
  refine ⟨?_, ?_, u.reach, (u.onHeap (mergeVariables u.reach f (u.frame f).known made)).1, ?_,
    fun k => ?_⟩
  · change ((worldAfter (setVariables f made) u).session s).threads = _
    rw [hthreads, threads_of_still (still_modifyFrame u f _)]
    rfl
  · change _ ≤ ((worldAfter (setVariables f made) u).session s).frames.size
    rw [hthreads, modifyFrame, session_modifySession, if_pos hf, hf]
    exact Arena.size_le_modify ..
  · change _ = (_, (worldAfter (setVariables f made) u).heap)
    rw [hset]
    rfl
  · change ((worldAfter (setVariables f made) u).session s).frames.get k = _
    rw [hthreads, modifyFrame, session_modifySession, if_pos hf, hf]
    exact Arena.get_modify ..

end Fill

end DebugBridge
