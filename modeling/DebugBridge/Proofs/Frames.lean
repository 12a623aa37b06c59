import Mathlib.Data.List.Induction
import DebugBridge.Proofs.Sides
import DebugBridge.Tree.Events

/-!
# The frames of threads

A frame has a number in its session, under which the session keeps what it knows of the frame. Frames
of a reported stack are those that the thread had before, or they are new and get the next numbers.
So no two frames that a session ever had share a number, and nothing is known of a new frame.

## Main definitions

* `World.Places`: a frame of a thread;
* `World.Charted`: frames that their numbers tell apart, with those of all threads among them;
* `World.Regroups`: a step after which this is so if it was so before.

## Main results

* `mem_frames_of`, `created_of`, `distinct_created`, `nodup_frames_of`: the frames of a reported stack;
* `regroups_putFrames`: a thread may get the frames of a reported stack.
-/

namespace DebugBridge

/-! ### Frames of a reported stack -/

section Pick

variable {a : Activation} {old others : List FrameRef} {f : FrameRef}

/-- The frame that is picked is the first one of its activation, and the others keep their order. -/
theorem split_of_pick? (h : FrameChange.pick? a old = some (f, others)) :
    f.activation.id = a.id ∧ ∃ before after, old = before ++ f :: after
      ∧ others = before ++ after ∧ ∀ g ∈ before, g.activation.id ≠ a.id := by
  induction old generalizing others with
  | nil => cases h
  | cons g old ih =>
      rw [FrameChange.pick?] at h
      split at h
      · next hid =>
          cases h
          exact ⟨hid, [], old, rfl, rfl, List.forall_mem_nil _⟩
      · next hid =>
          obtain ⟨⟨f', others'⟩, hp, he⟩ := Option.map_eq_some_iff.mp h
          cases he
          obtain ⟨hf, before, after, rfl, rfl, hbefore⟩ := ih hp
          exact ⟨hf, g :: before, after, rfl, rfl, List.forall_mem_cons.mpr ⟨hid, hbefore⟩⟩

/-- The frame that is picked for an activation stands for it. -/
theorem id_of_pick? (h : FrameChange.pick? a old = some (f, others)) :
    f.activation.id = a.id :=
  (split_of_pick? h).1

/-- The frame that is picked is taken out of the others. -/
theorem perm_of_pick? (h : FrameChange.pick? a old = some (f, others)) : old.Perm (f :: others) := by
  obtain ⟨-, before, after, rfl, rfl, -⟩ := split_of_pick? h
  exact List.perm_middle

/-- The frame that is picked is an old one, and so are those that are left. -/
theorem mem_of_pick? (h : FrameChange.pick? a old = some (f, others)) :
    f ∈ old ∧ ∀ r ∈ others, r ∈ old :=
  have hperm := perm_of_pick? h
  ⟨hperm.mem_iff.mpr List.mem_cons_self, fun _ hr => hperm.mem_iff.mpr (List.mem_cons_of_mem _ hr)⟩

end Pick

section Stack

variable {s : Nat} {handle : Handle} {stack : List Activation} {old : List FrameRef} {count : Nat}
  {r r' : FrameRef}

/-- The frames of a new stack were there before and stay, or they are new. -/
theorem mem_frames_of (hr : r ∈ (FrameChange.of s handle old count stack).frames) :
    r ∈ old ∧ r ∈ (FrameChange.of s handle old count stack).reused
      ∨ r ∈ (FrameChange.of s handle old count stack).created := by
  induction stack generalizing old count with
  | nil => cases hr
  | cons a stack ih =>
      rw [FrameChange.of] at hr ⊢
      cases hp : FrameChange.pick? a old with
      | some found =>
          obtain ⟨f, others⟩ := found
          rw [hp] at hr
          obtain ⟨hf, hothers⟩ := mem_of_pick? hp
          rcases List.mem_cons.mp hr with rfl | hr
          · exact .inl ⟨hf, List.mem_cons_self⟩
          · exact (ih hr).imp (fun h => ⟨hothers r h.1, List.mem_cons_of_mem _ h.2⟩) id
      | none =>
          rw [hp] at hr
          rcases List.mem_cons.mp hr with rfl | hr
          · exact .inr List.mem_cons_self
          · exact (ih hr).imp id (List.mem_cons_of_mem _)

/-- A new frame is one of the session and of the thread, with a number that was not given out yet, and
it stands for an activation on the stack. -/
theorem created_of (hr : r ∈ (FrameChange.of s handle old count stack).created) :
    r.session = s ∧ r.handle = handle ∧ count ≤ r.index ∧ r.activation ∈ stack := by
  induction stack generalizing old count with
  | nil => cases hr
  | cons a stack ih =>
      rw [FrameChange.of] at hr
      cases hp : FrameChange.pick? a old with
      | some found =>
          rw [hp] at hr
          obtain ⟨hs, hh, hi, ha⟩ := ih hr
          exact ⟨hs, hh, hi, List.mem_cons_of_mem a ha⟩
      | none =>
          rw [hp] at hr
          rcases List.mem_cons.mp hr with rfl | hr
          · exact ⟨rfl, rfl, Nat.le_refl _, List.mem_cons_self⟩
          · obtain ⟨hs, hh, hi, ha⟩ := ih hr
            exact ⟨hs, hh, Nat.le_of_succ_le hi, List.mem_cons_of_mem a ha⟩

/-- New frames have numbers of their own. -/
theorem distinct_created (hr : r ∈ (FrameChange.of s handle old count stack).created)
    (hr' : r' ∈ (FrameChange.of s handle old count stack).created) (hi : r.index = r'.index) :
    r = r' := by
  induction stack generalizing old count with
  | nil => cases hr
  | cons a stack ih =>
      rw [FrameChange.of] at hr hr'
      cases hp : FrameChange.pick? a old with
      | some found =>
          rw [hp] at hr hr'
          exact ih hr hr'
      | none =>
          rw [hp] at hr hr'
          -- The numbers of the frames behind are greater.
          have hlater : ∀ {g : FrameRef},
              g ∈ (FrameChange.of s handle old (count + 1) stack).created → g.index ≠ count :=
            fun hg => Nat.ne_of_gt (created_of hg).2.2.1
          rcases List.mem_cons.mp hr with rfl | hr
          · rcases List.mem_cons.mp hr' with rfl | hr'
            · rfl
            · exact absurd hi.symm (hlater hr')
          · rcases List.mem_cons.mp hr' with rfl | hr'
            · exact absurd hi (hlater hr)
            · exact ih hr hr'

/-- The frames that are created are some of the frames of the thread afterwards, in their order. -/
theorem created_sublist (s : Nat) (handle : Handle) (stack : List Activation) (old : List FrameRef)
    (count : Nat) : (FrameChange.of s handle old count stack).created.Sublist
      (FrameChange.of s handle old count stack).frames := by
  induction stack generalizing old count with
  | nil => exact List.Sublist.refl []
  | cons a stack ih =>
      rw [FrameChange.of]
      cases hp : FrameChange.pick? a old with
      | some found => exact (ih found.2 count).cons found.1
      | none => exact (ih old (count + 1)).cons_cons _

/-- The frames of a reported stack have numbers of their own, if that was so before. -/
theorem nodup_frames_of (stack : List Activation) (hd : (old.map FrameRef.index).Nodup)
    (hlt : ∀ f ∈ old, f.index < count) :
    ((FrameChange.of s handle old count stack).frames.map FrameRef.index).Nodup := by
  induction stack generalizing old count with
  | nil => exact List.nodup_nil
  | cons a stack ih =>
      rw [FrameChange.of]
      cases hp : FrameChange.pick? a old with
      | some found =>
          obtain ⟨f, others⟩ := found
          have hperm := perm_of_pick? hp
          have hnodup := (hperm.map FrameRef.index).nodup_iff.mp hd
          rw [List.map_cons, List.nodup_cons] at hnodup
          have hothers : ∀ g ∈ others, g ∈ old := fun g hg =>
            hperm.mem_iff.mpr (List.mem_cons_of_mem f hg)
          refine List.nodup_cons.mpr ⟨fun hmem => ?_, ih hnodup.2 fun g hg => hlt g (hothers g hg)⟩
          obtain ⟨g, hg, hi⟩ := List.mem_map.mp hmem
          obtain ⟨hg, -⟩ | hg := mem_frames_of hg
          · exact hnodup.1 (hi ▸ List.mem_map_of_mem hg)
          · have hf := hlt f (hperm.mem_iff.mpr List.mem_cons_self)
            have hcount := (created_of hg).2.2.1
            omega
      | none =>
          refine List.nodup_cons.mpr ⟨fun hmem => ?_, ih hd fun g hg => Nat.lt_succ_of_lt (hlt g hg)⟩
          obtain ⟨g, hg, hi⟩ := List.mem_map.mp hmem
          obtain ⟨hg, -⟩ | hg := mem_frames_of hg
          · exact Nat.ne_of_lt (hlt g hg) hi
          · exact Nat.ne_of_gt (created_of hg).2.2.1 hi

end Stack

namespace World

variable {s : Nat} {S : FrameRef → Prop} {u v w w' : World}

/-- A thread of a session has a frame. -/
def Places (w : World) (s : Nat) (f : FrameRef) : Prop :=
  ∃ t ∈ (w.session s).threads, f ∈ t.frames

/-- Frames of a session that their numbers tell apart. The frames of its threads are among them, and
they know of their threads. -/
structure Charted (s : Nat) (S : FrameRef → Prop) (w : World) : Prop where
  here : ∀ f, S f → f.session = s ∧ f.index < (w.session s).frames.size
  distinct : ∀ f g, S f → S g → f.index = g.index → f = g
  placed : ∀ t ∈ (w.session s).threads, ∀ f ∈ t.frames, S f ∧ f.handle = t.handle

/-- A step after which the frames that a session had, and those that its threads have now, have
numbers of their own, if that was so before. Of new frames nothing is known. -/
structure Regroups (s : Nat) (w w' : World) : Prop where
  charted : ∀ {S}, Charted s S w → Charted s (fun f => S f ∨ w'.Places s f) w'
  fresh : ∀ f, w'.Places s f →
    w.Places s f ∨ ((w'.session s).frames.get f.index).dirty = true

/-- Where the frames of a thread are those that it had before, numbers stay as they are. -/
theorem regroups_of_threads (hroom : (w.session s).frames.size ≤ (w'.session s).frames.size)
    (h : ∀ t' ∈ (w'.session s).threads, ∀ f ∈ t'.frames,
      ∃ t ∈ (w.session s).threads, t.handle = t'.handle ∧ f ∈ t.frames) : Regroups s w w' := by
  have hplaces : ∀ f, w'.Places s f → w.Places s f := by
    rintro f ⟨t', ht', hf⟩
    obtain ⟨t, ht, -, hf⟩ := h t' ht' f hf
    exact ⟨t, ht, hf⟩
  refine ⟨fun {S} hc => ?_, fun f hf => .inl (hplaces f hf)⟩
  have hall : ∀ f, S f ∨ w'.Places s f → S f := by
    rintro f (hf | hf)
    · exact hf
    · obtain ⟨t, ht, hf⟩ := hplaces f hf
      exact (hc.placed t ht f hf).1
  refine ⟨fun f hf => ?_, fun f g hf hg => hc.distinct f g (hall f hf) (hall g hg), fun t' ht' f hf => ?_⟩
  · obtain ⟨hs, hi⟩ := hc.here f (hall f hf)
    exact ⟨hs, Nat.lt_of_lt_of_le hi hroom⟩
  · obtain ⟨t, ht, hh, hf'⟩ := h t' ht' f hf
    exact ⟨.inr ⟨t', ht', hf⟩, ((hc.placed t ht f hf').2).trans hh⟩

/-- What leaves the threads as they are leaves their frames. -/
theorem regroups_of_eq (hroom : (w.session s).frames.size ≤ (w'.session s).frames.size)
    (h : (w'.session s).threads = (w.session s).threads) : Regroups s w w' :=
  regroups_of_threads hroom fun t ht _ hf => ⟨t, h ▸ ht, rfl, hf⟩

/-- Frames are grouped as before where nothing happens. -/
theorem Regroups.refl (s : Nat) (w : World) : Regroups s w w :=
  regroups_of_eq (Nat.le_refl _) rfl

/-- Frames are regrouped by one step after another. -/
theorem Regroups.trans (h : Regroups s u v) (h' : Regroups s v w)
    (hages : ∀ k, ((v.session s).frames.get k).Ages ((w.session s).frames.get k)) :
    Regroups s u w := by
  refine ⟨fun {S} hc => ?_, fun f hf => ?_⟩
  · have hw := h'.charted (h.charted hc)
    have hold : ∀ {f}, S f ∨ w.Places s f → (S f ∨ v.Places s f) ∨ w.Places s f :=
      fun hf => hf.imp .inl id
    exact ⟨fun f hf => hw.here f (hold hf), fun f g hf hg => hw.distinct f g (hold hf) (hold hg),
      fun t ht f hf => ⟨.inr ⟨t, ht, hf⟩, (hw.placed t ht f hf).2⟩⟩
  · obtain hf | hdirty := h'.fresh f hf
    · refine (h.fresh f hf).imp id fun hdirty => ?_
      obtain ⟨-, hkeep⟩ | hnew := hages f.index
      · exact hkeep hdirty
      · rw [hnew]
        rfl
    · exact .inr hdirty

/-! ### Threads that change -/

/-- The threads of a process are changed as the process is. -/
theorem threads_modifyProcess (x : Session) (f : List Thread → List Thread) :
    ({ x with process := x.process.map fun p => { p with threads := f p.threads } } : Session).threads
      = if x.process.isSome then f x.threads else [] := by
  unfold Session.threads
  cases x.process <;> rfl

/-- A session without a process has no threads. -/
theorem threads_eq_nil {x : Session} (h : x.process = none) : x.threads = [] := by
  rw [Session.threads, h]

/-- To change a thread changes that one alone. -/
theorem threads_modifyThread (w : World) (s i : Nat) (f : Thread → Thread) :
    ((w.modifyThread s i f).session s).threads = (w.session s).threads.modify i f := by
  rw [modifyThread, session_modifySession, if_pos rfl, Session.modifyThread,
    threads_modifyProcess (w.session s) (·.modify i f)]
  split
  · rfl
  · next h => rw [threads_eq_nil (by simpa using h), List.modify_nil]

/-- A thread after one of them changed is the one that changed, or it is as it was. -/
theorem mem_threads_modify {ts : List Thread} {i : Nat} {f : Thread → Thread} {t : Thread}
    (h : t ∈ ts.modify i f) : t ∈ ts ∨ ∃ t₀, ts[i]? = some t₀ ∧ t = f t₀ := by
  obtain ⟨k, hk⟩ := List.mem_iff_getElem?.mp h
  rw [List.getElem?_modify] at hk
  obtain ⟨t₀, ht₀, rfl⟩ := Option.map_eq_some_iff.mp hk
  split
  · next hi =>
      subst hi
      exact .inr ⟨t₀, ht₀, rfl⟩
  · exact .inl (List.mem_of_getElem? ht₀)

/-- The thread with a number is the one at its place. -/
theorem thread_eq {i : Nat} {t : Thread} (h : (w.session s).threads[i]? = some t) :
    w.thread s i = t := by
  rw [thread, Session.thread, h]
  rfl

/-- To make room for frames touches nothing else. -/
theorem plain_makeRoom (fs : List FrameRef) (w : World) :
    Plain w (fs.foldl (fun w f => w.modifyFrame f fun _ => default) w) := by
  induction fs generalizing w with
  | nil => exact steady_plain.refl w
  | cons f fs ih =>
      have hroom : Plain w (w.modifyFrame f fun _ => default) :=
        ⟨still_modifyFrame w f _, rfl, mild_modifyFrame w f _ fun _ => .inr rfl⟩
      exact steady_plain.trans hroom (ih _)

/-- Room is made for frames of which nothing is known. -/
theorem room_makeRoom {fs : List FrameRef} (hfs : ∀ f ∈ fs, f.session = s) (w : World) :
    ∀ f ∈ fs, f.index
        < ((fs.foldl (fun w f => w.modifyFrame f fun _ => default) w).session s).frames.size
      ∧ ((fs.foldl (fun w f => w.modifyFrame f fun _ => default) w).session s).frames.get f.index
        = default := by
  induction fs using List.reverseRecOn with
  | nil => exact List.forall_mem_nil _
  | append_singleton fs g ih =>
      intro f hf
      have hg : g.session = s := hfs g (by simp)
      have hrest := ih fun f hf => hfs f (List.mem_append_left _ hf)
      let u := fs.foldl (fun w f => w.modifyFrame f fun _ => default) w
      have hrun : ((fs ++ [g]).foldl (fun w f => w.modifyFrame f fun _ => default) w).session s
          = { u.session s with frames := (u.session s).frames.modify g.index fun _ => default } := by
        rw [List.foldl_append, List.foldl_cons, List.foldl_nil, modifyFrame, session_modifySession,
          if_pos hg, hg]
      rw [hrun]
      dsimp only
      rw [Arena.get_modify]
      rcases List.mem_append.mp hf with hf | hf
      · obtain ⟨hlt, hnew⟩ := hrest f hf
        refine ⟨Nat.lt_of_lt_of_le hlt (Arena.size_le_modify _ _ _), ?_⟩
        split
        · rfl
        · exact hnew
      · obtain rfl := List.mem_singleton.mp hf
        exact ⟨Arena.lt_size_modify _ _ _, if_pos rfl⟩

/-- Frames that are put in place are those of their thread, and no other thread gets any. -/
theorem threads_putFrames (w : World) (i : Nat) (c : FrameChange) :
    ((w.putFrames s i c).session s).threads
      = (w.session s).threads.modify i fun t => { t with frames := c.frames } := by
  have hroom : ((c.created.foldl (fun w f => w.modifyFrame f fun _ => default) w).session s).threads
      = (w.session s).threads :=
    (congrArg Session.threads ((plain_makeRoom c.created w).everywhere s) :)
  rw [← hroom]
  exact threads_modifyThread _ s i _

/-- Of frames that are created nothing is known when they are put in place. -/
theorem frames_putFrames (w : World) (i : Nat) (c : FrameChange) :
    ((w.putFrames s i c).session s).frames
      = ((c.created.foldl (fun w f => w.modifyFrame f fun _ => default) w).session s).frames := by
  rw [putFrames, modifyThread, session_modifySession, if_pos rfl]
  rfl

/-- A thread may get the frames of a reported stack. -/
theorem regroups_putFrames (w : World) (i : Nat) (stack : List Activation) :
    Regroups s w (w.putFrames s i (FrameChange.of s (w.thread s i).handle (w.thread s i).frames
      (w.session s).frames.size stack)) := by
  let t := w.thread s i
  let c := FrameChange.of s t.handle t.frames (w.session s).frames.size stack
  let v := c.created.foldl (fun w f => w.modifyFrame f fun _ => default) w
  let w' := w.putFrames s i c
  have hplain : Plain w v := plain_makeRoom c.created w
  have hthreads : (w'.session s).threads
      = (w.session s).threads.modify i fun t => { t with frames := c.frames } := threads_putFrames w i c
  have hframes : (w'.session s).frames = (v.session s).frames := frames_putFrames w i c
  have hown : ∀ f ∈ c.created, f.session = s := fun f hf => (created_of hf).1
  have hroom := room_makeRoom hown w
  have hsize : (w.session s).frames.size ≤ (w'.session s).frames.size :=
    hframes ▸ hplain.mild.room s
  -- A frame of a thread is one that this thread had, or one of the new ones.
  have hcases : ∀ t' ∈ (w'.session s).threads, ∀ f ∈ t'.frames,
      (∃ t₀ ∈ (w.session s).threads, t₀.handle = t'.handle ∧ f ∈ t₀.frames)
        ∨ f ∈ c.created ∧ t'.handle = t.handle := by
    intro t' ht' f hf
    rw [hthreads] at ht'
    obtain ht' | ⟨t₀, ht₀, rfl⟩ := mem_threads_modify ht'
    · exact .inl ⟨t', ht', rfl, hf⟩
    · have ht : t = t₀ := thread_eq ht₀
      refine (mem_frames_of hf).imp (fun h => ?_) fun h => ⟨h, ht ▸ rfl⟩
      exact ⟨t₀, List.mem_of_getElem? ht₀, rfl, ht ▸ h.1⟩
  refine ⟨fun {S} hc => ?_, ?_⟩
  · have hall : ∀ f, S f ∨ w'.Places s f → S f ∨ f ∈ c.created := by
      rintro f (hf | ⟨t', ht', hf⟩)
      · exact .inl hf
      · obtain ⟨t₀, ht₀, -, hf⟩ | ⟨hf, -⟩ := hcases t' ht' f hf
        · exact .inl (hc.placed t₀ ht₀ f hf).1
        · exact .inr hf
    have hapart : ∀ f g, S f → g ∈ c.created → f.index ≠ g.index := fun f g hf hg =>
      Nat.ne_of_lt (Nat.lt_of_lt_of_le (hc.here f hf).2 (created_of hg).2.2.1)
    refine ⟨fun f hf => ?_, fun f g hf hg hi => ?_, fun t' ht' f hf => ⟨.inr ⟨t', ht', hf⟩, ?_⟩⟩
    · obtain hf | hf := hall f hf
      · obtain ⟨hs, hlt⟩ := hc.here f hf
        exact ⟨hs, Nat.lt_of_lt_of_le hlt hsize⟩
      · exact ⟨(created_of hf).1, hframes ▸ (hroom f hf).1⟩
    · obtain hf | hf := hall f hf
      · obtain hg | hg := hall g hg
        · exact hc.distinct f g hf hg hi
        · exact absurd hi (hapart f g hf hg)
      · obtain hg | hg := hall g hg
        · exact absurd hi.symm (hapart g f hg hf)
        · exact distinct_created hf hg hi
    · obtain ⟨t₀, ht₀, hh, hf⟩ | ⟨hf, hh⟩ := hcases t' ht' f hf
      · exact (hc.placed t₀ ht₀ f hf).2.trans hh
      · exact (created_of hf).2.1.trans hh.symm
  · rintro f ⟨t', ht', hf⟩
    obtain ⟨t₀, ht₀, -, hf⟩ | ⟨hf, -⟩ := hcases t' ht' f hf
    · exact .inl ⟨t₀, ht₀, hf⟩
    · refine .inr ?_
      change ((w'.session s).frames.get f.index).dirty = true
      rw [hframes, (hroom f hf).2]
      rfl

end World

end DebugBridge
