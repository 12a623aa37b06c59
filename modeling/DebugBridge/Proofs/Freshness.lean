import Mathlib.Data.List.Infix
import DebugBridge.Proofs.Attendance
import DebugBridge.Proofs.Renewal
import DebugBridge.Proofs.Steps

/-!
# Frames that are up to date

The model asks for the variables of a frame when somebody looks at them, and it is told of them later.
Meanwhile the thread may have gone on, the frame may be gone, and variables of other frames may be on
their way too. But a thread that is suspended has its frames marked as out of date, and from then on
what is listed for a frame is what its engine reports at this stop. So a frame that is not out of date
shows what was reported last, and it was reported since the thread was suspended.

## Main definitions

* `Since`: what was told since a thread was suspended;
* `World.Apart`: variables that no two frames share;
* `World.ShowsLast`, `World.Current`: frames that show what was reported for them last;
* `Bridge.IsHonest`: a run in which variables are asked for in frames that there were;
* `Bridge.UpToDate`: a session whose model is up to date with the history of its debugger.

## Main results

* `Current.carries`, `Current.fills`: what keeps frames up to date;
* `stood_of_moves`: a thread is suspended since the last news that it was;
* `showsLast_run`: frames that are not out of date show what was reported since their thread stopped.
-/

namespace DebugBridge

/-! ### Threads that move -/

/-- Whether by an event the thread with a number stops, goes on or ends. -/
def Event.Moves (id : Nat) : Event → Prop
  | .suspended thread _ _ | .resumed thread _ | .threadTerminated thread => thread.id = id
  | _ => False

/-- The events that came since the thread with a number was suspended, if it has not moved since. -/
def Since (id : Nat) (es during : List Event) : Prop :=
  ∃ before thread reason stack, es = before ++ .suspended thread reason stack :: during
    ∧ thread.id = id ∧ ∀ e ∈ during, ¬e.Moves id

/-- Events by which a thread does not move come since it was suspended. -/
theorem Since.append {id : Nat} {es during new : List Event} (h : Since id es during)
    (hnew : ∀ e ∈ new, ¬e.Moves id) : Since id (es ++ new) (during ++ new) := by
  obtain ⟨before, thread, reason, stack, rfl, hid, hduring⟩ := h
  refine ⟨before, thread, reason, stack, by rw [List.append_assoc, List.cons_append], hid, fun e he => ?_⟩
  rcases List.mem_append.mp he with he | he
  · exact hduring e he
  · exact hnew e he

/-- Nothing came yet since a thread was just suspended. -/
theorem since_suspended (es : List Event) (thread : Handle) (reason : SuspendReason)
    (stack : List Activation) : Since thread.id (es ++ [.suspended thread reason stack]) [] :=
  ⟨es, thread, reason, stack, rfl, rfl, List.forall_mem_nil _⟩

/-- What shows as suspended did so before, unless it is suspended now. -/
theorem Outline.suspended_of_follow {options : LaunchOptions} {o : Outline} {e : Event}
    (h : (o.follow options e).state = .suspended) :
    (∃ thread reason stack, e = .suspended thread reason stack)
      ∨ o.state = .suspended ∧ ∀ id, ¬e.Moves id := by
  unfold follow at h
  split at h
  · next hgone =>
      rw [hgone] at h
      cases h
  · cases e with
    | suspended thread reason stack => exact .inl ⟨thread, reason, stack, rfl⟩
    | threadTerminated thread => cases h
    | resumed thread kind =>
        dsimp only at h
        split at h <;> cases h
    | _ => exact .inr ⟨h, fun _ => id⟩

namespace World

variable {s : Nat} {w w' : World}

/-- A thread that is suspended was so before it heard of an event that does not move it, or it was
just suspended. -/
theorem suspended_of_follows {e : Event} (hf : Follows s e w w')
    (hn : Numbered (w'.session s).threads) {t' : Thread} (ht' : t' ∈ (w'.session s).threads)
    (hsuspended : t'.state = .suspended) :
    (∃ t ∈ (w.session s).threads, t.handle.id = t'.handle.id ∧ t.state = .suspended
        ∧ ¬e.Moves t'.handle.id)
      ∨ ∃ thread reason stack, e = .suspended thread reason stack ∧ thread.id = t'.handle.id := by
  have houtline := hf.outline t'.handle.id
  rw [Session.outline, outlineIn_of_mem hn ht'] at houtline
  unfold followEvent at houtline
  have hquiet : (w.session s).outline t'.handle.id = some t'.outline → ¬e.Moves t'.handle.id →
      ∃ t ∈ (w.session s).threads, t.handle.id = t'.handle.id ∧ t.state = .suspended
        ∧ ¬e.Moves t'.handle.id := by
    intro ho hmoves
    obtain ⟨t, ht, hid, hsame⟩ := exists_of_outlineIn ho
    exact ⟨t, ht, hid, (congrArg Outline.state hsame).trans hsuspended, hmoves⟩
  cases hthread : e.thread? with
  | none =>
      rw [hthread] at houtline
      refine .inl (hquiet houtline.symm ?_)
      cases e <;> first | exact id | cases hthread
  | some handle =>
      rw [hthread] at houtline
      dsimp only at houtline
      split at houtline
      · next hid =>
          have hfollow := congrArg Outline.state (Option.some.inj houtline)
          rw [show t'.outline.state = .suspended from hsuspended] at hfollow
          obtain ⟨thread, reason, stack, rfl⟩ | ⟨hstate, hmoves⟩ :=
            Outline.suspended_of_follow hfollow.symm
          · cases hthread
            exact .inr ⟨handle, reason, stack, rfl, hid⟩
          · cases ho : (w.session s).outline t'.handle.id with
            | none =>
                rw [ho] at hstate
                cases hstate
            | some o =>
                rw [ho] at hstate
                obtain ⟨t, ht, hid, rfl⟩ := exists_of_outlineIn ho
                exact .inl ⟨t, ht, hid, hstate, hmoves _⟩
      · next hid =>
          refine .inl (hquiet houtline.symm ?_)
          cases e <;> first | exact id | (cases hthread; exact hid)

/-! ### Variables that are kept apart -/

/-- The variables that a session knows of its frames, and those that are listed for it. They are all
bindings, no two frames share one, and no listed one is known yet. -/
structure Apart (s : Nat) (listed : List (FrameRef × List VariableId)) (w : World) : Prop where
  tidy : w.heap.Tidy
  known : ∀ k, ∀ x ∈ ((w.session s).frames.get k).known, w.heap.IsBinding x
  single : ∀ k k' x, x ∈ ((w.session s).frames.get k).known →
    x ∈ ((w.session s).frames.get k').known → k = k'
  bound : ∀ x ∈ listed.flatMap Prod.snd, w.heap.IsBinding x
  distinct : (listed.flatMap Prod.snd).Nodup
  unknown : ∀ x ∈ listed.flatMap Prod.snd, ∀ k, x ∉ ((w.session s).frames.get k).known

/-- What is listed is new. -/
theorem Apart.lists {listed new : List (FrameRef × List VariableId)}
    {reported : List (FrameRef × List Report)} (h : Apart s listed w) (hw : Lasts w w')
    (hl : Heap.Lists reported new w.heap w'.heap) : Apart s (listed ++ new) w' := by
  have hknown : ∀ k, ∀ x ∈ ((w'.session s).frames.get k).known, x ∈ ((w.session s).frames.get k).known := by
    intro k x hx
    obtain ⟨hsame, -⟩ | hforgotten := hw.frames s k
    · exact hsame ▸ hx
    · rw [hforgotten] at hx
      cases hx
  refine ⟨hl.grows.tidy, fun k x hx => hl.grows.binding (h.known k x (hknown k x hx)),
    fun k k' x hx hx' => h.single k k' x (hknown k x hx) (hknown k' x hx'), fun x hx => ?_, ?_,
    fun x hx k hk => ?_⟩
  · rw [List.flatMap_append] at hx
    rcases List.mem_append.mp hx with hx | hx
    · exact hl.grows.binding (h.bound x hx)
    · exact (hl.fresh x hx).2
  · rw [List.flatMap_append]
    refine List.nodup_append.mpr ⟨h.distinct, hl.ordered.imp Nat.ne_of_lt, fun x hx y hy => ?_⟩
    exact Nat.ne_of_lt (Nat.lt_of_lt_of_le (h.bound x hx).there (hl.fresh y hy).1)
  · rw [List.flatMap_append] at hx
    rcases List.mem_append.mp hx with hx | hx
    · exact h.unknown x hx k (hknown k x hk)
    · exact absurd (h.known k x (hknown k x hk)).there (Nat.not_lt.mpr (hl.fresh x hx).1)

/-- A frame takes in what is listed for it by its number, and no other frame knows anything else
afterwards. -/
theorem Apart.absorbs {f : FrameRef} {made : List VariableId}
    {listed : List (FrameRef × List VariableId)} (h : Apart s ((f, made) :: listed) w)
    (hs : f.session = s) (hnames : (made.map fun x => (w.heap.bindings.get x).name).Nodup)
    (hw : Fills s f made w w') :
    ∃ merged, Heap.Absorbs ((w.session s).frames.get f.index).known made merged w.heap w'.heap
      ∧ (w'.session s).frames.get f.index = ⟨merged, false⟩
      ∧ ∀ k, k ≠ f.index → (w'.session s).frames.get k = (w.session s).frames.get k := by
  obtain ⟨reach, merged, hrun, hframes⟩ := hw.filled
  have hold : w.frame f = (w.session s).frames.get f.index := by rw [frame, hs]
  have hmade : ∀ x ∈ made, x ∈ ((f, made) :: listed).flatMap Prod.snd := fun x hx =>
    List.mem_flatMap.mpr ⟨_, List.mem_cons_self, hx⟩
  have habsorbs := Heap.absorbs_mergeVariables reach f h.tidy (h.known f.index)
    (fun x hx => h.bound x (hmade x hx)) (fun x hx => h.unknown x (hmade x hx) f.index) hnames
  rw [← hold, hrun] at habsorbs
  exact ⟨merged, hold ▸ habsorbs, (hframes f.index).trans (if_pos rfl),
    fun k hk => (hframes k).trans (if_neg hk.symm)⟩

/-- A frame that takes in what is listed for it shows that, and nothing else shows anything else. -/
theorem Apart.fills {f : FrameRef} {made : List VariableId}
    {listed : List (FrameRef × List VariableId)} (h : Apart s ((f, made) :: listed) w)
    (hs : f.session = s) (hnames : (made.map fun x => (w.heap.bindings.get x).name).Nodup)
    (hw : Fills s f made w w') :
    Apart s listed w' ∧ (w'.frame f).dirty = false
      ∧ ((w'.frame f).known.map w'.heap.view).Perm (made.map w.heap.view)
      ∧ (∀ x ∈ listed.flatMap Prod.snd, w'.heap.view x = w.heap.view x)
      ∧ ∀ k, k ≠ f.index → (w'.session s).frames.get k = (w.session s).frames.get k
        ∧ ∀ x ∈ ((w.session s).frames.get k).known, w'.heap.view x = w.heap.view x := by
  obtain ⟨merged, habsorbs, hself, hother⟩ := h.absorbs hs hnames hw
  obtain ⟨htidy, hknown, hsingle, hbound, hdistinct, hunknown⟩ := h
  rw [List.flatMap_cons] at hbound hdistinct hunknown
  have hmade := fun x (hx : x ∈ made) => List.mem_append_left (listed.flatMap Prod.snd) hx
  have hlisted := fun x (hx : x ∈ listed.flatMap Prod.snd) => List.mem_append_right made hx
  obtain ⟨-, hrest, hdisjoint⟩ := List.nodup_append.mp hdistinct
  -- What the frame knows now it knew before, or it was listed for it.
  have hknows : ∀ k, ∀ x ∈ ((w'.session s).frames.get k).known,
      x ∈ ((w.session s).frames.get k).known ∨ k = f.index ∧ x ∈ made := by
    intro k x hx
    by_cases hk : k = f.index
    · subst hk
      rw [hself] at hx
      exact (habsorbs.mem x hx).imp id fun hx => ⟨rfl, hx⟩
    · rw [hother k hk] at hx
      exact .inl hx
  have hlater : ∀ x ∈ listed.flatMap Prod.snd, x ∉ merged := by
    intro x hx hm
    obtain hm | hm := habsorbs.mem x hm
    · exact hunknown x (hlisted x hx) f.index hm
    · exact hdisjoint x hm x hx rfl
  have helsewhere : ∀ k, k ≠ f.index → ∀ x ∈ ((w.session s).frames.get k).known, x ∉ merged := by
    intro k hk x hx hm
    obtain hm | hm := habsorbs.mem x hm
    · exact hk (hsingle k f.index x hx hm)
    · exact hunknown x (hmade x hm) k hx
  refine ⟨⟨habsorbs.tidy, fun k x hx => ?_, fun k k' x hx hx' => ?_,
    fun x hx => habsorbs.binding (hbound x (hlisted x hx)), hrest, fun x hx k hk => ?_⟩, ?_, ?_,
    fun x hx => habsorbs.others (hlater x hx),
    fun k hk => ⟨hother k hk, fun x hx => habsorbs.others (helsewhere k hk x hx)⟩⟩
  · obtain hx | ⟨-, hx⟩ := hknows k x hx
    · exact habsorbs.binding (hknown k x hx)
    · exact habsorbs.binding (hbound x (hmade x hx))
  · obtain hk | ⟨hk, hm⟩ := hknows k x hx
    · obtain hk' | ⟨-, hm⟩ := hknows k' x hx'
      · exact hsingle k k' x hk hk'
      · exact absurd hk (hunknown x (hmade x hm) k)
    · obtain hk' | ⟨hk', -⟩ := hknows k' x hx'
      · exact absurd hk' (hunknown x (hmade x hm) k')
      · exact hk.trans hk'.symm
  · obtain hk | ⟨-, hk⟩ := hknows k x hk
    · exact hunknown x (hlisted x hx) k hk
    · exact hdisjoint x hk x hx rfl
  · rw [frame, hs, hself]
  · rw [frame, hs, hself]
    exact habsorbs.views

/-! ### Frames that show what was reported last -/

/-- A frame shows what was reported for it last. -/
def ShowsLast (w : World) (reported : List (FrameRef × List Report)) (f : FrameRef) : Prop :=
  ∃ before reports after, reported = before ++ (f, reports) :: after ∧ (∀ r ∈ after, r.1 ≠ f)
    ∧ ((w.frame f).known.map w.heap.view).Perm (reports.map Report.view)

/-- As long as a frame shows the same, and nothing is reported for it, it shows what was reported for
it last. -/
theorem ShowsLast.append {reported new : List (FrameRef × List Report)} {f : FrameRef}
    (h : w.ShowsLast reported f) (hnew : ∀ r ∈ new, r.1 ≠ f)
    (hframe : (w'.frame f).known = (w.frame f).known)
    (hview : ∀ x ∈ (w.frame f).known, w'.heap.view x = w.heap.view x) :
    w'.ShowsLast (reported ++ new) f := by
  obtain ⟨before, reports, after, rfl, hafter, hperm⟩ := h
  refine ⟨before, reports, after ++ new, by rw [List.append_assoc, List.cons_append], fun r hr => ?_, ?_⟩
  · rcases List.mem_append.mp hr with hr | hr
    · exact hafter r hr
    · exact hnew r hr
  · rw [hframe, List.map_congr_left hview]
    exact hperm

/-- A model whose frames are up to date or marked as out of date: those frames of a suspended thread
that are not so marked took in what was listed for them since the thread was suspended, and show what
was reported for them last. What is still on its way shows what was reported too. -/
structure Current (s : Nat) (S : FrameRef → Prop) (old new : List (FrameRef × List Report))
    (heard : List Event) (listed : List (FrameRef × List VariableId)) (w : World) : Prop where
  charted : Charted s S w
  numbered : Numbered (w.session s).threads
  apart : Apart s listed w
  seen : ∀ r ∈ old ++ new, S r.1
  renders : List.Forall₂ w.heap.Renders new listed
  stands : ∀ t ∈ (w.session s).threads, t.state = .suspended → ∃ during,
    Since t.handle.id heard during ∧ ∀ f ∈ t.frames, (w.frame f).dirty = false →
      f ∈ (listings during).map Prod.fst ∧ w.ShowsLast old f

namespace Current

/-- A session without threads is up to date if it knows of no frame. -/
theorem empty {S : FrameRef → Prop} (ht : w.heap.Tidy) (hthreads : (w.session s).threads = [])
    (hknown : ∀ k, ((w.session s).frames.get k).known = []) (hunseen : ∀ f, ¬S f) :
    Current s S [] [] [] [] w := by
  refine ⟨⟨fun f hf => absurd hf (hunseen f), fun f _ hf => absurd hf (hunseen f), ?_⟩, ?_,
    ⟨ht, ?_, ?_, List.forall_mem_nil _, .nil, List.forall_mem_nil _⟩, List.forall_mem_nil _, .nil, ?_⟩
  · rw [hthreads]
    exact List.forall_mem_nil _
  · rw [hthreads]
    exact .nil
  · intro k x hx
    rw [hknown] at hx
    cases hx
  · intro k _ x hx
    rw [hknown] at hx
    cases hx
  · rw [hthreads]
    exact List.forall_mem_nil _

variable {S : FrameRef → Prop} {old new : List (FrameRef × List Report)} {heard : List Event}
  {listed : List (FrameRef × List VariableId)}

/-- As long as what is known of frames lasts, frames that are not out of date are up to date. -/
theorem carries (h : Current s S old new heard listed w) (hw : Carries s w w')
    {reported : List (FrameRef × List Report)} {made : List (FrameRef × List VariableId)}
    (hl : Heap.Lists reported made w.heap w'.heap) (hreported : ∀ r ∈ reported, S r.1)
    (hn : Numbered (w'.session s).threads) (es : List Event)
    (hstands : ∀ t' ∈ (w'.session s).threads, t'.state = .suspended →
      (∃ t ∈ (w.session s).threads, t.handle.id = t'.handle.id ∧ t.state = .suspended
          ∧ ∀ e ∈ es, ¬e.Moves t'.handle.id)
        ∨ Since t'.handle.id (heard ++ es) [] ∧ ∀ f ∈ t'.frames, (w'.frame f).dirty = true) :
    Current s (fun f => S f ∨ w'.Places s f) old (new ++ reported) (heard ++ es) (listed ++ made) w' where
  charted := hw.regroups.charted h.charted
  numbered := hn
  apart := h.apart.lists hw.toLasts hl
  seen r hr := by
    rw [← List.append_assoc] at hr
    rcases List.mem_append.mp hr with hr | hr
    · exact .inl (h.seen r hr)
    · exact .inl (hreported r hr)
  renders := List.rel_append
    (Heap.renders_congr h.renders fun x hx => hl.grows.view (h.apart.bound x hx)) hl.renders
  stands t' ht' hsuspended := by
    obtain ⟨t, ht, hid, hstate, hes⟩ | ⟨hsince, hdirty⟩ := hstands t' ht' hsuspended
    · obtain ⟨during, hsince, hframes⟩ := h.stands t ht hstate
      refine ⟨during ++ es, hid ▸ hsince.append (hid ▸ hes), fun f hf hclean => ?_⟩
      have hcharted := hw.regroups.charted h.charted
      obtain ⟨hplaced, hhandle⟩ := hcharted.placed t' ht' f hf
      have hs : f.session = s := (hcharted.here f hplaced).1
      have hclean' : ((w'.session s).frames.get f.index).dirty = false := by
        rw [← hs]
        exact hclean
      obtain ⟨t₀, ht₀, hf₀⟩ | hdirty := hw.regroups.fresh f ⟨t', ht', hf⟩
      · have hhandle₀ := (h.charted.placed t₀ ht₀ f hf₀).2
        have hsame : t₀ = t :=
          List.inj_on_of_nodup_map h.numbered ht₀ ht (by rw [← hhandle₀, hhandle, hid])
        subst hsame
        have hframe : w'.frame f = w.frame f := by
          rw [World.frame, World.frame, hs]
          exact (hw.frames s f.index).eq_of_clean hclean'
        obtain ⟨hmem, hlast⟩ := hframes f hf₀ (hframe ▸ hclean)
        refine ⟨?_, ?_⟩
        · rw [listings_append, List.map_append]
          exact List.mem_append_left _ hmem
        · have hall : w'.ShowsLast (old ++ []) f :=
            hlast.append (List.forall_mem_nil _) (congrArg FrameState.known hframe)
              fun x hx => hl.grows.view (h.apart.known f.index x (by rwa [← hs]))
          rwa [List.append_nil] at hall
      · rw [hclean'] at hdirty
        cases hdirty
    · refine ⟨[], hsince, fun f hf hclean => ?_⟩
      rw [hdirty f hf] at hclean
      cases hclean

/-- A frame that takes in what is listed for it is up to date. -/
theorem fills {f : FrameRef} {made : List VariableId} {reports : List Report}
    (h : Current s S old ((f, reports) :: new) heard ((f, made) :: listed) w)
    (hnames : (reports.map Report.name).Nodup) (hw : Fills s f made w w') :
    Current s S (old ++ [(f, reports)]) new (heard ++ [.frameVariables f made]) listed w' := by
  have hseen : S f := h.seen (f, reports) (List.mem_append_right _ List.mem_cons_self)
  have hs : f.session = s := (h.charted.here f hseen).1
  obtain ⟨hrenders, hrest⟩ := List.forall₂_cons.mp h.renders
  have hmade : (made.map fun x => (w.heap.bindings.get x).name) = reports.map Report.name := by
    have hfirst := congrArg (List.map Prod.fst) hrenders.views
    rw [List.map_map, List.map_map] at hfirst
    exact hfirst
  obtain ⟨hapart, hclean, hperm, hlater, hother⟩ := h.apart.fills hs (hmade ▸ hnames) hw
  have hplaced : ∀ t ∈ (w'.session s).threads, t ∈ (w.session s).threads := fun t ht => hw.threads ▸ ht
  refine ⟨⟨fun g hg => ?_, h.charted.distinct, fun t ht g hg => h.charted.placed t (hplaced t ht) g hg⟩,
    hw.threads.symm ▸ h.numbered, hapart, fun r hr => h.seen r (by simpa using hr), ?_,
    fun t ht hsuspended => ?_⟩
  · obtain ⟨hgs, hgi⟩ := h.charted.here g hg
    exact ⟨hgs, Nat.lt_of_lt_of_le hgi hw.room⟩
  · exact Heap.renders_congr hrest hlater
  · obtain ⟨during, hsince, hframes⟩ := h.stands t (hplaced t ht) hsuspended
    refine ⟨during ++ [.frameVariables f made], hsince.append (by simp [Event.Moves]), fun g hg hgclean => ?_⟩
    rw [listings_append, List.map_append]
    by_cases hgf : g = f
    · subst hgf
      refine ⟨List.mem_append_right _ List.mem_cons_self, old, reports, [], rfl,
        List.forall_mem_nil _, ?_⟩
      exact hrenders.views ▸ hperm
    · have hplace := (h.charted.placed t (hplaced t ht) g hg).1
      have hgs : g.session = s := (h.charted.here g hplace).1
      have hindex : g.index ≠ f.index := fun hi => hgf (h.charted.distinct g f hplace hseen hi)
      obtain ⟨hsame, hview⟩ := hother g.index hindex
      have hframe : w'.frame g = w.frame g := by rw [World.frame, World.frame, hgs, hsame]
      obtain ⟨hmem, hlast⟩ := hframes g hg (hframe ▸ hgclean)
      refine ⟨List.mem_append_left _ hmem, hlast.append ?_ (congrArg FrameState.known hframe) ?_⟩
      · simpa using fun h => hgf h.symm
      · intro x hx
        exact hview x (by rwa [World.frame, hgs] at hx)

end Current

end World

/-! ### What a deed does to threads and frames -/

namespace Bridge

open World

variable {σ : Type} [Inhabited σ] [Engine σ] {s : Nat} {d d' : Debugger} {b b' : Bridge σ}
  {ds : List (Deed σ)} {x : Deed σ}

/-- Where a session is handed an event, its model handles it. -/
theorem Moves.of_event (hm : Moves s b x b') {e : Event} (he : b.handed s x = some (.event e)) :
    ∃ u j, Takes s b.world u
      ∧ b'.world = { worldAfter (handleEvent s e) u with journal := j } := by
  cases hm with
  | asked hm => cases hm.symm.trans he
  | changed p c hp =>
      rw [eq_deliver_of_handed he] at hp
      cases hp
  | called i c hx => cases hx.symm.trans (eq_deliver_of_handed he)
  | heard e' u j hx htake ho hu h hw =>
      obtain rfl := Message.event.inj (Option.some.inj ((handed_of_takes hx htake).symm.trans he))
      exact ⟨u, j, hu, hw⟩
  | obeyed r u hx htake => cases (handed_of_takes hx htake).symm.trans he

/-- What is not handed an event leaves the threads of a session as they are. -/
theorem threads_of_moves (hm : Moves s b x b') (hnone : ∀ e, b.handed s x ≠ some (.event e)) :
    (b'.world.session s).threads = (b.world.session s).threads := by
  cases hm with
  | asked hnone h => exact threads_of_model h.model
  | changed p c hp hb h => exact threads_of_model h.model
  | called i c hx hi hw hrun =>
      rw [hrun]
      exact threads_of_model (model_of_tells (tells_perform b i c))
  | heard e u j hx htake => exact absurd (handed_of_takes hx htake) (hnone e)
  | obeyed r u hx htake hu hrun =>
      have hsame : (u.world.session s).threads = (b.world.session s).threads := by
        rw [hu.here]
        rfl
      rw [hrun, ← hsame]
      exact threads_of_model (model_of_tells (tells_receive u r))

/-- Where no front end fails, a thread that is suspended after a deed was so before and did not move,
or its session was handed the news of it and its frames are out of date. -/
theorem stood_of_moves (hc : b.world.Calm) (hj : Joined b.world s) (hm : Moves s b x b')
    (hend : ∀ e, b.handed s x = some (.event e) → e ≠ .engineTerminated)
    (hn : Numbered (b'.world.session s).threads) {t' : Thread}
    (ht' : t' ∈ (b'.world.session s).threads) (hsuspended : t'.state = .suspended) :
    (∃ t ∈ (b.world.session s).threads, t.handle.id = t'.handle.id ∧ t.state = .suspended
        ∧ ∀ e ∈ eventsOf (b.handed s x).toList, ¬e.Moves t'.handle.id)
      ∨ ∃ thread reason stack, b.handed s x = some (.event (.suspended thread reason stack))
        ∧ thread.id = t'.handle.id ∧ ∀ f ∈ t'.frames, (b'.world.frame f).dirty = true := by
  by_cases hnone : ∀ e, b.handed s x ≠ some (.event e)
  · rw [threads_of_moves hm hnone] at ht'
    refine .inl ⟨t', ht', rfl, hsuspended, fun e he => ?_⟩
    cases hhanded : b.handed s x with
    | none =>
        rw [hhanded] at he
        cases he
    | some m =>
        rw [hhanded] at he
        cases m with
        | event e => exact absurd hhanded (hnone e)
        | request r => cases he
  · obtain ⟨e, he⟩ := not_forall_not.mp hnone
    obtain ⟨u, j, hu, hw⟩ := hm.of_event he
    rw [he]
    have hcalm : u.Calm := by
      intro notes n
      rw [hu.reaction]
      exact hc notes n
    have hl : (u.session s).alive = true := by rw [hu.here]; exact hj.alive
    have ha : (u.session s).attached = true := by rw [hu.here]; exact hj.attached
    obtain ⟨_, w, hok, hfollows⟩ := ends_handleEvent hcalm hl ha (hend e he)
    have hw' : b'.world = { w with journal := j } := by rw [hw, worldAfter, hok]
    have hsession : b'.world.session s = w.session s := by rw [hw']; rfl
    have hall : Follows s e b.world b'.world := follows_of_takes hu (follows_congr hfollows hsession)
    obtain ⟨t, ht, hid, hstate, hmoves⟩ | ⟨thread, reason, stack, rfl, hid⟩ :=
      suspended_of_follows hall hn ht' hsuspended
    · refine .inl ⟨t, ht, hid, hstate, fun e he => ?_⟩
      obtain rfl := List.mem_singleton.mp he
      exact hmoves
    · obtain ⟨_, w₁, hok₁, i, hi, hout⟩ := outdated_handleEvent hcalm ha thread reason stack
      obtain rfl : w = w₁ := (EStateM.Result.ok.inj (hok.symm.trans hok₁)).2
      rw [hsession] at ht' hn
      refine .inr ⟨thread, reason, stack, rfl, hid, fun f hf => ?_⟩
      obtain hgone | hdirty := hout t' (hn.getElem? hi ht' hid.symm)
      · rw [Thread.isTerminated, hsuspended] at hgone
        cases hgone
      · rw [hw']
        exact hdirty f hf

/-! ### Runs -/

/-- A thread of a session had a frame at some moment of a run. -/
def Seen (s : Nat) (ds : List (Deed σ)) (b : Bridge σ) (f : FrameRef) : Prop :=
  ∃ ds', ds' <+: ds ∧ (run ds' b).world.Places s f

/-- A frame was seen if it was before, or if a thread has it now. -/
theorem seen_append_singleton {f : FrameRef} :
    Seen s (ds ++ [x]) b f ↔ Seen s ds b f ∨ (run (ds ++ [x]) b).world.Places s f := by
  constructor
  · rintro ⟨ds', hds', hf⟩
    obtain rfl | hds' := List.prefix_concat_iff.mp hds'
    · exact .inr hf
    · exact .inl ⟨ds', hds', hf⟩
  · rintro (⟨ds', hds', hf⟩ | hf)
    · exact ⟨ds', hds'.trans (List.prefix_append ds [x]), hf⟩
    · exact ⟨_, List.prefix_rfl, hf⟩

/-- A run in which variables are asked for in frames that there were, and nobody changes what
variables show but the interpreter. -/
structure IsHonest (s : Nat) (ds : List (Deed σ)) (b : Bridge σ) : Prop where
  frames : ∀ ds' x r f, ds' ++ [x] <+: ds → (run ds' b).handed s x = some (.request r) →
    r.listed? = some f → Seen s ds' b f
  values : ∀ ds' op, ds' ++ [.onHeap op] <+: ds →
    (run ds' b).world.heap.Keeps (op.run (run ds' b).world.heap).2

/-- A run is honest up to each of its moments. -/
theorem IsHonest.before (h : IsHonest s (ds ++ [x]) b) : IsHonest s ds b :=
  ⟨fun ds' y r f hy => h.frames ds' y r f (hy.trans (List.prefix_append ds [x])),
    fun ds' op hy => h.values ds' op (hy.trans (List.prefix_append ds [x]))⟩

/-- A session whose debugger has a history, and whose model is up to date as far as that goes. -/
structure UpToDate (s : Nat) (old new : List (FrameRef × List Report)) (b₀ : Bridge σ)
    (ds : List (Deed σ)) (b : Bridge σ) : Prop where
  attends : Attends s (arrivedIn s ds b) (servedIn s ds b) (told s ds b) b₀ (run ds b)
  asked : ∀ e ∈ arrivedIn s ds b, ∀ f, e.2.listed? = some f → Seen s ds b f
  reported : (servedIn s ds b).filterMap (Service.listed? s) = old ++ new
  current : Current s (Seen s ds b) old new (eventsOf (handled s ds b))
    (listings (eventsOf ((run ds b).world.mail s))) (run ds b).world

/-- Hardly anything but a frame that takes variables in changes what is known of frames. -/
theorem carries_after (b : Bridge σ) (x : Deed σ)
    (hm : ∀ t e, b.handed t x = some (.event e) → e.listing? = none)
    (hvalues : ∀ op, x = .onHeap op → b.world.heap.Keeps (op.run b.world.heap).2) :
    Carries s b.world (b.after x).world := by
  by_cases hheap : ∃ op, x = .onHeap op
  · obtain ⟨op, rfl⟩ := hheap
    exact (lasts_onHeap b.world (hvalues op rfl)).carries rfl
  · refine (spans_carries s).after b x (fun _ _ _ => trivial) hm
      (fun op hx => absurd ⟨op, hx⟩ hheap) fun setup hx => ?_
    subst hx
    exact carries_launch b setup

/-- Where there is no other session, nothing but what a session is handed lists variables. -/
theorem carries_of_single (hhonest : IsHonest s (ds ++ [x]) b)
    (hl : ((run ds b).world.session s).alive = true) (hsize : (run ds b).world.sessions.size ≤ 1)
    (hnone : ∀ e, (run ds b).handed s x = some (.event e) → e.listing? = none) :
    Carries s (run ds b).world ((run ds b).after x).world := by
  refine carries_after (run ds b) x (fun t e he => ?_) fun op hx => ?_
  · have hs := lt_of_alive hl
    have ht := lt_of_handed he
    obtain rfl : t = s := by omega
    exact hnone e he
  · subst hx
    exact hhonest.values ds op List.prefix_rfl

omit [Inhabited σ] [Engine σ] in
/-- Nothing is listed by a message that lists nothing. -/
theorem listings_handed (hnone : ∀ e, b.handed s x = some (.event e) → e.listing? = none) :
    listings (eventsOf (b.handed s x).toList) = [] := by
  cases hm : b.handed s x with
  | none => rfl
  | some m =>
      cases m with
      | event e => exact List.filterMap_cons_none (hnone e hm)
      | request r => rfl

/-- What arrived was asked for in frames that there were. -/
theorem asked_append_singleton
    (h : ∀ e ∈ arrivedIn s ds b, ∀ f, e.2.listed? = some f → Seen s ds b f)
    (hhonest : IsHonest s (ds ++ [x]) b) :
    ∀ e ∈ arrivedIn s (ds ++ [x]) b, ∀ f, e.2.listed? = some f → Seen s ds b f := by
  intro e he f hf
  rw [arrivedIn_append_singleton] at he
  rcases List.mem_append.mp he with he | he
  · exact h e he f hf
  · exact hhonest.frames ds x e.2 f List.prefix_rfl (handed_of_mem_arriving he) hf

/-- What was listed was asked for. -/
theorem seen_of_attends {b₀ : Bridge σ} {as : List (Handle × Request)} {vs : List (Service σ)}
    {es : List Event} {b' : Bridge σ} {showDynamicCode attached : Bool} {S : FrameRef → Prop}
    (hstart : (b₀.world.session s).debugger = some (.start showDynamicCode attached))
    (h : Attends s as vs es b₀ b') (hasked : ∀ e ∈ as, ∀ f, e.2.listed? = some f → S f) :
    ∀ r ∈ vs.filterMap (Service.listed? s), S r.1 := by
  obtain ⟨d, hd⟩ := accounted_attends hstart h
  intro r hr
  obtain ⟨v, hv, hlisted⟩ := List.mem_filterMap.mp hr
  have hserved : v.request ∈ served v.thread.handle vs :=
    List.mem_map_of_mem (List.mem_filter.mpr ⟨hv, by simp⟩)
  obtain ⟨e, he, heq⟩ := List.mem_map.mp ((hd.ledger.prefixed v.thread.handle).subset hserved)
  exact hasked e (List.mem_filter.mp he).1 r.1 (heq ▸ Service.request_of_listed? hlisted)

/-- What a deed adds to what was listed. -/
theorem lists_serving (hin : b.world.InOrder s)
    (hgrows : b.world.heap.Extends (b.after x).world.heap) (ht : b.world.heap.Tidy) :
    Heap.Lists ((b.serving s x).filterMap (Service.listed? s))
      (listings ((b.serving s x).flatMap (Service.answer s)))
      b.world.heap (b.after x).world.heap := by
  by_cases hcall : ∃ i c, x = .call i c ∧ i.session = s ∧ b.isWaiting i = false
  · obtain ⟨i, c, rfl, rfl, hw⟩ := hcall
    have hrun : b.after (.call i c) = (b.perform i c).2 := if_neg (by simp [hw])
    have hserving : b.serving i.session (.call i c) = b.performed i c := if_pos ⟨rfl, hw⟩
    rw [hserving, hrun]
    exact lists_perform b i c ht
  by_cases hrequest : ∃ r, b.handed s x = some (.request r)
  · obtain ⟨r, hm⟩ := hrequest
    have hheap := (takes_presented (s := s) b r).heap
    rw [serving_of_handed hm, after_of_handed_request hm hin.present, ← hheap]
    exact lists_receive (b.presented s r) s r (hheap.symm ▸ ht)
  · rw [serving_eq_nil (fun r hr => hrequest ⟨r, hr⟩) fun i c hx hi => hcall ⟨i, c, hx, hi⟩]
    exact hgrows.lists

/-- Where a session is handed what is listed for a frame, the frame takes it in. -/
theorem fills_of_moves (hj : Joined b.world s) (hm : Moves s b x b') {f : FrameRef}
    {made : List VariableId} (he : b.handed s x = some (.event (.frameVariables f made)))
    (hs : f.session = s) : Fills s f made b.world b'.world := by
  obtain ⟨u, j, hu, hw⟩ := hm.of_event he
  have ha : (u.session s).attached = true := by rw [hu.here]; exact hj.attached
  have hfills := fills_handleEvent ha hs made
  have hsession : (u.session s).threads = (b.world.session s).threads
      ∧ (u.session s).frames = (b.world.session s).frames := by
    rw [hu.here]
    exact ⟨rfl, rfl⟩
  have hframe : u.frame f = b.world.frame f := by rw [World.frame, World.frame, hs, hsession.2]
  obtain ⟨reach, merged, hmerged, hframes⟩ := hfills.filled
  rw [hframe, hu.heap] at hmerged
  rw [hw]
  refine ⟨hfills.threads.trans hsession.1, ?_, reach, merged, hmerged, ?_⟩
  · exact hsession.2 ▸ hfills.room
  · exact hsession.2 ▸ hframes

/-- What a deed adds answers requests. -/
theorem answers_of_attends {b₀ : Bridge σ} {as as' : List (Handle × Request)}
    {vs vs' : List (Service σ)} {es es' : List Event} {showDynamicCode attached : Bool}
    (hstart : (b₀.world.session s).debugger = some (.start showDynamicCode attached))
    (h : Attends s as vs es b₀ b) (h' : Attends s (as ++ as') (vs ++ vs') (es ++ es') b₀ b') :
    es'.filter Event.isAnswer = vs'.flatMap (Service.answer s) := by
  obtain ⟨_, hd⟩ := accounted_attends hstart h
  obtain ⟨_, hd'⟩ := accounted_attends hstart h'
  have htold := hd'.told
  rw [List.filter_append, List.flatMap_append, hd.told] at htold
  exact List.append_cancel_left htold

/-- By a deed after which no thread has a new frame, no frame is seen that was not before. -/
theorem seen_eq (h : ∀ f, (run (ds ++ [x]) b).world.Places s f → Seen s ds b f) :
    Seen s (ds ++ [x]) b = Seen s ds b := by
  funext f
  exact propext (seen_append_singleton.trans ⟨fun hf => hf.elim id (h f), .inl⟩)

namespace UpToDate

variable {b₀ : Bridge σ} {old new : List (FrameRef × List Report)} {showDynamicCode attached : Bool}

/-- A deed that does not fill a frame. -/
theorem carries (hstart : (b₀.world.session s).debugger = some (.start showDynamicCode attached))
    (h : UpToDate s old new b₀ ds b) (hhonest : IsHonest s (ds ++ [x]) b)
    (hin : (run ds b).world.InOrder s) {ms : List Message}
    (hattends : Attends s (arrivedIn s (ds ++ [x]) b) (servedIn s (ds ++ [x]) b)
      (told s ds b ++ eventsOf ms) b₀ (run (ds ++ [x]) b))
    (hmail : (run ds b).world.mail s ++ ms
      = ((run ds b).handed s x).toList ++ (run (ds ++ [x]) b).world.mail s)
    (hcarries : Carries s (run ds b).world (run (ds ++ [x]) b).world)
    (hnone : listings (eventsOf ((run ds b).handed s x).toList) = [])
    (hn : Numbered ((run (ds ++ [x]) b).world.session s).threads)
    (hstands : ∀ t' ∈ ((run (ds ++ [x]) b).world.session s).threads, t'.state = .suspended →
      (∃ t ∈ ((run ds b).world.session s).threads, t.handle.id = t'.handle.id ∧ t.state = .suspended
          ∧ ∀ e ∈ eventsOf ((run ds b).handed s x).toList, ¬e.Moves t'.handle.id)
        ∨ Since t'.handle.id
            (eventsOf (handled s ds b) ++ eventsOf ((run ds b).handed s x).toList) []
          ∧ ∀ f ∈ t'.frames, ((run (ds ++ [x]) b).world.frame f).dirty = true) :
    UpToDate s old (new ++ ((run ds b).serving s x).filterMap (Service.listed? s)) b₀ (ds ++ [x]) b := by
  have hrun : run (ds ++ [x]) b = (run ds b).after x := run_append ds [x] b
  have hserved := servedIn_append_singleton (s := s) ds x b
  have hanswers : (eventsOf ms).filter Event.isAnswer
      = ((run ds b).serving s x).flatMap (Service.answer s) :=
    answers_of_attends hstart h.attends (by
      rw [← arrivedIn_append_singleton, ← hserved]
      exact hattends)
  have hlisted : listings (eventsOf ((run (ds ++ [x]) b).world.mail s))
      = listings (eventsOf ((run ds b).world.mail s))
        ++ listings (((run ds b).serving s x).flatMap (Service.answer s)) := by
    have hall := congrArg (fun ms => listings (eventsOf ms)) hmail
    rw [eventsOf_append, eventsOf_append, listings_append, listings_append, hnone,
      ← listings_filter_isAnswer (eventsOf ms), hanswers] at hall
    exact hall.symm
  have hasked := asked_append_singleton h.asked hhonest
  have hseen := seen_of_attends hstart hattends hasked
  rw [hserved, List.filterMap_append] at hseen
  have hlists := lists_serving hin (hrun ▸ hcarries.heap h.current.apart.tidy) h.current.apart.tidy
  rw [← hrun] at hlists
  have hcurrent := h.current.carries hcarries hlists
    (fun r hr => hseen r (List.mem_append_right _ hr)) hn _ hstands
  refine ⟨?_, fun e he f hf => seen_append_singleton.mpr (.inl (hasked e he f hf)), ?_, ?_⟩
  · rw [told_append_singleton (hrun ▸ hmail)]
    exact hattends
  · rw [hserved, List.filterMap_append, h.reported, List.append_assoc]
  · have hS : Seen s (ds ++ [x]) b = fun f => Seen s ds b f ∨ (run (ds ++ [x]) b).world.Places s f :=
      funext fun _ => propext seen_append_singleton
    rw [hS, handled_append_singleton, eventsOf_append, hlisted]
    exact hcurrent

/-- A deed by which a frame takes in what is listed for it. -/
theorem fills (hdistinct : Engine.Distinct σ)
    (hstart : (b₀.world.session s).debugger = some (.start showDynamicCode attached))
    (h : UpToDate s old new b₀ ds b) {ms : List Message}
    (hattends : Attends s (arrivedIn s (ds ++ [x]) b) (servedIn s (ds ++ [x]) b)
      (told s ds b ++ eventsOf ms) b₀ (run (ds ++ [x]) b))
    (hmail : (run ds b).world.mail s ++ ms
      = ((run ds b).handed s x).toList ++ (run (ds ++ [x]) b).world.mail s)
    {f : FrameRef} {made : List VariableId}
    (hm : (run ds b).handed s x = some (.event (.frameVariables f made)))
    (hfills : f.session = s → Fills s f made (run ds b).world (run (ds ++ [x]) b).world) :
    ∃ old' new', UpToDate s old' new' b₀ (ds ++ [x]) b := by
  have hrun : run (ds ++ [x]) b = (run ds b).after x := run_append ds [x] b
  have hrequest : ∀ r, (run ds b).handed s x ≠ some (.request r) := by simp [hm]
  have hcall : ∀ i c, x = .call i c → ¬(i.session = s ∧ (run ds b).isWaiting i = false) := by
    intro i c hx
    rw [eq_deliver_of_handed hm] at hx
    cases hx
  have harrived : arrivedIn s (ds ++ [x]) b = arrivedIn s ds b := by
    rw [arrivedIn_append_singleton, arriving_eq_nil hrequest, List.append_nil]
  have hserved : servedIn s (ds ++ [x]) b = servedIn s ds b := by
    rw [servedIn_append_singleton, serving_eq_nil hrequest hcall, List.append_nil]
  have hanswers : (eventsOf ms).filter Event.isAnswer = [] :=
    answers_of_attends hstart h.attends (show Attends s (_ ++ []) (_ ++ []) _ b₀ _ by
      rw [List.append_nil, List.append_nil, ← harrived, ← hserved]
      exact hattends)
  have hlisted : listings (eventsOf ((run ds b).world.mail s))
      = (f, made) :: listings (eventsOf ((run (ds ++ [x]) b).world.mail s)) := by
    have hall := congrArg (fun ms => listings (eventsOf ms)) hmail
    rw [eventsOf_append, eventsOf_append, listings_append, listings_append, hm,
      ← listings_filter_isAnswer (eventsOf ms), hanswers] at hall
    exact (List.append_nil _).symm.trans hall
  have hcurrent := h.current
  rw [hlisted] at hcurrent
  obtain ⟨⟨g, reports⟩, rest, ⟨hg, -⟩, -, rfl⟩ := List.forall₂_cons_right_iff.mp hcurrent.renders
  obtain rfl : f = g := hg
  have hmem : (f, reports) ∈ (servedIn s ds b).filterMap (Service.listed? s) := by
    rw [h.reported]
    exact List.mem_append_right _ List.mem_cons_self
  obtain ⟨v, -, hv⟩ := List.mem_filterMap.mp hmem
  have hs : f.session = s :=
    (hcurrent.charted.here f (hcurrent.seen (f, reports) (List.mem_append_right _ List.mem_cons_self))).1
  have hafter := hcurrent.fills (v.nodup_of_listed? hdistinct hv) (hfills hs)
  have hS : Seen s (ds ++ [x]) b = Seen s ds b := by
    refine seen_eq ?_
    rintro g ⟨t, ht, hg⟩
    exact (hafter.charted.placed t ht g hg).1
  refine ⟨old ++ [(f, reports)], rest, ?_,
    fun e he f hf => hS ▸ h.asked e (harrived ▸ he) f hf, ?_, ?_⟩
  · rw [told_append_singleton (hrun ▸ hmail)]
    exact hattends
  · rw [hserved, h.reported, List.append_assoc]
    rfl
  · rw [hS, handled_append_singleton, eventsOf_append, hm]
    exact hafter

/-- Every deed that leaves a session live keeps its model up to date. -/
theorem after (hb : b.world = .start) (hdistinct : Engine.Distinct σ)
    (hstart : (b₀.world.session s).debugger = some (.start showDynamicCode attached))
    (h : UpToDate s old new b₀ ds b) (hhonest : IsHonest s (ds ++ [x]) b)
    (hlive : Live (run ds b).world s d) (hlive' : Live (run (ds ++ [x]) b).world s d')
    (hsize : (run (ds ++ [x]) b).world.sessions.size ≤ 1) :
    ∃ old' new', UpToDate s old' new' b₀ (ds ++ [x]) b := by
  have hfresh : b.Fresh := ⟨World.start.reaction, hb⟩
  have hrun : run (ds ++ [x]) b = (run ds b).after x := run_append ds [x] b
  have hj' := hlive'.toJoined
  rw [hrun] at hj' hsize
  have hkeep : x ≠ .dropSession s := ne_dropSession_of_joined hj'
  have hin := (candid_run hfresh ds hlive.toJoined).inOrder
  have hstirs := stirs_after (run ds b) hin x hkeep
  have hmoves := moves_of_joined (run ds b) (enrolled_run hfresh ds) hlive.toSound x hj'
  have hend : ∀ e, (run ds b).handed s x = some (.event e) → e ≠ .engineTerminated := by
    intro e he
    obtain ⟨u, -, ⟨hne, -⟩ | ⟨-, hshuts⟩⟩ := hstirs.of_event he
    · exact hne hlive.attached
    · cases hshuts.attached.symm.trans hj'.attached
  obtain ⟨ms, hattends, hmail⟩ := exists_attends_after hstart h.attends hin hj' hstirs
  rw [← arrivedIn_append_singleton, ← servedIn_append_singleton, ← hrun] at hattends
  rw [← hrun] at hmail hmoves hsize hj'
  by_cases hfill : ∃ f made, (run ds b).handed s x = some (.event (.frameVariables f made))
  · obtain ⟨f, made, hm⟩ := hfill
    exact h.fills hdistinct hstart hattends hmail hm (fills_of_moves hlive.toJoined hmoves hm)
  · have hnone : ∀ e, (run ds b).handed s x = some (.event e) → e.listing? = none := by
      intro e he
      cases e with
      | frameVariables f made => exact absurd ⟨f, made, he⟩ hfill
      | _ => rfl
    have hn := (inStep_run hb (ds ++ [x]) hlive').numbered
    have hsize' := Nat.le_trans (size_after_le (run ds b) x) (hrun ▸ hsize)
    have hcarries : Carries s (run ds b).world (run (ds ++ [x]) b).world :=
      hrun ▸ carries_of_single hhonest hlive.alive hsize' hnone
    refine ⟨old, _, h.carries hstart hhonest hin hattends hmail hcarries (listings_handed hnone) hn
      fun t' ht' hsuspended => ?_⟩
    refine (stood_of_moves (calm_run hb ds) hlive.toJoined hmoves hend hn ht' hsuspended).imp id ?_
    rintro ⟨thread, reason, stack, hm, hid, hdirty⟩
    rw [hm]
    exact ⟨hid ▸ since_suspended _ thread reason stack, hdirty⟩

end UpToDate

/-- Before a session is opened, values are in order. -/
theorem tidy_run (hb : b.world = .start) (hhonest : IsHonest s ds b)
    (hsize : (run ds b).world.sessions.size = 0) : (run ds b).world.heap.Tidy := by
  induction ds using List.reverseRecOn with
  | nil =>
      rw [run_nil, hb]
      exact Heap.tidy_empty
  | append_singleton ds x ih =>
      have hrun : run (ds ++ [x]) b = (run ds b).after x := run_append ds [x] b
      rw [hrun] at hsize ⊢
      have hbefore : (run ds b).world.sessions.size = 0 :=
        Nat.le_zero.mp (hsize ▸ size_after_le (run ds b) x)
      have hcarries : Carries s (run ds b).world ((run ds b).after x).world := by
        refine carries_after (run ds b) x (fun t e he => ?_) fun op hx => ?_
        · exact absurd (lt_of_handed he) (by omega)
        · subst hx
          exact hhonest.values ds op List.prefix_rfl
      exact (hcarries.heap (ih hhonest.before hbefore)).tidy

/-- Sessions are never fewer than they were. -/
theorem size_run_le {ds' : List (Deed σ)} (h : ds' <+: ds) :
    (run ds' b).world.sessions.size ≤ (run ds b).world.sessions.size := by
  obtain ⟨es, rfl⟩ := h
  induction es using List.reverseRecOn with
  | nil => exact Nat.le_of_eq (by rw [List.append_nil])
  | append_singleton es x ih =>
      rw [← List.append_assoc, run_append _ [x]]
      exact Nat.le_trans ih (size_after_le _ x)

/-- A session that was just opened shows nothing yet. -/
theorem kept_of_opened (hb : b.world = .start) {setup : Setup}
    (hhonest : IsHonest (run ds b).world.sessions.size (ds ++ [.launch setup]) b)
    (hsize : (run ds b).world.sessions.size = 0)
    (hopened : Opened (run (ds ++ [.launch setup]) b).world (run ds b).world.sessions.size d) :
    UpToDate (run ds b).world.sessions.size [] [] (run (ds ++ [.launch setup]) b)
      (ds ++ [.launch setup]) b := by
  let s := (run ds b).world.sessions.size
  have hrun : run (ds ++ [.launch setup]) b = (run ds b).after (.launch setup) :=
    run_append ds [.launch setup] b
  have hcarries : Carries s (run ds b).world (run (ds ++ [.launch setup]) b).world :=
    hrun ▸ carries_launch (run ds b) setup
  have hthreads : ((run (ds ++ [.launch setup]) b).world.session s).threads = [] :=
    threads_eq_nil hopened.process
  have hknown : ∀ k, (((run (ds ++ [.launch setup]) b).world.session s).frames.get k).known = [] := by
    intro k
    have habsent : (run ds b).world.session s = .absent := session_of_le (Nat.le_refl _)
    have hages := hcarries.frames s k
    rw [habsent] at hages
    obtain ⟨hsame, -⟩ | hforgotten := hages
    · exact hsame
    · rw [hforgotten]
      rfl
  have hunseen : ∀ f, ¬Seen s (ds ++ [.launch setup]) b f := by
    rintro f ⟨ds', hds', t, ht, -⟩
    obtain rfl | hbefore := List.prefix_concat_iff.mp hds'
    · rw [hthreads] at ht
      cases ht
    · rw [session_of_le (size_run_le hbefore)] at ht
      cases ht
  have htidy := (hcarries.heap (tidy_run hb hhonest.before hsize)).tidy
  have hattends : Attends s (arrivedIn s (ds ++ [.launch setup]) b)
      (servedIn s (ds ++ [.launch setup]) b) (told s (ds ++ [.launch setup]) b)
      (run (ds ++ [.launch setup]) b) (run (ds ++ [.launch setup]) b) := by
    rw [arrivedIn_launch, servedIn_launch, told_launch hopened]
    exact .start _
  refine ⟨hattends, by rw [arrivedIn_launch]; exact List.forall_mem_nil _,
    by rw [servedIn_launch]; rfl, ?_⟩
  rw [handled_launch, hopened.mail]
  exact .empty htidy hthreads hknown hunseen

/-- As long as a session is live its debugger has a history, and its model is up to date as far as
that goes. -/
theorem exists_kept (hb : b.world = .start) (hdistinct : Engine.Distinct σ)
    (hsize : (run ds b).world.sessions.size ≤ 1) (hhonest : IsHonest s ds b)
    (hlive : Live (run ds b).world s d) :
    ∃ (b₀ : Bridge σ) (showDynamicCode : Bool) (old : _) (new : _),
      (b₀.world.session s).debugger = some (.start showDynamicCode true)
        ∧ UpToDate s old new b₀ ds b := by
  have hfresh : b.Fresh := ⟨World.start.reaction, hb⟩
  induction ds using List.reverseRecOn generalizing d with
  | nil =>
      have halive := hlive.alive
      rw [run_nil, hb] at halive
      cases halive
  | append_singleton ds x ih =>
      have hrun : run (ds ++ [x]) b = (run ds b).after x := run_append ds [x] b
      obtain ⟨d₀, hbefore, -⟩ | ⟨⟨setup, rfl, rfl⟩, hopened⟩ := live_before hfresh ds x hlive
      · have hsize' := Nat.le_trans (size_after_le (run ds b) x) (hrun ▸ hsize)
        obtain ⟨b₀, showDynamicCode, old, new, hstart, hkept⟩ := ih hsize' hhonest.before hbefore
        obtain ⟨old', new', hkept'⟩ := hkept.after hb hdistinct hstart hhonest hbefore hlive hsize
        exact ⟨b₀, showDynamicCode, old', new', hstart, hkept'⟩
      · have hnone : (run ds b).world.sessions.size = 0 := by
          have hthere := lt_of_alive hlive.alive
          omega
        exact ⟨_, d.showDynamicCode, [], [], debugger_of_opened hopened,
          kept_of_opened hb hhonest hnone hopened⟩

/-! ### Frames that are not out of date -/

/-- What the last service that listed a frame answered comes last, if what came since has a listing of
the frame. -/
theorem answers_suffix {earlier later : List (Service σ)} {v : Service σ} {during : List Event}
    {f : FrameRef} {reports : List Report} (hv : v.listed? s = some (f, reports))
    (hlater : ∀ v' ∈ later, ∀ reports', v'.listed? s ≠ some (f, reports'))
    (hmem : f ∈ (listings during).map Prod.fst)
    (hsuffix : during.filter Event.isAnswer <:+ (earlier ++ v :: later).flatMap (Service.answer s)) :
    (v :: later).flatMap (Service.answer s) <:+ during.filter Event.isAnswer := by
  have hall : (v :: later).flatMap (Service.answer s)
      <:+ (earlier ++ v :: later).flatMap (Service.answer s) := by
    rw [List.flatMap_append]
    exact List.suffix_append _ _
  obtain h | h := List.suffix_or_suffix_of_suffix hall hsuffix
  · exact h
  · -- No listing of the frame comes later than that of the last service that listed it.
    obtain ⟨made, hanswer⟩ := Service.answer_of_listed? hv
    rw [List.flatMap_cons, hanswer] at h ⊢
    obtain heq | hrest := List.suffix_cons_iff.mp h
    · exact heq ▸ List.suffix_rfl
    · obtain ⟨⟨g, made'⟩, hlisted, rfl⟩ := List.mem_map.mp hmem
      rw [← listings_filter_isAnswer] at hlisted
      obtain ⟨e, he, hlisting⟩ := List.mem_filterMap.mp hlisted
      obtain ⟨v', hv', he'⟩ := List.mem_flatMap.mp (hrest.subset he)
      cases e with
      | frameVariables g made' =>
          cases hlisting
          obtain ⟨reports', hreports'⟩ := Service.listed?_of_mem_answer he'
          exact absurd hreports' (hlater v' hv' reports')
      | _ => cases hlisting

/-- A frame that is not out of date is up to date. Whenever nothing is on its way, the following holds
of each frame of a suspended thread that is not marked as out of date: the last service in which the
engine reported variables for it was answered since the thread was suspended, and the frame shows by
name and value what the engine reported then. -/
theorem showsLast_run (hb : b.world = .start) (hdistinct : Engine.Distinct σ)
    (hsize : (run ds b).world.sessions.size ≤ 1) (hhonest : IsHonest s ds b)
    (hl : ((run ds b).world.session s).alive = true)
    (ha : ((run ds b).world.session s).attached = true)
    (hd : ((run ds b).world.session s).debugger = some d)
    (hq : ((run ds b).world.session s).mailbox.queue = []) :
    (told s ds b).filter Event.isAnswer = (servedIn s ds b).flatMap (Service.answer s)
      ∧ ∀ t ∈ ((run ds b).world.session s).threads, t.state = .suspended →
        ∃ during, Since t.handle.id (told s ds b) during
          ∧ ∀ f ∈ t.frames, ((run ds b).world.frame f).dirty = false →
            ∃ earlier v later reports, servedIn s ds b = earlier ++ v :: later
              ∧ v.listed? s = some (f, reports)
              ∧ (∀ v' ∈ later, ∀ reports', v'.listed? s ≠ some (f, reports'))
              ∧ (v :: later).flatMap (Service.answer s) <:+ during.filter Event.isAnswer
              ∧ (((run ds b).world.frame f).known.map (run ds b).world.heap.view).Perm
                (reports.map Report.view) := by
  have hlive := live_of_queue_eq_nil ⟨World.start.reaction, hb⟩ ds hl ha hd hq
  obtain ⟨b₀, showDynamicCode, old, new, hstart, hkept⟩ :=
    exists_kept hb hdistinct hsize hhonest hlive
  obtain ⟨_, haccounted⟩ := accounted_attends hstart hkept.attends
  have hmail : (run ds b).world.mail s = [] := by
    rw [World.mail, hq]
    rfl
  have htold : told s ds b = eventsOf (handled s ds b) := by rw [told, hmail, List.append_nil]
  have hcurrent := hkept.current
  rw [hmail, ← htold] at hcurrent
  have hnew : new = [] := List.forall₂_nil_right_iff.mp hcurrent.renders
  refine ⟨haccounted.told, fun t ht hsuspended => ?_⟩
  obtain ⟨during, hsince, hframes⟩ := hcurrent.stands t ht hsuspended
  refine ⟨during, hsince, fun f hf hclean => ?_⟩
  obtain ⟨hmem, before, reports, after, hold, hafter, hperm⟩ := hframes f hf hclean
  have hreported := hkept.reported
  rw [hnew, List.append_nil, hold] at hreported
  obtain ⟨first, rest, hvs, -, hrest⟩ := List.filterMap_eq_append_iff.mp hreported
  obtain ⟨skipped, v, later, hrest', -, hv, hlater⟩ := List.filterMap_eq_cons_iff.mp hrest
  have hall : servedIn s ds b = (first ++ skipped) ++ v :: later := by
    rw [hvs, hrest', List.append_assoc]
  have hlast : ∀ v' ∈ later, ∀ reports', v'.listed? s ≠ some (f, reports') := fun v' hv' reports' h =>
    hafter (f, reports') (hlater ▸ List.mem_filterMap.mpr ⟨v', hv', h⟩) rfl
  refine ⟨first ++ skipped, v, later, reports, hall, hv, hlast, ?_, hperm⟩
  have hsuffix : during.filter Event.isAnswer
      <:+ ((first ++ skipped) ++ v :: later).flatMap (Service.answer s) := by
    obtain ⟨earlier, thread, reason, stack, hes, -⟩ := hsince
    rw [← hall, ← haccounted.told, hes, List.filter_append]
    exact List.suffix_append _ _
  exact answers_suffix hv hlast hmem hsuffix

end Bridge

/-- An engine with one variable, which is true or false. -/
structure Flag where
  raised : Bool

namespace Flag

instance : Inhabited Flag := ⟨⟨false⟩⟩

instance : Engine Flag where
  visible flag _ := (.ok [⟨"flag", .scalar (.bool flag.raised), none⟩], flag)
  evaluate flag _ expression := (.ok (.settled (.scalar (.bool (expression == "true")))), flag)
  assign flag _ _ content :=
    match content with
    | .scalar (.bool raised) => (.ok (), ⟨raised⟩)
    | _ => (.error ["neither true nor false"], flag)
  terminate flag := (.ok (), flag)
  isStopped _ := false
  bind flag _ _ := flag

/-- The two values of the flag are told apart by what is displayed. -/
theorem distinct : Engine.Distinct Flag := by
  intro engine scope reports h
  cases h
  exact List.nodup_singleton _

end Flag

namespace Bridge

open World

/-- A thread stops twice, and each time somebody looks at the variables of its frame. -/
def lookTwice : List (Deed Flag) :=
  let script : Script := .snippet 0 "main"
  let i : Interpreter := .idle 0 "main" 0
  let a : Activation := ⟨1, script, .file, none⟩
  let f : FrameRef := ⟨0, 0, ⟨0, "main"⟩, a⟩
  [.launch ⟨.off, 0, true, true, true⟩, .call i (.push a), .call i .threadStarted, .deliver 0,
    .order 0 0 .suspend, .deliver 0, .call i (.line script 3), .deliver 0,
    .readVariables f, .deliver 0, .deliver 0, .setEngine 0 fun _ => ⟨true⟩,
    .order 0 0 .resume, .deliver 0, .deliver 0,
    .order 0 0 .suspend, .deliver 0, .call i (.line script 4), .deliver 0,
    .readVariables f, .deliver 0, .deliver 0]

/-- The engine reported what the frame shows since the second stop. -/
theorem showsLast_run_lookTwice :
    ∃ (during : _) (v : _) (reports : _),
      Since 0 (told 0 lookTwice ∅) during
        ∧ v ∈ servedIn 0 lookTwice ∅ ∧ (∀ e ∈ v.answer 0, e ∈ during)
        ∧ (v.listed? 0).map Prod.snd = some reports
        ∧ reports.map Report.view = [("flag", .scalar (.bool true), none)] := by
  have hframes : (lookTwice.inits.all fun ds =>
      (ds.getLast?.bind ((run ds.dropLast ∅).handed 0)).all fun m =>
        m.listed?.all fun f =>
          ((run ds.dropLast ∅).world.session 0).threads.any fun t => f ∈ t.frames) = true := by
    decide +kernel
  have hvalues : ∀ op, Deed.onHeap op ∉ lookTwice := by simp [lookTwice]
  have hhonest : IsHonest 0 lookTwice ∅ := by
    refine ⟨fun ds x r f hds hm hf => ?_, fun ds op hds => ?_⟩
    · have hchecked := List.all_eq_true.mp hframes (ds ++ [x]) ((List.mem_inits _ _).mpr hds)
      rw [List.getLast?_concat, List.dropLast_concat, Option.bind_some, hm] at hchecked
      simp only [Message.listed?, Option.all_some, hf, List.any_eq_true, decide_eq_true_eq] at hchecked
      exact ⟨ds, List.prefix_rfl, hchecked⟩
    · exact absurd (hds.subset (by simp)) (hvalues op)
  let f : FrameRef := ⟨0, 0, ⟨0, "main"⟩, ⟨1, .snippet 0 "main", .file, none⟩⟩
  let w := (run lookTwice ∅).world
  have hdebugger : (w.session 0).debugger = some (w.debugger 0) :=
    debugger_of_isSome (by decide +kernel)
  have ht : w.thread 0 0 ∈ (w.session 0).threads := by decide +kernel
  have hid : (w.thread 0 0).handle.id = 0 := by decide +kernel
  have hf : f ∈ (w.thread 0 0).frames := by decide +kernel
  have hshown : (w.frame f).known.map w.heap.view = [("flag", .scalar (.bool true), none)] := by
    decide +kernel
  obtain ⟨-, hframes⟩ := showsLast_run rfl Flag.distinct
    (by decide +kernel) hhonest (by decide +kernel) (by decide +kernel) hdebugger
    (List.isEmpty_iff.mp (by decide +kernel))
  obtain ⟨during, hsince, hframes⟩ := hframes (w.thread 0 0) ht (by decide +kernel)
  rw [hid] at hsince
  obtain ⟨earlier, v, later, reports, hserved, hv, -, hanswers, hperm⟩ :=
    hframes f hf (by decide +kernel)
  refine ⟨during, v, reports, hsince, by simp [hserved], fun e he => ?_, ?_, ?_⟩
  · have hmem : e ∈ (v :: later).flatMap (Service.answer 0) :=
      List.mem_flatMap.mpr ⟨v, List.mem_cons_self, he⟩
    exact (List.mem_filter.mp (hanswers.subset hmem)).1
  · rw [hv]
    rfl
  · change (List.map w.heap.view _).Perm _ at hperm
    rw [hshown] at hperm
    exact List.perm_singleton.mp hperm.symm

end Bridge

end DebugBridge
