import DebugBridge.Proofs.Outline

/-!
# The tree of a session

Threads and frames come into the tree of a session at first sight, and events may come late, twice or
in any order. Whatever comes, and wherever a front end fails, the tree stays in order. What is in it
stays, threads are known by handles of their own and for good, and a thread that is gone holds no
frames. The front end is told of nothing twice that comes into being or goes for good.

A front end is told only when the tree has changed. So when it fails, all that it was told of is in
the tree, and what it was not told of is never told later as if it were new.

## Main definitions

* `Milestone`: what a front end is told once at most, counted by `World.timesTold`;
* `Session.Neat`: threads and frames in order;
* `Session.Lasts`: a tree that keeps what was in it;
* `World.Upholds`: a step that leaves a tree in order, with what was in it;
* `Happening`: what may happen to the model of a session.

## Main results

* `attains_notify`: when a front end may be told;
* `upholds_handleEvent`, `upholds_endSession`: the steps;
* `keeps_order`: a tree stays in order whatever happens.
-/

namespace DebugBridge

/-! ### What is told once -/

/-- What a front end is told once at most. -/
inductive Milestone where
  /-- The process came into being. -/
  | process
  /-- A thread came into being. -/
  | thread (i : Nat)
  /-- A frame came into being. -/
  | frame (k : Nat)
  /-- A thread is gone. -/
  | ended (i : Nat)
deriving DecidableEq

/-- The milestone that a front end is told of. -/
def Notice.milestone? : Notice → Option Milestone
  | .created .process => some .process
  | .created (.thread i) => some (.thread i)
  | .created (.frame f) => some (.frame f.index)
  | .terminated (.thread i) => some (.ended i)
  | _ => none

/-- The milestone of a session that a note is about. -/
def Note.milestone? (s : Nat) : Note → Option Milestone
  | .model t notice _ => if t = s then notice.milestone? else none
  | _ => none

/-- How often the front end of a session was told of a milestone. -/
def World.timesTold (w : World) (s : Nat) (m : Milestone) : Nat :=
  w.journal.notes.toList.countP fun n => n.milestone? s = some m

/-- A milestone that was not reached yet. -/
def Session.Awaits (x : Session) : Milestone → Prop
  | .process => x.process = none
  | .thread i => x.threads.length ≤ i
  | .frame k => x.frames.size ≤ k
  | .ended i => ∀ t, x.threads[i]? = some t → t.isTerminated = false

/-! ### Trees in order -/

/-- A thread in order. Its frames have numbers of their own, which were given out, and if it is gone it
holds none. Code that was made at run time shows only if that is asked for. -/
structure Thread.Neat (showDynamicCode : Bool) (count : Nat) (t : Thread) : Prop where
  bare : t.isTerminated = true → t.frames = []
  distinct : (t.frames.map FrameRef.index).Nodup
  given : ∀ f ∈ t.frames, f.index < count
  shown : ∀ f ∈ t.frames, showDynamicCode = true ∨ f.activation.script.dynamic = false

/-- Threads in order, each with a handle of its own. -/
structure Neat (showDynamicCode : Bool) (count : Nat) (ts : List Thread) : Prop where
  numbered : Numbered ts
  each : ∀ t ∈ ts, t.Neat showDynamicCode count

section Neat

variable {showDynamicCode : Bool} {count : Nat} {t : Thread} {ts : List Thread}

/-- A thread without frames is in order. -/
theorem Thread.neat_of_frames (h : t.frames = []) : t.Neat showDynamicCode count := by
  refine ⟨fun _ => h, ?_, ?_, ?_⟩ <;> simp [h]

/-- A thread is in order when more frames are given out. -/
theorem Thread.Neat.mono {count' : Nat} (h : t.Neat showDynamicCode count) (hc : count ≤ count') :
    t.Neat showDynamicCode count' :=
  ⟨h.bare, h.distinct, fun f hf => Nat.lt_of_lt_of_le (h.given f hf) hc, h.shown⟩

/-- A thread may change as long as it is not gone. -/
theorem Thread.Neat.of_frames {t' : Thread} (h : t.Neat showDynamicCode count)
    (hframes : t'.frames = t.frames) (halive : t'.isTerminated = false) :
    t'.Neat showDynamicCode count :=
  ⟨by simp [halive], hframes ▸ h.distinct, hframes ▸ h.given, hframes ▸ h.shown⟩

/-- Where there are no threads, they are in order. -/
theorem neat_nil : Neat showDynamicCode count [] :=
  ⟨List.nodup_nil, nofun⟩

/-- Threads are in order when more frames are given out. -/
theorem Neat.mono {count' : Nat} (h : Neat showDynamicCode count ts) (hc : count ≤ count') :
    Neat showDynamicCode count' ts :=
  ⟨h.numbered, fun t ht => (h.each t ht).mono hc⟩

end Neat

/-- A session with its threads and frames in order. -/
def Session.Neat (x : Session) : Prop :=
  DebugBridge.Neat x.options.showDynamicCode x.frames.size x.threads

/-- A thread that is known by its handle, and that is gone for good if it is gone. -/
structure Thread.Lasts (t t' : Thread) : Prop where
  handle : t'.handle = t.handle
  gone : t.isTerminated = true → t'.isTerminated = true

/-- A process that keeps what was in it: its attributes, and its threads at their places. -/
structure Process.Lasts (p p' : Process) : Prop where
  attributes : p'.attributes = p.attributes
  terminated : p.terminated = true → p'.terminated = true
  threads : ∀ (i : Nat) (t : Thread), p.threads[i]? = some t →
    ∃ t', p'.threads[i]? = some t' ∧ t.Lasts t'

/-- A session that keeps its process, if it has one. -/
structure Session.Lasts (x x' : Session) : Prop where
  options : x'.options = x.options
  process : ∀ p, x.process = some p → ∃ p', x'.process = some p' ∧ p.Lasts p'
  room : x.frames.size ≤ x'.frames.size

/-- A thread that is left as it is is known by its handle, and gone if it was. -/
theorem Thread.Lasts.refl (t : Thread) : t.Lasts t :=
  ⟨rfl, id⟩

/-- A thread lasts through two steps. -/
theorem Thread.Lasts.trans {t t' t'' : Thread} (h : t.Lasts t') (h' : t'.Lasts t'') : t.Lasts t'' :=
  ⟨h'.handle.trans h.handle, fun ht => h'.gone (h.gone ht)⟩

/-- A process that is left as it is keeps what was in it. -/
theorem Process.Lasts.refl (p : Process) : p.Lasts p :=
  ⟨rfl, id, fun _ t ht => ⟨t, ht, .refl t⟩⟩

/-- A process lasts through two steps. -/
theorem Process.Lasts.trans {p p' p'' : Process} (h : p.Lasts p') (h' : p'.Lasts p'') :
    p.Lasts p'' := by
  refine ⟨h'.attributes.trans h.attributes, fun hp => h'.terminated (h.terminated hp),
    fun i t ht => ?_⟩
  obtain ⟨t', ht', hl⟩ := h.threads i t ht
  obtain ⟨t'', ht'', hl'⟩ := h'.threads i t' ht'
  exact ⟨t'', ht'', hl.trans hl'⟩

namespace Session

variable {x x' x'' : Session}

/-- A session lasts if its process does, and frames are only given out. -/
theorem Lasts.of_process (ho : x'.options = x.options) (hp : x'.process = x.process)
    (hroom : x.frames.size ≤ x'.frames.size) : x.Lasts x' :=
  ⟨ho, fun p h => ⟨p, hp.trans h, .refl p⟩, hroom⟩

/-- A session lasts through two steps. -/
theorem Lasts.trans (h : x.Lasts x') (h' : x'.Lasts x'') : x.Lasts x'' := by
  refine ⟨h'.options.trans h.options, fun p hp => ?_, Nat.le_trans h.room h'.room⟩
  obtain ⟨p', hp', hl⟩ := h.process p hp
  obtain ⟨p'', hp'', hl'⟩ := h'.process p' hp'
  exact ⟨p'', hp'', hl.trans hl'⟩

/-- Threads stay at their places. -/
theorem Lasts.thread (h : x.Lasts x') {i : Nat} {t : Thread} (ht : x.threads[i]? = some t) :
    ∃ t', x'.threads[i]? = some t' ∧ t.Lasts t' := by
  unfold threads at ht ⊢
  cases hp : x.process with
  | none =>
      rw [hp] at ht
      cases ht
  | some p =>
      rw [hp] at ht
      obtain ⟨p', hp', hl⟩ := h.process p hp
      rw [hp']
      exact hl.threads i t ht

/-- What is still awaited was awaited before. -/
theorem Lasts.awaits (h : x.Lasts x') {m : Milestone} (hm : x'.Awaits m) : x.Awaits m := by
  cases m with
  | process =>
      cases hp : x.process with
      | none => exact hp
      | some p =>
          obtain ⟨p', hp', -⟩ := h.process p hp
          rw [Awaits, hp'] at hm
          cases hm
  | thread i =>
      refine Nat.le_of_not_lt fun hi => ?_
      obtain ⟨t', ht', -⟩ := h.thread (List.getElem?_eq_getElem hi)
      exact Nat.not_lt_of_le hm (List.getElem?_eq_some_iff.mp ht').1
  | frame k => exact Nat.le_trans h.room hm
  | ended i =>
      intro t ht
      obtain ⟨t', ht', hl⟩ := h.thread ht
      cases hgone : t.isTerminated with
      | false => rfl
      | true => exact absurd (hl.gone hgone) (by rw [hm t' ht']; decide)

end Session

namespace World

variable {s : Nat} {u v w w' : World}

/-- A tree in order, of which the front end was told nothing twice, and nothing that is not so. -/
structure Intact (s : Nat) (w : World) : Prop where
  neat : (w.session s).Neat
  once : ∀ m, w.timesTold s m ≤ 1
  awaited : ∀ m, (w.session s).Awaits m → w.timesTold s m = 0

/-- A step that leaves a tree in order, with what was in it. -/
def Upholds (s : Nat) (w w' : World) : Prop :=
  Intact s w → Intact s w' ∧ (w.session s).Lasts (w'.session s)

/-- Steps that leave a tree in order hold of a sequence. -/
theorem steady_upholds (s : Nat) : Steady (Upholds s) where
  refl w h := ⟨h, .of_process rfl rfl (Nat.le_refl _)⟩
  trans h h' hu := by
    obtain ⟨hv, hl⟩ := h hu
    obtain ⟨hw, hl'⟩ := h' hv
    exact ⟨hw, hl.trans hl'⟩

/-- A change of the tree that keeps what was in it. -/
theorem upholds_of_lasts (hn : w'.journal.notes = w.journal.notes)
    (hl : (w.session s).Lasts (w'.session s)) (hneat : (w.session s).Neat → (w'.session s).Neat) :
    Upholds s w w' := by
  have htold : ∀ m, w'.timesTold s m = w.timesTold s m := fun m => by rw [timesTold, timesTold, hn]
  exact fun h => ⟨⟨hneat h.neat, fun m => (htold m).symm ▸ h.once m,
    fun m hm => (htold m).trans (h.awaited m (hl.awaits hm))⟩, hl⟩

/-- A change of the process that keeps what was in it. -/
theorem upholds_process (hn : w'.journal.notes = w.journal.notes)
    (ho : (w'.session s).options = (w.session s).options)
    (hroom : (w.session s).frames.size ≤ (w'.session s).frames.size) {f : Process → Process}
    (hp : (w'.session s).process = (w.session s).process.map f)
    (hf : ∀ p, (w.session s).process = some p → p.Lasts (f p)
      ∧ (Neat (w.session s).options.showDynamicCode (w'.session s).frames.size p.threads →
        Neat (w.session s).options.showDynamicCode (w'.session s).frames.size (f p).threads)) :
    Upholds s w w' := by
  refine upholds_of_lasts hn ⟨ho, fun p h => ⟨f p, by rw [hp, h]; rfl, (hf p h).1⟩, hroom⟩
    fun hneat => ?_
  unfold Session.Neat Session.threads at *
  rw [ho, hp]
  cases h : (w.session s).process with
  | none => exact neat_nil
  | some p =>
      rw [h] at hneat
      exact (hf p h).2 (hneat.mono hroom)

/-- A change beside the tree. -/
theorem upholds_of_process (hn : w'.journal.notes = w.journal.notes)
    (ho : (w'.session s).options = (w.session s).options)
    (hp : (w'.session s).process = (w.session s).process)
    (hroom : (w.session s).frames.size ≤ (w'.session s).frames.size) : Upholds s w w' :=
  upholds_process (f := id) hn ho hroom (by rw [hp, Option.map_id, id]) fun p _ =>
    ⟨.refl p, id⟩

/-- A step that tells nothing and changes no session leaves trees in order. -/
theorem upholds_of_sessions (hn : w'.journal.notes = w.journal.notes)
    (hs : w'.sessions = w.sessions) : Upholds s w w' := by
  have hsame : w'.session s = w.session s := by rw [session, session, hs]
  exact upholds_of_process hn (by rw [hsame]) (by rw [hsame]) (Nat.le_of_eq (by rw [hsame]))

/-! ### Front ends that are told -/

/-- A note counts for the milestone that it is about. -/
@[simp] theorem timesTold_note (w : World) (n : Note) (m : Milestone) :
    (w.note n).timesTold s m = w.timesTold s m + if n.milestone? s = some m then 1 else 0 := by
  unfold timesTold note Journal.note
  rw [Array.toList_push, List.countP_append, List.countP_singleton]
  simp

/-- What is no milestone of a session leaves its tree in order. -/
theorem upholds_note (w : World) {n : Note} (hn : n.milestone? s = none) : Upholds s w (w.note n) := by
  have htold : ∀ m, (w.note n).timesTold s m = w.timesTold s m := fun m => by simp [hn]
  exact fun h => ⟨⟨h.neat, fun m => (htold m).symm ▸ h.once m,
    fun m hm => (htold m).trans (h.awaited m hm)⟩, .of_process rfl rfl (Nat.le_refl _)⟩

/-- The front end may be told of a milestone that was reached, if it was not told before. -/
theorem Intact.note (h : Intact s w) {n : Note} {m : Milestone} (hn : n.milestone? s = some m)
    (hm : w.timesTold s m = 0) (hreached : ¬(w.session s).Awaits m) : Intact s (w.note n) := by
  refine ⟨h.neat, fun m' => ?_, fun m' hm' => ?_⟩
  · rw [timesTold_note, hn]
    have hm₀ := h.once m'
    split
    · next he =>
        obtain rfl := Option.some.inj he
        omega
    · exact hm₀
  · rw [timesTold_note, hn]
    split
    · next he =>
        obtain rfl := Option.some.inj he
        exact absurd hm' hreached
    · exact h.awaited m' hm'

end World

open World

section Tree

variable {s : Nat} {w : World}

/-! ### Operations on the tree -/

/-- A front end is told or not, and if it is told it may fail. -/
theorem notify_outcomes (s : Nat) (notice : Notice) (w : World) :
    notify s notice w = .ok () w
      ∨ notify s notice w = .ok () (w.note (.model s notice (w.noticeText s notice)))
      ∨ ∃ failure, notify s notice w
          = .error failure (w.note (.model s notice (w.noticeText s notice))) := by
  rw [run_notify]
  cases (w.session s).alive && (w.session s).observed with
  | false => exact .inl rfl
  | true =>
      refine .inr ?_
      dsimp only [if_true]
      cases w.reaction w.journal.notes (.model s notice (w.noticeText s notice)) with
      | none => exact .inl rfl
      | some failure => exact .inr ⟨failure, rfl⟩

/-- A step that tells the front end of no milestone. -/
structure Hushes (s : Nat) (w w' : World) : Prop where
  upholds : Upholds s w w'
  told : ∀ m, w'.timesTold s m = w.timesTold s m

/-- Steps that tell of no milestone hold of a sequence. -/
theorem steady_hushes (s : Nat) : Steady (Hushes s) where
  refl w := ⟨(steady_upholds s).refl w, fun _ => rfl⟩
  trans h h' := ⟨(steady_upholds s).trans h.upholds h'.upholds,
    fun m => (h'.told m).trans (h.told m)⟩

/-- A step that leaves trees in order and tells nothing tells of no milestone. -/
theorem hushes_of_notes {w w' : World} (h : Upholds s w w')
    (hn : w'.journal.notes = w.journal.notes) : Hushes s w w' :=
  ⟨h, fun m => by rw [timesTold, timesTold, hn]⟩

/-- What is no milestone may be told at any time, and so may be what happens to other sessions. -/
theorem hushes_notify {t : Nat} {notice : Notice} (hm : t = s → notice.milestone? = none) :
    Keeps (Hushes s) (notify t notice) := by
  intro w
  have hn : (Note.model t notice (w.noticeText t notice)).milestone? s = none := by
    unfold Note.milestone?
    dsimp only
    split
    · next ht => exact hm ht
    · rfl
  have hnote : Hushes s w (w.note (.model t notice (w.noticeText t notice))) :=
    ⟨upholds_note w hn, fun m => by simp [hn]⟩
  unfold worldAfter
  obtain hok | hok | ⟨failure, herror⟩ := notify_outcomes t notice w
  · rw [hok]
    exact (steady_hushes s).refl w
  · rw [hok]
    exact hnote
  · rw [herror]
    exact hnote

/-- An operation that tells of no milestone leaves trees in order. -/
theorem Keeps.upholds {α : Type} {op : Act α} (h : Keeps (Hushes s) op) : Keeps (Upholds s) op :=
  fun w => (h w).upholds

/-- A front end may be told of what is no milestone, and of a milestone that was reached and that it
was not told of before. -/
theorem attains_notify (h : Intact s w) {notice : Notice}
    (hm : ∀ m, notice.milestone? = some m → w.timesTold s m = 0 ∧ ¬(w.session s).Awaits m) :
    Attains (Upholds s) (notify s notice) w fun _ w' => w'.sessions = w.sessions
      ∧ ∀ m, notice.milestone? ≠ some m → w'.timesTold s m = w.timesTold s m := by
  let n : Note := .model s notice (w.noticeText s notice)
  have hn : n.milestone? s = notice.milestone? := if_pos rfl
  have hintact : Intact s (w.note n) := by
    cases hnotice : notice.milestone? with
    | none => exact (upholds_note w (hn.trans hnotice) h).1
    | some m =>
        obtain ⟨htold, hreached⟩ := hm m hnotice
        exact h.note (hn.trans hnotice) htold hreached
  have hupholds : Upholds s w (w.note n) := fun _ =>
    ⟨hintact, .of_process rfl rfl (Nat.le_refl _)⟩
  have htold : ∀ m, notice.milestone? ≠ some m → (w.note n).timesTold s m = w.timesTold s m := by
    intro m hne
    rw [timesTold_note, hn, if_neg hne]
    rfl
  obtain hok | hok | ⟨failure, herror⟩ := notify_outcomes s notice w
  · exact .of_ok hok ((steady_upholds s).refl w) ⟨rfl, fun _ _ => rfl⟩
  · exact .of_ok hok hupholds ⟨rfl, htold⟩
  · exact .of_error herror hupholds

/-- A step that leaves a tree in order is one that leaves it in order. -/
theorem World.Upholds.intact {w' : World} (h : Upholds s w w') (hw : Intact s w) : Intact s w' :=
  (h hw).1

/-- The process is there once it was asked for. -/
theorem attains_ensureProcess (h : Intact s w) :
    Attains (Upholds s) (ensureProcess s) w fun _ w' => (w'.session s).process.isSome = true := by
  have hR := steady_upholds s
  refine .get_bind ?_
  cases hp : (w.session s).process with
  | some p => exact .pure (hR.refl w) (by rw [hp]; rfl)
  | none =>
      have hself : (w.addProcess s).session s = { w.session s with process := some .start } := by
        rw [addProcess, session_modifySession, if_pos rfl]
      have hadd : Upholds s w (w.addProcess s) := by
        refine upholds_of_lasts rfl ?_ fun hneat => ?_
        · rw [hself]
          refine ⟨rfl, fun p hp' => ?_, Nat.le_refl _⟩
          rw [hp] at hp'
          cases hp'
        · rw [hself]
          exact neat_nil
      refine .change_bind hR hadd ((attains_notify (hadd h).1 ?_).mono fun _ w' _ hs => ?_)
      · rintro m hm
        cases hm
        refine ⟨h.awaited .process hp, ?_⟩
        change ((w.addProcess s).session s).process ≠ none
        rw [hself]
        exact Option.some_ne_none _
      · rw [session, hs.1]
        change ((w.addProcess s).session s).process.isSome = true
        rw [hself]
        rfl

/-- A thread with a new handle comes last. -/
theorem upholds_addThread (w : World) {handle : Handle}
    (hnew : (w.session s).findThread? handle = none) :
    Upholds s w (w.addThread s handle) := by
  have hself : (w.addThread s handle).session s = { w.session s with
      process := (w.session s).process.map fun p =>
        { p with threads := p.threads ++ [.start handle] } } := by
    rw [addThread, session_modifySession, if_pos rfl]
  refine upholds_process rfl (by rw [hself]) (Nat.le_of_eq (by rw [hself])) (by rw [hself]) ?_
  refine fun p hp => ⟨⟨rfl, id, fun i t ht => ⟨t, ?_, .refl t⟩⟩, fun h => ⟨?_, fun t ht => ?_⟩⟩
  · exact (List.getElem?_append_left (List.getElem?_eq_some_iff.mp ht).1).trans ht
  · have hnone : (p.threads.any fun t => t.handle.id = handle.id) = false := by
      rw [findThread?_eq, List.findIdx?_eq_none_iff] at hnew
      rw [List.any_eq_false]
      simpa [Session.threads, hp] using hnew
    have henroll := numbered_enroll h.numbered handle
    rwa [enroll, if_neg (by rw [hnone]; decide)] at henroll
  · obtain ht | ht := List.mem_append.mp ht
    · exact h.each t ht
    · obtain rfl := List.mem_singleton.mp ht
      exact Thread.neat_of_frames rfl

/-- A thread that is added is the last one. -/
theorem attains_createThread (h : Intact s w) (hp : (w.session s).process.isSome = true)
    {handle : Handle} (hnew : (w.session s).findThread? handle = none) :
    Attains (Upholds s) (createThread s handle) w fun i w' => i < (w'.session s).threads.length := by
  have hR := steady_upholds s
  have hadd := upholds_addThread w hnew
  have hlength : (w.session s).threads.length < ((w.addThread s handle).session s).threads.length := by
    rw [addThread, session_modifySession, if_pos rfl]
    obtain ⟨p, hp⟩ := Option.isSome_iff_exists.mp hp
    simp [Session.threads, hp]
  refine .get_bind (.change_bind hR hadd (.bind hR (attains_notify (hadd h).1 ?_) ?_))
  · rintro m hm
    cases hm
    exact ⟨h.awaited (.thread _) (Nat.le_refl _), Nat.not_le_of_lt hlength⟩
  · rintro _ w' - ⟨hs, -⟩
    have hsame : w'.session s = (w.addThread s handle).session s := by rw [session, hs]; rfl
    refine .pure (hR.refl w') ?_
    rw [hsame]
    exact hlength

/-- The thread with a handle is there once it was looked for. -/
theorem attains_findOrCreateThread (h : Intact s w) (hp : (w.session s).process.isSome = true)
    (handle : Handle) : Attains (Upholds s) (findOrCreateThread s handle) w
      fun found w' => found.1 < (w'.session s).threads.length := by
  have hR := steady_upholds s
  refine .get_bind ?_
  cases hfind : (w.session s).findThread? handle with
  | some i => exact .pure (hR.refl w) (List.findIdx?_eq_some_iff_findIdx_eq.mp hfind).1
  | none =>
      refine .bind hR (attains_createThread h hp hfind) fun i w' _ hi => ?_
      exact .pure (hR.refl w') hi

/-- A thread that is looked for is found among those of its session. -/
theorem attains_threadOf (h : Intact s w) (handle : Handle) :
    Attains (Upholds s) (threadOf s handle) w fun i w' => i < (w'.session s).threads.length := by
  have hR := steady_upholds s
  refine .bind hR (attains_ensureProcess h) fun _ v hv hp => ?_
  refine .bind hR (attains_findOrCreateThread (hv.intact h) hp handle) fun found w' _ hi => ?_
  exact .pure (hR.refl w') hi

/-! ### Threads that change -/

/-- A thread may change as long as it stays in order. -/
theorem upholds_modifyThread (w : World) (i : Nat) {f : Thread → Thread}
    (hhandle : ∀ t, (f t).handle = t.handle)
    (hf : ∀ t, (w.session s).threads[i]? = some t → (t.isTerminated = true → (f t).isTerminated = true)
      ∧ (t.Neat (w.session s).options.showDynamicCode (w.session s).frames.size →
        (f t).Neat (w.session s).options.showDynamicCode (w.session s).frames.size)) :
    Upholds s w (w.modifyThread s i f) := by
  have hself : (w.modifyThread s i f).session s = (w.session s).modifyThread i f := by
    rw [modifyThread, session_modifySession, if_pos rfl]
  refine upholds_process rfl (by rw [hself]; rfl) (Nat.le_of_eq (by rw [hself]; rfl))
    (f := fun p => { p with threads := p.threads.modify i f }) (by rw [hself]; rfl) fun p hp => ?_
  have hthreads : (w.session s).threads = p.threads := by rw [Session.threads, hp]
  rw [hthreads] at hf
  refine ⟨⟨rfl, id, fun j t ht => ?_⟩, fun h => ⟨numbered_modify h.numbered i hhandle,
    fun t' ht' => ?_⟩⟩
  · by_cases hij : i = j
    · subst hij
      exact ⟨f t, by rw [List.getElem?_modify_eq, ht]; rfl, hhandle t, (hf t ht).1⟩
    · exact ⟨t, by rw [List.getElem?_modify_ne _ _ hij, ht], .refl t⟩
  · rw [hself] at h ⊢
    obtain ht | ⟨t, ht, rfl⟩ := mem_threads_modify ht'
    · exact h.each t' ht
    · exact (hf t ht).2 (h.each t (List.mem_of_getElem? ht))

/-- A thread that is found at its place is the one there. -/
theorem isTerminated_of_getElem? {i : Nat} {t : Thread} (ht : (w.session s).threads[i]? = some t) :
    t.isTerminated = (w.thread s i).isTerminated := by
  rw [thread_eq ht]

/-- A thread that is not gone goes on, and the front end is told. -/
theorem attains_threadResumed (w : World) (i : Nat) (kind : ResumeKind) :
    Attains (Upholds s) (threadResumed s i kind) w fun _ _ => True := by
  have hR := steady_upholds s
  refine .get_bind ?_
  cases hgone : (w.thread s i).isTerminated with
  | true => exact .pure (hR.refl w) trivial
  | false =>
      have hresume : Upholds s w (w.modifyThread s i (·.resume kind)) := by
        refine upholds_modifyThread w i (fun _ => rfl) fun t ht => ⟨fun hgone' => ?_, fun ht' => ?_⟩
        · rw [isTerminated_of_getElem? ht, hgone] at hgone'
          cases hgone'
        · refine ht'.of_frames rfl ?_
          unfold Thread.resume Thread.isTerminated
          split <;> rfl
      exact .change_bind hR hresume (((hushes_notify fun _ => rfl).upholds.attains _).mono fun _ _ _ _ => trivial)

/-- A thread that was not gone is gone, and the front end is told once. -/
theorem attains_threadTerminated (h : Intact s w) (hp : (w.session s).process.isSome = true)
    (handle : Handle) : Attains (Upholds s) (threadTerminated s handle) w fun _ _ => True := by
  have hR := steady_upholds s
  refine .bind hR (attains_findOrCreateThread h hp handle) fun found v hv hi => ?_
  obtain ⟨i, created⟩ := found
  refine .get_bind ?_
  cases hgone : (v.thread s i).isTerminated with
  | true => exact .pure (hR.refl v) trivial
  | false =>
      have hend : Upholds s v (v.modifyThread s i Thread.terminate) :=
        upholds_modifyThread v i (fun _ => rfl) fun t _ => ⟨fun _ => rfl, fun _ =>
          Thread.neat_of_frames rfl⟩
      refine .change_bind hR hend ((attains_notify (hend.intact (hv.intact h)) ?_).mono
        fun _ _ _ _ => trivial)
      rintro m hm
      cases hm
      refine ⟨(hv.intact h).awaited (.ended i) fun t ht => ?_, fun hawaits => ?_⟩
      · rw [isTerminated_of_getElem? ht, hgone]
      · have ht := List.getElem?_eq_getElem hi
        have hnow := hawaits (((v.session s).threads[i]).terminate)
          (by rw [threads_modifyThread, List.getElem?_modify_eq, ht]; rfl)
        cases hnow

/-! ### Frames that change -/

/-- What is known of a frame does not matter to the order of a tree. -/
theorem upholds_modifyFrame (w : World) (f : FrameRef) (g : FrameState → FrameState) :
    Upholds s w (w.modifyFrame f g) := by
  have hself : (w.modifyFrame f g).session s = if f.session = s then { w.session f.session with
      frames := (w.session f.session).frames.modify f.index g } else w.session s :=
    session_modifySession w f.session s _
  refine upholds_of_process rfl ?_ ?_ ?_
  all_goals
    rw [hself]
    split
    · next hs =>
        subst hs
        first
        | rfl
        | exact Arena.size_le_modify _ _ _
    · first
      | exact Nat.le_refl _
      | rfl

/-- That a frame changed is no milestone. -/
theorem hushes_frameChanged (f : FrameRef) (detail : ChangeDetail) :
    Keeps (Hushes s) (frameChanged f detail) :=
  hushes_notify fun _ => rfl

/-- That a frame is out of date is no milestone. -/
theorem hushes_setDirty (f : FrameRef) : Keeps (Hushes s) (setDirty f) :=
  .bind (steady_hushes s) (.change fun w => hushes_of_notes (upholds_modifyFrame w f _) rfl)
    fun _ => hushes_frameChanged f .content

/-- New frames are told one after the other. -/
theorem attains_announce (fs : List FrameRef) {w : World} (h : Intact s w)
    (hd : (fs.map FrameRef.index).Nodup)
    (hfs : ∀ f ∈ fs, w.timesTold s (.frame f.index) = 0 ∧ f.index < (w.session s).frames.size) :
    Attains (Upholds s) (fs.forM fun f => notify s (.created (.frame f))) w fun _ _ => True := by
  have hR := steady_upholds s
  induction fs generalizing w with
  | nil => exact .pure (hR.refl w) trivial
  | cons f fs ih =>
      obtain ⟨hf, hd⟩ := List.nodup_cons.mp hd
      obtain ⟨htold, hlt⟩ := hfs f List.mem_cons_self
      change Attains _ (notify s _ >>= fun _ => fs.forM _) w _
      refine .bind hR (attains_notify h ?_) ?_
      · rintro m hm
        cases hm
        exact ⟨htold, Nat.not_le_of_lt hlt⟩
      · rintro _ v hv ⟨hs, hsame⟩
        refine ih (hv.intact h) hd fun g hg => ?_
        obtain ⟨hgtold, hglt⟩ := hfs g (List.mem_cons_of_mem f hg)
        refine ⟨(hsame _ fun hm => ?_).trans hgtold, ?_⟩
        · have hi : f.index = g.index := Milestone.frame.inj (Option.some.inj hm)
          exact hf (hi ▸ List.mem_map_of_mem hg)
        · rw [session, hs]
          exact hglt

/-- Room for frames is made without a note. -/
theorem notes_makeRoom (fs : List FrameRef) (w : World) :
    (fs.foldl (fun w f => w.modifyFrame f fun _ => default) w).journal = w.journal := by
  induction fs generalizing w with
  | nil => rfl
  | cons f fs ih => exact ih _

/-- Room for frames is made in order. -/
theorem upholds_makeRoom (fs : List FrameRef) (w : World) :
    Upholds s w (fs.foldl (fun w f => w.modifyFrame f fun _ => default) w) := by
  induction fs generalizing w with
  | nil => exact (steady_upholds s).refl w
  | cons f fs ih => exact (steady_upholds s).trans (upholds_modifyFrame w f _) (ih _)

/-- Each thread of a tree in order is in order. -/
theorem World.Intact.thread (h : Intact s w) (i : Nat) :
    (w.thread s i).Neat (w.session s).options.showDynamicCode (w.session s).frames.size := by
  cases ht : (w.session s).threads[i]? with
  | some t => exact thread_eq ht ▸ h.neat.each t (List.mem_of_getElem? ht)
  | none =>
      refine Thread.neat_of_frames ?_
      rw [World.thread, Session.thread, ht]
      rfl

/-- A thread that is not gone gets the frames of a reported stack. -/
theorem hushes_putFrames (h : Intact s w) (i : Nat) (hgone : (w.thread s i).isTerminated = false)
    {stack : List Activation} (hstack : ∀ a ∈ stack,
      (w.session s).options.showDynamicCode = true ∨ a.script.dynamic = false) :
    Hushes s w (w.putFrames s i (FrameChange.of s (w.thread s i).handle (w.thread s i).frames
      (w.session s).frames.size stack)) := by
  let t := w.thread s i
  let c := FrameChange.of s t.handle t.frames (w.session s).frames.size stack
  let v := c.created.foldl (fun w f => w.modifyFrame f fun _ => default) w
  have hroom : Upholds s w v := upholds_makeRoom c.created w
  obtain ⟨hv, hlasts⟩ := hroom h
  have hthreads : (v.session s).threads = (w.session s).threads :=
    (congrArg Session.threads ((plain_makeRoom c.created w).everywhere s) :)
  have hput : Upholds s v (v.modifyThread s i fun t => { t with frames := c.frames }) := by
    refine upholds_modifyThread v i (fun _ => rfl) fun t' ht' => ⟨id, fun _ => ?_⟩
    rw [hthreads] at ht'
    obtain rfl : t = t' := thread_eq ht'
    have hneat := h.thread i
    refine ⟨fun hgone' => ?_, nodup_frames_of stack hneat.distinct hneat.given, fun f hf => ?_,
      fun f hf => ?_⟩
    · exact absurd (hgone.symm.trans hgone') (by decide)
    · obtain ⟨hf, -⟩ | hf := mem_frames_of hf
      · exact Nat.lt_of_lt_of_le (hneat.given f hf) hlasts.room
      · exact (room_makeRoom (fun g hg => (created_of hg).1) w f hf).1
    · rw [hlasts.options]
      obtain ⟨hf, -⟩ | hf := mem_frames_of hf
      · exact hneat.shown f hf
      · exact hstack f.activation (created_of hf).2.2.2
  exact hushes_of_notes ((steady_upholds s).trans hroom hput)
    (congrArg Journal.notes (notes_makeRoom c.created w))

/-- The frames of a thread are replaced by those of a reported stack. -/
theorem attains_setStack (h : Intact s w) (i : Nat) {stack : List Activation}
    (hstack : ∀ a ∈ stack,
      (w.session s).options.showDynamicCode = true ∨ a.script.dynamic = false) :
    Attains (Upholds s) (setStack s i stack) w fun _ _ => True := by
  have hR := steady_upholds s
  have hquiet := steady_hushes s
  have hdone : ∀ {op : Act Unit} {u : World}, Keeps (Hushes s) op →
      Attains (Upholds s) op u fun _ _ => True :=
    fun hop => (hop.upholds.attains _).mono fun _ _ _ _ => trivial
  refine .get_bind ?_
  dsimp only
  cases hgone : (w.thread s i).isTerminated with
  | true => exact hdone (.change fun w => hushes_of_notes (upholds_of_sessions rfl rfl) rfl)
  | false =>
      let t := w.thread s i
      let c := FrameChange.of s t.handle t.frames (w.session s).frames.size stack
      let u := w.trace "model" (t.name ++ ": " ++ c.summary)
      have hu : Hushes s w u := hushes_of_notes (upholds_of_sessions rfl rfl) rfl
      have hput : Hushes s u (u.putFrames s i c) := hushes_putFrames (hu.upholds.intact h) i hgone hstack
      refine .change_bind hR hu.upholds (.change_bind hR hput.upholds ?_)
      refine .bind hR (P := fun _ v => Hushes s (u.putFrames s i c) v)
        (((Keeps.forM hquiet hushes_setDirty c.reused).attains _).weaken Hushes.upholds) ?_
      intro _ v _ hv
      have hall := hquiet.trans hu (hquiet.trans hput hv)
      have hintact := hall.upholds.intact h
      have hneat := h.thread i
      refine .bind hR (attains_announce c.created hintact ?_ fun f hf => ⟨?_, ?_⟩) fun _ _ _ _ => ?_
      · exact (nodup_frames_of stack hneat.distinct hneat.given).sublist
          ((created_sublist s t.handle stack t.frames _).map FrameRef.index)
      · exact (hall.told _).trans (h.awaited (.frame f.index) (created_of hf).2.2.1)
      · have hroom := (room_makeRoom (fun g hg => (created_of hg).1) u f hf).1
        rw [← frames_putFrames u i c] at hroom
        exact Nat.lt_of_lt_of_le hroom
          (hv.upholds ((hquiet.trans hu hput).upholds.intact h)).2.room
      · exact hdone (.bind hquiet (.forM hquiet (fun f => hushes_notify fun _ => rfl) c.gone)
          fun _ => hushes_notify fun _ => rfl)

/-- A thread that is not gone is suspended. -/
theorem attains_threadSuspended (h : Intact s w) (i : Nat) (reason : SuspendReason)
    {stack : List Activation} (hstack : ∀ a ∈ stack,
      (w.session s).options.showDynamicCode = true ∨ a.script.dynamic = false) :
    Attains (Upholds s) (threadSuspended s i reason stack) w fun _ _ => True := by
  have hR := steady_upholds s
  refine .get_bind ?_
  cases hgone : (w.thread s i).isTerminated with
  | true => exact .pure (hR.refl w) trivial
  | false =>
      have hsuspend : Upholds s w (w.modifyThread s i (·.suspend reason)) := by
        refine upholds_modifyThread w i (fun _ => rfl) fun t ht => ⟨fun hgone' => ?_, fun ht' => ?_⟩
        · rw [isTerminated_of_getElem? ht, hgone] at hgone'
          cases hgone'
        · exact ht'.of_frames rfl rfl
      obtain ⟨hintact, hlasts⟩ := hsuspend h
      refine .change_bind hR hsuspend (.bind hR (attains_setStack hintact i ?_) fun _ _ _ _ => ?_)
      · rw [hlasts.options]
        exact hstack
      · exact ((hushes_notify fun _ => rfl).upholds.attains _).mono fun _ _ _ _ => trivial

/-! ### Events -/

/-- A session may change in all but its process, its options and its frames. -/
theorem hushes_modifySession (w : World) (t : Nat) (f : Session → Session)
    (hf : ∀ x, (f x).options = x.options ∧ (f x).process = x.process ∧ (f x).frames = x.frames) :
    Hushes s w (w.modifySession t f) := by
  obtain ⟨ho, hp, hframes⟩ := hf (w.session s)
  refine hushes_of_notes (upholds_of_process rfl ?_ ?_ (Nat.le_of_eq ?_)) rfl
  all_goals
    rw [session_modifySession]
    split
    · next hts =>
        subst hts
        first
        | exact ho
        | exact hp
        | rw [hframes]
    · rfl

/-- What is traced is no milestone. -/
theorem hushes_trace (w : World) (topic text : String) : Hushes s w (w.trace topic text) :=
  hushes_of_notes (upholds_of_sessions rfl rfl) rfl

/-- A request that is sent is no milestone. -/
theorem hushes_post (w : World) (t : Nat) (r : Request) : Hushes s w (w.post t r) := by
  unfold World.post
  split
  · exact (steady_hushes s).refl w
  · split
    · exact (steady_hushes s).trans (hushes_trace w _ _)
        (hushes_modifySession _ t _ fun _ => ⟨rfl, rfl, rfl⟩)
    · exact hushes_trace w _ _

/-- The thread that waits before a script is there once it was looked for. -/
theorem attains_greetThread (h : Intact s w) (hp : (w.session s).process.isSome = true)
    (handle : Handle) : Attains (Upholds s) (greetThread s handle) w fun _ _ => True := by
  have hR := steady_upholds s
  refine .bind hR (attains_findOrCreateThread h hp handle) fun found v _ _ => ?_
  split
  · exact .pure (hR.refl v) trivial
  · exact .bind hR ((hushes_notify fun _ => rfl).upholds.attains v) fun _ w' _ _ =>
      .pure (hR.refl w') trivial

/-- Variables that a frame takes in are no milestone. -/
theorem hushes_setVariables (f : FrameRef) (reported : List VariableId) :
    Keeps (Hushes s) (setVariables f reported) := by
  have hR := steady_hushes s
  refine .bind hR (.get hR) fun w => .bind hR ?_ fun merged => .bind hR (.change fun w => ?_)
    fun _ => hushes_frameChanged f .content
  · exact fun w => hushes_of_notes (upholds_of_sessions rfl rfl) rfl
  · exact hushes_of_notes (upholds_modifyFrame w f _) rfl

/-- A result that is handed on is no milestone. -/
theorem hushes_deliverResult (listener : String) (result : WatchResult) :
    Keeps (Hushes s) (deliverResult listener result) := by
  have hR := steady_hushes s
  refine .bind hR (.get hR) fun w => .bind hR ?_ fun shown => .change fun w => ?_
  · exact fun w => hushes_of_notes (upholds_of_sessions rfl rfl) rfl
  · exact ⟨upholds_note w rfl, fun m => by simp [Note.milestone?]⟩

/-- It does not matter for milestones what an operation has in hand. -/
theorem hushes_withInHand {α : Type} {op : Act α} (f : FrameRef) (h : Keeps (Hushes s) op) :
    Keeps (Hushes s) (withInHand f op) :=
  keeps_withInHand (steady_hushes s)
    (fun _ _ => hushes_of_notes (upholds_of_sessions rfl rfl) rfl) f h

/-- All threads of a session end with it. -/
theorem upholds_close (w : World) : Upholds s w (w.close s) := by
  have hnotes : (w.close s).journal.notes = w.journal.notes := by
    unfold World.close
    dsimp only
    split
    · rfl
    · split <;> rfl
  have hself := session_close_self w s
  cases hover : (w.session s).terminated with
  | true =>
      rw [if_pos hover] at hself
      exact upholds_of_process hnotes (by rw [hself]) (by rw [hself]) (Nat.le_of_eq (by rw [hself]))
  | false =>
      rw [if_neg (by simp [hover])] at hself
      refine upholds_process hnotes (by rw [hself]; rfl) (Nat.le_of_eq (by rw [hself]; rfl))
        (f := fun p => { p with threads := p.threads.map Thread.terminate, terminated := true })
        (by rw [hself]; rfl) fun p _ => ⟨⟨rfl, fun _ => rfl, fun i t ht => ?_⟩, fun h => ⟨?_, ?_⟩⟩
      · exact ⟨t.terminate, by rw [List.getElem?_map, ht]; rfl, rfl, fun _ => rfl⟩
      · have hids : (p.threads.map Thread.terminate).map (·.handle.id)
            = p.threads.map (·.handle.id) := by
          rw [List.map_map]
          rfl
        exact (congrArg List.Nodup hids).mpr h.numbered
      · intro t ht
        obtain ⟨t₀, -, rfl⟩ := List.mem_map.mp ht
        exact Thread.neat_of_frames rfl

/-- The front end of a session that ends is told of the session alone. -/
theorem upholds_endSession : Keeps (Upholds s) (endSession s) := by
  intro w
  have hclose := upholds_close (s := s) w
  cases hover : (w.session s).terminated with
  | true =>
      have hrun : worldAfter (endSession s) w = w.close s := by
        unfold worldAfter
        rw [run_endSession, if_pos hover]
      exact hrun ▸ hclose
  | false =>
      have hrun : worldAfter (endSession s) w
          = worldAfter (notify s (.terminated .target)) (w.close s) := by
        unfold worldAfter
        rw [run_endSession, if_neg (by simp [hover])]
      have htold : Keeps (Hushes s) (notify s (.terminated .target)) := hushes_notify fun _ => rfl
      exact hrun ▸ (steady_upholds s).trans hclose (htold.upholds (w.close s))

/-- Users that disconnect leave trees in order. -/
theorem upholds_disconnect : Keeps (Upholds s) (disconnect s) := by
  have hR := steady_upholds s
  have hpost : ∀ r : Request, Keeps (Upholds s) (post s r) := fun r =>
    .change fun w => (hushes_post w s r).upholds
  refine .bind hR (.get hR) fun w => ?_
  dsimp only
  split
  · exact .pure hR _
  · refine .bind hR (hpost _) fun _ => .bind hR (.forIn hR (fun x _ => ?_) _ _) fun _ =>
      .bind hR (hpost _) fun _ => upholds_endSession
    split
    · exact .bind hR (.bind hR (.get hR) fun w => hpost _) fun _ => .pure hR _
    · exact .pure hR _

/-- Every event leaves a tree in order. -/
theorem attains_applyEvent (h : Intact s w) (e : Event) :
    Attains (Upholds s) (applyEvent s e) w fun _ _ => True := by
  have hR := steady_upholds s
  have hshown : ∀ stack, ∀ a ∈ (w.session s).options.shownStack stack,
      (w.session s).options.showDynamicCode = true ∨ a.script.dynamic = false := by
    intro stack a ha
    unfold LaunchOptions.shownStack at ha
    split at ha
    · next hshow => exact .inl hshow
    · exact .inr (by simpa using (List.mem_filter.mp ha).2)
  have hdone : ∀ {op : Act Unit} {u : World}, Keeps (Hushes s) op →
      Attains (Upholds s) op u fun _ _ => True :=
    fun hop => (hop.upholds.attains _).mono fun _ _ _ _ => trivial
  cases e with
  | engineStarted => exact (attains_ensureProcess h).mono fun _ _ _ _ => trivial
  | scriptReady script thread root =>
      refine .bind hR (attains_ensureProcess h) fun _ v hv hp => ?_
      rw [scriptReady_eq]
      have hanswer : ∀ i, Keeps (Hushes s) (answerThread s script root i) := fun i =>
        keeps_answerThread (steady_hushes s)
          (fun w => hushes_modifySession w s _ fun _ => ⟨rfl, rfl, rfl⟩)
          (fun w r _ => hushes_post w s r) root i
      exact .bind hR (attains_greetThread (hv.intact h) hp thread) fun i _ _ _ => hdone (hanswer i)
  | threadCreated thread =>
      exact .bind hR (attains_threadOf h thread) fun _ v _ _ => .pure (hR.refl v) trivial
  | threadTerminated thread =>
      exact .bind hR (attains_ensureProcess h) fun _ v hv hp =>
        attains_threadTerminated (hv.intact h) hp thread
  | suspended thread reason stack =>
      refine .get_bind (.bind hR (attains_threadOf h thread) fun i v hv _ => ?_)
      obtain ⟨hintact, hlasts⟩ := hv h
      exact attains_threadSuspended hintact i reason (hlasts.options ▸ hshown stack)
  | resumed thread kind =>
      exact .bind hR (attains_threadOf h thread) fun i v _ _ => attains_threadResumed v i kind
  | stackFrames thread stack =>
      refine .get_bind (.bind hR (attains_threadOf h thread) fun i v hv _ => ?_)
      obtain ⟨hintact, hlasts⟩ := hv h
      exact attains_setStack hintact i (hlasts.options ▸ hshown stack)
  | frameVariables frame reported =>
      exact hdone (hushes_withInHand frame (hushes_setVariables frame reported))
  | evaluated expression frame result listener =>
      exact hdone (keeps_evaluated (steady_hushes s)
        (hushes_withInHand frame (hushes_deliverResult listener _)))
  | engineTerminated => exact (upholds_endSession.attains w).mono fun _ _ _ _ => trivial

/-- A session hears of events only while it is attached. -/
theorem upholds_handleEvent (e : Event) : Keeps (Upholds s) (handleEvent s e) := by
  intro w h
  have hR := steady_upholds s
  have hend : Attains (Upholds s) (handleEvent s e) w fun _ _ => True := by
    refine .get_bind ?_
    split
    · have htrace := (hushes_trace (s := s) w "model" ("process " ++ e.text w.marks)).upholds
      exact .change_bind hR htrace (attains_applyEvent (htrace.intact h) e)
    · exact .pure (hR.refl w) trivial
  exact hend.related h

end Tree

/-! ### Whatever happens -/

/-- What may happen to the model of a session. -/
inductive Happening where
  | heard (e : Event)
  | disconnected
  /-- It has no dispatcher any more. -/
  | detached
  /-- It has a dispatcher, with the mailbox of that. -/
  | attached (box : Mailbox Message)

/-- What comes of it. Front ends may fail. -/
def Happening.after (s : Nat) (w : World) : Happening → World
  | .heard e => worldAfter (handleEvent s e) w
  | .disconnected => worldAfter (disconnect s) w
  | .detached => w.modifySession s fun session => { session with attached := false }
  | .attached box =>
    w.modifySession s fun session => { session with attached := true, mailbox := box }

/-- What comes of several things, one after the other. -/
def World.afterAll (w : World) (s : Nat) (hs : List Happening) : World :=
  hs.foldl (Happening.after s) w

section Runs

variable {s : Nat} {w : World}

/-- Whatever happens, trees stay in order. -/
theorem upholds_after (w : World) (h : Happening) : Upholds s w (h.after s w) := by
  cases h with
  | heard e => exact upholds_handleEvent e w
  | disconnected => exact upholds_disconnect w
  | detached =>
      exact (hushes_modifySession w s (fun x => { x with attached := false })
        fun _ => ⟨rfl, rfl, rfl⟩).upholds
  | attached box =>
      exact (hushes_modifySession w s (fun x => { x with attached := true, mailbox := box })
        fun _ => ⟨rfl, rfl, rfl⟩).upholds

/-- Trees are in order after all that happens. -/
theorem upholds_afterAll (w : World) (hs : List Happening) : Upholds s w (w.afterAll s hs) := by
  induction hs generalizing w with
  | nil => exact (steady_upholds s).refl w
  | cons h hs ih => exact (steady_upholds s).trans (upholds_after w h) (ih _)

/-- Before the interpreter is heard of, everything is in order. -/
theorem intact_of_unheard (hp : (w.session s).process = none)
    (hn : ∀ m, w.timesTold s m = 0) : Intact s w := by
  refine ⟨?_, fun m => (hn m).symm ▸ Nat.zero_le 1, fun m _ => hn m⟩
  unfold Session.Neat
  rw [threads_eq_nil hp]
  exact neat_nil

/-- The tree of a session stays in order whatever happens to its model, in any order, and wherever its
front end fails. The process is never replaced, and threads stay what they were at their places. Each
has a handle of its own, and a thread that is gone is gone for good. The frames of a thread are
different ones, and if the thread is gone there are none; code that was made at run time shows only if
the options ask for it. The front end is told of each milestone once at most. -/
theorem keeps_order (hp : (w.session s).process = none) (hn : ∀ m, w.timesTold s m = 0)
    (before after : List Happening) :
    (∀ p, ((w.afterAll s before).session s).process = some p →
        ∃ p', ((w.afterAll s (before ++ after)).session s).process = some p' ∧ p.Lasts p')
      ∧ Numbered ((w.afterAll s (before ++ after)).session s).threads
      ∧ (∀ t ∈ ((w.afterAll s (before ++ after)).session s).threads,
        (t.state = .terminated → t.frames = [])
          ∧ t.frames.Pairwise (fun f g => f.index ≠ g.index)
          ∧ ((w.session s).options.showDynamicCode = false →
            ∀ f ∈ t.frames, f.activation.script.dynamic = false))
      ∧ ∀ m, (w.afterAll s (before ++ after)).timesTold s m ≤ 1 := by
  have hall : w.afterAll s (before ++ after) = (w.afterAll s before).afterAll s after :=
    List.foldl_append
  have hstart := intact_of_unheard hp hn
  obtain ⟨hbefore, hlasts⟩ := upholds_afterAll w before hstart
  obtain ⟨hafter, hlasts'⟩ := upholds_afterAll (w.afterAll s before) after hbefore
  rw [hall]
  refine ⟨hlasts'.process, hafter.neat.numbered, fun t ht => ?_, hafter.once⟩
  have hneat := hafter.neat.each t ht
  refine ⟨fun hgone => hneat.bare (decide_eq_true hgone), List.pairwise_map.mp hneat.distinct,
    fun hoff f hf => ?_⟩
  refine (hneat.shown f hf).resolve_left ?_
  rw [hlasts'.options, hlasts.options, hoff]
  decide

/-- A session whose front end fails whenever it is told of a new frame. -/
def touchy : World :=
  worldAfter (startSession .off 0 true) { World.start with
    reaction := fun _ n =>
      match n with
      | .model _ (.created (.frame _)) _ => some "no frames"
      | _ => none }

/-- A thread is suspended twice at one place, and the news of it is broken off. -/
theorem keeps_order_touchy :
    let suspended : Event := .suspended ⟨0, "main"⟩ .breakpoint [⟨0, ⟨1, "a", none, false⟩, .function, none⟩]
    let w := touchy.afterAll 0 ([.attached ∅, .heard suspended] ++ [.heard suspended, .disconnected])
    (∀ t ∈ (w.session 0).threads, t.state = .terminated → t.frames = [])
      ∧ (∀ m, w.timesTold 0 m ≤ 1) ∧ w.timesTold 0 (.frame 0) = 1 := by
  have hn : ∀ m, touchy.timesTold 0 m = 0 := fun m => by cases m <;> rfl
  obtain ⟨-, -, hthreads, hall⟩ := keeps_order (by decide +kernel) hn _ _
  exact ⟨fun t ht => (hthreads t ht).1, hall, by decide +kernel⟩

end Runs

end DebugBridge
