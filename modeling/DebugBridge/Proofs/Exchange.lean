import DebugBridge.Proofs.Renewal
import Mathlib.Data.List.Forall2

/-!
# Frames that a reported stack exchanges

A reported stack replaces the frames of its thread. A stack may have one activation several times, and
so may the stack before. As many frames of an activation stay as both stacks have room for, the first
ones first; what is left over on the old stack is gone, and what is left over on the new one is new.

## Main definitions

* `framesFor`: the frames that stand for an activation;
* `World.Stocked`: frames of a thread that their numbers tell apart;
* `World.Recounts`: a step of which the front end was told, and that leaves no more behind;
* `World.Exchanges`: a step that exchanges the frames of a thread.

## Main results

* `framesFor_reused`, `reused_eq_filter`, `created_eq_filter`, `gone_eq_filter`: which frames stay, are
  new and are gone;
* `exchanges_setStack`: a reported stack exchanges the frames of its thread, and the front end is told
  of each of them.
-/

namespace DebugBridge

/-! ### Which frames stay -/

/-- The frames that stand for an activation. -/
def framesFor (id : Nat) (fs : List FrameRef) : List FrameRef :=
  fs.filter (·.activation.id = id)

/-- A frame for the activation is the first of those for it. -/
theorem framesFor_cons_self {id : Nat} {f : FrameRef} (h : f.activation.id = id)
    (fs : List FrameRef) : framesFor id (f :: fs) = f :: framesFor id fs :=
  List.filter_cons_of_pos (by simpa using h)

/-- A frame for another activation is none of those for it. -/
theorem framesFor_cons_of_ne {id : Nat} {f : FrameRef} (h : f.activation.id ≠ id)
    (fs : List FrameRef) : framesFor id (f :: fs) = framesFor id fs :=
  List.filter_cons_of_neg (by simpa using h)

/-- The frames for an activation are sought in one list after the other. -/
theorem framesFor_append (id : Nat) (fs gs : List FrameRef) :
    framesFor id (fs ++ gs) = framesFor id fs ++ framesFor id gs :=
  List.filter_append fs gs

section Pick

variable {a : Activation} {old others : List FrameRef} {f : FrameRef}

/-- The frame that is picked is the first one of its activation. -/
theorem framesFor_of_pick? (h : FrameChange.pick? a old = some (f, others)) (id : Nat) :
    framesFor id old = if a.id = id then f :: framesFor id others else framesFor id others := by
  obtain ⟨hf, before, after, rfl, rfl, hbefore⟩ := split_of_pick? h
  rw [framesFor_append, framesFor_append]
  split
  · next ha =>
      have hnone : framesFor id before = [] :=
        List.filter_eq_nil_iff.mpr fun g hg => by simpa [← ha] using hbefore g hg
      rw [hnone, framesFor_cons_self (hf.trans ha)]
      rfl
  · next ha => rw [framesFor_cons_of_ne (hf ▸ ha)]

/-- Where no frame is picked, none stands for the activation. -/
theorem framesFor_of_pick?_eq_none (h : FrameChange.pick? a old = none) :
    framesFor a.id old = [] := by
  induction old with
  | nil => rfl
  | cons g old ih =>
      rw [FrameChange.pick?] at h
      split at h
      · cases h
      · next hg =>
          rw [framesFor_cons_of_ne hg]
          exact ih (Option.map_eq_none_iff.mp h)

/-- The frames that are not picked stay in their order. -/
theorem sublist_of_pick? (h : FrameChange.pick? a old = some (f, others)) : others.Sublist old := by
  obtain ⟨-, before, after, rfl, rfl, -⟩ := split_of_pick? h
  exact (List.sublist_cons_self f after).append_left before

end Pick

section Stack

variable {s : Nat} {handle : Handle} {stack : List Activation} {old : List FrameRef} {count : Nat}

/-- As many frames of an activation stay as it is on the reported stack, the first ones first. -/
theorem framesFor_reused (id : Nat) (stack : List Activation) (old : List FrameRef) (count : Nat) :
    framesFor id (FrameChange.of s handle old count stack).reused
      = (framesFor id old).take ((activationIds stack).count id) := by
  induction stack generalizing old count with
  | nil => rfl
  | cons a stack ih =>
      rw [FrameChange.of, activationIds, List.map_cons, List.count_cons]
      cases hp : FrameChange.pick? a old with
      | some found =>
          obtain ⟨f, others⟩ := found
          have hrest := ih others count
          have hf := id_of_pick? hp
          rw [framesFor_of_pick? hp]
          by_cases ha : a.id = id
          · rw [if_pos ha, if_pos (by simpa using ha), List.take_succ_cons,
              framesFor_cons_self (hf.trans ha), hrest, activationIds]
          · rw [if_neg ha, if_neg (by simpa using ha), framesFor_cons_of_ne (hf ▸ ha), hrest,
              activationIds, Nat.add_zero]
      | none =>
          have hrest := ih old (count + 1)
          by_cases ha : a.id = id
          · have hnone : framesFor id old = [] := ha ▸ framesFor_of_pick?_eq_none hp
            rw [hnone, List.take_nil] at hrest ⊢
            exact hrest
          · rw [if_neg (by simpa using ha), Nat.add_zero]
            exact hrest

/-- The old frames are those that stay and those that are gone. -/
theorem perm_reused_gone (s : Nat) (handle : Handle) (stack : List Activation) (old : List FrameRef)
    (count : Nat) : old.Perm ((FrameChange.of s handle old count stack).reused
      ++ (FrameChange.of s handle old count stack).gone) := by
  induction stack generalizing old count with
  | nil => exact .refl old
  | cons a stack ih =>
      rw [FrameChange.of]
      cases hp : FrameChange.pick? a old with
      | some found => exact (perm_of_pick? hp).trans ((ih found.2 count).cons found.1)
      | none => exact ih old (count + 1)

/-- The frames that are gone are some of the old ones, in their order. -/
theorem gone_sublist (s : Nat) (handle : Handle) (stack : List Activation) (old : List FrameRef)
    (count : Nat) : (FrameChange.of s handle old count stack).gone.Sublist old := by
  induction stack generalizing old count with
  | nil => exact .refl old
  | cons a stack ih =>
      rw [FrameChange.of]
      cases hp : FrameChange.pick? a old with
      | some found => exact (ih found.2 count).trans (sublist_of_pick? hp)
      | none => exact ih old (count + 1)

/-- The frames of a reported stack stand for its activations, one for one. -/
theorem forall₂_frames_of (s : Nat) (handle : Handle) (stack : List Activation) (old : List FrameRef)
    (count : Nat) :
    List.Forall₂ (fun f a => f.activation.id = a.id ∧ (f ∈ old ∨ f.activation = a))
      (FrameChange.of s handle old count stack).frames stack := by
  induction stack generalizing old count with
  | nil => exact .nil
  | cons a stack ih =>
      rw [FrameChange.of]
      cases hp : FrameChange.pick? a old with
      | some found =>
          obtain ⟨hf, hothers⟩ := mem_of_pick? hp
          exact .cons ⟨id_of_pick? hp, .inl hf⟩
            ((ih found.2 count).imp fun g b h => ⟨h.1, h.2.imp_left (hothers g)⟩)
      | none => exact .cons ⟨rfl, .inr rfl⟩ (ih old (count + 1))

/-- Among the frames of a reported stack the numbers tell those that stay from those that are new. -/
theorem filter_frames_of {n : Nat} (hold : ∀ f ∈ old, f.index < n) (hn : n ≤ count) :
    (FrameChange.of s handle old count stack).frames.filter (·.index < n)
        = (FrameChange.of s handle old count stack).reused
      ∧ (FrameChange.of s handle old count stack).frames.filter (fun f => !f.index < n)
        = (FrameChange.of s handle old count stack).created := by
  induction stack generalizing old count with
  | nil => exact ⟨rfl, rfl⟩
  | cons a stack ih =>
      rw [FrameChange.of]
      cases hp : FrameChange.pick? a old with
      | some found =>
          obtain ⟨hf, hothers⟩ := mem_of_pick? hp
          have hlt : found.1.index < n := hold found.1 hf
          obtain ⟨hreused, hcreated⟩ := ih (fun g hg => hold g (hothers g hg)) hn
          refine ⟨?_, ?_⟩
          · rw [List.filter_cons_of_pos (by simpa using hlt), hreused]
          · rw [List.filter_cons_of_neg (by simpa using hlt), hcreated]
      | none =>
          have hge : ¬count < n := Nat.not_lt_of_le hn
          obtain ⟨hreused, hcreated⟩ := ih hold (Nat.le_succ_of_le hn)
          refine ⟨?_, ?_⟩
          · rw [List.filter_cons_of_neg (by simpa using hge), hreused]
          · rw [List.filter_cons_of_pos (by simpa using hge), hcreated]

/-- Frames of a reported stack were there before if their numbers were given out before. -/
theorem mem_old_iff (hold : ∀ f ∈ old, f.index < count) {f : FrameRef}
    (hf : f ∈ (FrameChange.of s handle old count stack).frames) : f ∈ old ↔ f.index < count := by
  refine ⟨hold f, fun hlt => ?_⟩
  obtain ⟨hf, -⟩ | hf := mem_frames_of hf
  · exact hf
  · exact absurd hlt (Nat.not_lt_of_le (created_of hf).2.2.1)

/-- The frames that stay are those of the reported stack that were there before. -/
theorem reused_eq_filter (hold : ∀ f ∈ old, f.index < count) :
    (FrameChange.of s handle old count stack).reused
      = (FrameChange.of s handle old count stack).frames.filter (· ∈ old) := by
  rw [← (filter_frames_of hold (Nat.le_refl count)).1]
  exact List.filter_congr fun f hf => by simp [mem_old_iff hold hf]

/-- The new frames are those of the reported stack that were not there before. -/
theorem created_eq_filter (hold : ∀ f ∈ old, f.index < count) :
    (FrameChange.of s handle old count stack).created
      = (FrameChange.of s handle old count stack).frames.filter (· ∉ old) := by
  rw [← (filter_frames_of hold (Nat.le_refl count)).2]
  exact List.filter_congr fun f hf => by simp only [mem_old_iff hold hf, decide_not]

/-- A part of a list without repetitions is what the list has of it, in its order. -/
theorem filter_mem_of_sublist {α : Type} [DecidableEq α] {xs ys : List α} (h : xs.Sublist ys)
    (hd : ys.Nodup) : ys.filter (· ∈ xs) = xs := by
  induction h with
  | slnil => rfl
  | @cons xs ys y h ih =>
      obtain ⟨hy, hd⟩ := List.nodup_cons.mp hd
      have hnot : y ∉ xs := fun hmem => hy (h.subset hmem)
      rw [List.filter_cons_of_neg (by simpa using hnot), ih hd]
  | @cons_cons xs ys y h ih =>
      obtain ⟨hy, hd⟩ := List.nodup_cons.mp hd
      have hsame : ys.filter (· ∈ y :: xs) = ys.filter (· ∈ xs) := by
        refine List.filter_congr fun z hz => ?_
        have hne : z ≠ y := fun he => hy (he ▸ hz)
        simp [hne]
      rw [List.filter_cons_of_pos (by simp), hsame, ih hd]

/-- The frames that are gone are the old ones that are not on the reported stack. -/
theorem gone_eq_filter (hold : ∀ f ∈ old, f.index < count) (hd : old.Nodup) :
    (FrameChange.of s handle old count stack).gone
      = old.filter (· ∉ (FrameChange.of s handle old count stack).frames) := by
  let c := FrameChange.of s handle old count stack
  have hperm : old.Perm (c.reused ++ c.gone) := perm_reused_gone s handle stack old count
  have hreused : c.reused = c.frames.filter (· ∈ old) := reused_eq_filter hold
  have hapart := (List.nodup_append.mp (hperm.nodup_iff.mp hd)).2.2
  have hmem : ∀ f ∈ old, f ∈ c.gone ↔ f ∉ c.frames := by
    intro f hf
    have hstays : f ∈ c.frames ↔ f ∈ c.reused := by simp [hreused, hf]
    rw [hstays]
    refine ⟨fun hg hr => hapart f hr f hg rfl, fun hr => ?_⟩
    exact (List.mem_append.mp (hperm.mem_iff.mp hf)).resolve_left hr
  calc c.gone = old.filter (· ∈ c.gone) :=
        (filter_mem_of_sublist (gone_sublist s handle stack old count) hd).symm
    _ = old.filter (· ∉ c.frames) := List.filter_congr fun f hf => by simp [hmem f hf]

end Stack

/-! ### What the front end is told -/

namespace World

variable {s : Nat} {u v w w' : World} {ns ns' : List Notice}

/-- What a front end is told that listens. -/
def told (w : World) (s : Nat) (ns : List Notice) : List Note :=
  if (w.session s).alive && (w.session s).observed then
    ns.map fun n => .model s n (w.noticeText s n)
  else []

/-- What is told in two parts is told in one. -/
theorem told_append (w : World) (s : Nat) (ns ns' : List Notice) :
    w.told s (ns ++ ns') = w.told s ns ++ w.told s ns' := by
  unfold told
  split
  · rw [List.map_append]
  · rfl

/-- How a notification reads depends on the handles of threads and on where activations are. -/
theorem noticeText_congr (hm : w'.marks = w.marks)
    (hh : ∀ i, (w'.thread s i).handle = (w.thread s i).handle) (n : Notice) :
    w'.noticeText s n = w.noticeText s n := by
  have hname : ∀ i, w'.threadName s i = w.threadName s i := fun i =>
    congrArg ("Thread: " ++ ·.name) (hh i)
  have helement : ∀ e, w'.elementText s e = w.elementText s e := by
    intro e
    unfold elementText
    rw [hm]
    cases e with
    | thread i => exact congrArg ("Thread(" ++ · ++ ")") (hname i)
    | target | process | frame => rfl
  unfold noticeText
  cases n with
  | created e | terminated e | changed e => simp only [helement]
  | suspended i | resumed i => simp only [hname]

/-- What is told depends on whether the front end is there and listens, on what was marked, and on
the names of the threads. -/
theorem told_congr (ha : (w'.session s).alive = (w.session s).alive)
    (ho : (w'.session s).observed = (w.session s).observed) (hm : w'.marks = w.marks)
    (hh : ∀ i, (w'.thread s i).handle = (w.thread s i).handle) (ns : List Notice) :
    w'.told s ns = w.told s ns := by
  have htext : w'.noticeText s = w.noticeText s := funext (noticeText_congr hm hh)
  unfold told
  rw [ha, ho, htext]

/-- A step of which the front end was told, and that leaves nothing else behind but frames that are out
of date. -/
structure Recounts (s : Nat) (ns : List Notice) (w w' : World) : Prop extends Still w w' where
  marks : w'.marks = w.marks
  heap : w'.heap = w.heap
  known : ∀ k, ((w'.session s).frames.get k).known = ((w.session s).frames.get k).known
  notes : w'.journal.notes.toList = w.journal.notes.toList ++ w.told s ns

/-- Where nothing is told, the world is what it was. -/
theorem Recounts.refl (s : Nat) (w : World) : Recounts s [] w w :=
  ⟨steady_still.refl w, rfl, rfl, fun _ => rfl, by simp [told]⟩

/-- What a step tells changes nothing in how the front end is told of more. -/
theorem Recounts.told_eq (h : Recounts s ns w w') (ns' : List Notice) :
    w'.told s ns' = w.told s ns' := by
  refine told_congr (congrArg Session.alive (h.everywhere s) :)
    (congrArg Session.observed (h.everywhere s) :) h.marks (fun i => ?_) ns'
  rw [thread, thread, Session.thread, Session.thread, threads_of_still h.toStill]

/-- What two steps tell is told one after the other. -/
theorem Recounts.trans (h : Recounts s ns u v) (h' : Recounts s ns' v w) :
    Recounts s (ns ++ ns') u w := by
  refine ⟨steady_still.trans h.toStill h'.toStill, h'.marks.trans h.marks, h'.heap.trans h.heap,
    fun k => (h'.known k).trans (h.known k), ?_⟩
  rw [h'.notes, h.notes, h.told_eq, told_append, List.append_assoc]

end World

section Calm

open World

variable {s : Nat} {w : World}

/-- To notify tells that notice and nothing else. -/
theorem recounts_notify (hc : w.Calm) (notice : Notice) :
    Ends (notify s notice) w fun _ w' => Recounts s [notice] w w' := by
  have hrun := run_notify s notice w
  cases hl : (w.session s).alive && (w.session s).observed with
  | false =>
      rw [hl] at hrun
      exact ⟨(), w, hrun, { Recounts.refl s w with notes := by simp [told, hl] }⟩
  | true =>
      rw [hl, if_pos rfl] at hrun
      dsimp only at hrun
      rw [hc] at hrun
      refine ⟨(), _, hrun, .of_sessions rfl rfl rfl (Nat.le_refl _), rfl, rfl, fun _ => rfl, ?_⟩
      simp [told, hl, note, Journal.note]

/-- What is told for each element of a list is told for all of them, in their order. -/
theorem recounts_forM {α : Type} {op : α → Act Unit} {f : α → Notice} {xs : List α}
    (hop : ∀ x ∈ xs, ∀ u : World, u.Calm → Ends (op x) u fun _ v => Recounts s [f x] u v)
    (hc : w.Calm) : Ends (xs.forM op) w fun _ w' => Recounts s (xs.map f) w w' := by
  induction xs generalizing w with
  | nil => exact Ends.pure (.refl s w)
  | cons x xs ih =>
      refine Ends.bind ((hop x List.mem_cons_self w hc).mono fun _ u hu => ?_)
      refine (ih (fun y hy => hop y (List.mem_cons_of_mem x hy)) (hc.still hu.toStill)).mono ?_
      exact fun _ w' h => hu.trans h

/-- To notify of each of several things tells all of it, in that order. -/
theorem recounts_notices {α : Type} (hc : w.Calm) (f : α → Notice) (xs : List α) :
    Ends (xs.forM fun x => notify s (f x)) w fun _ w' => Recounts s (xs.map f) w w' :=
  recounts_forM (fun x _ _ hc => recounts_notify hc (f x)) hc

/-- To mark a frame as out of date tells that its content changed. -/
theorem recounts_setDirty (hc : w.Calm) {f : FrameRef} (hf : f.session = s) :
    Ends (setDirty f) w fun _ w' => Recounts s [.changed (.frame f) .content] w w' := by
  subst hf
  let u := w.modifyFrame f fun state => { state with dirty := true }
  have hu : Recounts f.session [] w u := by
    refine ⟨still_modifyFrame w f _, rfl, rfl, fun k => ?_, by simp [told, u, modifyFrame, modifySession]⟩
    simp only [u, modifyFrame, session_modifySession, if_true, Arena.get_modify]
    split
    · next hk => rw [hk]
    · rfl
  refine Ends.bind (Ends.change ?_)
  exact (recounts_notify (hc.still hu.toStill) _).mono fun _ w' h => hu.trans h

end Calm

/-! ### Frames that are exchanged -/

namespace World

variable {s i : Nat} {t : Thread} {stack : List Activation} {new : List FrameRef} {w w' : World}

/-- How a reported stack changes the frames of a thread. -/
def changeOf (w : World) (s i : Nat) (stack : List Activation) : FrameChange :=
  .of s (w.thread s i).handle (w.thread s i).frames (w.session s).frames.size stack

/-- A thread of a session whose frames are frames of the session, each with a number of its own. -/
structure Stocked (w : World) (s : Nat) (t : Thread) : Prop where
  own : ∀ f ∈ t.frames, f.session = s
  given : ∀ f ∈ t.frames, f.index < (w.session s).frames.size
  distinct : (t.frames.map FrameRef.index).Nodup

/-- What a front end is told when frames of a thread are exchanged: of each frame that stays, of each
that is new, of each that is gone, and of the thread. -/
def exchangeNotices (i : Nat) (old new : List FrameRef) : List Notice :=
  (new.filter (· ∈ old)).map (fun f => .changed (.frame f) .content)
    ++ (new.filter (· ∉ old)).map (fun f => .created (.frame f))
    ++ (old.filter (· ∉ new)).map (fun f => .terminated (.frame f))
    ++ [.changed (.thread i) .content]

/-- A step that exchanges the frames of a thread for those of a reported stack. -/
structure Exchanges (s i : Nat) (t : Thread) (stack : List Activation) (new : List FrameRef)
    (w w' : World) : Prop where
  /-- There is one frame for each activation, in their order. One that is not from the old stack has
  the activation that was reported. -/
  stands : List.Forall₂ (fun f a => f.activation.id = a.id ∧ (f ∈ t.frames ∨ f.activation = a)) new stack
  /-- No frame is there twice. -/
  distinct : (new.map FrameRef.index).Nodup
  /-- The first of the old frames of each activation stay, as many as the new stack has room for. -/
  stay : ∀ id, framesFor id (new.filter (· ∈ t.frames))
    = (framesFor id t.frames).take ((activationIds stack).count id)
  /-- All other frames never were there before, and nothing is known of them. -/
  fresh : ∀ f ∈ new, f ∉ t.frames → f.session = s ∧ f.handle = t.handle
    ∧ (w.session s).frames.size ≤ f.index ∧ (w'.frame f).known = []
  /-- All frames are out of date. -/
  dirty : ∀ f ∈ new, (w'.frame f).dirty = true
  /-- Frames that stay keep their variables, and so do those that are gone. -/
  known : ∀ f ∈ t.frames, (w'.frame f).known = (w.frame f).known
  heap : w'.heap = w.heap
  /-- The thread has the new frames. -/
  threads : (w'.session s).threads = (w.session s).threads.modify i fun t => { t with frames := new }
  /-- The front end is told of all that, in this order. -/
  notes : w'.journal.notes.toList
    = w.journal.notes.toList ++ w.told s (exchangeNotices i t.frames new)

/-- Frames for which room is made are those of which something is forgotten. -/
theorem frames_makeRoom {fs : List FrameRef} (w : World) {k : Nat} (hk : ∀ f ∈ fs, f.index ≠ k) :
    ((fs.foldl (fun w f => w.modifyFrame f fun _ => default) w).session s).frames.get k
      = (w.session s).frames.get k := by
  induction fs generalizing w with
  | nil => rfl
  | cons f fs ih =>
      rw [List.foldl_cons, ih _ fun g hg => hk g (List.mem_cons_of_mem f hg), modifyFrame,
        session_modifySession]
      split
      · next hs =>
          have hf := hk f List.mem_cons_self
          simp only [Arena.get_modify, if_neg hf, hs]
      · rfl

/-- Room that is made shows in what is known of frames alone. -/
theorem sight_makeRoom (fs : List FrameRef) (w : World) :
    (fs.foldl (fun w f => w.modifyFrame f fun _ => default) w).heap = w.heap
      ∧ (fs.foldl (fun w f => w.modifyFrame f fun _ => default) w).marks = w.marks
      ∧ (fs.foldl (fun w f => w.modifyFrame f fun _ => default) w).journal = w.journal := by
  induction fs generalizing w with
  | nil => exact ⟨rfl, rfl, rfl⟩
  | cons f fs ih => exact ih _

/-- A thread that gets other frames is told of as before. -/
theorem told_putFrames (w : World) (s i : Nat) (c : FrameChange) (ns : List Notice) :
    (w.putFrames s i c).told s ns = w.told s ns := by
  let v := c.created.foldl (fun w f => w.modifyFrame f fun _ => default) w
  have hroom : Plain w v := plain_makeRoom c.created w
  have hself : (w.putFrames s i c).session s
      = (v.session s).modifyThread i fun t => { t with frames := c.frames } := by
    rw [putFrames, modifyThread, session_modifySession, if_pos rfl]
  have hmarks : (w.putFrames s i c).marks = w.marks := hroom.marks
  refine told_congr ?_ ?_ hmarks (fun k => ?_) ns
  · rw [hself]
    exact (congrArg Session.alive (hroom.everywhere s) :)
  · rw [hself]
    exact (congrArg Session.observed (hroom.everywhere s) :)
  · rw [thread, thread, Session.thread, Session.thread, threads_putFrames, List.getElem?_modify]
    cases (w.session s).threads[k]? with
    | none => rfl
    | some t => by_cases hk : i = k <;> simp [hk]

/-- Nothing is known of frames that are put in place as new ones. -/
theorem frame_putFrames_created {c : FrameChange} (hc : ∀ f ∈ c.created, f.session = s) (w : World)
    {f : FrameRef} (hf : f ∈ c.created) : (w.putFrames s i c).frame f = default := by
  rw [frame, hc f hf, frames_putFrames]
  exact (room_makeRoom hc w f hf).2

/-- What is known of other frames stays. -/
theorem frame_putFrames_of_ne {c : FrameChange} (w : World) {f : FrameRef} (hs : f.session = s)
    (hf : ∀ g ∈ c.created, g.index ≠ f.index) : (w.putFrames s i c).frame f = w.frame f := by
  rw [frame, frame, hs, frames_putFrames, frames_makeRoom w hf]

end World

/-- Tells the front end how the frames of a thread changed. -/
def tellExchange (s i : Nat) (c : FrameChange) : Act Unit := do
  c.reused.forM setDirty
  c.created.forM fun f => notify s (.created (.frame f))
  c.gone.forM fun f => notify s (.terminated (.frame f))
  notify s (.changed (.thread i) .content)

section Calm

open World

variable {s i : Nat} {t : Thread} {w : World}

/-- A reported stack puts frames in the place of others, and then the front end is told. -/
theorem run_setStack (hgone : (w.thread s i).isTerminated = false) (stack : List Activation) :
    setStack s i stack w = tellExchange s i (w.changeOf s i stack)
      ((w.trace "model" ((w.thread s i).name ++ ": " ++ (w.changeOf s i stack).summary)).putFrames s i
        (w.changeOf s i stack)) := by
  unfold setStack
  rw [run_get_bind]
  dsimp only
  rw [if_neg (by simp [hgone])]
  rfl

/-- The front end is told of the frames that stay, are new and are gone, and of their thread. -/
theorem recounts_tellExchange (hc : w.Calm) {c : FrameChange} (hs : ∀ f ∈ c.reused, f.session = s) :
    Ends (tellExchange s i c) w fun _ w' =>
      Recounts s (c.reused.map (fun f => .changed (.frame f) .content)
        ++ c.created.map (fun f => .created (.frame f))
        ++ c.gone.map (fun f => .terminated (.frame f)) ++ [.changed (.thread i) .content]) w w' := by
  have hreused := recounts_forM (fun f hf _ hc => recounts_setDirty hc (hs f hf)) hc
  refine Ends.bind (hreused.mono fun _ w₁ h₁ => ?_)
  refine Ends.bind ((recounts_notices (hc.still h₁.toStill) _ _).mono fun _ w₂ h₂ => ?_)
  have h₁₂ := h₁.trans h₂
  refine Ends.bind ((recounts_notices (hc.still h₁₂.toStill) _ _).mono fun _ w₃ h₃ => ?_)
  have h₁₃ := h₁₂.trans h₃
  exact (recounts_notify (hc.still h₁₃.toStill) _).mono fun _ w₄ h₄ => h₁₃.trans h₄

/-- A reported stack exchanges the frames of its thread, unless the thread is gone or a front end
fails. Frames stay as far as the stack has their activations, the first ones first; the others are new
or gone. The front end is told of each of them, and at last of the thread. -/
theorem exchanges_setStack (hc : w.Calm) (ht : (w.session s).threads[i]? = some t)
    (hgone : t.isTerminated = false) (hstock : w.Stocked s t) (stack : List Activation) :
    Ends (setStack s i stack) w fun _ w' => ∃ new, Exchanges s i t stack new w w' := by
  let c := FrameChange.of s t.handle t.frames (w.session s).frames.size stack
  let v := w.trace "model" (t.name ++ ": " ++ c.summary)
  let u := v.putFrames s i c
  have hthread : w.thread s i = t := thread_eq ht
  have hchange : w.changeOf s i stack = c := by rw [changeOf, hthread]
  have hreused : c.reused = c.frames.filter (· ∈ t.frames) := reused_eq_filter hstock.given
  have hcreated : c.created = c.frames.filter (· ∉ t.frames) := created_eq_filter hstock.given
  have hleft : c.gone = t.frames.filter (· ∉ c.frames) :=
    gone_eq_filter hstock.given (List.Nodup.of_map _ hstock.distinct)
  obtain ⟨hheap, hmarks, hjournal⟩ := sight_makeRoom c.created v
  have hcalm : u.Calm := fun notes n =>
    (congrFun (congrFun (plain_makeRoom c.created v).reaction notes) n).trans (hc notes n)
  have hthreads : (u.session s).threads
      = (w.session s).threads.modify i fun t => { t with frames := c.frames } := threads_putFrames v i c
  have hrun : Ends (setStack s i stack) w fun _ w' =>
      Recounts s (exchangeNotices i t.frames c.frames) u w' := by
    have hown : ∀ f ∈ c.reused, f.session = s := fun f hf => hstock.own f
      ((perm_reused_gone s t.handle stack t.frames _).mem_iff.mpr (List.mem_append_left _ hf))
    have hset : setStack s i stack w = tellExchange s i c u := by
      rw [run_setStack (hthread ▸ hgone), hchange, hthread]
    obtain ⟨_, w', hok, hw'⟩ := recounts_tellExchange (i := i) hcalm hown
    unfold exchangeNotices
    rw [← hreused, ← hcreated, ← hleft]
    exact ⟨(), w', hset.trans hok, hw'⟩
  refine (hrun.and (outdated_setStack hc i stack)).mono ?_
  rintro _ w' ⟨h, hdirty⟩
  have hplace : (w'.session s).threads[i]? = some { t with frames := c.frames } := by
    rw [threads_of_still h.toStill, hthreads, List.getElem?_modify_eq, ht]
    rfl
  have hknown : ∀ f : FrameRef, f.session = s → (w'.frame f).known = (u.frame f).known := by
    intro f hf
    rw [World.frame, World.frame, hf]
    exact h.known f.index
  refine ⟨c.frames, ?_⟩
  exact {
    stands := forall₂_frames_of s t.handle stack t.frames _
    distinct := nodup_frames_of stack hstock.distinct hstock.given
    stay := fun id => by rw [← hreused, framesFor_reused]
    fresh := fun f hf hnot => by
      have hf : f ∈ c.created := by simp [hcreated, hf, hnot]
      obtain ⟨hs, hhandle, hcount, -⟩ := created_of hf
      refine ⟨hs, hhandle, hcount, ?_⟩
      rw [hknown f hs, frame_putFrames_created (fun g hg => (created_of hg).1) v hf]
      rfl
    dirty := (hdirty _ hplace).resolve_left (by simpa [Thread.isTerminated] using hgone)
    known := fun f hf => by
      have hne : ∀ g ∈ c.created, g.index ≠ f.index := fun g hg =>
        Nat.ne_of_gt (Nat.lt_of_lt_of_le (hstock.given f hf) (created_of hg).2.2.1)
      rw [hknown f (hstock.own f hf), frame_putFrames_of_ne v (hstock.own f hf) hne]
      rfl
    heap := h.heap.trans hheap
    threads := (threads_of_still h.toStill).trans hthreads
    notes := by
      have hnotes : u.journal.notes = w.journal.notes := (congrArg Journal.notes hjournal :)
      rw [h.notes, hnotes, told_putFrames v s i c]
      rfl }

/-- A suspended thread that is at one place twice, once called from another place. -/
def recursing : World :=
  let step : Activation := ⟨0, ⟨1, "a", none, false⟩, .function, none⟩
  let top : Activation := ⟨1, ⟨1, "a", none, false⟩, .file, none⟩
  worldAfter (do
    let s ← startSession .off 0 true
    change (·.joinSides s)
    handleEvent s (.suspended ⟨0, "main"⟩ .breakpoint [step, step, top])) .start

/-- Of two frames at one place the first stays if the place is reported once. -/
theorem exchanges_setStack_recursing :
    let step : Activation := ⟨0, ⟨1, "a", none, false⟩, .function, none⟩
    let other : Activation := ⟨2, ⟨1, "a", none, false⟩, .function, none⟩
    let t := recursing.thread 0 0
    Ends (setStack 0 0 [other, step, other]) recursing fun _ w' => ∃ new,
      Exchanges 0 0 t [other, step, other] new recursing w'
        ∧ (framesFor 0 (new.filter (· ∈ t.frames))).map FrameRef.index = [0]
        ∧ (framesFor 0 t.frames).map FrameRef.index = [0, 1] := by
  have hstock : recursing.Stocked 0 (recursing.thread 0 0) :=
    ⟨by decide +kernel, by decide +kernel, by decide +kernel⟩
  refine (exchanges_setStack (fun _ _ => rfl) (by decide +kernel) (by decide +kernel) hstock _).mono ?_
  rintro _ w' ⟨new, h⟩
  refine ⟨new, h, ?_, by decide +kernel⟩
  rw [h.stay]
  decide +kernel

end Calm

end DebugBridge
