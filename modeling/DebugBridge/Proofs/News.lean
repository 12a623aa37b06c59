import DebugBridge.Proofs.Edits

/-!
# What subscribers are told of breakpoints

When a user edits a breakpoint and that changes something, every subscriber that is still held is told of it
under its number, one after the other, and each finds the flag of the breakpoint as it is. Clients note what
they are told. Nothing else that matters to a manager changes by that, so what there is to know of its
breakpoints changes exactly as the news says.

## Main definitions

* `News`, `Telling`: what is told, and who is told it under which number;
* `World.tellings`: what subscribers are told of a change, with the flags that they find then;
* `World.newsOf`, `World.tellingsOf`: what there is to tell of an edit, and who is told;
* `News.record`, `World.registered`: what a listener writes down, and what there is to know.

## Main results

* `conveys_edit`, `notes_edit`: to tell is to note, and to leave the rest;
* `tellingsOf_eq`, `manager_edit`: everybody who is held is told, and the others are forgotten;
* `registered_edit`: an edit changes what there is to know as its news says.
-/

namespace DebugBridge

/-- What is told of a breakpoint: what happened to it, and its flag after that. -/
structure News where
  change : BreakpointChange
  point : Breakpoint
  enabled : Bool
deriving DecidableEq, Repr

/-- One subscriber is told something. -/
structure Telling where
  /-- The number of the subscription. -/
  number : Nat
  who : Subscriber
  news : News
deriving DecidableEq, Repr

/-- The text of a breakpoint as it is told. -/
def News.text (y : News) : String :=
  y.point.resource.path ++ ":" ++ toString y.point.line ++ if y.enabled then "" else " (disabled)"

/-- What a listener makes of what it is told: it adds a breakpoint with its flag, takes it out, or turns its
flag over. -/
def News.record (r : List (Breakpoint × Bool)) (y : News) : List (Breakpoint × Bool) :=
  match y.change with
  | .added => r ++ [(y.point, y.enabled)]
  | .removed => r.filter fun e => e.1.id ≠ y.point.id
  | .changed => r.map fun e => if e.1.id = y.point.id then (e.1, !e.2) else e

namespace World

variable {w w' : World}

/-! ### Who is told what -/

/-- What subscribers are told of a change, one after the other, each with the flag that it finds. -/
def tellings (w : World) (p : Breakpoint) (c : BreakpointChange) : List (Nat × Subscriber) → List Telling
  | [] => []
  | e :: es => ⟨e.1, e.2, c, p, w.marks.isEnabled p⟩ :: (w.tell p c e.2).tellings p c es

/-- What is noted of it. Sessions note nothing. -/
def notesFor (w : World) (t : Telling) : List Note :=
  match t.who with
  | .client k => [.breakpoint (w.listeners.get k).name t.news.change t.news.text]
  | .session _ => []

/-- A step that notes something, and leaves everybody who is held, the managers and the flags. -/
structure Conveys (ns : List Note) (w w' : World) : Prop where
  held : ∀ who, w'.isLive who = w.isLive who
  listeners : w'.listeners = w.listeners
  managers : w'.managers = w.managers
  marks : w'.marks = w.marks
  notes : w'.journal.notes.toList = w.journal.notes.toList ++ ns

/-- A step that notes nothing conveys nothing. -/
theorem Conveys.refl (w : World) : Conveys [] w w :=
  ⟨fun _ => rfl, rfl, rfl, rfl, (List.append_nil _).symm⟩

/-- What is conveyed in two steps is conveyed in their order. -/
theorem Conveys.trans {ns ns' : List Note} {u : World} (h : Conveys ns u w) (h' : Conveys ns' w w') :
    Conveys (ns ++ ns') u w' where
  held who := (h'.held who).trans (h.held who)
  listeners := h'.listeners.trans h.listeners
  managers := h'.managers.trans h.managers
  marks := h'.marks.trans h.marks
  notes := by rw [h'.notes, h.notes, List.append_assoc]

/-- What is traced conveys nothing. -/
theorem conveys_trace (w : World) (topic text : String) : Conveys [] w (w.trace topic text) :=
  ⟨fun who => by cases who <;> rfl, rfl, rfl, rfl, (List.append_nil _).symm⟩

/-- A request that is sent conveys nothing. -/
theorem conveys_post (w : World) (s : Nat) (r : Request) : Conveys [] w (w.post s r) := by
  unfold post
  split
  · exact .refl w
  · split
    · refine ⟨fun who => ?_, rfl, rfl, rfl, (List.append_nil _).symm⟩
      cases who with
      | session t =>
          change ((w.send s (.request r)).session t).alive = (w.session t).alive
          rw [send, session_modifySession]
          split
          · next hst =>
              subst hst
              rfl
          · rfl
      | client k => rfl
    · exact conveys_trace w _ _

/-- A change of a breakpoint that is passed on conveys nothing to listeners. -/
theorem conveys_routeBreakpoint (w : World) (s : Nat) (p : Breakpoint) (c : BreakpointChange) :
    Conveys [] w (w.routeBreakpoint s p c) := by
  have hmodes : ∀ (script : Script) (modes : List BreakpointMode) (w : World), Conveys [] w
      (modes.foldl (fun w mode => w.post s (.breakpoint script p mode)) w) := by
    intro script modes
    induction modes with
    | nil => exact Conveys.refl
    | cons mode modes ih => exact fun w => (conveys_post w s _).trans (ih _)
  unfold routeBreakpoint
  split
  · exact .refl w
  · split
    · exact hmodes _ _ w
    · exact conveys_trace w _ _

/-- Who is told something notes it if it is a client. -/
theorem conveys_tell (w : World) (n : Nat) (p : Breakpoint) (c : BreakpointChange) (who : Subscriber) :
    Conveys (w.notesFor ⟨n, who, c, p, w.marks.isEnabled p⟩) w (w.tell p c who) := by
  cases who with
  | session s => exact conveys_routeBreakpoint w s p c
  | client k => exact ⟨fun who => by cases who <;> rfl, rfl, rfl, rfl, Array.toList_push⟩

/-- Subscribers are told one after the other, and clients note it. -/
theorem conveys_tellAll (p : Breakpoint) (c : BreakpointChange) (es : List (Nat × Subscriber)) (w : World) :
    Conveys ((w.tellings p c es).flatMap w.notesFor) w (w.tellAll p c es) := by
  induction es generalizing w with
  | nil => exact .refl w
  | cons e es ih =>
      have htold := conveys_tell w e.1 p c e.2
      have hsame : (w.tell p c e.2).notesFor = w.notesFor := by
        funext t
        rw [notesFor, htold.listeners, notesFor]
      have hlater := ih (w.tell p c e.2)
      rw [hsame] at hlater
      rw [tellings, List.flatMap_cons]
      exact htold.trans hlater

/-- All of them find the flag as it is. -/
theorem tellings_eq (w : World) (p : Breakpoint) (c : BreakpointChange) (es : List (Nat × Subscriber)) :
    w.tellings p c es = es.map fun e => ⟨e.1, e.2, c, p, w.marks.isEnabled p⟩ := by
  induction es generalizing w with
  | nil => rfl
  | cons e es ih => rw [tellings, ih, (conveys_tell w e.1 p c e.2).marks, List.map_cons]

/-! ### Edits -/

/-- What there is to tell of an edit. -/
def newsOf (w : World) (m : Nat) (x : Edit) : Option News :=
  (w.change? m x).map fun c => ⟨c, x.breakpoint, (w.edited m x).marks.isEnabled x.breakpoint⟩

/-- There is news of a breakpoint that is added if the manager does not have it. -/
theorem newsOf_add (w : World) (m : Nat) (p : Breakpoint) : w.newsOf m (.add p)
    = if (w.manager m).has p then none else some ⟨.added, p, w.marks.isEnabled p⟩ := by
  rw [newsOf, change?, edited]
  split <;> rfl

/-- There is news of a breakpoint that is removed if the manager has it. -/
theorem newsOf_remove (w : World) (m : Nat) (p : Breakpoint) : w.newsOf m (.remove p)
    = if (w.manager m).has p then some ⟨.removed, p, w.marks.isEnabled p⟩ else none := by
  rw [newsOf, change?, edited]
  split <;> rfl

/-- There is news of a breakpoint that is enabled or disabled if its flag changes and the manager
has it. -/
theorem newsOf_enable (w : World) (m : Nat) (p : Breakpoint) (enabled : Bool) :
    w.newsOf m (.enable p enabled)
      = if w.marks.isEnabled p ≠ enabled ∧ (w.manager m).has p then some ⟨.changed, p, enabled⟩
        else none := by
  have hflag : (w.marks.enable p enabled).isEnabled p = enabled := by
    rw [Marks.isEnabled_enable, if_pos rfl]
  rw [newsOf, change?, edited, Edit.breakpoint, hflag]
  split <;> rfl

/-- What was changed when the first subscriber is told of an edit, and who is forgotten. -/
def settled (w : World) (m : Nat) (x : Edit) : World :=
  match w.change? m x with
  | some _ => (w.edited m x).prune m
  | none => w.edited m x

/-- What subscribers are told of an edit. -/
def tellingsOf (w : World) (m : Nat) (x : Edit) : List Telling :=
  match w.change? m x with
  | some c => (w.settled m x).tellings x.breakpoint c ((w.edited m x).live m)
  | none => []

/-- Before anybody is told of it, an edit changes managers and flags alone. -/
theorem edited_eq (w : World) (m : Nat) (x : Edit) : w.edited m x
    = { w with managers := (w.edited m x).managers, marks := (w.edited m x).marks } := by
  cases x with
  | add p =>
      rw [edited]
      split <;> rfl
  | remove p =>
      rw [edited]
      split <;> rfl
  | enable p enabled => rfl

/-- What is settled first is managers and flags, and nothing else. -/
theorem settled_eq (w : World) (m : Nat) (x : Edit) : w.settled m x
    = { w with managers := (w.settled m x).managers, marks := (w.edited m x).marks } := by
  unfold settled
  cases w.change? m x with
  | none => exact edited_eq w m x
  | some c =>
      dsimp only
      rw [edited_eq]
      rfl

/-- An edit leaves subscribers held or not. -/
@[simp] theorem isLive_edited (w : World) (m : Nat) (x : Edit) (who : Subscriber) :
    (w.edited m x).isLive who = w.isLive who := by
  rw [edited_eq]
  cases who <;> rfl

/-- An edit leaves those who are held. -/
@[simp] theorem live_edited (w : World) (m : Nat) (x : Edit) : (w.edited m x).live m = w.live m := by
  rw [live, manager_edited]
  simp only [isLive_edited]
  rfl

/-- Subscribers are told of an edit when it is settled, and of nothing else. -/
theorem conveys_edit (w : World) (m : Nat) (x : Edit) :
    Conveys ((w.tellingsOf m x).flatMap w.notesFor) (w.settled m x) (w.edit m x) := by
  rw [edit_eq]
  unfold tellingsOf
  cases hc : w.change? m x with
  | none =>
      have hnothing : w.settled m x = w.edited m x := by rw [settled, hc]
      rw [hnothing]
      exact .refl _
  | some c =>
      have hforgotten : w.settled m x = (w.edited m x).prune m := by rw [settled, hc]
      have hsame : (w.settled m x).notesFor = w.notesFor := by
        rw [settled_eq]
        rfl
      have htold := conveys_tellAll x.breakpoint c ((w.edited m x).live m) (w.settled m x)
      rw [hsame] at htold
      dsimp only
      rw [announce_eq, ← hforgotten]
      exact htold

/-- After an edit and its tellings subscribers are held as before. -/
theorem isLive_edit (w : World) (m : Nat) (x : Edit) (who : Subscriber) :
    (w.edit m x).isLive who = w.isLive who := by
  rw [(conveys_edit w m x).held, settled_eq]
  cases who <;> rfl

/-- After an edit and its tellings listeners are those from before. -/
theorem listeners_edit (w : World) (m : Nat) (x : Edit) : (w.edit m x).listeners = w.listeners := by
  rw [(conveys_edit w m x).listeners, settled_eq]

/-- The tellings of an edit leave the flags that it made. -/
theorem marks_edit (w : World) (m : Nat) (x : Edit) : (w.edit m x).marks = (w.edited m x).marks := by
  rw [(conveys_edit w m x).marks, settled_eq]

/-- What is noted of an edit are its tellings, behind what was noted before. -/
theorem notes_edit (w : World) (m : Nat) (x : Edit) : (w.edit m x).journal.notes.toList
    = w.journal.notes.toList ++ (w.tellingsOf m x).flatMap w.notesFor := by
  rw [(conveys_edit w m x).notes, settled_eq]

/-- Who is told of an edit: everybody who is held, under the number of the subscription. -/
theorem tellingsOf_eq (w : World) (m : Nat) (x : Edit) : w.tellingsOf m x
    = (w.newsOf m x).toList.flatMap fun y => (w.live m).map fun e => ⟨e.1, e.2, y⟩ := by
  unfold tellingsOf newsOf
  cases w.change? m x with
  | none => rfl
  | some c =>
      have hmarks : (w.settled m x).marks = (w.edited m x).marks := by rw [settled_eq]
      dsimp only
      rw [tellings_eq, live_edited, hmarks, Option.map_some, Option.toList_some, List.flatMap_singleton]

/-- Whoever is still held when an edit changes something goes on, and the others are forgotten. -/
theorem manager_edit (w : World) (m : Nat) (x : Edit) : (w.edit m x).manager m
    = { w.manager m with
        breakpoints := x.onto (w.manager m).breakpoints
        subscribers := if (w.newsOf m x).isSome then w.live m else (w.manager m).subscribers } := by
  have hmanagers : (w.edit m x).manager m = (w.settled m x).manager m := by
    rw [manager, manager, (conveys_edit w m x).managers]
  rw [hmanagers, settled, newsOf, Option.isSome_map]
  cases w.change? m x with
  | none => exact manager_edited w m x
  | some c =>
      dsimp only
      rw [prune, manager_modifyManager, if_pos rfl, manager_edited, live_edited]
      rfl

/-! ### What there is to know -/

/-- The breakpoints that are registered, with their flags. -/
def registered (w : World) (m : Nat) : List (Breakpoint × Bool) :=
  (w.manager m).breakpoints.map fun p => (p, w.marks.isEnabled p)

/-- After an edit the breakpoints are registered that it leaves, with the flags that it leaves. -/
theorem registered_eq (w : World) (m : Nat) (x : Edit) : (w.edit m x).registered m
    = (x.onto (w.manager m).breakpoints).map fun p => (p, (w.edited m x).marks.isEnabled p) := by
  rw [registered, manager_edit, marks_edit]

/-- An edit changes what there is to know as its news says, and not at all if there is no news. -/
theorem registered_edit (w : World) (m : Nat) (x : Edit) :
    (w.edit m x).registered m = (w.newsOf m x).toList.foldl News.record (w.registered m) := by
  rw [registered_eq]
  cases x with
  | add p =>
      rw [newsOf_add, edited, Edit.onto, ← BreakpointManager.has]
      split
      · rfl
      · rw [List.map_append]
        rfl
  | remove p =>
      rw [newsOf_remove, edited, Edit.onto]
      split
      · rw [Option.toList_some, List.foldl_cons, List.foldl_nil, News.record, registered, List.filter_map]
        rfl
      · next hnot =>
          rw [filter_ne_of_not_has hnot]
          rfl
  | enable p enabled =>
      have hflag : ∀ q : Breakpoint, p.id = q.id → w.marks.isEnabled q = w.marks.isEnabled p := by
        intro q hid
        rw [Marks.isEnabled, Marks.isEnabled, hid]
      rw [newsOf_enable, edited, Edit.onto]
      simp only [Marks.isEnabled_enable]
      split
      · next hreal =>
          rw [Option.toList_some, List.foldl_cons, List.foldl_nil, News.record, registered, List.map_map]
          refine List.map_congr_left fun q _ => ?_
          by_cases hid : p.id = q.id
          · have hturned : enabled = !w.marks.isEnabled p := Bool.eq_not.mpr (Ne.symm hreal.1)
            simp only [Function.comp_apply, if_pos hid, if_pos hid.symm, hflag q hid, hturned]
          · simp only [Function.comp_apply, if_neg hid, if_neg (Ne.symm hid)]
      · next hnot =>
          refine List.map_congr_left fun q hq => ?_
          split
          · next hid =>
              have hsame : w.marks.isEnabled p = enabled := by
                by_contra hreal
                exact hnot ⟨hreal, (BreakpointManager.has_iff _ p).mpr ⟨q, hq, hid.symm⟩⟩
              rw [hflag q hid, hsame]
          · rfl

end World

end DebugBridge
