import DebugBridge.Proofs.Intake

/-!
# Assigning slots

A variable that is a slot of an object is assigned in two places: the object takes the new content, and
so does the value that the variable shows. Before that there are three refusals. The slot may not be
assignable, the expression may not stand for a value of the declared type, and the object may not let
the slot be written. A refusal at any point leaves the world as it was; and if there is none, the two
places agree.

## Main definitions

* `Record.IsDistinct`: a record whose fields have different names;
* `Heap.Takes`: an object takes new content in one slot, and so does a value;
* `World.contentNotes`: what a front end is told when the content of a parent changes.

## Main results

* `HostObject.read_of_write`: a written slot reads as the new content, and all others as before;
* `Heap.assignSlot_cases`: an assignment is refused, or it is carried out in both places;
* `assignVariable_of_slot`: what comes of an assignment to a variable that is a slot.
-/

namespace DebugBridge

/-! ### Slots that are written -/

namespace Record

variable {fields fields' : Record} {field : Field} {name : String} {content : Datum}

/-- The fields of a record have different names. -/
def IsDistinct (fields : Record) : Prop :=
  (fields.map (·.info.name)).Nodup

/-- A field that is declared again keeps its place, and a new one comes last. -/
theorem names_declare (fields : Record) (field : Field) :
    (declare fields field).map (·.info.name)
      = if field.info.name ∈ fields.map (·.info.name) then fields.map (·.info.name)
        else fields.map (·.info.name) ++ [field.info.name] := by
  induction fields with
  | nil => rfl
  | cons f rest ih =>
      unfold declare
      by_cases hname : f.info.name = field.info.name
      · simp [hname]
      · rw [if_neg hname, List.map_cons, ih]
        simp only [List.map_cons, List.mem_cons, Ne.symm hname, false_or]
        split
        · rfl
        · rfl

/-- A field that is declared does not take the name of another one. -/
theorem IsDistinct.declare (h : IsDistinct fields) (field : Field) :
    IsDistinct (declare fields field) := by
  unfold IsDistinct at h ⊢
  rw [names_declare]
  split
  · exact h
  · next hnew =>
      have hapart : ∀ a ∈ fields.map (·.info.name), ∀ b ∈ [field.info.name], a ≠ b := by
        intro a ha b hb hab
        rw [List.mem_singleton] at hb
        exact hnew (hb ▸ hab ▸ ha)
      exact List.nodup_append.mpr ⟨h, List.nodup_singleton _, hapart⟩

/-- No field is found by a name that the record does not have. -/
theorem find?_eq_none_iff : find? fields name = none ↔ name ∉ fields.map (·.info.name) := by
  simp [find?, List.find?_eq_none]

/-- Fields of a base record are added behind, if their names are not taken. -/
theorem IsDistinct.inherit (h : IsDistinct fields) (base : Record) : IsDistinct (inherit fields base) := by
  unfold Record.inherit
  induction base generalizing fields with
  | nil => exact h
  | cons f base ih =>
      refine ih ?_
      dsimp only
      cases hf : find? fields f.info.name with
      | some _ => exact h
      | none =>
          have hnew := find?_eq_none_iff.mp hf
          have hapart : ∀ a ∈ fields.map (·.info.name), ∀ b ∈ [f.info.name], a ≠ b := by
            intro a ha b hb hab
            rw [List.mem_singleton] at hb
            exact hnew (hb ▸ hab ▸ ha)
          change ((fields ++ [f]).map (·.info.name)).Nodup
          rw [List.map_append]
          exact List.nodup_append.mpr ⟨h, List.nodup_singleton _, hapart⟩

/-- A record that is built field by field, of own and inherited ones. -/
inductive Built : Record → Prop where
  | empty : Built []
  | declare {own : Record} (h : Built own) (f : Field) : Built (declare own f)
  | inherit {own : Record} (h : Built own) (base : Record) : Built (inherit own base)

/-- The fields of a record that is built one by one have different names. -/
theorem Built.isDistinct (h : Built fields) : IsDistinct fields := by
  induction h with
  | empty => exact List.nodup_nil
  | declare _ field ih => exact ih.declare field
  | inherit _ base ih => exact ih.inherit base

/-- To assign a field leaves the declarations alone. -/
theorem infos_assign? (h : assign? fields name content = some fields') :
    fields'.map (·.info) = fields.map (·.info) := by
  induction fields generalizing fields' with
  | nil => cases h
  | cons f rest ih =>
      unfold assign? at h
      split at h
      · split at h
        · cases h
        · cases h
          rfl
      · obtain ⟨rest', hrest, rfl⟩ := Option.map_eq_some_iff.mp h
        rw [List.map_cons, List.map_cons, ih hrest]

/-- A field that was assigned has the new content, and all others what they had. -/
theorem find?_assign? (h : assign? fields name content = some fields') (name' : String) :
    (find? fields' name').map (·.content)
      = if name' = name then some content else (find? fields name').map (·.content) := by
  induction fields generalizing fields' with
  | nil => cases h
  | cons f rest ih =>
      unfold assign? at h
      split at h
      · next hname =>
          split at h
          · cases h
          · cases h
            by_cases hsame : name' = name
            · simp [find?, hsame, hname]
            · have hne : ¬f.info.name = name' := fun heq => hsame (heq ▸ hname)
              simp [find?, hsame, hne]
      · next hname =>
          obtain ⟨rest', hrest, rfl⟩ := Option.map_eq_some_iff.mp h
          by_cases hfirst : f.info.name = name'
          · have hne : ¬name' = name := fun heq => hname (hfirst.trans heq)
            simp [find?, hfirst, hne]
          · have hlater := ih hrest
            simp only [find?] at hlater ⊢
            rw [List.find?_cons_of_neg (by simpa using hfirst),
              List.find?_cons_of_neg (by simpa using hfirst), hlater]

/-- A declared field that is not final can be assigned, if no other field has its name. -/
theorem exists_assign? (hd : IsDistinct fields) {info : FieldInfo} (hmem : info ∈ fields.map (·.info))
    (hfinal : info.isFinal = false) (content : Datum) :
    ∃ fields', assign? fields info.name content = some fields' := by
  induction fields with
  | nil => cases hmem
  | cons f rest ih =>
      obtain ⟨hnew, hrest⟩ := List.nodup_cons.mp hd
      unfold assign?
      rcases List.mem_cons.mp hmem with rfl | hmem
      · simp [hfinal]
      · obtain ⟨g, hg, rfl⟩ := List.mem_map.mp hmem
        have hname : ¬f.info.name = g.info.name := fun heq =>
          hnew (List.mem_map.mpr ⟨g, hg, heq.symm⟩)
        obtain ⟨rest', hrest'⟩ := ih hrest hmem
        exact ⟨f :: rest', by simp [hname, hrest']⟩

end Record

namespace HostObject

variable {o o' : HostObject} {slot : Slot} {content : Datum}

/-- A written slot reads as the new content, and all others as before. -/
theorem read_of_write (h : o.write slot content = .ok o') (slot' : Slot) :
    o'.read slot' = if slot' = slot then some content else o.read slot' := by
  unfold write at h
  cases o with
  | array element items =>
      cases slot with
      | field name => cases h
      | element index =>
          dsimp only at h
          split at h
          · next hlt =>
              cases h
              cases slot' with
              | field name => simp [read]
              | element index' =>
                  simp only [read, Array.getElem?_setIfInBounds, if_pos hlt, Slot.element.injEq,
                    eq_comm (a := index')]
          · cases h
  | record name fields =>
      cases slot with
      | element index => cases h
      | field key =>
          dsimp only at h
          cases hassign : Record.assign? fields key content with
          | none =>
              rw [hassign] at h
              cases h
          | some fields' =>
              rw [hassign] at h
              cases h
              cases slot' with
              | element index => simp [read]
              | field key' =>
                  simp only [read, Record.find?_assign? hassign, Slot.field.injEq]
  | list name items => cases slot <;> cases h
  | hollow name layout => cases slot <;> cases h

end HostObject

/-! ### Both places -/

namespace Heap

variable {h h' : Heap} {x : VariableId} {owner : Nat} {slot : Slot} {type : SlotType}
  {expression : String}

/-- An object takes new content in one slot, and a value takes it as well. What was enumerated or rendered
for the old content is dropped, and nothing else is changed. -/
structure Takes (owner : Nat) (slot : Slot) (v : ValueId) (content : Datum) (h h' : Heap) : Prop where
  written : (h.objects.get owner).write slot content = .ok (h'.objects.get owner)
  read : ∀ slot', (h'.objects.get owner).read slot'
    = if slot' = slot then some content else (h.objects.get owner).read slot'
  size : h.objects.size ≤ h'.objects.size
  objects : ∀ o, o ≠ owner → h'.objects.get o = h.objects.get o
  shown : h'.values.get v = { h.values.get v with raw := content, children := none, rendered := none }
  values : ∀ u, u ≠ v → h'.values.get u = h.values.get u
  bindings : h'.bindings = h.bindings
  displays : h'.displays = h.displays

/-- To make what a draft describes adds texts and no more. -/
theorem realize_eq (draft : Draft) (h : Heap) :
    ((realize draft).run h).2.objects = h.objects ∧ ((realize draft).run h).2.values = h.values
      ∧ ((realize draft).run h).2.bindings = h.bindings
      ∧ ((realize draft).run h).2.displays = h.displays := by
  cases draft with
  | settled datum => exact ⟨rfl, rfl, rfl, rfl⟩
  | text content => exact ⟨rfl, rfl, rfl, rfl⟩

/-- To write to a slot changes its object, or the object refuses and nothing is changed. -/
theorem run_writeSlot (owner : Nat) (slot : Slot) (content : Datum) (h : Heap) :
    (writeSlot owner slot content).run h = match (h.objects.get owner).write slot content with
      | .error failure => (.error failure, h)
      | .ok object => (.ok (), { h with objects := h.objects.set owner object }) := by
  simp only [writeSlot, StateT.run, Bind.bind, StateT.bind, get, getThe, MonadStateOf.get, StateT.get,
    Pure.pure]
  cases (h.objects.get owner).write slot content with
  | error failure => rfl
  | ok object => rfl

/-- After a write and a change of what the value shows, both have taken the content. -/
theorem takes_of_write {v : ValueId} {content : Datum} {object : HostObject} (u : Heap)
    (hu : u.objects = h.objects ∧ u.values = h.values ∧ u.bindings = h.bindings ∧ u.displays = h.displays)
    (hwrite : (h.objects.get owner).write slot content = .ok object) :
    Takes owner slot v content h
      ((replaceContent v content).run { u with objects := u.objects.set owner object }).2 := by
  obtain ⟨hobjects, hvalues, hbindings, hdisplays⟩ := hu
  let h' := ((replaceContent v content).run { u with objects := u.objects.set owner object }).2
  have hobject : h'.objects.get owner = object := Arena.get_set_self _ _ _
  refine ⟨hobject.symm ▸ hwrite, fun slot' => ?_, ?_, fun o ho => ?_, ?_, fun w hw => ?_, hbindings, hdisplays⟩
  · rw [hobject]
    exact HostObject.read_of_write hwrite slot'
  · exact hobjects ▸ Arena.size_le_set _ _ _
  · exact hobjects ▸ Arena.get_set_of_ne _ (Ne.symm ho) _
  · rw [replaceContent, value_modifyValue, if_pos rfl]
    exact hvalues ▸ rfl
  · rw [replaceContent, value_modifyValue, if_neg (Ne.symm hw)]
    exact hvalues ▸ rfl

/-- An assignment to a slot is refused and leaves all as it was; or the slot is assignable, the
expression stands for a value of the declared type, the object lets the slot be written, and all is
done. -/
theorem assignSlot_cases (x : VariableId) (owner : Nat) (slot : Slot) (type : SlotType)
    (expression : String) (h : Heap) :
    ((∃ failure, (assignSlot x owner slot type expression).run h = (.error failure, h))
      ∧ ∀ draft, (h.bindings.get x).origin.isAssignable = true → type.convert expression = .ok draft →
        ∃ failure, (h.objects.get owner).write slot ((realize draft).run h).1 = .error failure)
    ∨ ∃ draft h', (assignSlot x owner slot type expression).run h = (.ok (), h')
      ∧ (h.bindings.get x).origin.isAssignable = true ∧ type.convert expression = .ok draft
      ∧ Takes owner slot (h.bindings.get x).value ((realize draft).run h).1 h h' := by
  have hget : (get : HeapM Heap).run h = (h, h) := rfl
  unfold assignSlot
  rw [run_bind_heap hget]
  dsimp only
  cases hassignable : (h.bindings.get x).origin.isAssignable with
  | false => exact .inl ⟨⟨_, rfl⟩, fun _ habsurd => by cases habsurd⟩
  | true =>
      cases hconvert : type.convert expression with
      | error failure => exact .inl ⟨⟨failure, rfl⟩, fun _ _ habsurd => by cases habsurd⟩
      | ok draft =>
          obtain ⟨hobjects, hrest⟩ := realize_eq draft h
          have hrealize : (realize draft).run h = (((realize draft).run h).1, ((realize draft).run h).2) := rfl
          have hwrite := run_writeSlot owner slot ((realize draft).run h).1 ((realize draft).run h).2
          rw [hobjects] at hwrite
          dsimp only
          rw [Bool.not_true, if_neg Bool.false_ne_true, run_bind_heap hrealize]
          cases hslot : (h.objects.get owner).write slot ((realize draft).run h).1 with
          | error failure =>
              rw [hslot] at hwrite
              rw [run_bind_heap hwrite]
              refine .inl ⟨⟨failure, rfl⟩, fun draft' _ hdraft => ⟨failure, ?_⟩⟩
              cases hdraft
              exact hslot
          | ok object =>
              rw [hslot] at hwrite
              rw [run_bind_heap hwrite]
              have htakes := takes_of_write (v := (h.bindings.get x).value) ((realize draft).run h).2
                ⟨hobjects, hrest⟩ hslot
              rw [hobjects] at htakes
              exact .inr ⟨draft, _, rfl, rfl, rfl, htakes⟩

end Heap

/-! ### Assignments in a world -/

namespace World

/-- What a parent leads to is a session that somebody holds. -/
theorem alive_of_reach {w : World} {p : Parent} {s : Nat} (h : w.reach p = some s) :
    (w.session s).alive = true := by
  unfold reach at h
  split at h
  · cases h
  · split at h
    · next halive =>
        cases h
        exact halive
    · cases h
  · split at h
    · next hheld =>
        cases h
        exact (Bool.and_eq_true_iff.mp hheld).2
    · cases h

/-- What a front end is told when the content of a frame changes, if there is a frame. -/
def contentNotes (w : World) (held : Option FrameRef) : List Note :=
  match held with
  | some f => w.told f.session [.changed (.frame f) .content]
  | none => []

end World

section Assigning

open World

variable {w : World} {x : VariableId} {owner : Nat} {slot : Slot} {type : SlotType} {expression : String}

/-- An expression is accepted for a slot if the slot is assignable and the expression stands for a value
of the declared type. -/
theorem accepts_iff {origin : Origin} (hslot : origin.slot? = some (owner, slot, type)) :
    origin.accepts expression = true
      ↔ origin.isAssignable = true ∧ ∃ draft, type.convert expression = .ok draft := by
  rw [Origin.accepts, hslot]
  dsimp only
  cases hconvert : type.convert expression with
  | ok draft => simp [Except.isOk, Except.toBool]
  | error failure => simp [Except.isOk, Except.toBool]

/-- An assignment to a binding of the interpreter asks the interpreter for it, and does nothing else. -/
theorem assignVariable_of_binding {s : Nat} (hbinding : (w.heap.bindings.get x).origin.slot? = none)
    (hreach : w.reach (w.heap.bindings.get x).parent = some s) (hattached : (w.session s).attached = true)
    (expression : String) :
    assignVariable x expression w = .ok (.ok ()) (w.send s (.request (.setVariable
      (w.heap.bindings.get x).parent x (w.heap.bindings.get x).name expression))) := by
  let r : Request :=
    .setVariable (w.heap.bindings.get x).parent x (w.heap.bindings.get x).name expression
  have hpost : w.post s r = w.send s (.request r) := by
    rw [World.post, alive_of_reach hreach, hattached]
    rfl
  have hrun : assignVariable x expression w = (post s r >>= fun _ => pure (.ok ())) w := by
    unfold assignVariable
    rw [run_get_bind]
    dsimp only
    rw [hbinding, hreach]
  rw [hrun, ← hpost]
  rfl

/-- An assignment that is carried out: the slot and the value of the variable take what the expression
stands for, and the front end is told once that the content of the frame changed, if there is a frame.
Then the front end may fail, and nothing else happens. -/
structure CarriesOut (x : VariableId) (owner : Nat) (slot : Slot) (type : SlotType) (expression : String)
    (w : World) : Prop where
  assignable : (w.heap.bindings.get x).origin.isAssignable = true
  taken : ∃ draft h' j, type.convert expression = .ok draft
    ∧ Heap.Takes owner slot (w.heap.bindings.get x).value ((realize draft).run w.heap).1 w.heap h'
    ∧ worldAfter (assignVariable x expression) w = { w with heap := h', journal := j }
    ∧ j.notes.toList
      = w.journal.notes.toList ++ w.contentNotes (w.frameOf (w.heap.bindings.get x).parent)
  ends : (∃ w', assignVariable x expression w = .ok (.ok ()) w')
    ∨ (∃ failure w', assignVariable x expression w = .error failure w') ∧ ¬w.Calm

/-- What ends an assignment that was carried out in the heap. -/
def tellContent (held : Option FrameRef) : Act (Except Failure Unit) := do
  match held with
  | some f => frameChanged f .content
  | none => pure ()
  return .ok ()

/-- A front end that listens is told once, and then it may fail. -/
theorem tellContent_cases (held : Option FrameRef) (w : World) :
    ∃ j, worldAfter (tellContent held) w = { w with journal := j }
      ∧ j.notes.toList = w.journal.notes.toList ++ w.contentNotes held
      ∧ ((∃ w', tellContent held w = .ok (.ok ()) w')
        ∨ (∃ failure w', tellContent held w = .error failure w') ∧ ¬w.Calm) := by
  cases held with
  | none => exact ⟨w.journal, rfl, (List.append_nil _).symm, .inl ⟨w, rfl⟩⟩
  | some f =>
      let s := f.session
      let notice : Notice := .changed (.frame f) .content
      obtain ⟨j, hafter, hj⟩ := worldAfter_notify s notice w
      have hrun : tellContent (some f) w = (notify s notice >>= fun _ => pure (.ok ())) w := rfl
      cases hnotify : notify s notice w with
      | ok _ u =>
          rw [run_bind_ok hnotify] at hrun
          rw [worldAfter, hnotify] at hafter
          exact ⟨j, by rw [worldAfter, hrun, ← hafter]; rfl, hj, .inl ⟨u, hrun⟩⟩
      | error failure u =>
          rw [run_bind_error hnotify] at hrun
          rw [worldAfter, hnotify] at hafter
          have hfails : ¬w.Calm := by
            intro hcalm
            obtain ⟨_, _, hends, -⟩ := recounts_notify (s := s) hcalm notice
            rw [hends] at hnotify
            cases hnotify
          exact ⟨j, by rw [worldAfter, hrun, ← hafter], hj, .inr ⟨⟨failure, u, hrun⟩, hfails⟩⟩

/-- An operation on the heap of the world leaves everything else. -/
theorem run_onHeap {α : Type} {op : HeapM α} {a : α} {h' : Heap} (hop : op.run w.heap = (a, h')) :
    onHeap op w = .ok a { w with heap := h' } := by
  change EStateM.Result.ok (op.run w.heap).1 { w with heap := (op.run w.heap).2 } = _
  rw [hop]

/-- An assignment to a variable that is a slot is refused and leaves the world as it was, or it is carried
out. -/
theorem assignVariable_of_slot (hslot : (w.heap.bindings.get x).origin.slot? = some (owner, slot, type))
    (expression : String) :
    ((∃ failure, assignVariable x expression w = .ok (.error failure) w)
      ∧ ∀ draft, (w.heap.bindings.get x).origin.isAssignable = true → type.convert expression = .ok draft →
        ∃ failure, (w.heap.objects.get owner).write slot ((realize draft).run w.heap).1 = .error failure)
    ∨ CarriesOut x owner slot type expression w := by
  let held := w.frameOf (w.heap.bindings.get x).parent
  obtain ⟨⟨failure, hrefused⟩, hwhy⟩ | ⟨draft, h', hdone, hassignable, hconvert, htakes⟩ :=
    w.heap.assignSlot_cases x owner slot type expression
  · have hrun : assignVariable x expression w = .ok (.error failure) w := by
      unfold assignVariable
      rw [run_get_bind]
      dsimp only
      rw [hslot]
      exact run_bind_ok (run_onHeap hrefused) _
    exact .inl ⟨⟨failure, hrun⟩, hwhy⟩
  · have hrun : assignVariable x expression w = tellContent held { w with heap := h' } := by
      unfold assignVariable
      rw [run_get_bind]
      dsimp only
      rw [hslot]
      exact run_bind_ok (run_onHeap hdone) _
    obtain ⟨j, hafter, hnotes, hends⟩ := tellContent_cases held { w with heap := h' }
    refine .inr ⟨hassignable, ⟨draft, h', j, hconvert, htakes, ?_, hnotes⟩, hrun.symm ▸ hends⟩
    rw [worldAfter, hrun]
    exact hafter

end Assigning

end DebugBridge
