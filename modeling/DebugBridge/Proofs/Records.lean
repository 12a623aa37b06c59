import DebugBridge.Proofs.Parentage

/-!
# Records that are made and used

A record is made field by field. Some fields are its own, and others come from bases, which are records
as well. A name has its place from where it is mentioned first. Which field stands there is another
question: an own field takes over from any field before it, and an inherited one yields to any that is
there. So the last own field is in force, or else the first one that was inherited, and this with the
content that the base had at that moment.

Once it is made, a record is an object among others. Whatever is done then, its fields stay what they are,
in their order. Only contents change, and only by writes to fields that are not final; every field reads
as what was written to it last, or else as what it was made with.

## Main definitions

* `Record.Addition`: a field that gets into a record, of its own or of a base;
* `Record.firstNames`, `Record.inForce`: the names of some additions, and the field in force for a name;
* `Heap.Making`, `Heap.makeAll`, `Heap.additions`: how a record is made, while other things are done;
* `Heap.Use.Writes`: a use that puts new content into a slot;
* `Heap.LastWritten`, `Heap.Unwritten`: what became of a slot during a run.

## Main results

* `Record.Resolves.declare`, `Record.Resolves.inherit`: what each step makes of a record;
* `Heap.alters_after`: what a use does to an object;
* `Heap.read_afterUses`: how a slot reads after any run;
* `Heap.record_is_ordered_map`: all of this together.
-/

namespace DebugBridge

/-! ### What gets into a record -/

namespace Record

/-- A field that gets into a record. -/
inductive Addition where
  /-- A field of the record's own. -/
  | own (field : Field)
  /-- A field of a base. -/
  | inherited (field : Field)
deriving DecidableEq

namespace Addition

/-- The name of the field. -/
def name : Addition → String
  | .own f | .inherited f => f.info.name

/-- The field, if it is an own one with a given name. -/
def own? (name : String) : Addition → Option Field
  | .own f => if f.info.name = name then some f else none
  | .inherited _ => none

/-- The field, if it is an inherited one with a given name. -/
def inherited? (name : String) : Addition → Option Field
  | .own _ => none
  | .inherited f => if f.info.name = name then some f else none

end Addition

/-- The names of some additions, in the order of their first mention. -/
def firstNames (as : List Addition) : List String :=
  (as.map Addition.name).eraseDups

/-- The field that is in force for a name: the last own one, or else the first one that was inherited. -/
def inForce (as : List Addition) (name : String) : Option Field :=
  (as.filterMap (Addition.own? name)).getLast?.or (as.filterMap (Addition.inherited? name)).head?

/-- A slot that can be written: that of a name for which a field is in force that is not final. -/
def IsOpen (as : List Addition) : Slot → Prop
  | .element _ => False
  | .field name => ∃ f, inForce as name = some f ∧ f.info.isFinal = false

variable {as : List Addition} {fields fields' : Record} {name : String}

/-- A field that is added comes last among the names, unless its name was mentioned already. -/
theorem firstNames_concat (as : List Addition) (a : Addition) :
    firstNames (as ++ [a])
      = if a.name ∈ firstNames as then firstNames as else firstNames as ++ [a.name] := by
  have hmem : a.name ∈ firstNames as ↔ a.name ∈ as.map Addition.name := List.mem_eraseDups
  rw [firstNames, List.map_append, List.map_singleton, List.eraseDups_append, ← firstNames]
  by_cases ha : a.name ∈ firstNames as
  · have hnone : [a.name].removeAll (as.map Addition.name) = [] := by
      simpa [List.removeAll] using hmem.mp ha
    rw [if_pos ha, hnone, List.eraseDups_nil, List.append_nil]
  · have hone : [a.name].removeAll (as.map Addition.name) = [a.name] := by
      simpa [List.removeAll] using fun b hb heq => ha (hmem.mpr (List.mem_map.mpr ⟨b, hb, heq⟩))
    rw [if_neg ha, hone]
    rfl

/-- An own field is in force from then on. -/
theorem inForce_concat_own (as : List Addition) (f : Field) (name : String) :
    inForce (as ++ [.own f]) name = if name = f.info.name then some f else inForce as name := by
  by_cases hname : name = f.info.name
  · simp [inForce, Addition.own?, hname]
  · simp [inForce, Addition.own?, Addition.inherited?, hname, Ne.symm hname]

/-- An inherited field is in force if no other one of its name is. -/
theorem inForce_concat_inherited (as : List Addition) (f : Field) (name : String) :
    inForce (as ++ [.inherited f]) name
      = (inForce as name).or (if name = f.info.name then some f else none) := by
  by_cases hname : name = f.info.name
  · simp [inForce, Addition.own?, Addition.inherited?, hname]
  · simp [inForce, Addition.own?, Addition.inherited?, hname, Ne.symm hname]

/-! ### Steps in making a record -/

/-- A field of another name at the front is passed over. -/
theorem find?_cons_of_ne {f : Field} (hname : ¬f.info.name = name) (rest : Record) :
    find? (f :: rest) name = find? rest name :=
  List.find?_cons_of_neg (by simpa using hname)

/-- A field at the end is found if no other of its name is there. -/
theorem find?_concat (fields : Record) (f : Field) (name : String) :
    find? (fields ++ [f]) name
      = (find? fields name).or (if name = f.info.name then some f else none) := by
  rw [find?, List.find?_append, ← find?]
  by_cases hname : name = f.info.name
  · simp [hname]
  · simp [hname, Ne.symm hname]

/-- A declared field is found by its name, and others are found as before. -/
theorem find?_declare (fields : Record) (f : Field) (name : String) :
    find? (declare fields f) name = if name = f.info.name then some f else find? fields name := by
  induction fields with
  | nil => exact find?_concat [] f name
  | cons g rest ih =>
      rw [declare]
      by_cases hg : g.info.name = f.info.name
      · rw [if_pos hg]
        by_cases hname : name = f.info.name
        · simp [find?, hname]
        · simp [find?, hg, hname, Ne.symm hname]
      · rw [if_neg hg]
        by_cases hname : g.info.name = name
        · have hne : ¬name = f.info.name := fun heq => hg (hname.trans heq)
          simp [find?, hname, hne]
        · rw [find?_cons_of_ne hname, find?_cons_of_ne hname, ih]

/-- Another field with the name of one that is there takes its place. -/
theorem declare_eq_map (hd : IsDistinct fields) {f : Field} (hmem : f.info.name ∈ fields.map (·.info.name)) :
    declare fields f = fields.map fun g => if g.info.name = f.info.name then f else g := by
  induction fields with
  | nil => cases hmem
  | cons g rest ih =>
      obtain ⟨hnew, hrest⟩ := List.nodup_cons.mp hd
      rw [declare]
      by_cases hg : g.info.name = f.info.name
      · have hothers : rest.map (fun g => if g.info.name = f.info.name then f else g) = rest.map id :=
          List.map_congr_left fun k hk => if_neg fun heq =>
            hnew (List.mem_map.mpr ⟨k, hk, heq.trans hg.symm⟩)
        rw [if_pos hg, List.map_cons, if_pos hg, hothers, List.map_id]
      · have hlater : f.info.name ∈ rest.map (·.info.name) :=
          (List.mem_cons.mp hmem).resolve_left (Ne.symm hg)
        rw [if_neg hg, List.map_cons, if_neg hg, ih hrest hlater]

/-- A field of a base is added at the end, if no field has its name. -/
theorem inherit_cons (fields : Record) (f : Field) (base : Record) :
    inherit fields (f :: base)
      = inherit (if (find? fields f.info.name).isSome then fields else fields ++ [f]) base :=
  rfl

/-- Inherited fields come after those that are there. -/
theorem prefix_inherit (fields base : Record) : fields <+: inherit fields base := by
  induction base generalizing fields with
  | nil => exact List.prefix_refl fields
  | cons f base ih =>
      rw [inherit_cons]
      refine .trans ?_ (ih _)
      split
      · exact List.prefix_refl fields
      · exact List.prefix_append fields [f]

/-- A record that some additions make: its names are theirs, and what is found is what is in force. -/
structure Resolves (as : List Addition) (fields : Record) : Prop where
  names : fields.map (·.info.name) = firstNames as
  find : ∀ name, find? fields name = inForce as name

/-- A record to which nothing was added has no names. -/
theorem Resolves.empty : Resolves [] [] :=
  ⟨rfl, fun _ => rfl⟩

/-- To declare a field makes the record of one addition more. -/
theorem Resolves.declare (h : Resolves as fields) (f : Field) :
    Resolves (as ++ [.own f]) (declare fields f) where
  names := by
    rw [names_declare, firstNames_concat, h.names]
    rfl
  find name := by rw [find?_declare, inForce_concat_own, h.find]

/-- One more field that is inherited. -/
theorem Resolves.concat_inherited (h : Resolves as fields) (f : Field) :
    Resolves (as ++ [.inherited f])
      (if (find? fields f.info.name).isSome then fields else fields ++ [f]) := by
  have hmem : f.info.name ∈ firstNames as ↔ (find? fields f.info.name).isSome = true := by
    rw [← h.names, Option.isSome_iff_ne_none, Ne, find?_eq_none_iff, not_not]
  by_cases hthere : (find? fields f.info.name).isSome = true
  · rw [if_pos hthere]
    refine ⟨?_, fun name => ?_⟩
    · rw [firstNames_concat, h.names]
      exact (if_pos (hmem.mpr hthere)).symm
    · rw [inForce_concat_inherited, ← h.find]
      by_cases hname : name = f.info.name
      · rw [hname, Option.or_of_isSome hthere]
      · rw [if_neg hname, Option.or_none]
  · rw [if_neg hthere]
    refine ⟨?_, fun name => ?_⟩
    · rw [firstNames_concat, List.map_append, h.names]
      exact (if_neg (mt hmem.mp hthere)).symm
    · rw [inForce_concat_inherited, ← h.find, find?_concat]

/-- To inherit from a base adds its fields as inherited ones, in their order. -/
theorem Resolves.inherit (h : Resolves as fields) (base : Record) :
    Resolves (as ++ base.map .inherited) (inherit fields base) := by
  induction base generalizing as fields with
  | nil =>
      rw [List.map_nil, List.append_nil]
      exact h
  | cons f base ih =>
      rw [List.map_cons, ← List.singleton_append, ← List.append_assoc, inherit_cons]
      exact ih (h.concat_inherited f)

/-! ### Names that are declared -/

/-- The declaration of a name depends on the declarations only. -/
theorem info_find? (fields : Record) (name : String) :
    (find? fields name).map (·.info) = (fields.map (·.info)).find? (·.name == name) := by
  rw [List.find?_map]
  rfl

/-- A field is found by its name if no other one has it. -/
theorem find?_of_mem (hd : IsDistinct fields) {f : Field} (hf : f ∈ fields) :
    find? fields f.info.name = some f := by
  induction fields with
  | nil => cases hf
  | cons g rest ih =>
      obtain ⟨hnew, hrest⟩ := List.nodup_cons.mp hd
      rcases List.mem_cons.mp hf with rfl | hf
      · simp [find?]
      · have hne : ¬g.info.name = f.info.name := fun heq => hnew (List.mem_map.mpr ⟨f, hf, heq.symm⟩)
        rw [find?_cons_of_ne hne, ih hrest hf]

/-- A field can be assigned exactly if it is declared and not final. -/
theorem exists_assign?_iff (fields : Record) (name : String) (content : Datum) :
    (∃ fields', assign? fields name content = some fields')
      ↔ ∃ f, find? fields name = some f ∧ f.info.isFinal = false := by
  induction fields with
  | nil => simp [assign?, find?]
  | cons f rest ih =>
      rw [assign?]
      by_cases hname : f.info.name = name
      · cases hfinal : f.info.isFinal <;> simp [find?, hname, hfinal]
      · rw [if_neg hname, find?_cons_of_ne hname, ← ih]
        simp

/-- What is in force for a name that is declared is its declaration. -/
theorem Resolves.info (h : Resolves as fields) (hd : IsDistinct fields) {info : FieldInfo}
    (hinfo : info ∈ fields.map (·.info)) : (inForce as info.name).map (·.info) = some info := by
  obtain ⟨f, hf, rfl⟩ := List.mem_map.mp hinfo
  rw [← h.find, find?_of_mem hd hf]
  rfl

/-- A slot stays open as long as the declarations stay what they are. -/
theorem Resolves.isOpen_field_iff (h : Resolves as fields)
    (hinfos : fields'.map (·.info) = fields.map (·.info)) :
    IsOpen as (.field name) ↔ ∃ f, find? fields' name = some f ∧ f.info.isFinal = false := by
  have hfound : (inForce as name).map (·.info) = (find? fields' name).map (·.info) := by
    rw [← h.find, info_find?, info_find?, hinfos]
  rw [IsOpen]
  cases hforce : inForce as name with
  | none =>
      rw [hforce] at hfound
      simp [Option.map_eq_none_iff.mp hfound.symm]
  | some g =>
      rw [hforce] at hfound
      obtain ⟨f, hf, hinfo⟩ := Option.map_eq_some_iff.mp hfound.symm
      simp [hf, hinfo]

end Record

/-! ### Records among other objects -/

namespace HostObject

/-- The fields of a record. Other objects have none. -/
def fields : HostObject → Record
  | .record _ fields => fields
  | _ => []

/-- An object that changes by writes to its slots only. Lists grow as well. -/
def IsFixed : HostObject → Prop
  | .list _ _ => False
  | _ => True

/-- Whether an object changes by writes only lasts as long as its kind. -/
theorem Kin.isFixed {o o' : HostObject} (h : o.Kin o') (ho : o.IsFixed) : o'.IsFixed := by
  cases h with
  | list => exact ho
  | array | record | hollow => trivial

/-- To an object that changes by writes only nothing can be appended. -/
theorem append_of_isFixed {o : HostObject} (ho : o.IsFixed) (item : Datum) : o.append item = o := by
  cases o with
  | list name items => exact ho.elim
  | array | record | hollow => rfl

/-- An object that is of one kind with a record is a record with its declarations. -/
theorem exists_record_of_kin {typeName : String} {fields : Record} {o : HostObject}
    (h : (HostObject.record typeName fields).Kin o) :
    ∃ fields', o = .record typeName fields' ∧ fields'.map (·.info) = fields.map (·.info) := by
  cases h with
  | record h => exact ⟨_, rfl, h⟩

/-- A write that is refused is refused with the text of the slot. -/
theorem eq_of_write_error {o : HostObject} {slot : Slot} {content : Datum} {failure : Failure}
    (h : o.write slot content = .error failure) : failure = .unsupportedTarget slot.text := by
  simp only [write] at h
  split at h
  · split at h
    · cases h
    · exact (Except.error.inj h).symm
  · split at h
    · cases h
    · exact (Except.error.inj h).symm
  · exact (Except.error.inj h).symm

/-- A record is written exactly in the slots that are open. -/
theorem isOpen_iff_exists_write {as : List Record.Addition} {made fields : Record} {typeName : String}
    (hr : Record.Resolves as made) (hinfos : fields.map (·.info) = made.map (·.info)) (slot : Slot)
    (content : Datum) :
    Record.IsOpen as slot ↔ ∃ o, (HostObject.record typeName fields).write slot content = .ok o := by
  cases slot with
  | element index => simp [write, Record.IsOpen]
  | field name =>
      rw [hr.isOpen_field_iff hinfos, ← Record.exists_assign?_iff fields name content]
      cases hassign : Record.assign? fields name content with
      | none => simp [write, hassign]
      | some fields' => simp [write, hassign]

end HostObject

/-! ### Making a record -/

namespace Heap

/-- What is done while a record is made. -/
inductive Making where
  /-- The record gets a field of its own. -/
  | declare (f : Field)
  /-- The record gets the fields of another one, where it has none of their names. -/
  | inherit (base : Nat)
  /-- Something else is done, and other records may change. -/
  | meanwhile (u : Use)

/-- The fields that a record has so far, and the heap, after one more step. -/
def make (made : Record × Heap) : Making → Record × Heap
  | .declare f => (made.1.declare f, made.2)
  | .inherit base => (made.1.inherit (made.2.objects.get base).fields, made.2)
  | .meanwhile u => (made.1, made.2.after u)

/-- The fields that a record has after some steps, and the heap. -/
def makeAll (ms : List Making) (h : Heap) : Record × Heap :=
  ms.foldl make ([], h)

/-- What gets into the record. The fields of a base are those that it has when they are inherited. -/
def additions (h : Heap) : List Making → List Record.Addition
  | [] => []
  | .declare f :: ms => .own f :: additions h ms
  | .inherit base :: ms => (h.objects.get base).fields.map .inherited ++ additions h ms
  | .meanwhile u :: ms => additions (h.after u) ms

/-- To make a record in one more step is to take that step after the others. -/
theorem makeAll_concat (ms : List Making) (m : Making) (h : Heap) :
    makeAll (ms ++ [m]) h = make (makeAll ms h) m := by
  simp [makeAll]

/-- Some more steps, from any record. -/
theorem resolves_foldl {as : List Record.Addition} {fields : Record} (hr : Record.Resolves as fields)
    (ms : List Making) (h : Heap) :
    Record.Resolves (as ++ additions h ms) (ms.foldl make (fields, h)).1 := by
  induction ms generalizing as fields h with
  | nil =>
      rw [additions, List.append_nil]
      exact hr
  | cons m ms ih =>
      cases m with
      | declare f =>
          rw [additions, ← List.singleton_append, ← List.append_assoc]
          exact ih (hr.declare f) h
      | inherit base =>
          rw [additions, ← List.append_assoc]
          exact ih (hr.inherit (h.objects.get base).fields) h
      | meanwhile u => exact ih hr (h.after u)

/-- A record has the fields that its additions make. -/
theorem resolves_makeAll (ms : List Making) (h : Heap) :
    Record.Resolves (additions h ms) (makeAll ms h).1 :=
  resolves_foldl .empty ms h

/-- A record that is made has different names. -/
theorem isDistinct_makeAll (ms : List Making) (h : Heap) : (makeAll ms h).1.IsDistinct := by
  refine Record.Built.isDistinct ?_
  induction ms using List.reverseRecOn with
  | nil => exact .empty
  | append_singleton ms m ih =>
      rw [makeAll_concat]
      cases m with
      | declare f => exact ih.declare f
      | inherit base => exact ih.inherit _
      | meanwhile u => exact ih

/-! ### What becomes of an object -/

variable {h : Heap} {r : Nat} {slot : Slot} {content : Datum} {u : Use}

namespace Use

/-- New content is put into a slot of an object, and the object takes it. -/
def Writes (h : Heap) (r : Nat) (slot : Slot) (content : Datum) : Use → Prop
  | .write owner slot' content' => owner = r ∧ slot' = slot ∧ content' = content
    ∧ ((writeSlot owner slot' content').run h).1 = .ok ()
  | .assign x expression => ∃ type draft, (h.bindings.get x).origin.slot? = some (r, slot, type)
    ∧ ((assignSlot x r slot type expression).run h).1 = .ok ()
    ∧ type.convert expression = .ok draft ∧ content = ((realize draft).run h).1
  | _ => False

/-- An object may be made or changed. -/
def Concerns : Use → Prop
  | .makeObject _ | .write _ _ _ | .append _ _ | .assign _ _ => True
  | _ => False

end Use

/-- To replace what a variable shows leaves all objects. -/
theorem objects_replaceValue (reach : Parent → Option Nat) (x : VariableId) (v : ValueId) (h : Heap) :
    ((replaceValue reach x v).run h).2.objects = h.objects := by
  obtain ⟨h₁, hreplaces⟩ := replaces_replaceValue reach x v h
  exact hreplaces.recalls.objects.trans hreplaces.moved.objects

/-- To take one reported variable in changes no object. -/
theorem objects_takingIn (reach : Parent → Option Nat) (f : FrameRef) (known : List VariableId) (h : Heap)
    (y : VariableId) : (h.after (h.takingIn reach f known y)).objects = h.objects := by
  unfold takingIn
  split
  · next x _ =>
      rw [after]
      exact objects_replaceValue reach x _ h
  · exact (adopts_moveVariable (.frame f) h y).objects

/-- A frame that takes reported variables in changes no object. -/
theorem objects_merge (reach : Parent → Option Nat) (f : FrameRef) (known reported : List VariableId)
    (h : Heap) : (h.after (.merge reach f known reported)).objects = h.objects := by
  induction reported generalizing h with
  | nil => rfl
  | cons y ys ih => rw [after_merge_cons, ih, objects_takingIn]

/-- To list the children of a value leaves all objects. -/
theorem objects_childrenOf (v : ValueId) (h : Heap) : ((childrenOf v).run h).2.objects = h.objects := by
  cases hchildren : (h.values.get v).children with
  | some cs => rw [run_childrenOf_of_some hchildren]
  | none =>
      obtain ⟨_, _, hmakes, -⟩ := makes_enumerateChildren (h.values.get v).raw (h.values.get v).parent h
      rw [run_childrenOf_of_none hchildren]
      exact hmakes.objects

/-- Most uses change no object. -/
theorem objects_after (h : Heap) (hu : ¬u.Concerns) : (h.after u).objects = h.objects := by
  cases u with
  | makeObject | write | append | assign => exact absurd trivial hu
  | report r =>
      obtain ⟨name, content, rendered⟩ := r
      cases rendered <;> rfl
  | replaceValue reach x v =>
      rw [after]
      exact objects_replaceValue reach x v h
  | merge reach f known reported => exact objects_merge reach f known reported h
  | enumerate v => exact objects_childrenOf v h
  | moveVariable x p => exact (adopts_moveVariable p h x).objects
  | moveValue v p => exact (adopts_moveValue p h v).objects
  | look reach v => exact (recalls_valueText reach v h).objects
  | display session datum => exact (recalls_datumText session datum h).objects
  | makeText | makeValue | makeVariable | replaceContent | setRendered | giveChildren => rfl

/-- What a use does to an object: it writes one slot, or it leaves the object as it is. -/
inductive Alters (h : Heap) (r : Nat) (u : Use) : Prop where
  | writes {slot : Slot} {content : Datum}
      (hu : ∀ slot' content', u.Writes h r slot' content' ↔ slot' = slot ∧ content' = content)
      (hobject : (h.objects.get r).write slot content = .ok ((h.after u).objects.get r))
  | leaves (hu : ∀ slot content, ¬u.Writes h r slot content)
      (hobject : (h.after u).objects.get r = h.objects.get r)

/-- Who writes a slot by itself is refused, or writes this slot of this object. -/
theorem alters_write (h : Heap) (r owner : Nat) (slot : Slot) (content : Datum) :
    Alters h r (.write owner slot content) := by
  have hrun := run_writeSlot owner slot content h
  cases hwrite : (h.objects.get owner).write slot content with
  | error failure =>
      rw [hwrite] at hrun
      refine .leaves (fun slot' content' hu => ?_) (by rw [after, hrun])
      have hok := hu.2.2.2
      rw [hrun] at hok
      cases hok
  | ok object =>
      rw [hwrite] at hrun
      have hobjects : (h.after (.write owner slot content)).objects = h.objects.set owner object := by
        rw [after, hrun]
      by_cases howner : owner = r
      · subst howner
        have hu : ∀ slot' content', (Use.write owner slot content).Writes h owner slot' content'
            ↔ slot' = slot ∧ content' = content :=
          fun slot' content' => ⟨fun hu => ⟨hu.2.1.symm, hu.2.2.1.symm⟩,
            fun heq => ⟨rfl, heq.1.symm, heq.2.symm, congrArg Prod.fst hrun⟩⟩
        refine .writes hu ?_
        rw [hobjects, Arena.get_set_self, hwrite]
      · refine .leaves (fun slot' content' hu => howner hu.1) ?_
        rw [hobjects, Arena.get_set_of_ne _ howner]

/-- An assignment to a variable of a slot writes what its text stands for into that slot, if it
succeeds. -/
theorem writes_assign_iff {x : VariableId} {owner : Nat} {type : SlotType} {expression : String}
    (hslot : (h.bindings.get x).origin.slot? = some (owner, slot, type)) (r : Nat) (slot' : Slot)
    (content : Datum) :
    (Use.assign x expression).Writes h r slot' content
      ↔ r = owner ∧ slot' = slot ∧ ((assignSlot x owner slot type expression).run h).1 = .ok ()
        ∧ ∃ draft, type.convert expression = .ok draft ∧ content = ((realize draft).run h).1 := by
  constructor
  · rintro ⟨type', draft, hsome, hok, hconvert, hcontent⟩
    rw [hslot] at hsome
    cases hsome
    exact ⟨rfl, rfl, hok, draft, hconvert, hcontent⟩
  · rintro ⟨rfl, rfl, hok, draft, hconvert, hcontent⟩
    exact ⟨type, draft, hslot, hok, hconvert, hcontent⟩

/-- Who assigns to a variable is refused, or writes the slot that the variable is. -/
theorem alters_assign (h : Heap) (r : Nat) (x : VariableId) (expression : String) :
    Alters h r (.assign x expression) := by
  cases hslot : (h.bindings.get x).origin.slot? with
  | none =>
      refine .leaves ?_ (by rw [after, hslot])
      rintro slot content ⟨type, draft, hsome, -⟩
      rw [hslot] at hsome
      cases hsome
  | some place =>
      obtain ⟨owner, slot, type⟩ := place
      have hafter : h.after (.assign x expression) = ((assignSlot x owner slot type expression).run h).2 := by
        rw [after, hslot]
      obtain ⟨⟨failure, hrefused⟩, -⟩ | ⟨draft, h', hdone, -, hconvert, htakes⟩ :=
        h.assignSlot_cases x owner slot type expression
      · refine .leaves (fun slot' content' hu => ?_) (by rw [hafter, hrefused])
        have hok := ((writes_assign_iff hslot r slot' content').mp hu).2.2.1
        rw [hrefused] at hok
        cases hok
      · rw [hdone] at hafter
        by_cases howner : owner = r
        · subst howner
          refine .writes (fun slot' content' => ?_) (by rw [hafter, htakes.written])
          rw [writes_assign_iff hslot, hdone, hconvert]
          simp
        · refine .leaves (fun slot' content' hu => ?_) (by rw [hafter, htakes.objects r (Ne.symm howner)])
          exact howner ((writes_assign_iff hslot r slot' content').mp hu).1.symm

/-- An object that is there and is no list is written in one slot, or it stays as it is. -/
theorem alters_after (hr : r < h.objects.size) (hfixed : (h.objects.get r).IsFixed) (u : Use) :
    Alters h r u := by
  by_cases hu : u.Concerns
  · cases u with
    | makeObject object =>
        have hobjects : (h.after (.makeObject object)).objects = h.objects.push object := rfl
        refine .leaves (fun _ _ => id) ?_
        rw [hobjects, Arena.get_push, if_neg (Nat.ne_of_lt hr)]
    | write owner slot content => exact alters_write h r owner slot content
    | append owner item =>
        refine .leaves (fun _ _ => id) ?_
        rw [after, Arena.get_modify]
        split
        · next howner => rw [howner, HostObject.append_of_isFixed hfixed]
        · rfl
    | assign x expression => exact alters_assign h r x expression
    | _ => exact hu.elim
  -- Only the uses of the first case write anything.
  · refine .leaves (fun slot content hwrites => ?_) (by rw [objects_after h hu])
    cases u with
    | write | assign => exact hu trivial
    | _ => exact hwrites

/-- A slot was written, and not again since then. -/
def LastWritten (r : Nat) (slot : Slot) (content : Datum) (h : Heap) (us : List Use) : Prop :=
  Since (fun h u => u.Writes h r slot content) (fun h u => ∀ content', ¬u.Writes h r slot content') h us

/-- A slot was not written. -/
def Unwritten (r : Nat) (slot : Slot) (h : Heap) (us : List Use) : Prop :=
  Throughout (fun h u => ∀ content, ¬u.Writes h r slot content) h us

/-- A slot of an object that is no list reads as what was written to it last, or else as before. -/
theorem read_afterUses (hr : r < h.objects.size) (hfixed : (h.objects.get r).IsFixed) (slot : Slot)
    (content : Datum) (us : List Use) :
    ((afterUses us h).objects.get r).read slot = some content
      ↔ LastWritten r slot content h us
        ∨ Unwritten r slot h us ∧ (h.objects.get r).read slot = some content := by
  -- From the end of the run, since it is the last write that counts.
  induction us using List.reverseRecOn with
  | nil => exact ⟨fun hread => .inr ⟨trivial, hread⟩, fun hor => (hor.resolve_left not_since_nil).2⟩
  | append_singleton us u ih =>
      have hages := ages_afterUses us h
      have hthere : r < (afterUses us h).objects.size := Nat.lt_of_lt_of_le hr hages.objects
      rw [afterUses_concat, LastWritten, since_concat, Unwritten, throughout_concat, ← LastWritten,
        ← Unwritten]
      cases alters_after hthere ((hages.kin hr).isFixed hfixed) u with
      | @writes slot' content' hu hobject =>
          rw [HostObject.read_of_write hobject slot]
          by_cases hslot : slot = slot'
          · simp [hu, hslot, eq_comm (a := content)]
          · simp [hu, hslot, ih]
      | leaves hu hobject =>
          rw [hobject, ih]
          simp [hu]

/-! ### Records as ordered maps -/

/-- A slot of a record is written: the record is one with the same declarations, the slot reads as the
new content, and nothing else changes. -/
theorem run_writeSlot_record {typeName : String} {fields : Record} {o : HostObject}
    (hr : h.objects.get r = .record typeName fields)
    (hwrite : (h.objects.get r).write slot content = .ok o) :
    (writeSlot r slot content).run h = (.ok (), { h with objects := h.objects.set r o })
      ∧ o.typeName = (h.objects.get r).typeName ∧ o.layout = (h.objects.get r).layout
      ∧ ∀ slot', o.read slot' = if slot' = slot then some content else (h.objects.get r).read slot' := by
  have hkin := HostObject.kin_of_write hwrite
  rw [hr] at hkin
  obtain ⟨fields', rfl, hinfos⟩ := HostObject.exists_record_of_kin hkin
  refine ⟨?_, ?_, ?_, HostObject.read_of_write hwrite⟩
  · rw [run_writeSlot, hwrite]
  · rw [hr]
    rfl
  · rw [hr, HostObject.layout, HostObject.layout, hinfos]

/-- A write that is refused changes nothing. -/
theorem run_writeSlot_of_refused
    (hno : ¬∃ o, (h.objects.get r).write slot content = .ok o) :
    (writeSlot r slot content).run h = (.error (.unsupportedTarget slot.text), h) := by
  rw [run_writeSlot]
  cases hwrite : (h.objects.get r).write slot content with
  | ok o => exact absurd ⟨o, hwrite⟩ hno
  | error failure => rw [HostObject.eq_of_write_error hwrite]

/-- The object that a record becomes when it is made, and the heap with it. -/
theorem get_makeObject (h : Heap) (o : HostObject) :
    h.objects.size < (h.after (.makeObject o)).objects.size
      ∧ (h.after (.makeObject o)).objects.get h.objects.size = o := by
  have hobjects : (h.after (.makeObject o)).objects = h.objects.push o := rfl
  rw [hobjects, Arena.size_push, Arena.get_push, if_pos rfl]
  exact ⟨Nat.lt_succ_self _, rfl⟩

/-- A record that was made in any steps, and then used among other things, is an ordered map in which
some fields are protected. While it is made, inherited fields come behind those that are there and change
none of them; an own field with the name of one that is there takes its place. Afterwards the layout lists
each name once, in the order of first mention, always with the declaration that is in force. A field reads
as what was last written to it, or else as it was in force when the record was made. A write succeeds
exactly for a field that is declared and not final. Then this field changes, and neither another one nor
the layout; and a write that fails changes nothing. -/
theorem record_is_ordered_map (h : Heap) (ms : List Making) (typeName : String) (us : List Use) :
    let as := additions h ms
    let made := makeAll ms h
    let r := made.2.objects.size
    let built := made.2.after (.makeObject (.record typeName made.1))
    let h' := afterUses us built
    let o := h'.objects.get r
    (∀ base, made.1 <+: (makeAll (ms ++ [.inherit base]) h).1)
    ∧ (∀ f, f.info.name ∈ Record.firstNames as → (makeAll (ms ++ [.declare f]) h).1
        = made.1.map fun g => if g.info.name = f.info.name then f else g)
    ∧ (Record.firstNames as).Nodup
    ∧ (∃ infos, o.layout = .record infos ∧ infos.map (·.name) = Record.firstNames as
      ∧ ∀ info ∈ infos, (Record.inForce as info.name).map (·.info) = some info)
    ∧ (∀ name content, o.read (.field name) = some content
      ↔ LastWritten r (.field name) content built us
        ∨ Unwritten r (.field name) built us
          ∧ (Record.inForce as name).map (·.content) = some content)
    ∧ ∀ slot content,
      (Record.IsOpen as slot → ∃ o',
        (writeSlot r slot content).run h' = (.ok (), { h' with objects := h'.objects.set r o' })
        ∧ o'.typeName = o.typeName ∧ o'.layout = o.layout
        ∧ ∀ slot', o'.read slot' = if slot' = slot then some content else o.read slot')
      ∧ (¬Record.IsOpen as slot →
        (writeSlot r slot content).run h' = (.error (.unsupportedTarget slot.text), h')) := by
  intro as made r built h' o
  have hresolves : Record.Resolves as made.1 := resolves_makeAll ms h
  have hdistinct : made.1.IsDistinct := isDistinct_makeAll ms h
  obtain ⟨hr, hbuilt⟩ : r < built.objects.size ∧ built.objects.get r = .record typeName made.1 :=
    made.2.get_makeObject _
  have hkin : (built.objects.get r).Kin o := (ages_afterUses us built).kin hr
  have hfixed : (built.objects.get r).IsFixed := by
    rw [hbuilt]
    trivial
  rw [hbuilt] at hkin
  obtain ⟨fields, ho, hinfos⟩ := HostObject.exists_record_of_kin hkin
  have hopen : ∀ slot content, Record.IsOpen as slot ↔ ∃ o', o.write slot content = .ok o' := by
    rw [ho]
    exact HostObject.isOpen_iff_exists_write hresolves hinfos
  refine ⟨fun base => ?_, fun f hf => ?_, ?_, ⟨made.1.map (·.info), ?_, ?_, ?_⟩, fun name content => ?_,
    fun slot content => ⟨fun hslot => ?_, fun hslot => ?_⟩⟩
  · rw [makeAll_concat]
    exact Record.prefix_inherit _ _
  · rw [makeAll_concat]
    exact Record.declare_eq_map hdistinct (hresolves.names ▸ hf)
  · rw [← hresolves.names]
    exact hdistinct
  · rw [ho, HostObject.layout, hinfos]
  · rw [List.map_map]
    exact hresolves.names
  · exact fun info => hresolves.info hdistinct
  · have hread : (built.objects.get r).read (.field name) = (Record.inForce as name).map (·.content) := by
      rw [hbuilt, HostObject.read, hresolves.find]
    rw [← hread]
    exact read_afterUses hr hfixed (.field name) content us
  · obtain ⟨o', hwrite⟩ := (hopen slot content).mp hslot
    exact ⟨o', run_writeSlot_record ho hwrite⟩
  · exact run_writeSlot_of_refused (mt (hopen slot content).mpr hslot)

/-- A record of two fields, which serves as a base. -/
def shapeAlone : Heap :=
  { (∅ : Heap) with
    objects := ⟨#[.record "Shape" [⟨⟨"name", .text, .isPublic, false, false⟩, .text 0 "shape"⟩,
      ⟨⟨"count", .text, .isPublic, true, false⟩, .null⟩]]⟩ }

/-- A record with a name of its own and a final tag inherits from the base. Then the base is written, and
the tag is declared once more. -/
def makePoint : List Making :=
  [.declare ⟨⟨"name", .text, .isPublic, false, false⟩, .text 1 "point"⟩,
    .declare ⟨⟨"tag", .text, .isPublic, false, true⟩, .null⟩,
    .inherit 0,
    .meanwhile (.write 0 (.field "count") (.text 2 "one")),
    .declare ⟨⟨"tag", .text, .isPrivate, false, true⟩, .text 3 "p"⟩]

/-- The record is written twice, the second time in vain, and the base once. -/
def usePoint : List Use :=
  [.write 1 (.field "name") (.text 4 "origin"), .write 1 (.field "tag") .null,
    .write 0 (.field "name") .null]

/-- The heap in which the record was made. -/
def pointBuilt : Heap :=
  (makeAll makePoint shapeAlone).2.after (.makeObject (.record "Point" (makeAll makePoint shapeAlone).1))

/-- The record lists its name, its tag and the count of the base, in this order. Its name is what
was written to it last, its count was never written and can be, and its tag can not. -/
theorem record_is_ordered_map_point :
    let h := afterUses usePoint pointBuilt
    (∃ infos, (h.objects.get 1).layout = .record infos ∧ infos.map (·.name) = ["name", "tag", "count"])
      ∧ (h.objects.get 1).read (.field "name") = some (.text 4 "origin")
      ∧ (h.objects.get 1).read (.field "count") = some .null
      ∧ (writeSlot 1 (.field "tag") .null).run h = (.error (.unsupportedTarget "tag"), h)
      ∧ ∃ o, (writeSlot 1 (.field "count") .null).run h = (.ok (), { h with objects := h.objects.set 1 o }) := by
  obtain ⟨-, -, -, ⟨infos, hlayout, hnames, -⟩, hread, hwrite⟩ :=
    record_is_ordered_map shapeAlone makePoint "Point" usePoint
  have hname : LastWritten 1 (.field "name") (.text 4 "origin") pointBuilt usePoint :=
    ⟨[], _, _, rfl, ⟨rfl, rfl, rfl, by decide⟩, fun _ hu => absurd hu.2.1 (by decide),
      fun _ hu => absurd hu.1 (by decide), trivial⟩
  have hcount : Unwritten 1 (.field "count") pointBuilt usePoint :=
    ⟨fun _ hu => absurd hu.2.1 (by decide), fun _ hu => absurd hu.2.1 (by decide),
      fun _ hu => absurd hu.1 (by decide), trivial⟩
  have hopen : Record.IsOpen (additions shapeAlone makePoint) (.field "count") :=
    ⟨⟨⟨"count", .text, .isPublic, true, false⟩, .null⟩, by decide, rfl⟩
  have htag : ¬Record.IsOpen (additions shapeAlone makePoint) (.field "tag") := by
    have hfinal : (Record.inForce (additions shapeAlone makePoint) "tag").map (·.info.isFinal) = some true := by
      decide
    rintro ⟨f, hf, hnot⟩
    rw [hf, Option.map_some, hnot] at hfinal
    cases hfinal
  obtain ⟨o, hdone, -⟩ := (hwrite (.field "count") .null).1 hopen
  exact ⟨⟨infos, hlayout, hnames.trans (by decide)⟩, (hread "name" _).mpr (.inl hname),
    (hread "count" _).mpr (.inr ⟨hcount, by decide⟩), (hwrite (.field "tag") .null).2 htag, o, hdone⟩

end Heap

end DebugBridge
