import DebugBridge.Proofs.Slots

/-!
# What becomes of children

The children of a value are variables of their own, made once, when they are first asked for. The layout
of the object says what each of them is: an element of an array and a field of a record are slots of the
object, and an item of a collection is a binding. From then on a child goes its own way. Objects are
written and lists grow, values are replaced, moved and merged. Through all of that a child keeps its name
and its origin, and an array its length and a record its declarations; so that a child that is a slot
still has the place for which it was made.

Whether an assignment to a child is accepted can therefore be told from the child alone. And what becomes
of it depends on the layout of the object: slots are written on the spot, but an item of a collection
is taken for a variable of the interpreter, which is asked to change the one of that name.

## Main definitions

* `HostObject.Kin`: objects of one kind with the same places;
* `Heap.Ages`: a later heap, in which variables and objects are what they were;
* `Heap.Use`, `Heap.afterUses`: what is done with values, variables and objects;
* `Layout.Yields`: the names and origins of the children of a layout.

## Main results

* `Heap.ages_afterUses`: whatever is done, the heap is a later one;
* `Heap.yields_of_mem_childrenOf`: children are what the layout says;
* `assign_child_of_slots`: an assignment to a child of an array or a record succeeds if it is accepted;
* `assign_child_by_layout`: which assignments to children ask the interpreter.
-/

namespace DebugBridge

/-! ### Objects that stay what they are -/

namespace HostObject

variable {o o' o'' : HostObject} {slot : Slot} {content : Datum}

/-- Objects of one kind with the same places: arrays keep their length, records their declarations. -/
inductive Kin : HostObject → HostObject → Prop where
  | array {element : SlotType} {items items' : Array Datum} (h : items'.size = items.size) :
      Kin (.array element items) (.array element items')
  | list {name : String} {items items' : Array Datum} : Kin (.list name items) (.list name items')
  | record {name : String} {fields fields' : Record}
      (h : fields'.map (·.info) = fields.map (·.info)) : Kin (.record name fields) (.record name fields')
  | hollow {name : String} {layout : Layout} : Kin (.hollow name layout) (.hollow name layout)

/-- An object is of its own kind. -/
theorem Kin.refl (o : HostObject) : o.Kin o := by
  cases o with
  | array element items => exact .array rfl
  | list name items => exact .list
  | record name fields => exact .record rfl
  | hollow name layout => exact .hollow

/-- Objects that are of one kind with a third are of one kind. -/
theorem Kin.trans (h : o.Kin o') (h' : o'.Kin o'') : o.Kin o'' := by
  cases h with
  | array h =>
      cases h' with
      | array h' => exact .array (h'.trans h)
  | list =>
      cases h' with
      | list => exact .list
  | record h =>
      cases h' with
      | record h' => exact .record (h'.trans h)
  | hollow => exact h'

/-- An object that takes content into a slot stays of its kind. -/
theorem kin_of_write (h : o.write slot content = .ok o') : o.Kin o' := by
  unfold write at h
  cases o with
  | array element items =>
      cases slot with
      | field name => cases h
      | element index =>
          dsimp only at h
          split at h
          · cases h
            exact .array Array.size_setIfInBounds
          · cases h
  | record name fields =>
      cases slot with
      | element index => cases h
      | field key =>
          dsimp only at h
          split at h
          · next hassign =>
              cases h
              exact .record (Record.infos_assign? hassign)
          · cases h
  | list name items => cases slot <;> cases h
  | hollow name layout => cases slot <;> cases h

/-- A list that grows is still a list, and nothing else grows. -/
theorem kin_append (o : HostObject) (item : Datum) : o.Kin (o.append item) := by
  cases o with
  | list name items => exact .list
  | array element items => exact .refl _
  | record name fields => exact .refl _
  | hollow name layout => exact .refl _

/-- An object whose children are slots that can be written: an array, or a record whose fields have
different names, as in every record that is built field by field. -/
def HasSlots : HostObject → Prop
  | .array _ _ => True
  | .record _ fields => fields.IsDistinct
  | .list _ _ => False
  | .hollow _ _ => False

end HostObject

/-! ### Heaps that go on -/

namespace Heap

variable {h h' h'' : Heap} {x : VariableId} {v : ValueId}

/-- A later heap: variables have the names and origins that they had, and objects the places. -/
structure Ages (h h' : Heap) : Prop where
  bindings : h.bindings.size ≤ h'.bindings.size
  name : ∀ {x}, x < h.bindings.size → (h'.bindings.get x).name = (h.bindings.get x).name
  origin : ∀ {x}, x < h.bindings.size → (h'.bindings.get x).origin = (h.bindings.get x).origin
  objects : h.objects.size ≤ h'.objects.size
  kin : ∀ {o}, o < h.objects.size → (h.objects.get o).Kin (h'.objects.get o)

/-- A heap is later than itself. -/
theorem Ages.refl (h : Heap) : h.Ages h :=
  ⟨Nat.le_refl _, fun _ => rfl, fun _ => rfl, Nat.le_refl _, fun _ => .refl _⟩

/-- What is later than a later heap is later. -/
theorem Ages.trans (ha : h.Ages h') (ha' : h'.Ages h'') : h.Ages h'' where
  bindings := Nat.le_trans ha.bindings ha'.bindings
  name hx := (ha'.name (Nat.lt_of_lt_of_le hx ha.bindings)).trans (ha.name hx)
  origin hx := (ha'.origin (Nat.lt_of_lt_of_le hx ha.bindings)).trans (ha.origin hx)
  objects := Nat.le_trans ha.objects ha'.objects
  kin ho := (ha.kin ho).trans (ha'.kin (Nat.lt_of_lt_of_le ho ha.objects))

/-- What changes no variable and no object makes a later heap. -/
theorem Ages.of_eq (hb : h'.bindings = h.bindings) (ho : h'.objects = h.objects) : h.Ages h' where
  bindings := Nat.le_of_eq (congrArg Arena.size hb.symm)
  name _ := by rw [hb]
  origin _ := by rw [hb]
  objects := Nat.le_of_eq (congrArg Arena.size ho.symm)
  kin _ := by
    rw [ho]
    exact .refl _

/-- To write one object makes a later heap. -/
theorem Ages.of_object (owner : Nat) (hb : h'.bindings = h.bindings)
    (hs : h.objects.size ≤ h'.objects.size) (hkin : (h.objects.get owner).Kin (h'.objects.get owner))
    (ho : ∀ o, o ≠ owner → h'.objects.get o = h.objects.get o) : h.Ages h' where
  bindings := Nat.le_of_eq (congrArg Arena.size hb.symm)
  name _ := by rw [hb]
  origin _ := by rw [hb]
  objects := hs
  kin {o} _ := by
    by_cases howner : o = owner
    · exact howner ▸ hkin
    · rw [ho o howner]
      exact .refl _

end Heap

/-- An operation that makes a later heap of every heap. -/
def Aging {α : Type} (op : HeapM α) : Prop :=
  ∀ h : Heap, h.Ages (op.run h).2

namespace Aging

variable {α β : Type}

/-- To do nothing makes a later heap. -/
theorem pure (a : α) : Aging (pure a) :=
  fun h => .refl h

/-- To look at a heap makes a later one. -/
theorem get : Aging (get : HeapM Heap) :=
  fun h => .refl h

/-- Two operations that make later heaps do so one after the other. -/
theorem bind {op : HeapM α} {f : α → HeapM β} (hop : Aging op) (hf : ∀ a, Aging (f a)) :
    Aging (op >>= f) :=
  fun h => (hop h).trans (hf _ _)

/-- An operation that makes later heaps does so for each of a list. -/
theorem mapM {f : α → HeapM β} (hf : ∀ a, Aging (f a)) (xs : List α) : Aging (xs.mapM f) := by
  induction xs with
  | nil => exact pure _
  | cons x xs ih =>
      rw [List.mapM_cons]
      exact bind (hf x) fun y => bind ih fun ys => pure _

/-- An operation that makes later heaps does so for each of a list, whatever it gives back. -/
theorem forM {f : α → HeapM PUnit} (hf : ∀ a, Aging (f a)) (xs : List α) : Aging (xs.forM f) := by
  induction xs with
  | nil => exact pure _
  | cons x xs ih => exact bind (hf x) fun _ => ih

end Aging

section Operations

open Heap

/-- A new text changes no variable and no object. -/
theorem aging_newText (content : String) : Aging (newText content) :=
  fun _ => .of_eq rfl rfl

/-- A new value changes no variable and no object. -/
theorem aging_newValue (parent : Parent) (raw : Datum) : Aging (newValue parent raw) :=
  fun _ => .of_eq rfl rfl

/-- A value that is changed changes no variable and no object. -/
theorem aging_modifyValue (v : ValueId) (f : Value → Value) : Aging (modifyValue v f) :=
  fun _ => .of_eq rfl rfl

/-- A variable that is changed keeps its name and its origin. -/
theorem aging_modifyVariable (x : VariableId) {f : Variable → Variable} (hname : ∀ b, (f b).name = b.name)
    (horigin : ∀ b, (f b).origin = b.origin) : Aging (modifyVariable x f) := by
  intro h
  refine ⟨Arena.size_le_modify _ _ _, fun {z} _ => ?_, fun {z} _ => ?_, Nat.le_refl _, fun _ => .refl _⟩
  · rw [binding_modifyVariable]
    split
    · next hz => exact hz ▸ hname _
    · rfl
  · rw [binding_modifyVariable]
    split
    · next hz => exact hz ▸ horigin _
    · rfl

/-- A new object is none of those that are there. -/
theorem aging_newObject (object : HostObject) : Aging (newObject object) := by
  intro h
  have hobjects : ((newObject object).run h).2.objects = h.objects.push object := rfl
  refine ⟨Nat.le_refl _, fun _ => rfl, fun _ => rfl, ?_, fun {o} ho => ?_⟩
  · rw [hobjects, Arena.size_push]
    exact Nat.le_succ _
  · rw [hobjects, Arena.get_push, if_neg (Nat.ne_of_lt ho)]
    exact .refl _

/-- A new variable comes behind all others, with a value behind all others. -/
theorem run_newVariable (name : String) (origin : Origin) (raw : Datum) (parent : Parent) (h : Heap) :
    (newVariable name origin raw parent).run h = (h.bindings.size,
      { h with
        values := h.values.push ⟨parent, raw, none, none⟩
        bindings := h.bindings.push ⟨name, origin, parent, h.values.size, false⟩ }) :=
  rfl

/-- A new variable is none of those that are there. -/
theorem aging_newVariable (name : String) (origin : Origin) (raw : Datum) (parent : Parent) :
    Aging (newVariable name origin raw parent) := by
  intro h
  rw [run_newVariable]
  have hold : ∀ {x}, x < h.bindings.size →
      (h.bindings.push ⟨name, origin, parent, h.values.size, false⟩).get x = h.bindings.get x :=
    fun hx => by rw [Arena.get_push, if_neg (Nat.ne_of_lt hx)]
  refine ⟨?_, fun hx => ?_, fun hx => ?_, Nat.le_refl _, fun _ => .refl _⟩
  · rw [Arena.size_push]
    exact Nat.le_succ _
  · rw [hold hx]
  · rw [hold hx]

/-- A variable that is reported is a new one. -/
theorem aging_make (r : Report) : Aging r.make := by
  obtain ⟨name, content, rendered⟩ := r
  refine (aging_newVariable _ _ _ _).bind fun x => ?_
  cases rendered with
  | none => exact .pure _
  | some text => exact Aging.get.bind fun _ => (aging_modifyValue _ _).bind fun _ => .pure _

/-- To number what is shown changes no variable and no object. -/
theorem aging_displayId (session : Option Nat) (datum : Datum) : Aging (displayId session datum) := by
  cases session with
  | none => exact .pure _
  | some s => exact fun _ => .of_eq rfl rfl

/-- To show content changes no variable and no object. -/
theorem aging_datumText (session : Option Nat) (datum : Datum) : Aging (datumText session datum) := by
  cases datum with
  | null => exact .pure _
  | scalar value => exact .pure _
  | text id content => exact (aging_displayId _ _).bind fun _ => .pure _
  | object id => exact Aging.get.bind fun _ => (aging_displayId _ _).bind fun _ => .pure _

/-- To show a value changes no variable and no object. -/
theorem aging_valueText (reach : Parent → Option Nat) (v : ValueId) : Aging (valueText reach v) := by
  refine Aging.get.bind fun h => ?_
  dsimp only
  cases (h.values.get v).rendered with
  | some text => exact .pure _
  | none => exact aging_datumText _ _

/-- A variable that moves keeps its name and its origin, however deep the move goes. -/
theorem aging_moveVariableTo (p : Parent) (depth : Nat) (x : VariableId) :
    Aging (moveVariableTo p depth x) := by
  have hmove : ∀ x, Aging (modifyVariable x fun binding => { binding with parent := p }) :=
    fun x => aging_modifyVariable x (fun _ => rfl) fun _ => rfl
  induction depth generalizing x with
  | zero => exact (hmove x).bind fun _ => Aging.get.bind fun _ => aging_modifyValue _ _
  | succ depth ih =>
      exact (hmove x).bind fun _ => Aging.get.bind fun _ => (aging_modifyValue _ _).bind fun _ =>
        Aging.get.bind fun _ => .forM ih _

/-- A variable that moves keeps its name and its origin. -/
theorem aging_moveVariable (x : VariableId) (p : Parent) : Aging (moveVariable x p) :=
  Aging.get.bind fun _ => aging_moveVariableTo p _ x

/-- Variables in a value that moves keep their names and origins. -/
theorem aging_moveValue (v : ValueId) (p : Parent) : Aging (moveValue v p) :=
  (aging_modifyValue _ _).bind fun _ => Aging.get.bind fun _ => .forM (fun x => aging_moveVariable x p) _

/-- A variable that takes another value keeps its name and its origin. -/
theorem aging_replaceValue (reach : Parent → Option Nat) (x : VariableId) (v : ValueId) :
    Aging (replaceValue reach x v) :=
  Aging.get.bind fun _ => (aging_moveValue _ _).bind fun _ => (aging_valueText _ _).bind fun _ =>
    (aging_valueText _ _).bind fun _ => aging_modifyVariable x (fun _ => rfl) fun _ => rfl

/-- A frame that takes variables in leaves them their names and origins. -/
theorem aging_mergeVariables (reach : Parent → Option Nat) (f : FrameRef)
    (known reported : List VariableId) : Aging (mergeVariables reach f known reported) := by
  refine Aging.bind (.mapM (fun y => Aging.get.bind fun h => ?_) _) fun _ => Aging.get.bind fun _ => .pure _
  dsimp only
  split
  · exact (aging_replaceValue _ _ _).bind fun _ => .pure _
  · exact (aging_moveVariable _ _).bind fun _ => .pure _

/-- To put variables in order changes none. -/
theorem aging_inNameOrder (xs : List VariableId) : Aging (inNameOrder xs) :=
  Aging.get.bind fun _ => .pure _

/-- The variable of a slot is a new one. -/
theorem aging_slotVariable (owner : Nat) (slot : Slot) (origin : Origin) (parent : Parent) :
    Aging (slotVariable owner slot origin parent) :=
  Aging.get.bind fun _ => aging_newVariable _ _ _ _

/-- The children of an object are new variables. -/
theorem aging_enumerateObject (owner : Nat) (parent : Parent) : Aging (enumerateObject owner parent) := by
  refine Aging.get.bind fun h => ?_
  cases (h.objects.get owner).layout with
  | array element length => exact .mapM (fun _ => aging_slotVariable _ _ _ _) _
  | collection items => exact .mapM (fun _ => aging_newVariable _ _ _ _) _
  | record fields => exact .mapM (fun _ => aging_slotVariable _ _ _ _) _
  | closed => exact .pure _

/-- Children are known already, or they are new variables. -/
theorem aging_childrenOf (v : ValueId) : Aging (childrenOf v) := by
  refine Aging.get.bind fun h => ?_
  dsimp only
  cases (h.values.get v).children with
  | some children => exact .pure _
  | none =>
      refine Aging.bind ?_ fun _ => (aging_modifyValue _ _).bind fun _ => .pure _
      cases (h.values.get v).raw with
      | object owner => exact (aging_enumerateObject _ _).bind fun _ => aging_inNameOrder _
      | null | scalar | text => exact .pure _

/-- A value that is given children takes no name and no origin from them. -/
theorem aging_giveChildren (v : ValueId) (xs : List VariableId) : Aging (giveChildren v xs) :=
  (aging_inNameOrder xs).bind fun _ => aging_modifyValue _ _

/-- An object that is written stays of its kind. -/
theorem aging_writeSlot (owner : Nat) (slot : Slot) (content : Datum) :
    Aging (writeSlot owner slot content) := by
  intro h
  rw [Heap.run_writeSlot]
  cases hwrite : (h.objects.get owner).write slot content with
  | error failure => exact .refl h
  | ok object =>
      refine .of_object owner rfl (Arena.size_le_set _ _ _) ?_ fun o ho => ?_
      · rw [Arena.get_set_self]
        exact HostObject.kin_of_write hwrite
      · exact Arena.get_set_of_ne _ (Ne.symm ho) _

/-- An assignment that is refused changes nothing, and one that is carried out writes one object. -/
theorem aging_assignSlot (x : VariableId) (owner : Nat) (slot : Slot) (type : SlotType)
    (expression : String) : Aging (assignSlot x owner slot type expression) := by
  intro h
  obtain ⟨⟨failure, hrefused⟩, -⟩ | ⟨draft, h', hdone, -, -, htakes⟩ :=
    h.assignSlot_cases x owner slot type expression
  · rw [hrefused]
    exact .refl h
  · rw [hdone]
    exact .of_object owner htakes.bindings htakes.size (HostObject.kin_of_write htakes.written) htakes.objects

end Operations

/-! ### Whatever is done -/

namespace Heap

variable {h h' : Heap} {x : VariableId} {v : ValueId} {owner : Nat}

/-- What is done with values, variables and objects, by whomever. -/
inductive Use where
  | makeText (content : String)
  | makeObject (object : HostObject)
  | makeValue (parent : Parent) (raw : Datum)
  | makeVariable (name : String) (origin : Origin) (raw : Datum) (parent : Parent)
  /-- An interpreter reports a variable. -/
  | report (r : Report)
  /-- A slot of an object is written by itself. -/
  | write (owner : Nat) (slot : Slot) (content : Datum)
  /-- A list grows. -/
  | append (owner : Nat) (item : Datum)
  /-- An expression is assigned to a variable that is a slot. -/
  | assign (x : VariableId) (expression : String)
  | replaceContent (v : ValueId) (raw : Datum)
  | setRendered (v : ValueId) (text : String)
  /-- A variable takes a value, and shows whether it changed. -/
  | replaceValue (reach : Parent → Option Nat) (x : VariableId) (v : ValueId)
  /-- A frame takes reported variables in. -/
  | merge (reach : Parent → Option Nat) (f : FrameRef) (known reported : List VariableId)
  | enumerate (v : ValueId)
  | giveChildren (v : ValueId) (xs : List VariableId)
  | moveVariable (x : VariableId) (p : Parent)
  | moveValue (v : ValueId) (p : Parent)
  /-- Somebody looks at a value. -/
  | look (reach : Parent → Option Nat) (v : ValueId)
  /-- Content is shown that belongs to no value. -/
  | display (session : Option Nat) (datum : Datum)

/-- The heap after a use. -/
def after (h : Heap) : Use → Heap
  | .makeText content => ((newText content).run h).2
  | .makeObject object => ((newObject object).run h).2
  | .makeValue parent raw => ((newValue parent raw).run h).2
  | .makeVariable name origin raw parent => ((newVariable name origin raw parent).run h).2
  | .report r => (r.make.run h).2
  | .write owner slot content => ((writeSlot owner slot content).run h).2
  | .append owner item => { h with objects := h.objects.modify owner (·.append item) }
  | .assign x expression =>
    match (h.bindings.get x).origin.slot? with
    | none => h
    | some (owner, slot, type) => ((assignSlot x owner slot type expression).run h).2
  | .replaceContent v raw => ((DebugBridge.replaceContent v raw).run h).2
  | .setRendered v text => ((DebugBridge.setRendered v text).run h).2
  | .replaceValue reach x v => ((DebugBridge.replaceValue reach x v).run h).2
  | .merge reach f known reported => ((mergeVariables reach f known reported).run h).2
  | .enumerate v => ((childrenOf v).run h).2
  | .giveChildren v xs => ((DebugBridge.giveChildren v xs).run h).2
  | .moveVariable x p => ((DebugBridge.moveVariable x p).run h).2
  | .moveValue v p => ((DebugBridge.moveValue v p).run h).2
  | .look reach v => ((valueText reach v).run h).2
  | .display session datum => ((datumText session datum).run h).2

/-- The heap after several uses, one after the other. -/
def afterUses (us : List Use) (h : Heap) : Heap :=
  us.foldl after h

/-- Every use makes a later heap. -/
theorem ages_after (h : Heap) (u : Use) : h.Ages (h.after u) := by
  cases u with
  | makeText content => exact aging_newText content h
  | makeObject object => exact aging_newObject object h
  | makeValue parent raw => exact aging_newValue parent raw h
  | makeVariable name origin raw parent => exact aging_newVariable name origin raw parent h
  | report r => exact aging_make r h
  | write owner slot content => exact aging_writeSlot owner slot content h
  | append owner item =>
      refine .of_object owner rfl (Arena.size_le_modify _ _ _) ?_ fun o ho => ?_
      · rw [after, Arena.get_modify, if_pos rfl]
        exact HostObject.kin_append _ item
      · rw [after, Arena.get_modify, if_neg (Ne.symm ho)]
  | assign x expression =>
      rw [after]
      split
      · exact .refl h
      · exact aging_assignSlot _ _ _ _ _ h
  | replaceContent v raw => exact aging_modifyValue v _ h
  | setRendered v text => exact aging_modifyValue v _ h
  | replaceValue reach x v => exact aging_replaceValue reach x v h
  | merge reach f known reported => exact aging_mergeVariables reach f known reported h
  | enumerate v => exact aging_childrenOf v h
  | giveChildren v xs => exact aging_giveChildren v xs h
  | moveVariable x p => exact aging_moveVariable x p h
  | moveValue v p => exact aging_moveValue v p h
  | look reach v => exact aging_valueText reach v h
  | display session datum => exact aging_datumText session datum h

/-- Whatever is done, the heap is a later one. -/
theorem ages_afterUses (us : List Use) (h : Heap) : h.Ages (afterUses us h) := by
  induction us generalizing h with
  | nil => exact .refl h
  | cons u us ih => exact (h.ages_after u).trans (ih (h.after u))

end Heap

/-! ### Children -/

/-- The names and origins of the children of an object with a layout. -/
def Layout.Yields (owner : Nat) (name : String) (origin : Origin) : Layout → Prop
  | .array element length =>
    ∃ i < length, name = (Slot.element i).text ∧ origin = .element owner i element
  | .collection items => (∃ i < items.length, name = (Slot.element i).text) ∧ origin = .binding none
  | .record fields =>
    ∃ info ∈ fields, info.isStatic = false ∧ name = info.name ∧ origin = .field owner info
  | .closed => False

namespace Heap

variable {h h' : Heap} {x : VariableId} {v : ValueId} {owner : Nat}

/-- Variables that came into being, with names and origins of some kind. -/
def Bears (P : String → Origin → Prop) (h h' : Heap) (xs : List VariableId) : Prop :=
  h.Ages h' ∧ ∀ x ∈ xs, x < h'.bindings.size ∧ P (h'.bindings.get x).name (h'.bindings.get x).origin

/-- Operations that make a variable each, one after the other. -/
theorem bears_mapM {α : Type} {P : String → Origin → Prop} {op : α → HeapM VariableId} {as : List α}
    (hop : ∀ a ∈ as, ∀ h : Heap, h.Bears P ((op a).run h).2 [((op a).run h).1]) (h : Heap) :
    h.Bears P ((as.mapM op).run h).2 ((as.mapM op).run h).1 := by
  induction as generalizing h with
  | nil => exact ⟨.refl h, List.forall_mem_nil _⟩
  | cons a as ih =>
      obtain ⟨hages, hfirst⟩ := hop a List.mem_cons_self h
      obtain ⟨hages', hrest⟩ := ih (fun b hb => hop b (List.mem_cons_of_mem a hb)) ((op a).run h).2
      have hfirst := hfirst _ List.mem_cons_self
      have hrun : ((a :: as).mapM op).run h
          = (((op a).run h).1 :: ((as.mapM op).run ((op a).run h).2).1,
            ((as.mapM op).run ((op a).run h).2).2) := by
        rw [List.mapM_cons]
        rfl
      rw [hrun]
      refine ⟨hages.trans hages', fun x hx => ?_⟩
      rcases List.mem_cons.mp hx with rfl | hx
      · refine ⟨Nat.lt_of_lt_of_le hfirst.1 hages'.bindings, ?_⟩
        rw [hages'.name hfirst.1, hages'.origin hfirst.1]
        exact hfirst.2
      · exact hrest x hx

/-- A new variable has the name and the origin that it was made with. -/
theorem bears_newVariable {P : String → Origin → Prop} {name : String} {origin : Origin}
    (hP : P name origin) (raw : Datum) (parent : Parent) (h : Heap) :
    h.Bears P ((newVariable name origin raw parent).run h).2
      [((newVariable name origin raw parent).run h).1] := by
  refine ⟨aging_newVariable name origin raw parent h, fun x hx => ?_⟩
  obtain rfl := List.mem_singleton.mp hx
  rw [run_newVariable]
  refine ⟨by simp, ?_⟩
  rw [Arena.get_push, if_pos rfl]
  exact hP

/-- The variable of a slot has the name of the slot, and its origin. -/
theorem bears_slotVariable {P : String → Origin → Prop} {slot : Slot} {origin : Origin}
    (hP : P slot.text origin) (owner : Nat) (parent : Parent) (h : Heap) :
    h.Bears P ((slotVariable owner slot origin parent).run h).2
      [((slotVariable owner slot origin parent).run h).1] :=
  bears_newVariable hP _ parent h

/-- The children of an object are what its layout says. -/
theorem bears_enumerateObject (owner : Nat) (parent : Parent) (h : Heap) :
    h.Bears (fun name origin => (h.objects.get owner).layout.Yields owner name origin)
      ((enumerateObject owner parent).run h).2 ((enumerateObject owner parent).run h).1 := by
  have hget : (get : HeapM Heap).run h = (h, h) := rfl
  unfold enumerateObject
  rw [run_bind_heap hget]
  cases (h.objects.get owner).layout with
  | array element length =>
      refine bears_mapM (fun i hi u => bears_slotVariable ?_ owner parent u) h
      exact ⟨i, List.mem_range.mp hi, rfl, rfl⟩
  | collection items =>
      refine bears_mapM (fun a ha u => bears_newVariable ?_ a.1 parent u) h
      exact ⟨⟨a.2, List.snd_lt_of_mem_zipIdx ha, rfl⟩, rfl⟩
  | record fields =>
      refine bears_mapM (fun info hinfo u => bears_slotVariable ?_ owner parent u) h
      exact ⟨info, (List.mem_filter.mp hinfo).1, by simpa using (List.mem_filter.mp hinfo).2, rfl, rfl⟩
  | closed => exact ⟨.refl h, List.forall_mem_nil _⟩

/-- The children of a value that holds an object are what the layout of the object says. -/
theorem yields_of_mem_childrenOf (hraw : (h.values.get v).raw = .object owner)
    (hunseen : (h.values.get v).children = none) (hx : x ∈ ((childrenOf v).run h).1) :
    x < ((childrenOf v).run h).2.bindings.size
      ∧ (h.objects.get owner).layout.Yields owner (((childrenOf v).run h).2.bindings.get x).name
        (((childrenOf v).run h).2.bindings.get x).origin := by
  obtain ⟨-, hborn⟩ := bears_enumerateObject owner (h.values.get v).parent h
  let made := (enumerateObject owner (h.values.get v).parent).run h
  have hget : (get : HeapM Heap).run h = (h, h) := rfl
  have hrun : (childrenOf v).run h
      = (sortByName (fun x => (made.2.bindings.get x).name) made.1,
        { made.2 with values := made.2.values.modify v fun value =>
          { value with children := some (sortByName (fun x => (made.2.bindings.get x).name) made.1) } }) := by
    unfold childrenOf
    rw [run_bind_heap hget]
    dsimp only
    rw [hunseen, hraw]
    rfl
  rw [hrun] at hx ⊢
  exact hborn x ((perm_sortByName _ _).mem_iff.mp hx)

end Heap

/-! ### Assignments to children -/

namespace HostObject

variable {o o' : HostObject} {name : String} {origin : Origin} {owner owner' : Nat} {slot : Slot}
  {type : SlotType}

/-- The slots of a layout are slots of the object. -/
theorem slot?_of_yields {layout : Layout} (h : layout.Yields owner name origin)
    (hslot : ∀ items, layout ≠ .collection items) : ∃ slot type, origin.slot? = some (owner, slot, type) := by
  cases layout with
  | array element length =>
      obtain ⟨i, -, -, rfl⟩ := h
      exact ⟨_, _, rfl⟩
  | collection items => exact absurd rfl (hslot items)
  | record fields =>
      obtain ⟨info, -, -, -, rfl⟩ := h
      exact ⟨_, _, rfl⟩
  | closed => exact h.elim

/-- An object with slots is no collection. -/
theorem layout_ne_collection (ho : o.HasSlots) (items : List Datum) : o.layout ≠ .collection items := by
  cases o with
  | array element content => simp [layout]
  | record name fields => simp [layout]
  | list name content => exact ho.elim
  | hollow name layout => exact ho.elim

/-- An assignable slot for which a child was made lets itself be written, whatever became of the object. -/
theorem exists_write (ho : o.HasSlots) (hkin : o.Kin o') (hyields : o.layout.Yields owner name origin)
    (hslot : origin.slot? = some (owner', slot, type)) (hassignable : origin.isAssignable = true)
    (content : Datum) : ∃ o'', o'.write slot content = .ok o'' := by
  cases hkin with
  | @array element items items' hsize =>
      obtain ⟨i, hi, -, rfl⟩ := hyields
      cases hslot
      exact ⟨_, if_pos (hsize ▸ hi)⟩
  | @record name fields fields' hinfos =>
      obtain ⟨info, hinfo, -, -, rfl⟩ := hyields
      cases hslot
      have hfinal : info.isFinal = false := by
        simpa using (Bool.and_eq_true_iff.mp hassignable).2
      have hdistinct : fields'.IsDistinct := by
        have hnames := congrArg (List.map FieldInfo.name) hinfos
        rw [List.map_map, List.map_map] at hnames
        exact (congrArg List.Nodup hnames).mpr ho
      obtain ⟨fields'', hassign⟩ := Record.exists_assign? hdistinct (hinfos ▸ hinfo) hfinal content
      exact ⟨.record name fields'', by simp [write, hassign]⟩
  | list => exact ho.elim
  | hollow => exact ho.elim

end HostObject

section Children

open World

variable {h : Heap} {w : World} {us : List Heap.Use} {x : VariableId} {v : ValueId} {owner s : Nat}

/-- A child is a variable with the name and the origin that it got, whatever was done since. -/
theorem Heap.yields_later (hraw : (h.values.get v).raw = .object owner)
    (hunseen : (h.values.get v).children = none) (hx : x ∈ ((childrenOf v).run h).1) (us : List Heap.Use) :
    (h.objects.get owner).layout.Yields owner
      ((Heap.afterUses us ((childrenOf v).run h).2).bindings.get x).name
      ((Heap.afterUses us ((childrenOf v).run h).2).bindings.get x).origin := by
  obtain ⟨hthere, hyields⟩ := Heap.yields_of_mem_childrenOf hraw hunseen hx
  have hages := Heap.ages_afterUses us ((childrenOf v).run h).2
  rwa [hages.name hthere, hages.origin hthere]

/-- An object that has places for children keeps them. -/
theorem Heap.kin_later (ho : (h.objects.get owner).HasSlots) (v : ValueId) (us : List Heap.Use) :
    (h.objects.get owner).Kin ((Heap.afterUses us ((childrenOf v).run h).2).objects.get owner) := by
  have hthere : owner < h.objects.size := by
    by_contra hge
    have hdefault : h.objects.get owner = default := by
      have hcells : ¬owner < h.objects.cells.size := hge
      simp [Arena.get, hcells]
    rw [hdefault] at ho
    exact ho.elim
  exact ((aging_childrenOf v h).trans (Heap.ages_afterUses us _)).kin hthere

/-- Whether an assignment to a child of an array or of a record succeeds can be told from the child and
the expression, whatever became of the object and of the child since it was made. An assignment that is
not accepted fails and leaves the world as it was. One that is accepted is carried out: the slot and the
value of the child take what the expression stands for, nothing else does, and the front end is told once.
Then it may fail. -/
theorem assign_child_of_slots (expression : String) (hraw : (h.values.get v).raw = .object owner)
    (hunseen : (h.values.get v).children = none) (hslots : (h.objects.get owner).HasSlots)
    (hx : x ∈ ((childrenOf v).run h).1)
    (hlater : w.heap = Heap.afterUses us ((childrenOf v).run h).2) :
    ((w.heap.bindings.get x).origin.accepts expression = false →
      ∃ failure, assignVariable x expression w = .ok (.error failure) w)
    ∧ ((w.heap.bindings.get x).origin.accepts expression = true →
      ∃ slot type, (w.heap.bindings.get x).origin.slot? = some (owner, slot, type)
        ∧ CarriesOut x owner slot type expression w)
    ∧ (w.Calm → ((∃ w', assignVariable x expression w = .ok (.ok ()) w')
      ↔ (w.heap.bindings.get x).origin.accepts expression = true)) := by
  have hyields := Heap.yields_later hraw hunseen hx us
  have hkin := Heap.kin_later hslots v us
  rw [← hlater] at hyields hkin
  obtain ⟨slot, type, hslot⟩ := HostObject.slot?_of_yields hyields (HostObject.layout_ne_collection hslots)
  rcases assignVariable_of_slot hslot expression with ⟨⟨failure, hrefused⟩, hwhy⟩ | hdone
  · have hnot : ¬(w.heap.bindings.get x).origin.accepts expression = true := by
      intro hyes
      obtain ⟨hassignable, draft, hconvert⟩ := (accepts_iff hslot).mp hyes
      obtain ⟨failure, hfailed⟩ := hwhy draft hassignable hconvert
      obtain ⟨object, hwritten⟩ := HostObject.exists_write hslots hkin hyields hslot hassignable
        ((realize draft).run w.heap).1
      rw [hwritten] at hfailed
      cases hfailed
    refine ⟨fun _ => ⟨failure, hrefused⟩, fun hyes => absurd hyes hnot,
      fun _ => ⟨?_, fun hyes => absurd hyes hnot⟩⟩
    rintro ⟨w', hok⟩
    rw [hrefused] at hok
    cases hok
  · have hyes : (w.heap.bindings.get x).origin.accepts expression = true := by
      obtain ⟨draft, _, _, hconvert, -⟩ := hdone.taken
      exact (accepts_iff hslot).mpr ⟨hdone.assignable, draft, hconvert⟩
    refine ⟨fun hno => ?_, fun _ => ⟨slot, type, hslot, hdone⟩, fun hcalm => ⟨fun _ => hyes, fun _ => ?_⟩⟩
    · rw [hyes] at hno
      cases hno
    · exact hdone.ends.resolve_right fun hfails => hfails.2 hcalm

/-- What becomes of an assignment to a child depends on the layout of the object from which it was made,
whatever was done since, in any session that is attached. The children of a collection count as variables
of the interpreter: it is asked to change the one with the name of the child, and nothing else happens. An
assignment to any other child asks the interpreter for nothing. It writes the slot of the object, or it
fails and leaves the world as it was. -/
theorem assign_child_by_layout (expression : String) (hraw : (h.values.get v).raw = .object owner)
    (hunseen : (h.values.get v).children = none) (hx : x ∈ ((childrenOf v).run h).1)
    (hlater : w.heap = Heap.afterUses us ((childrenOf v).run h).2)
    (hreach : w.reach (w.heap.bindings.get x).parent = some s) (hattached : (w.session s).attached = true) :
    (∀ items, (h.objects.get owner).layout = .collection items →
      (∃ i < items.length, (w.heap.bindings.get x).name = (Slot.element i).text)
      ∧ assignVariable x expression w = .ok (.ok ()) (w.send s (.request (.setVariable
          (w.heap.bindings.get x).parent x (w.heap.bindings.get x).name expression))))
    ∧ ((∀ items, (h.objects.get owner).layout ≠ .collection items) →
      (worldAfter (assignVariable x expression) w).sessions = w.sessions
      ∧ ((∃ failure, assignVariable x expression w = .ok (.error failure) w)
        ∨ ∃ slot type, (w.heap.bindings.get x).origin.slot? = some (owner, slot, type)
          ∧ CarriesOut x owner slot type expression w)) := by
  have hyields := Heap.yields_later hraw hunseen hx us
  rw [← hlater] at hyields
  constructor
  · intro items hlayout
    rw [hlayout] at hyields
    obtain ⟨hname, horigin⟩ := hyields
    refine ⟨hname, ?_⟩
    exact assignVariable_of_binding (by rw [horigin]; rfl) hreach hattached expression
  · intro hlayout
    obtain ⟨slot, type, hslot⟩ := HostObject.slot?_of_yields hyields hlayout
    rcases assignVariable_of_slot hslot expression with ⟨⟨failure, hrefused⟩, -⟩ | hdone
    · refine ⟨?_, .inl ⟨failure, hrefused⟩⟩
      rw [worldAfter, hrefused]
    · obtain ⟨draft, h', j, -, -, hafter, -⟩ := hdone.taken
      exact ⟨by rw [hafter], .inr ⟨slot, type, hslot, hdone⟩⟩

/-- A record with a field that can be assigned and one that cannot, and a list. -/
def belongings : Heap :=
  { texts := 1
    objects := ⟨#[.record "Point" [⟨⟨"name", .text, .isPublic, false, false⟩, .text 0 "a"⟩,
      ⟨⟨"tag", .text, .isPublic, false, true⟩, .null⟩], .list "ArrayList" #[.null]]⟩
    values := ⟨#[⟨.frame onlyFrame, .object 0, none, none⟩, ⟨.frame onlyFrame, .object 1, none, none⟩]⟩
    bindings := ∅
    displays := ∅ }

/-- A world in which a value of these was opened, and then the other one, and a field was written. -/
def lookedInto (v : ValueId) (others : List Heap.Use) : World :=
  { worldOf [] [] with
    heap := Heap.afterUses (others ++ [.write 0 (.field "name") .null]) ((childrenOf v).run belongings).2 }

/-- A field that can be assigned takes a string, and one that cannot refuses it and stays as it is.
-/
theorem assign_child_of_slots_record :
    (∃ w', assignVariable 0 "b" (lookedInto 0 [.enumerate 1]) = .ok (.ok ()) w')
      ∧ ∃ failure, assignVariable 1 "b" (lookedInto 0 [.enumerate 1])
        = .ok (.error failure) (lookedInto 0 [.enumerate 1]) := by
  have hslots : (belongings.objects.get 0).HasSlots := by
    change Record.IsDistinct _
    unfold Record.IsDistinct
    decide
  have hmem : ∀ x ∈ [0, 1], x ∈ ((childrenOf 0).run belongings).1 := by decide
  have hname := assign_child_of_slots (x := 0) (w := lookedInto 0 [.enumerate 1]) "b" rfl rfl hslots
    (hmem 0 (by decide)) rfl
  have htag := assign_child_of_slots (x := 1) (w := lookedInto 0 [.enumerate 1]) "b" rfl rfl hslots
    (hmem 1 (by decide)) rfl
  exact ⟨(hname.2.2 fun _ _ => rfl).mpr rfl, htag.1 rfl⟩

/-- To assign to an item of a list asks the interpreter, and to assign to a field asks nobody. -/
theorem assign_child_by_layout_list :
    assignVariable 0 "b" (lookedInto 1 [.enumerate 0]) = .ok (.ok ()) ((lookedInto 1 [.enumerate 0]).send 0
        (.request (.setVariable (.frame onlyFrame) 0 "[0]" "b")))
      ∧ (worldAfter (assignVariable 0 "b") (lookedInto 0 [.enumerate 1])).sessions
        = (lookedInto 0 [.enumerate 1]).sessions := by
  have hitem := assign_child_by_layout (x := 0) (w := lookedInto 1 [.enumerate 0]) (s := 0) "b" rfl rfl
    (by decide) rfl (by decide) rfl
  have hfield := assign_child_by_layout (x := 0) (w := lookedInto 0 [.enumerate 1]) (s := 0) "b" rfl rfl
    (by decide) rfl (by decide) rfl
  refine ⟨(hitem.1 [.null] rfl).2, (hfield.2 fun items => ?_).1⟩
  simp [belongings, Arena.get, HostObject.layout]

end Children

end DebugBridge
