import DebugBridge.Proofs.Descent

/-!
# Children that are kept

A value keeps the children that were enumerated or given, until its content is replaced or it is given
other ones. Nothing else that is done with values, variables and objects makes it forget them.

Whether a value has children can be asked without looking at them. For objects the two answers agree as
soon as the children are there. For everything else the first answer is no, whatever the second: a value
that is no object has no children of its own, but it shows those that it was given.

## Main definitions

* `Heap.Leaves`, `Heap.Retains`: what is there stays as it is, and values keep content and children;
* `Heap.Use.Renews`, `Heap.Use.Gives`, `Heap.Use.Fills`: what is done about the children of a value;
* `Heap.Throughout`, `Heap.Since`: what holds all along a run, and since something happened.

## Main results

* `Heap.treats_after`: what a use does to the content and the children of a value;
* `Heap.children_afterUses`: what children a value has after any run;
* `hasChildren_agrees`: when the two answers agree, and when they do not.
-/

namespace DebugBridge

namespace Heap

variable {h h' h'' : Heap} {x : VariableId} {v w : ValueId}

/-! ### What is left alone -/

/-- A later heap in which variables are what they were, and so are values up to the text for display. -/
structure Leaves (h h' : Heap) : Prop where
  bindings : h.bindings.size ≤ h'.bindings.size
  values : h.values.size ≤ h'.values.size
  binding : ∀ {x}, x < h.bindings.size → h'.bindings.get x = h.bindings.get x
  value : ∀ {v}, v < h.values.size →
    { h'.values.get v with rendered := none } = { h.values.get v with rendered := none }

/-- A later heap in which values have the content and the children that they had. -/
structure Retains (h h' : Heap) : Prop where
  values : h.values.size ≤ h'.values.size
  raw : ∀ {v}, v < h.values.size → (h'.values.get v).raw = (h.values.get v).raw
  children : ∀ {v}, v < h.values.size → (h'.values.get v).children = (h.values.get v).children

/-- A heap leaves itself alone. -/
theorem Leaves.refl (h : Heap) : h.Leaves h :=
  ⟨Nat.le_refl _, Nat.le_refl _, fun _ => rfl, fun _ => rfl⟩

/-- What is left alone in two steps is left alone. -/
theorem Leaves.trans (hl : h.Leaves h') (hl' : h'.Leaves h'') : h.Leaves h'' where
  bindings := Nat.le_trans hl.bindings hl'.bindings
  values := Nat.le_trans hl.values hl'.values
  binding hx := (hl'.binding (Nat.lt_of_lt_of_le hx hl.bindings)).trans (hl.binding hx)
  value hv := (hl'.value (Nat.lt_of_lt_of_le hv hl.values)).trans (hl.value hv)

/-- What changes no variable and no value leaves them alone. -/
theorem Leaves.of_eq (hb : h'.bindings = h.bindings) (hv : h'.values = h.values) : h.Leaves h' := by
  refine ⟨?_, ?_, fun {x} _ => ?_, fun {v} _ => ?_⟩
  · rw [hb]
  · rw [hv]
  · rw [hb]
  · rw [hv]

/-- Values that are left alone belong to what they belonged to. -/
theorem Leaves.parent (hl : h.Leaves h') (hv : v < h.values.size) :
    (h'.values.get v).parent = (h.values.get v).parent :=
  (congrArg Value.parent (hl.value hv) :)

/-- Values that are left alone have the content and the children that they had. -/
theorem Leaves.retains (hl : h.Leaves h') : h.Retains h' where
  values := hl.values
  raw hv := (congrArg Value.raw (hl.value hv) :)
  children hv := (congrArg Value.children (hl.value hv) :)

/-- What is retained in two steps is retained. -/
theorem Retains.trans (hr : h.Retains h') (hr' : h'.Retains h'') : h.Retains h'' where
  values := Nat.le_trans hr.values hr'.values
  raw hv := (hr'.raw (Nat.lt_of_lt_of_le hv hr.values)).trans (hr.raw hv)
  children hv := (hr'.children (Nat.lt_of_lt_of_le hv hr.values)).trans (hr.children hv)

/-- What changes no value retains all of them. -/
theorem Retains.of_eq (hv : h'.values = h.values) : h.Retains h' := by
  refine ⟨?_, fun {v} _ => ?_, fun {v} _ => ?_⟩
  · rw [hv]
  · rw [hv]
  · rw [hv]

/-- A change of one value that shows in neither its content nor its children. -/
theorem retains_modifyValue (h : Heap) (v : ValueId) {f : Value → Value} (hraw : ∀ a, (f a).raw = a.raw)
    (hchildren : ∀ a, (f a).children = a.children) : h.Retains ((modifyValue v f).run h).2 where
  values := Arena.size_le_modify _ _ _
  raw _ := part_modifyValue Value.raw hraw h v _
  children _ := part_modifyValue Value.children hchildren h v _

end Heap

/-- An operation that leaves everything alone, whatever the heap. -/
def Leaving {α : Type} (op : HeapM α) : Prop :=
  ∀ h : Heap, h.Leaves (op.run h).2

/-- An operation after which values have the content and the children that they had. -/
def Retaining {α : Type} (op : HeapM α) : Prop :=
  ∀ h : Heap, h.Retains (op.run h).2

section Operations

open Heap

variable {α β : Type}

namespace Leaving

/-- To do nothing leaves everything alone. -/
theorem pure (a : α) : Leaving (pure a) :=
  fun h => .refl h

/-- To look at the heap leaves everything alone. -/
theorem get : Leaving (get : HeapM Heap) :=
  fun h => .refl h

/-- Two operations that leave everything alone do so one after the other. -/
theorem bind {op : HeapM α} {f : α → HeapM β} (hop : Leaving op) (hf : ∀ a, Leaving (f a)) :
    Leaving (op >>= f) :=
  fun h => (hop h).trans (hf _ _)

/-- An operation that leaves everything alone does so for each variable of a list. -/
theorem mapM {f : α → HeapM β} (hf : ∀ a, Leaving (f a)) (xs : List α) : Leaving (xs.mapM f) := by
  induction xs with
  | nil => exact pure _
  | cons x xs ih =>
      rw [List.mapM_cons]
      exact bind (hf x) fun y => bind ih fun ys => pure _

/-- What leaves everything alone retains content and children. -/
theorem retaining {op : HeapM α} (hop : Leaving op) : Retaining op :=
  fun h => (hop h).retains

end Leaving

namespace Retaining

/-- Two operations that retain content and children do so one after the other. -/
theorem bind {op : HeapM α} {f : α → HeapM β} (hop : Retaining op) (hf : ∀ a, Retaining (f a)) :
    Retaining (op >>= f) :=
  fun h => (hop h).trans (hf _ _)

/-- An operation that retains content and children does so for each variable of a list. -/
theorem mapM {f : α → HeapM β} (hf : ∀ a, Retaining (f a)) (xs : List α) : Retaining (xs.mapM f) := by
  induction xs with
  | nil => exact (Leaving.pure _).retaining
  | cons x xs ih =>
      rw [List.mapM_cons]
      exact bind (hf x) fun y => bind ih fun ys => (Leaving.pure _).retaining

/-- An operation that retains content and children does so for each of a list, whatever it gives
back. -/
theorem forM {f : α → HeapM PUnit} (hf : ∀ a, Retaining (f a)) (xs : List α) : Retaining (xs.forM f) := by
  induction xs with
  | nil => exact (Leaving.pure _).retaining
  | cons x xs ih => exact bind (hf x) fun _ => ih

end Retaining

/-- A new text is beside all values. -/
theorem leaving_newText (content : String) : Leaving (newText content) :=
  fun _ => .of_eq rfl rfl

/-- A new object is beside all values. -/
theorem leaving_newObject (object : HostObject) : Leaving (newObject object) :=
  fun _ => .of_eq rfl rfl

/-- A new value is none of those that are there. -/
theorem leaving_newValue (parent : Parent) (raw : Datum) : Leaving (newValue parent raw) := by
  intro h
  have hvalues : ((newValue parent raw).run h).2.values = h.values.push ⟨parent, raw, none, none⟩ := rfl
  refine ⟨Nat.le_refl _, ?_, fun _ => rfl, fun {v} hv => ?_⟩
  · rw [hvalues, Arena.size_push]
    exact Nat.le_succ _
  · rw [hvalues, Arena.get_push, if_neg (Nat.ne_of_lt hv)]

/-- A new variable is none of those that are there, and neither is its value. -/
theorem leaving_newVariable (name : String) (origin : Origin) (raw : Datum) (parent : Parent) :
    Leaving (newVariable name origin raw parent) := by
  intro h
  rw [run_newVariable]
  refine ⟨?_, ?_, fun {x} hx => ?_, fun {v} hv => ?_⟩
  · rw [Arena.size_push]
    exact Nat.le_succ _
  · rw [Arena.size_push]
    exact Nat.le_succ _
  · rw [Arena.get_push, if_neg (Nat.ne_of_lt hx)]
  · rw [Arena.get_push, if_neg (Nat.ne_of_lt hv)]

/-- A text for display is not looked at when values are compared. -/
theorem leaving_setRendered (v : ValueId) (text : String) : Leaving (setRendered v text) := by
  intro h
  refine ⟨Nat.le_refl _, Arena.size_le_modify _ _ _, fun _ => rfl, fun {w} _ => ?_⟩
  rw [setRendered, value_modifyValue]
  split
  · next hw => rw [hw]
  · rfl

/-- A variable that is reported is made with a value of its own. -/
theorem leaving_make (r : Report) : Leaving r.make := by
  obtain ⟨name, content, rendered⟩ := r
  refine (leaving_newVariable _ _ _ _).bind fun x => ?_
  cases rendered with
  | none => exact .pure _
  | some text => exact Leaving.get.bind fun _ => (leaving_setRendered _ _).bind fun _ => .pure _

/-- To number what is shown changes the table of numbers only. -/
theorem leaving_displayId (session : Option Nat) (datum : Datum) : Leaving (displayId session datum) := by
  cases session with
  | none => exact .pure _
  | some s => exact fun _ => .of_eq rfl rfl

/-- To show content numbers it at most. -/
theorem leaving_datumText (session : Option Nat) (datum : Datum) : Leaving (datumText session datum) := by
  cases datum with
  | null => exact .pure _
  | scalar value => exact .pure _
  | text id content => exact (leaving_displayId _ _).bind fun _ => .pure _
  | object id => exact Leaving.get.bind fun _ => (leaving_displayId _ _).bind fun _ => .pure _

/-- To show a value numbers its content at most. -/
theorem leaving_valueText (reach : Parent → Option Nat) (v : ValueId) : Leaving (valueText reach v) := by
  refine Leaving.get.bind fun h => ?_
  dsimp only
  cases (h.values.get v).rendered with
  | some text => exact .pure _
  | none => exact leaving_datumText _ _

/-- A slot that is written is one of an object. -/
theorem leaving_writeSlot (owner : Nat) (slot : Slot) (content : Datum) :
    Leaving (writeSlot owner slot content) := by
  intro h
  rw [run_writeSlot]
  cases (h.objects.get owner).write slot content with
  | error failure => exact .refl h
  | ok object => exact .of_eq rfl rfl

/-- The variable of a slot is a new one. -/
theorem leaving_slotVariable (owner : Nat) (slot : Slot) (origin : Origin) (parent : Parent) :
    Leaving (slotVariable owner slot origin parent) :=
  Leaving.get.bind fun _ => leaving_newVariable _ _ _ _

/-- The children of an object are new variables. -/
theorem leaving_enumerateObject (owner : Nat) (parent : Parent) :
    Leaving (enumerateObject owner parent) := by
  refine Leaving.get.bind fun h => ?_
  cases (h.objects.get owner).layout with
  | array element length => exact .mapM (fun _ => leaving_slotVariable _ _ _ _) _
  | collection items => exact .mapM (fun _ => leaving_newVariable _ _ _ _) _
  | record fields => exact .mapM (fun _ => leaving_slotVariable _ _ _ _) _
  | closed => exact .pure _

/-- The children of a value are new variables, if there are any. -/
theorem leaving_enumerateChildren (raw : Datum) (parent : Parent) :
    Leaving (enumerateChildren raw parent) := by
  cases raw with
  | object owner => exact (leaving_enumerateObject _ _).bind fun _ => Leaving.get.bind fun _ => .pure _
  | null | scalar | text => exact .pure _

/-- To move a variable changes what variables and values belong to, and nothing else. -/
theorem retaining_moveVariableTo (p : Parent) (depth : Nat) (x : VariableId) :
    Retaining (moveVariableTo p depth x) := by
  have hbinding : ∀ x, Retaining (modifyVariable x fun binding => { binding with parent := p }) :=
    fun _ _ => .of_eq rfl
  have hvalue : ∀ v, Retaining (modifyValue v fun value => { value with parent := p }) :=
    fun v h => h.retains_modifyValue v (fun _ => rfl) fun _ => rfl
  induction depth generalizing x with
  | zero => exact (hbinding x).bind fun _ => Leaving.get.retaining.bind fun _ => hvalue _
  | succ depth ih =>
      exact (hbinding x).bind fun _ => Leaving.get.retaining.bind fun _ => (hvalue _).bind fun _ =>
        Leaving.get.retaining.bind fun _ => .forM ih _

/-- A variable that is moved keeps its value, with content and children. -/
theorem retaining_moveVariable (x : VariableId) (p : Parent) : Retaining (moveVariable x p) :=
  Leaving.get.retaining.bind fun _ => retaining_moveVariableTo p _ x

/-- A value that is moved keeps its content and its children. -/
theorem retaining_moveValue (v : ValueId) (p : Parent) : Retaining (moveValue v p) := by
  have hvalue : Retaining (modifyValue v fun value => { value with parent := p }) :=
    fun h => h.retains_modifyValue v (fun _ => rfl) fun _ => rfl
  exact hvalue.bind fun _ => Leaving.get.retaining.bind fun _ =>
    .forM (fun x => retaining_moveVariable x p) _

/-- A variable takes another value, and both values keep content and children. -/
theorem retaining_replaceValue (reach : Parent → Option Nat) (x : VariableId) (v : ValueId) :
    Retaining (replaceValue reach x v) :=
  Leaving.get.retaining.bind fun _ => (retaining_moveValue _ _).bind fun _ =>
    (leaving_valueText _ _).retaining.bind fun _ => (leaving_valueText _ _).retaining.bind fun _ =>
      fun _ => .of_eq rfl

/-- A frame that takes variables in leaves values with content and children. -/
theorem retaining_mergeVariables (reach : Parent → Option Nat) (f : FrameRef)
    (known reported : List VariableId) : Retaining (mergeVariables reach f known reported) := by
  refine Retaining.bind (.mapM (fun y => Leaving.get.retaining.bind fun h => ?_) _) fun _ =>
    (Leaving.get.bind fun _ => .pure _).retaining
  dsimp only
  split
  · exact (retaining_replaceValue _ _ _).bind fun _ => (Leaving.pure _).retaining
  · exact (retaining_moveVariable _ _).bind fun _ => (Leaving.pure _).retaining

end Operations

/-! ### What is done about the children of a value -/

namespace Heap

variable {h h' : Heap} {x : VariableId} {v w : ValueId} {u : Use} {us : List Use}

namespace Use

/-- The content of a value is replaced, by itself or because it is that of a slot that is assigned. -/
def Renews (h : Heap) (v : ValueId) : Use → Prop
  | .replaceContent w _ => w = v
  | .assign x expression => (h.bindings.get x).value = v
    ∧ ∃ owner slot type, (h.bindings.get x).origin.slot? = some (owner, slot, type)
      ∧ ((assignSlot x owner slot type expression).run h).1 = .ok ()
  | _ => False

/-- A value is given children. -/
def Gives (v : ValueId) (u : Use) : Prop :=
  ∃ xs, u = .giveChildren v xs

/-- The children of a value are asked for or given. -/
def Fills (v : ValueId) (u : Use) : Prop :=
  u = .enumerate v ∨ u.Gives v

/-- A value is neither given another content nor other children. -/
def Spares (h : Heap) (v : ValueId) (u : Use) : Prop :=
  ¬u.Renews h v ∧ ¬u.Gives v

/-- Nothing that is there is changed but objects, numbers and texts for display. -/
def IsQuiet : Use → Prop
  | .makeText _ | .makeObject _ | .makeValue _ _ | .makeVariable _ _ _ _ | .report _ => True
  | .write _ _ _ | .append _ _ | .setRendered _ _ | .look _ _ | .display _ _ => True
  | _ => False

/-- Some value may get another content or other children. -/
def Touches : Use → Prop
  | .assign _ _ | .replaceContent _ _ | .enumerate _ | .giveChildren _ _ => True
  | _ => False

/-- What touches no value spares each of them. -/
theorem spares_of_not_touches (hu : ¬u.Touches) (h : Heap) (v : ValueId) : u.Spares h v := by
  refine ⟨fun hrenews => ?_, ?_⟩
  · cases u with
    | assign | replaceContent => exact hu trivial
    | _ => exact hrenews
  · rintro ⟨xs, rfl⟩
    exact hu trivial

end Use

/-- Children that are known are not enumerated again. -/
theorem run_childrenOf_of_some {cs : List VariableId} (hcs : (h.values.get v).children = some cs) :
    (childrenOf v).run h = (cs, h) := by
  have hget : (get : HeapM Heap).run h = (h, h) := rfl
  rw [childrenOf, run_bind_heap hget]
  dsimp only
  rw [hcs]
  rfl

/-- Children that are not known are enumerated and kept. -/
theorem run_childrenOf_of_none (hunseen : (h.values.get v).children = none) :
    (childrenOf v).run h
      = let made := (enumerateChildren (h.values.get v).raw (h.values.get v).parent).run h
        (made.1, ((modifyValue v fun value => { value with children := some made.1 }).run made.2).2) := by
  have hget : (get : HeapM Heap).run h = (h, h) := rfl
  rw [childrenOf, run_bind_heap hget]
  dsimp only
  rw [hunseen]
  rfl

/-- What a use does to the content and the children of a value. -/
inductive Treats (h : Heap) (v : ValueId) : Use → Prop where
  | renews {u : Use} (hu : u.Renews h v) (hchildren : ((h.after u).values.get v).children = none) :
      Treats h v u
  | gives {xs : List VariableId}
      (hraw : ((h.after (.giveChildren v xs)).values.get v).raw = (h.values.get v).raw)
      (hchildren : ((h.after (.giveChildren v xs)).values.get v).children
        = some ((inNameOrder xs).run h).1) : Treats h v (.giveChildren v xs)
  | enumerates (hunseen : (h.values.get v).children = none)
      (hraw : ((h.after (.enumerate v)).values.get v).raw = (h.values.get v).raw)
      (hchildren : ((h.after (.enumerate v)).values.get v).children = some ((childrenOf v).run h).1) :
      Treats h v (.enumerate v)
  | leaves {u : Use} (hu : u.Spares h v)
      (hraw : ((h.after u).values.get v).raw = (h.values.get v).raw)
      (hchildren : ((h.after u).values.get v).children = (h.values.get v).children)
      (hseen : u = .enumerate v → (h.values.get v).children ≠ none) : Treats h v u

/-- What is quiet leaves variables and values alone. -/
theorem leaves_after (h : Heap) (hu : u.IsQuiet) : h.Leaves (h.after u) := by
  cases u with
  | makeText content => exact leaving_newText content h
  | makeObject object => exact leaving_newObject object h
  | makeValue parent raw => exact leaving_newValue parent raw h
  | makeVariable name origin raw parent => exact leaving_newVariable name origin raw parent h
  | report r => exact leaving_make r h
  | write owner slot content => exact leaving_writeSlot owner slot content h
  | append owner item => exact .of_eq rfl rfl
  | setRendered w text => exact leaving_setRendered w text h
  | look reach w => exact leaving_valueText reach w h
  | display session datum => exact leaving_datumText session datum h
  | _ => exact hu.elim

/-- Most uses leave the content and the children of all values alone. -/
theorem retains_after (h : Heap) (hu : ¬u.Touches) : h.Retains (h.after u) := by
  cases u with
  | replaceValue reach x w => exact retaining_replaceValue reach x w h
  | merge reach f known reported => exact retaining_mergeVariables reach f known reported h
  | moveVariable x p => exact retaining_moveVariable x p h
  | moveValue w p => exact retaining_moveValue w p h
  | assign | replaceContent | enumerate | giveChildren => exact absurd trivial hu
  | _ => exact Leaves.retains (h.leaves_after trivial)

/-- The content and the children of another value are not touched. -/
theorem treats_of_ne (hu : u.Spares h v) (hother : u ≠ .enumerate v)
    (hsame : (h.after u).values.get v = h.values.get v) : Treats h v u :=
  .leaves hu (by rw [hsame]) (by rw [hsame]) fun heq => absurd heq hother

/-- To ask for the children of a value makes them known. -/
theorem treats_enumerate (hv : v < h.values.size) (w : ValueId) : Treats h v (.enumerate w) := by
  have hspares : (Use.enumerate w).Spares h v := ⟨id, nofun⟩
  cases hchildren : (h.values.get w).children with
  | some cs =>
      have hafter : h.after (.enumerate w) = h := congrArg Prod.snd (run_childrenOf_of_some hchildren)
      refine .leaves hspares (by rw [hafter]) (by rw [hafter]) fun heq => ?_
      cases heq
      simp [hchildren]
  | none =>
      have hleaves := leaving_enumerateChildren (h.values.get w).raw (h.values.get w).parent h
      have hrun := run_childrenOf_of_none hchildren
      have hvalue := congrArg (fun result => result.2.values.get v) hrun
      dsimp only at hvalue
      rw [value_modifyValue] at hvalue
      have hraw := hleaves.retains.raw hv
      by_cases hw : w = v
      · subst hw
        rw [if_pos rfl] at hvalue
        refine .enumerates hchildren ?_ ?_
        · change (((childrenOf w).run h).2.values.get w).raw = _
          rw [hvalue]
          exact hraw
        · change (((childrenOf w).run h).2.values.get w).children = _
          rw [hvalue, hrun]
      · rw [if_neg hw] at hvalue
        refine .leaves hspares ?_ ?_ fun heq => absurd (Use.enumerate.inj heq) hw
        · change (((childrenOf w).run h).2.values.get v).raw = _
          rw [hvalue]
          exact hraw
        · change (((childrenOf w).run h).2.values.get v).children = _
          rw [hvalue]
          exact hleaves.retains.children hv

/-- A value that is given children has these, in the order of their names. -/
theorem treats_giveChildren (w : ValueId) (xs : List VariableId) : Treats h v (.giveChildren w xs) := by
  let put : Value → Value := fun value => { value with children := some ((inNameOrder xs).run h).1 }
  have hvalue : (h.after (.giveChildren w xs)).values.get v
      = if w = v then put (h.values.get w) else h.values.get v := h.value_modifyValue w v put
  by_cases hw : w = v
  · subst hw
    rw [if_pos rfl] at hvalue
    exact .gives (by rw [hvalue]) (by rw [hvalue])
  · rw [if_neg hw] at hvalue
    refine treats_of_ne ⟨id, ?_⟩ nofun hvalue
    rintro ⟨ys, heq⟩
    exact hw (Use.giveChildren.inj heq).1

/-- A value that is given another content forgets its children. -/
theorem treats_replaceContent (w : ValueId) (raw : Datum) : Treats h v (.replaceContent w raw) := by
  let put : Value → Value := fun value => { value with raw, children := none, rendered := none }
  have hvalue : (h.after (.replaceContent w raw)).values.get v
      = if w = v then put (h.values.get w) else h.values.get v := h.value_modifyValue w v put
  by_cases hw : w = v
  · subst hw
    rw [if_pos rfl] at hvalue
    exact .renews rfl (by rw [hvalue])
  · rw [if_neg hw] at hvalue
    exact treats_of_ne ⟨hw, nofun⟩ nofun hvalue

/-- An assignment changes nothing, or it is carried out in both places. -/
theorem after_assign_cases (x : VariableId) (expression : String) (h : Heap) :
    (h.after (.assign x expression) = h ∧ ∀ v, ¬(Use.assign x expression).Renews h v)
    ∨ (Use.assign x expression).Renews h (h.bindings.get x).value
      ∧ ∃ owner slot content,
        Takes owner slot (h.bindings.get x).value content h (h.after (.assign x expression)) := by
  rw [after]
  cases hslot : (h.bindings.get x).origin.slot? with
  | none =>
      refine .inl ⟨rfl, ?_⟩
      rintro v ⟨-, owner, slot, type, hsome, -⟩
      rw [hslot] at hsome
      cases hsome
  | some place =>
      obtain ⟨owner, slot, type⟩ := place
      obtain ⟨⟨failure, hrefused⟩, -⟩ | ⟨draft, h', hdone, -, -, htakes⟩ :=
        h.assignSlot_cases x owner slot type expression
      · refine .inl ⟨congrArg Prod.snd hrefused, ?_⟩
        rintro v ⟨-, owner', slot', type', hsome, hok⟩
        rw [hslot] at hsome
        cases hsome
        rw [hrefused] at hok
        cases hok
      · refine .inr ⟨⟨rfl, owner, slot, type, hslot, congrArg Prod.fst hdone⟩, owner, slot, ((realize draft).run h).1, ?_⟩
        dsimp only
        rw [hdone]
        exact htakes

/-- A slot that is assigned takes its variable another content, if the assignment is accepted. -/
theorem treats_assign (x : VariableId) (expression : String) : Treats h v (.assign x expression) := by
  have hgives : ¬(Use.assign x expression).Gives v := nofun
  obtain ⟨hafter, hno⟩ | ⟨hrenews, owner, slot, content, htakes⟩ := h.after_assign_cases x expression
  · exact treats_of_ne ⟨hno v, hgives⟩ nofun (by rw [hafter])
  · by_cases hx : (h.bindings.get x).value = v
    · refine .renews (hx ▸ hrenews) ?_
      rw [← hx, htakes.shown]
    · exact treats_of_ne ⟨fun hu => hx hu.1, hgives⟩ nofun (htakes.values v (Ne.symm hx))

/-- An assignment to a slot forgets no value. -/
theorem size_values_assignSlot (x : VariableId) (owner : Nat) (slot : Slot) (type : SlotType)
    (expression : String) (h : Heap) :
    h.values.size ≤ ((assignSlot x owner slot type expression).run h).2.values.size := by
  have hget : (get : HeapM Heap).run h = (h, h) := rfl
  rw [assignSlot, run_bind_heap hget]
  dsimp only
  split
  · exact Nat.le_refl _
  · cases type.convert expression with
    | error failure => exact Nat.le_refl _
    | ok draft =>
        have hrealize : (realize draft).run h = (((realize draft).run h).1, ((realize draft).run h).2) := rfl
        have hvalues := (realize_eq draft h).2.1
        have hwrite := run_writeSlot owner slot ((realize draft).run h).1 ((realize draft).run h).2
        dsimp only
        rw [run_bind_heap hrealize]
        cases hslot : (((realize draft).run h).2.objects.get owner).write slot ((realize draft).run h).1 with
        | error failure =>
            rw [hslot] at hwrite
            rw [run_bind_heap hwrite]
            exact Nat.le_refl _
        | ok object =>
            rw [hslot] at hwrite
            rw [run_bind_heap hwrite, ← hvalues]
            exact Arena.size_le_modify _ _ _

/-- No use forgets a value. -/
theorem size_values_after (h : Heap) (u : Use) : h.values.size ≤ (h.after u).values.size := by
  by_cases hu : u.Touches
  · cases u with
    | assign x expression =>
        rw [after]
        split
        · exact Nat.le_refl _
        · exact size_values_assignSlot _ _ _ _ _ h
    | replaceContent w raw => exact Arena.size_le_modify _ _ _
    | giveChildren w xs => exact Arena.size_le_modify _ _ _
    | enumerate w =>
        cases hchildren : (h.values.get w).children with
        | some cs => exact (congrArg (·.2.values.size) (run_childrenOf_of_some hchildren)).ge
        | none =>
            have hmade := (leaving_enumerateChildren (h.values.get w).raw (h.values.get w).parent h).values
            have hrun := congrArg (·.2.values.size) (run_childrenOf_of_none hchildren)
            exact (hmade.trans (Arena.size_le_modify _ _ _)).trans_eq hrun.symm
    | _ => exact hu.elim
  · exact (h.retains_after hu).values

/-- A use replaces the content of a value, or gives or enumerates its children, or leaves both alone. -/
theorem treats_after (hv : v < h.values.size) (u : Use) : Treats h v u := by
  by_cases hu : u.Touches
  · cases u with
    | assign x expression => exact treats_assign x expression
    | replaceContent w raw => exact treats_replaceContent w raw
    | enumerate w => exact treats_enumerate hv w
    | giveChildren w xs => exact treats_giveChildren w xs
    | _ => exact hu.elim
  · have hretains := h.retains_after hu
    refine .leaves (Use.spares_of_not_touches hu h v) (hretains.raw hv) (hretains.children hv) ?_
    rintro rfl
    exact absurd trivial hu

/-! ### Whole runs -/

/-- Each use of a run has some property, in the heap in which it happens. -/
def Throughout (P : Heap → Use → Prop) : Heap → List Use → Prop
  | _, [] => True
  | h, u :: us => P h u ∧ Throughout P (h.after u) us

/-- A use of some kind happened, and each later one has some property. -/
def Since (P Q : Heap → Use → Prop) (h : Heap) (us : List Use) : Prop :=
  ∃ earlier u later, us = earlier ++ u :: later ∧ P (afterUses earlier h) u
    ∧ Throughout Q (afterUses (earlier ++ [u]) h) later

variable {P Q : Heap → Use → Prop}

/-- Two runs are one, the second behind the first. -/
theorem afterUses_append (us us' : List Use) (h : Heap) :
    afterUses (us ++ us') h = afterUses us' (afterUses us h) :=
  List.foldl_append

/-- A run ends with its last use. -/
theorem afterUses_concat (us : List Use) (u : Use) (h : Heap) :
    afterUses (us ++ [u]) h = (afterUses us h).after u :=
  afterUses_append us [u] h

/-- What holds throughout two runs holds throughout both. -/
theorem throughout_append (us us' : List Use) (h : Heap) :
    Throughout Q h (us ++ us') ↔ Throughout Q h us ∧ Throughout Q (afterUses us h) us' := by
  induction us generalizing h with
  | nil => exact ⟨fun hus => ⟨trivial, hus⟩, And.right⟩
  | cons w us ih =>
      rw [List.cons_append, Throughout, ih, Throughout, and_assoc]
      rfl

/-- What holds throughout a run holds of its last use, and throughout the rest. -/
theorem throughout_concat (us : List Use) (u : Use) (h : Heap) :
    Throughout Q h (us ++ [u]) ↔ Throughout Q h us ∧ Q (afterUses us h) u := by
  rw [throughout_append, Throughout, Throughout, and_true]

/-- Nothing happened before anything happens. -/
theorem not_since_nil : ¬Since P Q h [] := by
  rintro ⟨earlier, u, later, heq, -⟩
  simp at heq

/-- What happened since something happened, one use later. -/
theorem since_concat (us : List Use) (u : Use) (h : Heap) :
    Since P Q h (us ++ [u]) ↔ P (afterUses us h) u ∨ Since P Q h us ∧ Q (afterUses us h) u := by
  constructor
  · rintro ⟨earlier, w, later, heq, hP, hQ⟩
    rcases List.eq_nil_or_concat later with rfl | ⟨later, u', rfl⟩
    · obtain ⟨hearlier, hlast⟩ := List.append_inj' heq rfl
      obtain rfl := List.singleton_inj.mp hlast
      exact .inl (hearlier ▸ hP)
    · rw [List.concat_eq_append, ← List.cons_append, ← List.append_assoc] at heq
      obtain ⟨rfl, hlast⟩ := List.append_inj' heq rfl
      obtain rfl := List.singleton_inj.mp hlast
      rw [List.concat_eq_append] at hQ
      obtain ⟨hlater, hlast⟩ := (throughout_concat _ _ _).mp hQ
      refine .inr ⟨⟨earlier, w, later, rfl, hP, hlater⟩, ?_⟩
      rwa [← afterUses_append, List.append_assoc, List.singleton_append] at hlast
  · rintro (hP | ⟨⟨earlier, w, later, rfl, hP, hQ⟩, hlast⟩)
    · exact ⟨us, u, [], rfl, hP, trivial⟩
    · refine ⟨earlier, w, later ++ [u], by simp, hP, (throughout_concat _ _ _).mpr ⟨hQ, ?_⟩⟩
      rwa [← afterUses_append, List.append_assoc, List.singleton_append]

/-- The children of a value were asked for or given, and since then its content was not replaced. -/
def Filled (v : ValueId) (h : Heap) (us : List Use) : Prop :=
  Since (fun _ u => u.Fills v) (fun h u => ¬u.Renews h v) h us

/-- A value was given children, and since then it was given neither other ones nor another content. -/
def Given (v : ValueId) (xs : List VariableId) (h : Heap) (us : List Use) : Prop :=
  Since (fun _ u => u = .giveChildren v xs) (fun h u => u.Spares h v) h us

/-- Children are known after a use that fills them, or if they were and the use does not renew the
content. -/
theorem filled_concat (us : List Use) (u : Use) (h : Heap) :
    Filled v h (us ++ [u]) ↔ u.Fills v ∨ Filled v h us ∧ ¬u.Renews (afterUses us h) v :=
  since_concat us u h

/-- A list was given last by the last use, or before it if that spares the value. -/
theorem given_concat {xs : List VariableId} (us : List Use) (u : Use) (h : Heap) :
    Given v xs h (us ++ [u]) ↔ u = .giveChildren v xs ∨ Given v xs h us ∧ u.Spares (afterUses us h) v :=
  since_concat us u h

/-- Values are not lost in a run. -/
theorem size_values_afterUses (us : List Use) (h : Heap) :
    h.values.size ≤ (afterUses us h).values.size := by
  induction us generalizing h with
  | nil => exact Nat.le_refl _
  | cons u us ih => exact (h.size_values_after u).trans (ih (h.after u))

/-- A value keeps the children that it has until it is given another content or other children. -/
theorem children_of_spares (hv : v < h.values.size) (hus : Throughout (fun h u => u.Spares h v) h us)
    {cs : List VariableId} (hcs : (h.values.get v).children = some cs) :
    ((afterUses us h).values.get v).children = some cs := by
  induction us generalizing h with
  | nil => exact hcs
  | cons u us ih =>
      refine ih (Nat.lt_of_lt_of_le hv (h.size_values_after u)) hus.2 ?_
      cases h.treats_after hv u with
      | renews hu => exact absurd hu hus.1.1
      | gives => exact absurd ⟨_, rfl⟩ hus.1.2
      | enumerates hunseen =>
          rw [hunseen] at hcs
          cases hcs
      | leaves _ _ hchildren => exact hchildren.trans hcs

/-- What children a value has after a run. It has none that are known until they are asked for or given.
It has those that it was given last; and if it is no object and was given none, it has none. -/
structure Remembers (h : Heap) (v : ValueId) (us : List Use) (h' : Heap) : Prop where
  unseen : (h'.values.get v).children = none ↔ ¬Filled v h us
  given : ∀ xs, Given v xs h us → ∃ cs, (h'.values.get v).children = some cs ∧ cs.Perm xs
  plain : (∀ xs, ¬Given v xs h us) → (∀ owner, (h'.values.get v).raw ≠ .object owner) →
    ∀ cs, (h'.values.get v).children = some cs → cs = []

/-- Where there is no object, there are no children to enumerate. -/
theorem children_of_plain (hplain : ∀ owner, (h.values.get v).raw ≠ .object owner)
    (hunseen : (h.values.get v).children = none) : ((childrenOf v).run h).1 = [] := by
  rw [run_childrenOf_of_none hunseen]
  cases hraw : (h.values.get v).raw with
  | object owner => exact absurd hraw (hplain owner)
  | null | scalar | text => rfl

/-- One more use. -/
theorem Remembers.step (hr : Remembers h v us (afterUses us h)) (hv : v < h.values.size) (u : Use) :
    Remembers h v (us ++ [u]) (afterUses (us ++ [u]) h) := by
  have hthere := Nat.lt_of_lt_of_le hv (size_values_afterUses us h)
  rw [afterUses_concat]
  cases (afterUses us h).treats_after hthere u with
  | renews hu hchildren =>
      have hno : ¬u.Fills v := by
        rintro (rfl | ⟨ys, rfl⟩)
        · exact hu
        · exact hu
      refine ⟨⟨fun _ hf => ?_, fun _ => hchildren⟩, fun xs hg => ?_, fun _ _ cs hcs => ?_⟩
      · rcases (filled_concat us _ h).mp hf with hf | ⟨-, hkept⟩
        · exact hno hf
        · exact hkept hu
      · rcases (given_concat us _ h).mp hg with rfl | ⟨-, hkept⟩
        · exact absurd hu id
        · exact absurd hu hkept.1
      · rw [hchildren] at hcs
        cases hcs
  | @gives xs hraw hchildren =>
      refine ⟨⟨fun hnone => ?_, fun hf => absurd ((filled_concat us _ h).mpr (.inl (.inr ⟨xs, rfl⟩))) hf⟩,
        fun ys hg => ⟨_, hchildren, ?_⟩, fun hno => absurd ((given_concat us _ h).mpr (.inl rfl)) (hno xs)⟩
      · rw [hchildren] at hnone
        cases hnone
      · rcases (given_concat us _ h).mp hg with heq | ⟨-, hkept⟩
        · cases heq
          exact perm_sortByName _ _
        · exact absurd ⟨_, rfl⟩ hkept.2
  | enumerates hunseen hraw hchildren =>
      refine ⟨⟨fun hnone => ?_, fun hf => absurd ((filled_concat us _ h).mpr (.inl (.inl rfl))) hf⟩, fun xs hg => ?_,
        fun _ hplain cs hcs => ?_⟩
      · rw [hchildren] at hnone
        cases hnone
      · rcases (given_concat us _ h).mp hg with heq | ⟨hg, -⟩
        · cases heq
        · obtain ⟨cs, hcs, -⟩ := hr.given xs hg
          rw [hunseen] at hcs
          cases hcs
      · rw [hraw] at hplain
        rw [hchildren, children_of_plain hplain hunseen] at hcs
        exact (Option.some.inj hcs).symm
  | leaves hu hraw hchildren hseen =>
      refine ⟨?_, fun xs hg => ?_, fun hno hplain => ?_⟩
      · rw [filled_concat, hchildren]
        refine ⟨fun hnone => ?_, fun hf => hr.unseen.mpr fun hearlier => hf (.inr ⟨hearlier, hu.1⟩)⟩
        rintro ((heq | hgives) | ⟨hf, -⟩)
        · exact hseen heq hnone
        · exact hu.2 hgives
        · exact hr.unseen.mp hnone hf
      · rcases (given_concat us _ h).mp hg with rfl | ⟨hg, -⟩
        · exact absurd ⟨xs, rfl⟩ hu.2
        · exact hchildren ▸ hr.given xs hg
      · rw [hraw] at hplain
        rw [hchildren]
        exact hr.plain (fun xs hg => hno xs ((given_concat us _ h).mpr (.inr ⟨hg, hu⟩))) hplain

/-- What children a value has after any run that begins before they were asked for. -/
theorem children_afterUses (hv : v < h.values.size) (hnew : (h.values.get v).children = none)
    (us : List Use) : Remembers h v us (afterUses us h) := by
  induction us using List.reverseRecOn with
  | nil =>
      refine ⟨⟨fun _ => not_since_nil, fun _ => hnew⟩, fun xs hg => absurd hg not_since_nil,
        fun _ _ cs hcs => ?_⟩
      have hnone : (h.values.get v).children = some cs := hcs
      rw [hnew] at hnone
      cases hnone
  | append_singleton us u ih => exact ih.step hv u

end Heap

/-! ### Whether there are children -/

section Asking

open Heap

variable {h h' : Heap} {v : ValueId} {us : List Use}

/-- To ask whether a value has children changes nothing. The answer is no for all but objects, and yes for
an object whose children are not known. -/
theorem run_hasChildren (h : Heap) (v : ValueId) :
    (hasChildren v).run h = (match (h.values.get v).raw, (h.values.get v).children with
      | .object _, none => true
      | .object _, some cs => !cs.isEmpty
      | _, _ => false, h) := by
  have hget : (get : HeapM Heap).run h = (h, h) := rfl
  rw [hasChildren, run_bind_heap hget]
  dsimp only
  cases hraw : (h.values.get v).raw with
  | object owner =>
      cases hchildren : (h.values.get v).children with
      | none => rfl
      | some cs =>
          dsimp only
          rw [run_bind_heap (run_childrenOf_of_some hchildren)]
          rfl
  | null | scalar | text => rfl

/-- What is no object has no children by itself. -/
theorem hasChildren_of_plain (hplain : ∀ owner, (h.values.get v).raw ≠ .object owner) :
    ((hasChildren v).run h).1 = false := by
  rw [run_hasChildren]
  cases hraw : (h.values.get v).raw with
  | object owner => exact absurd hraw (hplain owner)
  | null | scalar | text => rfl

/-- An object has children if they are not known yet, or if there are some. -/
theorem hasChildren_of_object {owner : Nat} (hraw : (h.values.get v).raw = .object owner) :
    ((hasChildren v).run h).1 = true
      ↔ (h.values.get v).children = none ∨ ((childrenOf v).run h).1 ≠ [] := by
  rw [run_hasChildren, hraw]
  cases hchildren : (h.values.get v).children with
  | none => simp
  | some cs =>
      rw [run_childrenOf_of_some hchildren]
      simp

/-- A value that is no object shows children if it was given some, since its content was last replaced. -/
theorem children_ne_nil_iff (hr : Remembers h v us h') (hplain : ∀ owner, (h'.values.get v).raw ≠ .object owner) :
    ((childrenOf v).run h').1 ≠ [] ↔ ∃ xs, xs ≠ [] ∧ Given v xs h us := by
  cases hchildren : (h'.values.get v).children with
  | none =>
      refine ⟨fun hsome => absurd (children_of_plain hplain hchildren) hsome, ?_⟩
      rintro ⟨xs, -, hg⟩
      obtain ⟨cs, hcs, -⟩ := hr.given xs hg
      rw [hchildren] at hcs
      cases hcs
  | some cs =>
      rw [run_childrenOf_of_some hchildren]
      constructor
      · intro hcs
        by_contra hno
        refine hcs (hr.plain (fun xs hg => ?_) hplain cs hchildren)
        obtain ⟨cs', hcs', hperm⟩ := hr.given xs hg
        rw [hchildren, Option.some.injEq] at hcs'
        subst hcs'
        exact hno ⟨xs, fun hnil => hcs (hnil ▸ hperm).eq_nil, hg⟩
      · rintro ⟨xs, hxs, hg⟩ rfl
        obtain ⟨cs', hcs', hperm⟩ := hr.given xs hg
        rw [hchildren, Option.some.injEq] at hcs'
        subst hcs'
        exact hxs hperm.symm.eq_nil

/-- Whether a value has children and which it has are asked after any run. To ask the first changes
nothing. It is denied of a value that shows children if the value is no object and was given children,
since its content was last replaced; and of no other. For an object whose children were asked for or given
since then, it is answered by what these are, and otherwise the answer is yes. -/
theorem hasChildren_agrees (hv : v < h.values.size) (hnew : (h.values.get v).children = none)
    (us : List Use) :
    let h' := afterUses us h
    ((hasChildren v).run h').2 = h'
    ∧ (((hasChildren v).run h').1 = false ∧ ((childrenOf v).run h').1 ≠ []
      ↔ (∀ owner, (h'.values.get v).raw ≠ .object owner) ∧ ∃ xs, xs ≠ [] ∧ Given v xs h us)
    ∧ ((∃ owner, (h'.values.get v).raw = .object owner) →
      (Filled v h us → (((hasChildren v).run h').1 = true ↔ ((childrenOf v).run h').1 ≠ []))
      ∧ (¬Filled v h us → ((hasChildren v).run h').1 = true)) := by
  intro h'
  have hr := children_afterUses hv hnew us
  refine ⟨congrArg Prod.snd (run_hasChildren h' v), ⟨?_, ?_⟩, ?_⟩
  · rintro ⟨hdenied, hshown⟩
    have hplain : ∀ owner, (h'.values.get v).raw ≠ .object owner := by
      intro owner hraw
      rw [(hasChildren_of_object hraw).mpr (.inr hshown)] at hdenied
      cases hdenied
    exact ⟨hplain, (children_ne_nil_iff hr hplain).mp hshown⟩
  · rintro ⟨hplain, hgiven⟩
    exact ⟨hasChildren_of_plain hplain, (children_ne_nil_iff hr hplain).mpr hgiven⟩
  · rintro ⟨owner, hraw⟩
    refine ⟨fun hfilled => ?_, fun hno => (hasChildren_of_object hraw).mpr (.inl (hr.unseen.mpr hno))⟩
    have hseen : (h'.values.get v).children ≠ none := fun hnone => hr.unseen.mp hnone hfilled
    rw [hasChildren_of_object hraw, or_iff_right hseen]

/-- A flag, which is no object, and a variable. -/
def flagAlone : Heap :=
  { (∅ : Heap) with
    values := ⟨#[⟨.detached, .scalar (.bool true), none, none⟩, ⟨.detached, .null, none, none⟩]⟩
    bindings := ⟨#[⟨"x", .binding none, .detached, 1, false⟩]⟩ }

/-- The variable is given to the flag, after its children were asked for in vain. -/
def adornFlag : List Use :=
  [.enumerate 0, .giveChildren 0 [0], .setRendered 0 "yes"]

/-- A flag is no object, so that it says that it has no children, and still it shows the one that it
was given. -/
theorem hasChildren_agrees_adornFlag :
    ((hasChildren 0).run (afterUses adornFlag flagAlone)).1 = false
      ∧ ((childrenOf 0).run (afterUses adornFlag flagAlone)).1 ≠ [] := by
  have hthere : 0 < flagAlone.values.size := by decide
  have hgiven : Given 0 [0] flagAlone adornFlag :=
    ⟨[.enumerate 0], .giveChildren 0 [0], [.setRendered 0 "yes"], rfl, rfl, ⟨id, nofun⟩, trivial⟩
  have hplain : ∀ owner, ((afterUses adornFlag flagAlone).values.get 0).raw ≠ .object owner := nofun
  exact (hasChildren_agrees hthere rfl adornFlag).2.1.mpr ⟨hplain, [0], by decide, hgiven⟩

end Asking

end DebugBridge
