import DebugBridge.Bridge.Serving
import DebugBridge.Data.Assignment

/-!
# What variables show

A variable that is a binding of the interpreter shows its name, the content of its value and the text
for display, if there is one. Hardly anything changes that behind its back: new variables and values
come, slots of objects are written, texts are shown, and all that leaves the bindings that are there
as they are.

## Main definitions

* `Heap.view`: what a variable shows;
* `Heap.Tidy`: every variable has a value, which no slot shares with a binding;
* `Heap.Keeps`: a change that leaves what bindings show.

## Main results

* `careful_make`, `Careful.mapM`, `keeps_assignSlot`: the parts of operations keep what bindings show.
-/

namespace DebugBridge

namespace Heap

variable {h h' h'' : Heap} {x y : VariableId}

/-- What a variable shows: its name, the content of its value and the text for display. -/
def view (h : Heap) (x : VariableId) : String × Datum × Option String :=
  let binding := h.bindings.get x
  let value := h.values.get binding.value
  (binding.name, value.raw, value.rendered)

/-- A variable that is there and no slot of an object. -/
structure IsBinding (h : Heap) (x : VariableId) : Prop where
  there : x < h.bindings.size
  free : (h.bindings.get x).origin.slot? = none

/-- Every variable has a value, slots of objects share none with bindings, and the children of values
are variables that are there. -/
structure Tidy (h : Heap) : Prop where
  valued : ∀ x, x < h.bindings.size → (h.bindings.get x).value < h.values.size
  apart : ∀ x y, x < h.bindings.size → (h.bindings.get x).origin.slot? ≠ none → h.IsBinding y →
    (h.bindings.get x).value ≠ (h.bindings.get y).value
  rooted : ∀ v children, (h.values.get v).children = some children →
    ∀ x ∈ children, x < h.bindings.size

/-- Another heap with all bindings of a heap, which show what they showed. -/
structure Extends (h h' : Heap) : Prop where
  tidy : h'.Tidy
  values : h.values.size ≤ h'.values.size
  bindings : h.bindings.size ≤ h'.bindings.size
  binding : ∀ {x}, h.IsBinding x → h'.IsBinding x
  view : ∀ {x}, h.IsBinding x → h'.view x = h.view x

/-- A change of a heap that leaves what bindings show. -/
def Keeps (h h' : Heap) : Prop :=
  h.Tidy → h.Extends h'

/-- A heap keeps what its bindings show if nothing is changed. -/
theorem Keeps.refl (h : Heap) : h.Keeps h :=
  fun ht => ⟨ht, Nat.le_refl _, Nat.le_refl _, id, fun _ => rfl⟩

/-- What bindings show is kept by one change after another. -/
theorem Keeps.trans (hk : h.Keeps h') (hk' : h'.Keeps h'') : h.Keeps h'' := by
  intro ht
  have he := hk ht
  have he' := hk' he.tidy
  exact ⟨he'.tidy, Nat.le_trans he.values he'.values, Nat.le_trans he.bindings he'.bindings,
    fun hx => he'.binding (he.binding hx), fun hx => (he'.view (he.binding hx)).trans (he.view hx)⟩

/-- What changes no variable and no value keeps what is shown. -/
theorem Keeps.of_eq (hb : h'.bindings = h.bindings) (hv : h'.values = h.values) : h.Keeps h' := by
  obtain ⟨texts, objects, values, bindings, displays⟩ := h
  obtain ⟨texts', objects', values', bindings', displays'⟩ := h'
  obtain rfl : bindings' = bindings := hb
  obtain rfl : values' = values := hv
  exact fun ht => ⟨⟨ht.valued, fun x y hx hs hy => ht.apart x y hx hs ⟨hy.there, hy.free⟩, ht.rooted⟩,
    Nat.le_refl _, Nat.le_refl _, fun hx => ⟨hx.there, hx.free⟩, fun _ => rfl⟩

/-- The heap that holds nothing is tidy. -/
theorem tidy_empty : Tidy ∅ :=
  ⟨fun _ hx => absurd hx (Nat.not_lt_zero _), fun _ _ hx => absurd hx (Nat.not_lt_zero _), nofun⟩

/-- A heap with a new variable, which is a binding with a value of its own. -/
def bind (h : Heap) (name : String) (value : Value) : Heap :=
  { h with
    values := h.values.push value
    bindings := h.bindings.push ⟨name, .binding none, value.parent, h.values.size, false⟩ }

/-- A new binding is one more variable, and the others stay what they are. -/
theorem bindings_bind (h : Heap) (name : String) (value : Value) (x : VariableId) :
    (h.bind name value).bindings.get x
      = if x = h.bindings.size then ⟨name, .binding none, value.parent, h.values.size, false⟩
        else h.bindings.get x :=
  Arena.get_push _ _ x

/-- A new binding brings one more value, and the others stay what they are. -/
theorem values_bind (h : Heap) (name : String) (value : Value) (v : ValueId) :
    (h.bind name value).values.get v = if v = h.values.size then value else h.values.get v :=
  Arena.get_push _ _ v

/-- A variable that was there has another number than a new one. -/
theorem bindings_bind_of_lt (h : Heap) (name : String) (value : Value)
    (hx : x < h.bindings.size) : (h.bind name value).bindings.get x = h.bindings.get x := by
  rw [bindings_bind, if_neg (Nat.ne_of_lt hx)]

/-- A variable that was just bound is a binding. -/
theorem isBinding_bind_self (h : Heap) (name : String) (value : Value) :
    (h.bind name value).IsBinding h.bindings.size := by
  refine ⟨by simp [bind], ?_⟩
  rw [bindings_bind, if_pos rfl]
  rfl

/-- A variable that was just bound shows its name and its value. -/
theorem view_bind_self (h : Heap) (name : String) (value : Value) :
    (h.bind name value).view h.bindings.size = (name, value.raw, value.rendered) := by
  simp only [view, bindings_bind, values_bind, if_true]

/-- To bind a variable to a value without children changes nothing that bindings show. -/
theorem keeps_bind (h : Heap) (name : String) {value : Value} (hv : value.children = none) :
    h.Keeps (h.bind name value) := by
  intro ht
  have hvalues : (h.bind name value).values.size = h.values.size + 1 := by simp [bind]
  have hbindings : (h.bind name value).bindings.size = h.bindings.size + 1 := by simp [bind]
  have hold : ∀ {x}, h.IsBinding x → (h.bind name value).IsBinding x := fun hx =>
    ⟨by rw [hbindings]; exact Nat.lt_succ_of_lt hx.there,
      by rw [bindings_bind_of_lt h name value hx.there]; exact hx.free⟩
  refine ⟨⟨fun x hx => ?_, fun x y hx hs hy => ?_, fun v children hchildren x hx => ?_⟩, ?_, ?_, hold,
    fun {x} hx => ?_⟩
  · rw [hvalues, bindings_bind]
    split
    · exact Nat.lt_succ_self _
    · next hne =>
        rw [hbindings] at hx
        exact Nat.lt_succ_of_lt (ht.valued x (Nat.lt_of_le_of_ne (Nat.le_of_lt_succ hx) hne))
  · rw [hbindings] at hx
    rw [bindings_bind] at hs ⊢
    split at hs
    · exact absurd rfl hs
    · next hne =>
        rw [if_neg hne]
        have hxt := Nat.lt_of_le_of_ne (Nat.le_of_lt_succ hx) hne
        rw [bindings_bind]
        split
        · exact Nat.ne_of_lt (ht.valued x hxt)
        · next hney =>
            have hythere := hy.there
            rw [hbindings] at hythere
            have hyt := Nat.lt_of_le_of_ne (Nat.le_of_lt_succ hythere) hney
            refine ht.apart x y hxt hs ⟨hyt, ?_⟩
            have hfree := hy.free
            rwa [bindings_bind_of_lt h name value hyt] at hfree
  · rw [values_bind] at hchildren
    split at hchildren
    · rw [hv] at hchildren
      cases hchildren
    · rw [hbindings]
      exact Nat.lt_succ_of_lt (ht.rooted v children hchildren x hx)
  · rw [hvalues]
    exact Nat.le_succ _
  · rw [hbindings]
    exact Nat.le_succ _
  · have hv := ht.valued x hx.there
    simp only [view, bindings_bind_of_lt h name value hx.there, values_bind,
      if_neg (Nat.ne_of_lt hv)]

end Heap

/-! ### Operations -/

/-- An operation that leaves what bindings show, on whatever heap. -/
def Careful {α : Type} (op : HeapM α) : Prop :=
  ∀ h : Heap, h.Keeps (op.run h).2

namespace Careful

variable {α β : Type}

/-- To return a result changes nothing that bindings show. -/
theorem pure (a : α) : Careful (pure a) :=
  fun h => Heap.Keeps.refl h

/-- Careful operations make up a careful one, whatever the second is told by the first. -/
theorem bind {op : HeapM α} {f : α → HeapM β} (hop : Careful op) (hf : ∀ a, Careful (f a)) :
    Careful (op >>= f) :=
  fun h => (hop h).trans (hf _ _)

/-- A careful operation on each of several things is careful. -/
theorem mapM {f : α → HeapM β} (hf : ∀ a, Careful (f a)) (xs : List α) :
    Careful (xs.mapM f) := by
  induction xs with
  | nil => exact pure _
  | cons x xs ih =>
      rw [List.mapM_cons]
      exact bind (hf x) fun y => bind ih fun ys => pure _

end Careful

/-- An operation goes on from where the first part of it ended. -/
theorem run_bind_heap {α β : Type} {op : HeapM α} {a : α} {h h' : Heap} (hop : op.run h = (a, h'))
    (f : α → HeapM β) : (op >>= f).run h = (f a).run h' := by
  change (f (op.run h).1).run (op.run h).2 = _
  rw [hop]

/-- To make what a draft describes leaves what bindings show. -/
theorem careful_realize (draft : Draft) : Careful (realize draft) := by
  cases draft with
  | settled datum => exact Careful.pure _
  | text content => exact fun h => .of_eq rfl rfl

/-- Whoever shows something gives out display ids at most. -/
theorem careful_displayId (session : Option Nat) (datum : Datum) :
    Careful (displayId session datum) := by
  cases session with
  | none => exact Careful.pure _
  | some s => exact fun h => .of_eq rfl rfl

/-- To write a datum out for display leaves what bindings show. -/
theorem careful_datumText (session : Option Nat) (datum : Datum) :
    Careful (datumText session datum) := by
  cases datum with
  | null => exact Careful.pure _
  | scalar value => exact Careful.pure _
  | text id content => exact Careful.bind (careful_displayId _ _) fun _ => Careful.pure _
  | object id => exact fun h => careful_displayId session (.object id) h

/-- The state that was pushed last is changed before it is pushed. -/
theorem Arena.modify_push {α : Type} [Inhabited α] (a : Arena α) (x : α) (f : α → α) :
    (a.push x).modify a.size f = a.push (f x) := by
  obtain ⟨cells⟩ := a
  simp [modify, push, size]
  ext i h h'
  · simp
  · rw [Array.getElem_modify]
    by_cases hi : cells.size = i
    · subst hi
      simp
    · have hlt : i < cells.size := by
        simp at h
        omega
      simp [hi, hlt, Array.getElem_push]

/-- A reported variable is a new binding. -/
theorem run_make (r : Report) (h : Heap) :
    r.make.run h
      = (h.bindings.size, h.bind r.name ⟨.detached, r.content, none, r.rendered⟩) := by
  obtain ⟨name, content, rendered⟩ := r
  cases rendered with
  | none => rfl
  | some text =>
      let u := h.bind name ⟨.detached, content, none, none⟩
      have hvalue : (u.bindings.get h.bindings.size).value = h.values.size := by
        rw [Heap.bindings_bind, if_pos rfl]
      let put := fun value : Value => { value with rendered := some text }
      have hrun : (Report.make ⟨name, content, some text⟩).run h
          = (h.bindings.size,
            { u with values := u.values.modify (u.bindings.get h.bindings.size).value put }) := rfl
      rw [hrun, hvalue]
      have hpush := Arena.modify_push h.values ⟨.detached, content, none, none⟩ put
      exact congrArg (fun values => (h.bindings.size, { u with values := values })) hpush

/-- To make the variables of a report leaves what bindings show. -/
theorem careful_make (r : Report) : Careful r.make := by
  intro h
  rw [run_make]
  exact h.keeps_bind _ rfl

/-- To change the content of a slot changes no binding. -/
theorem keeps_replaceContent (h : Heap) (x : VariableId)
    (hx : (h.bindings.get x).origin.slot? ≠ none) (content : Datum) :
    h.Keeps ((replaceContent (h.bindings.get x).value content).run h).2 := by
  let f := fun value : Value => { value with raw := content, children := none, rendered := none }
  let v := (h.bindings.get x).value
  have hrun : ((replaceContent v content).run h).2
      = { h with values := h.values.modify v f } := rfl
  have hthere : x < h.bindings.size := by
    refine Nat.lt_of_not_le fun hle => hx ?_
    have hnone : h.bindings.cells[x]? = none := Array.getElem?_eq_none hle
    rw [Arena.get, hnone]
    rfl
  intro ht
  have hv : v < h.values.size := ht.valued x hthere
  have hsize : (h.values.modify v f).size = h.values.size := Arena.size_modify_of_lt _ hv f
  rw [hrun]
  refine ⟨⟨fun y hy => ?_, fun y z hy hs hz => ht.apart y z hy hs ⟨hz.there, hz.free⟩,
    fun w children hchildren y hy => ?_⟩, ?_, Nat.le_refl _, fun hy => ⟨hy.there, hy.free⟩,
    fun {y} hy => ?_⟩
  · exact hsize ▸ ht.valued y hy
  · rw [Arena.get_modify] at hchildren
    split at hchildren
    · cases hchildren
    · exact ht.rooted w children hchildren y hy
  · exact Nat.le_of_eq hsize.symm
  · have hne : v ≠ (h.bindings.get y).value := ht.apart x y hthere hx hy
    simp only [Heap.view, Arena.get_modify, if_neg hne]

/-- A slot that is written shows the new content, or everything stays as it was. -/
theorem keeps_writeSlot (h : Heap) (x : VariableId) (owner : Nat) (slot : Slot)
    (hx : (h.bindings.get x).origin.slot? ≠ none) (content : Datum) (u : Heap)
    (hb : u.bindings = h.bindings) (hv : u.values = h.values) :
    h.Keeps ((do
      match ← writeSlot owner slot content with
      | .error failure =>
        set h
        return .error failure
      | .ok () =>
        replaceContent (h.bindings.get x).value content
        return .ok () : HeapM (Except Failure Unit)).run u).2 := by
  cases hw : (u.objects.get owner).write slot content with
  | error failure =>
      have hrun : (writeSlot owner slot content).run u = (.error failure, u) := by
        simp only [writeSlot, StateT.run, Bind.bind, StateT.bind, get, getThe, MonadStateOf.get,
          StateT.get, Pure.pure, hw]
        rfl
      rw [run_bind_heap hrun]
      exact .refl h
  | ok object =>
      let u' := { u with objects := u.objects.set owner object }
      have hrun : (writeSlot owner slot content).run u = (.ok (), u') := by
        simp only [writeSlot, StateT.run, Bind.bind, StateT.bind, get, getThe, MonadStateOf.get,
          StateT.get, Pure.pure, hw]
        rfl
      have hbinding : u'.bindings.get x = h.bindings.get x := congrArg (·.get x) hb
      rw [run_bind_heap hrun, ← hbinding]
      have hobject : h.Keeps u' := .of_eq hb hv
      exact hobject.trans (keeps_replaceContent u' x (hbinding ▸ hx) content)

/-- To write a slot of an object changes no binding. -/
theorem keeps_assignSlot (h : Heap) (x : VariableId) (owner : Nat) (slot : Slot) (type : SlotType)
    (expression : String) (hx : (h.bindings.get x).origin.slot? ≠ none) :
    h.Keeps ((assignSlot x owner slot type expression).run h).2 := by
  unfold assignSlot
  simp only [StateT.run, bind, StateT.bind, get, getThe, MonadStateOf.get, StateT.get, pure]
  split
  · exact .refl h
  · cases type.convert expression with
    | error failure => exact .refl h
    | ok draft =>
        cases draft with
        | settled datum => exact keeps_writeSlot h x owner slot hx datum h rfl rfl
        | text content => exact keeps_writeSlot h x owner slot hx _ _ rfl rfl

end DebugBridge
