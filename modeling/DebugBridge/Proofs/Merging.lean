import DebugBridge.Proofs.Sorting
import DebugBridge.Proofs.Views
import DebugBridge.Tree.Frame

/-!
# Variables that are merged

An interpreter reports variables that are new each time. A frame takes them in by name: a variable
that it knows takes the value of the reported one, and a variable of another name comes to belong to
the frame itself. So a frame shows afterwards what was reported, as long as no two reported variables
share a name, and no other variable shows anything else than before.

## Main definitions

* `Heap.Moves`: a change of what variables and values belong to;
* `Heap.Gives`: a change in which one variable comes to show something;
* `Report.view`: what an engine wants a variable to show;
* `Heap.Absorbs`: a change in which a frame takes reported variables in.

## Main results

* `made_mapM`: reported variables are new and show what the engine wants;
* `absorbs_mergeVariables`: merged variables show what was reported.
-/

namespace DebugBridge

namespace Heap

variable {h h' h'' : Heap} {x y : VariableId}

/-! ### What variables belong to -/

/-- A change of what variables and values belong to. -/
structure Moves (h h' : Heap) : Prop where
  bindings : h'.bindings.size = h.bindings.size
  values : h'.values.size = h.values.size
  binding : ∀ x, { h'.bindings.get x with parent := .detached }
    = { h.bindings.get x with parent := .detached }
  value : ∀ v, { h'.values.get v with parent := .detached }
    = { h.values.get v with parent := .detached }

namespace Moves

/-- A heap that stays as it is moves nothing. -/
theorem refl (h : Heap) : h.Moves h :=
  ⟨rfl, rfl, fun _ => rfl, fun _ => rfl⟩

/-- What moves in two steps moves in one. -/
theorem trans (hm : h.Moves h') (hm' : h'.Moves h'') : h.Moves h'' :=
  ⟨hm'.bindings.trans hm.bindings, hm'.values.trans hm.values,
    fun x => (hm'.binding x).trans (hm.binding x), fun v => (hm'.value v).trans (hm.value v)⟩

/-- A variable keeps its name when things move. -/
theorem name (hm : h.Moves h') (x : VariableId) :
    (h'.bindings.get x).name = (h.bindings.get x).name :=
  (congrArg Variable.name (hm.binding x) :)

/-- A variable keeps its origin when things move. -/
theorem origin (hm : h.Moves h') (x : VariableId) :
    (h'.bindings.get x).origin = (h.bindings.get x).origin :=
  (congrArg Variable.origin (hm.binding x) :)

/-- A variable keeps its value when things move. -/
theorem valueOf (hm : h.Moves h') (x : VariableId) :
    (h'.bindings.get x).value = (h.bindings.get x).value :=
  (congrArg Variable.value (hm.binding x) :)

/-- A value keeps its children when things move. -/
theorem children (hm : h.Moves h') (v : ValueId) :
    (h'.values.get v).children = (h.values.get v).children :=
  (congrArg Value.children (hm.value v) :)

/-- A binding is one when things moved, and was one before. -/
theorem isBinding (hm : h.Moves h') : h'.IsBinding x ↔ h.IsBinding x :=
  ⟨fun hx => ⟨hm.bindings ▸ hx.there, hm.origin x ▸ hx.free⟩,
    fun hx => ⟨hm.bindings ▸ hx.there, hm.origin x ▸ hx.free⟩⟩

/-- A heap stays tidy when things move. -/
theorem tidy (hm : h.Moves h') (ht : h.Tidy) : h'.Tidy := by
  refine ⟨fun x hx => ?_, fun x y hx hs hy => ?_, fun v children hc x hx => ?_⟩
  · rw [hm.valueOf, hm.values]
    exact ht.valued x (hm.bindings ▸ hx)
  · rw [hm.valueOf, hm.valueOf]
    exact ht.apart x y (hm.bindings ▸ hx) (hm.origin x ▸ hs) (hm.isBinding.mp hy)
  · rw [hm.bindings]
    exact ht.rooted v children (hm.children v ▸ hc) x hx

/-- What a variable belongs to does not show. -/
theorem view (hm : h.Moves h') (x : VariableId) : h'.view x = h.view x := by
  have hraw : (h'.values.get (h.bindings.get x).value).raw = (h.values.get (h.bindings.get x).value).raw :=
    (congrArg Value.raw (hm.value _) :)
  have hrendered : (h'.values.get (h.bindings.get x).value).rendered
      = (h.values.get (h.bindings.get x).value).rendered :=
    (congrArg Value.rendered (hm.value _) :)
  simp only [Heap.view, hm.name, hm.valueOf, hraw, hrendered]

end Moves

/-- A variable that gets a parent moves. -/
theorem moves_modifyVariable (h : Heap) (hx : x < h.bindings.size) (parent : Parent) :
    h.Moves ((modifyVariable x fun binding => { binding with parent }).run h).2 := by
  refine ⟨Arena.size_modify_of_lt _ hx _, rfl, fun z => ?_, fun _ => rfl⟩
  change { (h.bindings.modify x fun binding => { binding with parent }).get z with
    parent := .detached } = _
  rw [Arena.get_modify]
  split
  · next hz => rw [hz]
  · rfl

/-- A value that gets a parent moves. -/
theorem moves_modifyValue (h : Heap) {v : ValueId} (hv : v < h.values.size) (parent : Parent) :
    h.Moves ((modifyValue v fun value => { value with parent }).run h).2 := by
  refine ⟨rfl, Arena.size_modify_of_lt _ hv _, fun _ => rfl, fun z => ?_⟩
  change { (h.values.modify v fun value => { value with parent }).get z with
    parent := .detached } = _
  rw [Arena.get_modify]
  split
  · next hz => rw [hz]
  · rfl

/-- Variables that are there move one after the other. -/
theorem moves_forM {op : VariableId → HeapM Unit}
    (hop : ∀ (h : Heap), h.Tidy → ∀ x, x < h.bindings.size → h.Moves ((op x).run h).2)
    (xs : List VariableId) (h : Heap) (ht : h.Tidy) (hxs : ∀ x ∈ xs, x < h.bindings.size) :
    h.Moves ((xs.forM op).run h).2 := by
  induction xs generalizing h with
  | nil => exact .refl h
  | cons x xs ih =>
      have hfirst := hop h ht x (hxs x List.mem_cons_self)
      refine hfirst.trans (ih _ (hfirst.tidy ht) fun z hz => ?_)
      rw [hfirst.bindings]
      exact hxs z (List.mem_cons_of_mem x hz)

/-- Children of a value are variables that are there. -/
theorem Tidy.lt_of_mem_children (ht : h.Tidy) {v : ValueId}
    (hx : x ∈ (h.values.get v).children.getD []) : x < h.bindings.size := by
  cases hc : (h.values.get v).children with
  | none =>
      rw [hc] at hx
      cases hx
  | some children => exact ht.rooted v children hc x (by rwa [hc] at hx)

/-- A variable that moves, with what is below it down to a depth, changes nothing but parents. -/
theorem moves_moveVariableTo (parent : Parent) (depth : Nat) (h : Heap) (ht : h.Tidy)
    (x : VariableId) (hx : x < h.bindings.size) :
    h.Moves ((moveVariableTo parent depth x).run h).2 := by
  induction depth generalizing h x with
  | zero =>
      let h₁ := ((modifyVariable x fun binding => { binding with parent }).run h).2
      have hfirst : h.Moves h₁ := moves_modifyVariable h hx parent
      have hvalue := (hfirst.tidy ht).valued x (hfirst.bindings ▸ hx)
      exact hfirst.trans (moves_modifyValue h₁ hvalue parent)
  | succ depth ih =>
      let h₁ := ((modifyVariable x fun binding => { binding with parent }).run h).2
      let v := (h₁.bindings.get x).value
      let h₂ := ((modifyValue v fun value => { value with parent }).run h₁).2
      have hfirst : h.Moves h₁ := moves_modifyVariable h hx parent
      have hvalue := (hfirst.tidy ht).valued x (hfirst.bindings ▸ hx)
      have hsecond : h.Moves h₂ := hfirst.trans (moves_modifyValue h₁ hvalue parent)
      have hrest := moves_forM ih ((h₂.values.get v).children.getD []) h₂ (hsecond.tidy ht)
        fun z hz => (hsecond.tidy ht).lt_of_mem_children hz
      exact hsecond.trans hrest

/-- A variable that gets another parent shows what it showed. -/
theorem moves_moveVariable (h : Heap) (ht : h.Tidy) (x : VariableId) (hx : x < h.bindings.size)
    (parent : Parent) : h.Moves ((moveVariable x parent).run h).2 :=
  moves_moveVariableTo parent h.values.size h ht x hx

/-- A value that moves, with what is in it, changes nothing but parents. -/
theorem moves_moveValue (h : Heap) (ht : h.Tidy) {v : ValueId} (hv : v < h.values.size)
    (parent : Parent) : h.Moves ((moveValue v parent).run h).2 := by
  let h₁ := ((modifyValue v fun value => { value with parent }).run h).2
  have hfirst : h.Moves h₁ := moves_modifyValue h hv parent
  let moving : HeapM Unit := ((h₁.values.get v).children.getD []).forM (moveVariable · parent)
  have hrest : h₁.Moves (moving.run h₁).2 :=
    moves_forM (fun h ht x hx => moves_moveVariable h ht x hx parent) _ h₁ (hfirst.tidy ht)
      fun z hz => (hfirst.tidy ht).lt_of_mem_children hz
  exact hfirst.trans hrest

/-! ### Variables that take values -/

/-- A change in which one variable comes to show something, and no other shows anything else. -/
structure Gives (x : VariableId) (view : String × Datum × Option String) (h h' : Heap) : Prop where
  tidy : h'.Tidy
  bindings : h'.bindings.size = h.bindings.size
  name : ∀ z, (h'.bindings.get z).name = (h.bindings.get z).name
  binding : ∀ {z}, h.IsBinding z → h'.IsBinding z
  others : ∀ {z}, z ≠ x → h'.view z = h.view z
  here : h'.view x = view

/-- Where things move, each variable shows what it showed. -/
theorem Moves.gives (hm : h.Moves h') (ht : h.Tidy) (x : VariableId) : Gives x (h.view x) h h' :=
  ⟨hm.tidy ht, hm.bindings, hm.name, hm.isBinding.mpr, fun _ => hm.view _, hm.view x⟩

end Heap

/-- Whoever shows a value changes no variable and no value. -/
theorem heap_valueText (reach : Parent → Option Nat) (v : ValueId) (h : Heap) :
    ((valueText reach v).run h).2.bindings = h.bindings
      ∧ ((valueText reach v).run h).2.values = h.values := by
  have hid : ∀ session datum, ((displayId session datum).run h).2.bindings = h.bindings
      ∧ ((displayId session datum).run h).2.values = h.values := by
    intro session datum
    cases session <;> exact ⟨rfl, rfl⟩
  have htext : ∀ session datum, ((datumText session datum).run h).2.bindings = h.bindings
      ∧ ((datumText session datum).run h).2.values = h.values := by
    intro session datum
    cases datum with
    | null => exact ⟨rfl, rfl⟩
    | scalar value => exact ⟨rfl, rfl⟩
    | text id content => exact hid session (.text id content)
    | object id => exact hid session (.object id)
  simp only [valueText, StateT.run, Bind.bind, StateT.bind, get, getThe, MonadStateOf.get, StateT.get,
    Pure.pure]
  cases (h.values.get v).rendered with
  | some text => exact ⟨rfl, rfl⟩
  | none => exact htext _ _

namespace Heap

variable {h h' h'' : Heap} {x y : VariableId}

/-- A change in which a variable takes the value of another one. -/
structure Assigns (x y : VariableId) (h h' : Heap) : Prop where
  bindings : h'.bindings.size = h.bindings.size
  values : h'.values = h.values
  origin : (h'.bindings.get x).origin = (h.bindings.get x).origin
  name : (h'.bindings.get x).name = (h.bindings.get x).name
  value : (h'.bindings.get x).value = (h.bindings.get y).value
  others : ∀ {z}, z ≠ x → h'.bindings.get z = h.bindings.get z

/-- A variable that is given the value of another one is assigned it. -/
theorem assigns_modifyVariable (hx : x < h.bindings.size) {v : ValueId}
    (hv : v = (h.bindings.get y).value) (changed : Bool) :
    Assigns x y h ((modifyVariable x fun binding => { binding with value := v, changed }).run h).2 := by
  let put := fun binding : Variable => { binding with value := v, changed }
  have hself : (h.bindings.modify x put).get x = put (h.bindings.get x) :=
    (Arena.get_modify ..).trans (if_pos rfl)
  exact ⟨Arena.size_modify_of_lt _ hx put, rfl, (congrArg Variable.origin hself :),
    (congrArg Variable.name hself :), (congrArg Variable.value hself).trans hv,
    fun hz => (Arena.get_modify ..).trans (if_neg (Ne.symm hz))⟩

namespace Assigns

/-- All variables keep their origins when one is assigned a value. -/
theorem originOf (ha : Assigns x y h h') (z : VariableId) :
    (h'.bindings.get z).origin = (h.bindings.get z).origin := by
  by_cases hz : z = x
  · exact hz ▸ ha.origin
  · rw [ha.others hz]

/-- All variables keep their names when one is assigned a value. -/
theorem nameOf (ha : Assigns x y h h') (z : VariableId) :
    (h'.bindings.get z).name = (h.bindings.get z).name := by
  by_cases hz : z = x
  · exact hz ▸ ha.name
  · rw [ha.others hz]

/-- A binding is one when one was assigned a value, and was one before. -/
theorem isBinding (ha : Assigns x y h h') {z : VariableId} : h'.IsBinding z ↔ h.IsBinding z :=
  ⟨fun hz => ⟨ha.bindings ▸ hz.there, ha.originOf z ▸ hz.free⟩,
    fun hz => ⟨ha.bindings ▸ hz.there, ha.originOf z ▸ hz.free⟩⟩

/-- The new value is that of a binding, so it is there, and no slot shares it. -/
theorem tidy (ha : Assigns x y h h') (ht : h.Tidy) (hx : h.IsBinding x) (hy : h.IsBinding y) :
    h'.Tidy := by
  refine ⟨fun z hz => ?_, fun z z' hz hs hz' => ?_, fun v children hc z hz => ?_⟩
  · rw [ha.values]
    by_cases hzx : z = x
    · rw [hzx, ha.value]
      exact ht.valued y hy.there
    · rw [ha.others hzx]
      exact ht.valued z (ha.bindings ▸ hz)
  · have hslot : (h.bindings.get z).origin.slot? ≠ none := ha.originOf z ▸ hs
    have hzx : z ≠ x := by
      rintro rfl
      exact hslot hx.free
    rw [ha.others hzx]
    by_cases hzx' : z' = x
    · rw [hzx', ha.value]
      exact ht.apart z y (ha.bindings ▸ hz) hslot hy
    · rw [ha.others hzx']
      exact ht.apart z z' (ha.bindings ▸ hz) hslot (ha.isBinding.mp hz')
  · rw [ha.bindings]
    exact ht.rooted v children (ha.values ▸ hc) z hz

/-- A binding that takes the value of another binding of its name shows what that one shows. -/
theorem gives (ha : Assigns x y h h') (ht : h.Tidy) (hx : h.IsBinding x) (hy : h.IsBinding y)
    (hname : (h.bindings.get x).name = (h.bindings.get y).name) : Gives x (h.view y) h h' := by
  refine ⟨ha.tidy ht hx hy, ha.bindings, ha.nameOf, ha.isBinding.mpr, fun {z} hz => ?_, ?_⟩
  · rw [view, view, ha.others hz, ha.values]
  · rw [view, view, ha.name, ha.value, ha.values, hname]

end Assigns

/-- What variables belong to does not matter to what they show. -/
theorem Gives.of_moves (hm : h.Moves h') (hg : Gives x (h'.view y) h' h'') : Gives x (h.view y) h h'' :=
  ⟨hg.tidy, hg.bindings.trans hm.bindings, fun z => (hg.name z).trans (hm.name z),
    fun hz => hg.binding (hm.isBinding.mpr hz), fun hz => (hg.others hz).trans (hm.view _),
    hg.here.trans (hm.view y)⟩

/-- To replace a value is to move the new one, to show both, and to put the new one in. -/
theorem run_replaceValue (reach : Parent → Option Nat) (x : VariableId) (v : ValueId) {h h₁ h₂ h₃ : Heap}
    {shown replaced : String} (hmove : (moveValue v (h.bindings.get x).parent).run h = ((), h₁))
    (hshown : (valueText reach (h.bindings.get x).value).run h₁ = (shown, h₂))
    (hreplaced : (valueText reach v).run h₂ = (replaced, h₃)) :
    (replaceValue reach x v).run h = (modifyVariable x fun binding =>
      { binding with value := v, changed := shown != replaced }).run h₃ := by
  have hget : (get : HeapM Heap).run h = (h, h) := rfl
  rw [replaceValue, run_bind_heap hget, run_bind_heap hmove, run_bind_heap hshown,
    run_bind_heap hreplaced]

/-- A binding that takes the value of another one of its name shows what that showed. -/
theorem gives_replaceValue (reach : Parent → Option Nat) (ht : h.Tidy) (hx : h.IsBinding x)
    (hy : h.IsBinding y) (hname : (h.bindings.get x).name = (h.bindings.get y).name) :
    Gives x (h.view y) h ((replaceValue reach x (h.bindings.get y).value).run h).2 := by
  have hm₁ := moves_moveValue h ht (ht.valued y hy.there) (h.bindings.get x).parent
  obtain ⟨h₁, hmove⟩ : ∃ h₁, (moveValue (h.bindings.get y).value (h.bindings.get x).parent).run h
      = ((), h₁) := ⟨_, rfl⟩
  rw [hmove] at hm₁
  have hkept₂ := heap_valueText reach (h.bindings.get x).value h₁
  obtain ⟨⟨shown, h₂⟩, hshown⟩ : ∃ result, (valueText reach (h.bindings.get x).value).run h₁ = result :=
    ⟨_, rfl⟩
  rw [hshown] at hkept₂
  have hkept₃ := heap_valueText reach (h.bindings.get y).value h₂
  obtain ⟨⟨replaced, h₃⟩, hreplaced⟩ : ∃ result, (valueText reach (h.bindings.get y).value).run h₂
      = result := ⟨_, rfl⟩
  rw [hreplaced] at hkept₃
  have hbindings : h₃.bindings = h₁.bindings := hkept₃.1.trans hkept₂.1
  have hvalues : h₃.values = h₁.values := hkept₃.2.trans hkept₂.2
  have hm : h.Moves h₃ :=
    ⟨hbindings ▸ hm₁.bindings, hvalues ▸ hm₁.values, fun z => hbindings ▸ hm₁.binding z,
      fun z => hvalues ▸ hm₁.value z⟩
  have hassigns : Assigns x y h₃ _ := assigns_modifyVariable (hm.bindings ▸ hx.there)
    (hm.valueOf y).symm (shown != replaced)
  rw [run_replaceValue reach x _ hmove hshown hreplaced]
  exact .of_moves hm (hassigns.gives (hm.tidy ht) (hm.isBinding.mpr hx) (hm.isBinding.mpr hy)
    ((hm.name x).trans (hname.trans (hm.name y).symm)))

/-! ### Reported variables -/

/-- The variable that takes a reported one in: a known one of its name, or the reported one. -/
def target (h : Heap) (known : List VariableId) (y : VariableId) : VariableId :=
  (known.find? fun x => (h.bindings.get x).name == (h.bindings.get y).name).getD y

/-- A reported variable is taken in by itself or by a known one. -/
theorem target_cases (h : Heap) (known : List VariableId) (y : VariableId) :
    h.target known y = y ∨ h.target known y ∈ known := by
  unfold target
  cases hfind : known.find? fun x => (h.bindings.get x).name == (h.bindings.get y).name with
  | none => exact .inl rfl
  | some x => exact .inr (List.mem_of_find?_eq_some hfind)

/-- The variable that takes a reported one in has its name. -/
theorem name_target (h : Heap) (known : List VariableId) (y : VariableId) :
    (h.bindings.get (h.target known y)).name = (h.bindings.get y).name := by
  unfold target
  cases hfind : known.find? fun x => (h.bindings.get x).name == (h.bindings.get y).name with
  | none => rfl
  | some x => simpa using List.find?_some hfind

/-- A variable of whose name no other is known moves to the frame. -/
theorem run_mergeVariable_of_new (reach : Parent → Option Nat) (f : FrameRef) {known : List VariableId}
    (hmove : (moveVariable y (.frame f)).run h = ((), h'))
    (hfind : (known.find? fun x => (h.bindings.get x).name == (h.bindings.get y).name) = none) :
    (mergeVariable reach f known y).run h = (y, h') := by
  have hget : (get : HeapM Heap).run h = (h, h) := rfl
  rw [mergeVariable, run_bind_heap hget]
  simp only [hfind]
  rw [run_bind_heap hmove]
  rfl

/-- A variable of whose name another is known gives that its value. -/
theorem run_mergeVariable_of_known (reach : Parent → Option Nat) (f : FrameRef) {known : List VariableId}
    (hreplace : (replaceValue reach x (h.bindings.get y).value).run h = ((), h'))
    (hfind : (known.find? fun x => (h.bindings.get x).name == (h.bindings.get y).name) = some x) :
    (mergeVariable reach f known y).run h = (x, h') := by
  have hget : (get : HeapM Heap).run h = (h, h) := rfl
  rw [mergeVariable, run_bind_heap hget]
  simp only [hfind]
  rw [run_bind_heap hreplace]
  rfl

/-- A reported variable is taken in by a variable of its name, which shows afterwards what was
reported. -/
theorem gives_mergeVariable (reach : Parent → Option Nat) (f : FrameRef) (known : List VariableId)
    (ht : h.Tidy) (hknown : ∀ x ∈ known, h.IsBinding x) (hy : h.IsBinding y) :
    ((mergeVariable reach f known y).run h).1 = h.target known y
      ∧ Gives (h.target known y) (h.view y) h ((mergeVariable reach f known y).run h).2 := by
  cases hfind : known.find? fun x => (h.bindings.get x).name == (h.bindings.get y).name with
  | none =>
      have htarget : h.target known y = y := by rw [target, hfind]; rfl
      have hgives := (moves_moveVariable h ht y hy.there (.frame f)).gives ht y
      obtain ⟨h', hmove⟩ : ∃ h', (moveVariable y (.frame f)).run h = ((), h') := ⟨_, rfl⟩
      rw [hmove] at hgives
      rw [run_mergeVariable_of_new reach f hmove hfind, htarget]
      exact ⟨rfl, hgives⟩
  | some x =>
      have htarget : h.target known y = x := by rw [target, hfind]; rfl
      have hname : (h.bindings.get x).name = (h.bindings.get y).name := by
        simpa using List.find?_some hfind
      have hgives := gives_replaceValue reach ht (hknown x (List.mem_of_find?_eq_some hfind)) hy hname
      obtain ⟨h', hreplace⟩ : ∃ h', (replaceValue reach x (h.bindings.get y).value).run h = ((), h') :=
        ⟨_, rfl⟩
      rw [hreplace] at hgives
      rw [run_mergeVariable_of_known reach f hreplace hfind, htarget]
      exact ⟨rfl, hgives⟩

/-- A change in which a frame that knows some variables takes reported ones in, and shows what they
showed. -/
structure Absorbs (known reported merged : List VariableId) (h h' : Heap) : Prop where
  tidy : h'.Tidy
  bindings : h'.bindings.size = h.bindings.size
  binding : ∀ {z}, h.IsBinding z → h'.IsBinding z
  others : ∀ {z}, z ∉ merged → h'.view z = h.view z
  mem : ∀ z ∈ merged, z ∈ known ∨ z ∈ reported
  views : (merged.map h'.view).Perm (reported.map h.view)

/-- Reported variables with names of their own are taken in one after the other. -/
theorem absorbs_mapM (reach : Parent → Option Nat) (f : FrameRef) {known reported : List VariableId}
    (ht : h.Tidy) (hknown : ∀ x ∈ known, h.IsBinding x) (hnew : ∀ y ∈ reported, h.IsBinding y)
    (hapart : ∀ y ∈ reported, y ∉ known)
    (hnames : (reported.map fun y => (h.bindings.get y).name).Nodup) :
    ∃ merged h', (reported.mapM (mergeVariable reach f known)).run h = (merged, h')
      ∧ merged.map h'.view = reported.map h.view
      ∧ (∀ z, (h'.bindings.get z).name = (h.bindings.get z).name)
      ∧ Absorbs known reported merged h h' := by
  induction reported generalizing h with
  | nil =>
      exact ⟨[], h, rfl, rfl, fun _ => rfl, ht, rfl, id, fun _ => rfl, List.forall_mem_nil _, .refl _⟩
  | cons y ys ih =>
      obtain ⟨hfst, hgives⟩ := gives_mergeVariable reach f known ht hknown
        (hnew y List.mem_cons_self)
      let x := h.target known y
      let h₁ := ((mergeVariable reach f known y).run h).2
      have hfirst : (mergeVariable reach f known y).run h = (x, h₁) := Prod.ext hfst rfl
      obtain ⟨hy, hys⟩ := List.nodup_cons.mp hnames
      have hrename : ys.map (fun z => (h₁.bindings.get z).name) = ys.map fun z => (h.bindings.get z).name :=
        List.map_congr_left fun z _ => hgives.name z
      obtain ⟨merged, h', hrun, hviews, hname, habsorbs⟩ := ih hgives.tidy
        (fun z hz => hgives.binding (hknown z hz))
        (fun z hz => hgives.binding (hnew z (List.mem_cons_of_mem y hz)))
        (fun z hz => hapart z (List.mem_cons_of_mem y hz)) (hrename ▸ hys)
      -- The first variable takes no value later: all that do so have other names.
      have hlater : x ∉ merged := by
        intro hx
        have hview : h'.view x ∈ ys.map h₁.view := hviews ▸ List.mem_map_of_mem hx
        obtain ⟨z, hz, heq⟩ := List.mem_map.mp hview
        have hsame : (h₁.bindings.get z).name = (h'.bindings.get x).name := congrArg Prod.fst heq
        rw [hname, hgives.name, hgives.name, name_target] at hsame
        exact hy (List.mem_map.mpr ⟨z, hz, hsame⟩)
      have hrest : ys.map h₁.view = ys.map h.view := by
        refine List.map_congr_left fun z hz => hgives.others ?_
        rintro rfl
        obtain htarget | htarget := target_cases h known y
        · refine hy (List.mem_map.mpr ⟨_, hz, ?_⟩)
          rw [htarget]
        · exact hapart _ (List.mem_cons_of_mem y hz) htarget
      have hall : (x :: merged).map h'.view = (y :: ys).map h.view := by
        rw [List.map_cons, List.map_cons, hviews, hrest, habsorbs.others hlater, hgives.here]
      refine ⟨x :: merged, h', ?_, hall, fun z => (hname z).trans (hgives.name z), habsorbs.tidy,
        habsorbs.bindings.trans hgives.bindings, fun hz => habsorbs.binding (hgives.binding hz),
        fun {z} hz => ?_, ?_, hall ▸ .refl _⟩
      · rw [List.mapM_cons, run_bind_heap hfirst, run_bind_heap hrun]
        rfl
      · obtain ⟨hzx, hzm⟩ := not_or.mp (mt List.mem_cons.mpr hz)
        exact (habsorbs.others hzm).trans (hgives.others hzx)
      · intro z hz
        rcases List.mem_cons.mp hz with rfl | hz
        · exact (target_cases h known y).symm.imp id fun heq => List.mem_cons.mpr (.inl heq)
        · exact (habsorbs.mem z hz).imp id (List.mem_cons_of_mem y)

/-- A frame that takes reported variables in shows what was reported. -/
theorem absorbs_mergeVariables (reach : Parent → Option Nat) (f : FrameRef)
    {known reported : List VariableId} (ht : h.Tidy) (hknown : ∀ x ∈ known, h.IsBinding x)
    (hnew : ∀ y ∈ reported, h.IsBinding y) (hapart : ∀ y ∈ reported, y ∉ known)
    (hnames : (reported.map fun y => (h.bindings.get y).name).Nodup) :
    Absorbs known reported ((mergeVariables reach f known reported).run h).1 h
      ((mergeVariables reach f known reported).run h).2 := by
  obtain ⟨merged, h', hrun, -, -, habsorbs⟩ := absorbs_mapM reach f ht hknown hnew hapart hnames
  let name := fun x => (h'.bindings.get x).name
  let sorted := sortBy (fun x y => compare (name x) (name y) == .lt) merged
  have hall : (mergeVariables reach f known reported).run h = (sorted, h') := by
    rw [mergeVariables, run_bind_heap hrun]
    rfl
  have hperm : sorted.Perm merged := perm_sortBy _ merged
  rw [hall]
  exact ⟨habsorbs.tidy, habsorbs.bindings, habsorbs.binding,
    fun hz => habsorbs.others fun hmem => hz (hperm.mem_iff.mpr hmem),
    fun z hz => habsorbs.mem z (hperm.mem_iff.mp hz), (hperm.map _).trans habsorbs.views⟩

end Heap

/-- What an engine wants a variable to show. -/
def Report.view (r : Report) : String × Datum × Option String :=
  (r.name, r.content, r.rendered)

/-- The variables that are made of reports are new, each behind the one before, and show what the
engine wants. -/
theorem made_mapM (reports : List Report) {h : Heap} (ht : h.Tidy) :
    ∃ made h', (reports.mapM Report.make).run h = (made, h') ∧ h.Extends h'
      ∧ made.map h'.view = reports.map Report.view ∧ made.Pairwise (· < ·)
      ∧ ∀ x ∈ made, h.bindings.size ≤ x ∧ h'.IsBinding x := by
  induction reports generalizing h with
  | nil => exact ⟨[], h, rfl, Heap.Keeps.refl h ht, rfl, .nil, List.forall_mem_nil _⟩
  | cons r rs ih =>
      let h₁ := h.bind r.name ⟨.detached, r.content, none, r.rendered⟩
      have hfirst : r.make.run h = (h.bindings.size, h₁) := run_make r h
      have hkeeps : h.Extends h₁ := h.keeps_bind r.name rfl ht
      have hhere : h₁.IsBinding h.bindings.size := h.isBinding_bind_self _ _
      have hsize : h₁.bindings.size = h.bindings.size + 1 := by simp [h₁, Heap.bind]
      obtain ⟨made, h', hrun, hextends, hviews, hordered, hnew⟩ := ih hkeeps.tidy
      refine ⟨h.bindings.size :: made, h', ?_,
        Heap.Keeps.trans (fun _ => hkeeps) (fun _ => hextends) ht,
        ?_, List.pairwise_cons.mpr ⟨fun x hx => ?_, hordered⟩, fun x hx => ?_⟩
      · rw [List.mapM_cons, run_bind_heap hfirst, run_bind_heap hrun]
        rfl
      · rw [List.map_cons, List.map_cons, hviews, hextends.view hhere, Heap.view_bind_self]
        rfl
      · have hx' := (hnew x hx).1
        rw [hsize] at hx'
        exact hx'
      · rcases List.mem_cons.mp hx with rfl | hx
        · exact ⟨Nat.le_refl _, hextends.binding hhere⟩
        · have hx' := (hnew x hx).1
          rw [hsize] at hx'
          exact ⟨Nat.le_of_succ_le hx', (hnew x hx).2⟩

end DebugBridge
