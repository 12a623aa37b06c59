import DebugBridge.Proofs.Exchange
import DebugBridge.Proofs.Labels
import Mathlib.Data.String.Basic

/-!
# Variables that are taken in

A frame takes reported variables in by name. Where it knows a variable of the name, it keeps that, and
the variable takes the reported value, which comes to belong to whatever the variable belongs to: the
frame, unless somebody moved the variable elsewhere. A variable of another name comes to belong to the
frame, with everything below it. As long as no name is reported twice, each of these steps stays within
variables and values of its own, so that it does not matter which other steps come before or after it.

Names may be reported twice, such as those of shadowed bindings. As long as the frame knows no variable of
the name, each of them is listed. Once it does, both are taken in by the same variable, which is listed
twice and shows the last value only: nobody looks whether a variable was used already.

## Main definitions

* `Heap.Fresh`: reported variables that are new;
* `Heap.Updates`, `Heap.Joins`: a known variable takes a reported value, and a reported variable comes to
  belong to a frame;
* `Heap.TookIn`: some variables were taken in, and nothing else changed;
* `Heap.Intake`: what a frame lists in the end.

## Main results

* `Heap.replaces_replaceValue`: what exactly happens to a variable that takes a value;
* `Heap.TookIn.step`, `Heap.tookIn_mapM`: one variable is taken in, and all of them are;
* `intake_setVariables`: what a frame makes of reported variables with names of their own;
* `setVariables_lists_each_once_iff`: when each of them is listed, and none twice.
-/

namespace DebugBridge

/-! ### The order of names -/

/-- Different names are in ascending order. -/
theorem pairwise_names_sortBy {α : Type} {name : α → String} {xs : List α} (hd : (xs.map name).Nodup) :
    ((sortBy (fun x y => compare (name x) (name y) == .lt) xs).map name).Pairwise (· < ·) := by
  let less : α → α → Bool := fun x y => compare (name x) (name y) == .lt
  have hle : ∀ a b, less a b = false ↔ name b ≤ name a := by
    intro a b
    rw [← not_lt, ← compare_lt_iff_lt, beq_eq_false_iff_ne]
  have horders : Orders less Set.univ := by
    refine ⟨fun a _ b _ h => ?_, fun a _ b _ c _ h h' => ?_⟩
    · rw [hle]
      exact (le_total (name a) (name b)).resolve_right fun hba => by simp [(hle a b).mpr hba] at h
    · exact (hle a c).mpr (le_trans ((hle b c).mp h') ((hle a b).mp h))
  have hsorted : (sortBy less xs).Pairwise fun a b => less b a = false :=
    pairwise_sortBy horders fun _ _ => Set.mem_univ _
  have hnames : ((sortBy less xs).map name).Nodup := ((perm_sortBy less xs).map name).nodup_iff.mpr hd
  rw [List.pairwise_map]
  exact hsorted.imp₂ (fun a b h hne => lt_of_le_of_ne ((hle b a).mp h) hne) (List.pairwise_map.mp hnames)

namespace Heap

variable {h h' h'' h₀ h₁ : Heap} {x y y' z : VariableId} {v w : ValueId} {reach : Parent → Option Nat}
  {f : FrameRef} {known reported done : List VariableId}

/-! ### A variable that takes a value -/

/-- A variable takes a value: that moves first, and then both values are shown and compared. -/
structure Replaces (reach : Parent → Option Nat) (x : VariableId) (v : ValueId) (h h₁ h' : Heap) :
    Prop where
  moved : Adopts (h.bindings.get x).parent (h.Under v) (h.tree v) h h₁
  recalls : h₁.Recalls h'
  values : h'.values = h₁.values
  here : h'.bindings.get x
    = { h₁.bindings.get x with value := v, changed := (h'.bindings.get x).changed }
  others : ∀ z ≠ x, h'.bindings.get z = h₁.bindings.get z
  changed : ∀ h'', h'.Recalls h'' → ((h'.bindings.get x).changed = true ↔
    h''.textOf (reach (h₁.values.get (h.bindings.get x).value).parent) (h.bindings.get x).value
      ≠ h''.textOf (reach (h.bindings.get x).parent) v)

/-- To replace a value is to move it, and to compare what both values show. -/
theorem replaces_replaceValue (reach : Parent → Option Nat) (x : VariableId) (v : ValueId) (h : Heap) :
    ∃ h₁, Replaces reach x v h h₁ ((replaceValue reach x v).run h).2 := by
  have hmoved := h.adopts_moveValue (h.bindings.get x).parent v
  obtain ⟨h₁, hmove⟩ : ∃ h₁, (moveValue v (h.bindings.get x).parent).run h = ((), h₁) := ⟨_, rfl⟩
  rw [hmove] at hmoved
  have hkept := heap_valueText reach (h.bindings.get x).value h₁
  have hfirst := recalls_valueText reach (h.bindings.get x).value h₁
  have hold : ∀ h'', ((valueText reach (h.bindings.get x).value).run h₁).2.Recalls h'' → _ :=
    fun _ hr => hr.textOf reach
  obtain ⟨⟨shown, h₂⟩, hshown⟩ : ∃ result, (valueText reach (h.bindings.get x).value).run h₁ = result :=
    ⟨_, rfl⟩
  rw [hshown] at hkept hfirst hold
  have hkept' := heap_valueText reach v h₂
  have hsecond := recalls_valueText reach v h₂
  have hnew : ∀ h'', ((valueText reach v).run h₂).2.Recalls h'' → _ := fun _ hr => hr.textOf reach
  obtain ⟨⟨replaced, h₃⟩, hreplaced⟩ : ∃ result, (valueText reach v).run h₂ = result := ⟨_, rfl⟩
  rw [hreplaced] at hkept' hsecond hnew
  have hbindings : h₃.bindings = h₁.bindings := hkept'.1.trans hkept.1
  have hvalues : h₃.values = h₁.values := hkept'.2.trans hkept.2
  have hparent : (h₂.values.get v).parent = (h.bindings.get x).parent := by
    rw [hkept.2, hmoved.value_mem v (h.mem_tree_self v)]
  rw [run_replaceValue reach x v hmove hshown hreplaced]
  refine ⟨h₁, hmoved, (hfirst.trans hsecond).trans (recalls_modifyVariable h₃ x _), hvalues, ?_,
    fun z hz => ?_, fun h'' hr => ?_⟩
  · rw [binding_modifyVariable, if_pos rfl, hbindings]
  · rw [binding_modifyVariable, if_neg (Ne.symm hz), hbindings]
  · have hlast : h₃.Recalls h'' := (recalls_modifyVariable h₃ x _).trans hr
    rw [binding_modifyVariable, if_pos rfl, ← hold h'' (hsecond.trans hlast), ← hparent,
      ← hnew h'' hlast]
    exact bne_iff_ne

/-! ### A variable that is taken in -/

/-- A variable that a frame knows takes the value of a reported one. The value comes to belong to what
the variable belongs to. The variable counts as changed if its two values look different, each as it is
shown where it belongs. Whoever asks later is shown the same, unless something else changes. -/
structure Updates (reach : Parent → Option Nat) (x y : VariableId) (h h' : Heap) : Prop where
  binding : h'.bindings.get x = { h.bindings.get x with
    value := (h.bindings.get y).value
    changed := (h'.bindings.get x).changed }
  changed : ∀ h'', h'.Recalls h'' → ((h'.bindings.get x).changed = true ↔
    h''.textOf (reach (h.values.get (h.bindings.get x).value).parent) (h.bindings.get x).value
      ≠ h''.textOf (reach (h.bindings.get x).parent) (h.bindings.get y).value)
  under : ∀ z ∈ h.Under (h.bindings.get y).value,
    h'.bindings.get z = { h.bindings.get z with parent := (h.bindings.get x).parent }
  tree : ∀ w ∈ h.tree (h.bindings.get y).value,
    h'.values.get w = { h.values.get w with parent := (h.bindings.get x).parent }

/-- A reported variable comes to belong to a frame, with everything below it. -/
structure Joins (f : FrameRef) (y : VariableId) (h h' : Heap) : Prop where
  below : ∀ z, h.Below y z → h'.bindings.get z = { h.bindings.get z with parent := .frame f }
  tree : ∀ w ∈ h.tree (h.bindings.get y).value,
    h'.values.get w = { h.values.get w with parent := .frame f }

/-- The known variable that a reported one has its name from, if there is one. -/
def namesake? (h : Heap) (known : List VariableId) (y : VariableId) : Option VariableId :=
  known.find? fun x => (h.bindings.get x).name == (h.bindings.get y).name

/-- The variables that change when a reported variable is taken in. -/
def affected (h : Heap) (known : List VariableId) (y : VariableId) : Set VariableId :=
  insert (h.target known y) (h.Under (h.bindings.get y).value)

/-- A reported variable is taken in. -/
structure TakesIn (reach : Parent → Option Nat) (f : FrameRef) (known : List VariableId) (y : VariableId)
    (h h' : Heap) : Prop where
  updates : ∀ x, h.namesake? known y = some x → Updates reach x y h h'
  joins : h.namesake? known y = none → Joins f y h h'

/-- A change that touches some variables and values only, and lets everything be shown as before. -/
structure Touches (xs : Set VariableId) (vs : Set ValueId) (h h' : Heap) : Prop where
  recalls : h.Recalls h'
  name : ∀ z, (h'.bindings.get z).name = (h.bindings.get z).name
  binding : ∀ z ∉ xs, h'.bindings.get z = h.bindings.get z
  value : ∀ w ∉ vs, h'.values.get w = h.values.get w

/-- A change of nothing touches nothing. -/
theorem Touches.refl (h : Heap) : Touches ∅ ∅ h h :=
  ⟨.refl h, fun _ => rfl, fun _ _ => rfl, fun _ _ => rfl⟩

/-- What two changes touch is touched by both. -/
theorem Touches.trans {xs xs' : Set VariableId} {vs vs' : Set ValueId} (ht : Touches xs vs h h')
    (ht' : Touches xs' vs' h' h'') : Touches (xs ∪ xs') (vs ∪ vs') h h'' :=
  ⟨ht.recalls.trans ht'.recalls, fun z => (ht'.name z).trans (ht.name z),
    fun z hz => (ht'.binding z (not_or.mp hz).2).trans (ht.binding z (not_or.mp hz).1),
    fun w hw => (ht'.value w (not_or.mp hw).2).trans (ht.value w (not_or.mp hw).1)⟩

/-- A move touches what it moves. -/
theorem Adopts.touches {p : Parent} {xs : Set VariableId} {vs : Set ValueId} (ha : Adopts p xs vs h h') :
    Touches xs vs h h' := by
  refine ⟨ha.recalls, fun z => ?_, ha.binding_notMem, ha.value_notMem⟩
  obtain ⟨q, hz⟩ := ha.binding z
  rw [hz]

/-- A variable whose own value is not part of the new one takes that. -/
theorem Replaces.updates (hr : Replaces reach x (h.bindings.get y).value h h₁ h')
    (hapart : (h.bindings.get x).value ∉ h.tree (h.bindings.get y).value) : Updates reach x y h h' := by
  have hx : x ∉ h.Under (h.bindings.get y).value := fun hx => hapart (mem_tree_of_mem_under hx)
  have hhere := hr.here
  rw [hr.moved.binding_notMem x hx] at hhere
  refine ⟨hhere, fun h'' hr'' => ?_, fun z hz => ?_, fun w hw => ?_⟩
  · have hchanged := hr.changed h'' hr''
    rwa [hr.moved.value_notMem _ hapart] at hchanged
  · have hzx : z ≠ x := by
      rintro rfl
      exact hx hz
    rw [hr.others z hzx, hr.moved.binding_mem z hz]
  · rw [hr.values, hr.moved.value_mem w hw]

/-- A value that is replaced touches its variable and what is in the new value. -/
theorem Replaces.touches (hr : Replaces reach x v h h₁ h') :
    Touches (insert x (h.Under v)) (h.tree v) h h' := by
  have hmoved := hr.moved.touches
  refine ⟨hmoved.recalls.trans hr.recalls, fun z => ?_, fun z hz => ?_, fun w hw => ?_⟩
  · by_cases hz : z = x
    · rw [hz, hr.here, ← hmoved.name x]
    · rw [hr.others z hz, hmoved.name z]
  · obtain ⟨hzx, hz⟩ := not_or.mp hz
    rw [hr.others z hzx, hmoved.binding z hz]
  · rw [hr.values, hmoved.value w hw]

/-- A reported variable is taken in by its namesake. -/
theorem target_of_namesake (hx : h.namesake? known y = some x) : h.target known y = x := by
  rw [namesake?] at hx
  rw [target, hx]
  rfl

/-- A reported variable without a namesake is taken in by itself. -/
theorem target_of_no_namesake (hy : h.namesake? known y = none) : h.target known y = y := by
  rw [namesake?] at hy
  rw [target, hy]
  rfl

/-- A reported variable is taken in by the known variable of its name, or else by itself. Nothing else
changes. -/
theorem takesIn_mergeVariable (reach : Parent → Option Nat) (f : FrameRef) {known : List VariableId}
    {y : VariableId} (hapart : ∀ x, h.namesake? known y = some x →
      (h.bindings.get x).value ∉ h.tree (h.bindings.get y).value) :
    ∃ h', (mergeVariable reach f known y).run h = (h.target known y, h')
      ∧ TakesIn reach f known y h h'
      ∧ Touches (h.affected known y) (h.tree (h.bindings.get y).value) h h' := by
  cases hfind : h.namesake? known y with
  | none =>
      have htarget := target_of_no_namesake hfind
      obtain ⟨h', hmove⟩ : ∃ h', (moveVariable y (.frame f)).run h = ((), h') := ⟨_, rfl⟩
      have hadopts := h.adopts_moveVariable (.frame f) y
      rw [hmove, holdings_below] at hadopts
      refine ⟨h', ?_, ⟨fun x hx => ?_, fun _ => ⟨hadopts.binding_mem, hadopts.value_mem⟩⟩, ?_⟩
      · rw [htarget]
        exact run_mergeVariable_of_new reach f hmove hfind
      · rw [hfind] at hx
        cases hx
      · rw [affected, htarget, ← below_eq]
        exact hadopts.touches
  | some x =>
      have htarget := target_of_namesake hfind
      obtain ⟨h₁, hreplaces⟩ := replaces_replaceValue reach x (h.bindings.get y).value h
      obtain ⟨h', hreplace⟩ : ∃ h', (replaceValue reach x (h.bindings.get y).value).run h = ((), h') :=
        ⟨_, rfl⟩
      rw [hreplace] at hreplaces
      have hupdates := hreplaces.updates (hapart x hfind)
      refine ⟨h', ?_, ⟨fun x' hx' => ?_, fun hnone => ?_⟩, ?_⟩
      · rw [htarget]
        exact run_mergeVariable_of_known reach f hreplace hfind
      · rw [hfind] at hx'
        obtain rfl := Option.some.inj hx'
        exact hupdates
      · rw [hfind] at hnone
        cases hnone
      · rw [affected, htarget]
        exact hreplaces.touches

/-! ### Variables that are taken in one after the other -/

/-- What a reported variable is taken in with is the same in two heaps. -/
structure Agrees (known : List VariableId) (y : VariableId) (h h' : Heap) : Prop where
  name : ∀ z, (h'.bindings.get z).name = (h.bindings.get z).name
  binding : ∀ z ∈ insert y (h.affected known y), h'.bindings.get z = h.bindings.get z
  value : ∀ w ∈ insert (h.bindings.get (h.target known y)).value (h.tree (h.bindings.get y).value),
    h'.values.get w = h.values.get w

namespace Agrees

/-- A reported variable has the same namesake in heaps that agree about it. -/
theorem namesake (ha : Agrees known y h h') : h'.namesake? known y = h.namesake? known y := by
  simp only [namesake?, ha.name]

/-- A reported variable is taken in by the same one in heaps that agree about it. -/
theorem target_eq (ha : Agrees known y h h') : h'.target known y = h.target known y := by
  simp only [target, ha.name]

/-- A reported variable is the same in heaps that agree about it. -/
theorem self (ha : Agrees known y h h') : h'.bindings.get y = h.bindings.get y :=
  ha.binding y (Set.mem_insert y _)

/-- What is in a reported value is the same in heaps that agree about it. -/
theorem under (ha : Agrees known y h h') :
    h'.Under (h.bindings.get y).value = h.Under (h.bindings.get y).value := by
  refine under_congr (fun w hw => ?_) fun z hz => ?_
  · rw [childrenAt, ha.value w (.inr hw), childrenAt]
  · rw [ha.binding z (.inr (.inr hz))]

/-- A reported value has the same tree in heaps that agree about it. -/
theorem tree (ha : Agrees known y h h') :
    h'.tree (h.bindings.get y).value = h.tree (h.bindings.get y).value := by
  refine tree_congr (fun w hw => ?_) fun z hz => ?_
  · rw [childrenAt, ha.value w (.inr hw), childrenAt]
  · rw [ha.binding z (.inr (.inr hz))]

/-- The same variables are affected in heaps that agree about a reported one. -/
theorem affected (ha : Agrees known y h h') : h'.affected known y = h.affected known y := by
  rw [Heap.affected, ha.target_eq, ha.self, ha.under, Heap.affected]

end Agrees

/-- It does not matter what happened before to other variables. -/
theorem TakesIn.of_agrees (ha : Agrees known y h h') (ht : TakesIn reach f known y h' h'') :
    TakesIn reach f known y h h'' := by
  constructor
  · intro x hx
    have htarget := target_of_namesake hx
    have hbinding : h'.bindings.get x = h.bindings.get x := ha.binding x (.inr (.inl htarget.symm))
    have hvalue := ha.value _ (.inl rfl)
    rw [htarget] at hvalue
    obtain ⟨hx', hchanged, hunder, htree⟩ := ht.updates x (ha.namesake.trans hx)
    rw [hbinding, ha.self] at hx' hchanged
    rw [hvalue] at hchanged
    rw [hbinding, ha.self, ha.under] at hunder
    rw [hbinding, ha.self, ha.tree] at htree
    refine ⟨hx', hchanged, fun z hz => ?_, fun w hw => ?_⟩
    · rw [hunder z hz, ha.binding z (.inr (.inr hz))]
    · rw [htree w hw, ha.value w (.inr hw)]
  · intro hy
    obtain ⟨hbelow, htree⟩ := ht.joins (ha.namesake.trans hy)
    have hsame : {z | h'.Below y z} = {z | h.Below y z} := by
      rw [below_eq, ha.self, ha.under, below_eq]
    rw [ha.self, ha.tree] at htree
    refine ⟨fun z hz => ?_, fun w hw => ?_⟩
    · have hmem : z ∈ insert y (h.Under (h.bindings.get y).value) := h.below_eq y ▸ hz
      rw [hbelow z ((Set.ext_iff.mp hsame z).mpr hz), ha.binding z (hmem.imp id .inr)]
    · rw [htree w hw, ha.value w (.inr hw)]

/-- It does not matter what happens later to other variables. -/
theorem TakesIn.later (ht : TakesIn reach f known y h h') (hr : h'.Recalls h'')
    (hbinding : ∀ z ∈ h.affected known y, h''.bindings.get z = h'.bindings.get z)
    (hvalue : ∀ w ∈ h.tree (h.bindings.get y).value, h''.values.get w = h'.values.get w) :
    TakesIn reach f known y h h'' := by
  constructor
  · intro x hx
    have hhere : h''.bindings.get x = h'.bindings.get x :=
      hbinding x (.inl (target_of_namesake hx).symm)
    obtain ⟨hx', hchanged, hunder, htree⟩ := ht.updates x hx
    refine ⟨?_, fun h'' hr'' => ?_, fun z hz => ?_, fun w hw => ?_⟩
    · rw [hhere]
      exact hx'
    · rw [hhere]
      exact hchanged h'' (hr.trans hr'')
    · rw [hbinding z (.inr hz), hunder z hz]
    · rw [hvalue w hw, htree w hw]
  · intro hy
    obtain ⟨hbelow, htree⟩ := ht.joins hy
    refine ⟨fun z hz => ?_, fun w hw => ?_⟩
    · have hmem : z ∈ insert y (h.Under (h.bindings.get y).value) := h.below_eq y ▸ hz
      rw [hbinding z (by rwa [affected, target_of_no_namesake hy]), hbelow z hz]
    · rw [hvalue w hw, htree w hw]

/-- Reported variables that are new: what is in their values is in no known variable, and no two of them
share it. -/
structure Fresh (h : Heap) (known reported : List VariableId) : Prop where
  unknown : ∀ y ∈ reported, ∀ x ∈ known, (h.bindings.get x).value ∉ h.tree (h.bindings.get y).value
  apart : ∀ y ∈ reported, ∀ z ∈ reported, y ≠ z →
    ∀ w ∈ h.tree (h.bindings.get y).value, w ∉ h.tree (h.bindings.get z).value

/-- Variables that have values of their own without children are new. -/
theorem fresh_of_childless (hc : ∀ y ∈ reported, h.childrenAt (h.bindings.get y).value = [])
    (hunknown : ∀ y ∈ reported, ∀ x ∈ known, (h.bindings.get x).value ≠ (h.bindings.get y).value)
    (hapart : ∀ y ∈ reported, ∀ z ∈ reported, y ≠ z →
      (h.bindings.get y).value ≠ (h.bindings.get z).value) : h.Fresh known reported := by
  refine ⟨fun y hy x hx => ?_, fun y hy z hz hne => ?_⟩
  · rw [tree_of_childless (hc y hy)]
    exact hunknown y hy x hx
  · rw [tree_of_childless (hc y hy), tree_of_childless (hc z hz)]
    rintro w rfl
    exact hapart y hy z hz hne

namespace Fresh

/-- What takes a reported variable in is not in the value of another one. -/
theorem value_target_notMem (hf : h.Fresh known reported) (hy : y ∈ reported) (hz : z ∈ reported)
    (hne : y ≠ z) :
    (h.bindings.get (h.target known y)).value ∉ h.tree (h.bindings.get z).value := by
  rcases target_cases h known y with htarget | htarget
  · rw [htarget]
    exact hf.apart y hy z hz hne _ (h.mem_tree_self _)
  · exact hf.unknown z hz _ htarget

/-- No reported variable takes another one in. -/
theorem target_ne (hf : h.Fresh known reported) (hy : y ∈ reported) (hz : z ∈ reported) (hne : y ≠ z) :
    h.target known y ≠ z := by
  rintro rfl
  exact hf.value_target_notMem hy hz hne (h.mem_tree_self _)

/-- Variables of different names are taken in without touching each other. -/
theorem notMem_affected (hf : h.Fresh known reported) (hy : y ∈ reported) (hz : z ∈ reported)
    (hname : (h.bindings.get y).name ≠ (h.bindings.get z).name) {a : VariableId}
    (ha : a ∈ h.affected known y) : a ∉ insert z (h.affected known z) := by
  have hne : y ≠ z := by
    rintro rfl
    exact hname rfl
  have hnotUnder : ∀ {a b c : VariableId}, (h.bindings.get a).value ∉ h.tree (h.bindings.get b).value →
      c = a → c ∉ h.Under (h.bindings.get b).value := by
    rintro a b c ha rfl hc
    exact ha (mem_tree_of_mem_under hc)
  have hvalue := hf.apart z hz y hy hne.symm _ (h.mem_tree_self _)
  rcases ha with rfl | ha <;> rintro (rfl | hb | hb)
  · exact hf.target_ne hy hz hne rfl
  · have hsame : (h.bindings.get (h.target known y)).name = (h.bindings.get (h.target known z)).name := by
      rw [hb]
    rw [name_target, name_target] at hsame
    exact hname hsame
  · exact hnotUnder (hf.value_target_notMem hy hz hne) rfl hb
  · exact hnotUnder hvalue rfl ha
  · exact hnotUnder (hf.value_target_notMem hz hy hne.symm) hb ha
  · exact hf.apart y hy z hz hne _ (mem_tree_of_mem_under ha) (mem_tree_of_mem_under hb)

/-- The values of one reported variable are not among those that another one touches. -/
theorem notMem_tree (hf : h.Fresh known reported) (hy : y ∈ reported) (hz : z ∈ reported) (hne : y ≠ z)
    {w : ValueId} (hw : w ∈ h.tree (h.bindings.get y).value) :
    w ∉ insert (h.bindings.get (h.target known z)).value (h.tree (h.bindings.get z).value) := by
  rintro (rfl | hz')
  · exact hf.value_target_notMem hz hy hne.symm hw
  · exact hf.apart y hy z hz hne w hw hz'

end Fresh

/-- Some reported variables were taken in, and nothing else changed. -/
structure TookIn (reach : Parent → Option Nat) (f : FrameRef) (known done : List VariableId)
    (h h' : Heap) : Prop where
  taken : ∀ y ∈ done, TakesIn reach f known y h h'
  touches : Touches {z | ∃ y ∈ done, z ∈ h.affected known y}
    {w | ∃ y ∈ done, w ∈ h.tree (h.bindings.get y).value} h h'

/-- Whatever was taken in before, a variable of another name finds everything as it was. -/
theorem TookIn.agrees (ht : TookIn reach f known done h h') (hf : h.Fresh known reported)
    (hdone : ∀ y ∈ done, y ∈ reported) (hz : z ∈ reported)
    (hname : ∀ y ∈ done, (h.bindings.get y).name ≠ (h.bindings.get z).name) : Agrees known z h h' := by
  refine ⟨ht.touches.name, fun a ha => ht.touches.binding a ?_, fun w hw => ht.touches.value w ?_⟩
  · rintro ⟨y, hy, hay⟩
    exact hf.notMem_affected (hdone y hy) hz (hname y hy) hay ha
  · rintro ⟨y, hy, hwy⟩
    have hne : y ≠ z := by
      rintro rfl
      exact hname y hy rfl
    exact hf.notMem_tree (hdone y hy) hz hne hwy hw

/-- One more variable is taken in. -/
theorem TookIn.step (ht : TookIn reach f known done h h') (hf : h.Fresh known reported)
    (hdone : ∀ y ∈ done, y ∈ reported) (hz : z ∈ reported)
    (hname : ∀ y ∈ done, (h.bindings.get y).name ≠ (h.bindings.get z).name) :
    ∃ h'', (mergeVariable reach f known z).run h' = (h.target known z, h'')
      ∧ TookIn reach f known (done ++ [z]) h h'' := by
  have hagrees := ht.agrees hf hdone hz hname
  have hapart : ∀ x, h'.namesake? known z = some x →
      (h'.bindings.get x).value ∉ h'.tree (h'.bindings.get z).value := by
    intro x hx
    rw [hagrees.namesake] at hx
    have htarget := target_of_namesake hx
    rw [hagrees.self, hagrees.tree, hagrees.binding x (.inr (.inl htarget.symm))]
    exact hf.unknown z hz x (List.mem_of_find?_eq_some hx)
  obtain ⟨h'', hrun, htakes, htouches⟩ := takesIn_mergeVariable reach f hapart
  rw [hagrees.affected, hagrees.self, hagrees.tree] at htouches
  rw [hagrees.target_eq] at hrun
  refine ⟨h'', hrun, fun y hy => ?_, ?_⟩
  · rcases List.mem_append.mp hy with hy | hy
    · have hne : z ≠ y := by
        rintro rfl
        exact hname z hy rfl
      refine (ht.taken y hy).later htouches.recalls (fun a ha => htouches.binding a fun haz => ?_)
        fun w hw => htouches.value w fun hwz => ?_
      · exact hf.notMem_affected hz (hdone y hy) (hname y hy).symm haz (.inr ha)
      · exact hf.apart z hz y (hdone y hy) hne w hwz hw
    · obtain rfl := List.mem_singleton.mp hy
      exact htakes.of_agrees hagrees
  · have hall := ht.touches.trans htouches
    have haffected : {a | ∃ y ∈ done, a ∈ h.affected known y} ∪ h.affected known z
        = {a | ∃ y ∈ done ++ [z], a ∈ h.affected known y} := by
      ext a
      simp [or_and_right, exists_or]
    have htrees : {w | ∃ y ∈ done, w ∈ h.tree (h.bindings.get y).value} ∪ h.tree (h.bindings.get z).value
        = {w | ∃ y ∈ done ++ [z], w ∈ h.tree (h.bindings.get y).value} := by
      ext w
      simp [or_and_right, exists_or]
    rwa [haffected, htrees] at hall

/-- Reported variables with names of their own are taken in one after the other. -/
theorem tookIn_mapM (hf : h.Fresh known reported)
    (hnames : (reported.map fun y => (h.bindings.get y).name).Nodup) :
    ∃ h', (reported.mapM (mergeVariable reach f known)).run h = (reported.map (h.target known), h')
      ∧ TookIn reach f known reported h h' := by
  have hrest : ∀ (rest done : List VariableId) (h' : Heap), done ++ rest = reported →
      TookIn reach f known done h h' →
      ∃ h'', (rest.mapM (mergeVariable reach f known)).run h' = (rest.map (h.target known), h'')
        ∧ TookIn reach f known reported h h'' := by
    intro rest
    induction rest with
    | nil =>
        intro done h' hall ht
        rw [List.append_nil] at hall
        exact ⟨h', rfl, hall ▸ ht⟩
    | cons z rest ih =>
        intro done h' hall ht
        subst hall
        have hname : ∀ y ∈ done, (h.bindings.get y).name ≠ (h.bindings.get z).name := by
          intro y hy
          rw [List.map_append] at hnames
          exact (List.nodup_append.mp hnames).2.2 _ (List.mem_map_of_mem hy) _ (by simp)
        obtain ⟨h₁, hfirst, ht₁⟩ := ht.step hf (fun y hy => List.mem_append_left _ hy) (by simp) hname
        obtain ⟨h'', hrun, ht''⟩ := ih (done ++ [z]) h₁ (by simp) ht₁
        refine ⟨h'', ?_, ht''⟩
        rw [List.mapM_cons, run_bind_heap hfirst, run_bind_heap hrun]
        rfl
  refine hrest reported [] h rfl ⟨fun y hy => ?_, ?_⟩
  · cases hy
  · simpa using Touches.refl h

/-- Merged variables are listed in the order of their names. -/
theorem run_mergeVariables {merged : List VariableId}
    (hrun : (reported.mapM (mergeVariable reach f known)).run h = (merged, h')) :
    (mergeVariables reach f known reported).run h = (sortBy
      (fun x y => compare (h'.bindings.get x).name (h'.bindings.get y).name == .lt) merged, h') := by
  rw [mergeVariables, run_bind_heap hrun]
  rfl

/-- What a frame lists after variables were reported to it, and what becomes of them. -/
structure Intake (reach : Parent → Option Nat) (f : FrameRef) (known reported listed : List VariableId)
    (h h' : Heap) : Prop where
  /-- All names that were reported are listed, and no others. -/
  names : (listed.map fun x => (h'.bindings.get x).name).Perm
    (reported.map fun y => (h.bindings.get y).name)
  sorted : (listed.map fun x => (h'.bindings.get x).name).Pairwise (· < ·)
  /-- A variable that is known stays and takes the value that was reported for its name. -/
  updates : ∀ x ∈ known, ∀ y ∈ reported, (h.bindings.get x).name = (h.bindings.get y).name →
    x ∈ listed ∧ Updates reach x y h h'
  /-- A variable of another name is listed itself. -/
  joins : ∀ y ∈ reported, (∀ x ∈ known, (h.bindings.get x).name ≠ (h.bindings.get y).name) →
    y ∈ listed ∧ Joins f y h h'

/-- A known variable is the namesake of a reported one of its name, if known names are different. -/
theorem namesake_of_mem (hd : (known.map fun x => (h.bindings.get x).name).Nodup) (hx : x ∈ known)
    (hname : (h.bindings.get x).name = (h.bindings.get y).name) : h.namesake? known y = some x := by
  cases hfind : h.namesake? known y with
  | none =>
      have hnone := List.find?_eq_none.mp hfind x hx
      simp [hname] at hnone
  | some x' =>
      have hname' : (h.bindings.get x').name = (h.bindings.get y).name := by
        simpa using List.find?_some hfind
      have hsame := List.inj_on_of_nodup_map hd (List.mem_of_find?_eq_some hfind) hx
        (hname'.trans hname.symm)
      rw [hsame]

/-- Reported variables with different names are all taken in, by the known ones of their names or by
themselves. -/
theorem intake_mergeVariables (hf : h.Fresh known reported)
    (hknown : (known.map fun x => (h.bindings.get x).name).Nodup)
    (hnames : (reported.map fun y => (h.bindings.get y).name).Nodup) :
    Intake reach f known reported ((mergeVariables reach f known reported).run h).1 h
      ((mergeVariables reach f known reported).run h).2 := by
  obtain ⟨h', hrun, ht⟩ : ∃ h', (reported.mapM (mergeVariable reach f known)).run h
      = (reported.map (h.target known), h') ∧ TookIn reach f known reported h h' :=
    tookIn_mapM hf hnames
  have hrename : (reported.map (h.target known)).map (fun x => (h'.bindings.get x).name)
      = reported.map fun y => (h.bindings.get y).name := by
    rw [List.map_map]
    exact List.map_congr_left fun y _ => (ht.touches.name _).trans (h.name_target known y)
  have hperm := perm_sortBy
    (fun x y => compare (h'.bindings.get x).name (h'.bindings.get y).name == .lt)
    (reported.map (h.target known))
  have hmem : ∀ {y}, y ∈ reported → h.target known y ∈ sortBy
      (fun x y => compare (h'.bindings.get x).name (h'.bindings.get y).name == .lt)
      (reported.map (h.target known)) :=
    fun hy => hperm.mem_iff.mpr (List.mem_map_of_mem hy)
  rw [run_mergeVariables hrun]
  refine ⟨hrename ▸ hperm.map _, pairwise_names_sortBy (hrename ▸ hnames), fun x hx y hy hname => ?_,
    fun y hy hnew => ?_⟩
  · have hnamesake := namesake_of_mem hknown hx hname
    exact ⟨target_of_namesake hnamesake ▸ hmem hy, (ht.taken y hy).updates x hnamesake⟩
  · have hnone : h.namesake? known y = none := by
      refine List.find?_eq_none.mpr fun x hx => ?_
      simpa using hnew x hx
    exact ⟨target_of_no_namesake hnone ▸ hmem hy, (ht.taken y hy).joins hnone⟩

end Heap

/-! ### Names that are reported more than once -/

namespace Heap

variable {h h' : Heap} {y z : VariableId} {reach : Parent → Option Nat} {f : FrameRef}
  {known reported : List VariableId}

/-- Where a reported variable is taken in, there is its value. All other variables keep theirs. -/
theorem values_mergeVariable (reach : Parent → Option Nat) (f : FrameRef) (known : List VariableId)
    (y : VariableId) (h : Heap) :
    ∃ h', (mergeVariable reach f known y).run h = (h.target known y, h')
      ∧ (∀ z, (h'.bindings.get z).name = (h.bindings.get z).name)
      ∧ (h'.bindings.get (h.target known y)).value = (h.bindings.get y).value
      ∧ ∀ z ≠ h.target known y, (h'.bindings.get z).value = (h.bindings.get z).value := by
  cases hfind : h.namesake? known y with
  | none =>
      obtain ⟨h', hmove⟩ : ∃ h', (moveVariable y (.frame f)).run h = ((), h') := ⟨_, rfl⟩
      have hadopts := h.adopts_moveVariable (.frame f) y
      rw [hmove] at hadopts
      rw [target_of_no_namesake hfind]
      exact ⟨h', run_mergeVariable_of_new reach f hmove hfind, hadopts.touches.name, hadopts.valueOf y,
        fun z _ => hadopts.valueOf z⟩
  | some x =>
      obtain ⟨h₁, hreplaces⟩ := replaces_replaceValue reach x (h.bindings.get y).value h
      obtain ⟨h', hreplace⟩ : ∃ h', (replaceValue reach x (h.bindings.get y).value).run h = ((), h') :=
        ⟨_, rfl⟩
      rw [hreplace] at hreplaces
      rw [target_of_namesake hfind]
      refine ⟨h', run_mergeVariable_of_known reach f hreplace hfind, hreplaces.touches.name, ?_,
        fun z hz => ?_⟩
      · rw [hreplaces.here]
      · rw [hreplaces.others z hz, hreplaces.moved.valueOf]

/-- Variables that are taken in one after the other keep their names, and others keep their values.
-/
theorem values_mapM (reach : Parent → Option Nat) (f : FrameRef) (known reported : List VariableId)
    (h : Heap) :
    ∃ h', (reported.mapM (mergeVariable reach f known)).run h = (reported.map (h.target known), h')
      ∧ (∀ z, (h'.bindings.get z).name = (h.bindings.get z).name)
      ∧ (∀ z ∉ reported.map (h.target known), (h'.bindings.get z).value = (h.bindings.get z).value)
      ∧ (reported.Nodup → (∀ y ∈ reported, y ∉ known) → ∀ y ∈ reported,
        (∀ z ∈ reported, h.target known z = h.target known y → z = y) →
          (h'.bindings.get (h.target known y)).value = (h.bindings.get y).value) := by
  induction reported generalizing h with
  | nil => exact ⟨h, rfl, fun _ => rfl, fun _ _ => rfl, fun _ _ y hy => by cases hy⟩
  | cons y ys ih =>
      obtain ⟨h₁, hfirst, hname₁, hhere, hothers⟩ := values_mergeVariable reach f known y h
      obtain ⟨h', hrun, hname, hrest, htaken⟩ := ih h₁
      have htarget : h₁.target known = h.target known := by
        funext z
        simp only [target, hname₁]
      rw [htarget] at hrun hrest htaken
      refine ⟨h', ?_, fun z => (hname z).trans (hname₁ z), fun z hz => ?_, fun hd hnew z hz hone => ?_⟩
      · rw [List.mapM_cons, run_bind_heap hfirst, run_bind_heap hrun]
        rfl
      · obtain ⟨hzy, hzs⟩ := not_or.mp (mt List.mem_cons.mpr hz)
        rw [hrest z hzs, hothers z hzy]
      · obtain ⟨hy, hys⟩ := List.nodup_cons.mp hd
        rcases List.mem_cons.mp hz with rfl | hz
        · have hlast : h.target known z ∉ ys.map (h.target known) := by
            intro hmem
            obtain ⟨z', hz', hsame⟩ := List.mem_map.mp hmem
            obtain rfl := hone z' (List.mem_cons_of_mem z hz') hsame
            exact hy hz'
          rw [hrest _ hlast, hhere]
        · have hzy : z ≠ h.target known y := by
            rintro rfl
            rcases target_cases h known y with hself | hknown
            · rw [hself] at hz
              exact hy hz
            · exact hnew _ (List.mem_cons_of_mem y hz) hknown
          rw [htaken hys (fun z' hz' => hnew z' (List.mem_cons_of_mem y hz')) z hz
            fun z' hz' => hone z' (List.mem_cons_of_mem y hz'), hothers z hzy]

/-- New variables are taken in by different variables, unless one is known whose name they share. -/
theorem target_inj_iff (hd : reported.Nodup) (hnew : ∀ y ∈ reported, y ∉ known) :
    (reported.map (h.target known)).Nodup ↔ ∀ y ∈ reported, ∀ z ∈ reported, y ≠ z →
      (h.bindings.get y).name = (h.bindings.get z).name →
        ∀ x ∈ known, (h.bindings.get x).name ≠ (h.bindings.get y).name := by
  constructor
  · intro htargets y hy z hz hne hname x hx hxy
    have hsame : h.target known y = h.target known z := by
      simp only [target, hname]
      cases hfind : known.find? fun x => (h.bindings.get x).name == (h.bindings.get z).name with
      | none => simpa [hxy.trans hname] using List.find?_eq_none.mp hfind x hx
      | some x' => rfl
    exact hne (List.inj_on_of_nodup_map htargets hy hz hsame)
  · intro hapart
    refine hd.map_on fun y hy z hz hsame => ?_
    by_contra hne
    have hname : (h.bindings.get y).name = (h.bindings.get z).name := by
      rw [← name_target h known y, hsame, name_target]
    rcases target_cases h known y with hself | hknown
    · rcases target_cases h known z with hself' | hknown'
      · exact hne (hself.symm.trans (hsame.trans hself'))
      · rw [← hsame, hself] at hknown'
        exact hnew y hy hknown'
    · exact hapart y hy z hz hne hname _ hknown (name_target h known y)

/-- Every reported variable is listed once, with its value, just if no two of them have one target.
-/
theorem lists_each_once_iff (hd : reported.Nodup) (hnew : ∀ y ∈ reported, y ∉ known)
    {listed : List VariableId} (hrun : (mergeVariables reach f known reported).run h = (listed, h')) :
    (listed.Nodup ∧ ∀ y ∈ reported, ∃ x ∈ listed, (h'.bindings.get x).name = (h.bindings.get y).name
        ∧ (h'.bindings.get x).value = (h.bindings.get y).value)
      ↔ ∀ y ∈ reported, ∀ z ∈ reported, y ≠ z →
        (h.bindings.get y).name = (h.bindings.get z).name →
          ∀ x ∈ known, (h.bindings.get x).name ≠ (h.bindings.get y).name := by
  obtain ⟨h'', hmerged, hname, -, htaken⟩ := values_mapM reach f known reported h
  rw [run_mergeVariables hmerged] at hrun
  obtain ⟨hlisted, rfl⟩ := Prod.mk.inj hrun
  have hperm : listed.Perm (reported.map (h.target known)) := hlisted ▸ perm_sortBy _ _
  rw [← target_inj_iff hd hnew, hperm.nodup_iff]
  constructor
  · exact And.left
  · intro htargets
    refine ⟨htargets, fun y hy => ⟨h.target known y, hperm.mem_iff.mpr (List.mem_map_of_mem hy), ?_, ?_⟩⟩
    · rw [hname, name_target]
    · exact htaken hd hnew y hy fun z hz hsame => List.inj_on_of_nodup_map htargets hz hy hsame

end Heap

/-! ### Frames that are told of variables -/

section Frames

open World

/-- A front end that listens is told, and then it may fail. -/
theorem worldAfter_notify (s : Nat) (notice : Notice) (w : World) :
    ∃ j, worldAfter (notify s notice) w = { w with journal := j }
      ∧ j.notes.toList = w.journal.notes.toList ++ w.told s [notice] := by
  by_cases hlistens : ((w.session s).alive && (w.session s).observed) = true
  · refine ⟨w.journal.note (.model s notice (w.noticeText s notice)), ?_, ?_⟩
    · rw [worldAfter, run_notify, if_pos hlistens]
      dsimp only
      cases w.reaction w.journal.notes (.model s notice (w.noticeText s notice)) with
      | none => rfl
      | some failure => rfl
    · rw [told, if_pos hlistens]
      simp [Journal.note]
  · refine ⟨w.journal, ?_, ?_⟩
    · rw [worldAfter, run_notify, if_neg hlistens]
    · rw [told, if_neg hlistens, List.append_nil]

variable {w : World} {f : FrameRef} {reported : List VariableId}

/-- A frame takes reported variables in, is clean then, and tells that its content changed, once. -/
theorem run_setVariables (f : FrameRef) (reported : List VariableId) (w : World) :
    (worldAfter (setVariables f reported) w).heap
        = ((mergeVariables w.reach f (w.frame f).known reported).run w.heap).2
      ∧ (worldAfter (setVariables f reported) w).frame f
        = ⟨((mergeVariables w.reach f (w.frame f).known reported).run w.heap).1, false⟩
      ∧ (worldAfter (setVariables f reported) w).journal.notes.toList
        = w.journal.notes.toList ++ w.told f.session [.changed (.frame f) .content] := by
  let u := (w.onHeap (mergeVariables w.reach f (w.frame f).known reported)).2
  let merged := ((mergeVariables w.reach f (w.frame f).known reported).run w.heap).1
  let v := u.modifyFrame f fun _ => ⟨merged, false⟩
  have hrun : worldAfter (setVariables f reported) w
      = worldAfter (notify f.session (.changed (.frame f) .content)) v := rfl
  obtain ⟨j, hnotify, hnotes⟩ := worldAfter_notify f.session (.changed (.frame f) .content) v
  have hstill : Still u v := still_modifyFrame u f _
  have htold : v.told f.session [.changed (.frame f) .content]
      = w.told f.session [.changed (.frame f) .content] := by
    refine told_congr (congrArg Session.alive (hstill.everywhere f.session) :)
      (congrArg Session.observed (hstill.everywhere f.session) :) rfl (fun i => ?_) _
    rw [thread, Session.thread, threads_of_still hstill]
    rfl
  rw [hrun, hnotify]
  refine ⟨rfl, ?_, ?_⟩
  · change (u.modifyFrame f fun _ => ⟨merged, false⟩).frame f = _
    rw [frame, modifyFrame, session_modifySession, if_pos rfl]
    exact (Arena.get_modify ..).trans (if_pos rfl)
  · rw [hnotes, htold]
    rfl

/-- A frame that is told of variables with names of their own lists them by name. Where it knew a
variable of the name, it keeps it, and the variable takes the reported value. -/
theorem intake_setVariables
    (hknown : ((w.frame f).known.map fun x => (w.heap.bindings.get x).name).Nodup)
    (hreported : (reported.map fun y => (w.heap.bindings.get y).name).Nodup)
    (hfresh : w.heap.Fresh (w.frame f).known reported) :
    Heap.Intake w.reach f (w.frame f).known reported
        ((worldAfter (setVariables f reported) w).frame f).known w.heap
        (worldAfter (setVariables f reported) w).heap
      ∧ ((worldAfter (setVariables f reported) w).frame f).dirty = false
      ∧ (worldAfter (setVariables f reported) w).journal.notes.toList
        = w.journal.notes.toList ++ w.told f.session [.changed (.frame f) .content] := by
  obtain ⟨hheap, hframe, hnotes⟩ := run_setVariables f reported w
  rw [hheap, hframe]
  exact ⟨Heap.intake_mergeVariables hfresh hknown hreported, rfl, hnotes⟩

/-- The frame of a session with one frame. -/
def onlyFrame : FrameRef :=
  ⟨0, 0, ⟨0, "main"⟩, ⟨1, .snippet 0 "main", .file, none⟩⟩

/-- A session with one frame that knows some of the bindings of the world. A binding has a name, a truth
value, and a parent to which the value belongs as well. -/
def worldOf (known : List VariableId) (bindings : List (String × Bool × Parent)) : World :=
  { World.start with
    heap := { (∅ : Heap) with
      values := ⟨(bindings.map fun b => ⟨b.2.2, .scalar (.bool b.2.1), none, none⟩).toArray⟩
      bindings := ⟨(bindings.zipIdx.map fun (b, v) => ⟨b.1, .binding none, b.2.2, v, false⟩).toArray⟩ }
    sessions := ⟨#[{ Session.absent with
      alive := true, observed := true, attached := true, terminated := false
      frames := ⟨#[⟨known, false⟩]⟩ }]⟩
    keptFrames := [onlyFrame] }

/-- A variable that is known takes its new value and shows that it changed, and the other one comes
to belong to the frame. -/
theorem intake_setVariables_of_two :
    let w := worldOf [0] [("b", true, .frame onlyFrame), ("b", false, .detached), ("a", true, .detached)]
    let w' := worldAfter (setVariables onlyFrame [1, 2]) w
    Heap.Intake w.reach onlyFrame [0] [1, 2] (w'.frame onlyFrame).known w.heap w'.heap
      ∧ (w'.frame onlyFrame).dirty = false
      ∧ w'.journal.notes.toList
        = w.journal.notes.toList ++ w.told 0 [.changed (.frame onlyFrame) .content] := by
  refine intake_setVariables ?_ ?_ (Heap.fresh_of_childless ?_ ?_ ?_)
  · decide
  · decide
  · decide
  · decide
  · decide

/-- A variable that was moved elsewhere takes what is reported for its name along. -/
theorem reported_value_may_leave : ¬∀ (w : World) (f : FrameRef) (reported : List VariableId),
    ((w.frame f).known.map fun x => (w.heap.bindings.get x).name).Nodup →
    (reported.map fun y => (w.heap.bindings.get y).name).Nodup →
    w.heap.Fresh (w.frame f).known reported →
    ∀ x ∈ (w.frame f).known, ∀ y ∈ reported,
      (w.heap.bindings.get x).name = (w.heap.bindings.get y).name →
      ((worldAfter (setVariables f reported) w).heap.values.get (w.heap.bindings.get y).value).parent
        = .frame f := by
  intro hall
  let w := worldOf [0] [("b", true, .detached), ("b", false, .detached)]
  have hparent := hall w onlyFrame [1] (by decide) (by decide)
    (Heap.fresh_of_childless (by decide) (by decide) (by decide)) 0 (by decide) 1 (by decide) (by decide)
  revert hparent
  decide

/-- A frame lists each reported variable once, with its value, if no name of a variable that it knew is
reported twice. If one is, the variable is listed twice and shows one of the values only. -/
theorem setVariables_lists_each_once_iff (hd : reported.Nodup)
    (hnew : ∀ y ∈ reported, y ∉ (w.frame f).known) :
    (((worldAfter (setVariables f reported) w).frame f).known.Nodup
        ∧ ∀ y ∈ reported, ∃ x ∈ ((worldAfter (setVariables f reported) w).frame f).known,
          ((worldAfter (setVariables f reported) w).heap.bindings.get x).name = (w.heap.bindings.get y).name
          ∧ ((worldAfter (setVariables f reported) w).heap.bindings.get x).value
            = (w.heap.bindings.get y).value)
      ↔ ∀ y ∈ reported, ∀ z ∈ reported, y ≠ z →
        (w.heap.bindings.get y).name = (w.heap.bindings.get z).name →
          ∀ x ∈ (w.frame f).known, (w.heap.bindings.get x).name ≠ (w.heap.bindings.get y).name := by
  obtain ⟨hheap, hframe, -⟩ := run_setVariables f reported w
  rw [hheap, hframe]
  exact Heap.lists_each_once_iff hd hnew rfl

/-- A known variable that is reported twice is listed twice, and shows a change although its value
is the old one. -/
theorem setVariables_lists_one_twice :
    let w := worldOf [0] [("x", true, .frame onlyFrame), ("x", true, .detached), ("x", false, .detached)]
    let w' := worldAfter (setVariables onlyFrame [1, 2]) w
    ¬((w'.frame onlyFrame).known.Nodup
      ∧ ∀ y ∈ [1, 2], ∃ x ∈ (w'.frame onlyFrame).known,
        (w'.heap.bindings.get x).name = (w.heap.bindings.get y).name
        ∧ (w'.heap.bindings.get x).value = (w.heap.bindings.get y).value) := by
  intro w w' hlists
  have hnew : ∀ y ∈ [1, 2], y ∉ (w.frame onlyFrame).known := by decide
  have hapart := (setVariables_lists_each_once_iff (by decide) hnew).mp hlists
  exact hapart 1 (by decide) 2 (by decide) (by decide) rfl 0 (by decide) rfl

end Frames

end DebugBridge
