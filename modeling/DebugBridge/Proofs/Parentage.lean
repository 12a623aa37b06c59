import DebugBridge.Proofs.Enumeration

/-!
# Parents that agree

A variable that is given a parent takes everything along that can be found below it; so does a variable
that a frame takes in for the first time. What comes below it later has that parent too: children that
are enumerated get it from the value, and a value that replaces another one gets it from the variable.
A variable or value below that is given another parent by itself takes its own along, and stands apart
from then on.

Children that are given to a value are the one place where parents come apart. They are stored as they
are: whatever else gets below a variable is given its parent, but these keep the one that they have, and
a child that was just made has none. So parents agree all along a run just if all children that are given
to values below had the parent already.

## Main definitions

* `Heap.Nested`: what can be found below a variable, but not through what stands apart;
* `Heap.Coherent`: all of that belongs to what the variable belongs to;
* `Heap.takingIn`: what a frame does to take a reported variable in;
* `Heap.Use.Respects`: whoever gets another parent stands apart;
* `Heap.Use.Fits`: children that are given belong to what the variable belongs to.

## Main results

* `Heap.after_merge_of_new`: a frame that takes an unknown variable in moves it to itself;
* `Heap.coherent_moveVariable`: a variable that is given a parent has everything below agree with it;
* `Heap.coherent_after_iff`: one use leaves parents coherent just if the children that it gives fit;
* `parents_agree`: what is nested in a variable belongs to its parent all along a run, just if all
  children that are given fit.
-/

namespace DebugBridge

namespace Heap

variable {h h' : Heap} {x y z c : VariableId} {v w : ValueId} {p q : Parent} {apart : Set VariableId}

/-! ### What is nested -/

/-- What can be found below a variable without coming through what stands apart. -/
def Nested (h : Heap) (apart : Set VariableId) : VariableId → VariableId → Prop :=
  Relation.ReflTransGen fun a b => b ∈ h.offspring a ∧ b ∉ apart

/-- What is nested in a variable belongs to a parent. -/
def Belongs (h : Heap) (apart : Set VariableId) (p : Parent) (x : VariableId) : Prop :=
  ∀ z, h.Nested apart x z → h.Owns p z

/-- What is nested in a variable belongs to what the variable belongs to. -/
def Coherent (h : Heap) (apart : Set VariableId) (x : VariableId) : Prop :=
  h.Belongs apart (h.bindings.get x).parent x

/-- What is nested in a variable is below it. -/
theorem Nested.below (hz : h.Nested apart x z) : h.Below x z := by
  induction hz with
  | refl => exact .refl
  | tail _ hstep ih => exact ih.tail hstep.1

/-- What is nested in a variable does not stand apart, if the variable does not. -/
theorem Nested.notMem (hz : h.Nested apart x z) (hx : x ∉ apart) : z ∉ apart := by
  cases hz with
  | refl => exact hx
  | tail _ hstep => exact hstep.2

/-- Variables that belong to a parent, with no way out but through what stands apart. -/
theorem belongs_of_closed {s : Set VariableId} (howns : ∀ z ∈ s, h.Owns p z)
    (hclosed : ∀ z ∈ s, ∀ c ∈ h.offspring z, c ∉ apart → c ∈ s) (hx : x ∈ s) : h.Belongs apart p x := by
  intro z hz
  refine howns z ?_
  induction hz with
  | refl => exact hx
  | tail _ hstep ih => exact hclosed _ ih _ hstep.1 hstep.2

/-- A variable is coherent if it is one of several that belong to a parent, and that have their
children among them, but for what stands apart. -/
theorem coherent_of_closed {s : Set VariableId} (howns : ∀ z ∈ s, h.Owns p z)
    (hclosed : ∀ z ∈ s, ∀ c ∈ h.offspring z, c ∉ apart → c ∈ s) (hx : x ∈ s) : h.Coherent apart x := by
  rw [Coherent, (howns x hx).parent]
  exact belongs_of_closed howns hclosed hx

/-- A variable without children has nothing nested but itself. -/
theorem belongs_of_childless (howns : h.Owns p x) (hnone : h.offspring x = []) : h.Belongs apart p x := by
  refine belongs_of_closed (s := {x}) (fun z hz => ?_) (fun z hz c hc => ?_) rfl
  · exact hz ▸ howns
  · rw [Set.mem_singleton_iff.mp hz, hnone] at hc
    cases hc

/-! ### What leaves parents alone -/

/-- A later heap in which variables are what they were, and values belong to what they belonged to and have
no more children than they had. -/
structure Sheds (h h' : Heap) : Prop where
  bindings : h.bindings.size ≤ h'.bindings.size
  values : h.values.size ≤ h'.values.size
  binding : ∀ {x}, x < h.bindings.size → h'.bindings.get x = h.bindings.get x
  parent : ∀ {v}, v < h.values.size → (h'.values.get v).parent = (h.values.get v).parent
  children : ∀ {v}, v < h.values.size → h'.childrenAt v ⊆ h.childrenAt v

/-- Where nothing changes but for what is new, values have no more children than before. -/
theorem Leaves.sheds (hl : h.Leaves h') : h.Sheds h' where
  bindings := hl.bindings
  values := hl.values
  binding hx := hl.binding hx
  parent hv := hl.parent hv
  children hv := by
    rw [childrenAt, hl.retains.children hv]
    exact List.Subset.refl _

/-- A change of one value that drops its children. -/
theorem sheds_modifyValue (h : Heap) (v : ValueId) {f : Value → Value} (hparent : ∀ a, (f a).parent = a.parent)
    (hchildren : ∀ a, (f a).children = none) : h.Sheds ((modifyValue v f).run h).2 where
  bindings := Nat.le_refl _
  values := Arena.size_le_modify _ _ _
  binding _ := rfl
  parent _ := part_modifyValue Value.parent hparent h v _
  children _ := by
    rw [childrenAt, value_modifyValue]
    split
    · rw [hchildren]
      exact List.nil_subset _
    · exact List.Subset.refl _

/-- What belongs to a parent does so still after children were taken away. -/
theorem Sheds.owns (hs : h.Sheds h') (hx : h.Owns p x) : h'.Owns p x :=
  hx.congr hs.bindings hs.values (hs.binding hx.binding) (hs.parent hx.value)

/-- Children that are taken away are taken from those that were there. -/
theorem Sheds.offspring (hs : h.Sheds h') (hx : h.IsThere x) : h'.offspring x ⊆ h.offspring x := by
  rw [Heap.offspring, hs.binding hx.binding]
  exact hs.children hx.value

/-- What is nested in a coherent variable after children were taken away was nested in it before. -/
theorem Nested.of_sheds (hc : h.Coherent apart x) (hs : h.Sheds h') (hz : h'.Nested apart x z) :
    h.Nested apart x z := by
  induction hz with
  | refl => exact .refl
  | tail _ hstep ih => exact ih.tail ⟨hs.offspring (hc _ ih).toIsThere hstep.1, hstep.2⟩

/-- A coherent variable stays coherent when children are taken away. -/
theorem Coherent.of_sheds (hc : h.Coherent apart x) (hs : h.Sheds h') : h'.Coherent apart x := by
  rw [Coherent, hs.binding (hc x .refl).binding]
  exact fun z hz => hs.owns (hc z (hz.of_sheds hc hs))

/-! ### What gets a parent -/

/-- A value may get a parent, with everything in it, if it is the one that all others have, or if whoever
holds something of that stands apart. -/
def MayMove (h : Heap) (apart : Set VariableId) (p : Parent) (v : ValueId) (q : Parent) : Prop :=
  q = p ∨ ∀ z < h.bindings.size, (h.bindings.get z).value ∈ h.tree v → z ∈ apart

/-- Some variables and values get a parent, and then everything that is nested in a variable has one. -/
theorem coherent_of_adopts {xs : Set VariableId} {vs : Set ValueId}
    (hthere : ∀ z, h.Nested apart x z → h.IsThere z) (ha : Adopts q xs vs h h')
    (hb : h.bindings.size ≤ h'.bindings.size) (hv : h.values.size ≤ h'.values.size)
    (hsame : ∀ z, h.Nested apart x z → (h'.bindings.get z).parent = p
      ∧ (h'.values.get (h.bindings.get z).value).parent = p) : h'.Coherent apart x := by
  refine coherent_of_closed (s := {z | h.Nested apart x z}) (p := p) (fun z hz => ?_)
    (fun z hz c hd hapart => hz.tail ⟨ha.offspring ▸ hd, hapart⟩) .refl
  refine ⟨⟨Nat.lt_of_lt_of_le (hthere z hz).binding hb, ?_⟩, (hsame z hz).1, ?_⟩
  · rw [ha.valueOf]
    exact Nat.lt_of_lt_of_le (hthere z hz).value hv
  · rw [ha.valueOf]
    exact (hsame z hz).2

/-- What may move does not take anything away that is nested. -/
theorem Coherent.of_mayMove {xs : Set VariableId} (hc : h.Coherent apart x) (hx : x ∉ apart)
    (hmay : h.MayMove apart (h.bindings.get x).parent v q) (ha : Adopts q xs (h.tree v) h h')
    (hxs : ∀ z ∈ xs, (h.bindings.get z).value ∈ h.tree v) (hb : h.bindings.size ≤ h'.bindings.size)
    (hv : h.values.size ≤ h'.values.size) : h'.Coherent apart x := by
  refine coherent_of_adopts (p := (h.bindings.get x).parent) (fun z hz => (hc z hz).toIsThere) ha hb hv
    fun z hz => ?_
  rcases hmay with rfl | hmay
  · refine ⟨?_, ?_⟩
    · by_cases hmem : z ∈ xs
      · rw [ha.binding_mem z hmem]
      · rw [ha.binding_notMem z hmem, (hc z hz).parent]
    · rw [ha.value_eq (.inr (hc z hz).shared)]
  · have hvalue : (h.bindings.get z).value ∉ h.tree v := fun hmem =>
      hz.notMem hx (hmay z (hc z hz).binding hmem)
    rw [ha.binding_notMem z fun hmem => hvalue (hxs z hmem), ha.value_notMem _ hvalue]
    exact ⟨(hc z hz).parent, (hc z hz).shared⟩

/-- What is below a variable is in the tree of its value. -/
theorem mem_tree_of_below (hz : h.Below x z) : (h.bindings.get z).value ∈ h.tree (h.bindings.get x).value :=
  h.holdings_below x ▸ ⟨z, hz, rfl⟩

/-- A variable is given a parent, and what is nested in it agrees. -/
theorem coherent_moveVariable (hthere : ∀ z, h.Nested apart x z → h.IsThere z) (p : Parent) :
    (h.after (.moveVariable x p)).Coherent apart x := by
  have ha := h.adopts_moveVariable p x
  refine coherent_of_adopts (p := p) hthere ha (h.ages_after _).bindings
    (h.size_values_after (.moveVariable x p)) fun z hz => ⟨?_, ?_⟩
  · rw [after, ha.binding_mem z hz.below]
  · rw [after, ha.value_mem _ ⟨z, hz.below, rfl⟩]

/-! ### What comes below -/

/-- New children belong to what they were made for, and have none themselves. -/
theorem makes_enumerateChildren (raw : Datum) (p : Parent) (h : Heap) :
    ∃ entries xs, Makes p entries h ((enumerateChildren raw p).run h).2 xs
      ∧ ((enumerateChildren raw p).run h).1.Perm xs := by
  cases raw with
  | object owner => exact ⟨_, _, makes_enumerateObject owner p h, perm_sortByName _ _⟩
  | null | scalar | text => exact ⟨_, _, .nil p h, .refl _⟩

/-- A value keeps children that were found or given. -/
theorem offspring_keep (h : Heap) (v : ValueId) (cs : List VariableId) (z : VariableId) :
    ((modifyValue v fun value => { value with children := some cs }).run h).2.offspring z
      = if (h.bindings.get z).value = v then cs else h.offspring z := by
  have hvalue := h.value_modifyValue v (h.bindings.get z).value fun value => { value with children := some cs }
  by_cases hz : (h.bindings.get z).value = v
  · rw [if_pos hz.symm] at hvalue
    rw [if_pos hz]
    exact congrArg (fun value : Value => value.children.getD []) hvalue
  · rw [if_neg (Ne.symm hz)] at hvalue
    rw [if_neg hz]
    exact congrArg (fun value : Value => value.children.getD []) hvalue

/-- Values that get children belong to what they belonged to. -/
theorem parent_keep (h : Heap) (v w : ValueId) (cs : List VariableId) :
    (((modifyValue v fun value => { value with children := some cs }).run h).2.values.get w).parent
      = (h.values.get w).parent :=
  part_modifyValue Value.parent (f := fun value => { value with children := some cs }) (fun _ => rfl) h v w

/-- Children that are given to a value leave whoever belongs to a parent. -/
theorem owns_keep (hz : h.Owns p z) (v : ValueId) (cs : List VariableId) :
    ((modifyValue v fun value => { value with children := some cs }).run h).2.Owns p z :=
  hz.congr (Nat.le_refl _) (Arena.size_le_modify _ _ _) rfl (parent_keep h v _ cs)

/-- What belongs to a parent when a value got children belonged to it before. -/
theorem Owns.of_keep {cs : List VariableId} (hv : v < h.values.size)
    (hz : ((modifyValue v fun value => { value with children := some cs }).run h).2.Owns p z) :
    h.Owns p z := by
  have hsize := Arena.size_modify_of_lt h.values hv fun value : Value => { value with children := some cs }
  exact ⟨⟨hz.binding, hsize ▸ hz.value⟩, hz.parent, (parent_keep h v _ cs).symm.trans hz.shared⟩

/-- A value in a variable keeps children that belong to what the variable belongs to. -/
theorem Coherent.keep (hc : h.Coherent apart x) {cs : List VariableId}
    (hcs : ∀ y, h.Nested apart x y → (h.bindings.get y).value = v →
      ∀ c ∈ cs, c ∉ apart → h.Belongs apart (h.bindings.get x).parent c) :
    ((modifyValue v fun value => { value with children := some cs }).run h).2.Coherent apart x := by
  -- What was nested, and what is nested in the children, if anything that is nested holds the value.
  let s : Set VariableId := {z | h.Nested apart x z ∨ ∃ y, h.Nested apart x y ∧ (h.bindings.get y).value = v
    ∧ ∃ c ∈ cs, c ∉ apart ∧ h.Nested apart c z}
  refine coherent_of_closed (s := s) (p := (h.bindings.get x).parent) (fun z hz => ?_)
    (fun z hz d hd hapart => ?_) (.inl .refl)
  · rcases hz with hz | ⟨y, hy, hvalue, c, hmem, hnot, hz⟩
    · exact owns_keep (hc z hz) v cs
    · exact owns_keep (hcs y hy hvalue c hmem hnot z hz) v cs
  · rw [offspring_keep] at hd
    split at hd
    · next hvalue =>
        rcases hz with hz | ⟨y, hy, hheld, -⟩
        · exact .inr ⟨z, hz, hvalue, d, hd, hapart, .refl⟩
        · exact .inr ⟨y, hy, hheld, d, hd, hapart, .refl⟩
    · rcases hz with hz | ⟨y, hy, hheld, c, hmem, hnot, hz⟩
      · exact .inl (hz.tail ⟨hd, hapart⟩)
      · exact .inr ⟨y, hy, hheld, c, hmem, hnot, hz.tail ⟨hd, hapart⟩⟩

/-- What was nested still is when a value gets other children, or a variable with that value is nested. -/
theorem Nested.keep (hz : h.Nested apart x z) (v : ValueId) (cs : List VariableId) :
    let h' := ((modifyValue v fun value => { value with children := some cs }).run h).2
    h'.Nested apart x z ∨ ∃ y, h'.Nested apart x y ∧ (h.bindings.get y).value = v := by
  induction hz with
  | refl => exact .inl .refl
  | @tail y d _ hstep ih =>
      obtain hy | hheld := ih
      · by_cases hvalue : (h.bindings.get y).value = v
        · exact .inr ⟨y, hy, hvalue⟩
        · refine .inl (hy.tail ⟨?_, hstep.2⟩)
          rw [offspring_keep, if_neg hvalue]
          exact hstep.1
      · exact .inr hheld

/-- Where a value in a variable gets children and parents are coherent before and after, the children
belong to what the variable belongs to. -/
theorem Coherent.of_keep (hc : h.Coherent apart x) {cs : List VariableId}
    (hc' : ((modifyValue v fun value => { value with children := some cs }).run h).2.Coherent apart x)
    (hy : h.Nested apart x y) (hvalue : (h.bindings.get y).value = v) {c : VariableId} (hmem : c ∈ cs)
    (hnot : c ∉ apart) : h.Belongs apart (h.bindings.get x).parent c := by
  let h' := ((modifyValue v fun value => { value with children := some cs }).run h).2
  obtain ⟨y', hy', hvalue'⟩ : ∃ y', h'.Nested apart x y' ∧ (h.bindings.get y').value = v :=
    (hy.keep v cs).elim (fun hy => ⟨y, hy, hvalue⟩) id
  have hchild : h'.Nested apart x c := by
    refine hy'.tail ⟨?_, hnot⟩
    rw [offspring_keep, if_pos hvalue']
    exact hmem
  -- What is in a child is nested now, or it was nested before, as a child that the value had.
  have hnested : ∀ z, h.Nested apart c z → h'.Nested apart x z ∨ h.Nested apart x z := by
    intro z hz
    induction hz with
    | refl => exact .inl hchild
    | @tail a d _ hstep ih =>
        obtain ha | ha := ih
        · by_cases hheld : (h.bindings.get a).value = v
          · have hsame : h.offspring y = h.offspring a := by rw [offspring, offspring, hvalue, hheld]
            exact .inr (hy.tail ⟨hsame ▸ hstep.1, hstep.2⟩)
          · refine .inl (ha.tail ⟨?_, hstep.2⟩)
            rw [offspring_keep, if_neg hheld]
            exact hstep.1
        · exact .inr (ha.tail hstep)
  have hthere : v < h.values.size := hvalue ▸ (hc y hy).value
  intro z hz
  obtain hz | hz := hnested z hz
  · exact (hc' z hz).of_keep hthere
  · exact hc z hz

/-- Children that are enumerated belong to what the value belongs to. -/
theorem coherent_enumerate (hc : h.Coherent apart x) (v : ValueId) :
    (h.after (.enumerate v)).Coherent apart x := by
  cases hchildren : (h.values.get v).children with
  | some cs =>
      rw [after, run_childrenOf_of_some hchildren]
      exact hc
  | none =>
      obtain ⟨entries, xs, hmakes, hperm⟩ :=
        h.makes_enumerateChildren (h.values.get v).raw (h.values.get v).parent
      rw [after, run_childrenOf_of_none hchildren]
      have hsheds := hmakes.leaves.sheds
      refine (hc.of_sheds hsheds).keep fun y hy hvalue c hmem _ => ?_
      have hnew := hperm.mem_iff.mp hmem
      have hheld := hc y (hy.of_sheds hc hsheds)
      rw [hsheds.binding hheld.binding] at hvalue
      rw [hsheds.binding (hc x .refl).binding, ← hheld.shared, hvalue]
      exact belongs_of_childless (hmakes.owned c hnew) (hmakes.childless c hnew)

/-- A value that is there with everything in it. -/
structure IsWhole (h : Heap) (v : ValueId) : Prop where
  here : v < h.values.size
  under : ∀ z ∈ h.Under v, h.IsThere z

/-- A variable takes a value that belongs to what the variable belongs to, with everything in it. -/
theorem Coherent.switch {h₁ : Heap} (hc : h.Coherent apart x) (hb : h₁.bindings = h.bindings)
    (hv : h₁.values = h.values) (hthere : v < h.values.size) (changed : Bool)
    (hin : h.Nested apart x y → (h.values.get v).parent = (h.bindings.get x).parent
      ∧ ∀ z ∈ h.Under v, h.Owns (h.bindings.get x).parent z) :
    ((modifyVariable y fun binding => { binding with value := v, changed }).run h₁).2.Coherent apart x := by
  let h' := ((modifyVariable y fun binding => { binding with value := v, changed }).run h₁).2
  have hvalues : h'.values = h.values := hv
  have hhere : h'.bindings.get y = { h.bindings.get y with value := v, changed } := by
    rw [binding_modifyVariable, if_pos rfl, hb]
  have hothers : ∀ z ≠ y, h'.bindings.get z = h.bindings.get z := fun z hz => by
    rw [binding_modifyVariable, if_neg (Ne.symm hz), hb]
  have hsize : h.bindings.size ≤ h'.bindings.size := hb ▸ Arena.size_le_modify _ _ _
  -- What is in the value comes in sight if the variable is nested, and otherwise not.
  let s : Set VariableId := {z | h.Nested apart x z ∨ h.Nested apart x y ∧ z ∈ h.Under v}
  have hnested : y ∈ s → h.Nested apart x y := fun hy => hy.elim id And.left
  have howns : ∀ z ∈ s, h.Owns (h.bindings.get x).parent z := fun z hz =>
    hz.elim (hc z) fun hz => (hin hz.1).2 z hz.2
  refine coherent_of_closed (s := s) (p := (h.bindings.get x).parent) (fun z hz => ?_)
    (fun z hz d hd hapart => ?_) (.inl .refl)
  · have hz' := howns z hz
    by_cases heq : z = y
    · subst heq
      refine ⟨⟨Nat.lt_of_lt_of_le hz'.binding hsize, ?_⟩, ?_, ?_⟩
      · rw [hhere, hvalues]
        exact hthere
      · rw [hhere]
        exact hz'.parent
      · rw [hhere, hvalues]
        exact (hin (hnested hz)).1
    · refine hz'.congr hsize (hvalues ▸ Nat.le_refl _) (hothers z heq) ?_
      rw [hvalues]
  · rw [offspring, childrenAt, hvalues] at hd
    by_cases heq : z = y
    · subst heq
      rw [hhere] at hd
      exact .inr ⟨hnested hz, d, hd, .refl⟩
    · rw [hothers z heq] at hd
      rcases hz with hz | ⟨hy, c, hmem, hz⟩
      · exact .inl (hz.tail ⟨hd, hapart⟩)
      · exact .inr ⟨hy, c, hmem, hz.tail hd⟩

/-- A variable takes a value that moved first. -/
theorem after_replaceValue (reach : Parent → Option Nat) (y : VariableId) (v : ValueId) (h : Heap) :
    ∃ h₁ changed, h₁.bindings = (h.after (.moveValue v (h.bindings.get y).parent)).bindings
      ∧ h₁.values = (h.after (.moveValue v (h.bindings.get y).parent)).values
      ∧ h.after (.replaceValue reach y v)
        = ((modifyVariable y fun binding => { binding with value := v, changed }).run h₁).2 := by
  obtain ⟨moved, hmove⟩ : ∃ moved, (moveValue v (h.bindings.get y).parent).run h = ((), moved) := ⟨_, rfl⟩
  have hfirst := heap_valueText reach (h.bindings.get y).value moved
  obtain ⟨⟨old, h₂⟩, hshown⟩ : ∃ shown, (valueText reach (h.bindings.get y).value).run moved = shown :=
    ⟨_, rfl⟩
  have hsecond := heap_valueText reach v h₂
  obtain ⟨⟨new, h₃⟩, hreplaced⟩ : ∃ shown, (valueText reach v).run h₂ = shown := ⟨_, rfl⟩
  rw [hshown] at hfirst
  rw [hreplaced] at hsecond
  rw [after, after, hmove, run_replaceValue reach y v hmove hshown hreplaced]
  exact ⟨h₃, _, hsecond.1.trans hfirst.1, hsecond.2.trans hfirst.2, rfl⟩

/-- What is in a value stays there. -/
theorem Adopts.under {xs : Set VariableId} {vs : Set ValueId} (ha : Adopts p xs vs h h') (v : ValueId) :
    h'.Under v = h.Under v := by
  rw [Under, ha.childrenAt, ha.below, Under]

/-- A value may get a parent without harm to a coherent variable if everything in that gets it too,
or stands apart. -/
theorem coherent_moveValue (hc : h.Coherent apart x) (hx : x ∉ apart)
    (hmay : h.MayMove apart (h.bindings.get x).parent v q) :
    (h.after (.moveValue v q)).Coherent apart x :=
  hc.of_mayMove hx hmay (h.adopts_moveValue q v) (fun _ hz => mem_tree_of_mem_under hz)
    (h.ages_after _).bindings (h.size_values_after (.moveValue v q))

/-- A value that replaces another one belongs to what the variable belongs to, with everything in it. -/
theorem coherent_replaceValue (reach : Parent → Option Nat) (hc : h.Coherent apart x) (hx : x ∉ apart)
    (hwhole : h.IsWhole v)
    (hmay : h.Nested apart x y ∨ h.MayMove apart (h.bindings.get x).parent v (h.bindings.get y).parent) :
    (h.after (.replaceValue reach y v)).Coherent apart x := by
  obtain ⟨h₁, changed, hb, hv, hafter⟩ := h.after_replaceValue reach y v
  let u : Use := .moveValue v (h.bindings.get y).parent
  have ha : Adopts (h.bindings.get y).parent (h.Under v) (h.tree v) h (h.after u) := h.adopts_moveValue _ v
  have hsize := h.size_values_after u
  have hmoved := coherent_moveValue hc hx (hmay.elim (fun hy => .inl (hc y hy).parent) id)
  rw [hafter]
  refine hmoved.switch hb hv (Nat.lt_of_lt_of_le hwhole.here hsize) changed fun hy => ?_
  have hparent : ((h.after u).bindings.get x).parent = (h.bindings.get y).parent := by
    rw [← (hmoved y hy).parent]
    by_cases hmem : y ∈ h.Under v
    · rw [ha.binding_mem y hmem]
    · rw [ha.binding_notMem y hmem]
  rw [hparent, ha.under]
  refine ⟨by rw [ha.value_mem v (h.mem_tree_self v)], fun z hz => ⟨⟨?_, ?_⟩, ?_, ?_⟩⟩
  · exact Nat.lt_of_lt_of_le (hwhole.under z hz).binding (h.ages_after u).bindings
  · rw [ha.valueOf]
    exact Nat.lt_of_lt_of_le (hwhole.under z hz).value hsize
  · rw [ha.binding_mem z hz]
  · rw [ha.valueOf, ha.value_mem _ (mem_tree_of_mem_under hz)]

/-- A slot that is assigned drops the children of a value. -/
theorem coherent_assign (hc : h.Coherent apart x) (y : VariableId) (expression : String) :
    (h.after (.assign y expression)).Coherent apart x := by
  obtain ⟨hafter, -⟩ | ⟨-, owner, slot, content, htakes⟩ := h.after_assign_cases y expression
  · rwa [hafter]
  · refine hc.of_sheds ⟨?_, h.size_values_after _, fun _ => ?_, fun {v} _ => ?_, fun {v} _ => ?_⟩
    · rw [htakes.bindings]
    · rw [htakes.bindings]
    · by_cases hv : v = (h.bindings.get y).value
      · rw [hv, htakes.shown]
      · rw [htakes.values v hv]
    · by_cases hv : v = (h.bindings.get y).value
      · rw [hv, childrenAt, htakes.shown]
        exact List.nil_subset _
      · rw [childrenAt, htakes.values v hv]
        exact List.Subset.refl _

/-! ### Frames that take variables in -/

section Merging

variable {reach : Parent → Option Nat} {f : FrameRef} {known earlier later : List VariableId}

/-- What a frame does to take a reported variable in: the known variable of its name takes its value,
and if there is none, it moves to the frame itself. -/
def takingIn (reach : Parent → Option Nat) (f : FrameRef) (known : List VariableId) (h : Heap)
    (y : VariableId) : Use :=
  match h.namesake? known y with
  | some x => .replaceValue reach x (h.bindings.get y).value
  | none => .moveVariable y (.frame f)

/-- What a frame does to take reported variables in, one after the other. -/
def takingAllIn (reach : Parent → Option Nat) (f : FrameRef) (known : List VariableId) :
    List VariableId → Heap → List Use
  | [], _ => []
  | y :: ys, h =>
    let u := h.takingIn reach f known y
    u :: takingAllIn reach f known ys (h.after u)

/-- To take one variable in is the use that `takingIn` names. -/
theorem after_takingIn (reach : Parent → Option Nat) (f : FrameRef) (known : List VariableId) (h : Heap)
    (y : VariableId) :
    ((mergeVariable reach f known y).run h).2 = h.after (h.takingIn reach f known y) := by
  cases hfind : h.namesake? known y with
  | none =>
      obtain ⟨h', hmove⟩ : ∃ h', (moveVariable y (.frame f)).run h = ((), h') := ⟨_, rfl⟩
      rw [run_mergeVariable_of_new reach f hmove hfind, takingIn, hfind, after, hmove]
  | some x =>
      obtain ⟨h', hreplace⟩ : ∃ h', (replaceValue reach x (h.bindings.get y).value).run h = ((), h') :=
        ⟨_, rfl⟩
      rw [run_mergeVariable_of_known reach f hreplace hfind, takingIn, hfind, after, hreplace]

/-- The first variable is taken in, and then the others. -/
theorem after_merge_cons (reach : Parent → Option Nat) (f : FrameRef) (known : List VariableId)
    (y : VariableId) (ys : List VariableId) (h : Heap) :
    h.after (.merge reach f known (y :: ys))
      = (h.after (h.takingIn reach f known y)).after (.merge reach f known ys) := by
  rw [← after_takingIn]
  change (((y :: ys).mapM (mergeVariable reach f known)).run h).2 = _
  rw [List.mapM_cons]
  rfl

/-- A frame takes reported variables in one after the other. -/
theorem after_merge (reported : List VariableId) (h : Heap) :
    h.after (.merge reach f known reported) = afterUses (takingAllIn reach f known reported h) h := by
  induction reported generalizing h with
  | nil => rfl
  | cons y ys ih =>
      rw [after_merge_cons, ih]
      rfl

/-- A frame takes some variables in and then the others, as if they had all been reported at once. -/
theorem after_merge_append (h : Heap) :
    h.after (.merge reach f known (earlier ++ later))
      = (h.after (.merge reach f known earlier)).after (.merge reach f known later) := by
  induction earlier generalizing h with
  | nil => rfl
  | cons y ys ih => rw [List.cons_append, after_merge_cons, ih, ← after_merge_cons]

/-- Whatever was taken in before, a reported variable finds the same known variable of its name. -/
theorem namesake_after_merge (reported : List VariableId) (h : Heap) (y : VariableId) :
    (h.after (.merge reach f known reported)).namesake? known y = h.namesake? known y := by
  obtain ⟨h', hrun, hnames, -⟩ := values_mapM reach f known reported h
  have hafter : h.after (.merge reach f known reported) = h' :=
    congrArg Prod.snd (run_mergeVariables hrun)
  simp only [hafter, namesake?, hnames]

/-- A variable that a frame takes in, and of whose name it knows none, moves to the frame with all that
is below it. -/
theorem after_merge_of_new (hnew : h.namesake? known y = none) (earlier later : List VariableId) :
    h.after (.merge reach f known (earlier ++ y :: later))
      = afterUses [.merge reach f known earlier, .moveVariable y (.frame f), .merge reach f known later] h := by
  have hmove : (h.after (.merge reach f known earlier)).takingIn reach f known y
      = .moveVariable y (.frame f) := by
    rw [takingIn, namesake_after_merge, hnew]
  rw [after_merge_append, after_merge_cons, hmove]
  rfl

end Merging

/-! ### Whatever is done -/

/-- What a use that gives no children must not do to what is nested in a variable, unless that stands
apart: nothing must be given another parent, but with the variable. Values that a variable takes must be
there. -/
def Use.Minds (apart : Set VariableId) (x : VariableId) (h : Heap) : Use → Prop
  | .replaceValue _ y v => h.IsWhole v
    ∧ (h.Nested apart x y ∨ h.MayMove apart (h.bindings.get x).parent v (h.bindings.get y).parent)
  | .moveVariable y q => y = x ∨ h.MayMove apart (h.bindings.get x).parent (h.bindings.get y).value q
  | .moveValue v q => h.MayMove apart (h.bindings.get x).parent v q
  | .giveChildren _ _ | .merge _ _ _ _ => False
  | _ => True

/-- Whoever is given another parent stands apart, also while a frame takes variables in. Values may be
given any children. -/
def Use.Respects (apart : Set VariableId) (x : VariableId) (h : Heap) : Use → Prop
  | .giveChildren _ _ => True
  | .merge reach f known reported =>
    Throughout (Use.Minds apart x) h (takingAllIn reach f known reported h)
  | u => u.Minds apart x h

/-- Children that are given to a value in a variable belong to what the variable belongs to, unless they
stand apart. -/
def Use.Fits (apart : Set VariableId) (x : VariableId) (h : Heap) : Use → Prop
  | .giveChildren v xs => ∀ y, h.Nested apart x y → (h.bindings.get y).value = v →
    ∀ c ∈ xs, c ∉ apart → h.Belongs apart (h.bindings.get x).parent c
  | _ => True

/-- A use that gives no children leaves parents coherent. -/
theorem Coherent.after {u : Use} (hc : h.Coherent apart x) (hx : x ∉ apart) (hu : u.Minds apart x h) :
    (h.after u).Coherent apart x := by
  cases u with
  | assign y expression => exact coherent_assign hc y expression
  | replaceContent v raw => exact hc.of_sheds (h.sheds_modifyValue v (fun _ => rfl) fun _ => rfl)
  | replaceValue reach y v => exact coherent_replaceValue reach hc hx hu.1 hu.2
  | giveChildren | merge => exact hu.elim
  | enumerate v => exact coherent_enumerate hc v
  | moveVariable y q =>
      rcases hu with rfl | hmay
      · exact coherent_moveVariable (fun z hz => (hc z hz).toIsThere) q
      · exact hc.of_mayMove hx hmay (h.holdings_below y ▸ h.adopts_moveVariable q y)
          (fun _ hz => mem_tree_of_below hz) (h.ages_after _).bindings
          (h.size_values_after (.moveVariable y q))
  | moveValue v q => exact coherent_moveValue hc hx hu
  | _ => exact hc.of_sheds (Leaves.sheds (h.leaves_after trivial))

/-- Uses that give no children leave parents coherent. -/
theorem Coherent.afterUses {us : List Use} (hc : h.Coherent apart x) (hx : x ∉ apart)
    (hus : Throughout (Use.Minds apart x) h us) : (afterUses us h).Coherent apart x := by
  induction us generalizing h with
  | nil => exact hc
  | cons u us ih => exact ih (hc.after hx hus.1) hus.2

/-- Children that are given leave parents coherent just if they fit. -/
theorem coherent_giveChildren_iff (hc : h.Coherent apart x) (v : ValueId) (xs : List VariableId) :
    (h.after (.giveChildren v xs)).Coherent apart x ↔ (Use.giveChildren v xs).Fits apart x h := by
  constructor
  · intro hc' y hy hvalue c hmem
    exact hc.of_keep hc' hy hvalue ((perm_sortByName _ xs).mem_iff.mpr hmem)
  · intro hfits
    refine hc.keep fun y hy hvalue c hmem => ?_
    exact hfits y hy hvalue c ((perm_sortByName _ xs).mem_iff.mp hmem)

/-- One use leaves parents coherent just if the children that it gives fit. -/
theorem coherent_after_iff {u : Use} (hc : h.Coherent apart x) (hx : x ∉ apart)
    (hu : u.Respects apart x h) : (h.after u).Coherent apart x ↔ u.Fits apart x h := by
  cases u with
  | giveChildren v xs => exact coherent_giveChildren_iff hc v xs
  | merge reach f known reported =>
      rw [after_merge]
      exact iff_of_true (hc.afterUses hx hu) trivial
  | _ => exact iff_of_true (hc.after hx hu) trivial

/-- Parents are coherent all along a run just if all children that are given fit. -/
theorem coherent_throughout_iff {us : List Use} (hc : h.Coherent apart x) (hx : x ∉ apart)
    (hus : Throughout (Use.Respects apart x) h us) :
    (∀ ds, ds <+: us → (Heap.afterUses ds h).Coherent apart x)
      ↔ Throughout (Use.Fits apart x) h us := by
  induction us generalizing h with
  | nil =>
      refine iff_of_true (fun ds hds => ?_) trivial
      rw [List.prefix_nil.mp hds]
      exact hc
  | cons u us ih =>
      have hstep := coherent_after_iff hc hx hus.1
      constructor
      · intro hall
        have hafter : (h.after u).Coherent apart x := hall [u] (List.prefix_append [u] us)
        refine ⟨hstep.mp hafter, (ih hafter hus.2).mp fun ds hds => ?_⟩
        exact hall (u :: ds) (List.cons_prefix_cons.mpr ⟨rfl, hds⟩)
      · rintro ⟨hfits, hrest⟩ ds hds
        have hafter := hstep.mpr hfits
        cases ds with
        | nil => exact hc
        | cons d ds =>
            obtain ⟨rfl, hprefix⟩ := List.cons_prefix_cons.mp hds
            exact (ih hafter hus.2).mpr hrest ds hprefix

end Heap

/-! ### What is shown and where assignments go -/

section Agreeing

open Heap World

variable {h : Heap} {w : World} {x z : VariableId} {v : ValueId} {p : Parent} {s : Nat}
  {apart : Set VariableId} {us : List Use}

/-- A string or object that belongs to a session is shown with its number. -/
theorem run_valueText_of_identity (hreach : w.reach (h.values.get v).parent = some s)
    (hidentity : (h.values.get v).raw.identity?.isSome = true) (hplain : (h.values.get v).rendered = none) :
    ∃ n : Nat, ((valueText w.reach v).run h).1
      = h.label (h.values.get v).raw ++ " (id=" ++ toString n ++ ")" := by
  obtain ⟨k, hk⟩ := Option.isSome_iff_exists.mp hidentity
  obtain ⟨n, -, hrun⟩ := run_datumText_of_identity s hk h
  refine ⟨n, ?_⟩
  rw [run_valueText, hplain]
  dsimp only
  rw [hreach, hrun]

/-- A variable is given a parent, by a frame that takes it in or by whoever moves it. Then anything may be
done: values are replaced, children are enumerated and given, frames take variables in, and the variable
is moved again, and so is what is below. What is nested in the variable, and the values there, belong to
what the variable belongs to all along the run just if all children that were given to a value in the
variable belonged to that already. Children that belong to nothing, or to something else, are not adopted
by the value that they are given to.

If they fit, and what the variable belongs to leads to a session, then every string and object there is
shown with a number, unless it has a text for display; and whoever assigns a binding there asks the
interpreter. What stands apart is not nested: it was given another parent by itself. -/
theorem parents_agree (hthere : ∀ z, h.Nested apart x z → h.IsThere z) (hx : x ∉ apart)
    (hus : Throughout (Use.Respects apart x) (h.after (.moveVariable x p)) us) :
    ((∀ ds, ds <+: us → (afterUses ds (h.after (.moveVariable x p))).Coherent apart x)
      ↔ Throughout (Use.Fits apart x) (h.after (.moveVariable x p)) us)
    ∧ (Throughout (Use.Fits apart x) (h.after (.moveVariable x p)) us → ∀ ⦃w : World⦄ ⦃z⦄,
      w.heap = afterUses us (h.after (.moveVariable x p)) → w.heap.Nested apart x z →
        let parent := (w.heap.bindings.get x).parent
        let v := (w.heap.bindings.get z).value
        (w.heap.bindings.get z).parent = parent ∧ (w.heap.values.get v).parent = parent
        ∧ ∀ s, w.reach parent = some s →
          ((w.heap.values.get v).raw.identity?.isSome = true → (w.heap.values.get v).rendered = none →
            ∃ n : Nat, ((valueText w.reach v).run w.heap).1
              = w.heap.label (w.heap.values.get v).raw ++ " (id=" ++ toString n ++ ")")
          ∧ ((w.heap.bindings.get z).origin.slot? = none → (w.session s).attached = true →
            ∀ expression, assignVariable z expression w = .ok (.ok ()) (w.send s (.request
              (.setVariable parent z (w.heap.bindings.get z).name expression))))) := by
  have hiff := coherent_throughout_iff (coherent_moveVariable hthere p) hx hus
  refine ⟨hiff, fun hfits w z hlater hz => ?_⟩
  have hc := hiff.mpr hfits us List.prefix_rfl
  rw [← hlater] at hc
  have howns := hc z hz
  refine ⟨howns.parent, howns.shared, fun s hreach => ⟨fun hidentity hplain => ?_,
    fun hbinding hattached expression => ?_⟩⟩
  · exact run_valueText_of_identity (howns.shared.symm ▸ hreach) hidentity hplain
  · rw [← howns.parent] at hreach ⊢
    exact assignVariable_of_binding hbinding hreach hattached expression

/-- A variable that holds a record with two fields, and a string that nothing holds. -/
def parcel : Heap :=
  { (∅ : Heap) with
    texts := 2
    objects := ⟨#[.record "Point" [⟨⟨"x", .text, .isPublic, false, false⟩, .text 0 "a"⟩,
      ⟨⟨"y", .text, .isPublic, false, false⟩, .null⟩]]⟩
    values := ⟨#[⟨.detached, .object 0, none, none⟩, ⟨.detached, .text 1 "b", none, none⟩]⟩
    bindings := ⟨#[⟨"p", .binding none, .detached, 0, false⟩]⟩ }

/-- The heap in which a frame has taken the variable in. -/
def adopted : Heap :=
  parcel.after (.merge (fun _ => none) onlyFrame [] [0])

/-- The fields are looked at. One of them is moved away, and the other one takes the string. -/
def unpack : List Use :=
  [.enumerate 0, .moveVariable 2 .detached, .replaceValue (fun _ => none) 1 1]

/-- The heap after that. -/
def unpacked : Heap :=
  afterUses unpack adopted

/-- The record is given a child that was just made. -/
def repack : List Use :=
  [.makeVariable "c" (.binding none) .null .detached, .giveChildren 0 [3]]

/-- What is taken out of the parcel stands apart. -/
theorem respects_unpack : Throughout (Use.Respects {2} 0) adopted unpack := by
  let opened := adopted.after (.enumerate 0)
  have hmoved : opened.MayMove {2} (opened.bindings.get 0).parent 3 .detached := by
    refine .inr fun z hz hvalue => ?_
    have hnone : opened.childrenAt 3 = [] := by decide
    rw [tree_of_childless hnone] at hvalue
    have honly : ∀ z < 3, (opened.bindings.get z).value = 3 → z = 2 := by decide
    exact honly z hz hvalue
  have hwhole : (opened.after (.moveVariable 2 .detached)).IsWhole 1 := by
    have hnone : (opened.after (.moveVariable 2 .detached)).childrenAt 1 = [] := by decide
    refine ⟨by decide, fun z hz => ?_⟩
    rw [under_of_childless hnone] at hz
    cases hz
  have hnested : (opened.after (.moveVariable 2 .detached)).Nested {2} 0 1 :=
    .single ⟨by decide, by decide⟩
  exact ⟨trivial, .inr hmoved, ⟨hwhole, .inl hnested⟩, trivial⟩

/-- A child that was just made does not fit. -/
theorem not_fits_repack : ¬Throughout (Use.Fits {2} 0) unpacked repack := by
  rintro ⟨-, hfits, -⟩
  have howns := hfits 0 .refl (by decide) 3 (by decide) (by decide) 3 .refl
  have hparent := howns.parent
  revert hparent
  decide

/-- A frame takes the variable in. While it is unpacked parents agree, and the field that took the string
shows it with a number. When it is packed again they come apart. -/
theorem parents_agree_unpacked :
    let w := { worldOf [] [] with heap := unpacked }
    (∀ ds, ds <+: unpack → (afterUses ds adopted).Coherent {2} 0)
      ∧ (unpacked.bindings.get 1).parent = (unpacked.bindings.get 0).parent
      ∧ (∃ n : Nat, ((valueText w.reach 1).run unpacked).1 = "\"b\"" ++ " (id=" ++ toString n ++ ")")
      ∧ ¬∀ ds, ds <+: unpack ++ repack → (afterUses ds adopted).Coherent {2} 0 := by
  have hadopted : adopted = parcel.after (.moveVariable 0 (.frame onlyFrame)) :=
    after_merge_of_new rfl [] []
  have hthere : ∀ z, parcel.Nested {2} 0 z → parcel.IsThere z := fun z hz =>
    (belongs_of_childless (p := .detached) ⟨⟨by decide, by decide⟩, rfl, rfl⟩ rfl z hz).toIsThere
  have hrespects' : Throughout (Use.Respects {2} 0) adopted (unpack ++ repack) :=
    (throughout_append _ _ _).mpr ⟨respects_unpack, trivial, trivial, trivial⟩
  have hfits : Throughout (Use.Fits {2} 0) adopted unpack := ⟨trivial, trivial, trivial, trivial⟩
  have hlast : unpacked.Nested {2} 0 1 := .single ⟨by decide, by decide⟩
  have hrespects : Throughout (Use.Respects {2} 0) adopted unpack := respects_unpack
  rw [hadopted] at hrespects hrespects' hfits
  obtain ⟨hcoherent, hagree⟩ := parents_agree hthere (by decide) hrespects
  obtain ⟨hcoherent', -⟩ := parents_agree hthere (by decide) hrespects'
  obtain ⟨hparent, -, hsession⟩ := hagree hfits (w := { worldOf [] [] with heap := unpacked })
    (by rw [← hadopted]; rfl) hlast
  rw [← hadopted] at hcoherent hcoherent' hfits
  refine ⟨hcoherent.mpr hfits, hparent, (hsession 0 rfl).1 rfl rfl, fun hall => ?_⟩
  have hrepacked := ((throughout_append _ _ _).mp (hcoherent'.mp hall)).2
  exact not_fits_repack hrepacked

end Agreeing

end DebugBridge
