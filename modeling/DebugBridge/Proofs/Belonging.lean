import DebugBridge.Proofs.Merging
import Mathlib.Data.Finset.Card
import Mathlib.Data.Finset.Range
import Mathlib.Data.Set.Image
import Mathlib.Logic.Relation

/-!
# What belongs to a parent

A variable that gets another parent takes along what can be found below it: the children of its value
that were enumerated or given, their children, and so on. This reaches every one of them, however deep
it is, although the walk stops at a depth: a path that is longer than the number of values comes through
one of them twice, so that there is a shorter one. Everything else keeps its parent, and nothing is
changed but parents.

## Main definitions

* `Heap.Below`: what can be found below a variable, itself included;
* `Heap.Under`, `Heap.tree`: the variables in a value, and all values there;
* `Heap.Within`: what can be found down to a depth;
* `Heap.Adopts`: a change in which some variables and values get a parent, and nothing else happens.

## Main results

* `Heap.below_iff_within`: no path needs to be longer than the number of values;
* `Heap.adopts_moveVariable`, `Heap.adopts_moveValue`: what exactly gets the new parent.
-/

namespace DebugBridge

namespace Heap

variable {h h' h'' : Heap} {x y z c : VariableId} {v w : ValueId} {p : Parent}

/-! ### Paths from value to value -/

/-- The children of a value that were enumerated or given. -/
def childrenAt (h : Heap) (v : ValueId) : List VariableId :=
  (h.values.get v).children.getD []

/-- The children of what a variable holds. -/
def offspring (h : Heap) (x : VariableId) : List VariableId :=
  h.childrenAt (h.bindings.get x).value

/-- What can be found below a variable: the variable, the children of its value, their children and
so on. -/
def Below (h : Heap) : VariableId → VariableId → Prop :=
  Relation.ReflTransGen fun x z => z ∈ h.offspring x

/-- The variables in a value, however deep. -/
def Under (h : Heap) (v : ValueId) : Set VariableId :=
  {z | ∃ c ∈ h.childrenAt v, h.Below c z}

/-- The values that some variables hold. -/
def holdings (h : Heap) (xs : Set VariableId) : Set ValueId :=
  (fun x => (h.bindings.get x).value) '' xs

/-- A value, and the values of the variables in it. -/
def tree (h : Heap) (v : ValueId) : Set ValueId :=
  insert v (h.holdings (h.Under v))

/-- What can be found below a variable, down to a depth. -/
def Within (h : Heap) : Nat → VariableId → Set VariableId
  | 0, x => {x}
  | depth + 1, x => insert x {z | ∃ c ∈ h.offspring x, z ∈ Within h depth c}

/-- A variable can be found below itself, at any depth. -/
theorem mem_within_self (h : Heap) (depth : Nat) (x : VariableId) : x ∈ h.Within depth x := by
  cases depth with
  | zero => exact rfl
  | succ depth => exact .inl rfl

/-- What can be found down to a depth can be found. -/
theorem below_of_mem_within {depth : Nat} (hz : z ∈ h.Within depth x) : h.Below x z := by
  induction depth generalizing x with
  | zero => exact Set.mem_singleton_iff.mp hz ▸ .refl
  | succ depth ih =>
      rcases hz with rfl | ⟨c, hc, hz⟩
      · exact .refl
      · exact .head hc (ih hz)

/-- What can be found below a variable on a way through some values only. -/
def BelowThrough (h : Heap) (vs : Finset ValueId) : VariableId → VariableId → Prop :=
  Relation.ReflTransGen fun x z => (h.bindings.get x).value ∈ vs ∧ z ∈ h.offspring x

/-- A way that comes through a value need not come back to it: it starts there for the last time. -/
theorem last_of_belowThrough {vs : Finset ValueId} (hz : h.BelowThrough vs c z) (v : ValueId) :
    h.BelowThrough (vs.erase v) c z ∨ ∃ c' ∈ h.childrenAt v, h.BelowThrough (vs.erase v) c' z := by
  induction hz using Relation.ReflTransGen.head_induction_on with
  | refl => exact .inl .refl
  | @head a b hab _ ih =>
      rcases ih with ih | ih
      · by_cases hv : (h.bindings.get a).value = v
        · exact .inr ⟨b, hv ▸ hab.2, ih⟩
        · exact .inl (.head ⟨Finset.mem_erase.mpr ⟨hv, hab.1⟩, hab.2⟩ ih)
      · exact .inr ih

/-- What can be found through some values can be found down to as many levels. -/
theorem mem_within_of_belowThrough {vs : Finset ValueId} (hz : h.BelowThrough vs x z) :
    z ∈ h.Within vs.card x := by
  generalize hn : vs.card = n
  induction n generalizing vs x with
  | zero =>
      rcases hz.cases_head with rfl | ⟨c, hc, -⟩
      · exact h.mem_within_self 0 x
      · rw [Finset.card_eq_zero.mp hn] at hc
        cases hc.1
  | succ n ih =>
      rcases hz.cases_head with rfl | ⟨c, hc, hz⟩
      · exact h.mem_within_self (n + 1) x
      · have hcard : (vs.erase (h.bindings.get x).value).card = n := by
          rw [Finset.card_erase_of_mem hc.1]
          omega
        rcases last_of_belowThrough hz (h.bindings.get x).value with hz | ⟨c', hc', hz⟩
        · exact .inr ⟨c, hc.2, ih hz hcard⟩
        · exact .inr ⟨c', hc', ih hz hcard⟩

/-- Values that are not there have no children. -/
theorem lt_of_mem_childrenAt (hc : c ∈ h.childrenAt v) : v < h.values.size := by
  by_contra hv
  have hdefault : h.values.get v = default := by
    have hcells : ¬v < h.values.cells.size := hv
    simp [Arena.get, hcells]
  rw [childrenAt, hdefault] at hc
  cases hc

/-- The walk down to the number of values misses nothing. -/
theorem below_iff_within : h.Below x z ↔ z ∈ h.Within h.values.size x := by
  constructor
  · intro hz
    have hthrough : h.BelowThrough (Finset.range h.values.size) x z := by
      refine Relation.ReflTransGen.mono ?_ x z hz
      intro a b hb
      exact ⟨Finset.mem_range.mpr (lt_of_mem_childrenAt hb), hb⟩
    simpa using mem_within_of_belowThrough hthrough
  · exact below_of_mem_within

/-! ### What is in a value -/

/-- Below a variable there are the variable and what is in its value. -/
theorem below_eq (h : Heap) (x : VariableId) :
    {z | h.Below x z} = insert x (h.Under (h.bindings.get x).value) := by
  ext z
  constructor
  · intro hz
    rcases Relation.ReflTransGen.cases_head hz with rfl | ⟨c, hc, hz⟩
    · exact .inl rfl
    · exact .inr ⟨c, hc, hz⟩
  · rintro (rfl | ⟨c, hc, hz⟩)
    · exact .refl
    · exact .head hc hz

/-- What is found below a variable holds the tree of its value. -/
theorem holdings_below (h : Heap) (x : VariableId) :
    h.holdings {z | h.Below x z} = h.tree (h.bindings.get x).value := by
  rw [below_eq, holdings, Set.image_insert_eq, tree, holdings]

/-- A value is in its tree. -/
theorem mem_tree_self (h : Heap) (v : ValueId) : v ∈ h.tree v :=
  Set.mem_insert v _

/-- What a variable in a value holds is there as well. -/
theorem mem_tree_of_mem_under (hz : z ∈ h.Under v) : (h.bindings.get z).value ∈ h.tree v :=
  .inr ⟨z, hz, rfl⟩

/-- Nothing is in a value without children. -/
theorem under_of_childless (hv : h.childrenAt v = []) : h.Under v = ∅ := by
  simp [Under, hv]

/-- A value without children is its whole tree. -/
theorem tree_of_childless (hv : h.childrenAt v = []) : h.tree v = {v} := by
  simp [tree, holdings, under_of_childless hv]

/-- What is in a value depends on what is there only. -/
theorem under_congr (hchildren : ∀ w ∈ h.tree v, h'.childrenAt w = h.childrenAt w)
    (hvalue : ∀ z ∈ h.Under v, (h'.bindings.get z).value = (h.bindings.get z).value) :
    h'.Under v = h.Under v := by
  have hoffspring : ∀ b ∈ h.Under v, h'.offspring b = h.offspring b := by
    intro b hb
    rw [offspring, hvalue b hb, hchildren _ (mem_tree_of_mem_under hb), offspring]
  ext z
  constructor
  · rintro ⟨c, hc, hz⟩
    rw [hchildren v (h.mem_tree_self v)] at hc
    refine ⟨c, hc, ?_⟩
    induction hz with
    | refl => exact .refl
    | tail _ hd ih => exact .tail ih (hoffspring _ ⟨c, hc, ih⟩ ▸ hd)
  · rintro ⟨c, hc, hz⟩
    refine ⟨c, by rwa [hchildren v (h.mem_tree_self v)], ?_⟩
    induction hz with
    | refl => exact .refl
    | tail hb hd ih =>
        have hsame := hoffspring _ ⟨c, hc, hb⟩
        exact .tail ih (hsame.symm ▸ hd)

/-- A tree is the same where children are the same, and the values of those in it. -/
theorem tree_congr (hchildren : ∀ w ∈ h.tree v, h'.childrenAt w = h.childrenAt w)
    (hvalue : ∀ z ∈ h.Under v, (h'.bindings.get z).value = (h.bindings.get z).value) :
    h'.tree v = h.tree v := by
  rw [tree, under_congr hchildren hvalue, tree, holdings, holdings]
  exact congrArg (insert v) (Set.image_congr hvalue)

/-! ### Changes of parents -/

/-- A change in which some variables and values get a parent, and nothing else happens. -/
structure Adopts (p : Parent) (xs : Set VariableId) (vs : Set ValueId) (h h' : Heap) : Prop where
  texts : h'.texts = h.texts
  objects : h'.objects = h.objects
  displays : h'.displays = h.displays
  binding_mem : ∀ x ∈ xs, h'.bindings.get x = { h.bindings.get x with parent := p }
  binding_notMem : ∀ x ∉ xs, h'.bindings.get x = h.bindings.get x
  value_mem : ∀ v ∈ vs, h'.values.get v = { h.values.get v with parent := p }
  value_notMem : ∀ v ∉ vs, h'.values.get v = h.values.get v

namespace Adopts

variable {xs xs' : Set VariableId} {vs vs' : Set ValueId}

/-- Where nothing gets a parent, nothing happens. -/
theorem refl (p : Parent) (h : Heap) : Adopts p ∅ ∅ h h :=
  ⟨rfl, rfl, rfl, fun _ hx => hx.elim, fun _ _ => rfl, fun _ hv => hv.elim, fun _ _ => rfl⟩

/-- What gets a parent in two steps gets it in one. -/
theorem trans (ha : Adopts p xs vs h h') (ha' : Adopts p xs' vs' h' h'') :
    Adopts p (xs ∪ xs') (vs ∪ vs') h h'' := by
  refine ⟨ha'.texts.trans ha.texts, ha'.objects.trans ha.objects, ha'.displays.trans ha.displays,
    fun x hx => ?_, fun x hx => ?_, fun v hv => ?_, fun v hv => ?_⟩
  · by_cases hlater : x ∈ xs'
    · rw [ha'.binding_mem x hlater]
      by_cases hfirst : x ∈ xs
      · rw [ha.binding_mem x hfirst]
      · rw [ha.binding_notMem x hfirst]
    · rw [ha'.binding_notMem x hlater, ha.binding_mem x (hx.resolve_right hlater)]
  · obtain ⟨hfirst, hlater⟩ := not_or.mp hx
    rw [ha'.binding_notMem x hlater, ha.binding_notMem x hfirst]
  · by_cases hlater : v ∈ vs'
    · rw [ha'.value_mem v hlater]
      by_cases hfirst : v ∈ vs
      · rw [ha.value_mem v hfirst]
      · rw [ha.value_notMem v hfirst]
    · rw [ha'.value_notMem v hlater, ha.value_mem v (hv.resolve_right hlater)]
  · obtain ⟨hfirst, hlater⟩ := not_or.mp hv
    rw [ha'.value_notMem v hlater, ha.value_notMem v hfirst]

/-- A variable is the same but for its parent. -/
theorem binding (ha : Adopts p xs vs h h') (x : VariableId) :
    ∃ q, h'.bindings.get x = { h.bindings.get x with parent := q } := by
  by_cases hx : x ∈ xs
  · exact ⟨p, ha.binding_mem x hx⟩
  · exact ⟨_, ha.binding_notMem x hx⟩

/-- A value is the same but for its parent. -/
theorem value (ha : Adopts p xs vs h h') (v : ValueId) :
    ∃ q, h'.values.get v = { h.values.get v with parent := q } := by
  by_cases hv : v ∈ vs
  · exact ⟨p, ha.value_mem v hv⟩
  · exact ⟨_, ha.value_notMem v hv⟩

/-- What belonged to the parent before belongs to it as well. -/
theorem value_eq (ha : Adopts p xs vs h h') (hv : v ∈ vs ∨ (h.values.get v).parent = p) :
    h'.values.get v = { h.values.get v with parent := p } := by
  by_cases hmem : v ∈ vs
  · exact ha.value_mem v hmem
  · rw [ha.value_notMem v hmem, ← hv.resolve_left hmem]

/-- A variable keeps its value when others get a parent. -/
theorem valueOf (ha : Adopts p xs vs h h') (x : VariableId) :
    (h'.bindings.get x).value = (h.bindings.get x).value := by
  obtain ⟨q, hx⟩ := ha.binding x
  rw [hx]

/-- A value keeps its children when others get a parent. -/
theorem childrenAt (ha : Adopts p xs vs h h') (v : ValueId) : h'.childrenAt v = h.childrenAt v := by
  obtain ⟨q, hv⟩ := ha.value v
  rw [Heap.childrenAt, hv, Heap.childrenAt]

/-- Variables keep what is in their values when others get a parent. -/
theorem offspring (ha : Adopts p xs vs h h') : h'.offspring = h.offspring := by
  funext x
  rw [Heap.offspring, ha.valueOf, ha.childrenAt, Heap.offspring]

/-- What is below a variable is so when others get a parent. -/
theorem below (ha : Adopts p xs vs h h') : h'.Below = h.Below := by
  rw [Below, ha.offspring, Below]

/-- What is below a variable down to a depth is so when others get a parent. -/
theorem within (ha : Adopts p xs vs h h') : h'.Within = h.Within := by
  funext depth
  induction depth with
  | zero => rfl
  | succ depth ih =>
      funext x
      rw [Within, ih, ha.offspring, Within]

/-- Variables hold what they held when others get a parent. -/
theorem holdings (ha : Adopts p xs vs h h') : h'.holdings = h.holdings := by
  funext xs
  simp only [Heap.holdings, ha.valueOf]

end Adopts

/-- A change of a variable shows in that variable and in no other. -/
theorem binding_modifyVariable (h : Heap) (x z : VariableId) (f : Variable → Variable) :
    ((modifyVariable x f).run h).2.bindings.get z
      = if x = z then f (h.bindings.get x) else h.bindings.get z :=
  Arena.get_modify ..

/-- A change of a value shows in that value and in no other. -/
theorem value_modifyValue (h : Heap) (v w : ValueId) (f : Value → Value) :
    ((modifyValue v f).run h).2.values.get w
      = if v = w then f (h.values.get v) else h.values.get w :=
  Arena.get_modify ..

/-- What a change leaves of a value, it leaves of all values. -/
theorem part_modifyValue {β : Type} (part : Value → β) {f : Value → Value}
    (hpart : ∀ a, part (f a) = part a) (h : Heap) (v w : ValueId) :
    part (((modifyValue v f).run h).2.values.get w) = part (h.values.get w) := by
  rw [value_modifyValue]
  split
  · next hw => exact hw ▸ hpart _
  · rfl

/-- A variable that gets a parent is the only one. -/
theorem adopts_modifyVariable (h : Heap) (x : VariableId) (p : Parent) :
    Adopts p {x} ∅ h ((modifyVariable x fun binding => { binding with parent := p }).run h).2 := by
  refine ⟨rfl, rfl, rfl, fun z hz => ?_, fun z hz => ?_, fun _ hv => hv.elim, fun _ _ => rfl⟩
  · obtain rfl := Set.mem_singleton_iff.mp hz
    rw [binding_modifyVariable, if_pos rfl]
  · rw [binding_modifyVariable, if_neg fun heq => hz heq.symm]

/-- A value that gets a parent is the only one. -/
theorem adopts_modifyValue (h : Heap) (v : ValueId) (p : Parent) :
    Adopts p ∅ {v} h ((modifyValue v fun value => { value with parent := p }).run h).2 := by
  refine ⟨rfl, rfl, rfl, fun _ hx => hx.elim, fun _ _ => rfl, fun z hz => ?_, fun z hz => ?_⟩
  · obtain rfl := Set.mem_singleton_iff.mp hz
    rw [value_modifyValue, if_pos rfl]
  · rw [value_modifyValue, if_neg fun heq => hz heq.symm]

/-- Operations that give a parent to what is around one variable each, one after the other. What is
around a variable is the same all the time. -/
theorem adopts_forM {op : VariableId → HeapM Unit} {around : Heap → VariableId → Set VariableId}
    (hop : ∀ h x, Adopts p (around h x) (h.holdings (around h x)) h ((op x).run h).2)
    (hsame : ∀ {xs vs h h'}, Adopts p xs vs h h' → around h' = around h) (cs : List VariableId)
    (h : Heap) :
    Adopts p {z | ∃ c ∈ cs, z ∈ around h c} (h.holdings {z | ∃ c ∈ cs, z ∈ around h c}) h
      ((cs.forM op).run h).2 := by
  induction cs generalizing h with
  | nil =>
      have hnone : {z | ∃ c ∈ ([] : List VariableId), z ∈ around h c} = ∅ := by
        simp
      rw [hnone, Heap.holdings, Set.image_empty]
      exact .refl p h
  | cons c cs ih =>
      have hfirst := hop h c
      have hrest := ih ((op c).run h).2
      rw [hsame hfirst, hfirst.holdings] at hrest
      have hall : {z | ∃ c' ∈ c :: cs, z ∈ around h c'}
          = around h c ∪ {z | ∃ c' ∈ cs, z ∈ around h c'} := by
        ext z
        simp
      rw [hall, Heap.holdings, Set.image_union]
      exact hfirst.trans hrest

/-- A walk that stops at once moves a variable and its value. -/
theorem adopts_moveVariableTo_zero (p : Parent) (h : Heap) (x : VariableId) :
    Adopts p {x} (h.holdings {x}) h ((moveVariableTo p 0 x).run h).2 := by
  let h₁ := ((modifyVariable x fun binding => { binding with parent := p }).run h).2
  have hfirst : Adopts p {x} ∅ h h₁ := adopts_modifyVariable h x p
  have hboth := hfirst.trans (adopts_modifyValue h₁ (h₁.bindings.get x).value p)
  have hhere : h.holdings {x} = {(h₁.bindings.get x).value} := by
    rw [hfirst.valueOf, Heap.holdings, Set.image_singleton]
  rw [Set.union_empty, Set.empty_union] at hboth
  rw [hhere]
  exact hboth

/-- A longer walk goes on at the children. -/
theorem run_moveVariableTo_succ (p : Parent) (depth : Nat) (h : Heap) (x : VariableId) :
    (moveVariableTo p (depth + 1) x).run h
      = ((((moveVariableTo p 0 x).run h).2.offspring x).forM (moveVariableTo p depth)).run
        ((moveVariableTo p 0 x).run h).2 :=
  rfl

/-- A variable gets a parent, with what is below it down to a depth. -/
theorem adopts_moveVariableTo (p : Parent) (depth : Nat) (h : Heap) (x : VariableId) :
    Adopts p (h.Within depth x) (h.holdings (h.Within depth x)) h
      ((moveVariableTo p depth x).run h).2 := by
  induction depth generalizing h x with
  | zero => exact adopts_moveVariableTo_zero p h x
  | succ depth ih =>
      have hfirst := adopts_moveVariableTo_zero p h x
      have hrest := adopts_forM ih (fun ha => by rw [ha.within])
        (((moveVariableTo p 0 x).run h).2.offspring x) ((moveVariableTo p 0 x).run h).2
      rw [hfirst.offspring, hfirst.holdings, hfirst.within] at hrest
      have hall : h.Within (depth + 1) x = {x} ∪ {z | ∃ c ∈ h.offspring x, z ∈ h.Within depth c} :=
        rfl
      rw [run_moveVariableTo_succ, hfirst.offspring, hall, Heap.holdings, Set.image_union]
      exact hfirst.trans hrest

/-- A variable that gets another parent takes everything below it along. -/
theorem adopts_moveVariable (p : Parent) (h : Heap) (x : VariableId) :
    Adopts p {z | h.Below x z} (h.holdings {z | h.Below x z}) h ((moveVariable x p).run h).2 := by
  have hall : {z | h.Below x z} = h.Within h.values.size x := by
    ext z
    exact below_iff_within
  rw [hall]
  exact adopts_moveVariableTo p h.values.size h x

/-- A value that gets another parent takes everything in it along. -/
theorem adopts_moveValue (p : Parent) (h : Heap) (v : ValueId) :
    Adopts p (h.Under v) (h.tree v) h ((moveValue v p).run h).2 := by
  let h₁ := ((modifyValue v fun value => { value with parent := p }).run h).2
  have hfirst : Adopts p ∅ {v} h h₁ := adopts_modifyValue h v p
  have hrest := adopts_forM (adopts_moveVariable p) (fun ha => by rw [ha.below]) (h₁.childrenAt v) h₁
  rw [hfirst.childrenAt, hfirst.below, hfirst.holdings] at hrest
  have hrun : (moveValue v p).run h = ((h₁.childrenAt v).forM fun x => moveVariable x p).run h₁ := rfl
  have hall := hfirst.trans hrest
  rw [Set.empty_union, Set.singleton_union] at hall
  rw [hrun, hfirst.childrenAt]
  exact hall

end Heap

end DebugBridge
