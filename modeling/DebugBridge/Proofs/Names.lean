import DebugBridge.Data.Children
import DebugBridge.Proofs.Sorting
import Mathlib.Data.List.Forall2
import Mathlib.Data.String.Basic

/-!
# The order of child names

Names that stand for indices are compared as numbers with each other, and all other pairs of names as
texts. Each of the two comparisons alone is a total preorder. Together they need not be one: a name that
stands for no index may come, as a text, between two names of indices whose texts are in the opposite order
of the indices, as `[2x` does between `[10]` and `[9]`. Such three names are tangled, and they go round in a
circle. This is the only thing that can go wrong. Where no names are tangled, the comparison is a total
preorder, and the order in which variables are listed does not depend on the order in which they come; and
where some are, three variables can be listed in two different orders.

## Main definitions

* `sense`: the index that a name stands for, or else the name;
* `Tangled`, `Untangled`: three names that go round in a circle, and names without such three.

## Main results

* `nameIndex?_element`: the name of an element stands for its index;
* `compareNames_swap`, `compareNames_eq_iff`: what holds of all names;
* `untangled_iff_trans`: the comparison is transitive on names that are not tangled, and on no others;
* `inNameOrder_perm`: the order of such names does not depend on the order in which they come;
* `compareNames_orders_iff`: all of this together.
-/

namespace DebugBridge

/-! ### Reading back what was written -/

namespace Number

/-- A digit is read as its place after zero. -/
theorem digit?_of_isDigit {c : Char} (hc : c.isDigit = true) : digit? c = some (c.toNat - '0'.toNat) := by
  have hrange : '0' ≤ c ∧ c ≤ '9' := by
    simpa [Char.isDigit, Char.le_def] using hc
  rw [digit?, if_pos hrange]

/-- Digits behind a number are read as they count in tens. -/
theorem appendDigits?_of_isDigit {cs : List Char} (hcs : ∀ c ∈ cs, c.isDigit = true) (n : Nat) :
    appendDigits? n cs = some (Nat.ofDigitChars 10 cs n) := by
  induction cs generalizing n with
  | nil => rfl
  | cons c cs ih =>
      obtain ⟨hc, hrest⟩ := List.forall_mem_cons.mp hcs
      rw [appendDigits?, digit?_of_isDigit hc, Option.bind_some, ih hrest, Nat.ofDigitChars_cons]

/-- The decimal digits of a number are read back as that number. -/
theorem digits?_toDigits (n : Nat) : digits? (Nat.toDigits 10 n) = some n := by
  have hdigits : ∀ c ∈ Nat.toDigits 10 n, c.isDigit = true := fun c hc =>
    Nat.isDigit_of_mem_toDigits (by decide) (by decide) hc
  obtain ⟨c, cs, hcons⟩ := List.exists_cons_of_ne_nil (Nat.toDigits_ne_nil (n := n) (b := 10))
  rw [hcons, digits?, ← hcons, appendDigits?_of_isDigit hdigits, Nat.ofDigitChars_ten_toDigits]

/-- A number of 64 bits is read as what was written. -/
theorem index?_toDigits {n : Nat} (hn : n < 2 ^ 64) : index? (Nat.toDigits 10 n) = some n := by
  have hplus : ∀ rest, Nat.toDigits 10 n ≠ '+' :: rest := by
    intro rest hrest
    have hdigit : '+'.isDigit = true :=
      Nat.isDigit_of_mem_toDigits (b := 10) (n := n) (by decide) (by decide)
        (hrest ▸ List.mem_cons_self)
    simp [Char.isDigit] at hdigit
  have hread : index? (Nat.toDigits 10 n) = (digits? (Nat.toDigits 10 n)).filter (· < 2 ^ 64) := by
    rw [index?]
    exact hplus
  rw [hread, digits?_toDigits]
  exact Option.filter_some_pos (by simpa using hn)

end Number

/-- The name of an element stands for its index. -/
theorem nameIndex?_element {i : Nat} (hi : i < 2 ^ 64) : nameIndex? ("[" ++ toString i ++ "]") = some i := by
  have htext : ("[" ++ toString i ++ "]").toList = '[' :: (Nat.toDigits 10 i ++ [']']) := by
    rw [String.toList_append, String.toList_append, Nat.toString_eq_repr, Nat.toList_repr]
    rfl
  rw [nameIndex?, htext]
  simp only [List.reverse_append, List.reverse_cons, List.reverse_nil, List.nil_append, List.cons_append,
    List.reverse_reverse]
  exact Number.index?_toDigits hi

/-! ### Two names -/

variable {x y z : String}

/-- Two names are compared by their indices if both stand for one, and as texts otherwise. -/
theorem compareNames_eq (x y : String) :
    compareNames x y = match nameIndex? x, nameIndex? y with
      | some i, some j => compare i j
      | _, _ => compare x y :=
  rfl

/-- Indices are compared as numbers. -/
theorem compareNames_of_index {i j : Nat} (hx : nameIndex? x = some i) (hy : nameIndex? y = some j) :
    compareNames x y = compare i j := by
  rw [compareNames_eq, hx, hy]

/-- A name that stands for no index is compared as a text. -/
theorem compareNames_of_text (h : nameIndex? x = none ∨ nameIndex? y = none) :
    compareNames x y = compare x y := by
  rw [compareNames_eq]
  rcases h with hx | hy
  · rw [hx]
  · rw [hy]
    cases nameIndex? x with
    | none => rfl
    | some i => rfl

/-- The other way round, names compare the other way. -/
theorem compareNames_swap (x y : String) : compareNames y x = (compareNames x y).swap := by
  cases hx : nameIndex? x with
  | none =>
      rw [compareNames_of_text (.inl hx), compareNames_of_text (.inr hx)]
      exact Std.OrientedCmp.eq_swap
  | some i =>
      cases hy : nameIndex? y with
      | none =>
          rw [compareNames_of_text (.inr hy), compareNames_of_text (.inl hy)]
          exact Std.OrientedCmp.eq_swap
      | some j =>
          rw [compareNames_of_index hx hy, compareNames_of_index hy hx]
          exact Std.OrientedCmp.eq_swap

/-- What a name is compared by if all goes well: the index that it stands for, or else the name itself. -/
def sense (x : String) : Nat ⊕ String :=
  match nameIndex? x with
  | some i => .inl i
  | none => .inr x

/-- Names compare equal if they are one, or stand for one index. -/
theorem compareNames_eq_iff : compareNames x y = .eq ↔ sense x = sense y := by
  rw [sense, sense]
  cases hx : nameIndex? x with
  | none =>
      rw [compareNames_of_text (.inl hx), Std.compare_eq_iff_eq]
      cases hy : nameIndex? y with
      | none => simp
      | some j =>
          have hne : x ≠ y := by
            rintro rfl
            rw [hx] at hy
            cases hy
          simp [hne]
  | some i =>
      cases hy : nameIndex? y with
      | none =>
          have hne : x ≠ y := by
            rintro rfl
            rw [hx] at hy
            cases hy
          rw [compareNames_of_text (.inr hy), Std.compare_eq_iff_eq]
          simp [hne]
      | some j => simp [compareNames_of_index hx hy]

/-! ### Three names -/

/-- Three names that go round in a circle. The first two stand for indices that do not descend. The last
one stands for none and lies between the other two as a text, which descend as texts. -/
def Tangled (x y z : String) : Prop :=
  (∃ i j, nameIndex? x = some i ∧ nameIndex? y = some j ∧ i ≤ j) ∧ nameIndex? z = none ∧ y < z ∧ z < x

/-- Names of which no three are tangled. -/
def Untangled (names : Set String) : Prop :=
  ∀ x ∈ names, ∀ y ∈ names, ∀ z ∈ names, ¬Tangled x y z

/-- If one of two names stands for no index, they are in order as their texts are. -/
theorem isLE_of_text (h : nameIndex? x = none ∨ nameIndex? y = none) :
    (compareNames x y).isLE = true ↔ x ≤ y := by
  rw [compareNames_of_text h]
  exact Std.LawfulBCmp.isLE_iff_le

/-- Two names that stand for indices are in order as these are. -/
theorem isLE_of_index {i j : Nat} (hx : nameIndex? x = some i) (hy : nameIndex? y = some j) :
    (compareNames x y).isLE = true ↔ i ≤ j := by
  rw [compareNames_of_index hx hy]
  exact Nat.isLE_compare

/-- A name of an index is no name that stands for none. -/
theorem ne_of_index {i : Nat} (hx : nameIndex? x = some i) (hy : nameIndex? y = none) : x ≠ y := by
  rintro rfl
  rw [hx] at hy
  cases hy

/-- Three names that are not tangled, in whatever order, do not go round in a circle. -/
theorem isLE_trans_of_not_tangled (hyz : ¬Tangled x y z) (hzy : ¬Tangled z x y) (hzx : ¬Tangled y z x)
    (hxy : (compareNames x y).isLE = true) (hle : (compareNames y z).isLE = true) :
    (compareNames x z).isLE = true := by
  cases hx : nameIndex? x with
  | none =>
      rw [isLE_of_text (.inl hx)] at hxy ⊢
      cases hy : nameIndex? y with
      | none => exact hxy.trans ((isLE_of_text (.inl hy)).mp hle)
      | some j =>
          cases hz : nameIndex? z with
          | none => exact hxy.trans ((isLE_of_text (.inr hz)).mp hle)
          | some k =>
              -- Two indices in their order behind a text: that the later index is not in front of it.
              by_contra hnot
              have hlt : x < y := lt_of_le_of_ne hxy (ne_of_index hy hx).symm
              exact hzx ⟨⟨j, k, hy, hz, (isLE_of_index hy hz).mp hle⟩, hx, not_le.mp hnot, hlt⟩
  | some i =>
      cases hy : nameIndex? y with
      | none =>
          rw [isLE_of_text (.inr hy)] at hxy
          rw [isLE_of_text (.inl hy)] at hle
          cases hz : nameIndex? z with
          | none => exact (isLE_of_text (.inr hz)).mpr (hxy.trans hle)
          | some k =>
              rw [isLE_of_index hx hz]
              by_contra hnot
              have hfirst : x < y := lt_of_le_of_ne hxy (ne_of_index hx hy)
              have hlast : y < z := lt_of_le_of_ne hle (ne_of_index hz hy).symm
              exact hzy ⟨⟨k, i, hz, hx, Nat.le_of_lt (not_le.mp hnot)⟩, hy, hfirst, hlast⟩
      | some j =>
          rw [isLE_of_index hx hy] at hxy
          cases hz : nameIndex? z with
          | none =>
              rw [isLE_of_text (.inr hz)] at hle ⊢
              by_contra hnot
              have hlt : y < z := lt_of_le_of_ne hle (ne_of_index hy hz)
              exact hyz ⟨⟨i, j, hx, hy, hxy⟩, hz, hlt, not_le.mp hnot⟩
          | some k => exact (isLE_of_index hx hz).mpr (hxy.trans ((isLE_of_index hy hz).mp hle))

/-- The comparison is transitive on names that are not tangled, and on no others. -/
theorem untangled_iff_trans (names : Set String) :
    Untangled names ↔ ∀ x ∈ names, ∀ y ∈ names, ∀ z ∈ names,
      (compareNames x y).isLE = true → (compareNames y z).isLE = true → (compareNames x z).isLE = true := by
  constructor
  · intro hfree x hx y hy z hz
    exact isLE_trans_of_not_tangled (hfree x hx y hy z hz) (hfree z hz x hx y hy) (hfree y hy z hz x hx)
  · rintro htrans x hx y hy z hz ⟨⟨i, j, hi, hj, hij⟩, hnone, hyz, hzx⟩
    have hxy : (compareNames x y).isLE = true := (isLE_of_index hi hj).mpr hij
    have hround := htrans x hx y hy z hz hxy ((isLE_of_text (.inr hnone)).mpr (le_of_lt hyz))
    exact absurd ((isLE_of_text (.inr hnone)).mp hround) (not_le.mpr hzx)

/-! ### Variables in the order of their names -/

/-- A name may come first just if the other one does not come before it. -/
theorem less_eq_false_iff (x y : String) :
    (compareNames y x == .lt) = false ↔ (compareNames x y).isLE = true := by
  rw [compareNames_swap x y]
  cases compareNames x y with
  | lt | eq | gt => decide

/-- The comparison puts names in order that are not tangled. -/
theorem orders_of_untangled {α : Type} {name : α → String} {names : Set String} (hfree : Untangled names) :
    Orders (fun a b => compareNames (name a) (name b) == .lt) {a | name a ∈ names} := by
  refine ⟨fun a _ b _ hlt => ?_, fun a ha b hb c hc hab hbc => ?_⟩
  · rw [less_eq_false_iff, eq_of_beq hlt]
    rfl
  · rw [less_eq_false_iff] at hab hbc ⊢
    exact (untangled_iff_trans names).mp hfree _ hc _ hb _ ha hbc hab

section Listing

variable {h : Heap} {xs ys : List VariableId} {names : Set String}

/-- To put variables in the order of their names sorts them by name and leaves the heap. -/
theorem run_inNameOrder (xs : List VariableId) (h : Heap) :
    (inNameOrder xs).run h = (sortByName (fun x => (h.bindings.get x).name) xs, h) :=
  rfl

/-- Variables whose names are not tangled are listed in the order of these. -/
theorem pairwise_inNameOrder (hfree : Untangled names) (hxs : ∀ x ∈ xs, (h.bindings.get x).name ∈ names) :
    ((inNameOrder xs).run h).1.Pairwise fun x y =>
      (compareNames (h.bindings.get x).name (h.bindings.get y).name).isLE = true := by
  rw [run_inNameOrder, sortByName_eq]
  exact (pairwise_sortBy (orders_of_untangled hfree) hxs).imp fun hle => (less_eq_false_iff _ _).mp hle

/-- The order in which variables are listed does not depend on the order in which they come, up to names
that compare equal, if no names are tangled. -/
theorem inNameOrder_perm (hfree : Untangled names) (hxs : ∀ x ∈ xs, (h.bindings.get x).name ∈ names)
    (hperm : ys.Perm xs) :
    List.Forall₂ (fun x y => compareNames (h.bindings.get x).name (h.bindings.get y).name = .eq)
      ((inNameOrder ys).run h).1 ((inNameOrder xs).run h).1 := by
  let name : VariableId → String := fun x => (h.bindings.get x).name
  -- Senses are in order if names that have them are.
  let before : Nat ⊕ String → Nat ⊕ String → Prop := fun k k' =>
    ∃ a ∈ names, ∃ b ∈ names, sense a = k ∧ sense b = k' ∧ (compareNames a b).isLE = true
  have hsorted : ∀ zs, (∀ z ∈ zs, name z ∈ names) →
      ((((inNameOrder zs).run h).1.map name).map sense).Pairwise before := by
    intro zs hzs
    have hmem : ∀ z ∈ ((inNameOrder zs).run h).1, name z ∈ names := fun z hz =>
      hzs z ((perm_sortByName name zs).mem_iff.mp hz)
    rw [List.map_map, List.pairwise_map]
    exact (pairwise_inNameOrder hfree hzs).imp_of_mem fun hx hy hle =>
      ⟨_, hmem _ hx, _, hmem _ hy, rfl, rfl, hle⟩
  have hanti : ∀ k k', before k k' → before k' k → k = k' := by
    rintro k k' ⟨a, ha, b, hb, rfl, rfl, hab⟩ ⟨b', hb', a', ha', hb's, ha's, hba⟩
    have htrans := (untangled_iff_trans names).mp hfree
    have heq : ∀ {c d}, sense c = sense d → (compareNames c d).isLE = true := fun hs => by
      rw [compareNames_eq_iff.mpr hs]
      rfl
    have hback : (compareNames b a).isLE = true :=
      htrans b hb b' hb' a ha (heq hb's.symm) (htrans b' hb' a' ha' a ha hba (heq ha's))
    rw [compareNames_swap a b] at hback
    rw [← compareNames_eq_iff]
    cases hcompare : compareNames a b with
    | lt | gt => simp_all
    | eq => rfl
  have hys : ∀ y ∈ ys, name y ∈ names := fun y hy => hxs y (hperm.mem_iff.mp hy)
  have hall : (((inNameOrder ys).run h).1.map name).Perm (((inNameOrder xs).run h).1.map name) :=
    ((perm_sortByName name ys).trans (hperm.trans (perm_sortByName name xs).symm)).map name
  have hsame := List.Perm.eq_of_pairwise (fun k k' _ _ => hanti k k') (hsorted ys hys) (hsorted xs hxs)
    (hall.map sense)
  rw [List.map_map, List.map_map, ← List.forall₂_eq_eq_eq, List.forall₂_map_left_iff,
    List.forall₂_map_right_iff] at hsame
  exact hsame.imp fun x y hxy => compareNames_eq_iff.mpr hxy

/-- Three variables with names. -/
def threeNamed (x y z : String) : Heap :=
  { (∅ : Heap) with
    bindings := ⟨#[⟨x, .binding none, .detached, 0, false⟩, ⟨y, .binding none, .detached, 0, false⟩,
      ⟨z, .binding none, .detached, 0, false⟩]⟩ }

/-- Variables whose names are tangled are left in two different orders. -/
theorem inNameOrder_of_tangled (ht : Tangled x y z) :
    ((inNameOrder [0, 1, 2]).run (threeNamed x y z)).1 = [0, 1, 2]
      ∧ ((inNameOrder [2, 0, 1]).run (threeNamed x y z)).1 = [2, 0, 1] := by
  obtain ⟨⟨i, j, hi, hj, hij⟩, hnone, hyz, hzx⟩ := ht
  have hxy : (compareNames y x == .lt) = false :=
    (less_eq_false_iff x y).mpr ((isLE_of_index hi hj).mpr hij)
  have hyz : (compareNames z y == .lt) = false :=
    (less_eq_false_iff y z).mpr ((isLE_of_text (.inr hnone)).mpr (le_of_lt hyz))
  have hzx : (compareNames x z == .lt) = false :=
    (less_eq_false_iff z x).mpr ((isLE_of_text (.inl hnone)).mpr (le_of_lt hzx))
  simp only [run_inNameOrder, sortByName_eq]
  refine ⟨sortBy_of_isChain ?_, sortBy_of_isChain ?_⟩
  · exact .cons_cons hxy (.cons_cons hyz (.singleton _))
  · exact .cons_cons hzx (.cons_cons hxy (.singleton _))

/-- Names compare the other way round if they are exchanged, whatever they are. The comparison is
transitive on names that are not tangled, and on no others. And the order in which variables with some
names are listed does not depend on the order in which they come, up to names that compare equal, if these
names are not tangled, and for no others. -/
theorem compareNames_orders_iff (names : Set String) :
    (∀ x y, compareNames y x = (compareNames x y).swap)
    ∧ ((∀ x ∈ names, ∀ y ∈ names, ∀ z ∈ names, (compareNames x y).isLE = true →
        (compareNames y z).isLE = true → (compareNames x z).isLE = true) ↔ Untangled names)
    ∧ ((∀ (h : Heap) (xs ys : List VariableId), (∀ x ∈ xs, (h.bindings.get x).name ∈ names) → ys.Perm xs →
        List.Forall₂ (fun x y => compareNames (h.bindings.get x).name (h.bindings.get y).name = .eq)
          ((inNameOrder ys).run h).1 ((inNameOrder xs).run h).1) ↔ Untangled names) := by
  refine ⟨compareNames_swap, (untangled_iff_trans names).symm, fun hall x hx y hy z hz ht => ?_,
    fun hfree h xs ys hxs hperm => inNameOrder_perm hfree hxs hperm⟩
  obtain ⟨hone, hother⟩ := inNameOrder_of_tangled ht
  have hnames : ∀ n ∈ [0, 1, 2], ((threeNamed x y z).bindings.get n).name ∈ names :=
    List.forall_mem_cons.mpr ⟨hx, List.forall_mem_cons.mpr ⟨hy, List.forall_mem_singleton.mpr hz⟩⟩
  have hsame := hall (threeNamed x y z) [0, 1, 2] [2, 0, 1] hnames (by decide)
  rw [hone, hother] at hsame
  -- A name that stands for no index would compare equal to one that stands for an index.
  obtain ⟨⟨i, -, hi, -⟩, hnone, -, hzx⟩ := ht
  have hequal : compareNames z x = .eq := (List.forall₂_cons.mp hsame).1
  rw [compareNames_of_text (.inl hnone), Std.compare_eq_iff_eq] at hequal
  exact absurd hequal (ne_of_lt hzx)

example : Tangled "[9]" "[10]" "[2x" := ⟨⟨9, 10, by decide⟩, by decide⟩

end Listing

end DebugBridge
