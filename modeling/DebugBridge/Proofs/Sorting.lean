import DebugBridge.Data.NameOrder
import Mathlib.Data.List.Chain
import Mathlib.Data.Set.Basic

/-!
# Sorting by a strict comparison

To sort is to put one element after the other behind those that are not greater. Whatever the comparison
is, this changes the order only, and leaves a list alone that is in order already. Where the comparison
puts the elements in order, the result is in that order.

## Main definitions

* `Orders`: a comparison puts some elements in order.

## Main results

* `perm_sortBy`: to sort is to change the order only;
* `sortBy_of_isChain`: a list in order is left alone;
* `pairwise_sortBy`: what is sorted is in order.
-/

namespace DebugBridge

variable {α : Type} {less : α → α → Bool} {s : Set α} {xs : List α}

/-- An element is inserted behind those that are greater. -/
theorem insertDescending_eq (less : α → α → Bool) (x : α) (xs : List α) :
    insertDescending less x xs = xs.takeWhile (less x) ++ x :: xs.dropWhile (less x) := by
  induction xs with
  | nil => rfl
  | cons y ys ih =>
      rw [insertDescending]
      split
      · next hxy => rw [ih, List.takeWhile_cons_of_pos hxy, List.dropWhile_cons_of_pos hxy, List.cons_append]
      · next hxy => rw [List.takeWhile_cons_of_neg hxy, List.dropWhile_cons_of_neg hxy, List.nil_append]

/-- An element that is put in its place comes to those that were there. -/
theorem perm_insertDescending (less : α → α → Bool) (x : α) (xs : List α) :
    (insertDescending less x xs).Perm (x :: xs) := by
  rw [insertDescending_eq]
  have hmiddle : (xs.takeWhile (less x) ++ x :: xs.dropWhile (less x)).Perm _ := List.perm_middle
  rwa [List.takeWhile_append_dropWhile] at hmiddle

/-- To sort is to change the order only. -/
theorem perm_sortBy (less : α → α → Bool) (xs : List α) : (sortBy less xs).Perm xs := by
  have hfold : ∀ (sorted xs : List α),
      (xs.foldl (fun sorted x => insertDescending less x sorted) sorted).Perm (xs.reverse ++ sorted) := by
    intro sorted xs
    induction xs generalizing sorted with
    | nil => exact .refl _
    | cons x xs ih =>
        rw [List.foldl_cons, List.reverse_cons, List.append_assoc]
        exact (ih _).trans ((perm_insertDescending less x sorted).append_left xs.reverse)
  have hall := hfold [] xs
  rw [List.append_nil] at hall
  exact (List.reverse_perm _).trans (hall.trans (List.reverse_perm xs))

/-- A list whose neighbours are in order is left alone. -/
theorem sortBy_of_isChain (h : xs.IsChain fun a b => less b a = false) : sortBy less xs = xs := by
  have hfold : ∀ (sorted xs : List α), ((sorted.reverse ++ xs).IsChain fun a b => less b a = false) →
      xs.foldl (fun sorted x => insertDescending less x sorted) sorted = xs.reverse ++ sorted := by
    intro sorted xs
    induction xs generalizing sorted with
    | nil => exact fun _ => rfl
    | cons x xs ih =>
        intro hchain
        have hlast : insertDescending less x sorted = x :: sorted := by
          cases sorted with
          | nil => rfl
          | cons y ys =>
              rw [List.reverse_cons, List.append_assoc, List.singleton_append] at hchain
              have hyx := (List.isChain_append_cons_cons.mp hchain).2.1
              simp [insertDescending, hyx]
        rw [List.foldl_cons, hlast, ih (x :: sorted) (by simpa using hchain)]
        simp
  have hall := hfold [] xs h
  rw [List.append_nil] at hall
  rw [sortBy, hall, List.reverse_reverse]

/-- A strict comparison that puts some elements in order: it is asymmetric on them, and so is not to be
smaller transitive. -/
structure Orders (less : α → α → Bool) (s : Set α) : Prop where
  asymm : ∀ a ∈ s, ∀ b ∈ s, less a b = true → less b a = false
  trans : ∀ a ∈ s, ∀ b ∈ s, ∀ c ∈ s, less a b = false → less b c = false → less a c = false

/-- A list in descending order stays so if an element is inserted. -/
theorem pairwise_insertDescending (ho : Orders less s) {x : α} (hx : x ∈ s) (hxs : ∀ y ∈ xs, y ∈ s)
    (h : xs.Pairwise fun a b => less a b = false) :
    (insertDescending less x xs).Pairwise fun a b => less a b = false := by
  induction xs with
  | nil => simp [insertDescending]
  | cons y ys ih =>
      obtain ⟨hys, hpair⟩ := List.pairwise_cons.mp h
      obtain ⟨hy, hin⟩ := List.forall_mem_cons.mp hxs
      rw [insertDescending]
      split
      · next hxy =>
        refine List.pairwise_cons.mpr ⟨fun z hz => ?_, ih hin hpair⟩
        rcases List.mem_cons.mp ((perm_insertDescending less x ys).mem_iff.mp hz) with rfl | hz
        · exact ho.asymm _ hx _ hy hxy
        · exact hys z hz
      · next hxy =>
        have hxy : less x y = false := by simpa using hxy
        refine List.pairwise_cons.mpr ⟨fun z hz => ?_, h⟩
        rcases List.mem_cons.mp hz with rfl | hz
        · exact hxy
        · exact ho.trans _ hx _ hy _ (hin z hz) hxy (hys z hz)

/-- What is sorted is in order. -/
theorem pairwise_sortBy (ho : Orders less s) (hxs : ∀ x ∈ xs, x ∈ s) :
    (sortBy less xs).Pairwise fun a b => less b a = false := by
  have hfold : ∀ (xs sorted : List α), (∀ x ∈ xs, x ∈ s) → (∀ x ∈ sorted, x ∈ s) →
      (sorted.Pairwise fun a b => less a b = false) →
      (xs.foldl (fun sorted x => insertDescending less x sorted) sorted).Pairwise
        fun a b => less a b = false := by
    intro xs
    induction xs with
    | nil => exact fun _ _ _ h => h
    | cons x xs ih =>
        intro sorted hin hsorted h
        obtain ⟨hx, hrest⟩ := List.forall_mem_cons.mp hin
        refine ih _ hrest (fun z hz => ?_) (pairwise_insertDescending ho hx hsorted h)
        rcases List.mem_cons.mp ((perm_insertDescending less x sorted).mem_iff.mp hz) with rfl | hz
        · exact hx
        · exact hsorted z hz
  exact List.pairwise_reverse.mpr (hfold xs [] hxs (by simp) .nil)

/-! ### Sorting by name -/

/-- The names are compared that the elements have. -/
theorem sortByName_eq (name : α → String) (xs : List α) :
    sortByName name xs = sortBy (fun x y => compareNames (name x) (name y) == .lt) xs := by
  let key : α → NameKey × α := fun x => (.of (name x), x)
  let less : NameKey × α → NameKey × α → Bool := fun x y => x.1.compare y.1 == .lt
  have hinsert : ∀ (x : α) (ys : List α), insertDescending less (key x) (ys.map key)
      = (insertDescending (fun x y => compareNames (name x) (name y) == .lt) x ys).map key := by
    intro x ys
    rw [insertDescending_eq, insertDescending_eq, List.takeWhile_map, List.dropWhile_map, List.map_append,
      List.map_cons]
    rfl
  have hfold : ∀ xs sorted : List α,
      (xs.map key).foldl (fun sorted x => insertDescending less x sorted) (sorted.map key)
        = (xs.foldl (fun sorted x =>
            insertDescending (fun x y => compareNames (name x) (name y) == .lt) x sorted) sorted).map key := by
    intro xs
    induction xs with
    | nil => exact fun _ => rfl
    | cons x xs ih =>
        intro sorted
        rw [List.map_cons, List.foldl_cons, List.foldl_cons, hinsert, ih]
  have hall := hfold xs []
  rw [List.map_nil] at hall
  change ((sortBy less (xs.map key)).map Prod.snd) = _
  rw [sortBy, hall, ← List.map_reverse, List.map_map, sortBy]
  exact List.map_id _

/-- To sort by name puts the same elements in another order. -/
theorem perm_sortByName (name : α → String) (xs : List α) : (sortByName name xs).Perm xs :=
  sortByName_eq name xs ▸ perm_sortBy _ xs

end DebugBridge
