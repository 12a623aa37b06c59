import DebugBridge.Proofs.Names
import DebugBridge.Proofs.Retention
import Mathlib.Data.List.Range

/-!
# Children that are enumerated

When the children of an object are asked for the first time, one variable is made for each place that its
layout has, with the name of the place and the content that the object reports there. Then they are put in
the order of their names. For elements and items this is the order in which they were made, since what is
written between the brackets is read back as the index, and indices are compared as numbers. For fields it
is the order of their names as texts, if none of these begins with a bracket.

After that the object is not asked again. Whatever becomes of it, the children stay, until the value is
given another content or other children.

## Main definitions

* `Entry`, `HostObject.entries`: what children an object has by its layout;
* `Heap.Makes`: variables come into being, and nothing else happens;
* `Heap.Enumerates`: the children of an object, in order.

## Main results

* `Heap.makes_enumerateObject`: one child is made for each place, and shows what is there;
* `inNameOrder_of_indices`: names of indices leave variables in the order of these;
* `childrenOf_entries`: what children there are at first, and how long.
-/

namespace DebugBridge

/-! ### What a layout says -/

/-- What a child is when it is made: its name, where its content is stored, and that content. -/
structure Entry where
  name : String
  origin : Origin
  content : Datum
deriving DecidableEq

/-- The children that an object has by its layout. What it does not report counts as null. -/
def HostObject.entries (owner : Nat) (o : HostObject) : List Entry :=
  match o.layout with
  | .array element length =>
    (List.range length).map fun i =>
      ⟨(Slot.element i).text, .element owner i element, (o.read (.element i)).getD .null⟩
  | .collection items =>
    items.zipIdx.map fun (item, i) => ⟨(Slot.element i).text, .binding none, item⟩
  | .record fields =>
    (fields.filter fun info => !info.isStatic).map fun info =>
      ⟨info.name, .field owner info, (o.read (.field info.name)).getD .null⟩
  | .closed => []

/-- A layout whose places are counted by a number of 64 bits. -/
def Layout.IsSized : Layout → Prop
  | .array _ length => length < 2 ^ 64
  | .collection items => items.length < 2 ^ 64
  | .record _ => True
  | .closed => True

/-- Elements and items are numbered. -/
theorem HostObject.names_entries {o : HostObject} (owner : Nat) (hsized : o.layout.IsSized)
    (hfields : ∀ fields, o.layout ≠ .record fields) :
    ∃ n < 2 ^ 64, (o.entries owner).map Entry.name = (List.range n).map fun i => (Slot.element i).text := by
  rw [entries]
  cases hlayout : o.layout with
  | array element length =>
      rw [hlayout] at hsized
      refine ⟨length, hsized, ?_⟩
      rw [List.map_map]
      rfl
  | collection items =>
      rw [hlayout] at hsized
      refine ⟨items.length, hsized, ?_⟩
      rw [List.map_map, List.range_eq_range', ← List.zipIdx_map_snd 0 items, List.map_map]
      rfl
  | record fields => exact absurd hlayout (hfields fields)
  | closed => exact ⟨0, by decide, rfl⟩

/-! ### What is made -/

namespace Heap

variable {h h' h'' : Heap} {xs ys : List VariableId} {entries entries' : List Entry} {p : Parent}

/-- What a variable shows as a child. -/
def entry (h : Heap) (x : VariableId) : Entry :=
  ⟨(h.bindings.get x).name, (h.bindings.get x).origin, (h.values.get (h.bindings.get x).value).raw⟩

/-- A variable that is there with its value. -/
structure IsThere (h : Heap) (x : VariableId) : Prop where
  binding : x < h.bindings.size
  value : (h.bindings.get x).value < h.values.size

/-- A variable that is there with its value, and both belong to a parent. -/
structure Owns (h : Heap) (p : Parent) (x : VariableId) : Prop extends h.IsThere x where
  parent : (h.bindings.get x).parent = p
  shared : (h.values.get (h.bindings.get x).value).parent = p

/-- A variable that is the same, with a value that belongs to the same. -/
theorem Owns.congr {x : VariableId} (hx : h.Owns p x) (hb : h.bindings.size ≤ h'.bindings.size)
    (hv : h.values.size ≤ h'.values.size) (hbinding : h'.bindings.get x = h.bindings.get x)
    (hparent : (h'.values.get (h.bindings.get x).value).parent
      = (h.values.get (h.bindings.get x).value).parent) : h'.Owns p x := by
  refine ⟨⟨Nat.lt_of_lt_of_le hx.binding hb, ?_⟩, ?_, ?_⟩
  · rw [hbinding]
    exact Nat.lt_of_lt_of_le hx.value hv
  · rw [hbinding, hx.parent]
  · rw [hbinding, hparent, hx.shared]

/-- New variables come into being, with some entries. They belong to a parent and have no children that
are known. Variables, values and objects that were there are left alone. -/
structure Makes (p : Parent) (entries : List Entry) (h h' : Heap) (xs : List VariableId) : Prop where
  leaves : h.Leaves h'
  objects : h'.objects = h.objects
  fresh : ∀ x ∈ xs, h.bindings.size ≤ x
  owned : ∀ x ∈ xs, h'.Owns p x
  childless : ∀ x ∈ xs, h'.offspring x = []
  nodup : xs.Nodup
  shown : xs.map h'.entry = entries

/-- To make no variables leaves the heap. -/
theorem Makes.nil (p : Parent) (h : Heap) : Makes p [] h h [] :=
  ⟨.refl h, rfl, by simp, by simp, by simp, .nil, rfl⟩

namespace Leaves

variable {x : VariableId}

/-- Who belongs to a parent does so still where nothing that was there changes. -/
theorem owns (hl : h.Leaves h') (hx : h.Owns p x) : h'.Owns p x :=
  hx.congr hl.bindings hl.values (hl.binding hx.binding) (hl.parent hx.value)

/-- A variable has the same children where nothing that was there changes. -/
theorem offspring (hl : h.Leaves h') (hx : h.IsThere x) : h'.offspring x = h.offspring x := by
  rw [Heap.offspring, hl.binding hx.binding, childrenAt, hl.retains.children hx.value]
  rfl

/-- A variable that is left alone with its value shows the same. -/
theorem entry (hl : h.Leaves h') (hx : h.IsThere x) : h'.entry x = h.entry x := by
  rw [Heap.entry, hl.binding hx.binding, hl.retains.raw hx.value, Heap.entry]

end Leaves

/-- What is made later is added behind. -/
theorem Makes.append (hm : Makes p entries h h' xs) (hm' : Makes p entries' h' h'' ys) :
    Makes p (entries ++ entries') h h'' (xs ++ ys) where
  leaves := hm.leaves.trans hm'.leaves
  objects := hm'.objects.trans hm.objects
  fresh x hx := by
    rcases List.mem_append.mp hx with hx | hx
    · exact hm.fresh x hx
    · exact hm.leaves.bindings.trans (hm'.fresh x hx)
  owned x hx := by
    rcases List.mem_append.mp hx with hx | hx
    · exact hm'.leaves.owns (hm.owned x hx)
    · exact hm'.owned x hx
  childless x hx := by
    rcases List.mem_append.mp hx with hx | hx
    · rw [hm'.leaves.offspring (hm.owned x hx).toIsThere, hm.childless x hx]
    · exact hm'.childless x hx
  nodup := by
    refine List.nodup_append.mpr ⟨hm.nodup, hm'.nodup, fun x hx y hy => ?_⟩
    exact Nat.ne_of_lt (Nat.lt_of_lt_of_le (hm.owned x hx).binding (hm'.fresh y hy))
  shown := by
    have hsame : xs.map h''.entry = xs.map h'.entry := List.map_congr_left fun x hx =>
      hm'.leaves.entry (hm.owned x hx).toIsThere
    rw [List.map_append, hsame, hm.shown, hm'.shown]

/-- A new variable shows the name, the place and the content that it was made with. -/
theorem makes_newVariable (name : String) (origin : Origin) (raw : Datum) (p : Parent) (h : Heap) :
    Makes p [⟨name, origin, raw⟩] h ((newVariable name origin raw p).run h).2
      [((newVariable name origin raw p).run h).1] := by
  have hleaves := leaving_newVariable name origin raw p h
  rw [run_newVariable] at hleaves ⊢
  refine ⟨hleaves, rfl, ?_, ?_, ?_, List.nodup_singleton _, ?_⟩
  · simp
  · rintro x hx
    obtain rfl := List.mem_singleton.mp hx
    refine ⟨⟨?_, ?_⟩, ?_, ?_⟩ <;> simp [Arena.get_push]
  · simp [Heap.offspring, childrenAt, Arena.get_push]
  · simp [entry, Arena.get_push]

/-- A variable that is made for a slot shows what the slot has. -/
theorem makes_slotVariable (owner : Nat) (slot : Slot) (origin : Origin) (p : Parent) (h : Heap) :
    Makes p [⟨slot.text, origin, ((h.objects.get owner).read slot).getD .null⟩] h
      ((slotVariable owner slot origin p).run h).2 [((slotVariable owner slot origin p).run h).1] :=
  makes_newVariable _ _ _ p h

/-- One variable after the other. The objects are the same all the time. -/
theorem makes_mapM {α : Type} {op : α → HeapM VariableId} {entry : α → Entry} {as : List α}
    (hop : ∀ a ∈ as, ∀ u : Heap, u.objects = h.objects →
      Makes p [entry a] u ((op a).run u).2 [((op a).run u).1]) :
    Makes p (as.map entry) h ((as.mapM op).run h).2 ((as.mapM op).run h).1 := by
  induction as generalizing h with
  | nil => exact .nil p h
  | cons a as ih =>
      have hfirst := hop a List.mem_cons_self h rfl
      have hrest := ih fun b hb u hu => hop b (List.mem_cons_of_mem a hb) u (hu.trans hfirst.objects)
      have hrun : ((a :: as).mapM op).run h
          = (((op a).run h).1 :: ((as.mapM op).run ((op a).run h).2).1,
            ((as.mapM op).run ((op a).run h).2).2) := by
        rw [List.mapM_cons]
        rfl
      rw [hrun]
      exact hfirst.append hrest

/-- One child is made for each place of an object, and shows what is there. -/
theorem makes_enumerateObject (owner : Nat) (p : Parent) (h : Heap) :
    Makes p ((h.objects.get owner).entries owner) h ((enumerateObject owner p).run h).2
      ((enumerateObject owner p).run h).1 := by
  have hget : (get : HeapM Heap).run h = (h, h) := rfl
  have hslot : ∀ (slot : Slot) (origin : Origin) (u : Heap), u.objects = h.objects →
      Makes p [⟨slot.text, origin, ((h.objects.get owner).read slot).getD .null⟩] u
        ((slotVariable owner slot origin p).run u).2 [((slotVariable owner slot origin p).run u).1] :=
    fun slot origin u hu => hu ▸ makes_slotVariable owner slot origin p u
  rw [enumerateObject, run_bind_heap hget, HostObject.entries]
  cases (h.objects.get owner).layout with
  | array element length => exact makes_mapM fun i _ u hu => hslot (.element i) _ u hu
  | collection items => exact makes_mapM fun item _ u _ => makes_newVariable _ _ _ p u
  | record fields => exact makes_mapM fun info _ u hu => hslot (.field info.name) _ u hu
  | closed => exact .nil p h

end Heap

/-! ### The order of children -/

section Listing

variable {h : Heap} {xs : List VariableId}

/-- Names of indices leave variables in the order of these. -/
theorem inNameOrder_of_indices {n : Nat} (hn : n < 2 ^ 64)
    (hnames : (xs.map fun x => (h.bindings.get x).name) = (List.range n).map fun i => (Slot.element i).text) :
    ((inNameOrder xs).run h).1 = xs := by
  rw [run_inNameOrder, sortByName_eq]
  refine sortBy_of_isChain ?_
  -- The names are in order, since the indices are.
  have hchain : (xs.map fun x => (h.bindings.get x).name).IsChain
      fun x y => (compareNames y x == .lt) = false := by
    rw [hnames, List.isChain_map]
    refine (List.Pairwise.imp_of_mem (fun {i j} hi hj hij => ?_) List.pairwise_lt_range).isChain
    have hsmall : ∀ k ∈ List.range n, k < 2 ^ 64 := fun k hk => (List.mem_range.mp hk).trans hn
    rw [less_eq_false_iff]
    exact (isLE_of_index (nameIndex?_element (hsmall i hi)) (nameIndex?_element (hsmall j hj))).mpr
      (Nat.le_of_lt hij)
  exact (List.isChain_map _).mp hchain

/-- A name that does not begin with a bracket stands for no index. -/
theorem nameIndex?_of_head {name : String} (hname : name.toList.head? ≠ some '[') :
    nameIndex? name = none := by
  rw [nameIndex?]
  split
  · next heq =>
      rw [heq] at hname
      exact absurd rfl hname
  · rfl

/-- Other names are listed as texts. -/
theorem pairwise_inNameOrder_of_head (hxs : ∀ x ∈ xs, (h.bindings.get x).name.toList.head? ≠ some '[') :
    (((inNameOrder xs).run h).1.map fun x => (h.bindings.get x).name).Pairwise (· ≤ ·) := by
  have hfree : Untangled {name | name.toList.head? ≠ some '['} := by
    rintro x hx - - - - ⟨⟨i, -, hi, -⟩, -⟩
    rw [nameIndex?_of_head hx] at hi
    cases hi
  have hmem : ∀ x ∈ ((inNameOrder xs).run h).1, (h.bindings.get x).name.toList.head? ≠ some '[' :=
    fun x hx => hxs x ((perm_sortByName _ xs).mem_iff.mp hx)
  rw [List.pairwise_map]
  exact (pairwise_inNameOrder hfree hxs).imp_of_mem fun hx _ hle =>
    (isLE_of_text (.inl (nameIndex?_of_head (hmem _ hx)))).mp hle

end Listing

/-! ### The first look and later ones -/

section Looking

open Heap

variable {h h' : Heap} {v : ValueId} {owner : Nat}

/-- The children of an object, in order. They are new, there is one for each place, and it shows what is
there. Elements and items are in the order of their indices, and fields in that of their names, if none of
these begins with a bracket. -/
structure Heap.Enumerates (owner : Nat) (h h' : Heap) (cs : List VariableId) : Prop where
  fresh : ∀ c ∈ cs, h.bindings.size ≤ c ∧ c < h'.bindings.size
  nodup : cs.Nodup
  shown : (cs.map h'.entry).Perm ((h.objects.get owner).entries owner)
  indexed : (h.objects.get owner).layout.IsSized →
    (∀ fields, (h.objects.get owner).layout ≠ .record fields) →
    cs.map h'.entry = (h.objects.get owner).entries owner
  named : ∀ fields, (h.objects.get owner).layout = .record fields →
    (∀ info ∈ fields, info.isStatic = false → info.name.toList.head? ≠ some '[') →
    (cs.map fun c => (h'.bindings.get c).name).Pairwise (· ≤ ·)

/-- New variables with the entries of an object are its children once they are in order. -/
theorem Heap.Makes.enumerates {p : Parent} {xs : List VariableId}
    (hm : Makes p ((h.objects.get owner).entries owner) h h' xs) :
    Enumerates owner h h' ((inNameOrder xs).run h').1 := by
  have hperm : ((inNameOrder xs).run h').1.Perm xs := perm_sortByName _ xs
  have hnames : (xs.map fun x => (h'.bindings.get x).name)
      = ((h.objects.get owner).entries owner).map Entry.name := by
    rw [← hm.shown, List.map_map]
    rfl
  refine ⟨fun c hc => ?_, hperm.nodup_iff.mpr hm.nodup,
    hm.shown ▸ hperm.map h'.entry, fun hsized hfields => ?_, fun fields hlayout hbrackets => ?_⟩
  · have hmem := hperm.mem_iff.mp hc
    exact ⟨hm.fresh c hmem, (hm.owned c hmem).binding⟩
  · obtain ⟨n, hn, hindices⟩ := HostObject.names_entries owner hsized hfields
    rw [inNameOrder_of_indices hn (hnames.trans hindices)]
    exact hm.shown
  · refine pairwise_inNameOrder_of_head fun x hx => ?_
    have hname : (h'.bindings.get x).name ∈ ((h.objects.get owner).entries owner).map Entry.name :=
      hnames ▸ List.mem_map_of_mem hx
    rw [HostObject.entries, hlayout, List.map_map] at hname
    obtain ⟨info, hinfo, heq⟩ := List.mem_map.mp hname
    obtain ⟨hmem, hstatic⟩ := List.mem_filter.mp hinfo
    exact heq ▸ hbrackets info hmem (by simpa using hstatic)

/-- To keep the children changes neither variables nor contents. -/
theorem Heap.Enumerates.keep {cs : List VariableId} (hl : Enumerates owner h h' cs) (v : ValueId)
    (children : Option (List VariableId)) :
    Enumerates owner h ((modifyValue v fun value => { value with children }).run h').2 cs := by
  have hentry : ((modifyValue v fun value => { value with children }).run h').2.entry = h'.entry := by
    funext x
    rw [Heap.entry, part_modifyValue Value.raw (f := fun value => { value with children }) fun _ => rfl]
    rfl
  exact ⟨hl.fresh, hl.nodup, hentry ▸ hl.shown, hentry ▸ hl.indexed, hl.named⟩

/-- The children of a value that were not asked for yet. An object has one new child for each place of its
layout, which shows what is there: an array or a collection one for each index, in the order of these, and
a record one for each field that is not static. Everything else has none. From then on they are asked for
as often as anybody likes, whatever is done with the object, the children and everything else, and they are
the same, as long as the value is given neither another content nor other children. -/
theorem childrenOf_entries (hunseen : (h.values.get v).children = none) :
    let cs := ((childrenOf v).run h).1
    let h' := ((childrenOf v).run h).2
    (∀ owner, (h.values.get v).raw = .object owner → Enumerates owner h h' cs)
    ∧ ((∀ owner, (h.values.get v).raw ≠ .object owner) → cs = [])
    ∧ ∀ us, Throughout (fun h u => u.Spares h v) h' us →
      (childrenOf v).run (afterUses us h') = (cs, afterUses us h') := by
  refine ⟨fun owner hraw => ?_, fun hplain => children_of_plain hplain hunseen, fun us hus => ?_⟩
  · rw [run_childrenOf_of_none hunseen, hraw]
    exact (makes_enumerateObject owner (h.values.get v).parent h).enumerates.keep v _
  · refine run_childrenOf_of_some (children_of_spares ?_ hus ?_)
    · rw [run_childrenOf_of_none hunseen]
      exact Arena.lt_size_modify _ _ _
    · rw [run_childrenOf_of_none hunseen, value_modifyValue, if_pos rfl]

/-- An array with an element that is null, and a record with a static field. -/
def chest : Heap :=
  { (∅ : Heap) with
    texts := 1
    objects := ⟨#[.array .text #[.text 0 "a", .null],
      .record "Point" [⟨⟨"y", .text, .isPublic, false, false⟩, .null⟩,
        ⟨⟨"origin", .text, .isPublic, true, false⟩, .null⟩,
        ⟨⟨"x", .text, .isPublic, false, true⟩, .text 0 "a"⟩]]⟩
    values := ⟨#[⟨.frame onlyFrame, .object 0, none, none⟩, ⟨.frame onlyFrame, .object 1, none, none⟩]⟩ }

/-- The array is emptied, and both are looked into. -/
def emptyChest : List Use :=
  [.write 0 (.element 0) .null, .enumerate 1, .enumerate 0, .replaceContent 1 .null]

/-- The elements of the array are listed in order, and the fields of the record but for the static
one. The array is given the same children again, though it was emptied since. -/
theorem childrenOf_entries_chest :
    ((childrenOf 0).run chest).1.map ((childrenOf 0).run chest).2.entry
        = [⟨"[0]", .element 0 0 .text, .text 0 "a"⟩, ⟨"[1]", .element 0 1 .text, .null⟩]
      ∧ (((childrenOf 1).run chest).1.map ((childrenOf 1).run chest).2.entry).Perm
        [⟨"y", .field 1 ⟨"y", .text, .isPublic, false, false⟩, .null⟩,
          ⟨"x", .field 1 ⟨"x", .text, .isPublic, false, true⟩, .text 0 "a"⟩]
      ∧ ((childrenOf 0).run (afterUses emptyChest ((childrenOf 0).run chest).2)).1
        = ((childrenOf 0).run chest).1 := by
  obtain ⟨harray, -, hkept⟩ := childrenOf_entries (h := chest) (v := 0) rfl
  obtain ⟨hrecord, -, -⟩ := childrenOf_entries (h := chest) (v := 1) rfl
  have hsized : (chest.objects.get 0).layout.IsSized := by
    change 2 < 2 ^ 64
    decide
  have hspared : Throughout (fun h u => u.Spares h 0) ((childrenOf 0).run chest).2 emptyChest :=
    ⟨⟨id, nofun⟩, ⟨id, nofun⟩, ⟨id, nofun⟩, ⟨nofun, nofun⟩, trivial⟩
  refine ⟨(harray 0 rfl).indexed hsized nofun, (hrecord 1 rfl).shown, ?_⟩
  rw [hkept emptyChest hspared]

end Looking

end DebugBridge
