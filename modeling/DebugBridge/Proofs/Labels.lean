import DebugBridge.Proofs.Belonging

/-!
# Display ids tell strings and objects apart

A session shows a string or an object by a label and the number that it gave to it: the text in quotes,
or the name of the type, and then the number in brackets. Labels say little. Two objects of one type
have the same one, and a text may contain whatever looks like a number in brackets. But the number
stands at the very end, so that it can be read back, and no two strings or objects that a session knows
have one number. What is shown for a variable therefore changes exactly when the variable takes another
string or object, whatever that contains.

Numbers have 32 bits. A session that knows so many things that they are used up starts again at zero.

## Main definitions

* `DisplayTable.askAll`: the table of a session that showed some things before;
* `DisplayTable.Counted`: every string and object has the number of its place;
* `Heap.textOf`: what is shown for a value, in a session;
* `Heap.Recalls`: a later heap, in which the same is shown;
* `Heap.label`: what is shown in front of the number.

## Main results

* `number_unique`: the number can be read off what is shown;
* `DisplayTable.Counted.idOf_ne`: different strings and objects have different numbers;
* `Heap.Recalls.textOf`: what was shown once is shown again;
* `changed_replaceValue_iff`: a variable counts as changed if it takes another string or object.
-/

namespace DebugBridge

/-! ### Numbers at the end of a text -/

/-- The digits at the end of a text, up to the bracket that follows them. -/
def lastDigits (text : String) : List Char :=
  (text.toList.reverse.drop 1).takeWhile (· ≠ '=')

/-- The digits at the end of a label with a number are those of the number. -/
theorem lastDigits_append (label : String) (n : Nat) :
    lastDigits (label ++ " (id=" ++ toString n ++ ")") = (Nat.toDigits 10 n).reverse := by
  have hdigits : ∀ c ∈ (Nat.toDigits 10 n).reverse, decide (c ≠ '=') = true := by
    intro c hc
    have hdigit : c.isDigit = true :=
      Nat.isDigit_of_mem_toDigits (by omega) (by omega) (List.mem_reverse.mp hc)
    have hne : c ≠ '=' := by
      rintro rfl
      exact absurd hdigit (by decide)
    simpa using hne
  have htext : (label ++ " (id=" ++ toString n ++ ")").toList.reverse.drop 1
      = (Nat.toDigits 10 n).reverse ++ '=' :: (label.toList ++ [' ', '(', 'i', 'd']).reverse := by
    simp
  rw [lastDigits, htext, List.takeWhile_append_of_pos hdigits]
  simp

/-- The number can be read off the end of a text, whatever stands in front of it. -/
theorem number_unique {label label' : String} {n n' : Nat}
    (h : label ++ " (id=" ++ toString n ++ ")" = label' ++ " (id=" ++ toString n' ++ ")") :
    n = n' := by
  have hdigits : Nat.toDigits 10 n = Nat.toDigits 10 n' := by
    have hlast := congrArg lastDigits h
    rw [lastDigits_append, lastDigits_append] at hlast
    exact List.reverse_inj.mp hlast
  calc n = Nat.ofDigitChars 10 (Nat.toDigits 10 n) 0 := Nat.ofDigitChars_ten_toDigits.symm
    _ = Nat.ofDigitChars 10 (Nat.toDigits 10 n') 0 := by rw [hdigits]
    _ = n' := Nat.ofDigitChars_ten_toDigits

/-! ### Tables of numbers -/

namespace DisplayTable

variable {t t' t'' : DisplayTable} {d d' : Datum} {k k' : Identity} {n : Nat}

/-- A later table, in which every string and object has the number that it had. -/
def Grows (t t' : DisplayTable) : Prop :=
  ∀ k n, t.ids.lookup k = some n → t'.ids.lookup k = some n

/-- A table grows out of itself. -/
theorem Grows.refl (t : DisplayTable) : t.Grows t :=
  fun _ _ h => h

/-- What grows out of a table that grew out of a third grew out of that. -/
theorem Grows.trans (h : t.Grows t') (h' : t'.Grows t'') : t.Grows t'' :=
  fun k n hk => h' k n (h k n hk)

/-- What is no string and no object has no number. -/
theorem idOf_of_plain (hd : d.identity? = none) (t : DisplayTable) : t.idOf d = (none, t) := by
  simp [idOf, hd]

/-- What has a number is given that again. -/
theorem idOf_of_known (hd : d.identity? = some k) (hk : t.ids.lookup k = some n) :
    t.idOf d = (some n, t) := by
  simp [idOf, hd, hk]

/-- What has no number is given the next one. -/
theorem idOf_of_new (hd : d.identity? = some k) (hk : t.ids.lookup k = none) :
    t.idOf d = (some t.ids.length.toUInt32.toNat,
      ⟨t.ids ++ [(k, t.ids.length.toUInt32.toNat)], t.kept ++ [d]⟩) := by
  simp [idOf, hd, hk]

/-- A table knows the number that it gave. -/
theorem lookup_idOf (hd : d.identity? = some k) (t : DisplayTable) :
    ∃ n, (t.idOf d).1 = some n ∧ (t.idOf d).2.ids.lookup k = some n := by
  cases hk : t.ids.lookup k with
  | some n => exact ⟨n, by simp [idOf_of_known hd hk], by simp [idOf_of_known hd hk, hk]⟩
  | none =>
      rw [idOf_of_new hd hk]
      exact ⟨_, rfl, by simp [List.lookup_append, hk]⟩

/-- A table grows when it is asked for a number. -/
theorem grows_idOf (t : DisplayTable) (d : Datum) : t.Grows (t.idOf d).2 := by
  intro k n hk
  cases hd : d.identity? with
  | none => simpa [idOf_of_plain hd] using hk
  | some k' =>
      cases hk' : t.ids.lookup k' with
      | some n' => simpa [idOf_of_known hd hk'] using hk
      | none => simp [idOf_of_new hd hk', List.lookup_append, hk]

/-- Whoever asks again gets the same number, and the table stays as it is. -/
theorem Grows.idOf_again (h : Grows (t.idOf d).2 t') : t'.idOf d = ((t.idOf d).1, t') := by
  cases hd : d.identity? with
  | none => rw [idOf_of_plain hd, idOf_of_plain hd]
  | some k =>
      obtain ⟨n, hn, hk⟩ := lookup_idOf hd t
      rw [hn, idOf_of_known hd (h k n hk)]

/-- The table of a session that was asked for the numbers of some things before. -/
def askAll (asked : List Datum) : DisplayTable :=
  asked.foldl (fun t d => (t.idOf d).2) ∅

/-- Every string and object has the number of its place, as far as 32 bits go. -/
structure Counted (t : DisplayTable) : Prop where
  distinct : (t.ids.map Prod.fst).Nodup
  numbered : ∀ (i : Nat) (e : Identity × Nat), t.ids[i]? = some e → e.2 = i.toUInt32.toNat

/-- A table that was never asked is counted. -/
theorem counted_empty : Counted ∅ :=
  ⟨List.nodup_nil, by simp [EmptyCollection.emptyCollection]⟩

/-- A counted table is counted after it was asked. -/
theorem Counted.idOf (h : t.Counted) (d : Datum) : (t.idOf d).2.Counted := by
  cases hd : d.identity? with
  | none => simpa [idOf_of_plain hd] using h
  | some k =>
      cases hk : t.ids.lookup k with
      | some n => simpa [idOf_of_known hd hk] using h
      | none =>
          rw [idOf_of_new hd hk]
          constructor
          · have hnew : k ∉ t.ids.map Prod.fst := by
              intro hmem
              obtain ⟨e, he, rfl⟩ := List.mem_map.mp hmem
              simpa using List.lookup_eq_none_iff.mp hk e he
            simpa [List.nodup_append, h.distinct] using fun a b hmem hak => hnew (by
              rw [← hak]
              exact List.mem_map_of_mem hmem)
          · intro i e he
            rcases Nat.lt_trichotomy i t.ids.length with hi | rfl | hi
            · rw [List.getElem?_append_left hi] at he
              exact h.numbered i e he
            · simp at he
              simp [← he]
            · have hlong : (t.ids ++ [(k, t.ids.length.toUInt32.toNat)]).length ≤ i := by
                simpa using Nat.succ_le_of_lt hi
              rw [List.getElem?_eq_none hlong] at he
              cases he

/-- A table that was asked for some things is counted. -/
theorem counted_askAll (asked : List Datum) : (askAll asked).Counted := by
  have hall : ∀ (asked : List Datum) (t : DisplayTable), t.Counted →
      (asked.foldl (fun t d => (t.idOf d).2) t).Counted := by
    intro asked
    induction asked with
    | nil => exact fun _ h => h
    | cons d asked ih => exact fun t h => ih _ (h.idOf d)
  exact hall asked ∅ counted_empty

/-- The number of a string or object is that of its place. -/
theorem Counted.place (h : t.Counted) (hk : t.ids.lookup k = some n) :
    ∃ i < t.ids.length, t.ids[i]? = some (k, n) ∧ n = i.toUInt32.toNat := by
  obtain ⟨before, after, hids, -⟩ := List.lookup_eq_some_iff.mp hk
  have hplace : t.ids[before.length]? = some (k, n) := by simp [hids]
  exact ⟨before.length, by simp [hids], hplace, h.numbered _ _ hplace⟩

/-- Places have different numbers, except that the one behind the last number starts again. -/
theorem number_ne {i j : Nat} (hij : i < j) (hj : j < UInt32.size ∨ j = UInt32.size ∧ 0 < i) :
    i.toUInt32.toNat ≠ j.toUInt32.toNat := by
  simp only [Nat.toUInt32_eq, UInt32.toNat_ofNat', UInt32.size] at hj ⊢
  omega

/-- Different strings and objects have different numbers, as long as there are numbers left. -/
theorem Counted.idOf_ne (h : t.Counted) (hroom : t.ids.length < UInt32.size) (hd : d.identity? = some k)
    (hd' : d'.identity? = some k') (hne : k ≠ k') : (t.idOf d).1 ≠ ((t.idOf d).2.idOf d').1 := by
  cases hk : t.ids.lookup k with
  | some n =>
      obtain ⟨i, hi, hplace, rfl⟩ := h.place hk
      rw [idOf_of_known hd hk]
      cases hk' : t.ids.lookup k' with
      | some n' =>
          obtain ⟨i', hi', hplace', rfl⟩ := h.place hk'
          rw [idOf_of_known hd' hk']
          have hplaces : i ≠ i' := by
            rintro rfl
            rw [hplace] at hplace'
            exact hne (congrArg Prod.fst (Option.some.inj hplace'))
          rcases Nat.lt_or_gt_of_ne hplaces with hlt | hlt
          · simpa using number_ne hlt (.inl (Nat.lt_trans hi' hroom))
          · simpa using (number_ne hlt (.inl (Nat.lt_trans hi hroom))).symm
      | none =>
          rw [idOf_of_new hd' hk']
          simpa using number_ne hi (.inl hroom)
  | none =>
      -- The first of the two is new, and so it has the last of the places.
      have hlast : (t.ids ++ [(k, t.ids.length.toUInt32.toNat)]).lookup k' = t.ids.lookup k' := by
        have hother : List.lookup k' [(k, t.ids.length.toUInt32.toNat)] = none := by
          simp [List.lookup_eq_none_iff, hne.symm]
        rw [List.lookup_append, hother, Option.or_none]
      rw [idOf_of_new hd hk]
      cases hk' : t.ids.lookup k' with
      | some n' =>
          obtain ⟨i', hi', -, rfl⟩ := h.place hk'
          rw [idOf_of_known hd' (hlast.trans hk')]
          simpa using (number_ne hi' (.inl hroom)).symm
      | none =>
          rw [idOf_of_new hd' (hlast.trans hk')]
          have hnext : t.ids.length.toUInt32.toNat ≠ (t.ids.length + 1).toUInt32.toNat := by
            refine number_ne (Nat.lt_succ_self _) ?_
            simp only [UInt32.size] at hroom ⊢
            omega
          simpa using hnext

end DisplayTable

/-! ### What is shown -/

namespace Heap

variable {h h' h'' : Heap} {v : ValueId} {d : Datum} {session : Option Nat}

/-- What is shown for a value, in a session. -/
def textOf (h : Heap) (session : Option Nat) (v : ValueId) : String :=
  (h.values.get v).rendered.getD ((datumText session (h.values.get v).raw).run h).1

/-- A later heap, in which the same is shown: the contents are the same, and what had a number still
has it. -/
structure Recalls (h h' : Heap) : Prop where
  objects : h'.objects = h.objects
  raw : ∀ v, (h'.values.get v).raw = (h.values.get v).raw
  rendered : ∀ v, (h'.values.get v).rendered = (h.values.get v).rendered
  displays : ∀ s, (h.displays.get s).Grows (h'.displays.get s)

/-- In a heap the same is shown as in itself. -/
theorem Recalls.refl (h : Heap) : h.Recalls h :=
  ⟨rfl, fun _ => rfl, fun _ => rfl, fun _ => .refl _⟩

/-- What is shown the same over two steps is shown the same. -/
theorem Recalls.trans (hr : h.Recalls h') (hr' : h'.Recalls h'') : h.Recalls h'' :=
  ⟨hr'.objects.trans hr.objects, fun v => (hr'.raw v).trans (hr.raw v),
    fun v => (hr'.rendered v).trans (hr.rendered v),
    fun s => (hr.displays s).trans (hr'.displays s)⟩

/-- What belongs to whom does not matter to what is shown in a session. -/
theorem Adopts.recalls {p : Parent} {xs : Set VariableId} {vs : Set ValueId}
    (ha : Adopts p xs vs h h') : h.Recalls h' := by
  refine ⟨ha.objects, fun v => ?_, fun v => ?_, fun s => ?_⟩
  · obtain ⟨q, hv⟩ := ha.value v
    rw [hv]
  · obtain ⟨q, hv⟩ := ha.value v
    rw [hv]
  · rw [ha.displays]
    exact .refl _

/-- Numbers do not depend on variables. -/
theorem recalls_modifyVariable (h : Heap) (x : VariableId) (f : Variable → Variable) :
    h.Recalls ((modifyVariable x f).run h).2 :=
  ⟨rfl, fun _ => rfl, fun _ => rfl, fun _ => .refl _⟩

/-- Whoever shows something gives out a number at most. -/
theorem recalls_datumText (session : Option Nat) (d : Datum) (h : Heap) :
    h.Recalls ((datumText session d).run h).2 := by
  have hid : h.Recalls ((displayId session d).run h).2 := by
    cases session with
    | none => exact .refl h
    | some s =>
        refine ⟨rfl, fun _ => rfl, fun _ => rfl, fun s' => ?_⟩
        change (h.displays.get s').Grows ((h.displays.set s ((h.displays.get s).idOf d).2).get s')
        rw [Arena.get_set]
        split
        · next hs => exact hs ▸ DisplayTable.grows_idOf _ d
        · exact .refl _
  cases d with
  | null => exact .refl h
  | scalar value => exact .refl h
  | text id content => exact hid
  | object id => exact hid

/-- A value is shown by the text that it has for that, or else by its content. -/
theorem run_valueText (reach : Parent → Option Nat) (v : ValueId) (h : Heap) :
    (valueText reach v).run h = match (h.values.get v).rendered with
      | some text => (text, h)
      | none => (datumText (reach (h.values.get v).parent) (h.values.get v).raw).run h := by
  simp only [valueText, StateT.run, Bind.bind, StateT.bind, get, getThe, MonadStateOf.get, StateT.get,
    Pure.pure]
  cases (h.values.get v).rendered with
  | some text => rfl
  | none => rfl

/-- What was shown before a value is shown the same after. -/
theorem recalls_valueText (reach : Parent → Option Nat) (v : ValueId) (h : Heap) :
    h.Recalls ((valueText reach v).run h).2 := by
  rw [run_valueText]
  cases (h.values.get v).rendered with
  | some text => exact .refl h
  | none => exact recalls_datumText _ _ h

/-- What was shown once is shown again. -/
theorem Recalls.datumText_again (hr : ((datumText session d).run h).2.Recalls h') :
    ((datumText session d).run h').1 = ((datumText session d).run h).1 := by
  have hid : ((displayId session d).run h).2.Recalls h' →
      ((displayId session d).run h').1 = ((displayId session d).run h).1 := by
    intro hr
    cases session with
    | none => rfl
    | some s =>
        have hgrows : ((h.displays.get s).idOf d).2.Grows (h'.displays.get s) := by
          have hs := hr.displays s
          change ((h.displays.set s ((h.displays.get s).idOf d).2).get s).Grows _ at hs
          rwa [Arena.get_set_self] at hs
        change (((h'.displays.get s).idOf d).1.map toString).getD "" = _
        rw [hgrows.idOf_again]
        rfl
  cases d with
  | null => rfl
  | scalar value => rfl
  | text n content =>
      change "\"" ++ content ++ "\" (id=" ++ ((displayId session (.text n content)).run h').1 ++ ")" = _
      rw [hid hr]
      rfl
  | object n =>
      change (h'.objects.get n).heading ++ " (id=" ++ ((displayId session (.object n)).run h').1 ++ ")" = _
      rw [hid hr, hr.objects]
      cases session <;> rfl

/-- A value is shown again as it was shown. -/
theorem Recalls.textOf (reach : Parent → Option Nat) (hr : ((valueText reach v).run h).2.Recalls h') :
    ((valueText reach v).run h).1 = h'.textOf (reach (h.values.get v).parent) v := by
  have hfirst := recalls_valueText reach v h
  rw [Heap.textOf, (hfirst.trans hr).raw, (hfirst.trans hr).rendered]
  rw [run_valueText] at hr ⊢
  cases hrendered : (h.values.get v).rendered with
  | some text => rfl
  | none =>
      rw [hrendered] at hr
      exact hr.datumText_again.symm

/-! ### Strings and objects -/

/-- What is shown in front of the number of a string or object. -/
def label (h : Heap) : Datum → String
  | .text _ content => "\"" ++ content ++ "\""
  | .object id => (h.objects.get id).heading
  | .scalar _ => ""
  | .null => ""

/-- A string or object is shown by its label and its number. -/
theorem run_datumText_of_identity {k : Identity} (s : Nat) (hd : d.identity? = some k) (h : Heap) :
    ∃ n, ((h.displays.get s).idOf d).1 = some n
      ∧ (datumText (some s) d).run h = (h.label d ++ " (id=" ++ toString n ++ ")",
        { h with displays := h.displays.set s ((h.displays.get s).idOf d).2 }) := by
  obtain ⟨n, hn, -⟩ := DisplayTable.lookup_idOf hd (h.displays.get s)
  have hid : (displayId (some s) d).run h = (toString n,
      { h with displays := h.displays.set s ((h.displays.get s).idOf d).2 }) := by
    change ((((h.displays.get s).idOf d).1.map toString).getD "", _) = _
    rw [hn]
    rfl
  refine ⟨n, hn, ?_⟩
  cases d with
  | null => cases hd
  | scalar value => cases hd
  | text id content =>
      have hquote : "\" (id=" = "\"" ++ " (id=" := by decide
      rw [datumText, run_bind_heap hid, hquote, ← String.append_assoc]
      rfl
  | object id =>
      have hget : (get : HeapM Heap).run h = (h, h) := rfl
      rw [datumText, run_bind_heap hget, run_bind_heap hid]
      rfl

/-- Two strings or objects that are shown one after the other look different, unless they are one. -/
theorem datumText_ne_iff {d' : Datum} {k k' : Identity} {s : Nat} (hc : (h.displays.get s).Counted)
    (hroom : (h.displays.get s).ids.length < UInt32.size) (hd : d.identity? = some k)
    (hd' : d'.identity? = some k') (hone : k = k' → d = d') :
    ((datumText (some s) d).run h).1
      ≠ ((datumText (some s) d').run ((datumText (some s) d).run h).2).1 ↔ k ≠ k' := by
  constructor
  · rintro hne rfl
    obtain rfl := hone rfl
    exact hne (Recalls.refl _).datumText_again.symm
  · intro hne heq
    obtain ⟨n, hn, hrun⟩ := run_datumText_of_identity s hd h
    obtain ⟨n', hn', hrun'⟩ := run_datumText_of_identity s hd' ((datumText (some s) d).run h).2
    rw [hrun', hrun] at heq
    rw [hrun, Arena.get_set_self] at hn'
    obtain rfl : n = n' := number_unique heq
    exact hc.idOf_ne hroom hd hd' hne (hn.trans hn'.symm)

end Heap

/-- A variable that takes a string or object instead of another one counts as changed exactly if they
are not one and the same. The session may have shown anything before, and labels may contain what looks
like a number. It must not have run out of numbers. (What is one string has one text; that is all that
the last hypothesis asks for.) -/
theorem changed_replaceValue_iff (reach : Parent → Option Nat) {h : Heap} {x : VariableId} {v : ValueId}
    {old new : Value} {s : Nat} {asked : List Datum}
    (hold : h.values.get (h.bindings.get x).value = old) (hnew : h.values.get v = new)
    (hshared : old.parent = (h.bindings.get x).parent)
    (hreach : reach (h.bindings.get x).parent = some s)
    (hasked : h.displays.get s = .askAll asked) (hroom : (h.displays.get s).ids.length < UInt32.size)
    (hidentity : old.raw.identity?.isSome) (hidentity' : new.raw.identity?.isSome)
    (hplain : old.rendered = none) (hplain' : new.rendered = none)
    (hone : old.raw.identity? = new.raw.identity? → old.raw = new.raw) :
    (((replaceValue reach x v).run h).2.bindings.get x).changed = true
      ↔ old.raw.identity? ≠ new.raw.identity? := by
  obtain ⟨k, hk⟩ := Option.isSome_iff_exists.mp hidentity
  obtain ⟨k', hk'⟩ := Option.isSome_iff_exists.mp hidentity'
  let h₁ := ((moveValue v (h.bindings.get x).parent).run h).2
  have hmoved : h.Adopts (h.bindings.get x).parent _ _ h₁ := h.adopts_moveValue _ v
  have hsame : h₁.displays.get s = h.displays.get s := by
    rw [hmoved.displays]
  -- Both values belong to the parent of the variable when they are shown.
  have hshown : (valueText reach (h.bindings.get x).value).run h₁
      = (datumText (some s) old.raw).run h₁ := by
    have hvalue := hmoved.value_eq (.inr (hold ▸ hshared))
    rw [hold] at hvalue
    simp [Heap.run_valueText, hvalue, hplain, hreach]
  let h₂ := ((datumText (some s) old.raw).run h₁).2
  have hreplaced : (valueText reach v).run h₂ = (datumText (some s) new.raw).run h₂ := by
    have hvalues : h₂.values = h₁.values := by
      have hkept := (heap_valueText reach (h.bindings.get x).value h₁).2
      rwa [hshown] at hkept
    have hvalue := hmoved.value_eq (.inl (Set.mem_insert v _))
    rw [hnew, ← hvalues] at hvalue
    simp [Heap.run_valueText, hvalue, hplain', hreach]
  have hdiffer := Heap.datumText_ne_iff (hsame ▸ hasked ▸ DisplayTable.counted_askAll asked)
    (hsame ▸ hroom) hk hk' (by rwa [hk, hk', Option.some.injEq] at hone)
  have hidentities : some k ≠ some k' ↔ k ≠ k' := by simp
  rw [Heap.run_replaceValue reach x v rfl hshown hreplaced, Heap.binding_modifyVariable, if_pos rfl, hk,
    hk', hidentities]
  exact bne_iff_ne.trans hdiffer

/-- A variable that holds a string, and another string of the same text. -/
def twins : Heap :=
  { texts := 2
    objects := ∅
    values := ⟨#[⟨.target 0, .text 0 "a (id=3)", none, none⟩,
      ⟨.detached, .text 1 "a (id=3)", none, none⟩]⟩
    bindings := ⟨#[⟨"s", .binding none, .target 0, 0, false⟩]⟩
    displays := ∅ }

/-- Two strings with one text are told apart, so that the variable shows a change. -/
theorem changed_replaceValue_of_twins :
    (((replaceValue (fun _ => some 0) 0 1).run twins).2.bindings.get 0).changed = true := by
  have hasked : twins.displays.get 0 = .askAll [] := rfl
  refine (changed_replaceValue_iff (fun _ => some 0) rfl rfl rfl rfl hasked ?_ rfl rfl rfl rfl ?_).mpr ?_
  · decide
  · decide
  · decide

end DebugBridge
