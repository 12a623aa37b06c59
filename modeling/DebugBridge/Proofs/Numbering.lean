import DebugBridge.Proofs.Labels

/-!
# Display ids are given in order

A table of display ids is asked for numbers and cleared, in any order. What it holds then can be read off
what it was asked for since it was cleared last: the different strings and objects, each at its first
mention. The number of one of them is its place among these. The table derives a number from how many
numbers it has given, and keeps what it gave them to in a second list; the two lists are in step after
every use.

Numbers have 32 bits, so all this holds as long as there are no more different strings and objects
between two clearings than there are numbers.

## Main definitions

* `DisplayTable.Use`: a request for a number, or a clearing;
* `DisplayTable.span`: what was asked for since the last clearing;
* `DisplayTable.firsts`: the different strings and objects in the order of their first mention;
* `DisplayTable.Tallies`: a table that holds what was asked for.

## Main results

* `DisplayTable.Tallies.idOf`: an answered request leaves the table with what was asked for, and the
  answer is a place;
* `DisplayTable.numbered_in_order`: numbers, and what is kept, after any uses of a table.
-/

namespace DebugBridge

namespace DisplayTable

variable {t : DisplayTable} {asked : List Datum} {d d' : Datum} {k k' : Identity}

/-! ### Uses of a table -/

/-- A use of a table. -/
inductive Use where
  /-- Asks for the number of something. -/
  | ask (d : Datum)
  /-- Forgets all numbers. -/
  | clear
deriving DecidableEq

/-- The table after a use. -/
def after (t : DisplayTable) : Use → DisplayTable
  | .ask d => (t.idOf d).2
  | .clear => t.clear

/-- The table after some uses of a new one. -/
def afterAll (us : List Use) : DisplayTable :=
  us.foldl after ∅

/-- What was asked for since the last clearing. -/
def span (us : List Use) : List Datum :=
  us.foldl (fun asked use => match use with
    | .ask d => asked ++ [d]
    | .clear => []) []

/-- The different strings and objects among what was asked for, in the order of their first mention. -/
def firsts (asked : List Datum) : List Identity :=
  (asked.filterMap Datum.identity?).eraseDups

/-- The table after one more use is used once more. -/
theorem afterAll_concat (us : List Use) (u : Use) : afterAll (us ++ [u]) = (afterAll us).after u := by
  simp [afterAll]

/-- What is asked for comes last in the span. -/
@[simp] theorem span_concat_ask (us : List Use) (d : Datum) : span (us ++ [.ask d]) = span us ++ [d] := by
  simp [span]

/-- The span after a clearing is empty. -/
@[simp] theorem span_concat_clear (us : List Use) : span (us ++ [.clear]) = [] := by
  simp [span]

/-- Without a clearing in between, all that was asked for counts. -/
theorem span_append_asks (us : List Use) (asked : List Datum) :
    span (us ++ asked.map .ask) = span us ++ asked := by
  induction asked using List.reverseRecOn with
  | nil => simp
  | append_singleton asked d ih =>
      rw [List.map_append, List.map_singleton, ← List.append_assoc, span_concat_ask, ih, List.append_assoc]

/-! ### First mentions -/

/-- What has no identity is not mentioned. -/
theorem firsts_concat_of_plain (hd : d.identity? = none) (asked : List Datum) :
    firsts (asked ++ [d]) = firsts asked := by
  simp [firsts, List.filterMap_append, hd]

/-- A second mention changes nothing. -/
theorem firsts_concat_of_known (hd : d.identity? = some k) (hk : k ∈ firsts asked) :
    firsts (asked ++ [d]) = firsts asked := by
  have hmem : k ∈ asked.filterMap Datum.identity? := List.mem_eraseDups.mp hk
  have hnone : [k].removeAll (asked.filterMap Datum.identity?) = [] := by
    simpa [List.removeAll] using List.mem_filterMap.mp hmem
  rw [firsts, List.filterMap_append, List.eraseDups_append]
  simp [hd, hnone, firsts]

/-- A first mention comes after all others. -/
theorem firsts_concat_of_new (hd : d.identity? = some k) (hk : k ∉ firsts asked) :
    firsts (asked ++ [d]) = firsts asked ++ [k] := by
  have hmem : k ∉ asked.filterMap Datum.identity? := fun h => hk (List.mem_eraseDups.mpr h)
  have hone : [k].removeAll (asked.filterMap Datum.identity?) = [k] := by
    simpa [List.removeAll] using fun d hd heq => hmem (List.mem_filterMap.mpr ⟨d, hd, heq⟩)
  rw [firsts, List.filterMap_append, List.eraseDups_append]
  simp [hd, hone, firsts, List.eraseDups_cons]

/-- Nothing is mentioned first twice. -/
theorem nodup_firsts (asked : List Datum) : (firsts asked).Nodup := by
  induction asked using List.reverseRecOn with
  | nil => exact List.nodup_nil
  | append_singleton asked d ih =>
      cases hd : d.identity? with
      | none => rwa [firsts_concat_of_plain hd]
      | some k =>
          by_cases hk : k ∈ firsts asked
          · rwa [firsts_concat_of_known hd hk]
          · rw [firsts_concat_of_new hd hk]
            have hdisjoint : ∀ a ∈ firsts asked, ∀ b ∈ [k], a ≠ b := by
              intro a ha b hb hab
              rw [List.mem_singleton] at hb
              exact hk (hb ▸ hab ▸ ha)
            exact List.nodup_append.mpr ⟨ih, List.nodup_singleton k, hdisjoint⟩

/-- What is asked for is mentioned. -/
theorem mem_firsts_concat (hd : d.identity? = some k) (asked : List Datum) :
    k ∈ firsts (asked ++ [d]) := by
  by_cases hk : k ∈ firsts asked
  · rwa [firsts_concat_of_known hd hk]
  · simp [firsts_concat_of_new hd hk]

/-- Mentions stay where they are. -/
theorem prefix_firsts (asked more : List Datum) : firsts asked <+: firsts (asked ++ more) := by
  rw [firsts, firsts, List.filterMap_append, List.eraseDups_append]
  exact List.prefix_append _ _

/-- The place of a mention stays the same, whatever is asked for later. -/
theorem idxOf_firsts_append (hk : k ∈ firsts asked) (more : List Datum) :
    (firsts (asked ++ more)).idxOf k = (firsts asked).idxOf k := by
  obtain ⟨later, hlater⟩ := prefix_firsts asked more
  rw [← hlater, List.idxOf_append_of_mem hk]

/-! ### What the table holds -/

/-- A table that was asked for these, and not cleared since: it has the place of each first mention, and
keeps one of each. -/
structure Tallies (t : DisplayTable) (asked : List Datum) : Prop where
  ids : t.ids = (firsts asked).zipIdx
  kept : t.kept.map Datum.identity? = (firsts asked).map some

/-- An empty table was asked for nothing. -/
theorem tallies_empty : Tallies ∅ [] :=
  ⟨rfl, rfl⟩

/-- The number of a place, looked up. -/
theorem lookup_zipIdx (ks : List Identity) (k : Identity) (start : Nat) :
    (ks.zipIdx start).lookup k = if k ∈ ks then some (start + ks.idxOf k) else none := by
  induction ks generalizing start with
  | nil => rfl
  | cons k' ks ih =>
      by_cases hk : k = k'
      · simp [hk]
      · have hk' : (k == k') = false := by simpa using hk
        have hidx : (k' :: ks).idxOf k = ks.idxOf k + 1 := List.idxOf_cons_ne ks (Ne.symm hk)
        simp only [List.zipIdx_cons, List.lookup_cons, hk', ih, List.mem_cons, hk, false_or, hidx]
        split
        · congr 1
          omega
        · rfl

/-- A table finds an identity at the place of its first mention. -/
theorem Tallies.lookup (h : t.Tallies asked) (k : Identity) :
    t.ids.lookup k = if k ∈ firsts asked then some ((firsts asked).idxOf k) else none := by
  rw [h.ids, lookup_zipIdx]
  simp

/-- A request is answered with the place of the first mention, and the table has what was asked for. -/
theorem Tallies.idOf (h : t.Tallies asked) (hroom : (firsts (asked ++ [d])).length ≤ UInt32.size) :
    (t.idOf d).2.Tallies (asked ++ [d])
      ∧ (t.idOf d).1 = d.identity?.map fun k => (firsts (asked ++ [d])).idxOf k := by
  cases hd : d.identity? with
  | none =>
      rw [idOf_of_plain hd]
      exact ⟨⟨by rw [firsts_concat_of_plain hd, h.ids], by rw [firsts_concat_of_plain hd, h.kept]⟩, rfl⟩
  | some k =>
      by_cases hk : k ∈ firsts asked
      · have hfirsts := firsts_concat_of_known hd hk
        rw [idOf_of_known hd (by rw [h.lookup, if_pos hk])]
        exact ⟨⟨by rw [hfirsts, h.ids], by rw [hfirsts, h.kept]⟩, by rw [hfirsts]; rfl⟩
      · have hfirsts := firsts_concat_of_new hd hk
        have hlength : t.ids.length = (firsts asked).length := by rw [h.ids, List.length_zipIdx]
        -- There is a number left for the new one, and so no bit of it is lost.
        have hnumber : t.ids.length.toUInt32.toNat = (firsts asked).length := by
          rw [hfirsts, List.length_append, List.length_singleton] at hroom
          rw [hlength, Nat.toUInt32_eq, UInt32.toNat_ofNat']
          exact Nat.mod_eq_of_lt hroom
        rw [idOf_of_new hd (by rw [h.lookup, if_neg hk]), hnumber]
        refine ⟨⟨?_, ?_⟩, ?_⟩
        · rw [hfirsts, h.ids, List.zipIdx_append]
          simp
        · rw [hfirsts, List.map_append, List.map_append, h.kept]
          simp [hd]
        · rw [hfirsts, Option.map_some, List.idxOf_append_of_notMem hk]
          simp

/-- Uses that never ask for more different strings and objects than there are numbers, between two
clearings. -/
def Roomy (us : List Use) : Prop :=
  ∀ before, before <+: us → (firsts (span before)).length ≤ UInt32.size

/-- Uses leave room for numbers up to each of their moments. -/
theorem Roomy.of_prefix {us us' : List Use} (h : Roomy us) (hpre : us' <+: us) : Roomy us' :=
  fun before hbefore => h before (hbefore.trans hpre)

/-- A table holds what it was asked for since it was cleared. -/
theorem tallies_afterAll {us : List Use} (hroom : Roomy us) : (afterAll us).Tallies (span us) := by
  induction us using List.reverseRecOn with
  | nil => exact tallies_empty
  | append_singleton us u ih =>
      have hbefore := ih (hroom.of_prefix (List.prefix_append us [u]))
      rw [afterAll_concat]
      cases u with
      | ask d =>
          have hall := hroom _ (List.prefix_refl _)
          rw [span_concat_ask] at hall ⊢
          exact (hbefore.idOf hall).1
      | clear =>
          rw [span_concat_clear]
          exact tallies_empty

/-- The answer to a request is the place of the first mention. -/
theorem answer_eq {us : List Use} (hroom : Roomy (us ++ [.ask d])) (hd : d.identity? = some k) :
    ((afterAll us).idOf d).1 = some ((firsts (span us ++ [d])).idxOf k) := by
  have hall := hroom _ (List.prefix_refl _)
  rw [span_concat_ask] at hall
  rw [((tallies_afterAll (hroom.of_prefix (List.prefix_append us _))).idOf hall).2, hd]
  rfl

/-- Two requests without a clearing in between have one answer exactly if they are for one string or
object. -/
theorem answers_eq_iff {us : List Use} {between : List Datum}
    (hroom : Roomy (us ++ .ask d :: between.map .ask ++ [.ask d'])) (hd : d.identity? = some k)
    (hd' : d'.identity? = some k') :
    ((afterAll us).idOf d).1 = ((afterAll (us ++ .ask d :: between.map .ask)).idOf d').1 ↔ k = k' := by
  have hspan : span (us ++ .ask d :: between.map .ask) = span us ++ [d] ++ between := by
    have hasks : us ++ .ask d :: between.map .ask = us ++ (d :: between).map .ask := rfl
    rw [hasks, span_append_asks, List.append_assoc, List.singleton_append]
  have hfirst : us ++ [.ask d] <+: us ++ .ask d :: between.map .ask ++ [.ask d'] :=
    ⟨between.map .ask ++ [.ask d'], by simp⟩
  have hmem := mem_firsts_concat hd (span us)
  have hstays : (firsts (span us ++ [d])).idxOf k
      = (firsts (span us ++ [d] ++ (between ++ [d']))).idxOf k :=
    (idxOf_firsts_append hmem _).symm
  rw [answer_eq (hroom.of_prefix hfirst) hd, answer_eq hroom hd', hspan, hstays, Option.some.injEq,
    ← List.append_assoc]
  exact List.idxOf_inj ((prefix_firsts _ _).subset ((prefix_firsts _ _).subset hmem))

/-- A table that is asked for numbers and cleared, in any order, gives them in order. After every use it
has the place of each string and object, at its first mention since the last clearing, and keeps one of
each. Null and scalars have no number and leave the table alone; a string or object has the number of its
place. Two requests without a clearing in between have one answer exactly if they are for one string or
object, whatever the texts are. -/
theorem numbered_in_order (us : List Use) (hroom : Roomy us) :
    (∀ before, before <+: us → (firsts (span before)).Nodup
      ∧ (afterAll before).ids = (firsts (span before)).zipIdx
      ∧ (afterAll before).kept.map Datum.identity? = (firsts (span before)).map some)
    ∧ (∀ before d, before ++ [.ask d] <+: us →
      ((d.isNull ∨ d.isScalar) → (afterAll before).idOf d = (none, afterAll before))
      ∧ ∀ k, d.identity? = some k → ∃ n, ((afterAll before).idOf d).1 = some n
        ∧ (firsts (span (before ++ [.ask d])))[n]? = some k)
    ∧ ∀ (before : List Use) (d : Datum) (between : List Datum) (d' : Datum) (k k' : Identity),
      before ++ .ask d :: between.map .ask ++ [.ask d'] <+: us →
      d.identity? = some k → d'.identity? = some k' →
      (((afterAll before).idOf d).1 = ((afterAll (before ++ .ask d :: between.map .ask)).idOf d').1
        ↔ k = k') := by
  refine ⟨fun before hbefore => ?_, fun before d hbefore => ⟨fun hplain => ?_, fun k hd => ?_⟩,
    fun before d between d' k k' hbefore hd hd' => ?_⟩
  · have htallies := tallies_afterAll (hroom.of_prefix hbefore)
    exact ⟨nodup_firsts _, htallies.ids, htallies.kept⟩
  · refine idOf_of_plain ?_ _
    cases d with
    | null => rfl
    | scalar value => rfl
    | text id content => simp [Datum.isNull, Datum.isScalar] at hplain
    | object id => simp [Datum.isNull, Datum.isScalar] at hplain
  · refine ⟨_, answer_eq (hroom.of_prefix hbefore) hd, ?_⟩
    rw [span_concat_ask]
    exact List.getElem?_idxOf (mem_firsts_concat hd _)
  · exact answers_eq_iff (hroom.of_prefix hbefore) hd hd'

/-- Two strings of one text, with a number, an object and a clearing among them. -/
def mixedUses : List Use :=
  [.ask (.text 0 "a"), .ask (.scalar (.bool true)), .ask (.object 0), .ask (.text 1 "a"), .ask .null,
    .ask (.text 0 "a"), .clear, .ask (.text 1 "a"), .ask (.text 0 "a")]

/-- The second string of one text is third before the clearing and first after it. It has another
number than the first string, and one of each is kept that was asked for since. -/
theorem numbered_in_order_mixedUses :
    ((afterAll (mixedUses.take 3)).idOf (.text 1 "a")).1 = some 2
      ∧ ((afterAll (mixedUses.take 7)).idOf (.text 1 "a")).1 = some 0
      ∧ (((afterAll []).idOf (.text 0 "a")).1
          = ((afterAll (mixedUses.take 3)).idOf (.text 1 "a")).1 ↔ False)
      ∧ (afterAll mixedUses).kept.length = 2 := by
  have hroom : Roomy mixedUses := by
    intro before hbefore
    have hall : ∀ before ∈ mixedUses.inits, (firsts (span before)).length ≤ UInt32.size := by decide
    exact hall before ((List.mem_inits _ _).mpr hbefore)
  obtain ⟨hheld, hanswered, hsame⟩ := numbered_in_order mixedUses hroom
  refine ⟨?_, ?_, ?_, ?_⟩
  · obtain ⟨n, hn, hplace⟩ := (hanswered (mixedUses.take 3) (.text 1 "a") (by decide)).2 _ rfl
    have hfirsts : firsts (span (mixedUses.take 3 ++ [.ask (.text 1 "a")]))
        = [.text 0, .object 0, .text 1] := by decide
    rw [hfirsts] at hplace
    rw [hn, Option.some.injEq]
    match n, hplace with
    | 2, _ => rfl
  · rfl
  · have hne := hsame [] (.text 0 "a") [.scalar (.bool true), .object 0] (.text 1 "a") _ _ (by decide)
      rfl rfl
    exact hne.trans (by decide)
  · have hkept := congrArg List.length (hheld mixedUses (List.prefix_refl _)).2.2
    rw [List.length_map, List.length_map] at hkept
    rw [hkept]
    decide

end DisplayTable

end DebugBridge
