import DebugBridge.Data.SlotType
import DebugBridge.Proofs.Names
import Mathlib

/-!
# What expressions are read

The integer types accept the signed decimal numerals of their range and nothing else: neither white space
nor a separator, but any number of leading zeros. The character type accepts the texts of one character.
Every text is read as a truth value and as a string. Where an expression is refused, the failure names the
expression and the type. All that is written of an integer, a character or a truth value is read back as
what it was.

## Main definitions

* `Number.IsDigits`, `Number.IsNumeral`: the decimal numerals and their values;
* `SlotType.IsCaseVariant`: a word in any mixture of cases.

## Main results

* `Number.integer?_eq_some_iff`: the integers are read from the numerals;
* `SlotType.exists_convert_whole_iff`, `SlotType.convert_char_eq_ok_iff`: what is accepted;
* `SlotType.convert_eq_ok_or_error`: what a refusal says;
* `SlotType.convert_text_whole`: what was written of an integer is read back;
* `SlotType.reads_exactly`: all of this together.
-/

namespace DebugBridge

namespace Number

/-! ### The numerals -/

/-- At least one ASCII digit, and nothing else, with the value of the digits. -/
def IsDigits (cs : List Char) (n : Nat) : Prop :=
  cs ≠ [] ∧ (∀ c ∈ cs, c.isDigit = true) ∧ n = Nat.ofDigitChars 10 cs 0

/-- A run of digits, perhaps after one sign, with its value. -/
inductive IsNumeral : List Char → Int → Prop where
  | plain {cs : List Char} {n : Nat} (h : IsDigits cs n) : IsNumeral cs n
  | plus {cs : List Char} {n : Nat} (h : IsDigits cs n) : IsNumeral ('+' :: cs) n
  | minus {cs : List Char} {n : Nat} (h : IsDigits cs n) : IsNumeral ('-' :: cs) (-n)

/-- A character that is read as a digit is one. -/
theorem isDigit_of_digit? {c : Char} {d : Nat} (h : digit? c = some d) : c.isDigit = true := by
  unfold digit? at h
  split at h
  · next hrange => simpa [Char.isDigit, Char.le_def] using hrange
  · cases h

/-- Characters that are read as digits are digits. -/
theorem isDigit_of_appendDigits? {cs : List Char} {n m : Nat} (h : appendDigits? n cs = some m) :
    ∀ c ∈ cs, c.isDigit = true := by
  induction cs generalizing n with
  | nil => exact List.forall_mem_nil _
  | cons c cs ih =>
      obtain ⟨d, hd, hrest⟩ := Option.bind_eq_some_iff.mp h
      exact List.forall_mem_cons.mpr ⟨isDigit_of_digit? hd, ih hrest⟩

/-- A text is read as a number just if it is made of digits, by their value. -/
theorem digits?_eq_some_iff {cs : List Char} {n : Nat} : digits? cs = some n ↔ IsDigits cs n := by
  cases cs with
  | nil =>
      constructor
      · intro h
        cases h
      · rintro ⟨hne, -⟩
        exact absurd rfl hne
  | cons c cs =>
      rw [digits?]
      constructor
      · intro h
        have hdigits := isDigit_of_appendDigits? h
        rw [appendDigits?_of_isDigit hdigits] at h
        exact ⟨List.cons_ne_nil _ _, hdigits, (Option.some.inj h).symm⟩
      · rintro ⟨-, hdigits, rfl⟩
        exact appendDigits?_of_isDigit hdigits 0

/-- A sign is no digit. -/
theorem IsDigits.head_ne {c : Char} {cs : List Char} {n : Nat} (h : IsDigits (c :: cs) n) :
    c ≠ '+' ∧ c ≠ '-' := by
  have hc := h.2.1 c List.mem_cons_self
  constructor
  · rintro rfl
    cases hc
  · rintro rfl
    cases hc

/-- A plus in front of digits says nothing. -/
theorem integer?_plus (cs : List Char) : integer? ('+' :: cs) = (digits? cs).map Int.ofNat := by
  rw [integer?]
  cases digits? cs <;> rfl

/-- A minus in front of digits turns the number over. -/
theorem integer?_minus (cs : List Char) :
    integer? ('-' :: cs) = (digits? cs).map fun n => -Int.ofNat n := by
  rw [integer?]
  cases digits? cs <;> rfl

/-- Without a sign the digits are the number. -/
theorem integer?_plain {cs : List Char} (hplus : ∀ rest, cs ≠ '+' :: rest)
    (hminus : ∀ rest, cs ≠ '-' :: rest) : integer? cs = (digits? cs).map Int.ofNat := by
  rw [integer?]
  · cases digits? cs <;> rfl
  · exact hplus
  · exact hminus

/-- The integers are read from the numerals, and from nothing else. -/
theorem integer?_eq_some_iff {cs : List Char} {z : Int} : integer? cs = some z ↔ IsNumeral cs z := by
  constructor
  · intro h
    by_cases hplus : ∃ rest, cs = '+' :: rest
    · obtain ⟨rest, rfl⟩ := hplus
      rw [integer?_plus] at h
      obtain ⟨n, hn, rfl⟩ := Option.map_eq_some_iff.mp h
      exact .plus (digits?_eq_some_iff.mp hn)
    · by_cases hminus : ∃ rest, cs = '-' :: rest
      · obtain ⟨rest, rfl⟩ := hminus
        rw [integer?_minus] at h
        obtain ⟨n, hn, rfl⟩ := Option.map_eq_some_iff.mp h
        exact .minus (digits?_eq_some_iff.mp hn)
      · rw [integer?_plain (not_exists.mp hplus) (not_exists.mp hminus)] at h
        obtain ⟨n, hn, rfl⟩ := Option.map_eq_some_iff.mp h
        exact .plain (digits?_eq_some_iff.mp hn)
  · intro h
    cases h with
    | plus h => rw [integer?_plus, digits?_eq_some_iff.mpr h, Option.map_some, Int.ofNat_eq_natCast]
    | minus h => rw [integer?_minus, digits?_eq_some_iff.mpr h, Option.map_some, Int.ofNat_eq_natCast]
    | @plain _ n h =>
        have hplus : ∀ rest, cs ≠ '+' :: rest := by
          rintro rest rfl
          exact h.head_ne.1 rfl
        have hminus : ∀ rest, cs ≠ '-' :: rest := by
          rintro rest rfl
          exact h.head_ne.2 rfl
        rw [integer?_plain hplus hminus, digits?_eq_some_iff.mpr h, Option.map_some,
          Int.ofNat_eq_natCast]

/-- What is written of an integer is a numeral with its value. -/
theorem isNumeral_integerText (z : Int) : IsNumeral (integerText z).toList z := by
  have hdigits : IsDigits (Nat.toDigits 10 z.natAbs) z.natAbs :=
    digits?_eq_some_iff.mp (digits?_toDigits _)
  rw [integerText, String.toList_ofList]
  split
  · next hneg =>
      have hz : -(z.natAbs : Int) = z := by omega
      have h := IsNumeral.minus hdigits
      rwa [hz] at h
  · next hpos =>
      have hz : (z.natAbs : Int) = z := by omega
      have h := IsNumeral.plain hdigits
      rwa [hz] at h

/-- A number fits so many bits with a sign if it lies in their range. -/
theorem fitsSigned_iff {bits : Nat} {z : Int} :
    fitsSigned bits z = true ↔ -(2 ^ (bits - 1)) ≤ z ∧ z < 2 ^ (bits - 1) := by
  simp [fitsSigned]

end Number

open Number

namespace SlotType

/-! ### What is read -/

/-- A text is read as a whole number just if it is a numeral of a value in the range. -/
theorem read?_eq_some_iff {width : Width} {expression : String} {v : Whole} :
    Whole.read? width expression = some v ↔ v.width = width ∧ IsNumeral expression.toList v.value := by
  unfold Whole.read? Whole.ofInt?
  rw [Option.bind_eq_some_iff]
  constructor
  · rintro ⟨z, hz, hv⟩
    split at hv
    · cases hv
      exact ⟨rfl, integer?_eq_some_iff.mp hz⟩
    · cases hv
  · rintro ⟨rfl, h⟩
    exact ⟨v.value, integer?_eq_some_iff.mpr h, dif_pos v.fits⟩

/-- A scalar is read where its type has one for the expression. -/
theorem convert_scalar_eq_ok_iff {type : ScalarType} {expression : String} {draft : Draft} :
    (SlotType.scalar type).convert expression = .ok draft
      ↔ ∃ value, scalar? expression type = some value ∧ draft = .settled (.scalar value) := by
  rw [convert]
  constructor
  · intro h
    split at h
    · next value hvalue => exact ⟨value, hvalue, (Except.ok.inj h).symm⟩
    · cases h
  · rintro ⟨value, hvalue, rfl⟩
    rw [hvalue]

/-- What is read as an integer is the value of a numeral. -/
theorem convert_whole_eq_ok_iff {width : Width} {expression : String} {draft : Draft} :
    (SlotType.scalar (.whole width)).convert expression = .ok draft
      ↔ ∃ v : Whole, v.width = width ∧ IsNumeral expression.toList v.value
          ∧ draft = .settled (.scalar (.whole v)) := by
  rw [convert_scalar_eq_ok_iff]
  constructor
  · rintro ⟨value, hvalue, hdraft⟩
    obtain ⟨v, hv, rfl⟩ := Option.map_eq_some_iff.mp hvalue
    obtain ⟨hwidth, hnumeral⟩ := read?_eq_some_iff.mp hv
    exact ⟨v, hwidth, hnumeral, hdraft⟩
  · rintro ⟨v, hwidth, hnumeral, hdraft⟩
    have hread : Whole.read? width expression = some v := read?_eq_some_iff.mpr ⟨hwidth, hnumeral⟩
    exact ⟨.whole v, Option.map_eq_some_iff.mpr ⟨v, hread, rfl⟩, hdraft⟩

/-- A numeral is read as an integer if its value is within the range of the width. -/
theorem exists_convert_whole_iff {width : Width} {expression : String} :
    (∃ draft, (SlotType.scalar (.whole width)).convert expression = .ok draft)
      ↔ ∃ z, IsNumeral expression.toList z ∧ -(2 ^ (width.bits - 1)) ≤ z ∧ z < 2 ^ (width.bits - 1) := by
  constructor
  · rintro ⟨draft, hdraft⟩
    obtain ⟨v, rfl, hnumeral, -⟩ := convert_whole_eq_ok_iff.mp hdraft
    exact ⟨v.value, hnumeral, fitsSigned_iff.mp v.fits⟩
  · rintro ⟨z, hnumeral, hrange⟩
    exact ⟨_, convert_whole_eq_ok_iff.mpr ⟨⟨width, z, fitsSigned_iff.mpr hrange⟩, rfl, hnumeral, rfl⟩⟩

/-- A character is read from a text of one character, and from no other. -/
theorem convert_char_eq_ok_iff {expression : String} {draft : Draft} :
    (SlotType.scalar .char).convert expression = .ok draft
      ↔ ∃ c, expression.toList = [c] ∧ draft = .settled (.scalar (.char c)) := by
  rw [convert_scalar_eq_ok_iff, scalar?]
  constructor
  · rintro ⟨value, hvalue, hdraft⟩
    split at hvalue
    · next c hc =>
        obtain rfl := Option.some.inj hvalue
        exact ⟨c, hc, hdraft⟩
    · cases hvalue
  · rintro ⟨c, hc, hdraft⟩
    refine ⟨.char c, ?_, hdraft⟩
    rw [hc]

/-- A word in any mixture of the cases of its letters. -/
def IsCaseVariant (expression word : String) : Prop :=
  List.Forall₂ (fun c l => c = l ∨ c = l.toUpper) expression.toList word.toList

/-- A character has a small letter as its lower case if it is the letter or its capital. -/
theorem toLower_eq_iff {c l : Char} (hl : l.toLower = l) : c.toLower = l ↔ c = l ∨ c = l.toUpper := by
  constructor
  · intro h
    by_cases hc : c.isUpper = true
    · have hcapital : c = c.toLower.toUpper := by
        rw [Char.toUpper_toLower_eq_toUpper, Char.toUpper_eq_of_not_isLower (Char.not_isLower_of_isUpper hc)]
      rw [h] at hcapital
      exact .inr hcapital
    · rw [Char.toLower_eq_of_not_isUpper hc] at h
      exact .inl h
  · rintro (rfl | rfl)
    · exact hl
    · rw [Char.toLower_toUpper_eq_toLower, hl]

/-- A word has some small letters just if it has these in any mixture of cases. -/
theorem map_toLower_eq_iff {cs ls : List Char} (hls : ∀ l ∈ ls, l.toLower = l) :
    cs.map Char.toLower = ls ↔ List.Forall₂ (fun c l => c = l ∨ c = l.toUpper) cs ls := by
  induction cs generalizing ls with
  | nil =>
      rw [List.forall₂_nil_left_iff]
      exact eq_comm
  | cons c cs ih =>
      cases ls with
      | nil => simp
      | cons l ls =>
          obtain ⟨hl, hls⟩ := List.forall_mem_cons.mp hls
          rw [List.map_cons, List.cons.injEq, List.forall₂_cons, ih hls, toLower_eq_iff hl]

/-- A truth value is read from every text: it is true for the word of that name in any mixture of
cases, and false for all others. -/
theorem convert_bool (expression : String) :
    ∃ b, (SlotType.scalar .bool).convert expression = .ok (.settled (.scalar (.bool b)))
      ∧ (b = true ↔ IsCaseVariant expression "true") := by
  have hword : ∀ l ∈ ['t', 'r', 'u', 'e'], l.toLower = l := by simp
  have hletters : "true".toList = ['t', 'r', 'u', 'e'] := by decide
  refine ⟨_, rfl, ?_⟩
  rw [beq_iff_eq, IsCaseVariant, hletters]
  exact map_toLower_eq_iff hword

/-- A refusal names the expression and the type. -/
theorem convert_eq_ok_or_error (type : SlotType) (expression : String) :
    (∃ draft, type.convert expression = .ok draft)
      ∨ type.convert expression = .error (.unsupportedConversion expression type.name) := by
  cases type with
  | scalar type =>
      rw [convert]
      cases scalar? expression type with
      | none => exact .inr rfl
      | some value => exact .inl ⟨_, rfl⟩
  | text => exact .inl ⟨_, rfl⟩
  | object name => exact .inr rfl

/-! ### What was written is read back -/

/-- The text of a whole number is read as this number. -/
theorem convert_text_whole (v : Whole) :
    (SlotType.scalar (Scalar.whole v).type).convert (Scalar.whole v).text
      = .ok (.settled (.scalar (.whole v))) :=
  convert_whole_eq_ok_iff.mpr ⟨v, rfl, isNumeral_integerText v.value, rfl⟩

/-- The text of a character is read as this character. -/
theorem convert_text_char (c : Char) :
    (SlotType.scalar (Scalar.char c).type).convert (Scalar.char c).text
      = .ok (.settled (.scalar (.char c))) :=
  convert_char_eq_ok_iff.mpr ⟨c, String.toList_ofList, rfl⟩

/-- The text of a truth value is read as this truth value. -/
theorem convert_text_bool (b : Bool) :
    (SlotType.scalar (Scalar.bool b).type).convert (Scalar.bool b).text
      = .ok (.settled (.scalar (.bool b))) := by
  cases b <;> decide +kernel

/-- An expression is read as an integer where all of it is a numeral of the range of the width, as a
character where it is one character, always as a truth value and as a string, and never as an object. What
is refused is named with the type. What was written of an integer, a character or a truth value is read back
as what it was. -/
theorem reads_exactly :
    (∀ expression : String,
      (∀ width, (∃ draft, (SlotType.scalar (.whole width)).convert expression = .ok draft)
        ↔ ∃ z, IsNumeral expression.toList z
            ∧ -(2 ^ (width.bits - 1)) ≤ z ∧ z < 2 ^ (width.bits - 1))
      ∧ (∀ width draft, (SlotType.scalar (.whole width)).convert expression = .ok draft
        ↔ ∃ v : Whole, v.width = width ∧ IsNumeral expression.toList v.value
            ∧ draft = .settled (.scalar (.whole v)))
      ∧ (∀ draft, (SlotType.scalar .char).convert expression = .ok draft
        ↔ ∃ c, expression.toList = [c] ∧ draft = .settled (.scalar (.char c)))
      ∧ (∃ b, (SlotType.scalar .bool).convert expression = .ok (.settled (.scalar (.bool b)))
        ∧ (b = true ↔ IsCaseVariant expression "true"))
      ∧ SlotType.text.convert expression = .ok (.text expression)
      ∧ (∀ name draft, (SlotType.object name).convert expression ≠ .ok draft)
      ∧ ∀ type : SlotType, (∃ draft, type.convert expression = .ok draft)
        ∨ type.convert expression = .error (.unsupportedConversion expression type.name))
      ∧ (∀ v : Whole, (SlotType.scalar (Scalar.whole v).type).convert (Scalar.whole v).text
        = .ok (.settled (.scalar (.whole v))))
      ∧ (∀ c : Char, (SlotType.scalar (Scalar.char c).type).convert (Scalar.char c).text
        = .ok (.settled (.scalar (.char c))))
      ∧ ∀ b : Bool, (SlotType.scalar (Scalar.bool b).type).convert (Scalar.bool b).text
        = .ok (.settled (.scalar (.bool b))) := by
  refine ⟨fun expression => ⟨?_, ?_, ?_, convert_bool expression, rfl, ?_, ?_⟩,
    convert_text_whole, convert_text_char, convert_text_bool⟩
  · exact fun width => exists_convert_whole_iff
  · exact fun width draft => convert_whole_eq_ok_iff
  · exact fun draft => convert_char_eq_ok_iff
  · intro name draft h
    cases h
  · exact fun type => convert_eq_ok_or_error type expression

/-- The least number of 64 bits is read, and the one below it is not. -/
example :
    ((SlotType.scalar (.whole .long)).convert "-9223372036854775808").isOk = true
      ∧ ((SlotType.scalar (.whole .long)).convert "-9223372036854775809").isOk = false := by
  decide +kernel

end SlotType

end DebugBridge
