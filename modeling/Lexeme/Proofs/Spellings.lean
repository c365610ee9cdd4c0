import Mathlib
import Lexeme.Proofs.RomanForms

/-! # In how many ways a number is written

Every digit has one plain form, and nine has another: four behind five. So a value has one numeral when no digit
below its thousands is nine, and else more (`roman_spelled_once`). The numerals that write no four behind five are
the plain ones (`IsRoman.eq_spell`), one for each value. -/

namespace Lexeme.Numeral

/-- Somewhere in a text a four stands behind the five of its own digit. -/
def HoldsFourBehindFive (text : Text) : Prop :=
  ['D', 'C', 'D'] <:+: text ∨ ['L', 'X', 'L'] <:+: text ∨ ['V', 'I', 'V'] <:+: text

instance (text : Text) : Decidable (HoldsFourBehindFive text) :=
  inferInstanceAs (Decidable (_ ∨ _ ∨ _))

/-- No decimal digit below the thousands is nine. -/
def HasNoNine (value : Nat) : Prop :=
  value / 100 % 10 ≠ 9 ∧ value / 10 % 10 ≠ 9 ∧ value % 10 ≠ 9

instance (value : Nat) : Decidable (HasNoNine value) :=
  inferInstanceAs (Decidable (_ ∧ _ ∧ _))

/-! ### The plain forms -/

/-- The plain form of a decimal digit, where nine is one before ten. -/
def spellDigit (one five ten : Char) : Nat → Text
  | 0 => []
  | 1 => [one]
  | 2 => [one, one]
  | 3 => [one, one, one]
  | 4 => [one, five]
  | 5 => [five]
  | 6 => [five, one]
  | 7 => [five, one, one]
  | 8 => [five, one, one, one]
  | _ => [one, ten]

/-- The plain numeral of a value. -/
def spell (value : Nat) : Text :=
  List.replicate (value / 1000) 'M' ++ spellDigit 'C' 'D' 'M' (value / 100 % 10) ++
    spellDigit 'X' 'L' 'C' (value / 10 % 10) ++ spellDigit 'I' 'V' 'X' (value % 10)

theorem thousandForms_eq :
    thousandForms = (List.range 5).map fun n => ⟨List.replicate n 'M', n * 1000⟩ :=
  rfl

section
variable {one five ten : Char} {unit : Nat}

/-- A form of a digit is the plain one, or that of nine with a four behind five. -/
theorem digit_of_mem_digitForms {form : Form} (h : form ∈ digitForms one five ten unit) :
    ∃ n ≤ 9, form.value = n * unit ∧
      (form.text = spellDigit one five ten n ∨ n = 9 ∧ form.text = [five, one, five]) := by
  simp only [digitForms, List.mem_cons, List.not_mem_nil, or_false] at h
  rcases h with rfl | rfl | rfl | rfl | rfl | rfl | rfl | rfl | rfl | rfl | rfl
  · exact ⟨0, by decide, (Nat.zero_mul unit).symm, .inl rfl⟩
  · exact ⟨1, by decide, (Nat.one_mul unit).symm, .inl rfl⟩
  · exact ⟨2, by decide, rfl, .inl rfl⟩
  · exact ⟨3, by decide, rfl, .inl rfl⟩
  · exact ⟨4, by decide, rfl, .inl rfl⟩
  · exact ⟨5, by decide, rfl, .inl rfl⟩
  · exact ⟨6, by decide, rfl, .inl rfl⟩
  · exact ⟨7, by decide, rfl, .inl rfl⟩
  · exact ⟨8, by decide, rfl, .inl rfl⟩
  · exact ⟨9, by decide, rfl, .inr ⟨rfl, rfl⟩⟩
  · exact ⟨9, by decide, rfl, .inl rfl⟩

theorem text_of_mem_digitForms {form : Form} (hunit : 0 < unit) (h : form ∈ digitForms one five ten unit) {n : Nat}
    (hvalue : form.value = n * unit) :
    form.text = spellDigit one five ten n ∨ n = 9 ∧ form.text = [five, one, five] := by
  obtain ⟨m, -, hm, htext⟩ := digit_of_mem_digitForms h
  obtain rfl : m = n := Nat.eq_of_mul_eq_mul_right hunit (hm.symm.trans hvalue)
  exact htext

theorem mem_digitForms_spellDigit {n : Nat} (h : n < 10) :
    ⟨spellDigit one five ten n, n * unit⟩ ∈ digitForms one five ten unit := by
  interval_cases n <;> simp [spellDigit, digitForms]

/-- Nine has another form, of another length. -/
theorem exists_other_nine {form : Form} (hunit : 0 < unit) (h : form ∈ digitForms one five ten unit)
    (hvalue : form.value = 9 * unit) :
    ∃ other ∈ digitForms one five ten unit, other.value = form.value ∧ other.text.length ≠ form.text.length := by
  rcases text_of_mem_digitForms hunit h hvalue with htext | ⟨-, htext⟩
  · exact ⟨⟨[five, one, five], 9 * unit⟩, by simp [digitForms], hvalue.symm, by simp [htext, spellDigit]⟩
  · exact ⟨⟨[one, ten], 9 * unit⟩, by simp [digitForms], hvalue.symm, by simp [htext]⟩

end

/-! ### The digits of a numeral -/

/-- The forms that a numeral is made of are worth the digits of its value. -/
theorem IsRoman.exists_forms {text : Text} {value : Nat} (h : IsRoman text value) :
    ∃ hundreds ∈ digitForms 'C' 'D' 'M' 100, ∃ tens ∈ digitForms 'X' 'L' 'C' 10, ∃ ones ∈ digitForms 'I' 'V' 'X' 1,
      text = List.replicate (value / 1000) 'M' ++ hundreds.text ++ tens.text ++ ones.text ∧ value < 5000 ∧
        hundreds.value = value / 100 % 10 * 100 ∧ tens.value = value / 10 % 10 * 10 ∧
          ones.value = value % 10 * 1 := by
  obtain ⟨thousands, hT, hundreds, hH, tens, hE, ones, hO, rfl, rfl⟩ := h
  rw [thousandForms_eq] at hT
  obtain ⟨m, hm, rfl⟩ := List.mem_map.mp hT
  rw [List.mem_range] at hm
  obtain ⟨c, hc, hcvalue, -⟩ := digit_of_mem_digitForms hH
  obtain ⟨x, hx, hxvalue, -⟩ := digit_of_mem_digitForms hE
  obtain ⟨i, hi, hivalue, -⟩ := digit_of_mem_digitForms hO
  have hthousands : (m * 1000 + hundreds.value + tens.value + ones.value) / 1000 = m := by omega
  refine ⟨hundreds, hH, tens, hE, ones, hO, by rw [hthousands], ?_, ?_, ?_, ?_⟩ <;> dsimp only <;> omega

/-- Forms that are worth the digits of a value make a numeral of it. -/
theorem isRoman_of_forms {value : Nat} (hvalue : value < 5000) {hundreds tens ones : Form}
    (hH : hundreds ∈ digitForms 'C' 'D' 'M' 100) (hE : tens ∈ digitForms 'X' 'L' 'C' 10)
    (hO : ones ∈ digitForms 'I' 'V' 'X' 1) (hhundreds : hundreds.value = value / 100 % 10 * 100)
    (htens : tens.value = value / 10 % 10 * 10) (hones : ones.value = value % 10 * 1) :
    IsRoman (List.replicate (value / 1000) 'M' ++ hundreds.text ++ tens.text ++ ones.text) value := by
  have hthousands : (⟨List.replicate (value / 1000) 'M', value / 1000 * 1000⟩ : Form) ∈ thousandForms := by
    rw [thousandForms_eq]
    exact List.mem_map.mpr ⟨value / 1000, List.mem_range.mpr (by omega), rfl⟩
  refine ⟨_, hthousands, hundreds, hH, tens, hE, ones, hO, rfl, ?_⟩
  dsimp only
  omega

/-- The plain numeral of a value is one. -/
theorem isRoman_spell {value : Nat} (h : value < 5000) : IsRoman (spell value) value :=
  isRoman_of_forms h (mem_digitForms_spellDigit (Nat.mod_lt _ (by decide)))
    (mem_digitForms_spellDigit (Nat.mod_lt _ (by decide))) (mem_digitForms_spellDigit (Nat.mod_lt _ (by decide)))
    rfl rfl rfl

/-- Where a digit is nine, its other form makes another numeral of the value. -/
theorem IsRoman.exists_ne {text : Text} {value : Nat} (h : IsRoman text value) (hnine : ¬HasNoNine value) :
    ∃ other, IsRoman other value ∧ other ≠ text := by
  obtain ⟨hundreds, hH, tens, hE, ones, hO, rfl, hlt, hhundreds, htens, hones⟩ := h.exists_forms
  simp only [HasNoNine, not_and_or, not_not] at hnine
  rcases hnine with hnine | hnine | hnine
  · obtain ⟨other, hother, hvalue, hlength⟩ := exists_other_nine (by decide) hH (by rw [hhundreds, hnine])
    refine ⟨_, isRoman_of_forms hlt hother hE hO (hvalue.trans hhundreds) htens hones, fun heq => hlength ?_⟩
    simpa using congrArg List.length heq
  · obtain ⟨other, hother, hvalue, hlength⟩ := exists_other_nine (by decide) hE (by rw [htens, hnine])
    refine ⟨_, isRoman_of_forms hlt hH hother hO hhundreds (hvalue.trans htens) hones, fun heq => hlength ?_⟩
    simpa using congrArg List.length heq
  · obtain ⟨other, hother, hvalue, hlength⟩ := exists_other_nine (by decide) hO (by rw [hones, hnine])
    refine ⟨_, isRoman_of_forms hlt hH hE hother hhundreds htens (hvalue.trans hones), fun heq => hlength ?_⟩
    simpa using congrArg List.length heq

/-- A numeral is the plain one of its value, if no digit is nine or no nine is written as four behind five. -/
theorem IsRoman.eq_spell {text : Text} {value : Nat} (h : IsRoman text value)
    (hplain : HasNoNine value ∨ ¬HoldsFourBehindFive text) : text = spell value := by
  obtain ⟨hundreds, hH, tens, hE, ones, hO, rfl, -, hhundreds, htens, hones⟩ := h.exists_forms
  have hplainH : hundreds.text = spellDigit 'C' 'D' 'M' (value / 100 % 10) := by
    refine (text_of_mem_digitForms (by decide) hH hhundreds).resolve_right fun ⟨hnine, htext⟩ => ?_
    refine hplain.elim (fun hnone => hnone.1 hnine) fun hnot => hnot (.inl ?_)
    exact ⟨List.replicate (value / 1000) 'M', tens.text ++ ones.text, by simp [htext]⟩
  have hplainE : tens.text = spellDigit 'X' 'L' 'C' (value / 10 % 10) := by
    refine (text_of_mem_digitForms (by decide) hE htens).resolve_right fun ⟨hnine, htext⟩ => ?_
    refine hplain.elim (fun hnone => hnone.2.1 hnine) fun hnot => hnot (.inr (.inl ?_))
    exact ⟨List.replicate (value / 1000) 'M' ++ hundreds.text, ones.text, by rw [htext]⟩
  have hplainO : ones.text = spellDigit 'I' 'V' 'X' (value % 10) := by
    refine (text_of_mem_digitForms (by decide) hO hones).resolve_right fun ⟨hnine, htext⟩ => ?_
    refine hplain.elim (fun hnone => hnone.2.2 hnine) fun hnot => hnot (.inr (.inr ?_))
    exact ⟨List.replicate (value / 1000) 'M' ++ hundreds.text ++ tens.text, [], by rw [htext, List.append_nil]⟩
  rw [spell, hplainH, hplainE, hplainO]

/-! ### Texts without a lower-case letter -/

theorem raised_of_not_isLower {text : Text} (h : text.any Char.isLower = false) : raised text = text := by
  cases text with
  | nil => rfl
  | cons c rest =>
    have hc : ¬c.isLower = true := List.any_eq_false.mp h c List.mem_cons_self
    simp [raised, hc]

theorem roman?_eq_some_iff {text : Text} {value : Nat} (h : text.any Char.isLower = false) :
    roman? text = some value ↔ IsRoman text value ∧ value ≠ 0 := by
  rw [roman?, raised_of_not_isLower h]
  exact romanFrom_start

theorem IsRoman.not_isLower {text : Text} {value : Nat} (h : IsRoman text value) : text.any Char.isLower = false :=
  List.any_eq_false.mpr fun c hc => Char.not_isLower_of_isUpper (List.all_eq_true.mp h.fits.isUpper c hc)

/-! ### Numerals of one value -/

/-- Two numerals of one value are the same text if neither writes a four behind five, and a value has but one
    numeral exactly when no digit of it is nine. -/
theorem roman_spelled_once {s t : Text} {value : Nat} (hs : s.any Char.isLower = false)
    (ht : t.any Char.isLower = false) (hsvalue : roman? s = some value) (htvalue : roman? t = some value) :
    (¬HoldsFourBehindFive s → ¬HoldsFourBehindFive t → s = t) ∧
      (HasNoNine value ↔ ∀ u : Text, u.any Char.isLower = false → roman? u = some value → u = s) := by
  obtain ⟨hsroman, hpos⟩ := (roman?_eq_some_iff hs).mp hsvalue
  obtain ⟨htroman, -⟩ := (roman?_eq_some_iff ht).mp htvalue
  refine ⟨fun hsplain htplain => ?_, fun hnone u hu huvalue => ?_, fun honce => ?_⟩
  · rw [hsroman.eq_spell (.inr hsplain), htroman.eq_spell (.inr htplain)]
  · rw [hsroman.eq_spell (.inl hnone), ((roman?_eq_some_iff hu).mp huvalue).1.eq_spell (.inl hnone)]
  · by_contra hnine
    obtain ⟨other, hother, hne⟩ := hsroman.exists_ne hnine
    exact hne (honce other hother.not_isLower ((roman?_eq_some_iff hother.not_isLower).mpr ⟨hother, hpos⟩))

theorem roman?_nine_hundred : roman? "DCD".toList = some 900 ∧ roman? "CM".toList = some 900 := by
  have hother : IsRoman "DCD".toList 900 := ⟨⟨[], 0⟩, by decide, ⟨['D', 'C', 'D'], 900⟩, by decide,
    ⟨[], 0⟩, by decide, ⟨[], 0⟩, by decide, rfl, rfl⟩
  have hplain : IsRoman (spell 900) 900 := isRoman_spell (by decide)
  exact ⟨(roman?_eq_some_iff (by decide)).mpr ⟨hother, by decide⟩,
    (roman?_eq_some_iff (by decide)).mpr ⟨hplain, by decide⟩⟩

/-- The longest numeral is the only one of its value, but nine hundred can be written otherwise than by nine alone. -/
theorem roman_spelled_once_of_longest :
    (∀ u : Text, u.any Char.isLower = false → roman? u = some 4888 → u = "MMMMDCCCLXXXVIII".toList) ∧
      ¬∀ u : Text, u.any Char.isLower = false → roman? u = some 900 → u = "DCD".toList := by
  have hspelled : IsRoman (spell 4888) 4888 := isRoman_spell (by decide)
  have hlongest : roman? "MMMMDCCCLXXXVIII".toList = some 4888 :=
    (roman?_eq_some_iff (by decide)).mpr ⟨hspelled, by decide⟩
  obtain ⟨hother, -⟩ := roman?_nine_hundred
  exact ⟨(roman_spelled_once (by decide) (by decide) hlongest hlongest).2.mp (by decide),
    fun honce => absurd ((roman_spelled_once (by decide) (by decide) hother hother).2.mpr honce) (by decide)⟩

/-- Nine hundred is spelled in two ways. -/
theorem roman_spelled_twice :
    ¬∀ (s t : Text) (value : Nat), s.any Char.isLower = false → t.any Char.isLower = false →
      roman? s = some value → roman? t = some value → s = t := by
  intro honce
  obtain ⟨hother, hplain⟩ := roman?_nine_hundred
  exact absurd (honce "CM".toList "DCD".toList 900 (by decide) (by decide) hplain hother) (by decide)

end Lexeme.Numeral
