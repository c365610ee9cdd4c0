import Mathlib
import Lexeme.Proofs.NumeralKinds

/-! # Runs of too many digits

Of the readings of a numeral only that of digits can fail, and it fails on runs of more than 4300 digits, all of
them: also on one that is worth a value in range because zeros lead it (`refused_for_leading_zeros`). Every other
text is read, and what it is worth, if anything, lies in range (`fails_iff_long_run`). -/

namespace Lexeme.Numeral

section
variable {text : Text} {value : Nat} {error : NumeralError}

/-! ### Failing -/

/-- A run of digits is refused for its length, whatever it is worth. -/
theorem readArabic_eq_error_iff :
    readArabic text = .error error ↔
      (text.all Char.isDigit ∧ 4300 < text.length) ∧ error = .tooLong text.length := by
  by_cases hlong : text.all Char.isDigit ∧ 4300 < text.length
  · have hne : text ≠ [] := List.ne_nil_of_length_pos (by omega)
    have hrun : isDigitRun text := isDigitRun_iff.mpr ⟨hne, hlong.1⟩
    have hlimit : digitLimit < text.length := hlong.2
    have hread : readArabic text = .error (.tooLong text.length) := by
      rw [readArabic, if_neg (by simp [hrun]), if_pos hlimit]
    rw [hread, Except.error.injEq, eq_comm]
    exact (and_iff_right hlong).symm
  · have hshort : text.all Char.isDigit → text.length ≤ 4300 := fun hdigits =>
      Nat.le_of_not_lt fun hlt => hlong ⟨hdigits, hlt⟩
    obtain ⟨result, hread, -⟩ := readArabic_eq_ok hshort
    rw [hread]
    exact iff_of_false (fun h => by cases h) fun h => hlong h.1

/-- Nothing but the reading of digits fails. -/
theorem read_eq_error_iff : read text = .error error ↔ readArabic text = .error error := by
  rw [read]
  cases readArabic text with
  | error cause => rfl
  | ok found => cases found <;> exact iff_of_false (fun h => by cases h) (fun h => by cases h)

/-- What is read is no long run of digits. -/
theorem short_of_readArabic {result : Option Nat} (h : readArabic text = .ok result) :
    text.all Char.isDigit → text.length ≤ 4300 := by
  intro hdigits
  by_contra hlong
  have herror := readArabic_eq_error_iff.mpr ⟨⟨hdigits, Nat.lt_of_not_le hlong⟩, rfl⟩
  cases h.symm.trans herror

/-! ### Values -/

theorem in_range_of_roman? (h : roman? text = some value) : 1 ≤ value ∧ value ≤ largest := by
  obtain ⟨hroman, hpos⟩ := romanFrom_start.mp h
  have hmost : value ≤ 4999 := hroman.fits.value_le
  exact ⟨Nat.one_le_iff_ne_zero.mpr hpos, hmost.trans (by decide)⟩

theorem Kind.Counts.in_range {kind : Kind} (h : kind.Counts text value) : 1 ≤ value ∧ value ≤ largest := by
  cases kind with
  | arabic => exact h.2.2
  | latin =>
    obtain ⟨letters, hletters, c, hc, -, rfl⟩ := h
    have hlength : ∀ letters ∈ alphabets, letters.length = 26 := by decide
    have hplace := List.idxOf_lt_length_of_mem hc
    rw [hlength letters hletters] at hplace
    -- The last letter is worth 26.
    refine ⟨Nat.succ_pos _, ?_⟩
    rw [largest]
    omega
  | roman => exact in_range_of_roman? h.2

/-- A text is worth a value by its digits exactly when it counts by them and is not too long. -/
theorem readArabic_eq_some_iff :
    readArabic text = .ok (some value) ↔ text.length ≤ 4300 ∧ Kind.arabic.Counts text value := by
  constructor
  · intro h
    have hshort := short_of_readArabic h
    obtain ⟨result, hread, hvalue⟩ := readArabic_eq_ok hshort
    cases h.symm.trans hread
    have hcounts := (hvalue value).mp rfl
    exact ⟨hshort hcounts.1.2, hcounts⟩
  · rintro ⟨hshort, hcounts⟩
    obtain ⟨result, hread, hvalue⟩ := readArabic_eq_ok fun _ => hshort
    rw [hread, (hvalue value).mpr hcounts]

theorem in_range_of_read (h : read text = .ok (some value)) : 1 ≤ value ∧ value ≤ largest := by
  cases harabic : readArabic text with
  | error cause => cases h.symm.trans (read_eq_error_iff.mpr harabic)
  | ok found =>
    obtain ⟨result, hread, hvalue⟩ := read_eq_ok (short_of_readArabic harabic)
    cases h.symm.trans hread
    obtain ⟨kind, hcounts⟩ := (hvalue value).mp rfl
    exact hcounts.in_range

end

/-- Reading a numeral fails on runs of more than 4300 digits and on nothing else, and so does reading a word. What a
    text is worth by any reading lies in range, and a run of no more digits is worth its value, whatever zeros lead
    it. -/
theorem fails_iff_long_run (text : Text) :
    (∀ error, readArabic text = .error error ↔
        (text.all Char.isDigit ∧ 4300 < text.length) ∧ error = .tooLong text.length) ∧
      (∀ error, read text = .error error ↔ readArabic text = .error error) ∧
      (∀ (kind : TokenKind) (error : NumeralError),
        (Token.numeral ⟨kind, text⟩ = .error error ↔ kind = .word ∧ readArabic text = .error error) ∧
          (Token.arabic ⟨kind, text⟩ = .error error ↔ kind = .word ∧ readArabic text = .error error)) ∧
      (∀ value, readArabic text = .ok (some value) ↔ text.length ≤ 4300 ∧ Kind.arabic.Counts text value) ∧
      ∀ value, readArabic text = .ok (some value) ∨ latin? text = some value ∨ roman? text = some value ∨
        read text = .ok (some value) → 1 ≤ value ∧ value ≤ largest := by
  refine ⟨fun error => readArabic_eq_error_iff, fun error => read_eq_error_iff, fun kind error => ?_,
    fun value => readArabic_eq_some_iff, fun value => ?_⟩
  · rw [Token.numeral, Token.arabic]
    by_cases hword : kind = .word
    · simp [hword, read_eq_error_iff]
    · simp [hword]
  · rintro (h | h | h | h)
    · exact (readArabic_eq_some_iff.mp h).2.in_range
    · exact (latin?_eq_some_iff.mp h).in_range
    · exact in_range_of_roman? h
    · exact in_range_of_read h

/-! ### Zeros that lead a number -/

/-- A digit with a number of zeros before it. -/
def padded (zeros : Nat) (c : Char) : Text :=
  List.replicate zeros '0' ++ [c]

theorem length_padded (zeros : Nat) (c : Char) : (padded zeros c).length = zeros + 1 := by
  simp [padded]

/-- Zeros before a digit do not change what it is worth. -/
theorem counts_padded (zeros : Nat) {c : Char} (hdigit : c.isDigit) (hpos : 1 ≤ digitValue c)
    (hle : digitValue c ≤ 9) : Kind.arabic.Counts (padded zeros c) (digitValue c) := by
  have hzero : digitValue '0' = 0 := rfl
  refine ⟨⟨by simp [padded], by simp [padded, hdigit]⟩, ?_, hpos, by omega⟩
  simp [padded, hzero, Nat.ofDigits_cons]

/-- A number with as many digits as are read. -/
theorem fails_iff_long_run_of_zeros :
    Kind.arabic.Counts (padded 4299 '7') 7 ∧ readArabic (padded 4299 '7') = .ok (some 7) ∧ 1 ≤ 7 ∧ 7 ≤ largest := by
  have hcounts : Kind.arabic.Counts (padded 4299 '7') 7 := counts_padded 4299 (by decide) (by decide) (by decide)
  obtain ⟨-, -, -, hread, hrange⟩ := fails_iff_long_run (padded 4299 '7')
  have hseven := (hread 7).mpr ⟨(length_padded 4299 '7').le, hcounts⟩
  exact ⟨hcounts, hseven, hrange 7 (.inl hseven)⟩

/-- A text of 4301 digits is worth one, and is one word; yet neither the text nor the word is read. -/
theorem refused_for_leading_zeros :
    let text := padded 4300 '1'
    Kind.arabic.Counts text 1 ∧ readArabic text = .error (.tooLong 4301) ∧ read text = .error (.tooLong 4301) ∧
      (tokenize "page" text).map (·.token) = [⟨.word, text⟩] ∧
      Token.arabic ⟨.word, text⟩ = .error (.tooLong 4301) ∧ Token.numeral ⟨.word, text⟩ = .error (.tooLong 4301) := by
  intro text
  have hcounts : Kind.arabic.Counts text 1 := counts_padded 4300 (by decide) (by decide) (by decide)
  have hlength : text.length = 4301 := length_padded 4300 '1'
  have harabic : readArabic text = .error (.tooLong 4301) :=
    readArabic_eq_error_iff.mpr ⟨⟨hcounts.1.2, by omega⟩, by rw [hlength]⟩
  have hread : read text = .error (.tooLong 4301) := read_eq_error_iff.mpr harabic
  refine ⟨hcounts, harabic, hread, ?_, ?_, ?_⟩
  · rw [tokenize_eq, Item.ofText, Item.map_token_layOut, cut_of_digits hcounts.1.1 hcounts.1.2]
  · rw [Token.arabic, if_pos rfl, harabic]
  · rw [Token.numeral, if_pos rfl, hread]

end Lexeme.Numeral
