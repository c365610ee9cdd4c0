import Mathlib
import Lexeme.Proofs.Partition
import Lexeme.Proofs.Spellings

/-! # Which numeral a text is

A text that counts does so in one way: by its digits, as a letter of the alphabet, or, with two letters or more,
as a roman numeral (`Kind.Counts`). Reading tries the three in turn, and what one of them turns down none of the
later ones takes up, but for the single letters that are roman numerals as well: those are read as letters
(`read_iff_counts`). -/

namespace Lexeme.Numeral

/-- The letters of the alphabet in lower case and in upper case, in order. -/
def alphabets : List Text :=
  ["abcdefghijklmnopqrstuvwxyz".toList, "ABCDEFGHIJKLMNOPQRSTUVWXYZ".toList]

/-- The letters that roman numerals are written with, in either case. -/
def romanLetters : Text :=
  "ivxlcdmIVXLCDM".toList

/-- The ways in which a text can count. -/
inductive Kind where
  | arabic
  | latin
  | roman
deriving DecidableEq

/-- A text counts in a way, and is worth a value: decimal digits of a value in range, whatever zeros lead them; one
    letter, worth its place in the alphabet; or a roman numeral of more than one letter. -/
def Kind.Counts (text : Text) (value : Nat) : Kind → Prop
  | arabic => (text ≠ [] ∧ text.all Char.isDigit) ∧ Nat.ofDigits 10 (text.reverse.map digitValue) = value ∧
      1 ≤ value ∧ value ≤ 2 ^ 64 - 1
  | latin => ∃ letters ∈ alphabets, ∃ c ∈ letters, text = [c] ∧ value = letters.idxOf c + 1
  | roman => 2 ≤ text.length ∧ roman? text = some value

/-! ### Characters by their code points -/

section
variable {c : Char}

theorem isUpper_iff_toNat : c.isUpper ↔ 65 ≤ c.toNat ∧ c.toNat ≤ 90 := by
  simp [Char.isUpper, UInt32.le_iff_toNat_le, ← Char.toNat_val]

theorem isLower_iff_toNat : c.isLower ↔ 97 ≤ c.toNat ∧ c.toNat ≤ 122 := by
  simp [Char.isLower, UInt32.le_iff_toNat_le, ← Char.toNat_val]

/-- A character whose code point lies in a stretch is one of the characters of the stretch. -/
theorem mem_stretch (first count : Nat) (hfirst : first ≤ c.toNat) (hlast : c.toNat < first + count) :
    c ∈ (List.range count).map fun place => Char.ofNat (first + place) := by
  refine List.mem_map.mpr ⟨c.toNat - first, List.mem_range.mpr (by omega), ?_⟩
  rw [Nat.add_sub_cancel' hfirst, Char.ofNat_toNat]

theorem mem_digits (h : c.isDigit) : c ∈ "0123456789".toList := by
  obtain ⟨hfirst, hlast⟩ : 48 ≤ c.toNat ∧ c.toNat ≤ 57 := Char.isDigit_iff_toNat.mp h
  exact mem_stretch 48 10 hfirst (by omega)

theorem mem_alphabets (h : c.isAlpha) : ∃ letters ∈ alphabets, c ∈ letters := by
  rcases Bool.or_eq_true_iff.mp h with hupper | hlower
  · obtain ⟨hfirst, hlast⟩ := isUpper_iff_toNat.mp hupper
    exact ⟨_, List.mem_cons_of_mem _ List.mem_cons_self, mem_stretch 65 26 hfirst (by omega)⟩
  · obtain ⟨hfirst, hlast⟩ := isLower_iff_toNat.mp hlower
    exact ⟨_, List.mem_cons_self, mem_stretch 97 26 hfirst (by omega)⟩

theorem not_isAlpha_of_isDigit (h : c.isDigit) : c.isAlpha = false := by
  have hall : "0123456789".toList.all (!·.isAlpha) := by decide
  simpa using List.all_eq_true.mp hall c (mem_digits h)

end

/-! ### Digits -/

/-- The number that a run of digits denotes is the sum of the digits, each times its power of ten. -/
theorem ofDigits_eq (text : Text) : ofDigits text = Nat.ofDigits 10 (text.reverse.map digitValue) := by
  rw [Nat.ofDigits_eq_foldr, List.foldr_map, List.foldr_reverse]
  simp [ofDigits, Nat.add_comm]

theorem isDigitRun_iff {text : Text} : isDigitRun text ↔ text ≠ [] ∧ text.all Char.isDigit := by
  simp [isDigitRun]

/-- A text that is not a long run of digits reads as an arabic number exactly when it counts by its digits. -/
theorem readArabic_eq_ok {text : Text} (hshort : text.all Char.isDigit → text.length ≤ 4300) :
    ∃ result, readArabic text = .ok result ∧ ∀ value, result = some value ↔ Kind.arabic.Counts text value := by
  by_cases hrun : isDigitRun text
  · have hdigits := isDigitRun_iff.mp hrun
    have hlimit : ¬digitLimit < text.length := Nat.not_lt.mpr (hshort hdigits.2)
    refine ⟨_, by rw [readArabic, if_neg (by simp [hrun]), if_neg hlimit], fun value => ?_⟩
    by_cases hrange : ofDigits text = 0 ∨ largest < ofDigits text
    · simp only [hrange, if_true, reduceCtorEq, false_iff]
      rintro ⟨-, rfl, hpos, hle⟩
      rw [ofDigits_eq, largest] at hrange
      omega
    · simp only [hrange, if_false, Option.some.injEq]
      rw [ofDigits_eq] at hrange ⊢
      rw [largest] at hrange
      refine ⟨?_, fun hcounts => hcounts.2.1⟩
      rintro rfl
      exact ⟨hdigits, rfl, by omega, by omega⟩
  · refine ⟨none, by rw [readArabic, if_pos (by simp [hrun])], fun value => ?_⟩
    simp only [reduceCtorEq, false_iff]
    rintro ⟨hdigits, -⟩
    exact hrun (isDigitRun_iff.mpr hdigits)

/-! ### Letters -/

theorem latin?_of_mem {letters : Text} (hletters : letters ∈ alphabets) {c : Char} (hc : c ∈ letters) :
    latin? [c] = some (letters.idxOf c + 1) := by
  have hall : alphabets.all fun letters => letters.all fun c => latin? [c] == some (letters.idxOf c + 1) := by
    decide
  exact beq_iff_eq.mp (List.all_eq_true.mp (List.all_eq_true.mp hall letters hletters) c hc)

theorem latin?_eq_some_iff {text : Text} {value : Nat} : latin? text = some value ↔ Kind.latin.Counts text value := by
  constructor
  · intro h
    obtain ⟨c, rfl⟩ : ∃ c, text = [c] := by
      match text, h with
      | [c], _ => exact ⟨c, rfl⟩
    have halpha : c.isAlpha := by
      by_contra hno
      simp [latin?, hno] at h
    obtain ⟨letters, hletters, hc⟩ := mem_alphabets halpha
    rw [latin?_of_mem hletters hc, Option.some.injEq] at h
    exact ⟨letters, hletters, c, hc, rfl, h.symm⟩
  · rintro ⟨letters, hletters, c, hc, rfl, rfl⟩
    exact latin?_of_mem hletters hc

/-! ### Roman numerals -/

theorem isAlpha_of_roman? {text : Text} {value : Nat} (h : roman? text = some value) :
    text ≠ [] ∧ text.all Char.isAlpha := by
  obtain ⟨hroman, hpos⟩ := romanFrom_start.mp h
  have hraised : raised text ≠ [] := fun hnil => hpos (hroman.fits.value_eq_zero.mpr hnil)
  refine ⟨fun hnil => hraised (by rw [hnil]; rfl), List.all_eq_true.mpr fun c hc => ?_⟩
  rcases isLower_or_isUpper_of_raised hroman.fits.isUpper with hall | hall
  · simp [Char.isAlpha, List.all_eq_true.mp hall c hc]
  · simp [Char.isAlpha, List.all_eq_true.mp hall c hc]

/-- The single letters that are roman numerals. -/
theorem isSome_roman?_singleton {c : Char} : (roman? [c]).isSome ↔ c ∈ romanLetters := by
  constructor
  · intro h
    obtain ⟨value, hvalue⟩ := Option.isSome_iff_exists.mp h
    have halpha : c.isAlpha := by simpa using (isAlpha_of_roman? hvalue).2
    obtain ⟨letters, hletters, hc⟩ := mem_alphabets halpha
    have hinitial : (raised [c]).head?.all (· ∈ initials romanRows) := by
      rw [Option.all_eq_true_iff_get]
      exact fun hsome => decide_eq_true (head_mem_of_romanFrom hvalue _ (Option.get_mem hsome))
    have hall : alphabets.all fun letters => letters.all fun c =>
        !(raised [c]).head?.all (· ∈ initials romanRows) || c ∈ romanLetters := by decide
    simpa [hinitial] using List.all_eq_true.mp (List.all_eq_true.mp hall letters hletters) c hc
  · intro h
    have hall : romanLetters.all fun c => [1, 5, 10, 50, 100, 500, 1000].any fun value =>
        raised [c] = spell value ∧ value < 5000 ∧ value ≠ 0 := by decide
    obtain ⟨value, -, hvalue⟩ := List.any_eq_true.mp (List.all_eq_true.mp hall c h)
    obtain ⟨hspell, hlt, hpos⟩ := of_decide_eq_true hvalue
    exact Option.isSome_iff_exists.mpr ⟨value, romanFrom_start.mpr ⟨hspell ▸ isRoman_spell hlt, hpos⟩⟩

/-! ### The kinds together -/

section
variable {text : Text} {value : Nat} {kind : Kind}

theorem not_digits_of_letters (hne : text ≠ []) (hletters : text.all Char.isAlpha) : ¬text.all Char.isDigit := by
  intro hdigits
  obtain ⟨c, rest, rfl⟩ := List.exists_cons_of_ne_nil hne
  have hno := not_isAlpha_of_isDigit (List.all_eq_true.mp hdigits c List.mem_cons_self)
  simp [hno] at hletters

theorem isSome_latin?_iff : (latin? text).isSome ↔ ∃ c, text = [c] ∧ c.isAlpha := by
  unfold latin?
  split
  · simp [Option.isSome_ite]
  · simp_all

/-- How a text counts, if it does, shows in its digits and its length. -/
theorem Kind.Counts.kind_eq (h : kind.Counts text value) :
    kind = if text.all Char.isDigit then arabic else if text.length = 1 then latin else roman := by
  cases kind with
  | arabic => rw [if_pos h.1.2]
  | latin =>
    obtain ⟨c, rfl, halpha⟩ := isSome_latin?_iff.mp (Option.isSome_of_mem (latin?_eq_some_iff.mpr h))
    rw [if_neg (not_digits_of_letters (List.cons_ne_nil c []) (by simpa using halpha)),
      if_pos List.length_singleton]
  | roman =>
    obtain ⟨hlong, hroman⟩ := h
    obtain ⟨hne, hletters⟩ := isAlpha_of_roman? hroman
    rw [if_neg (not_digits_of_letters hne hletters), if_neg (by omega)]

theorem Kind.eq_of_counts {kind' : Kind} {value' : Nat} (h : kind.Counts text value)
    (h' : kind'.Counts text value') : kind = kind' :=
  h.kind_eq.trans h'.kind_eq.symm

/-- What is no letter of the alphabet and yet a roman numeral has more than one letter. -/
theorem two_le_length_of_roman? (hlatin : latin? text = none) (hroman : roman? text = some value) :
    2 ≤ text.length := by
  obtain ⟨hne, hletters⟩ := isAlpha_of_roman? hroman
  by_contra hshort
  obtain ⟨c, rfl⟩ : ∃ c, text = [c] := by
    have hpos := List.length_pos_iff.mpr hne
    exact List.length_eq_one_iff.mp (by omega)
  have hsome : (latin? [c]).isSome := isSome_latin?_iff.mpr ⟨c, rfl, by simpa using hletters⟩
  simp [hlatin] at hsome

theorem latin_or_roman_iff :
    (latin? text).or (roman? text) = some value ↔ Kind.latin.Counts text value ∨ Kind.roman.Counts text value := by
  rw [Option.or_eq_some_iff, ← latin?_eq_some_iff]
  refine or_congr_right ⟨fun ⟨hlatin, hroman⟩ => ⟨two_le_length_of_roman? hlatin hroman, hroman⟩,
    fun ⟨hlong, hroman⟩ => ⟨Option.eq_none_iff_forall_ne_some.mpr fun other hother => ?_, hroman⟩⟩
  have hkind : Kind.latin = .roman := Kind.eq_of_counts (latin?_eq_some_iff.mp hother) ⟨hlong, hroman⟩
  cases hkind

/-- A text that is not a long run of digits is read, with a value exactly when it counts. -/
theorem read_eq_ok (hshort : text.all Char.isDigit → text.length ≤ 4300) :
    ∃ result, read text = .ok result ∧ ∀ value, result = some value ↔ ∃ kind : Kind, kind.Counts text value := by
  obtain ⟨found, hread, harabic⟩ := readArabic_eq_ok hshort
  cases found with
  | some first =>
    have hfirst : Kind.arabic.Counts text first := (harabic first).mp rfl
    refine ⟨some first, by rw [read, hread]; rfl, fun value => ?_⟩
    rw [harabic]
    refine ⟨fun h => ⟨.arabic, h⟩, fun ⟨kind, h⟩ => ?_⟩
    obtain rfl := Kind.eq_of_counts hfirst h
    exact h
  | none =>
    refine ⟨_, by rw [read, hread]; rfl, fun value => ?_⟩
    rw [latin_or_roman_iff]
    constructor
    · rintro (h | h)
      · exact ⟨.latin, h⟩
      · exact ⟨.roman, h⟩
    · rintro ⟨kind, h⟩
      cases kind with
      | arabic => cases (harabic value).mpr h
      | latin => exact .inl h
      | roman => exact .inr h

end

/-! ### Decimal texts -/

theorem counts_toDigits {n : Nat} (hpos : 1 ≤ n) (hle : n ≤ 2 ^ 64 - 1) :
    Kind.arabic.Counts (Nat.toDigits 10 n) n := by
  refine ⟨⟨Nat.toDigits_ne_nil, List.all_eq_true.mpr fun c hc => ?_⟩, ?_, hpos, hle⟩
  · exact Nat.isDigit_of_mem_toDigits (by decide) (by decide) hc
  · rw [← ofDigits_eq]
    exact Nat.ofDigitChars_ten_toDigits

theorem length_toDigits_le {n : Nat} (hle : n ≤ 2 ^ 64 - 1) : (Nat.toDigits 10 n).length ≤ 4300 := by
  have hlength : (Nat.toDigits 10 n).length ≤ 20 := Nat.toDigits_length 10 n 20 (by decide) (by omega)
  omega

theorem ofChar?_of_isDigit {c : Char} (h : c.isDigit) : Token.ofChar? c = none := by
  have hall : "0123456789".toList.all fun c => Token.ofChar? c == none := by decide
  exact beq_iff_eq.mp (List.all_eq_true.mp hall c (mem_digits h))

/-- A run of digits is one word. -/
theorem cut_of_digits {text : Text} (hne : text ≠ []) (hdigits : text.all Char.isDigit) :
    Token.cut text = [⟨.word, text⟩] := by
  have hword : ∀ c ∈ text, Token.ofChar? c = none := fun c hc =>
    ofChar?_of_isDigit (List.all_eq_true.mp hdigits c hc)
  have hcut : Token.cut (text ++ []) = ⟨.word, text⟩ :: Token.cut [] :=
    Token.cut_append_of_word hne hword (by simp [Token.cut])
  rwa [List.append_nil] at hcut

/-- The decimal text of a number in range is one word, which reads as the number. -/
theorem reads_toDigits {n : Nat} (hpos : 1 ≤ n) (hle : n ≤ 2 ^ 64 - 1) (name : String) :
    (tokenize name (Nat.toDigits 10 n)).map (·.token) = [⟨.word, Nat.toDigits 10 n⟩] ∧
      Token.numeral ⟨.word, Nat.toDigits 10 n⟩ = .ok (some n) ∧
        Token.arabic ⟨.word, Nat.toDigits 10 n⟩ = .ok (some n) := by
  have hcounts := counts_toDigits hpos hle
  have hshort : (Nat.toDigits 10 n).all Char.isDigit → (Nat.toDigits 10 n).length ≤ 4300 :=
    fun _ => length_toDigits_le hle
  refine ⟨?_, ?_, ?_⟩
  · rw [tokenize_eq, Item.ofText, Item.map_token_layOut, cut_of_digits hcounts.1.1 hcounts.1.2]
  · obtain ⟨result, hread, hvalue⟩ := read_eq_ok hshort
    rw [Token.numeral, if_pos rfl, hread, (hvalue n).mpr ⟨.arabic, hcounts⟩]
  · obtain ⟨result, hread, hvalue⟩ := readArabic_eq_ok hshort
    rw [Token.arabic, if_pos rfl, hread, (hvalue n).mpr hcounts]

/-! ### Reading -/

/-- What a later reading gives a value to, the reading of digits turns down. -/
theorem readArabic_of_isSome {text : Text} (h : (latin? text).isSome ∨ (roman? text).isSome) :
    readArabic text = .ok none := by
  have hletters : text ≠ [] ∧ text.all Char.isAlpha := by
    rcases h with hlatin | hroman
    · obtain ⟨c, rfl, halpha⟩ := isSome_latin?_iff.mp hlatin
      exact ⟨List.cons_ne_nil c [], by simpa using halpha⟩
    · exact isAlpha_of_roman? (Option.some_get hroman).symm
  have hno : ¬isDigitRun text := fun hrun =>
    not_digits_of_letters hletters.1 hletters.2 (isDigitRun_iff.mp hrun).2
  rw [readArabic, if_pos (by simpa using hno)]

/-- The texts that two readings give a value to: the single letters that are roman numerals as well. -/
theorem isSome_latin?_and_roman?_iff {text : Text} :
    (latin? text).isSome ∧ (roman? text).isSome ↔ ∃ c ∈ romanLetters, text = [c] := by
  constructor
  · rintro ⟨hlatin, hroman⟩
    obtain ⟨c, rfl, -⟩ := isSome_latin?_iff.mp hlatin
    exact ⟨c, isSome_roman?_singleton.mp hroman, rfl⟩
  · rintro ⟨c, hc, rfl⟩
    have hroman : (roman? [c]).isSome := isSome_roman?_singleton.mpr hc
    have hletters := (isAlpha_of_roman? (Option.some_get hroman).symm).2
    exact ⟨isSome_latin?_iff.mpr ⟨c, rfl, by simpa using hletters⟩, hroman⟩

/-- Reading a text that is no run of more than 4300 digits gives a value exactly when the text counts, which it does
    in one way only. The three readings do not compete but for the letters of roman numerals, which read as letters
    of the alphabet, and the decimal text of a number in range is a word that reads as the number. -/
theorem read_iff_counts (text : Text) :
    ((text.all Char.isDigit → text.length ≤ 4300) →
        ∃ result, read text = .ok result ∧
          ∀ value, result = some value ↔ ∃ kind : Kind, kind.Counts text value) ∧
      (∀ (kind kind' : Kind) (value value' : Nat),
        kind.Counts text value → kind'.Counts text value' → kind = kind') ∧
      ((latin? text).isSome ∨ (roman? text).isSome → readArabic text = .ok none) ∧
      ((latin? text).isSome ∧ (roman? text).isSome ↔ ∃ c ∈ romanLetters, text = [c]) ∧
      ((latin? text).isSome → read text = .ok (latin? text)) ∧
      ∀ n, 1 ≤ n → n ≤ 2 ^ 64 - 1 → ∀ name,
        (tokenize name (Nat.toDigits 10 n)).map (·.token) = [⟨.word, Nat.toDigits 10 n⟩] ∧
          Token.numeral ⟨.word, Nat.toDigits 10 n⟩ = .ok (some n) ∧
            Token.arabic ⟨.word, Nat.toDigits 10 n⟩ = .ok (some n) := by
  refine ⟨read_eq_ok, fun _ _ _ _ => Kind.eq_of_counts, readArabic_of_isSome, isSome_latin?_and_roman?_iff,
    fun hlatin => ?_, fun n hpos hle => reads_toDigits hpos hle⟩
  rw [read, readArabic_of_isSome (.inl hlatin)]
  exact congrArg Except.ok (Option.or_of_isSome hlatin)

/-- Leading zeros do not count, and the number past the largest is no numeral. -/
theorem read_of_zeros_and_border :
    read "007".toList = .ok (some 7) ∧ read "18446744073709551616".toList = .ok none := by
  obtain ⟨zeros, hzeros, hseven⟩ := (read_iff_counts "007".toList).1 (by decide)
  obtain ⟨border, hborder, hnone⟩ := (read_iff_counts "18446744073709551616".toList).1 (by decide)
  constructor
  · rw [hzeros, (hseven 7).mpr ⟨.arabic, by decide, rfl, by decide, by decide⟩]
  · rw [hborder]
    cases border with
    | none => rfl
    | some value =>
      obtain ⟨kind, h⟩ := (hnone value).mp rfl
      obtain rfl : kind = .arabic := h.kind_eq
      obtain ⟨-, hvalue, -, hle⟩ := h
      have hborder : Nat.ofDigits 10 ("18446744073709551616".toList.reverse.map digitValue) = 2 ^ 64 := rfl
      omega

end Lexeme.Numeral
