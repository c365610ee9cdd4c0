import Mathlib.Tactic.Tauto
import Lexeme.Numeral.Roman

/-! # What a roman numeral looks like

A roman numeral is its thousands, its hundreds, its tens and its ones, each written in one of a few ways
(`IsRoman`), and reading finds out just that (`roman_iff_isRoman`). A stretch of the table reads a set of
forms when reading from there accepts such a form and whatever reading from behind the stretch accepts after
it (`Reads`). The forms are put together row by row: one rule for a symbol that may be repeated, one for a
symbol with a skip. The letters of a decimal digit are the same four rows three times over. -/

namespace Lexeme.Numeral

/-! ### The written forms -/

/-- A way to write a part of a numeral, and what it is worth. -/
structure Form where
  text : Text
  value : Nat
deriving DecidableEq

/-- Thousands are counted out up to four. -/
def thousandForms : List Form :=
  [⟨[], 0⟩, ⟨['M'], 1000⟩, ⟨['M', 'M'], 2000⟩, ⟨['M', 'M', 'M'], 3000⟩, ⟨['M', 'M', 'M', 'M'], 4000⟩]

/-- A decimal digit, written with the letters for one, five and ten of its unit. Nine has two forms: one before
    ten, and four behind five. -/
def digitForms (one five ten : Char) (unit : Nat) : List Form :=
  [⟨[], 0⟩, ⟨[one], unit⟩, ⟨[one, one], 2 * unit⟩, ⟨[one, one, one], 3 * unit⟩, ⟨[one, five], 4 * unit⟩,
    ⟨[five], 5 * unit⟩, ⟨[five, one], 6 * unit⟩, ⟨[five, one, one], 7 * unit⟩,
    ⟨[five, one, one, one], 8 * unit⟩, ⟨[five, one, five], 9 * unit⟩, ⟨[one, ten], 9 * unit⟩]

/-- A text is a form of the thousands, the hundreds, the tens and the ones in turn, worth their sum. -/
def IsRoman (text : Text) (value : Nat) : Prop :=
  ∃ thousands ∈ thousandForms, ∃ hundreds ∈ digitForms 'C' 'D' 'M' 100,
    ∃ tens ∈ digitForms 'X' 'L' 'C' 10, ∃ ones ∈ digitForms 'I' 'V' 'X' 1,
      text = thousands.text ++ hundreds.text ++ tens.text ++ ones.text ∧
        value = thousands.value + hundreds.value + tens.value + ones.value

instance (text : Text) (value : Nat) : Decidable (IsRoman text value) :=
  inferInstanceAs (Decidable (∃ thousands ∈ thousandForms, ∃ hundreds ∈ digitForms 'C' 'D' 'M' 100,
    ∃ tens ∈ digitForms 'X' 'L' 'C' 10, ∃ ones ∈ digitForms 'I' 'V' 'X' 1, _ ∧ _))

/-! ### How large a numeral is -/

/-- A form has so many letters at most, all of them in upper case, is worth so much at most, and is worth
    something unless it is empty. -/
structure Form.Fits (form : Form) (letters most : Nat) : Prop where
  length_le : form.text.length ≤ letters
  value_le : form.value ≤ most
  value_eq_zero : form.value = 0 ↔ form.text = []
  isUpper : form.text.all Char.isUpper

theorem Form.Fits.append {a b : Form} {letters letters' most most' : Nat} (ha : a.Fits letters most)
    (hb : b.Fits letters' most') :
    Form.Fits ⟨a.text ++ b.text, a.value + b.value⟩ (letters + letters') (most + most') where
  length_le := by
    rw [List.length_append]
    exact Nat.add_le_add ha.length_le hb.length_le
  value_le := Nat.add_le_add ha.value_le hb.value_le
  value_eq_zero := by
    rw [Nat.add_eq_zero_iff, List.append_eq_nil_iff, ha.value_eq_zero, hb.value_eq_zero]
  isUpper := by rw [List.all_append, ha.isUpper, hb.isUpper, Bool.and_self]

theorem fits_thousands : ∀ form ∈ thousandForms, form.Fits 4 4000 := by
  intro form hform
  simp only [thousandForms, List.mem_cons, List.not_mem_nil, or_false] at hform
  rcases hform with rfl | rfl | rfl | rfl | rfl <;> constructor <;> decide

theorem fits_digit {one five ten : Char} {unit : Nat} (hunit : 0 < unit)
    (hupper : one.isUpper ∧ five.isUpper ∧ ten.isUpper) :
    ∀ form ∈ digitForms one five ten unit, form.Fits 4 (9 * unit) := by
  intro form hform
  obtain ⟨h1, h5, h10⟩ := hupper
  simp only [digitForms, List.mem_cons, List.not_mem_nil, or_false] at hform
  rcases hform with rfl | rfl | rfl | rfl | rfl | rfl | rfl | rfl | rfl | rfl | rfl <;>
    constructor <;> simp [h1, h5, h10] <;> omega

theorem IsRoman.fits {text : Text} {value : Nat} (h : IsRoman text value) : Form.Fits ⟨text, value⟩ 16 4999 := by
  obtain ⟨thousands, hT, hundreds, hH, tens, hE, ones, hO, rfl, rfl⟩ := h
  have hfits := (((fits_thousands thousands hT).append (fits_digit (by decide) (by decide) hundreds hH)).append
    (fits_digit (by decide) (by decide) tens hE)).append (fits_digit (by decide) (by decide) ones hO)
  exact hfits

/-! ### One row of the table -/

/-- Reading starts afresh from some rows, with the value so far. -/
def RomanProgress.resume (rows : List RomanRow) (total : Nat) : RomanProgress :=
  { allowed := rows, last := none, times := 0, total }

/-- The letters that a symbol of some rows begins with. -/
def initials (rows : List RomanRow) : List Char :=
  rows.filterMap (·.symbol.head?)

section
variable {p : RomanProgress} {row : RomanRow} {rows onward : List RomanRow} {text s : Text}
  {total value : Nat} {c : Char}

theorem head_mem_initials (hrow : row ∈ rows) (hsymbol : row.symbol = c :: s) : c ∈ initials rows :=
  List.mem_filterMap.mpr ⟨row, hrow, by rw [hsymbol]; rfl⟩

theorem symbol_ne_of_notMem (hc : c ∉ initials rows) : ∀ row ∈ rows, row.symbol ≠ c :: s :=
  fun _ hrow hsymbol => hc (head_mem_initials hrow hsymbol)

theorem not_prefix_of_notMem (hc : c ∉ initials rows) (hu : ∀ c ∈ text.head?, c ∈ initials rows) :
    ¬c :: s <+: text := by
  rintro ⟨t, rfl⟩
  exact hc (hu c rfl)

theorem of_rowsOpening (h : rowsOpening rows text = row :: onward) : row ∈ rows ∧ row.symbol <+: text := by
  have hrow : row ∈ rowsOpening rows text := h ▸ List.mem_cons_self
  have hopens := List.head?_dropWhile_not (fun row : RomanRow => !row.symbol.isPrefixOf text) rows
  rw [rowsOpening] at h hrow
  refine ⟨(List.dropWhile_suffix _).subset hrow, ?_⟩
  simpa [h] using hopens

/-- Reading goes by the first row or, where its symbol does not come next, by the rows after it. -/
theorem romanFrom_cons (hp : p.allowed = row :: onward) :
    romanFrom p text = some value ↔
      (∃ u, text = row.symbol ++ u ∧ ∃ p', p.read row onward = some p' ∧ romanFrom p' u = some value) ∨
        ¬row.symbol <+: text ∧ romanFrom { p with allowed := onward } text = some value := by
  cases text with
  | nil => simp [romanFrom, row.symbol_ne_nil]
  | cons c t =>
    by_cases hbegins : row.symbol <+: c :: t
    · obtain ⟨u, hu⟩ := hbegins
      have hopening : rowsOpening p.allowed (c :: t) = row :: onward := by
        simp [hp, rowsOpening, ← hu]
      rw [romanFrom, hopening]
      simp only [← hu, List.drop_left, List.append_cancel_left_eq, exists_eq_left', List.prefix_append,
        not_true_eq_false, false_and, or_false]
      cases p.read row onward <;> simp
    · have hopening : rowsOpening p.allowed (c :: t) = rowsOpening onward (c :: t) := by
        simp [hp, rowsOpening, List.dropWhile_cons, hbegins]
      have hnext : romanFrom p (c :: t) = romanFrom { p with allowed := onward } (c :: t) := by
        rw [romanFrom, romanFrom, hopening]
        rfl
      have hno : ¬∃ u, c :: t = row.symbol ++ u ∧
          ∃ p', p.read row onward = some p' ∧ romanFrom p' u = some value := by
        rintro ⟨u, hu, -⟩
        exact hbegins (hu ▸ List.prefix_append _ _)
      simp [hno, hbegins, hnext]

/-- What reading accepts begins with a letter that a row allows. -/
theorem head_mem_of_romanFrom (h : romanFrom p text = some value) : ∀ c ∈ text.head?, c ∈ initials p.allowed := by
  intro c hc
  obtain ⟨t, rfl⟩ := List.head?_eq_some_iff.mp hc
  rw [romanFrom] at h
  cases hopening : rowsOpening p.allowed (c :: t) with
  | nil => simp [hopening] at h
  | cons row onward =>
    obtain ⟨hrow, hbegins⟩ := of_rowsOpening hopening
    obtain ⟨d, s, hsymbol⟩ := List.exists_cons_of_ne_nil row.symbol_ne_nil
    rw [hsymbol, List.cons_prefix_cons] at hbegins
    exact head_mem_initials hrow (hbegins.1 ▸ hsymbol)

/-- The symbol read last does not matter where no row allows it. -/
theorem romanFrom_eq_resume (h : ∀ row ∈ p.allowed, p.last ≠ some row.symbol) :
    romanFrom p text = romanFrom (.resume p.allowed p.total) text := by
  cases text with
  | nil => simp [romanFrom, RomanProgress.resume]
  | cons c t =>
    rw [romanFrom, romanFrom]
    simp only [RomanProgress.resume]
    cases hopening : rowsOpening p.allowed (c :: t) with
    | nil => rfl
    | cons row onward =>
      have hlast := h row (of_rowsOpening hopening).1
      simp [RomanProgress.read, hlast]

/-- Reading to the end of the table accepts nothing more, and no numeral is worth nothing. -/
theorem romanFrom_resume_nil :
    romanFrom (.resume [] total) text = some value ↔ text = [] ∧ total ≠ 0 ∧ value = total := by
  cases text with
  | nil => by_cases htotal : total = 0 <;> simp [romanFrom, RomanProgress.resume, htotal, eq_comm]
  | cons c t => simp [romanFrom, RomanProgress.resume, rowsOpening]

end

/-! ### A stretch of the table -/

/-- Reading from `rows` accepts one of the forms and then what reading from `rest` accepts after it. -/
def Reads (rows : List RomanRow) (forms : List Form) (rest : List RomanRow) : Prop :=
  ∀ total text value, romanFrom (.resume rows total) text = some value ↔
    ∃ form ∈ forms, ∃ u, text = form.text ++ u ∧ romanFrom (.resume rest (total + form.value)) u = some value

/-- The forms that begin with the symbol of a row. -/
def RomanRow.leading (row : RomanRow) (forms : List Form) : List Form :=
  forms.map fun form => ⟨row.symbol ++ form.text, row.value + form.value⟩

/-- The forms that repeat the symbol of a row. -/
def RomanRow.repeated (row : RomanRow) : List Form :=
  (List.range (repeatLimit + 1)).map fun n => ⟨(List.replicate n row.symbol).flatten, n * row.value⟩

section
variable {row : RomanRow} {rows onward rest : List RomanRow} {fs gs : List Form}

theorem Reads.refl (rows : List RomanRow) : Reads rows [⟨[], 0⟩] rows := by
  intro total text value
  simp

theorem Reads.of_mem_iff (h : Reads rows fs rest) (hmem : ∀ form, form ∈ fs ↔ form ∈ gs) :
    Reads rows gs rest := by
  intro total text value
  simp only [h total text value, hmem]

/-- A symbol with a skip comes once and leads on to the rows behind the skip, or it does not come and the next
    row is tried; no form from there looks as if it had come. -/
theorem Reads.skip (row : RomanRow) (hafter : Reads rows fs rest) (hbefore : Reads onward gs rest)
    (hskip : (row :: onward).drop row.skip = rows) (honce : ∀ r ∈ rows, r.symbol ≠ row.symbol)
    (hapart : ∀ u : Text, (∀ c ∈ u.head?, c ∈ initials rest) → ∀ form ∈ gs, ¬row.symbol <+: form.text ++ u) :
    Reads (row :: onward) (row.leading fs ++ gs) rest := by
  intro total text value
  have hread : (RomanProgress.resume (row :: onward) total).read row onward =
      some ⟨rows, some row.symbol, 1, total + row.value⟩ := by
    simp [RomanProgress.read, RomanProgress.resume, hskip]
  have hgo : ∀ u, romanFrom ⟨rows, some row.symbol, 1, total + row.value⟩ u =
      romanFrom (.resume rows (total + row.value)) u := fun u =>
    romanFrom_eq_resume fun r hr => by simpa using (honce r hr).symm
  rw [romanFrom_cons rfl, hread]
  simp only [Option.some.injEq, exists_eq_left', hgo, hafter _ _ value]
  change _ ∨ _ ∧ romanFrom (.resume onward total) text = some value ↔ _
  rw [hbefore total text value]
  constructor
  · rintro (⟨_, rfl, form, hform, u, rfl, h⟩ | ⟨-, form, hform, u, rfl, h⟩)
    · refine ⟨_, List.mem_append_left _ (List.mem_map_of_mem hform), u, by simp, ?_⟩
      simpa [Nat.add_assoc] using h
    · exact ⟨form, List.mem_append_right _ hform, u, rfl, h⟩
  · rintro ⟨form, hform, u, rfl, h⟩
    rcases List.mem_append.mp hform with hform | hform
    · obtain ⟨behind, hbehind, rfl⟩ := List.mem_map.mp hform
      refine .inl ⟨behind.text ++ u, by simp, behind, hbehind, u, rfl, ?_⟩
      simpa [Nat.add_assoc] using h
    · -- A form from the next row is read there only if the symbol is not taken before.
      exact .inr ⟨hapart u (head_mem_of_romanFrom h) form hform, form, hform, u, rfl, h⟩

/-- A symbol without a skip has come `n` times. -/
def RomanProgress.counting (row : RomanRow) (rest : List RomanRow) (n total : Nat) : RomanProgress :=
  { allowed := row :: rest, last := if n = 0 then none else some row.symbol, times := n, total }

theorem read_counting {n total : Nat} (hskip : row.skip = 0) :
    (RomanProgress.counting row rest n total).read row rest =
      if n < repeatLimit then some (.counting row rest (n + 1) (total + row.value)) else none := by
  cases n with
  | zero => simp [RomanProgress.read, RomanProgress.counting, hskip, repeatLimit]
  | succ n =>
    have hlimit : repeatLimit < n + 1 + 1 ↔ ¬n + 1 < repeatLimit := by omega
    by_cases hlt : n + 1 < repeatLimit <;>
      simp only [RomanProgress.read, RomanProgress.counting, Nat.succ_ne_zero, if_true, if_false, hskip, ne_eq,
        not_true_eq_false, not_false_eq_true, false_or, and_false, and_true, hlimit, hlt, List.drop_zero]

/-- The symbol comes once more, below the limit, or it has come often enough: the rows behind it do not begin
    like it. -/
theorem romanFrom_counting {n total value : Nat} {text : Text} (hskip : row.skip = 0)
    (hrest : ∀ c ∈ row.symbol.head?, c ∉ initials rest) :
    romanFrom (.counting row rest n total) text = some value ↔
      (n < repeatLimit ∧ ∃ u, text = row.symbol ++ u ∧
        romanFrom (.counting row rest (n + 1) (total + row.value)) u = some value) ∨
      romanFrom (.resume rest total) text = some value := by
  obtain ⟨c, s, hsymbol⟩ := List.exists_cons_of_ne_nil row.symbol_ne_nil
  have hc : c ∉ initials rest := hrest c (by rw [hsymbol]; rfl)
  have hlast : ∀ r ∈ rest, (RomanProgress.counting row rest n total).last ≠ some r.symbol := by
    intro r hr
    have hne : row.symbol ≠ r.symbol := hsymbol ▸ (symbol_ne_of_notMem hc r hr).symm
    cases n <;> simp [RomanProgress.counting, hne]
  have hstop : romanFrom (.resume rest total) text = some value → ¬row.symbol <+: text := fun h =>
    hsymbol ▸ not_prefix_of_notMem hc (head_mem_of_romanFrom h)
  rw [romanFrom_cons rfl, read_counting hskip, romanFrom_eq_resume hlast]
  refine or_congr ?_ (and_iff_right_of_imp hstop)
  by_cases hn : n < repeatLimit <;> simp [hn]

/-- After some of the three, the symbol comes as often as is left. -/
theorem romanFrom_counting_iff (hskip : row.skip = 0) (hrest : ∀ c ∈ row.symbol.head?, c ∉ initials rest)
    {n k total value : Nat} {text : Text} (hn : n + k = repeatLimit) :
    romanFrom (.counting row rest n total) text = some value ↔
      ∃ m < k + 1, ∃ u, text = (List.replicate m row.symbol).flatten ++ u ∧
        romanFrom (.resume rest (total + m * row.value)) u = some value := by
  -- By how often the symbol may still come.
  induction k generalizing n total text with
  | zero =>
    have hfull : ¬n < repeatLimit := by omega
    rw [romanFrom_counting hskip hrest]
    simp [hfull]
  | succ k ih =>
    have hmore : n < repeatLimit := by omega
    rw [romanFrom_counting hskip hrest]
    simp only [hmore, true_and, ih (show n + 1 + k = repeatLimit by omega)]
    constructor
    · rintro (⟨_, rfl, m, hm, u, rfl, h⟩ | h)
      · refine ⟨m + 1, by omega, u, by simp [List.replicate_succ], ?_⟩
        rwa [Nat.succ_mul, Nat.add_comm (m * row.value), ← Nat.add_assoc]
      · exact ⟨0, by omega, text, by simp, by simpa using h⟩
    · rintro ⟨m, hm, u, rfl, h⟩
      cases m with
      | zero => exact .inr (by simpa using h)
      | succ m =>
        refine .inl ⟨_, by simp [List.replicate_succ], m, by omega, u, rfl, ?_⟩
        rwa [Nat.succ_mul, Nat.add_comm (m * row.value), ← Nat.add_assoc] at h

/-- A symbol without a skip is repeated up to the limit, where the rows behind it do not begin like it. -/
theorem Reads.repeated (row : RomanRow) (hskip : row.skip = 0)
    (hrest : ∀ c ∈ row.symbol.head?, c ∉ initials rest) : Reads (row :: rest) row.repeated rest := by
  intro total text value
  have hstart : RomanProgress.resume (row :: rest) total = .counting row rest 0 total := rfl
  simpa [RomanRow.repeated, hstart] using romanFrom_counting_iff hskip hrest (Nat.zero_add repeatLimit)

end

/-! ### The rows of a digit -/

section
variable {rest : List RomanRow} {one five ten : Char} {unit : Nat}

theorem repeated_eq (row : RomanRow) : row.repeated =
    [⟨[], 0⟩, ⟨row.symbol, row.value⟩, ⟨row.symbol ++ row.symbol, 2 * row.value⟩,
      ⟨row.symbol ++ (row.symbol ++ row.symbol), 3 * row.value⟩] := by
  simp [RomanRow.repeated, repeatLimit, List.range_succ, List.replicate_succ]

/-- The rows for what is below five. -/
def lowRows (one five : Char) (unit : Nat) : List RomanRow :=
  [⟨[one, five], 2, 4 * unit, List.cons_ne_nil _ _⟩, ⟨[one], 0, unit, List.cons_ne_nil _ _⟩]

/-- What is below five: four is one before five, the rest is counted out. -/
def lowForms (one five : Char) (unit : Nat) : List Form :=
  [⟨[one, five], 4 * unit⟩, ⟨[], 0⟩, ⟨[one], unit⟩, ⟨[one, one], 2 * unit⟩, ⟨[one, one, one], 3 * unit⟩]

theorem reads_low (hletters : one ≠ five) (hone : one ∉ initials rest) (hfive : five ∉ initials rest) :
    Reads (lowRows one five unit ++ rest) (lowForms one five unit) rest := by
  have hcounted := Reads.repeated ⟨[one], 0, unit, List.cons_ne_nil _ _⟩ rfl (by simpa using hone)
  rw [repeated_eq] at hcounted
  refine Reads.skip ⟨[one, five], 2, 4 * unit, _⟩ (.refl rest) hcounted rfl (symbol_ne_of_notMem hone) ?_
  intro u hu
  simp [not_prefix_of_notMem hone hu, not_prefix_of_notMem hfive hu, hletters.symm]

/-- The rows of a decimal digit. -/
def digitRows (one five ten : Char) (unit : Nat) : List RomanRow :=
  ⟨[one, ten], 4, 9 * unit, List.cons_ne_nil _ _⟩ :: ⟨[five], 1, 5 * unit, List.cons_ne_nil _ _⟩ ::
    lowRows one five unit

/-- A digit is one before ten, something below five behind five, or something below five. -/
theorem mem_digitForms {form : Form} :
    form ∈ digitForms one five ten unit ↔ form = ⟨[one, ten], 9 * unit⟩ ∨
      form ∈ (lowForms one five unit).map (fun low => ⟨five :: low.text, 5 * unit + low.value⟩) ∨
      form ∈ lowForms one five unit := by
  have hsum : 5 * unit + 4 * unit = 9 * unit ∧ 5 * unit + unit = 6 * unit ∧ 5 * unit + 2 * unit = 7 * unit ∧
      5 * unit + 3 * unit = 8 * unit := by omega
  simp only [digitForms, lowForms, List.map_cons, List.map_nil, List.mem_cons, List.not_mem_nil, Nat.add_zero, hsum]
  tauto

/-- The rows of a digit read its forms, where its letters differ and no row behind them begins with one. What is
    below five may stand alone or behind five. -/
theorem reads_digit (hletters : [one, five, ten].Nodup)
    (hrest : one ∉ initials rest ∧ five ∉ initials rest ∧ ten ∉ initials rest) :
    Reads (digitRows one five ten unit ++ rest) (digitForms one five ten unit) rest := by
  obtain ⟨⟨h15, h110⟩, h510⟩ : (one ≠ five ∧ one ≠ ten) ∧ five ≠ ten := by simpa using hletters
  obtain ⟨h1, h5, h10⟩ := hrest
  have hlow : Reads (lowRows one five unit ++ rest) (lowForms one five unit) rest := reads_low h15 h1 h5
  -- The skip of five leads to the row of four, so that four may come behind five.
  have hfive : Reads (⟨[five], 1, 5 * unit, _⟩ :: (lowRows one five unit ++ rest)) _ rest :=
    Reads.skip ⟨[five], 1, 5 * unit, List.cons_ne_nil _ _⟩ hlow hlow rfl
      (by simpa [lowRows, h15] using symbol_ne_of_notMem h5)
      (fun u hu => by simp [lowForms, not_prefix_of_notMem h5 hu, h15.symm])
  have hnine := Reads.skip ⟨[one, ten], 4, 9 * unit, List.cons_ne_nil _ _⟩ (.refl rest) hfive rfl
    (symbol_ne_of_notMem h1)
    (fun u hu => by
      simp [RomanRow.leading, lowForms, not_prefix_of_notMem h1 hu, not_prefix_of_notMem h10 hu, h110.symm, h15,
        h510.symm])
  refine hnine.of_mem_iff fun form => ?_
  simp only [mem_digitForms, RomanRow.leading, List.map_cons, List.map_nil, List.cons_append, List.nil_append,
    List.mem_cons, List.mem_append, Nat.add_zero]

end

/-! ### The whole table -/

/-- The rows for the ones, the tens and the hundreds, each with the rows behind them. -/
def onesRows : List RomanRow := digitRows 'I' 'V' 'X' 1 ++ []

def tensRows : List RomanRow := digitRows 'X' 'L' 'C' 10 ++ onesRows

def hundredsRows : List RomanRow := digitRows 'C' 'D' 'M' 100 ++ tensRows

theorem romanRows_eq :
    romanRows = { symbol := ['M', 'M', 'M', 'M'], skip := 2, value := 4000 } ::
      { symbol := ['M'], skip := 0, value := 1000 } :: hundredsRows :=
  rfl

theorem reads_thousands : Reads romanRows thousandForms hundredsRows := by
  have hrest : 'M' ∉ initials hundredsRows := by decide
  have hcounted := Reads.repeated { symbol := ['M'], skip := 0, value := 1000 } rfl (by simpa using hrest)
  rw [repeated_eq] at hcounted
  have hfour := Reads.skip { symbol := ['M', 'M', 'M', 'M'], skip := 2, value := 4000 } (.refl _) hcounted rfl
    (symbol_ne_of_notMem hrest) (fun u hu => by simp [not_prefix_of_notMem hrest hu])
  rw [romanRows_eq]
  refine hfour.of_mem_iff fun form => ?_
  simp only [thousandForms, RomanRow.leading, List.map_cons, List.map_nil, List.mem_append, List.mem_cons,
    List.not_mem_nil]
  tauto

/-- The whole table reads the forms of the digits in turn. -/
theorem romanFrom_start {text : Text} {value : Nat} :
    romanFrom .start text = some value ↔ IsRoman text value ∧ value ≠ 0 := by
  have hhundreds : Reads hundredsRows _ tensRows := reads_digit (by decide) (by decide)
  have htens : Reads tensRows _ onesRows := reads_digit (by decide) (by decide)
  have hones : Reads onesRows _ [] := reads_digit (by decide) (by decide)
  constructor
  · intro h
    obtain ⟨thousands, hT, _, rfl, h₁⟩ := (reads_thousands 0 _ _).mp h
    obtain ⟨hundreds, hH, _, rfl, h₂⟩ := (hhundreds _ _ _).mp h₁
    obtain ⟨tens, hE, _, rfl, h₃⟩ := (htens _ _ _).mp h₂
    obtain ⟨ones, hO, _, rfl, h₄⟩ := (hones _ _ _).mp h₃
    obtain ⟨rfl, hpos, rfl⟩ := romanFrom_resume_nil.mp h₄
    exact ⟨⟨thousands, hT, hundreds, hH, tens, hE, ones, hO, by simp, by rw [Nat.zero_add]⟩, hpos⟩
  · rintro ⟨⟨thousands, hT, hundreds, hH, tens, hE, ones, hO, rfl, rfl⟩, hpos⟩
    have h : romanFrom (.resume [] (0 + thousands.value + hundreds.value + tens.value + ones.value)) [] =
        some (thousands.value + hundreds.value + tens.value + ones.value) :=
      romanFrom_resume_nil.mpr ⟨rfl, by rwa [Nat.zero_add], by rw [Nat.zero_add]⟩
    refine (reads_thousands 0 _ _).mpr ⟨thousands, hT, hundreds.text ++ (tens.text ++ ones.text), by simp, ?_⟩
    refine (hhundreds _ _ _).mpr ⟨hundreds, hH, _, rfl, (htens _ _ _).mpr ⟨tens, hE, _, rfl, ?_⟩⟩
    exact (hones _ _ _).mpr ⟨ones, hO, [], (List.append_nil _).symm, h⟩

/-! ### The language -/

theorem length_raised (text : Text) : (raised text).length = text.length := by
  unfold raised
  split <;> simp

/-- Letters in upper case come from a text in lower case or are the text itself. -/
theorem isLower_or_isUpper_of_raised {text : Text} (h : (raised text).all Char.isUpper) :
    text.all Char.isLower ∨ text.all Char.isUpper := by
  by_cases hlower : text.all Char.isLower
  · exact .inl hlower
  · rw [raised, if_neg hlower] at h
    exact .inr h

/-- A text is a numeral exactly when, raised, it is not empty and spells one. So a numeral is worth 4999 at most,
    has sixteen letters at most, and does not mix the cases. -/
theorem roman_iff_isRoman (text : Text) :
    (∀ value, roman? text = some value ↔ raised text ≠ [] ∧ IsRoman (raised text) value) ∧
      (∀ value, roman? text = some value →
        (1 ≤ value ∧ value ≤ 4999) ∧ (text.all Char.isLower ∨ text.all Char.isUpper)) ∧
      (16 < text.length → roman? text = none) := by
  have hspelled : ∀ {value}, roman? text = some value ↔ IsRoman (raised text) value ∧ value ≠ 0 := romanFrom_start
  refine ⟨fun value => ?_, fun value h => ?_, fun hlong => ?_⟩
  · rw [hspelled, and_comm]
    exact and_congr_left fun h => not_congr h.fits.value_eq_zero
  · obtain ⟨hroman, hpos⟩ := hspelled.mp h
    exact ⟨⟨Nat.one_le_iff_ne_zero.mpr hpos, hroman.fits.value_le⟩,
      isLower_or_isUpper_of_raised hroman.fits.isUpper⟩
  · refine Option.eq_none_iff_forall_ne_some.mpr fun value h => ?_
    have hlength : (raised text).length ≤ 16 := (hspelled.mp h).1.fits.length_le
    rw [length_raised] at hlength
    omega

/-- Ninety as forty behind fifty, in lower case; one letter more than the longest numeral; and a mixed text. -/
theorem roman_of_long_and_mixed :
    roman? "lxl".toList = some 90 ∧
      (16 < "MMMMDCCCLXXXVIIII".toList.length ∧ roman? "MMMMDCCCLXXXVIIII".toList = none) ∧
      roman? "McM".toList = none := by
  have hlong : 16 < "MMMMDCCCLXXXVIIII".toList.length := by decide
  refine ⟨((roman_iff_isRoman _).1 90).mpr (by decide), ⟨hlong, (roman_iff_isRoman _).2.2 hlong⟩, ?_⟩
  refine Option.eq_none_iff_forall_ne_some.mpr fun value h => ?_
  exact absurd ((roman_iff_isRoman _).2.1 value h).2 (by decide)

end Lexeme.Numeral
