import Lexeme.Encoding.Decoder

/-! # Writing characters in a form

What a form writes for a character, it reads as this character and keeps nothing (`scan_encodeChar`). So a
text that is written in a form is read back character by character (`scan_encode`). -/

namespace Lexeme.Encoding

theorem toNat_ofNat {n : Nat} (h : n < 256) : (UInt8.ofNat n).toNat = n :=
  UInt8.toNat_ofNat_of_lt' h

/-! ### UTF-8 -/

namespace Utf8

section
variable {a b c d : Octet}

theorem scan_one (hw : width? a = some 1) : Settled.scan push [] [a] = ⟨[.char (charOf [a]) [a]], []⟩ := by
  simp [Settled.scan, push, start, hw]

theorem scan_two (hw : width? a = some 2) (hb : isSecond a b) :
    Settled.scan push [] [a, b] = ⟨[.char (charOf [a, b]) [a, b]], []⟩ := by
  simp [Settled.scan, push, start, continues, hw, hb]

theorem scan_three (hw : width? a = some 3) (hb : isSecond a b) (hs : opensSurrogate [a, b] = false)
    (hc : isTail c) : Settled.scan push [] [a, b, c] = ⟨[.char (charOf [a, b, c]) [a, b, c]], []⟩ := by
  simp [Settled.scan, push, start, continues, hw, hb, hs, hc]

theorem scan_four (hw : width? a = some 4) (hb : isSecond a b) (hs : opensSurrogate [a, b] = false)
    (hc : isTail c) (hd : isTail d) :
    Settled.scan push [] [a, b, c, d] = ⟨[.char (charOf [a, b, c, d]) [a, b, c, d]], []⟩ := by
  have hthree : opensSurrogate [a, b, c] = false := rfl
  simp [Settled.scan, push, start, continues, hw, hb, hs, hc, hd, hthree]

/-! The tests on octets, as tests on numbers. -/

theorem width?_eq (b : Octet) :
    width? b = if b.toNat < 0x80 then some 1 else if b.toNat < 0xc2 then none else if b.toNat < 0xe0 then some 2
      else if b.toNat < 0xf0 then some 3 else if b.toNat < 0xf5 then some 4 else none := by
  simp only [width?, UInt8.lt_iff_toNat_lt]
  rfl

theorem isTail_iff : isTail b ↔ 0x80 ≤ b.toNat ∧ b.toNat ≤ 0xbf := by
  simp [isTail, UInt8.le_iff_toNat_le]

theorem isSecond_iff : isSecond a b ↔ 0x80 ≤ b.toNat ∧ b.toNat ≤ 0xbf ∧ (a.toNat = 0xe0 → 0xa0 ≤ b.toNat) ∧
    (a.toNat = 0xf0 → 0x90 ≤ b.toNat) ∧ (a.toNat = 0xf4 → b.toNat ≤ 0x8f) := by
  have he0 : a = 0xe0 ↔ a.toNat = 0xe0 := UInt8.toNat_inj.symm
  have hf0 : a = 0xf0 ↔ a.toNat = 0xf0 := UInt8.toNat_inj.symm
  have hf4 : a = 0xf4 ↔ a.toNat = 0xf4 := UInt8.toNat_inj.symm
  simp only [isSecond, he0, hf0, hf4]
  split
  · simp [UInt8.le_iff_toNat_le]
    omega
  · split
    · simp [UInt8.le_iff_toNat_le]
      omega
    · split
      · simp [UInt8.le_iff_toNat_le]
        omega
      · rw [isTail_iff]
        omega

theorem opensSurrogate_iff : opensSurrogate [a, b] ↔ a.toNat = 0xed ∧ 0xa0 ≤ b.toNat := by
  simp [opensSurrogate, UInt8.le_iff_toNat_le, ← UInt8.toNat_inj]

end

/-! An octet after the first carries six bits of the code point. -/

theorem toNat_tail (n : Nat) : (UInt8.ofNat (n % 0x40 + 0x80)).toNat = n % 0x40 + 0x80 :=
  toNat_ofNat (by omega)

theorem isTail_tail (n : Nat) : isTail (UInt8.ofNat (n % 0x40 + 0x80)) := by
  rw [isTail_iff, toNat_tail]
  omega

theorem scan_encodeChar (c : Char) :
    Settled.scan push [] (String.utf8EncodeChar c) = ⟨[.char c (String.utf8EncodeChar c)], []⟩ := by
  have hchar : ∀ octets, codePoint octets = c.val.toNat → charOf octets = c := by
    intro octets h
    rw [charOf, h]
    exact Char.ofNat_toNat c
  have hvalid : c.val.toNat < 0xd800 ∨ 0xdfff < c.val.toNat ∧ c.val.toNat < 0x110000 := c.valid
  rw [String.utf8EncodeChar]
  generalize c.val.toNat = v at hchar hvalid ⊢
  split
  · have ha := toNat_ofNat (n := v) (by omega)
    rw [scan_one, hchar]
    · rw [codePoint, ha]
    · rw [width?_eq, ha, if_pos (by omega)]
  · split
    · have ha := toNat_ofNat (n := v / 64 % 0x20 + 0xc0) (by omega)
      rw [scan_two, hchar]
      · rw [codePoint, ha, toNat_tail]
        omega
      · rw [width?_eq, ha, if_neg (by omega), if_neg (by omega), if_pos (by omega)]
      · rw [isSecond_iff, ha, toNat_tail]
        omega
    · split
      · have ha := toNat_ofNat (n := v / 4096 % 0x10 + 0xe0) (by omega)
        rw [scan_three _ _ _ (isTail_tail v), hchar]
        · rw [codePoint, ha, toNat_tail, toNat_tail]
          omega
        · rw [width?_eq, ha, if_neg (by omega), if_neg (by omega), if_neg (by omega), if_pos (by omega)]
        · rw [isSecond_iff, ha, toNat_tail]
          omega
        · -- The code points that would open a surrogate are those of no character.
          rw [Bool.eq_false_iff, Ne, opensSurrogate_iff, ha, toNat_tail]
          omega
      · have ha := toNat_ofNat (n := v / 262144 % 0x08 + 0xf0) (by omega)
        rw [scan_four _ _ _ (isTail_tail (v / 64)) (isTail_tail v), hchar]
        · rw [codePoint, ha, toNat_tail, toNat_tail, toNat_tail]
          omega
        · rw [width?_eq, ha, if_neg (by omega), if_neg (by omega), if_neg (by omega), if_neg (by omega),
            if_pos (by omega)]
        · rw [isSecond_iff, ha, toNat_tail]
          omega
        · rw [Bool.eq_false_iff, Ne, opensSurrogate_iff, ha]
          omega

end Utf8

/-! ### UTF-16 -/

namespace Utf16

def unitOctets : ByteOrder → Nat → List Octet
  | .little, u => [UInt8.ofNat (u % 256), UInt8.ofNat (u / 256)]
  | .big, u => [UInt8.ofNat (u / 256), UInt8.ofNat (u % 256)]

/-- The octets of a character: one unit, or the two units of a surrogate pair. -/
def encodeChar (order : ByteOrder) (c : Char) : List Octet :=
  if c.toNat < 0x10000 then unitOctets order c.toNat
  else unitOctets order (0xd800 + (c.toNat - 0x10000) / 0x400) ++
    unitOctets order (0xdc00 + (c.toNat - 0x10000) % 0x400)

theorem unit_of_unitOctets (order : ByteOrder) {u : Nat} (h : u < 0x10000) :
    ∃ a b, unitOctets order u = [a, b] ∧ unit order a b = u := by
  have hlow : (UInt8.ofNat (u % 256)).toNat = u % 256 := toNat_ofNat (by omega)
  have hhigh : (UInt8.ofNat (u / 256)).toNat = u / 256 := toNat_ofNat (by omega)
  cases order with
  | little =>
    refine ⟨_, _, rfl, ?_⟩
    rw [unit, hlow, hhigh]
    omega
  | big =>
    refine ⟨_, _, rfl, ?_⟩
    rw [unit, hlow, hhigh]
    omega

theorem scan_unit {order : ByteOrder} {a b : Octet} (hhigh : isHigh (unit order a b) = false)
    (hlow : isLow (unit order a b) = false) :
    Settled.scan (push order) [] [a, b] = ⟨[.char (Char.ofNat (unit order a b)) [a, b]], []⟩ := by
  simp [Settled.scan, push, start, hhigh, hlow]

theorem scan_pair {order : ByteOrder} {a b c d : Octet} (hhigh : isHigh (unit order a b))
    (hlow : isLow (unit order c d)) :
    Settled.scan (push order) [] [a, b, c, d] =
      ⟨[.char (pairChar (unit order a b) (unit order c d)) [a, b, c, d]], []⟩ := by
  simp [Settled.scan, push, start, hhigh, hlow]

theorem scan_encodeChar (order : ByteOrder) (c : Char) :
    Settled.scan (push order) [] (encodeChar order c) = ⟨[.char c (encodeChar order c)], []⟩ := by
  have hvalid : c.toNat < 0xd800 ∨ 0xdfff < c.toNat ∧ c.toNat < 0x110000 := c.valid
  rw [encodeChar]
  split
  · obtain ⟨a, b, hoctets, hunit⟩ := unit_of_unitOctets order (u := c.toNat) (by omega)
    rw [hoctets, scan_unit, hunit, Char.ofNat_toNat]
    · simp [isHigh, hunit]
      omega
    · simp [isLow, hunit]
      omega
  · obtain ⟨a, b, hfirst, hhigh⟩ :=
      unit_of_unitOctets order (u := 0xd800 + (c.toNat - 0x10000) / 0x400) (by omega)
    obtain ⟨d, e, hsecond, hlow⟩ :=
      unit_of_unitOctets order (u := 0xdc00 + (c.toNat - 0x10000) % 0x400) (by omega)
    have hpair : pairChar (unit order a b) (unit order d e) = c := by
      rw [hhigh, hlow, pairChar]
      have hcode : 0x10000 + (0xd800 + (c.toNat - 0x10000) / 0x400 - 0xd800) * 0x400 +
          (0xdc00 + (c.toNat - 0x10000) % 0x400 - 0xdc00) = c.toNat := by omega
      rw [hcode, Char.ofNat_toNat]
    rw [hfirst, hsecond, List.cons_append, List.cons_append, List.nil_append, scan_pair, hpair]
    · simp [isHigh, hhigh]
      omega
    · simp [isLow, hlow]
      omega

end Utf16

/-! ### All forms -/

namespace Form

/-- The characters that a form can write. -/
def Covers : Form → Char → Prop
  | ascii, c => c.toNat < 0x80
  | latin1, c => c.toNat < 0x100
  | utf8, _ => True
  | utf16 _, _ => True

/-- The octets that a form writes for a character that it covers. -/
def encodeChar : Form → Char → List Octet
  | utf8, c => String.utf8EncodeChar c
  | utf16 order, c => Utf16.encodeChar order c
  | ascii, c => [UInt8.ofNat c.toNat]
  | latin1, c => [UInt8.ofNat c.toNat]

def encode (f : Form) (t : Text) : List Octet :=
  t.flatMap f.encodeChar

theorem scan_encodeChar {f : Form} {c : Char} (h : f.Covers c) :
    f.scan [] (f.encodeChar c) = ⟨[.char c (f.encodeChar c)], []⟩ := by
  cases f with
  | utf8 => exact Utf8.scan_encodeChar c
  | utf16 order => exact Utf16.scan_encodeChar order c
  | latin1 =>
    have hoctet : (UInt8.ofNat c.toNat).toNat = c.toNat := toNat_ofNat h
    simp [encodeChar, scan, Settled.scan, push, hoctet, Char.ofNat_toNat]
  | ascii =>
    have hc : c.toNat < 0x80 := h
    have hoctet : (UInt8.ofNat c.toNat).toNat = c.toNat := toNat_ofNat (by omega)
    have hlt : UInt8.ofNat c.toNat < 0x80 := by
      rw [UInt8.lt_iff_toNat_lt, hoctet]
      exact hc
    simp [encodeChar, scan, Settled.scan, push, hlt, hoctet, Char.ofNat_toNat]

/-- What a form writes for a text, it reads as the characters of the text. -/
theorem scan_encode {f : Form} {t : Text} (h : ∀ c ∈ t, f.Covers c) :
    f.scan [] (f.encode t) = ⟨t.map fun c => .char c (f.encodeChar c), []⟩ := by
  induction t with
  | nil => rfl
  | cons c rest ih =>
    obtain ⟨hc, hrest⟩ := List.forall_mem_cons.mp h
    have hfirst := scan_encodeChar hc
    have hlater := ih hrest
    rw [scan] at hfirst hlater ⊢
    rw [encode, List.flatMap_cons, Settled.scan_append, hfirst]
    exact congrArg (fun s : Settled => Settled.mk (.char c (f.encodeChar c) :: s.fragments) s.kept) hlater

end Form

end Lexeme.Encoding

namespace Lexeme

/-- The mark that announces a byte order. -/
def Encoding.mark : Encoding.ByteOrder → List Octet
  | .little => [0xff, 0xfe]
  | .big => [0xfe, 0xff]

/-- Octets that write a text in an encoding: in its form, after a mark of either byte order if it is marked. -/
def Encoding.Writes : Encoding → Text → List Octet → Prop
  | .fixed form, t, octets => (∀ c ∈ t, form.Covers c) ∧ octets = form.encode t
  | .markedUtf16, t, octets => ∃ order, octets = mark order ++ (Form.utf16 order).encode t

end Lexeme
