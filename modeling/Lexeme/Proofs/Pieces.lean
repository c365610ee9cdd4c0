import Lexeme.Proofs.Reads

/-! # Octets in whatever pieces

How octets are cut into pieces makes no difference to what a decoder makes of them: two pieces decode one after
the other exactly when they decode as one, to the same text (`Decoder.decode_append`). So reads of octets are
decoded as all of their octets are (`Read.decodes_iff`), and fail where these do. The handlers considered are
those that take what is malformed as a whole. -/

namespace Lexeme

open Encoding

theorem bind_eq_ok {α β : Type} {r : Except Failure α} {f : α → Except Failure β} {b : β} :
    r >>= f = .ok b ↔ ∃ a, r = .ok a ∧ f a = .ok b := by
  cases r with
  | error failure => exact ⟨fun h => (by cases h), fun ⟨_, h, _⟩ => (by cases h)⟩
  | ok a => exact ⟨fun h => ⟨a, rfl, h⟩, fun ⟨_, rfl, h⟩ => h⟩

namespace Encoding

/-- The handlers that take what is malformed as a whole. -/
def Handler.plain : List Handler :=
  [strict, replace, ignore, escape]

/-! ### Cutting octets -/

namespace Settled

section
variable {push : List Octet → Octet → Settled} {kept octets : List Octet}

/-- As long as nothing is settled, all is kept. -/
theorem kept_scan (hpush : ∀ kept b, (push kept b).fragments = [] → (push kept b).kept = kept ++ [b])
    (h : (scan push kept octets).fragments = []) : (scan push kept octets).kept = kept ++ octets := by
  induction octets generalizing kept with
  | nil => exact (List.append_nil kept).symm
  | cons b octets ih =>
    obtain ⟨hhere, hlater⟩ := List.append_eq_nil_iff.mp h
    rw [scan, ih hlater, hpush kept b hhere, List.append_assoc, List.singleton_append]

/-- Each fragment takes two octets or more, if every octet counts for one at most. -/
theorem length_scan
    (hpush : ∀ kept b, 2 * (push kept b).fragments.length + (push kept b).kept.length ≤ kept.length + 1)
    (kept octets : List Octet) :
    2 * (scan push kept octets).fragments.length + (scan push kept octets).kept.length ≤
      kept.length + octets.length := by
  induction octets generalizing kept with
  | nil => simp
  | cons b octets ih =>
    have hhere := hpush kept b
    have hlater := ih (push kept b).kept
    simp only [scan, List.length_append, List.length_cons]
    omega

end

end Settled

namespace Utf16

theorem start_cases (order : ByteOrder) (a b : Octet) :
    start order a b = ⟨[], [a, b]⟩ ∨ ∃ fragment, start order a b = ⟨[fragment], []⟩ := by
  unfold start
  dsimp only
  split
  · exact Or.inl rfl
  · split
    · exact Or.inr ⟨_, rfl⟩
    · exact Or.inr ⟨_, rfl⟩

theorem kept_push {order : ByteOrder} {kept : List Octet} {b : Octet} (h : (push order kept b).fragments = []) :
    (push order kept b).kept = kept ++ [b] := by
  unfold push at h ⊢
  split
  · rename_i a
    rcases start_cases order a b with hs | ⟨fragment, hs⟩
    · rw [hs]
      rfl
    · simp [hs] at h
  · rename_i a c d
    by_cases hlow : isLow (unit order d b) = true
    · simp [hlow] at h
    · simp [hlow] at h
  · rfl

theorem length_push (order : ByteOrder) (kept : List Octet) (b : Octet) :
    2 * (push order kept b).fragments.length + (push order kept b).kept.length ≤ kept.length + 1 := by
  unfold push
  split
  · rename_i a
    rcases start_cases order a b with hs | ⟨fragment, hs⟩ <;> simp [hs]
  · rename_i a c d
    split
    · simp
    · rcases start_cases order d b with hs | ⟨fragment, hs⟩ <;> simp [hs]
  · simp

end Utf16

section
variable {form : Form} {order : ByteOrder} {h : Handler} {kept kept' piece first second octets : List Octet} {t : Text}

/-- Fewer than two octets of UTF-16 settle nothing. -/
theorem Form.scan_utf16_of_short (hshort : octets.length - ((Form.utf16 order).scan [] octets).kept.length < 2) :
    (Form.utf16 order).scan [] octets = ⟨[], octets⟩ := by
  have hlength := Settled.length_scan (Utf16.length_push order) [] octets
  have hnone : ((Form.utf16 order).scan [] octets).fragments = [] := by
    change _ - (Settled.scan (Utf16.push order) [] octets).kept.length < 2 at hshort
    show (Settled.scan (Utf16.push order) [] octets).fragments = []
    rw [← List.length_eq_zero_iff]
    rw [List.length_nil] at hlength
    omega
  have hkept := Settled.kept_scan (fun _ _ => Utf16.kept_push) hnone
  exact congrArg₂ Settled.mk hnone hkept

theorem Form.scan_utf16_of_append (hnone : (Form.utf16 order).scan [] (first ++ second) = ⟨[], first ++ second⟩) :
    (Form.utf16 order).scan [] first = ⟨[], first⟩ := by
  rw [scan, Settled.scan_append] at hnone
  obtain ⟨hfirst, -⟩ := List.append_eq_nil_iff.mp (Settled.mk.inj hnone).1
  exact congrArg₂ Settled.mk hfirst (Settled.kept_scan (fun _ _ => Utf16.kept_push) hfirst)

/-! ### Marks -/

theorem splitMark?_append (hmark : splitMark? first = some (order, octets)) :
    splitMark? (first ++ second) = some (order, octets ++ second) := by
  unfold splitMark? at hmark
  split at hmark
  · cases hmark
    rfl
  · cases hmark
    rfl
  · cases hmark

/-- Whether two octets are a mark does not hang on those after them. -/
theorem length_lt_of_splitMark? (hnone : splitMark? first = none)
    (hmark : splitMark? (first ++ second) = some (order, octets)) : first.length < 2 := by
  rcases first with _ | ⟨a, _ | ⟨b, rest⟩⟩
  · exact Nat.zero_lt_two
  · exact Nat.one_lt_two
  · rw [List.cons_append, List.cons_append] at hmark
    unfold splitMark? at hmark
    split at hmark
    · rename_i heq
      obtain ⟨rfl, hrest⟩ := List.cons.inj heq
      obtain ⟨rfl, -⟩ := List.cons.inj hrest
      cases hnone
    · rename_i heq
      obtain ⟨rfl, hrest⟩ := List.cons.inj heq
      obtain ⟨rfl, -⟩ := List.cons.inj hrest
      cases hnone
    · cases hmark

/-! ### What a handler puts in the place of fragments -/

theorem Handler.ne_of_plain (hh : h ∈ Handler.plain) :
    h ≠ .keepSurrogates ∧ h ≠ .maskOctets ∧ h ≠ .nameless := by
  refine ⟨?_, ?_, ?_⟩
  · rintro rfl
    exact absurd hh (by decide)
  · rintro rfl
    exact absurd hh (by decide)
  · rintro rfl
    exact absurd hh (by decide)

/-- Where malformed octets lie makes no difference to what stands for them, only to the refusal of them. -/
theorem Handler.handle_at {position other : Nat} {reason : Malformation}
    (hr : h.handle form position reason octets = .ok t) : h.handle form other reason octets = .ok t := by
  cases h with
  | strict | encodeOnly | unknown name | nameless => cases hr
  | replace | ignore | escape => exact hr
  | keepSurrogates | maskOctets =>
    unfold Handler.handle at hr ⊢
    dsimp only at hr ⊢
    split at hr
    · cases hr
    · rename_i hsize
      rw [if_neg hsize]
      exact hr

theorem Handler.resolve_char {position : Nat} {c : Char} {fragments : List Fragment} :
    h.resolve form position (.char c octets :: fragments) = .ok t ↔
      ∃ u, t = c :: u ∧ h.resolve form (position + octets.length) fragments = .ok u := by
  rw [resolve, bind_eq_ok]
  exact ⟨fun ⟨u, hu, ht⟩ => ⟨u, (Except.ok.inj ht).symm, hu⟩, fun ⟨u, ht, hu⟩ => ⟨u, hu, congrArg _ ht.symm⟩⟩

theorem Handler.resolve_malformed {position : Nat} {reason : Malformation} {fragments : List Fragment} :
    h.resolve form position (.malformed reason octets :: fragments) = .ok t ↔
      ∃ shown u, t = shown ++ u ∧ h.handle form position reason octets = .ok shown ∧
        h.resolve form (position + octets.length) fragments = .ok u := by
  rw [resolve, bind_eq_ok]
  constructor
  · rintro ⟨shown, hshown, hrest⟩
    obtain ⟨u, hu, ht⟩ := bind_eq_ok.mp hrest
    exact ⟨shown, u, (Except.ok.inj ht).symm, hshown, hu⟩
  · rintro ⟨shown, u, rfl, hshown, hu⟩
    exact ⟨shown, hshown, bind_eq_ok.mpr ⟨u, hu, rfl⟩⟩

theorem Handler.resolve_at {position other : Nat} {fragments : List Fragment}
    (hr : h.resolve form position fragments = .ok t) : h.resolve form other fragments = .ok t := by
  induction fragments generalizing position other t with
  | nil => exact hr
  | cons fragment fragments ih =>
    cases fragment with
    | char c octets =>
      obtain ⟨u, rfl, hu⟩ := resolve_char.mp hr
      exact resolve_char.mpr ⟨u, rfl, ih hu⟩
    | malformed reason octets =>
      obtain ⟨shown, u, rfl, hshown, hu⟩ := resolve_malformed.mp hr
      exact resolve_malformed.mpr ⟨shown, u, rfl, handle_at hshown, ih hu⟩

theorem Handler.resolve_append {before after : List Fragment} {position : Nat} (other : Nat) :
    h.resolve form position (before ++ after) = .ok t ↔
      ∃ u v, t = u ++ v ∧ h.resolve form position before = .ok u ∧ h.resolve form other after = .ok v := by
  induction before generalizing position t with
  | nil =>
    refine ⟨fun ht => ⟨[], t, rfl, rfl, resolve_at ht⟩, ?_⟩
    rintro ⟨u, v, rfl, hu, hv⟩
    cases hu
    exact resolve_at hv
  | cons fragment before ih =>
    cases fragment with
    | char c octets =>
      rw [List.cons_append, resolve_char]
      constructor
      · rintro ⟨u, rfl, hu⟩
        obtain ⟨v, w, rfl, hv, hw⟩ := ih.mp hu
        exact ⟨c :: v, w, rfl, resolve_char.mpr ⟨v, rfl, hv⟩, hw⟩
      · rintro ⟨u, w, rfl, hu, hw⟩
        obtain ⟨v, rfl, hv⟩ := resolve_char.mp hu
        exact ⟨v ++ w, rfl, ih.mpr ⟨v, w, rfl, hv, hw⟩⟩
    | malformed reason octets =>
      rw [List.cons_append, resolve_malformed]
      constructor
      · rintro ⟨shown, u, rfl, hshown, hu⟩
        obtain ⟨v, w, rfl, hv, hw⟩ := ih.mp hu
        exact ⟨shown ++ v, w, (List.append_assoc ..).symm, resolve_malformed.mpr ⟨shown, v, rfl, hshown, hv⟩, hw⟩
      · rintro ⟨u, w, rfl, hu, hw⟩
        obtain ⟨shown, v, rfl, hshown, hv⟩ := resolve_malformed.mp hu
        exact ⟨shown, v ++ w, List.append_assoc .., hshown, ih.mpr ⟨v, w, rfl, hv, hw⟩⟩

/-! ### What a form decodes -/

theorem Form.decode_eq_ok (hh : h ∈ Handler.plain) {position : Nat} :
    form.decode h position kept piece false = .ok (t, kept') ↔
      h.resolve form position (form.scan kept piece).fragments = .ok t ∧ (form.scan kept piece).kept = kept' := by
  obtain ⟨hk, hm, -⟩ := Handler.ne_of_plain hh
  rw [decode, Handler.scan_eq_scan hk hm]
  simp only [Bool.false_eq_true, if_false]
  rw [bind_eq_ok]
  constructor
  · rintro ⟨u, hu, he⟩
    cases he
    exact ⟨hu, rfl⟩
  · rintro ⟨hu, rfl⟩
    exact ⟨t, hu, rfl⟩

/-- Two pieces decode one after the other as they do in one, wherever the second is said to lie. -/
theorem Form.decode_append (hh : h ∈ Handler.plain) {position : Nat} (other : Nat) :
    form.decode h position kept (first ++ second) false = .ok (t, kept') ↔
      ∃ u between v, t = u ++ v ∧ form.decode h position kept first false = .ok (u, between) ∧
        form.decode h other between second false = .ok (v, kept') := by
  simp only [decode_eq_ok hh]
  rw [scan, Settled.scan_append]
  constructor
  · rintro ⟨ht, hkept⟩
    obtain ⟨u, v, rfl, hu, hv⟩ := (Handler.resolve_append other).mp ht
    exact ⟨u, _, v, rfl, ⟨hu, rfl⟩, hv, hkept⟩
  · rintro ⟨u, between, v, rfl, ⟨hu, rfl⟩, hv, hkept⟩
    exact ⟨(Handler.resolve_append other).mpr ⟨u, v, rfl, hu, hv⟩, hkept⟩

/-! ### What a decoder decodes -/

namespace Decoder

variable {d e : Decoder}

theorem decode_ready_eq_ok (hh : h ∈ Handler.plain) :
    (ready form kept).decode h piece false = .ok (t, e) ↔
      ∃ kept', form.decode h 0 kept piece false = .ok (t, kept') ∧ e = ready form kept' := by
  obtain ⟨-, -, hn⟩ := Handler.ne_of_plain hh
  rw [decode, if_neg hn, bind_eq_ok]
  constructor
  · rintro ⟨⟨u, kept'⟩, hu, he⟩
    cases he
    exact ⟨kept', hu, rfl⟩
  · rintro ⟨kept', ht, rfl⟩
    exact ⟨(t, kept'), ht, rfl⟩

theorem decode_marked_eq_ok (hh : h ∈ Handler.plain) (hmark : splitMark? (kept ++ piece) = some (order, octets)) :
    (unmarked kept).decode h piece false = .ok (t, e) ↔
      ∃ kept', (Form.utf16 order).decode h 2 [] octets false = .ok (t, kept') ∧ e = ready (.utf16 order) kept' := by
  obtain ⟨-, -, hn⟩ := Handler.ne_of_plain hh
  simp only [decode, if_neg hn, hmark]
  rw [bind_eq_ok]
  constructor
  · rintro ⟨⟨u, kept'⟩, hu, he⟩
    cases he
    exact ⟨kept', hu, rfl⟩
  · rintro ⟨kept', ht, rfl⟩
    exact ⟨(t, kept'), ht, rfl⟩

/-- Without a mark nothing may be settled. -/
theorem decode_unmarked_eq_ok (hh : h ∈ Handler.plain) (hmark : splitMark? (kept ++ piece) = none) :
    (unmarked kept).decode h piece false = .ok (t, e) ↔
      (Form.utf16 .little).scan [] (kept ++ piece) = ⟨[], kept ++ piece⟩ ∧ t = [] ∧ e = unmarked (kept ++ piece) := by
  obtain ⟨-, -, hn⟩ := Handler.ne_of_plain hh
  simp only [decode, if_neg hn, hmark]
  rw [bind_eq_ok]
  constructor
  · rintro ⟨⟨u, kept'⟩, hu, he⟩
    obtain ⟨hresolve, rfl⟩ := (Form.decode_eq_ok hh).mp hu
    dsimp only at he
    split at he
    · cases he
    · rename_i hshort
      have hscan := Form.scan_utf16_of_short (Nat.lt_of_not_le hshort)
      rw [hscan] at hresolve he
      cases hresolve
      cases he
      exact ⟨hscan, rfl, rfl⟩
  · rintro ⟨hscan, rfl, rfl⟩
    refine ⟨([], kept ++ piece), (Form.decode_eq_ok hh).mpr ?_, ?_⟩
    · rw [hscan]
      exact ⟨rfl, rfl⟩
    · simp
      rfl

theorem decode_append_unmarked (hh : h ∈ Handler.plain) :
    (unmarked kept).decode h (first ++ second) false = .ok (t, e) ↔
      ∃ u m v, t = u ++ v ∧ (unmarked kept).decode h first false = .ok (u, m) ∧
        m.decode h second false = .ok (v, e) := by
  cases hfirst : splitMark? (kept ++ first) with
  | some marked =>
    obtain ⟨order, octets⟩ := marked
    have hboth : splitMark? (kept ++ (first ++ second)) = some (order, octets ++ second) := by
      rw [← List.append_assoc]
      exact splitMark?_append hfirst
    simp only [decode_marked_eq_ok hh hboth, decode_marked_eq_ok hh hfirst, Form.decode_append hh 0]
    constructor
    · rintro ⟨kept', ⟨u, between, v, rfl, hu, hv⟩, rfl⟩
      exact ⟨u, _, v, rfl, ⟨between, hu, rfl⟩, (decode_ready_eq_ok hh).mpr ⟨kept', hv, rfl⟩⟩
    · rintro ⟨u, m, v, rfl, ⟨between, hu, rfl⟩, hsecond⟩
      obtain ⟨kept', hv, rfl⟩ := (decode_ready_eq_ok hh).mp hsecond
      exact ⟨kept', ⟨u, between, v, rfl, hu, hv⟩, rfl⟩
  | none =>
    -- All octets are looked at again with the second piece.
    have hagain : (unmarked (kept ++ first)).decode h second false =
        (unmarked kept).decode h (first ++ second) false := by
      simp only [decode, List.append_assoc]
    constructor
    · intro ht
      have hscan : (Form.utf16 .little).scan [] (kept ++ first) = ⟨[], kept ++ first⟩ := by
        cases hboth : splitMark? (kept ++ first ++ second) with
        | some marked =>
          have hshort := length_lt_of_splitMark? hfirst hboth
          exact Form.scan_utf16_of_short (by omega)
        | none =>
          rw [List.append_assoc] at hboth
          obtain ⟨hall, -, -⟩ := (decode_unmarked_eq_ok hh hboth).mp ht
          rw [← List.append_assoc] at hall
          exact Form.scan_utf16_of_append hall
      exact ⟨[], _, t, rfl, (decode_unmarked_eq_ok hh hfirst).mpr ⟨hscan, rfl, rfl⟩, hagain.trans ht⟩
    · rintro ⟨u, m, v, rfl, hu, hv⟩
      obtain ⟨-, rfl, rfl⟩ := (decode_unmarked_eq_ok hh hfirst).mp hu
      exact hagain.symm.trans hv

/-- Two pieces decode one after the other exactly when they decode as one. -/
theorem decode_append (hh : h ∈ Handler.plain) :
    d.decode h (first ++ second) false = .ok (t, e) ↔
      ∃ u m v, t = u ++ v ∧ d.decode h first false = .ok (u, m) ∧ m.decode h second false = .ok (v, e) := by
  cases d with
  | unmarked kept => exact decode_append_unmarked hh
  | ready form kept =>
    simp only [decode_ready_eq_ok hh, Form.decode_append hh 0]
    constructor
    · rintro ⟨kept', ⟨u, between, v, rfl, hu, hv⟩, rfl⟩
      exact ⟨u, _, v, rfl, ⟨between, hu, rfl⟩, (decode_ready_eq_ok hh).mpr ⟨kept', hv, rfl⟩⟩
    · rintro ⟨u, m, v, rfl, ⟨between, hu, rfl⟩, hsecond⟩
      obtain ⟨kept', hv, rfl⟩ := (decode_ready_eq_ok hh).mp hsecond
      exact ⟨kept', ⟨u, between, v, rfl, hu, hv⟩, rfl⟩

/-- What a decoder keeps settles nothing by itself. -/
theorem decode_nil_of_decode (hh : h ∈ Handler.plain) (hd : d.decode h piece false = .ok (t, e)) :
    e.decode h [] false = .ok ([], e) := by
  have hboth := hd
  rw [← List.append_nil piece] at hboth
  obtain ⟨u, m, v, ht, hu, hv⟩ := (decode_append hh).mp hboth
  rw [hd] at hu
  cases hu
  rw [List.self_eq_append_right.mp ht] at hv
  exact hv

theorem decode_nil (hh : h ∈ Handler.plain) (encoding : Encoding) :
    (ofEncoding encoding).decode h [] false = .ok ([], ofEncoding encoding) := by
  obtain ⟨-, -, hn⟩ := Handler.ne_of_plain hh
  cases encoding with
  | fixed form => exact (decode_ready_eq_ok hh).mpr ⟨[], (Form.decode_eq_ok hh).mpr ⟨rfl, rfl⟩, rfl⟩
  | markedUtf16 => exact (decode_unmarked_eq_ok hh rfl).mpr ⟨rfl, rfl, rfl⟩

/-- More octets decode to more text. -/
theorem text_isPrefix {u v : Text} {e₁ e₂ : Decoder} (hh : h ∈ Handler.plain) (hpre : first <+: second)
    (hfirst : d.decode h first false = .ok (u, e₁)) (hsecond : d.decode h second false = .ok (v, e₂)) : u <+: v := by
  obtain ⟨more, rfl⟩ := hpre
  obtain ⟨u', m, w, rfl, hu', -⟩ := (decode_append hh).mp hsecond
  rw [hfirst] at hu'
  cases hu'
  exact List.prefix_append u w

end Decoder

end

end Encoding

/-! ### Reads of octets -/

namespace Read

section
variable {c c' : Codec} {piece : List Octet} {t : Text} {failure : Failure}

theorem outcome_eq_more (hne : piece ≠ []) :
    (octets piece).outcome c = .more t c' ↔ c.decode piece false = .ok (t, c') := by
  cases piece with
  | nil => exact absurd rfl hne
  | cons b rest =>
    unfold outcome
    dsimp only
    cases c.decode (b :: rest) false with
    | error failure => exact ⟨fun ho => (by cases ho), fun hd => (by cases hd)⟩
    | ok decoded => exact ⟨fun ho => (by cases ho; rfl), fun hd => (by cases hd; rfl)⟩

theorem outcome_of_decode_error (hne : piece ≠ []) (hd : c.decode piece false = .error failure) :
    (octets piece).outcome c = .last (.error failure) := by
  cases piece with
  | nil => exact absurd rfl hne
  | cons b rest =>
    unfold outcome
    simp only [hd]

end

section
variable {h : Handler} {d e : Decoder} {c : Codec} {chunks : List (List Octet)} {t : Text} {failure : Failure}

/-- Reads of octets decode to a text exactly when all of their octets do in one piece. -/
theorem decodes_iff (hh : h ∈ Handler.plain) (hne : [] ∉ chunks) (hd : d.decode h [] false = .ok ([], d)) :
    Decodes (.ofDecoder h d) (chunks.map .octets) t c ↔
      ∃ e, d.decode h chunks.flatten false = .ok (t, e) ∧ c = .ofDecoder h e := by
  induction chunks generalizing d t with
  | nil =>
    rw [List.flatten_nil, hd]
    constructor
    · intro hdecodes
      cases hdecodes
      exact ⟨d, rfl, rfl⟩
    · rintro ⟨e, hnil, rfl⟩
      cases hnil
      exact .nil _
  | cons piece chunks ih =>
    obtain ⟨hpiece, hne⟩ := not_or.mp fun hmem => hne (List.mem_cons.mpr hmem)
    simp only [List.map_cons, List.flatten_cons, Decoder.decode_append hh]
    constructor
    · intro hdecodes
      cases hdecodes with
      | cons ho hrest =>
        obtain ⟨m, hu, rfl⟩ := Codec.decode_ofDecoder_eq_ok.mp ((outcome_eq_more (Ne.symm hpiece)).mp ho)
        obtain ⟨e, hv, rfl⟩ := (ih hne (Decoder.decode_nil_of_decode hh hu)).mp hrest
        exact ⟨e, ⟨_, m, _, rfl, hu, hv⟩, rfl⟩
    · rintro ⟨e, ⟨u, m, v, rfl, hu, hv⟩, rfl⟩
      have ho := (outcome_eq_more (Ne.symm hpiece)).mpr (Codec.decode_ofDecoder_eq_ok.mpr ⟨m, hu, rfl⟩)
      exact .cons ho ((ih hne (Decoder.decode_nil_of_decode hh hu)).mpr ⟨e, hv, rfl⟩)

/-- Where all octets together are refused, a piece is refused after some that decode. -/
theorem error_of_decode_error (hh : h ∈ Handler.plain) (hne : [] ∉ chunks)
    (hd : d.decode h [] false = .ok ([], d)) (herror : d.decode h chunks.flatten false = .error failure) :
    ∃ before piece later t e cause, chunks = before ++ piece :: later ∧
      Decodes (.ofDecoder h d) (before.map .octets) t (.ofDecoder h e) ∧ e.decode h piece false = .error cause := by
  induction chunks generalizing d failure with
  | nil =>
    rw [List.flatten_nil, hd] at herror
    cases herror
  | cons piece chunks ih =>
    obtain ⟨hpiece, hne⟩ := not_or.mp fun hmem => hne (List.mem_cons.mpr hmem)
    cases hfirst : d.decode h piece false with
    | error cause => exact ⟨[], piece, chunks, [], d, cause, rfl, .nil _, hfirst⟩
    | ok decoded =>
      obtain ⟨u, m⟩ := decoded
      have hrest : ∃ cause, m.decode h chunks.flatten false = .error cause := by
        cases hlater : m.decode h chunks.flatten false with
        | error cause => exact ⟨cause, rfl⟩
        | ok decoded =>
          have hall := (Decoder.decode_append hh).mpr ⟨u, m, _, rfl, hfirst, hlater⟩
          rw [← List.flatten_cons, herror] at hall
          cases hall
      obtain ⟨cause, hrest⟩ := hrest
      obtain ⟨before, bad, later, v, e, cause, rfl, hbefore, hbad⟩ :=
        ih hne (Decoder.decode_nil_of_decode hh hfirst) hrest
      have ho := (outcome_eq_more (Ne.symm hpiece)).mpr (Codec.decode_ofDecoder_eq_ok.mpr ⟨m, hfirst, rfl⟩)
      exact ⟨piece :: before, bad, later, _, e, cause, rfl, .cons ho hbefore, hbad⟩

end

end Read

end Lexeme
