import Lexeme.Proofs.Failures
import Lexeme.Proofs.Pieces

/-! # The same octets in other pieces

Two readers of the same octets end alike, however these are cut and whether or not they write anything: both
well and with the same text, or both with a read error. The texts before read errors may differ, as a piece
decodes as a whole or not at all; one is then the beginning of the other. A handler that refuses nothing leaves
only the want of a mark to fail, before which there is no text. -/

namespace Lexeme

open Encoding

namespace Encoding

section
variable {h : Handler} {form : Form} {first second octets : List Octet} {t : Text} {failure : Failure}

/-! ### Handlers that refuse nothing -/

theorem Handler.handle_of_ne_strict (hh : h ∈ Handler.plain) (hs : h ≠ .strict) (position : Nat)
    (reason : Malformation) : ∃ t, h.handle form position reason octets = .ok t := by
  cases h with
  | strict => exact absurd rfl hs
  | replace | ignore | escape => exact ⟨_, rfl⟩
  | keepSurrogates | maskOctets | encodeOnly | nameless => exact absurd hh (by decide)
  | unknown name => simp [Handler.plain] at hh

theorem Handler.resolve_of_ne_strict (hh : h ∈ Handler.plain) (hs : h ≠ .strict) (position : Nat)
    (fragments : List Fragment) : ∃ t, h.resolve form position fragments = .ok t := by
  induction fragments generalizing position with
  | nil => exact ⟨[], rfl⟩
  | cons fragment fragments ih =>
    cases fragment with
    | char c octets =>
      obtain ⟨u, hu⟩ := ih (position + octets.length)
      exact ⟨c :: u, resolve_char.mpr ⟨u, rfl, hu⟩⟩
    | malformed reason octets =>
      obtain ⟨shown, hshown⟩ := handle_of_ne_strict hh hs position reason
      obtain ⟨u, hu⟩ := ih (position + octets.length)
      exact ⟨shown ++ u, resolve_malformed.mpr ⟨shown, u, rfl, hshown, hu⟩⟩

theorem Form.decode_of_ne_strict (form : Form) (hh : h ∈ Handler.plain) (hs : h ≠ .strict) (position : Nat)
    (kept piece : List Octet) : ∃ t kept', form.decode h position kept piece false = .ok (t, kept') := by
  obtain ⟨t, ht⟩ := Handler.resolve_of_ne_strict hh hs position (form.scan kept piece).fragments
  exact ⟨t, _, (decode_eq_ok hh).mpr ⟨ht, rfl⟩⟩

/-- Octets that are refused though nothing malformed is have no mark, and nothing is decoded before a mark. -/
theorem Decoder.text_eq_nil_of_error {encoding : Encoding} {e : Decoder} (hh : h ∈ Handler.plain) (hs : h ≠ .strict)
    (hfirst : (ofEncoding encoding).decode h first false = .ok (t, e))
    (herror : (ofEncoding encoding).decode h (first ++ second) false = .error failure) : t = [] := by
  cases encoding with
  | fixed form =>
    obtain ⟨u, kept, hu⟩ := form.decode_of_ne_strict hh hs 0 [] (first ++ second)
    have hok := (decode_ready_eq_ok hh).mpr ⟨kept, hu, rfl⟩
    cases herror.symm.trans hok
  | markedUtf16 =>
    cases hmark : splitMark? first with
    | none =>
      rw [← List.nil_append first] at hmark
      obtain ⟨-, ht, -⟩ := (decode_unmarked_eq_ok hh hmark).mp hfirst
      exact ht
    | some marked =>
      obtain ⟨order, octets⟩ := marked
      obtain ⟨u, kept, hu⟩ := (Form.utf16 order).decode_of_ne_strict hh hs 2 [] (octets ++ second)
      have hok := (decode_marked_eq_ok hh (splitMark?_append hmark)).mpr ⟨kept, hu, rfl⟩
      cases herror.symm.trans hok

/-! ### All that decoding fails with are failures of reading -/

theorem Handler.isReadFailure_of_handle (hh : h ∈ Handler.plain) (form : Form) (position : Nat) (reason : Malformation)
    (octets : List Octet) : FailsOnly (·.isReadFailure) (h.handle form position reason octets) := by
  by_cases hs : h = .strict
  · rw [hs]
    exact failsOnly_error rfl
  · obtain ⟨t, ht⟩ := handle_of_ne_strict hh hs position reason
    rw [ht]
    exact failsOnly_ok t

theorem Decoder.isReadFailure_of_decode (hh : h ∈ Handler.plain) (d : Decoder) (piece : List Octet) (final : Bool) :
    FailsOnly (·.isReadFailure) (d.decode h piece final) :=
  failsOnly_decode (Handler.isReadFailure_of_handle hh) rfl (fun _ => rfl) d piece final

end

end Encoding

namespace Read

/-- Reads that give octets in pieces, none of which is empty, up to an empty read. After a script every read is
    empty. -/
def Cuts (octets : List Octet) (last : Read) (script : List Read) : Prop :=
  ∃ (chunks : List (List Octet)) (after : List Read), chunks.flatten = octets ∧ [] ∉ chunks ∧
    script ++ [.octets []] = chunks.map .octets ++ last :: after

section
variable {h : Handler} {d e : Decoder} {octets : List Octet} {last : Read} {script : List Read} {t : Text}
  {failure : Failure}

theorem outcome_of_last (hh : h ∈ Handler.plain) (hlast : last ∈ [.octets [], .text []]) (d : Decoder) :
    ∃ result, last.outcome (.ofDecoder h d) = .last result ∧ FailsOnly (·.isReadFailure) result := by
  rcases List.mem_cons.mp hlast with rfl | hlast
  · exact ⟨_, rfl, ((Decoder.isReadFailure_of_decode hh d [] true).map _).map _⟩
  · obtain rfl := List.mem_singleton.mp hlast
    exact ⟨.ok [], rfl, failsOnly_ok []⟩

/-- Octets that decode together are decoded before the empty read. -/
theorem Cuts.decodes (hcuts : Cuts octets last script) (hh : h ∈ Handler.plain)
    (hnil : d.decode h [] false = .ok ([], d)) (hd : d.decode h octets false = .ok (t, e)) :
    ∃ before after, script ++ [.octets []] = before ++ last :: after ∧
      Decodes (.ofDecoder h d) before t (.ofDecoder h e) := by
  obtain ⟨chunks, after, rfl, hne, hscript⟩ := hcuts
  exact ⟨chunks.map .octets, after, hscript, (decodes_iff hh hne hnil).mpr ⟨e, hd, rfl⟩⟩

/-- Octets that do not decode together fail in a read, after some that decode. -/
theorem Cuts.fails (hcuts : Cuts octets last script) (hh : h ∈ Handler.plain)
    (hnil : d.decode h [] false = .ok ([], d)) (herror : d.decode h octets false = .error failure) :
    ∃ first t e cause, first <+: octets ∧ d.decode h first false = .ok (t, e) ∧ cause.isReadFailure ∧
      Fails (.ofDecoder h d) script t cause := by
  obtain ⟨chunks, after, rfl, hne, hscript⟩ := hcuts
  obtain ⟨before, piece, later, t, e, cause, rfl, hbefore, hbad⟩ := error_of_decode_error hh hne hnil herror
  have hpiece : [] ≠ piece := fun hp => hne (List.mem_append_right _ (hp ▸ List.mem_cons_self))
  obtain ⟨e', hfirst, -⟩ := (decodes_iff hh (fun hmem => hne (List.mem_append_left _ hmem)) hnil).mp hbefore
  have hpre : before.flatten <+: (before ++ piece :: later).flatten := by
    rw [List.flatten_append]
    exact List.prefix_append _ _
  refine ⟨before.flatten, t, e', cause, hpre, hfirst, Decoder.isReadFailure_of_decode hh e piece false cause hbad, ?_⟩
  refine ⟨before.map .octets, .octets piece, later.map .octets ++ last :: after, .ofDecoder h e, ?_, hbefore,
    outcome_of_decode_error (Ne.symm hpiece) (Codec.decode_ofDecoder_eq_error.mpr hbad)⟩
  rw [hscript, List.map_append, List.map_cons, List.append_assoc, List.cons_append]

end

end Read

/-! ### Two readers -/

section
variable {h : Handler} {found : Encoding} {octets : List Octet} {last : Read} {script₁ script₂ : List Read}

/-- The same octets end alike, and one text is the beginning of the other. -/
theorem Delivery.ofScript_of_cuts (hh : h ∈ Handler.plain) (hlast : last ∈ [.octets [], .text []])
    (hcuts₁ : Read.Cuts octets last script₁) (hcuts₂ : Read.Cuts octets last script₂) (name₁ name₂ : String) :
    let c := Codec.ofDecoder h (.ofEncoding found)
    (∃ t, ofScript name₁ c script₁ = ⟨t, .finished⟩ ∧ ofScript name₂ c script₂ = ⟨t, .finished⟩) ∨
    ∃ t₁ t₂ cause₁ cause₂, ofScript name₁ c script₁ = ⟨t₁, .failed ⟨name₁, cause₁⟩⟩ ∧
      ofScript name₂ c script₂ = ⟨t₂, .failed ⟨name₂, cause₂⟩⟩ ∧ (t₁ <+: t₂ ∨ t₂ <+: t₁) ∧
      (h ≠ .strict → t₁ = t₂) := by
  intro c
  have hnil := Decoder.decode_nil hh found
  cases hall : (Decoder.ofEncoding found).decode h octets false with
  | ok decoded =>
    -- All octets decode, so that the empty read decides, which meets the same decoder.
    obtain ⟨t, e⟩ := decoded
    obtain ⟨result, ho, hresult⟩ := Read.outcome_of_last hh hlast e
    have hend : ∀ {script : List Read} (name : String), Read.Cuts octets last script →
        ofScript name c script = (ofResult name result).after t := by
      intro script name hcuts
      obtain ⟨before, after, hscript, hbefore⟩ := hcuts.decodes hh hnil hall
      rw [← ofScript_append_empty, hscript, ofScript_append hbefore, ofScript, ho]
    rw [hend name₁ hcuts₁, hend name₂ hcuts₂]
    cases result with
    | ok text => exact Or.inl ⟨t ++ text, rfl, rfl⟩
    | error failure =>
      have hfailed : ∀ name, (ofResult name (.error failure)).after t = ⟨t, .failed ⟨name, failure⟩⟩ := by
        intro name
        simp [ofResult, after, Stop.ofFailure, hresult failure rfl]
      exact Or.inr ⟨t, t, failure, failure, hfailed name₁, hfailed name₂, Or.inl (List.prefix_refl t), fun _ => rfl⟩
  | error failure =>
    obtain ⟨first₁, t₁, e₁, cause₁, hpre₁, hfirst₁, hcause₁, hfails₁⟩ := hcuts₁.fails hh hnil hall
    obtain ⟨first₂, t₂, e₂, cause₂, hpre₂, hfirst₂, hcause₂, hfails₂⟩ := hcuts₂.fails hh hnil hall
    refine Or.inr ⟨t₁, t₂, cause₁, cause₂, ?_, ?_, ?_, fun hs => ?_⟩
    · rw [ofScript_of_fails name₁ hfails₁, Stop.ofFailure_eq_failed.mpr ⟨hcause₁, rfl⟩]
    · rw [ofScript_of_fails name₂ hfails₂, Stop.ofFailure_eq_failed.mpr ⟨hcause₂, rfl⟩]
    · rcases List.prefix_or_prefix_of_prefix hpre₁ hpre₂ with hpre | hpre
      · exact Or.inl (Decoder.text_isPrefix hh hpre hfirst₁ hfirst₂)
      · exact Or.inr (Decoder.text_isPrefix hh hpre hfirst₂ hfirst₁)
    · obtain ⟨more₁, rfl⟩ := hpre₁
      obtain ⟨more₂, heq⟩ := hpre₂
      rw [Decoder.text_eq_nil_of_error hh hs hfirst₁ hall]
      rw [← heq] at hall
      rw [Decoder.text_eq_nil_of_error hh hs hfirst₂ hall]

end

namespace Source

/-- Two readers that are read with the same encoding and handler, and deliver the same octets in different pieces,
    end alike. What is delivered before a read error is what the reads before the failing one decode to. -/
theorem delivers_of_cuts (name₁ name₂ : String) {input₁ input₂ : ReaderInput} {encoding errors : Option String}
    {making : Config} {found : Encoding} {octets : List Octet} {last : Read}
    (hfind : Encoding.find (nameOr encoding making.encoding) = .ok found)
    (hhandler : Handler.ofName (nameOr errors making.decodeErrors) ∈ Handler.plain)
    (hlast : last ∈ [.octets [], .text []])
    (hcuts₁ : Read.Cuts octets last input₁.reads) (hcuts₂ : Read.Cuts octets last input₂.reads) :
    let h := Handler.ofName (nameOr errors making.decodeErrors)
    let c := Codec.ofDecoder h (.ofEncoding found)
    ∃ f₁ f₂, (ofReader .standard name₁ input₁ encoding errors making).unread = some f₁ ∧
      (ofReader .standard name₂ input₂ encoding errors making).unread = some f₂ ∧
      ((∃ t, f₁.Delivers t .finished ∧ f₂.Delivers t .finished) ∨
        ∃ t₁ t₂ error₁ error₂, f₁.Delivers t₁ (.failed error₁) ∧ f₂.Delivers t₂ (.failed error₂) ∧
          (t₁ <+: t₂ ∨ t₂ <+: t₁) ∧ (h ≠ .strict → t₁ = t₂) ∧
          Read.Fails c input₁.reads t₁ error₁.cause ∧ Read.Fails c input₂.reads t₂ error₂.cause) := by
  intro h c
  let made name input := reader .standard name input encoding errors making
  have hcodec : Codecs.standard.find _ _ = .ok c := Codecs.find_standard hfind _
  have hd : ∀ name input, (made name input).delivery = Delivery.ofScript name c input.reads :=
    fun name input => Reader.delivery_of_find rfl hcodec
  have hfails : ∀ {name input t cause}, (made name input).delivery = ⟨t, .failed ⟨name, cause⟩⟩ →
      Read.Fails c input.reads t cause := by
    intro name input t cause hfailed
    obtain ⟨-, -, c', hc', hfails⟩ := Reader.fails_of_delivery rfl hfailed
    cases hcodec.symm.trans hc'
    exact hfails
  refine ⟨.reader (made name₁ input₁), .reader (made name₂ input₂), rfl, rfl, ?_⟩
  simp only [Feed.delivers_iff, Feed.delivery]
  rcases Delivery.ofScript_of_cuts hhandler hlast hcuts₁ hcuts₂ name₁ name₂ with
    ⟨t, h₁, h₂⟩ | ⟨t₁, t₂, cause₁, cause₂, h₁, h₂, hpre, hsame⟩
  · rw [← hd] at h₁ h₂
    exact Or.inl ⟨t, h₁, h₂⟩
  · rw [← hd] at h₁ h₂
    exact Or.inr ⟨t₁, t₂, ⟨name₁, cause₁⟩, ⟨name₂, cause₂⟩, h₁, h₂, hpre, hsame, hfails h₁, hfails h₂⟩

/-- An octet that cannot follow another is refused with all of its piece: the character before is delivered, or is
    not. -/
theorem delivers_of_cut_character :
    let whole := ReaderInput.script [.octets [0x61, 0xc3, 0x28], .octets []]
    let parts := ReaderInput.script [.octets [0x61], .octets [0xc3], .octets [0x28], .octets []]
    let c := Codec.ofDecoder .strict (.ofEncoding (.fixed .utf8))
    ∃ f₁ f₂ error₁ error₂, (ofReader .standard "whole" whole none none {}).unread = some f₁ ∧
      (ofReader .standard "parts" parts none none {}).unread = some f₂ ∧
      f₁.Delivers [] (.failed error₁) ∧ f₂.Delivers ['a'] (.failed error₂) ∧
      Read.Fails c whole.reads [] error₁.cause ∧ Read.Fails c parts.reads ['a'] error₂.cause := by
  intro whole parts c
  have hfind : Encoding.find (nameOr none ({} : Config).encoding) = .ok (.fixed .utf8) := by decide
  have hhandler : Handler.ofName (nameOr none ({} : Config).decodeErrors) ∈ Handler.plain := by decide
  have hlast : Read.octets [] ∈ [.octets [], .text []] := by decide
  have hwhole : Read.Cuts [0x61, 0xc3, 0x28] (.octets []) whole.reads :=
    ⟨[[0x61, 0xc3, 0x28]], [.octets []], rfl, by decide, rfl⟩
  have hparts : Read.Cuts [0x61, 0xc3, 0x28] (.octets []) parts.reads :=
    ⟨[[0x61], [0xc3], [0x28]], [.octets []], rfl, by decide, rfl⟩
  obtain ⟨f₁, f₂, h₁, h₂, hends⟩ := delivers_of_cuts "whole" "parts" hfind hhandler hlast hwhole hparts
  refine ⟨f₁, f₂, ?_⟩
  cases h₁
  cases h₂
  have hd₁ : (reader .standard "whole" whole none none {}).delivery =
      ⟨[], .failed ⟨"whole", .undecodable .utf8 .invalidContinuation [0xc3] 1⟩⟩ := by decide
  have hd₂ : (reader .standard "parts" parts none none {}).delivery =
      ⟨['a'], .failed ⟨"parts", .undecodable .utf8 .invalidContinuation [0xc3] 0⟩⟩ := by decide
  rcases hends with ⟨t, hdelivers, -⟩ | ⟨t₁, t₂, error₁, error₂, hdelivers₁, hdelivers₂, -, -, hfails₁, hfails₂⟩
  · cases hd₁.symm.trans (Feed.delivers_iff.mp hdelivers)
  · cases hd₁.symm.trans (Feed.delivers_iff.mp hdelivers₁)
    cases hd₂.symm.trans (Feed.delivers_iff.mp hdelivers₂)
    exact ⟨_, _, rfl, rfl, hdelivers₁, hdelivers₂, hfails₁, hfails₂⟩

end Source

end Lexeme
