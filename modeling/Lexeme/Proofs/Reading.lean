import Lexeme.Proofs.Encode
import Lexeme.Proofs.Pieces

/-! # Reading what was written

Octets that write a text are decoded to the text, in whatever pieces they come (`decodes_writes`). So a stream
over a reader gives the tokens of the text that was written. The handlers considered are those that take what
is malformed as a whole, though nothing malformed is met. -/

namespace Lexeme

open Encoding

namespace Encoding

def Fragment.char? : Fragment → Option Char
  | .char c _ => some c
  | .malformed _ _ => none

/-- Fragments that are the characters of a text. -/
def Spell (fragments : List Fragment) (t : Text) : Prop :=
  fragments.map Fragment.char? = t.map some

section
variable {h : Handler} {form : Form} {fragments : List Fragment} {t : Text}

theorem spell_encode (form : Form) (t : Text) : Spell (t.map fun c => .char c (form.encodeChar c)) t := by
  rw [Spell, List.map_map]
  rfl

theorem Handler.resolve_of_spell (h : Handler) (form : Form) (position : Nat) (hs : Spell fragments t) :
    h.resolve form position fragments = .ok t := by
  induction fragments generalizing position t with
  | nil =>
    obtain rfl : t = [] := List.map_eq_nil_iff.mp hs.symm
    rfl
  | cons fragment rest ih =>
    rw [Spell, List.map_cons] at hs
    obtain ⟨c, u, rfl, hc, hu⟩ := List.map_eq_cons_iff.mp hs.symm
    cases fragment with
    | malformed reason octets => cases hc
    | char d octets =>
      cases hc
      rw [resolve, ih (position + octets.length) hu.symm]
      rfl

theorem Form.decode_encode (hh : h ∈ Handler.plain) (hcovers : ∀ c ∈ t, form.Covers c) (position : Nat) :
    form.decode h position [] (form.encode t) false = .ok (t, []) := by
  rw [decode_eq_ok hh, scan_encode hcovers]
  exact ⟨h.resolve_of_spell form position (spell_encode form t), rfl⟩

theorem Form.finish_decode (hh : h ∈ Handler.plain) (position : Nat) :
    form.decode h position [] [] true = .ok ([], []) := by
  obtain ⟨hk, hm, -⟩ := Handler.ne_of_plain hh
  rw [decode, Handler.scan_eq_scan hk hm, Handler.finish_eq_finish hk hm]
  simp [scan, Handler.resolve]

theorem Decoder.decode_writes {encoding : Encoding} {octets : List Octet} (hh : h ∈ Handler.plain)
    (hw : encoding.Writes t octets) :
    ∃ form, (ofEncoding encoding).decode h octets false = .ok (t, .ready form []) := by
  cases encoding with
  | fixed form =>
    obtain ⟨hcovers, rfl⟩ := hw
    exact ⟨form, (decode_ready_eq_ok hh).mpr ⟨[], Form.decode_encode hh hcovers 0, rfl⟩⟩
  | markedUtf16 =>
    obtain ⟨order, rfl⟩ := hw
    have hmark : splitMark? (mark order ++ (Form.utf16 order).encode t) =
        some (order, (Form.utf16 order).encode t) := by cases order <;> rfl
    have hcovers : ∀ c ∈ t, (Form.utf16 order).Covers c := fun _ _ => trivial
    have ht := Form.decode_encode hh hcovers 2
    exact ⟨.utf16 order, (decode_marked_eq_ok hh hmark).mpr ⟨[], ht, rfl⟩⟩

end

end Encoding

namespace Read

section
variable {h : Handler} {t : Text} {chunks : List (List Octet)}

theorem decodes_writes {encoding : Encoding} (hh : h ∈ Handler.plain) (hne : [] ∉ chunks)
    (hw : encoding.Writes t chunks.flatten) :
    ∃ form, Decodes (.ofDecoder h (.ofEncoding encoding)) (chunks.map .octets) t (.ofDecoder h (.ready form [])) := by
  obtain ⟨form, hd⟩ := Decoder.decode_writes hh hw
  exact ⟨form, (decodes_iff hh hne (Decoder.decode_nil hh encoding)).mpr ⟨_, hd, rfl⟩⟩

theorem closing_ready (hh : h ∈ Handler.plain) (form : Form) :
    closing (.ofDecoder h (.ready form [])) = .ok [] := by
  obtain ⟨-, -, hn⟩ := Handler.ne_of_plain hh
  simp only [closing, Codec.decode_ofDecoder, Decoder.decode, if_neg hn, Form.finish_decode hh]
  rfl

theorem closing_ofEncoding (hh : h ∈ Handler.plain) (encoding : Encoding) :
    closing (.ofDecoder h (.ofEncoding encoding)) = .ok [] := by
  cases encoding with
  | fixed form => exact closing_ready hh form
  | markedUtf16 =>
    obtain ⟨-, -, hn⟩ := Handler.ne_of_plain hh
    simp only [closing, Codec.decode_ofDecoder, Decoder.ofEncoding, Decoder.decode, if_neg hn, List.append_nil,
      splitMark?, Form.finish_decode hh]
    rfl

theorem outcome_of_empty {c : Codec} {last : Read} (hlast : last ∈ [.octets [], .text []])
    (hclosing : closing c = .ok []) : last.outcome c = .last (.ok []) := by
  rcases List.mem_cons.mp hlast with rfl | hlast
  · rw [outcome, hclosing]
  · obtain rfl := List.mem_singleton.mp hlast
    rfl

theorem decodes_text (c : Codec) {chunks : List Text} (hne : [] ∉ chunks) :
    Decodes c (chunks.map .text) chunks.flatten c := by
  induction chunks with
  | nil => exact .nil c
  | cons piece chunks ih =>
    cases piece with
    | nil => exact absurd List.mem_cons_self hne
    | cons first rest => exact .cons rfl (ih fun hmem => hne (List.mem_cons_of_mem _ hmem))

end

end Read

/-- A stream over a reader gives the tokens of the text that is read, wherever it is cut: octets that write it,
    or its own parts, up to the first empty read. -/
theorem TokenStream.gives_of_reading {name : String} {input : ReaderInput} {encoding errors : Option String}
    {making opening : Config} {s : TokenStream} {rest : Source} {event : LogEvent} {found : Encoding} {last : Read}
    (h : ofSource (Source.ofReader .standard name input encoding errors making) opening = .ok (s, rest, event))
    (hfind : Encoding.find (Source.nameOr encoding making.encoding) = .ok found)
    (hhandler : Handler.ofName (Source.nameOr errors making.decodeErrors) ∈ Handler.plain)
    (hlast : last ∈ [.octets [], .text []]) (after : List Read) (other : String) (t : Text) :
    let items := (tokenize other t).map (Item.inSource ⟨name, none⟩)
    (∀ chunks : List (List Octet), found.Writes t chunks.flatten → [] ∉ chunks →
      input.reads ++ [.octets []] = chunks.map .octets ++ last :: after → Gives next s (items.map .item)) ∧
    ∀ chunks : List Text, chunks.flatten = t → [] ∉ chunks →
      input.reads ++ [.octets []] = chunks.map .text ++ last :: after → Gives next s (items.map .item) := by
  obtain ⟨hfresh, -, -⟩ := ofSource_eq_ok h
  have hfeed := Source.feed_of_opened h
  have hcodec := Codecs.find_standard hfind (Source.nameOr errors making.decodeErrors)
  have hgives : ∀ before d,
      Read.Decodes (.ofDecoder (.ofName (Source.nameOr errors making.decodeErrors)) (.ofEncoding found)) before t d →
      Read.closing d = .ok [] →
      input.reads ++ [.octets []] = before ++ last :: after →
      Gives next s (((tokenize other t).map (Item.inSource ⟨name, none⟩)).map .item) := by
    intro before d hbefore hclosing hreads
    have hd : (Source.reader .standard name input encoding errors making).delivery = ⟨t, .finished⟩ :=
      Reader.delivery_of_decodes rfl hcodec hreads hbefore (Read.outcome_of_empty hlast hclosing)
    rw [Item.map_inSource_tokenize]
    exact gives_ofText hfresh (by rw [hfeed]; exact hd)
  refine ⟨fun chunks hw hne hreads => ?_, fun chunks ht hne hreads => ?_⟩
  · obtain ⟨form, hdecodes⟩ := Read.decodes_writes hhandler hne hw
    exact hgives _ _ hdecodes (Read.closing_ready hhandler form) hreads
  · subst ht
    exact hgives _ _ (Read.decodes_text _ hne) (Read.closing_ofEncoding hhandler found) hreads

/-- A surrogate pair and the mark before it are cut through; the same text is cut. -/
theorem TokenStream.gives_of_cut_pair :
    let source reads := Source.ofReader .standard "notes" (.script reads) (some "UTF-16") (some "ignore") {}
    let items := (tokenize "notes" ['a', '😀']).map (Item.inSource ⟨"notes", none⟩)
    (∃ s rest event, ofSource (source ([[0xfe], [0xff, 0x00], [0x61, 0xd8, 0x3d, 0xde], [0x00], []].map .octets)) {} =
      .ok (s, rest, event) ∧ Gives next s (items.map .item)) ∧
    ∃ s rest event, ofSource (source ([['a'], ['😀'], []].map .text)) {} = .ok (s, rest, event) ∧
      Gives next s (items.map .item) := by
  have hfind : Encoding.find (Source.nameOr (some "UTF-16") ({} : Config).encoding) = .ok .markedUtf16 := by decide
  have hhandler : Handler.ofName (Source.nameOr (some "ignore") ({} : Config).decodeErrors) ∈ Handler.plain := by
    decide
  have hoctets : Read.octets [] ∈ [.octets [], .text []] := by decide
  have htext : Read.text [] ∈ [.octets [], .text []] := by decide
  have hwrites : Encoding.markedUtf16.Writes ['a', '😀'] [0xfe, 0xff, 0x00, 0x61, 0xd8, 0x3d, 0xde, 0x00] :=
    ⟨.big, by decide⟩
  refine ⟨⟨_, _, _, rfl, ?_⟩, _, _, _, rfl, ?_⟩
  · exact (gives_of_reading rfl hfind hhandler hoctets [.octets []] "notes" ['a', '😀']).1
      [[0xfe], [0xff, 0x00], [0x61, 0xd8, 0x3d, 0xde], [0x00]] hwrites (by decide) rfl
  · exact (gives_of_reading rfl hfind hhandler htext [.octets []] "notes" ['a', '😀']).2 [['a'], ['😀']] rfl
      (by decide) rfl

example : ∀ entry ∈ [("utf-8", Encoding.fixed .utf8), ("utf-16-le", .fixed (.utf16 .little)),
    ("utf-16-be", .fixed (.utf16 .big)), ("utf-16", .markedUtf16), ("latin-1", .fixed .latin1),
    ("ascii", .fixed .ascii)],
    Encoding.find entry.1 = .ok entry.2 := by decide

end Lexeme
