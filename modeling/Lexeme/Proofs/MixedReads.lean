import Lexeme.Proofs.Reads

/-! # Reads of text among reads of octets

Text needs no decoding, so that the codec does not notice a read of text: what it keeps, it keeps for the next
octets. So a read of text puts its characters where it stands, behind all that was decoded before it and before all
that is decoded after it, and nothing else becomes of the script (`Delivery.ofScript_insert`). The end is a matter of
the octets as well, unless it is an empty text: then what is kept is left where it is. -/

namespace Lexeme

namespace Read

/-- Reads that go through the codec. -/
def isOctets : Read → Bool
  | octets _ => true
  | _ => false

section
variable {c e : Codec} {reads : List Read} {read : Read} {t : Text}

theorem outcome_of_text (c : Codec) (ht : t ≠ []) : (text t).outcome c = .more t c := by
  cases t with
  | nil => exact absurd rfl ht
  | cons first rest => rfl

/-- A good read that is no read of octets leaves the codec as it is. -/
theorem codec_eq_of_outcome (ho : read.outcome c = .more t e) (hread : read.isOctets = false) : e = c := by
  cases read with
  | octets piece => cases hread
  | failure fault message => cases ho
  | text piece =>
    cases piece with
    | nil => cases ho
    | cons first rest =>
      cases ho
      rfl

/-- The reads of octets alone leave the same codec behind, and what they are decoded to is found, in its order, in
    what all reads come to. -/
theorem Decodes.octets_only (hd : Decodes c reads t e) :
    ∃ u, Decodes c (reads.filter isOctets) u e ∧ u.Sublist t := by
  induction hd with
  | nil c => exact ⟨[], .nil c, .slnil⟩
  | @cons c d e read reads t v ho _ ih =>
    obtain ⟨u, hu, hsub⟩ := ih
    cases hread : read.isOctets with
    | true =>
      rw [List.filter_cons_of_pos hread]
      exact ⟨t ++ u, .cons ho hu, hsub.append_left t⟩
    | false =>
      obtain rfl := codec_eq_of_outcome ho hread
      rw [List.filter_cons_of_neg (by simp [hread])]
      exact ⟨u, hu, hsub.trans (List.sublist_append_right t v)⟩

end

end Read

section
variable {c e : Codec} {before : List Read} {t inserted : Text}

/-- A read of text among others inserts its characters behind those that the reads before it were decoded to. -/
theorem Delivery.ofScript_insert (source : String) (hbefore : Read.Decodes c before t e) (hinserted : inserted ≠ [])
    (rest : List Read) :
    ofScript source c (before ++ .text inserted :: rest) = (ofScript source e rest).after (t ++ inserted) := by
  rw [ofScript_append hbefore, ofScript, Read.outcome_of_text e hinserted]
  exact after_append _ t inserted

end

namespace Source

section
variable {codecs : Codecs} {encoding errors : Option String} {making : Config} {c d : Codec} {before : List Read}
  {t inserted : Text}

theorem delivery_of_script (name : String)
    (hfind : codecs.find (nameOr encoding making.encoding) (nameOr errors making.decodeErrors) = .ok c)
    (reads : List Read) :
    (reader codecs name (.script reads) encoding errors making).delivery = Delivery.ofScript name c reads :=
  Reader.delivery_of_find rfl hfind

/-- With any codec that gives no lone surrogates, a read of text that is put before the read that ends the input or
    fails gives its characters at its place: what was decoded before it comes before, all else after it, and the end is
    the same. An empty read of octets at the end makes of what is kept what it makes of it after the octets alone; an
    empty text makes nothing of it. -/
theorem delivers_of_insertion (name : String)
    (hfind : codecs.find (nameOr encoding making.encoding) (nameOr errors making.decodeErrors) = .ok c)
    (hbefore : Read.Decodes c before t d) (hinserted : inserted ≠ []) (rest : List Read) :
    let source reads := ofReader codecs name (.script reads) encoding errors making
    ∃ f g u stop, (source (before ++ rest)).unread = some f ∧
      (source (before ++ .text inserted :: rest)).unread = some g ∧
      f.Delivers (t ++ u) stop ∧ g.Delivers (t ++ (inserted ++ u)) stop ∧
      (∀ after, rest = .octets [] :: after →
        ∃ alone v, (source (before.filter Read.isOctets ++ [.octets []])).unread = some alone ∧
          Read.Decodes c (before.filter Read.isOctets) v d ∧ v.Sublist t ∧ alone.Delivers (v ++ u) stop) ∧
      ∀ after, rest = .text [] :: after → u = [] ∧ stop = .finished := by
  intro source
  let later := Delivery.ofScript name d rest
  refine ⟨_, _, later.text, later.ending, rfl, rfl, ?_, ?_, ?_, ?_⟩
  · rw [Feed.delivers_iff]
    exact (delivery_of_script name hfind _).trans (Delivery.ofScript_append hbefore rest)
  · rw [Feed.delivers_iff, ← List.append_assoc]
    exact (delivery_of_script name hfind _).trans (Delivery.ofScript_insert name hbefore hinserted rest)
  · -- The octets alone leave the same codec behind, which then meets the same empty read.
    rintro after rfl
    obtain ⟨v, hv, hsub⟩ := hbefore.octets_only
    refine ⟨_, v, rfl, hv, hsub, ?_⟩
    rw [Feed.delivers_iff]
    exact (delivery_of_script name hfind _).trans (Delivery.ofScript_append hv [.octets []])
  · rintro after rfl
    exact ⟨rfl, rfl⟩

/-- A text comes between the two octets of a character, which is whole again behind it; and the first of two octets
    alone is an error at the end of the octets, and nothing at the end of a text. -/
theorem delivers_of_torn_character :
    let source reads := ofReader .standard "notes" (.script reads) none none {}
    (∃ f g, (source [.octets [0x61, 0xc3], .octets [0xa9], .octets []]).unread = some f ∧
      (source [.octets [0x61, 0xc3], .text ['-', '-'], .octets [0xa9], .octets []]).unread = some g ∧
      f.Delivers ['a', 'é'] .finished ∧ g.Delivers ['a', '-', '-', 'é'] .finished) ∧
    (∃ g error, (source [.octets [0x61, 0xc3], .text ['-', '-'], .octets []]).unread = some g ∧
      g.Delivers ['a', '-', '-'] (.failed error)) ∧
    ∃ g, (source [.octets [0x61, 0xc3], .text ['-', '-'], .text []]).unread = some g ∧
      g.Delivers ['a', '-', '-'] .finished := by
  intro source
  have hfind : Codecs.standard.find (nameOr none ({} : Config).encoding) (nameOr none ({} : Config).decodeErrors) =
      .ok (.ofDecoder .strict (.ofEncoding (.fixed .utf8))) := Codecs.find_standard (by decide) _
  have hbefore : Read.Decodes (.ofDecoder .strict (.ofEncoding (.fixed .utf8))) [.octets [0x61, 0xc3]] ['a']
      (.ofDecoder .strict (.ready .utf8 [0xc3])) := .cons (t := ['a']) (u := []) rfl (.nil _)
  have hinserted : ['-', '-'] ≠ [] := by decide
  refine ⟨?_, ?_, ?_⟩
  · obtain ⟨f, g, u, stop, hf, hg, hplain, hmixed, -⟩ :=
      delivers_of_insertion "notes" hfind hbefore hinserted [.octets [0xa9], .octets []]
    cases hf
    have hd : (Feed.reader (reader .standard "notes" (.script [.octets [0x61, 0xc3], .octets [0xa9], .octets []]) none
        none {})).delivery = ⟨['a', 'é'], .finished⟩ := by decide
    cases hd.symm.trans (Feed.delivers_iff.mp hplain)
    exact ⟨_, g, rfl, hg, hplain, hmixed⟩
  · obtain ⟨f, g, u, stop, hf, hg, hplain, hmixed, -⟩ :=
      delivers_of_insertion "notes" hfind hbefore hinserted [.octets []]
    cases hf
    have hd : (Feed.reader (reader .standard "notes" (.script [.octets [0x61, 0xc3], .octets []]) none none
        {})).delivery = ⟨['a'], .failed ⟨"notes", .undecodable .utf8 .unexpectedEnd [0xc3] 0⟩⟩ := by decide
    cases hd.symm.trans (Feed.delivers_iff.mp hplain)
    exact ⟨g, _, hg, hmixed⟩
  · obtain ⟨f, g, u, stop, -, hg, -, hmixed, -, hlast⟩ :=
      delivers_of_insertion "notes" hfind hbefore hinserted [.text []]
    obtain ⟨rfl, rfl⟩ := hlast [] rfl
    exact ⟨g, hg, hmixed⟩

end

end Source

end Lexeme
