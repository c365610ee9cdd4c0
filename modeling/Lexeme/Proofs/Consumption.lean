import Lexeme.Proofs.Isolation

/-! # A source is opened once

The first opening over a source takes its characters and leaves none (`step_openCursor_of_unread`). Every later one is
refused and leaves the whole session as it is (`Spent.step_openCursor`). So nothing else that happens can tell that it
was tried: the run without the refused openings has the same answers and comes to the same session
(`Spent.run_filter`). -/

namespace Lexeme

/-- Commands that try to open a cursor over the source of a name. -/
def Command.attempts (src : String) : Command → Bool
  | openCursor _ _ other => other == src
  | _ => false

namespace Opening

/-- What is answered to an opening that takes the characters of a source. -/
def acceptance (o : Origin) : Opening → Answer
  | tokens => .state .idle
  | chars => .shown (SourceLocation.label o.start)
  | bare => .truth true

/-- What is answered to an opening over a source whose characters are taken. -/
def refusal (o : Origin) : Opening → Answer
  | tokens => .refused (.consumed o.name)
  | chars => .refused (.consumed o.name)
  | bare => .nothing

end Opening

namespace Session

variable {s : Session} {id src : String} {e : SourceEntry}

/-! ### The first opening -/

theorem source?_putSource (h : s.source? src = some e) (source : Source) :
    (s.putSource e.key source).source? src = some { e with source } := by
  have hname : ((fun e : SourceEntry => e.id == src) ∘
      fun old => if old.key = e.key then { old with source } else old) = fun old => old.id == src := by
    funext old
    rw [Function.comp_apply]
    split <;> rfl
  rw [source?] at h
  rw [source?, putSource, List.find?_map, hname, h, Option.map_some, if_pos rfl]

theorem step_openCursor_of_unread (h : s.source? src = some e) {feed : Feed} (hunread : e.source.unread = some feed)
    (what : Opening) (id : String) :
    let opened := s.step (.openCursor what id src)
    opened.answer = what.acceptance e.source.origin ∧
      (∃ cursor, opened.next.cursor? id = some ⟨id, e.key, cursor⟩ ∧ cursor.feed = feed) ∧
      opened.next.source? src = some { e with source := { e.source with unread := none } } := by
  have htake : e.source.take? = some (feed, { e.source with unread := none }) := by rw [Source.take?, hunread]; rfl
  have hsource := source?_putSource h { e.source with unread := none }
  cases what with
  | tokens =>
    simp only [step, withSource, h, openTokens, TokenStream.ofSource, CharStream.ofSource, htake]
    exact ⟨rfl, ⟨_, cursor?_putCursor _ ⟨id, e.key, _⟩, rfl⟩, hsource⟩
  | chars =>
    simp only [step, withSource, h, openChars, CharStream.ofSource, htake]
    exact ⟨rfl, ⟨_, cursor?_putCursor _ ⟨id, e.key, _⟩, rfl⟩, hsource⟩
  | bare =>
    simp only [step, withSource, h, openBare, htake]
    exact ⟨rfl, ⟨_, cursor?_putCursor _ ⟨id, e.key, _⟩, rfl⟩, hsource⟩

/-! ### Every later opening -/

/-- The characters of the source of a name are taken. -/
structure Spent (s : Session) (src : String) (e : SourceEntry) : Prop where
  owns : s.Owns src e.key
  found : s.source? src = some e
  taken : e.source.unread = none

theorem Spent.step_openCursor (h : s.Spent src e) (what : Opening) (id : String) :
    s.step (.openCursor what id src) = ⟨what.refusal e.source.origin, [], s⟩ := by
  have htake : e.source.take? = none := by rw [Source.take?, h.taken]; rfl
  cases what with
  | tokens => simp only [step, withSource, h.found, openTokens, TokenStream.ofSource, CharStream.ofSource, htake]; rfl
  | chars => simp only [step, withSource, h.found, openChars, CharStream.ofSource, htake]; rfl
  | bare => simp only [step, withSource, h.found, openBare, htake]; rfl

/-- Closing finds nothing to close in a source whose characters are taken. -/
theorem Spent.source?_close (h : s.Spent src e) : (s.close e).source? src = some e := by
  have hclose : e.source.close e.closedMessage = e.source := by rw [Source.close, h.taken, Option.map_none, ← h.taken]
  have hsource := source?_putSource h.found (e.source.close e.closedMessage)
  rw [hclose] at hsource
  rw [source?, close, hclose]
  exact hsource

/-- A source whose characters are taken stays as it is, whatever happens but that its name is given anew. -/
theorem Spent.step (h : s.Spent src e) {command : Command} (hmakes : command.makes src = false) :
    (s.step command).next.Spent src e := by
  refine ⟨h.owns.changes (changes s command), ?_, h.taken⟩
  cases huses : command.uses src with
  | false => exact h.owns.source?_of_changes (changes s command) h.found rfl hmakes huses
  | true =>
    cases command with
    | openCursor what id other =>
      obtain rfl := beq_iff_eq.mp huses
      rw [h.step_openCursor]
      exact h.found
    | close other =>
      obtain rfl := beq_iff_eq.mp huses
      simp only [Session.step, withSource, h.found]
      exact h.source?_close
    | _ => cases huses

theorem Spent.next_of_attempts (h : s.Spent src e) {command : Command} (hattempts : command.attempts src) :
    (s.step command).next = s := by
  cases command with
  | openCursor what id other =>
    obtain rfl := beq_iff_eq.mp hattempts
    rw [h.step_openCursor]
  | _ => cases hattempts

/-! ### Every number of commands -/

theorem Spent.after (h : s.Spent src e) {later : List Command} (hmakes : ∀ command ∈ later, command.makes src = false) :
    (s.after later).Spent src e := by
  induction later generalizing s with
  | nil => exact h
  | cons command rest ih =>
    obtain ⟨hmakes, hrest⟩ := List.forall_mem_cons.mp hmakes
    exact ih (h.step hmakes) hrest

/-- Refused openings can be left out of a run. -/
theorem Spent.run_filter (h : s.Spent src e) {later : List Command}
    (hmakes : ∀ command ∈ later, command.makes src = false) :
    s.answersTo (!·.attempts src) later = s.run (later.filter (!·.attempts src)) ∧
      s.after later = s.after (later.filter (!·.attempts src)) := by
  induction later generalizing s with
  | nil => exact ⟨rfl, rfl⟩
  | cons command rest ih =>
    obtain ⟨hmakes, hrest⟩ := List.forall_mem_cons.mp hmakes
    obtain ⟨hanswers, hafter⟩ := ih (h.step hmakes) hrest
    rw [answersTo_cons, List.filter_cons]
    cases hattempts : command.attempts src with
    | true =>
      have hstays := h.next_of_attempts hattempts
      rw [hstays] at hanswers hafter
      refine ⟨?_, ?_⟩
      · rw [if_neg (by simp), if_neg (by simp), hstays]
        exact hanswers
      · rw [if_neg (by simp), ← hafter]
        show (s.step command).next.after rest = _
        rw [hstays]
    | false =>
      refine ⟨?_, ?_⟩
      · rw [if_pos (by simp), if_pos (by simp), run, hanswers]
      · rw [if_pos (by simp)]
        exact hafter

theorem excerpt_of_found {t : Session} {e' : SourceEntry} (hs : s.source? src = some e) (ht : t.source? src = some e')
    (horigin : e'.source.origin = e.source.origin) (span : Span) :
    (t.step (.excerpt src span)).answer = (s.step (.excerpt src span)).answer := by
  simp only [Session.step, withSource, hs, ht, horigin]

/-- A source that was made is available as it was made until it is opened, and then gives its characters to the cursor
    that is opened. From then on it is consumed: every opening is refused in its name and changes nothing, so that all
    other commands are answered as they would be without it, and excerpts are the same as before. -/
theorem opened_once (codecs : Codecs) (what : Opening) (id src : String) (make : Command)
    (before between later : List Command)
    (hmake : make.makes src) (hmakes : ∀ command ∈ between, command.makes src = false)
    (huses : ∀ command ∈ between, command.uses src = false)
    (hlater : ∀ command ∈ later, command.makes src = false) :
    let start : Session := { codecs := codecs }
    let made := ((start.after before).step make).next
    let unopened := start.after (before ++ make :: between)
    let opened := unopened.step (.openCursor what id src)
    let s := opened.next.after later
    ∃ e feed cursor e', made.source? src = some e ∧ unopened.source? src = some e ∧ e.source.state = .available ∧
      e.source.unread = some feed ∧ opened.answer = what.acceptance e.source.origin ∧
      opened.next.cursor? id = some ⟨id, e.key, cursor⟩ ∧ cursor.feed = feed ∧
      s.source? src = some e' ∧ e'.source.state = .consumed ∧
      (∀ what' id', s.step (.openCursor what' id' src) = ⟨what'.refusal e.source.origin, [], s⟩) ∧
      (∀ span, (s.step (.excerpt src span)).answer = (unopened.step (.excerpt src span)).answer) ∧
      opened.next.answersTo (!·.attempts src) later = opened.next.run (later.filter (!·.attempts src)) ∧
      s = opened.next.after (later.filter (!·.attempts src)) := by
  intro start made unopened opened s
  obtain ⟨source, message, feed, hunread, hmade, -⟩ :=
    step_of_makes (s := start.after before) (t := start.after before) hmake rfl rfl rfl
  have hunopened : unopened = ((start.after before).addSource src source message).after between := by
    rw [← hmade]
    exact after_append start before (make :: between)
  obtain ⟨howns, hsource⟩ := source?_after (keyed_after codecs before) src source message hmakes huses
  rw [← hunopened] at howns hsource
  obtain ⟨hanswer, ⟨cursor, hcursor, hfeed⟩, htaken⟩ := step_openCursor_of_unread hsource hunread what id
  have hspent : opened.next.Spent src ⟨src, _, { source with unread := none }, message⟩ :=
    ⟨howns.changes (changes _ _), htaken, rfl⟩
  have hs : s.Spent src _ := hspent.after hlater
  refine ⟨_, feed, cursor, _, ?_, hsource, ?_, hunread, hanswer, hcursor, hfeed, hs.found, rfl,
    fun what' id' => hs.step_openCursor what' id', excerpt_of_found hsource hs.found rfl, hspent.run_filter hlater⟩
  · show made.source? src = _
    rw [show made = _ from hmade]
    exact source?_addSource _ src source message
  · show source.state = .available
    rw [Source.state, hunread]
    rfl

/-- A stream goes on as if nobody had tried to open its source meanwhile, also under its own name. -/
theorem opened_once_of_two_rivals :
    let make := Command.makeText "doc" "notes" ['a', '-', 'b']
    let later := [Command.pull "s" 1, .openCursor .chars "s" "doc", .excerpt "doc" {}, .openCursor .bare "t" "doc",
      .pull "s" 3]
    let unopened := after {} [make, .excerpt "doc" {}]
    let opened := unopened.step (.openCursor .tokens "s" "doc")
    unopened.source? "doc" = some ⟨"doc", 0, .ofText "notes" ['a', '-', 'b'], ""⟩ ∧ opened.answer = .state .idle ∧
      opened.next.answersTo (!·.attempts "doc") later =
        opened.next.run [.pull "s" 1, .excerpt "doc" {}, .pull "s" 3] ∧
      (opened.next.after later).step (.openCursor .tokens "u" "doc") =
        ⟨.refused (.consumed "notes"), [], opened.next.after later⟩ := by
  intro make later unopened opened
  obtain ⟨e, feed, cursor, e', hmade, hunopened, -, -, hanswer, -, -, -, -, hrefused, -, hrun, -⟩ :=
    opened_once .standard .tokens "s" "doc" make [] [.excerpt "doc" {}] later rfl (by decide) (by decide)
      (by simp [later, Command.makes])
  obtain rfl := Option.some.inj hmade
  exact ⟨hunopened, hanswer, hrun, hrefused .tokens "u"⟩

end Session
end Lexeme
