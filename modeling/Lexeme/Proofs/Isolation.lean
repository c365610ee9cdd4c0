import Lexeme.Proofs.Steps

/-! # Cursors do not disturb each other

What the pulls of a cursor give is not changed by anything else that happens in a session: not by other sources
and cursors, nor by the settings once its source is made and it is opened. So its answers are those of a session
in which nothing but its source is made, under the settings for decoding that were active then, and nothing but
the cursor is opened and pulled, under the policy for errors that was active then. -/

namespace Lexeme

/-- Commands that open the cursor of a name, pull it or ask for its state. -/
def Command.concerns (id : String) (command : Command) : Bool :=
  command.opens id || command.asks id

namespace Session

/-- The session after some commands. -/
def after (s : Session) (commands : List Command) : Session :=
  commands.foldl (fun s command => (s.step command).next) s

/-- What some of the commands that are run are answered, and what is reported meanwhile. -/
def answersTo (s : Session) (chosen : Command → Bool) (commands : List Command) : List (Answer × List LogEvent) :=
  ((commands.zip (s.run commands)).filter (chosen ·.1)).map (·.2)

section
variable {s t : Session} {id src : String} {key : Nat} {command : Command}

theorem answersTo_cons (s : Session) (chosen : Command → Bool) (command : Command) (rest : List Command) :
    s.answersTo chosen (command :: rest) =
      let later := (s.step command).next.answersTo chosen rest
      if chosen command then ((s.step command).answer, (s.step command).log) :: later else later := by
  unfold answersTo
  rw [run, List.zip_cons_cons]
  by_cases h : chosen command <;> simp [h]

theorem after_append (s : Session) (first second : List Command) :
    s.after (first ++ second) = (s.after first).after second :=
  List.foldl_append

/-- What every command keeps is kept by a run of commands. -/
theorem after_of_changes {P : Session → Prop} {commands : List Command} (hs : P s)
    (hstep : ∀ s t, ∀ command ∈ commands, Changes s command t → P s → P t) : P (s.after commands) := by
  induction commands generalizing s with
  | nil => exact hs
  | cons command rest ih =>
    refine ih (hstep s _ command List.mem_cons_self (changes s command) hs) fun s t other hmem => ?_
    exact hstep s t other (List.mem_cons_of_mem _ hmem)

theorem keyed_after (codecs : Codecs) (commands : List Command) : (after { codecs := codecs } commands).Keyed :=
  after_of_changes (fun _ he => by cases he) fun _ _ _ _ h hs => hs.changes h

theorem codecs_after (s : Session) (commands : List Command) : (s.after commands).codecs = s.codecs :=
  after_of_changes (P := fun t => t.codecs = s.codecs) rfl fun _ _ _ _ h hs => h.codecs.trans hs

/-! ### Two sessions -/

/-- Two sessions hold the same cursor under a name. -/
def Agree (s t : Session) (id : String) (key : Nat) : Prop :=
  ∃ key' cursor, s.cursor? id = some ⟨id, key, cursor⟩ ∧ t.cursor? id = some ⟨id, key', cursor⟩

/-- The same answer, and the same reports. -/
def Alike (s t : Session) (command : Command) : Prop :=
  ((s.step command).answer, (s.step command).log) = ((t.step command).answer, (t.step command).log)

theorem agree_replied {key' : Nat} (s t : Session) (id : String) (key : Nat) (cursor : Cursor)
    (replies : List (Reply Cursor Given)) :
    (s.replied ⟨id, key, cursor⟩ replies).next.Agree (t.replied ⟨id, key', cursor⟩ replies).next id key := by
  refine ⟨key', Reply.lastState cursor replies, ?_, ?_⟩
  · rw [replied, cursor?_congr (cursors_noteSpans _ _ _)]
    exact cursor?_putCursor s ⟨id, key, _⟩
  · rw [replied, cursor?_congr (cursors_noteSpans _ _ _)]
    exact cursor?_putCursor t ⟨id, key', _⟩

/-- A cursor answers by itself. -/
theorem Agree.step (h : s.Agree t id key) (hasks : command.asks id) :
    Alike s t command ∧ (s.step command).next.Agree (t.step command).next id key := by
  obtain ⟨key', cursor, hs, ht⟩ := h
  cases command with
  | pull other count =>
    obtain rfl := beq_iff_eq.mp hasks
    simp only [Alike, Session.step, withCursor, hs, ht]
    exact ⟨rfl, agree_replied s t other key cursor _⟩
  | drain other =>
    obtain rfl := beq_iff_eq.mp hasks
    simp only [Alike, Session.step, withCursor, hs, ht]
    exact ⟨rfl, agree_replied s t other key cursor _⟩
  | state other =>
    obtain rfl := beq_iff_eq.mp hasks
    simp only [Alike, Session.step, withCursor, hs, ht]
    cases cursor <;> exact ⟨rfl, _, _, hs, ht⟩
  | _ => cases hasks

/-- Nothing else changes what a cursor will answer. -/
theorem answersTo_of_agree (h : s.Agree t id key) (howns : s.Owns src key) {commands : List Command}
    (hopens : ∀ command ∈ commands, command.opens id = false) (hclose : ∀ command ∈ commands, command ≠ .close src) :
    s.answersTo (·.concerns id) commands = t.run (commands.filter (·.concerns id)) := by
  induction commands generalizing s t with
  | nil => rfl
  | cons command rest ih =>
    have hstays := howns.changes (changes s command)
    obtain ⟨hopens', hopens⟩ := List.forall_mem_cons.mp hopens
    obtain ⟨hclose', hclose⟩ := List.forall_mem_cons.mp hclose
    have hconcerns : command.concerns id = command.asks id := by rw [Command.concerns, hopens', Bool.false_or]
    -- A command about the cursor changes it alike in both sessions, and no other command changes it.
    rw [answersTo_cons, List.filter_cons, hconcerns]
    cases hasks : command.asks id with
    | true =>
      obtain ⟨halike, hagree⟩ := h.step hasks
      rw [if_pos rfl, if_pos rfl, run, ih hagree hstays hopens hclose]
      exact congrArg (· :: _) halike
    | false =>
      obtain ⟨key', cursor, hs, ht⟩ := h
      have hs := howns.cursor?_of_changes (changes s command) hs rfl hopens' hasks hclose'
      rw [if_neg Bool.false_ne_true, if_neg Bool.false_ne_true]
      exact ih ⟨key', cursor, hs, ht⟩ hstays hopens hclose

/-- What is made hangs on the codecs and the settings for decoding alone, and is not read yet. -/
theorem step_of_makes (hmakes : command.makes src) (hcodecs : t.codecs = s.codecs)
    (hencoding : t.config.active.encoding = s.config.active.encoding)
    (herrors : t.config.active.decodeErrors = s.config.active.decodeErrors) :
    ∃ source message feed, source.unread = some feed ∧ (s.step command).next = s.addSource src source message ∧
      (t.step command).next = t.addSource src source message := by
  cases command with
  | makeText other name text =>
    obtain rfl := beq_iff_eq.mp hmakes
    exact ⟨_, _, _, rfl, rfl, rfl⟩
  | makeReader other name input encoding errors =>
    obtain rfl := beq_iff_eq.mp hmakes
    refine ⟨_, _, _, rfl, rfl, ?_⟩
    simp only [Session.step, Source.ofReader, hcodecs, hencoding, herrors]
  | _ => cases hmakes

/-- What is opened hangs on the policy for errors alone. -/
theorem agree_openCursor {source : Source} {message message' : String} {feed : Feed} {key' : Nat}
    (hunread : source.unread = some feed) (hs : s.source? src = some ⟨src, key, source, message⟩)
    (ht : t.source? src = some ⟨src, key', source, message'⟩)
    (hflush : t.config.active.flushOnError = s.config.active.flushOnError) (what : Opening) (id : String) :
    Alike s t (.openCursor what id src) ∧
      (s.step (.openCursor what id src)).next.Agree (t.step (.openCursor what id src)).next id key := by
  have htake : source.take? = some (feed, { source with unread := none }) := by rw [Source.take?, hunread]; rfl
  cases what with
  | tokens =>
    simp only [Alike, Session.step, withSource, hs, ht, openTokens, TokenStream.ofSource, CharStream.ofSource, htake,
      hflush]
    exact ⟨trivial, key', _, cursor?_putCursor _ ⟨id, key, _⟩, cursor?_putCursor _ ⟨id, key', _⟩⟩
  | chars =>
    simp only [Alike, Session.step, withSource, hs, ht, openChars, CharStream.ofSource, htake]
    exact ⟨trivial, key', _, cursor?_putCursor _ ⟨id, key, _⟩, cursor?_putCursor _ ⟨id, key', _⟩⟩
  | bare =>
    simp only [Alike, Session.step, withSource, hs, ht, openBare, htake]
    exact ⟨trivial, key', _, cursor?_putCursor _ ⟨id, key, _⟩, cursor?_putCursor _ ⟨id, key', _⟩⟩

/-- A source stays as it was made while no command is about its name. -/
theorem source?_after (hs : s.Keyed) (src : String) (source : Source) (message : String) {between : List Command}
    (hmakes : ∀ command ∈ between, command.makes src = false) (huses : ∀ command ∈ between, command.uses src = false) :
    let made := (s.addSource src source message).after between
    made.Owns src s.sources.length ∧ made.source? src = some ⟨src, s.sources.length, source, message⟩ := by
  refine after_of_changes
    (P := fun t => t.Owns src s.sources.length ∧ t.source? src = some ⟨src, s.sources.length, source, message⟩)
    ⟨owns_addSource hs src source message, source?_addSource s src source message⟩ ?_
  rintro s t command hmem h ⟨howns, hsource⟩
  exact ⟨howns.changes h, howns.source?_of_changes h hsource rfl (hmakes command hmem) (huses command hmem)⟩

end

/-- The answers to the opening of a cursor and to its pulls, and what is reported meanwhile, are those of a session
    with the same codecs and nothing else in it. The settings count when the source is made and when the cursor is
    opened, each for its part. -/
theorem isolated (codecs : Codecs) (what : Opening) (id src : String) (make : Command) (making opening : Config)
    (before between later : List Command) (hmake : make.makes src)
    (hmakes : ∀ command ∈ between, command.makes src = false) (huses : ∀ command ∈ between, command.uses src = false)
    (hopens : ∀ command ∈ later, command.opens id = false) (hclose : ∀ command ∈ later, command ≠ .close src)
    (hencoding : making.encoding = (after { codecs := codecs } before).config.active.encoding)
    (herrors : making.decodeErrors = (after { codecs := codecs } before).config.active.decodeErrors)
    (hflush : opening.flushOnError =
      (after { codecs := codecs } (before ++ make :: between)).config.active.flushOnError) :
    (after { codecs := codecs } (before ++ make :: between)).answersTo (·.concerns id)
        (.openCursor what id src :: later) =
      (run { codecs := codecs } (.setConfig making :: make :: .setConfig opening :: .openCursor what id src ::
        later.filter (·.concerns id))).drop 3 := by
  let start : Session := { codecs := codecs }
  obtain ⟨source, message, feed, hunread, hmade, halone⟩ :=
    step_of_makes (s := start.after before) (t := start.after [.setConfig making]) hmake
      ((codecs_after start _).trans (codecs_after start _).symm) hencoding herrors
  have hafter : start.after (before ++ make :: between) =
      ((start.after before).addSource src source message).after between := by
    rw [after_append, ← hmade]
    rfl
  rw [hafter] at hflush ⊢
  obtain ⟨howns, hsource⟩ := source?_after (keyed_after codecs before) src source message hmakes huses
  -- The session with nothing but the source in it, under the settings for the opening.
  have hsource' : (start.after [.setConfig making, make, .setConfig opening]).source? src =
      some ⟨src, 0, source, message⟩ := by
    show ((start.after [.setConfig making]).step make).next.source? src = _
    rw [halone]
    exact source?_addSource _ src source message
  obtain ⟨halike, hagree⟩ := agree_openCursor hunread hsource hsource' hflush what id
  have hopening : (Command.openCursor what id src).concerns id := by simp [Command.concerns, Command.opens]
  have hlater := answersTo_of_agree hagree (howns.changes (changes _ _)) hopens hclose
  rw [answersTo_cons, if_pos hopening, hlater]
  exact congrArg (· :: _) halike

/-- Malformed octets are replaced and the word before an error is given out, as was set when the reader was made and
    the stream opened, whatever is set in between and after, and though other characters fail meanwhile. -/
theorem isolated_of_failing_neighbour :
    let make := Command.makeReader "doc" "notes" (.script [.octets [0x61, 0xff], .failure .system "lost"]) none none
    let before := [Command.makeReader "other" "draft" (.script [.failure .system "gone"]) none none,
      .openCursor .chars "t" "other", .enterConfig { decodeErrors := "replace", flushOnError := false }]
    let between := [Command.leaveConfig true, .pull "t" 1]
    let later := [Command.setConfig { decodeErrors := "strict", flushOnError := false }, .pull "s" 1,
      .excerpt "other" {}, .pull "t" 1, .resetConfig, .pull "s" 3, .state "s"]
    (after {} (before ++ make :: between)).answersTo (·.concerns "s") (.openCursor .tokens "s" "doc" :: later) =
      (run {} [.setConfig { decodeErrors := "replace" }, make, .setConfig {}, .openCursor .tokens "s" "doc",
        .pull "s" 1, .pull "s" 3, .state "s"]).drop 3 := by
  intro make before between later
  exact isolated .standard .tokens "s" "doc" make { decodeErrors := "replace" } {} before between later rfl (by decide)
    (by decide) (by decide) (by simp [later]) rfl rfl rfl

end Session

end Lexeme
