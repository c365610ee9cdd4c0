import Lexeme.Proofs.Reads
import Lexeme.Proofs.States

/-! # The last read of a reader

A reader reads until a read gives no data, fails, or cannot be decoded, and never again after that. How many reads
these are is settled before the first of them (`Reader.outlook`), and each pull keeps it or comes to it
(`Reader.foretells_next`). So what a run of pulls reports is known from the first of them that gives no character
(`Reader.runs_of_shows`), whoever makes the pulls; a stream adds that it has met a read error. -/

namespace Lexeme

universe u

/-! ### What a run of pulls reports -/

section
variable {σ : Type u} {α : Type}

theorem length_pullWith (next : σ → Reply σ α) (count : Nat) (s : σ) : (pullWith next count s).length = count := by
  induction count generalizing s with
  | zero => rfl
  | succ count ih => rw [pullWith, List.length_cons, ih]

/-- What is reported during a number of pulls. -/
def logAfter (next : σ → Reply σ α) (count : Nat) (s : σ) : List LogEvent :=
  (pullWith next count s).flatMap (·.log)

theorem logAfter_succ (next : σ → Reply σ α) (count : Nat) (s : σ) :
    logAfter next (count + 1) s = (next s).log ++ logAfter next count (next s).next :=
  rfl

theorem logAfter_add (next : σ → Reply σ α) (m n : Nat) (s : σ) :
    logAfter next (m + n) s = logAfter next m s ++ logAfter next n (stateAfter next m s) := by
  rw [logAfter, pullWith_add, List.flatMap_append]
  rfl

def Pull.stop? : Pull α → Option Stop
  | item _ => none
  | stop s => some s

/-- Why there are no more items, as the first pull shows that gives none. -/
def firstStop? (pulls : List (Pull α)) : Option Stop :=
  pulls.findSome? Pull.stop?

theorem firstStop?_append (first second : List (Pull α)) :
    firstStop? (first ++ second) = (firstStop? first).or (firstStop? second) :=
  List.findSome?_append

theorem firstStop?_items (items : List α) : firstStop? (items.map .item) = none := by
  rw [firstStop?, List.findSome?_map]
  exact List.findSome?_eq_none_iff.mpr fun _ _ => rfl

theorem stop_mem_of_firstStop? {pulls : List (Pull α)} {stop : Stop} (h : firstStop? pulls = some stop) :
    .stop stop ∈ pulls := by
  obtain ⟨p, hmem, hstop⟩ := List.exists_of_findSome?_eq_some h
  cases p with
  | item a => cases hstop
  | stop reason =>
    cases hstop
    exact hmem

end

namespace Stop

/-- What a stream reports of why its characters stop. -/
def surfacing : Stop → List LogEvent
  | failed error => [.surfaced error]
  | _ => []

end Stop

/-! ### What a reader will come to -/

namespace Read

/-- A read that is the last: it gives no data, or it fails, or its octets cannot be decoded. -/
def IsLast (c : Codec) : Read → Prop
  | octets piece => piece = [] ∨ ∃ cause, c.decode piece false = .error cause
  | text piece => piece = []
  | failure _ _ => True

theorem isLast_iff {c : Codec} {read : Read} : read.IsLast c ↔ ∃ result, read.outcome c = .last result := by
  cases read with
  | octets piece =>
    cases piece with
    | nil => simp [IsLast, outcome]
    | cons b rest => cases hdecode : c.decode (b :: rest) false <;> simp [IsLast, outcome, hdecode]
  | text piece => cases piece <;> simp [IsLast, outcome]
  | failure fault message => simp [IsLast, outcome]

/-- A script, with the empty reads after it, begins with good reads, which are decoded to a text, and a last one, which
    has a result. -/
def Ends (c : Codec) (script good : List Read) (t : Text) (result : Except Failure Text) : Prop :=
  ∃ last after e, script ++ [.octets []] = good ++ last :: after ∧ Decodes c good t e ∧ last.IsLast e ∧
    last.outcome e = .last result

theorem exists_ends (c : Codec) (script : List Read) : ∃ good t result, Ends c script good t result := by
  have hends : ∀ {read : Read} {rest : List Read} {c : Codec} {result : Except Failure Text},
      read.outcome c = .last result → Ends c (read :: rest) [] [] result :=
    fun ho => ⟨_, _, _, rfl, .nil _, isLast_iff.mpr ⟨_, ho⟩, ho⟩
  induction script generalizing c with
  | nil => exact ⟨[], [], _, .octets [], [], c, rfl, .nil c, .inl rfl, rfl⟩
  | cons read rest ih =>
    cases ho : read.outcome c with
    | last result => exact ⟨[], [], result, hends ho⟩
    | more t d =>
      obtain ⟨good, u, result, last, after, e, hscript, hgood, hlast⟩ := ih d
      exact ⟨read :: good, t ++ u, result, last, after, e, congrArg (read :: ·) hscript, .cons ho hgood, hlast⟩

end Read

/-- The good reads, and all reads, that a reader will have made in the end. -/
structure Outlook where
  lines : Nat
  reads : Nat

namespace Outlook

/-- What comes of a script, given the codec and what has been read before. -/
def ofScript (c : Codec) (lines reads : Nat) : List Read → Outlook
  | [] => ⟨lines, reads + 1⟩
  | read :: rest =>
    match read.outcome c with
    | .last _ => ⟨lines, reads + 1⟩
    | .more _ c => ofScript c (lines + 1) (reads + 1) rest

variable {c e : Codec} {lines reads : Nat}

theorem lt_reads_ofScript (script : List Read) : reads < (ofScript c lines reads script).reads := by
  induction script generalizing c lines reads with
  | nil => exact Nat.lt_succ_self reads
  | cons read rest ih =>
    rw [ofScript]
    cases read.outcome c with
    | last result => exact Nat.lt_succ_self reads
    | more t d => exact Nat.lt_of_succ_lt ih

theorem ofScript_append {good : List Read} {t : Text} (hgood : Read.Decodes c good t e) (rest : List Read) :
    ofScript c lines reads (good ++ rest) = ofScript e (lines + good.length) (reads + good.length) rest := by
  induction hgood generalizing lines reads with
  | nil c => rfl
  | @cons c d e read good t u ho _ ih =>
    rw [List.cons_append, ofScript, ho]
    refine ih.trans ?_
    rw [List.length_cons, Nat.add_assoc lines, Nat.add_assoc reads, Nat.add_comm 1]

/-- One more empty read changes nothing: after a script every read is empty. -/
theorem ofScript_append_empty (script : List Read) :
    ofScript c lines reads (script ++ [.octets []]) = ofScript c lines reads script := by
  induction script generalizing c lines reads with
  | nil => rfl
  | cons read rest ih =>
    rw [List.cons_append, ofScript, ofScript]
    cases read.outcome c with
    | last result => rfl
    | more t d => exact ih

theorem ofScript_of_ends {script good : List Read} {t : Text} {result : Except Failure Text}
    (hends : Read.Ends c script good t result) : ofScript c 0 0 script = ⟨good.length, good.length + 1⟩ := by
  obtain ⟨last, after, e, hscript, hgood, -, hlast⟩ := hends
  rw [← ofScript_append_empty, hscript, ofScript_append hgood, ofScript, hlast, Nat.zero_add]

end Outlook

namespace Reader

section
variable {r r' : Reader} {c c' : Codec} {lines : Nat} {text : Text} {result : Except Failure Text}
  {reply : Reply Reader Char}

theorem outlook_of_more (ho : r.read.outcome c = .more text c') :
    Outlook.ofScript c lines r.reads r.script = .ofScript c' (lines + 1) (r.reads + 1) r.script.tail := by
  rw [script_of_more ho, Outlook.ofScript, ho]
  rfl

theorem outlook_of_last (ho : r.read.outcome c = .last result) :
    Outlook.ofScript c lines r.reads r.script = ⟨lines, r.reads + 1⟩ := by
  rcases r.script_cases with hscript | ⟨hscript, -⟩
  · rw [hscript, Outlook.ofScript, ho]
  · rw [hscript, Outlook.ofScript]

def outlook (r : Reader) : Outlook :=
  match r.stage with
  | .ended => ⟨0, r.reads⟩
  | .draining lines _ => ⟨lines, r.reads⟩
  | .reading c lines _ => .ofScript c lines r.reads r.script
  | .unopened =>
    match r.codecs.find r.encoding r.errors with
    | .ok c => .ofScript c 0 r.reads r.script
    | .error _ => ⟨0, r.reads⟩

theorem reads_le_outlook (r : Reader) : r.reads ≤ r.outlook.reads := by
  unfold outlook
  split
  · exact Nat.le_refl _
  · exact Nat.le_refl _
  · exact (Outlook.lt_reads_ofScript r.script).le
  · split
    · exact (Outlook.lt_reads_ofScript r.script).le
    · exact Nat.le_refl _

/-! ### One pull -/

/-- A turn keeps the outlook. -/
theorem Turn.outlook (h : Turn r r') : r'.name = r.name ∧ r'.stage ≠ .ended ∧ r'.outlook = r.outlook := by
  cases h with
  | finds hs hfind =>
    refine ⟨rfl, ReaderStage.noConfusion, ?_⟩
    simp only [Reader.outlook, hs, hfind]
  | reads hs ho =>
    refine ⟨rfl, ReaderStage.noConfusion, ?_⟩
    simp only [Reader.outlook, hs, readOn, outlook_of_more ho]
  | ends hs ho =>
    refine ⟨rfl, ReaderStage.noConfusion, ?_⟩
    simp only [Reader.outlook, hs, readOn, outlook_of_last ho]

/-- A reply keeps an outlook with a character, silently, or comes to it and reports why there is none. -/
def Foretells (name : String) (o : Outlook) (reply : Reply Reader Char) : Prop :=
  reply.next.name = name ∧
    match reply.pull with
    | .item _ => reply.log = [] ∧ reply.next.stage ≠ .ended ∧ reply.next.outlook = o
    | .stop stop => reply.log = stop.report name o.lines ∧ reply.next.reads = o.reads

theorem Settles.foretells (h : Settles r reply) (hr : r.stage ≠ .ended) : Foretells r.name r.outlook reply := by
  cases h with
  | serves hs | drains hs =>
    refine ⟨rfl, rfl, ReaderStage.noConfusion, ?_⟩
    simp only [Reader.outlook, hs]
  | finishes hs =>
    simp only [Reader.outlook, hs]
    exact ⟨rfl, rfl, rfl⟩
  | fails hs ho =>
    simp only [Reader.outlook, hs, outlook_of_last ho]
    exact ⟨rfl, rfl, rfl⟩
  | refuses hs hfind =>
    simp only [Reader.outlook, hs, hfind]
    exact ⟨rfl, rfl, rfl⟩
  | rests hs => exact absurd hs hr

theorem foretells_next (hr : r.stage ≠ .ended) : Foretells r.name r.outlook r.next := by
  have hreplies := r.replies_next
  generalize r.next = reply at hreplies
  induction hreplies with
  | settles h => exact h.foretells hr
  | turn h _ ih =>
    obtain ⟨hname, hstage, houtlook⟩ := h.outlook
    rw [← hname, ← houtlook]
    exact ih hstage

end

/-! ### Reads come off the script -/

/-- What a reader has still to read is its whole script without the reads that it has made. -/
def ReadsFrom (r : Reader) (all : List Read) : Prop :=
  r.script = all.drop r.reads

variable {all : List Read}

theorem ReadsFrom.readOn {r : Reader} (h : r.ReadsFrom all) (stage : ReaderStage) : (r.readOn stage).ReadsFrom all := by
  show r.script.tail = all.drop (r.reads + 1)
  rw [h, List.tail_drop]

theorem Turn.readsFrom {r r' : Reader} (ht : Turn r r') (h : r.ReadsFrom all) : r'.ReadsFrom all := by
  cases ht with
  | finds => exact h
  | reads | ends => exact h.readOn _

theorem Settles.readsFrom {r : Reader} {reply : Reply Reader Char} (hs : Settles r reply) (h : r.ReadsFrom all) :
    reply.next.ReadsFrom all := by
  cases hs with
  | serves | drains | finishes | refuses | rests => exact h
  | fails => exact h.readOn _

theorem ReadsFrom.next {r : Reader} (h : r.ReadsFrom all) : r.next.next.ReadsFrom all := by
  have hreplies := r.replies_next
  generalize r.next = reply at hreplies
  induction hreplies with
  | settles hs => exact hs.readsFrom h
  | turn ht _ ih => exact ih (ht.readsFrom h)

theorem ReadsFrom.stateAfter {r : Reader} (h : r.ReadsFrom all) (count : Nat) :
    ∃ r' : Reader, Lexeme.stateAfter Feed.next count (.reader r) = .reader r' ∧ r'.ReadsFrom all := by
  induction count generalizing r with
  | zero => exact ⟨r, rfl, h⟩
  | succ count ih =>
    rw [stateAfter_succ]
    exact ih h.next

end Reader

/-! ### Runs of pulls -/

namespace Feed

variable {f g : Feed} {shown : List (Pull Char)}

theorem shows_pulls (count : Nat) (f : Feed) :
    f.Shows ((pullWith next count f).map (·.pull)) (stateAfter next count f) := by
  induction count generalizing f with
  | zero => exact .refl f
  | succ count ih =>
    rw [stateAfter_succ]
    exact shows_cons.mpr ⟨rfl, ih f.next.next⟩

theorem IsOver.logAfter (h : f.IsOver) (count : Nat) : logAfter next count f = [] := by
  induction count with
  | zero => rfl
  | succ count ih =>
    rw [logAfter_succ, h]
    exact ih

theorem IsOver.finished_of_shows (h : f.IsOver) (hshows : f.Shows shown g) {stop : Stop}
    (hstop : firstStop? shown = some stop) : stop = .finished := by
  cases shown with
  | nil => cases hstop
  | cons p shown =>
    obtain ⟨rfl, -⟩ := shows_cons.mp hshows
    rw [h] at hstop
    cases hstop
    rfl

theorem Serves.logAfter {t : Text} (h : Serves f t g) : logAfter next t.length f = [] := by
  induction h with
  | nil f => rfl
  | cons hpull _ ih =>
    rw [List.length_cons, logAfter_succ, log_of_item hpull]
    exact ih

/-- Streams report read errors, feeds do not. -/
theorem surfaced_notMem_log (error : ReadError) (f : Feed) : .surfaced error ∉ f.next.log := by
  cases f with
  | memory rest => cases rest <;> exact List.not_mem_nil
  | reader r =>
    by_cases hr : r.stage = .ended
    · rw [isOver_of_ended hr]
      exact List.not_mem_nil
    · obtain ⟨-, hreply⟩ := Reader.foretells_next hr
      change _ ∉ r.next.log
      cases hpull : r.next.pull with
      | item c =>
        rw [hpull] at hreply
        rw [hreply.1]
        exact List.not_mem_nil
      | stop stop =>
        rw [hpull] at hreply
        rw [hreply.1]
        cases stop <;> simp [Stop.report]

theorem surfaced_notMem_logAfter (error : ReadError) (count : Nat) (f : Feed) :
    .surfaced error ∉ logAfter next count f := by
  induction count generalizing f with
  | zero => exact List.not_mem_nil
  | succ count ih =>
    rw [logAfter_succ]
    exact List.not_mem_append (surfaced_notMem_log error f) (ih f.next.next)

end Feed

/-- What pulls that lead from a reader to a feed come to: nothing is reported and the reader is still on its way, or
    its reason for stopping has been reported and all its reads are made. -/
def Reader.Runs (r : Reader) (shown : List (Pull Char)) (log : List LogEvent) (r' : Reader) : Prop :=
  match firstStop? shown with
  | none => log = [] ∧ r'.name = r.name ∧ r'.stage ≠ .ended ∧ r'.outlook = r.outlook
  | some stop => log = stop.report r.name r.outlook.lines ∧ r'.reads = r.outlook.reads

theorem Reader.runs_of_shows {r : Reader} (hr : r.stage ≠ .ended) {shown : List (Pull Char)} {f : Feed}
    (h : (Feed.reader r).Shows shown f) :
    ∃ r', f = .reader r' ∧ r.Runs shown (logAfter Feed.next shown.length (.reader r)) r' := by
  induction shown generalizing r with
  | nil => exact ⟨r, h.2.symm, rfl, rfl, hr, rfl⟩
  | cons p shown ih =>
    obtain ⟨hfirst, hrest⟩ := Feed.shows_cons.mp h
    obtain ⟨hname, hreply⟩ := foretells_next hr
    have hpull : r.next.pull = p := by
      rw [← hfirst, Feed.next, Reply.map]
      cases r.next.pull <;> rfl
    rw [hpull] at hreply
    rw [List.length_cons, logAfter_succ]
    cases p with
    | item c =>
      obtain ⟨hlog, hstage, houtlook⟩ := hreply
      obtain ⟨r', hf, hruns⟩ := ih hstage hrest
      refine ⟨r', hf, ?_⟩
      have hsilent : (Feed.reader r).next.log = [] := hlog
      rw [Runs, hname, houtlook] at hruns
      rw [hsilent]
      exact hruns
    | stop stop =>
      obtain ⟨hlog, hreads⟩ := hreply
      have hover : (Feed.reader r).next.next.IsOver := Feed.isOver_of_stop hfirst
      refine ⟨r.next.next, ?_, ?_, hreads⟩
      · rw [← hrest.2, hover.stateAfter]
        rfl
      · rw [hover.logAfter, List.append_nil]
        exact hlog

/-! ### Streams -/

namespace TokenStream

variable {s : TokenStream}

theorem log_halt (s : TokenStream) (stop : Stop) (log : List LogEvent) (chars : CharStream) :
    (s.halt stop log chars).log = log ++ stop.surfacing := by
  cases stop with
  | finished => cases hheld : s.held <;> simp [halt, hheld, Stop.surfacing]
  | failed error =>
    cases hheld : s.held <;> cases hflush : s.flushOnError <;> simp [halt, hheld, hflush, Stop.surfacing]
  | interrupted failure => simp [halt, Stop.surfacing]

/-- The characters stop at most once in a pull, and last. -/
theorem firstStop?_drawn (s : TokenStream) {stop : Stop} :
    firstStop? s.drawn = some stop ↔ .stop stop ∈ s.drawn := by
  refine ⟨stop_mem_of_firstStop?, fun hmem => ?_⟩
  rcases drawn_cases s with ⟨hdrawn, -⟩ | hdraws
  · rw [hdrawn] at hmem
    cases hmem
  · generalize s.drawn = shown at hdraws hmem
    generalize s.next = r at hdraws
    cases hdraws with
    | release hserves hmeet => simp at hmem
    | halt hserves hstop hmeet =>
      obtain rfl : stop = _ := by simpa using hmem
      rw [firstStop?_append, firstStop?_items]
      rfl

/-- A pull reports what its characters report, and the read error that they stop with. -/
theorem log_next (s : TokenStream) :
    s.next.log = logAfter Feed.next s.drawn.length s.chars.feed ++ (firstStop? s.drawn).elim [] Stop.surfacing := by
  rcases drawn_cases s with ⟨hdrawn, -, hlog⟩ | hdraws
  · rw [hdrawn, hlog]
    rfl
  · generalize s.drawn = shown at hdraws
    generalize s.next = r at hdraws
    cases hdraws with
    | release hserves hmeet =>
      rw [firstStop?_items, List.length_map, hserves.logAfter]
      rfl
    | @halt t f held stop hserves hstop hmeet =>
      obtain ⟨-, hstate⟩ := hserves.shows
      rw [List.length_map] at hstate
      rw [log_halt, firstStop?_append, firstStop?_items, List.length_append, List.length_map, logAfter_add,
        hserves.logAfter, hstate]
      simp [firstStop?, Pull.stop?, logAfter, pullWith]

theorem logAfter_eq (count : Nat) (s : TokenStream) :
    logAfter next count s = logAfter Feed.next (drawnAfter count s).length s.chars.feed ++
      (firstStop? (drawnAfter count s)).elim [] Stop.surfacing := by
  -- Each pull is added at the end, where the characters may be over.
  induction count with
  | zero => rfl
  | succ count ih =>
    obtain ⟨-, hfeed⟩ := shows_drawnAfter count s
    have hone : logAfter next 1 (stateAfter next count s) = (stateAfter next count s).next.log := List.append_nil _
    rw [logAfter_add, ih, hone, log_next, drawnAfter_add, drawnAfter_one, List.length_append, logAfter_add, hfeed,
      firstStop?_append]
    cases hstop : firstStop? (drawnAfter count s) with
    | none => simp
    | some stop =>
      have hover := (shows_drawnAfter count s).isOver (stop_mem_of_firstStop? hstop)
      have hnone : (firstStop? (stateAfter next count s).drawn).elim [] Stop.surfacing = [] := by
        cases hmore : firstStop? (stateAfter next count s).drawn with
        | none => rfl
        | some more =>
          rw [hover.finished_of_shows (shows_drawn _) hmore]
          rfl
      simp [hover.logAfter, hnone]

/-- A pull reports a read error exactly when its characters stop with it. -/
theorem surfaced_mem_log (s : TokenStream) (error : ReadError) :
    .surfaced error ∈ s.next.log ↔ .stop (.failed error) ∈ s.drawn := by
  rw [log_next, List.mem_append, or_iff_right (Feed.surfaced_notMem_logAfter error _ _), ← firstStop?_drawn]
  cases firstStop? s.drawn with
  | none => simp
  | some stop => cases stop <;> simp [Stop.surfacing, eq_comm]

end TokenStream

/-! ### Readers that had not begun -/

/-- A feed over a script whose last read comes after some good ones: it has made reads up to that one at most, and
    has made it if the characters have stopped. -/
def Feed.HasRead (script : List Read) (good : Nat) (shown : List (Pull Char)) (f : Feed) : Prop :=
  ∃ r : Reader, f = .reader r ∧ r.ReadsFrom script ∧ r.reads ≤ good + 1 ∧ (firstStop? shown ≠ none → r.reads = good + 1)

namespace Reader

variable {r : Reader} {shown : List (Pull Char)} {f : Feed}

section
variable {c : Codec} {good : List Read} {t : Text} {result : Except Failure Text}

/-- The characters are what the good reads are decoded to, and what the last one gives up, unless it fails. -/
theorem delivers_of_ends (hr : r.stage = .unopened) (hfind : r.codecs.find r.encoding r.errors = .ok c)
    (hends : Read.Ends c r.script good t result) :
    (∀ flushed, result = .ok flushed → (Feed.reader r).Delivers (t ++ flushed) .finished) ∧
      ∀ failure, result = .error failure → (Feed.reader r).Delivers t (.ofFailure r.name failure) := by
  obtain ⟨last, after, e, hscript, hgood, -, hlast⟩ := hends
  have hdelivery : (Feed.reader r).delivery = (Delivery.ofResult r.name result).after t :=
    delivery_of_last hr hfind hscript hgood hlast
  constructor
  · rintro flushed rfl
    exact Feed.delivers_iff.mpr hdelivery
  · rintro failure rfl
    exact Feed.delivers_iff.mpr (hdelivery.trans (congrArg (Delivery.mk · _) (List.append_nil t)))

theorem outlook_of_ends (hr : r.stage = .unopened) (hreads : r.reads = 0)
    (hfind : r.codecs.find r.encoding r.errors = .ok c) (hends : Read.Ends c r.script good t result) :
    r.outlook = ⟨good.length, good.length + 1⟩ := by
  simp only [Reader.outlook, hr, hfind, hreads]
  exact Outlook.ofScript_of_ends hends

end

/-- What pulls come to that go to a reader, by the good reads that it will have made. -/
theorem account_of_shows (hr : r.stage ≠ .ended) {script : List Read} (hreads : r.ReadsFrom script) {good : Nat}
    (houtlook : r.outlook = ⟨good, good + 1⟩) (h : (Feed.reader r).Shows shown f) :
    f.HasRead script good shown ∧
      logAfter Feed.next shown.length (.reader r) = (firstStop? shown).elim [] (·.report r.name good) := by
  obtain ⟨r', rfl, hruns⟩ := runs_of_shows hr h
  obtain ⟨after, hafter, hscript⟩ := hreads.stateAfter shown.length
  obtain rfl : after = r' := by
    rw [h.2] at hafter
    cases hafter
    rfl
  have hle := after.reads_le_outlook
  rw [Runs, houtlook] at hruns
  cases hstop : firstStop? shown with
  | none =>
    rw [hstop] at hruns
    obtain ⟨hlog, -, -, hkept⟩ := hruns
    rw [hkept] at hle
    exact ⟨⟨after, rfl, hscript, hle, fun hne => absurd hstop hne⟩, hlog⟩
  | some stop =>
    rw [hstop] at hruns
    obtain ⟨hlog, hmade⟩ := hruns
    exact ⟨⟨after, rfl, hscript, hmade.le, fun _ => hmade⟩, hlog⟩

/-- A reader that finds no codec reads nothing and reports nothing. -/
theorem silent_of_shows {failure : Failure} (hr : r.stage = .unopened)
    (hfind : r.codecs.find r.encoding r.errors = .error failure) (h : (Feed.reader r).Shows shown f) :
    f.reads? = some r.reads ∧ logAfter Feed.next shown.length (.reader r) = [] ∧
      ∀ stop, firstStop? shown = some stop → stop = .interrupted failure := by
  cases shown with
  | nil =>
    obtain ⟨-, rfl⟩ := h
    exact ⟨rfl, rfl, fun stop hstop => by cases hstop⟩
  | cons p shown =>
    have hnext : (Feed.reader r).next = ⟨.stop (.interrupted failure), [], .reader { r with stage := .ended }⟩ := by
      simp [Feed.next, next, hr, hfind, Reply.map, Pull.map]
    have hover : (Feed.reader { r with stage := .ended }).IsOver := Feed.isOver_of_ended rfl
    obtain ⟨rfl, -, hstate⟩ := Feed.shows_cons.mp h
    rw [hnext, hover.stateAfter] at hstate
    rw [List.length_cons, logAfter_succ, hnext, hover.logAfter, ← hstate]
    exact ⟨rfl, rfl, fun stop hstop => (Option.some.inj hstop).symm⟩

end Reader

namespace TokenStream

/-- Over a reader, with any codecs that give no lone surrogates, the iterator and the stream make the reads of the
    script up to the last one, however often they are pulled, and that one at the latest when the characters stop. The
    number of good reads is reported once, with the end or the failure that the characters stop with, and a read error
    by the pull of the stream that meets it; each in its own words. -/
theorem reports_ofReader {codecs : Codecs} {name : String} {input : ReaderInput} {encoding errors : Option String}
    {making opening : Config} {s : TokenStream} {rest : Source} {event : LogEvent}
    (h : ofSource (Source.ofReader codecs name input encoding errors making) opening = .ok (s, rest, event)) :
    let feed := s.chars.feed
    let found := codecs.find (Source.nameOr encoding making.encoding) (Source.nameOr errors making.decodeErrors)
    (∀ failure, found = .error failure → ∀ count,
      ((stateAfter Feed.next count feed).reads? = some 0 ∧ logAfter Feed.next count feed = []) ∧
        (stateAfter next count s).chars.feed.reads? = some 0 ∧ logAfter next count s = []) ∧
    (∀ c, found = .ok c →
      ∃ good t result, Read.Ends c input.reads good t result ∧
        (∀ flushed, result = .ok flushed → feed.Delivers (t ++ flushed) .finished) ∧
        (∀ failure, result = .error failure → feed.Delivers t (.ofFailure name failure)) ∧
        (∀ count,
          let shown := (pullWith Feed.next count feed).map (·.pull)
          (stateAfter Feed.next count feed).HasRead input.reads good.length shown ∧
            logAfter Feed.next count feed = (firstStop? shown).elim [] (·.report name good.length)) ∧
        ∀ count,
          let shown := drawnAfter count s
          let after := (stateAfter next count s).chars.feed
          feed.Shows shown after ∧ after.HasRead input.reads good.length shown ∧
            logAfter next count s =
              (firstStop? shown).elim [] fun stop => stop.report name good.length ++ stop.surfacing) ∧
    (∀ count error, .surfaced error ∈ (stateAfter next count s).next.log ↔
      .stop (.failed error) ∈ (stateAfter next count s).drawn) ∧
    (∀ lines, (LogEvent.exhausted name lines).message = "Source " ++ name ++ s!" exhausted after {lines} lines" ∧
      (LogEvent.readFailed name lines).message = "Read failed in " ++ name ++ s!" after {lines} lines") ∧
    ∀ error : ReadError, (LogEvent.surfaced error).message =
      "Read error surfaced from " ++ error.source ++ ": " ++ error.cause.message := by
  intro feed found
  let r := Source.reader codecs name input encoding errors making
  have hfeed : feed = .reader r := Source.feed_of_opened h
  have hchars : ∀ count, (Feed.reader r).Shows ((pullWith Feed.next count feed).map (·.pull))
      (stateAfter Feed.next count feed) := fun count => hfeed ▸ Feed.shows_pulls count feed
  have htokens : ∀ count, (Feed.reader r).Shows (drawnAfter count s) (stateAfter next count s).chars.feed :=
    fun count => hfeed ▸ shows_drawnAfter count s
  have hcount : ∀ count, ((pullWith Feed.next count feed).map (·.pull)).length = count := fun count => by
    rw [List.length_map, length_pullWith]
  have hlogs : ∀ count, logAfter next count s = logAfter Feed.next (drawnAfter count s).length (.reader r) ++
      (firstStop? (drawnAfter count s)).elim [] Stop.surfacing := fun count => hfeed ▸ logAfter_eq count s
  refine ⟨fun failure hfind count => ?_, fun c hfind => ?_, fun count => surfaced_mem_log _,
    fun lines => ⟨rfl, rfl⟩, fun error => rfl⟩
  · obtain ⟨hreads, hlog, -⟩ := Reader.silent_of_shows (r := r) rfl hfind (hchars count)
    obtain ⟨hreads', hlog', hstop⟩ := Reader.silent_of_shows (r := r) rfl hfind (htokens count)
    rw [hcount] at hlog
    refine ⟨⟨hreads, hfeed ▸ hlog⟩, hreads', ?_⟩
    rw [hlogs, hlog']
    cases hfirst : firstStop? (drawnAfter count s) with
    | none => rfl
    | some stop =>
      rw [hstop stop hfirst]
      rfl
  · obtain ⟨good, t, result, hends⟩ := Read.exists_ends c input.reads
    have hcodec : r.codecs.find r.encoding r.errors = .ok c := hfind
    obtain ⟨hwhole, hcut⟩ := Reader.delivers_of_ends (r := r) rfl hcodec hends
    have haccount : ∀ {shown f}, (Feed.reader r).Shows shown f → _ := fun hshows =>
      Reader.account_of_shows (r := r) ReaderStage.noConfusion rfl (Reader.outlook_of_ends rfl rfl hcodec hends) hshows
    refine ⟨good, t, result, hends, hfeed ▸ hwhole, hfeed ▸ hcut, ?_, ?_⟩
    · intro count shown
      obtain ⟨hread, hlog⟩ := haccount (hchars count)
      rw [hcount] at hlog
      exact ⟨hread, hfeed ▸ hlog⟩
    · intro count shown after
      obtain ⟨hread, hlog⟩ := haccount (htokens count)
      refine ⟨shows_drawnAfter count s, hread, ?_⟩
      rw [hlogs, hlog]
      cases firstStop? shown <;> rfl

/-- Input that ends in the middle of a character: the empty read fails, and what comes after it is not read. The
    stream tells so with the word before it. -/
theorem reports_of_cut_character :
    let input := ReaderInput.script [.octets [0x61], .octets [0xc3], .octets [], .octets [0x62]]
    let error : ReadError := ⟨"notes", .undecodable .utf8 .unexpectedEnd [0xc3] 0⟩
    ∃ s rest event, ofSource (Source.ofReader .standard "notes" input none none {}) {} = .ok (s, rest, event) ∧
      (stateAfter Feed.next 5 s.chars.feed).reads? = some 3 ∧
      logAfter Feed.next 5 s.chars.feed = [.readFailed "notes" 2] ∧
      logAfter next 1 s = [.readFailed "notes" 2, .surfaced error] := by
  intro input error
  let feed := Feed.reader (Source.reader .standard "notes" input none none {})
  let s : TokenStream := { chars := ⟨Origin.start ⟨"notes", none⟩, feed⟩, flushOnError := true }
  have hopened : ofSource (Source.ofReader .standard "notes" input none none {}) {} = .ok (s, _, _) := rfl
  have hutf8 : Encoding.find (Source.nameOr none ({} : Config).encoding) = .ok (.fixed .utf8) := by decide
  have hfind := Codecs.find_standard hutf8 (Source.nameOr none ({} : Config).decodeErrors)
  obtain ⟨-, hreads, -⟩ := reports_ofReader hopened
  obtain ⟨good, t, result, -, -, -, hchars, htokens⟩ := hreads _ hfind
  have hmade : (stateAfter Feed.next 5 feed).reads? = some 3 := by decide
  have hshown : firstStop? ((pullWith Feed.next 5 feed).map (·.pull)) = some (.failed error) := by decide
  obtain ⟨⟨r, hr, -, -, hall⟩, hlog⟩ := hchars 5
  have hgood : good.length = 2 := by
    have hreads? : (stateAfter Feed.next 5 feed).reads? = some r.reads := congrArg Feed.reads? hr
    have hthree : r.reads = 3 := Option.some.inj (hreads?.symm.trans hmade)
    have hlast : r.reads = good.length + 1 := hall (by rw [hshown]; exact Option.some_ne_none _)
    omega
  refine ⟨s, _, _, rfl, hmade, ?_, ?_⟩
  · rw [hlog, hshown, hgood]
    rfl
  · have hfirst : feed.next.pull = .item 'a' := by decide
    have hsecond : feed.next.next.next.pull = .stop (.failed error) := by decide
    have hone := CharStream.next_of_item (s := s.chars) hfirst
    have htwo := CharStream.next_of_stop (s := s.chars.next.next) (by rw [hone]; exact hsecond)
    have hword : Held.meet s.held 'a' s.chars.place = (some (Held.beginWord 'a' s.chars.place), none) :=
      Held.meet_word_none (by decide)
    have hdrawn : drawnAfter 1 s = [.item 'a', .stop (.failed error)] := by
      rw [drawnAfter_one, drawn_of_live ⟨rfl, rfl, by simp [s]⟩, draw_of_hold (by rw [hone]) hword,
        draw_of_stop (by rw [htwo])]
    rw [(htokens 1).2.2, hdrawn, hgood]
    rfl

end TokenStream

end Lexeme
