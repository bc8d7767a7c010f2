import CommandScript.Proofs.Argument.Check
import CommandScript.Proofs.Token.Reader

/-!
Arguments stay in step with the tokens of a line.

An argument that is read from a word on passes at least that word, whether it finds
errors or not, and leaves its reader in front of spaces or at the end of the line
(`Argument.Reads`). All that it reports is about the text between the two positions of
the reader. At the end of a line no argument can be read, and each of them says so.
-/

namespace CommandScript

namespace Argument

open TokenReader

/-- What an argument does that is read at a word or at the end of a line. -/
structure Reads (r : TokenReader) (outcome : Reported TokenReader) : Prop where
  ahead : outcome.value.Ahead r
  separated : outcome.value.AtSeparator
  fits : outcome.report.Fits (r.textTo outcome.value)
  advances : r.atEnd = false → r.index < outcome.value.index
  refuses : r.atEnd = true → outcome.report.success = false

variable {r : TokenReader}

/-- On the line, the report stands between the two positions of the reader. -/
theorem Reads.fitsBetween {outcome : Reported TokenReader} (reads : Reads r outcome)
    (valid : r.Valid) :
    outcome.report.FitsBetween (Slice.ofLine r.line) r.offset outcome.value.offset := by
  have between := reads.fits.between_ends (valid.textTo_within outcome.value)
  rwa [textTo_start, reads.ahead.textTo_stop valid] at between

/-! ## Single words -/

/-- What is left of a line is what the reader passes on its way to the end. -/
theorem remaining_within_textTo {after : TokenReader} (valid : r.Valid) (ahead : after.Ahead r)
    (ends : after.atEnd = true) : r.remaining.Within (r.textTo after) := by
  apply ahead.within_textTo valid valid.remaining_suffixOf.within
  · exact Nat.le_of_eq r.remaining_start.symm
  · rw [valid.remaining_stop, offset_of_atEnd ends, ahead.line]

/-- At the end of a line nothing is read. -/
theorem reads_atEnd (valid : r.Valid) (ends : r.atEnd = true) (missing : String) :
    Reads r (do Reported.error r.remaining.span missing; return r) where
  ahead := valid.ahead_self
  separated := atSeparator_of_atEnd ends
  fits := (Report.fits_error (remaining_within_textTo valid valid.ahead_self ends).covers
    missing).append_remarks (Report.fits_empty _) rfl
  advances unread := by rw [ends] at unread; cases unread
  refuses _ := rfl

/-- One word is read, and what is said of it fits the word. -/
theorem reads_word {word : Slice} {report : Report} (valid : r.Valid)
    (found : r.current? = some ⟨word, false⟩) (fits : report.Fits word) :
    Reads r ⟨r.advance, report⟩ where
  ahead := valid.advance_ahead
  separated := valid.advance_atSeparator found rfl
  fits := fits.mono (valid.current_within_textTo found)
  advances unread := by
    rw [advance_eq unread]
    exact Nat.lt_succ_self _
  refuses ends := by
    rw [atEnd_eq_false found] at ends
    cases ends

theorem readWord_reads {check : Slice → Reported Unit} (missing : String) (valid : r.Valid)
    (atWord : r.AtWord) (checked : ∀ word, (check word).report.Fits word) :
    Reads r (readWord missing check r) := by
  unfold readWord
  split
  · rename_i word found
    have fits := (checked word).append_remarks (Report.fits_empty word) rfl
    exact reads_word valid (currentWord?_eq_some found) fits
  · rename_i none
    exact reads_atEnd valid (current?_eq_none_iff.1 (atWord.current?_eq_none none)) missing

/-! ## The rest of a line -/

theorem readRest_reads (missing : String) (valid : r.Valid) : Reads r (readRest missing r) := by
  unfold readRest
  split
  · rename_i ends
    exact reads_atEnd valid ends missing
  · rename_i unread
    have unread : r.atEnd = false := by simpa using unread
    have rest := remaining_within_textTo valid valid.consumeAll_ahead r.consumeAll_atEnd
    refine ⟨valid.consumeAll_ahead, atSeparator_of_atEnd r.consumeAll_atEnd, ?_, ?_, ?_⟩
    · exact (Report.fits_token rest.covers .string).append_remarks (Report.fits_empty _) rfl
    · intro _
      have bound : ¬r.tokens.length ≤ r.index := by simpa [atEnd] using unread
      exact Nat.lt_of_not_le bound
    · intro ends
      rw [unread] at ends
      cases ends

/-! ## Separators -/

theorem checkSeparator_tokens (token : Token) : (checkSeparator token).report.tokens = [] :=
  Reported.errorIf_tokens ..

theorem checkSeparator_fits (token : Token) : (checkSeparator token).report.Fits token.slice :=
  Reported.fits_errorIf _ (Slice.covers_self token.slice) _

/-- What `skipSeparator` does behind a word: the line ends there, or spaces are passed
and a word or the end of the line follows. -/
inductive Separates (r : TokenReader) : Reported (Bool × TokenReader) → Prop where
  | ended {report : Report} (ends : r.atEnd = true) (silent : report = ∅) :
    Separates r ⟨(false, r), report⟩
  | passed {report : Report} (atWord : r.advance.AtWord)
    (fits : report.Fits (r.textTo r.advance)) (silent : report.tokens = []) :
    Separates r ⟨(true, r.advance), report⟩

theorem skipSeparator_separates (valid : r.Valid) (separated : r.AtSeparator) :
    Separates r (skipSeparator r) := by
  unfold skipSeparator
  split
  · rename_i token found
    have space := separated token found
    have fits := (checkSeparator_fits token).mono (valid.current_within_textTo found)
    have silent := checkSeparator_tokens token
    rw [if_pos space]
    refine .passed (valid.advance_atWord found space)
      (fits.append_remarks (Report.fits_empty _) rfl) ?_
    rw [Report.append_tokens, silent]
    rfl
  · rename_i none
    exact .ended (current?_eq_none_iff.1 none) rfl

/-! ## Vectors -/

namespace VectorSpec

theorem component_pieces (spec : VectorSpec) (word : Slice) :
    (spec.component word).number.Within word ∧ (spec.component word).number.stop = word.stop ∧
      ∀ mark ∈ (spec.component word).mark,
        mark.Within word ∧ mark.stop ≤ (spec.component word).number.start := by
  unfold component
  split
  · refine ⟨Slice.drop_within .., (Slice.drop_suffixOf 1 word).stop_eq, ?_⟩
    rintro mark ⟨⟩
    exact ⟨Slice.take_within .., Nat.le_refl _⟩
  · exact ⟨.refl word, rfl, nofun⟩

theorem checkNumber_laid (spec : VectorSpec) {c : Component} {s : Slice}
    (within : c.number.Within s) :
    (spec.checkNumber c).report.Laid s c.number.start c.number.stop := by
  unfold checkNumber
  split
  · exact Report.laid_empty s c.number.start_le_stop
  · exact (Reported.laid_errorIf _ within.covers _ (Nat.le_refl _)).append
      (Report.laid_token within.covers _ (Nat.le_refl _) (Nat.le_refl _))

/-- A component reports inside its word, the mark in front of the number. -/
theorem checkComponent_laid (spec : VectorSpec) {word s : Slice} (within : word.Within s) :
    (spec.checkComponent (spec.component word)).report.Laid s word.start word.stop := by
  obtain ⟨numberWithin, stop, marks⟩ := spec.component_pieces word
  have number := spec.checkNumber_laid (numberWithin.trans within)
  rw [stop] at number
  unfold checkComponent
  cases mark : (spec.component word).mark with
  | none => exact number.widen numberWithin.start_le (Nat.le_refl _)
  | some piece =>
    obtain ⟨pieceWithin, before⟩ := marks piece mark
    exact (Report.laid_token (pieceWithin.trans within).covers .posRel pieceWithin.start_le
      before).append number

theorem each_checkComponent_laid (spec : VectorSpec) {words : List Slice} {s : Slice}
    {start stop : Nat} (spread : Slice.Spread 0 start words stop)
    (within : ∀ word ∈ words, word.Within s) :
    (Reported.each spec.checkComponent (words.map spec.component)).report.Laid s start stop := by
  induction words generalizing start with
  | nil => exact Report.laid_empty s spread
  | cons word words ih =>
    rcases spread with ⟨begins, -, later⟩
    have first := spec.checkComponent_laid (within word (List.mem_cons_self ..))
    exact (first.widen begins (Nat.le_refl _)).append
      (ih later fun next mem => within next (List.mem_cons_of_mem _ mem))

theorem checkWords_fits (spec : VectorSpec) {first : Slice} {others : List Slice} {s : Slice}
    {start stop : Nat} (spread : Slice.Spread 0 start (first :: others) stop)
    (within : ∀ word ∈ first :: others, word.Within s) :
    (spec.checkWords first others).report.FitsBetween s start stop := by
  have components := (spec.each_checkComponent_laid spread within).fitsBetween
  have last : others.getLastD first ∈ first :: others := by
    rw [List.getLastD_eq_getLast?]
    cases found : others.getLast? with
    | none => exact List.mem_cons_self ..
    | some word => exact List.mem_cons_of_mem _ (List.mem_of_getLast? found)
  exact components.append_remarks (Reported.fits_errorIf _
    (Slice.covers_cover (within first (List.mem_cons_self ..)) (within _ last)) _)
      (Reported.errorIf_tokens ..)

/-- What reading more words of a vector comes to. -/
structure ReadsOthers (r : TokenReader) (outcome : Reported (Option (List Slice) × TokenReader)) :
    Prop where
  ahead : outcome.value.2.Ahead r
  separated : outcome.value.2.AtSeparator
  fits : outcome.report.Fits (r.textTo outcome.value.2)
  silent : outcome.report.tokens = []
  spread : ∀ words ∈ outcome.value.1, Slice.Spread 0 r.offset words outcome.value.2.offset
  within : ∀ words ∈ outcome.value.1, ∀ word ∈ words, word.Within (r.textTo outcome.value.2)
  ends : outcome.value.1 = none → outcome.value.2.atEnd = true

section ReadsOthers

variable {others : Option (List Slice)} {after : TokenReader} {report : Report}

theorem readsOthers_atEnd (valid : r.Valid) (ends : r.atEnd = true) :
    ReadsOthers r ⟨(none, r), ∅⟩ :=
  ⟨valid.ahead_self, atSeparator_of_atEnd ends, Report.fits_empty _, rfl, nofun, nofun,
    fun _ => ends⟩

/-- One more word in front. -/
theorem ReadsOthers.cons {first : Slice} (valid : r.Valid)
    (found : r.current? = some ⟨first, false⟩)
    (later : ReadsOthers r.advance ⟨(others, after), report⟩) :
    ReadsOthers r ⟨(others.map (first :: ·), after), report⟩ := by
  have moved := valid.advance_ahead
  have behind := later.ahead.textTo_behind moved valid
  have inner := (valid.current_within_textTo found).trans
    (later.ahead.textTo_infront moved valid)
  have stop := valid.current_stop found
  refine ⟨later.ahead.trans moved, later.separated, later.fits.mono behind, later.silent, ?_, ?_,
    fun short => later.ends (Option.map_eq_none_iff.1 short)⟩
  · intro words mem
    rcases Option.map_eq_some_iff.1 mem with ⟨tail, found', rfl⟩
    have spread := later.spread tail found'
    rw [← stop] at spread
    refine ⟨Nat.le_of_eq (valid.current_start found).symm, ?_, spread⟩
    rw [stop]
    exact later.ahead.offset_le (moved.valid valid)
  · intro words mem
    rcases Option.map_eq_some_iff.1 mem with ⟨tail, found', rfl⟩
    exact List.forall_mem_cons.2 ⟨inner, fun word mem =>
      (later.within tail found' word mem).trans behind⟩

/-- A separator in front. -/
theorem ReadsOthers.after_separator {separator : Report} (valid : r.Valid)
    (fits : separator.Fits (r.textTo r.advance)) (silent : separator.tokens = [])
    (later : ReadsOthers r.advance ⟨(others, after), report⟩) :
    ReadsOthers r ⟨(others, after), separator ++ report⟩ := by
  have moved := valid.advance_ahead
  have behind := later.ahead.textTo_behind moved valid
  refine ⟨later.ahead.trans moved, later.separated, ?_, ?_, fun words mem => ?_,
    fun words mem word memWord => (later.within words mem word memWord).trans behind, later.ends⟩
  · exact (fits.mono (later.ahead.textTo_infront moved valid)).remarks_append
      (later.fits.mono behind) silent
  · rw [Report.append_tokens, silent, later.silent]
    rfl
  · exact (later.spread words mem).of_le (moved.offset_le valid)

/-- Whatever is said of the words in the end, it comes after remarks on the spaces. -/
theorem ReadsOthers.reads {first : Slice} {said : Report} (valid : r.Valid)
    (found : r.current? = some ⟨first, false⟩)
    (read : ReadsOthers r.advance ⟨(others, after), report⟩)
    (fits : said.Fits (r.textTo after)) : Reads r ⟨after, report ++ (said ++ ∅)⟩ := by
  have unread := atEnd_eq_false found
  have moved := valid.advance_ahead
  have behind := read.ahead.textTo_behind moved valid
  refine ⟨read.ahead.trans moved, read.separated, ?_, read.ahead.index_lt, ?_⟩
  · exact (read.fits.mono behind).remarks_append (fits.append_remarks (Report.fits_empty _) rfl)
      read.silent
  · intro ends
    rw [unread] at ends
    cases ends

/-- All words of a vector, the first one included. -/
theorem ReadsOthers.words {first : Slice} {others : List Slice} (valid : r.Valid)
    (found : r.current? = some ⟨first, false⟩)
    (read : ReadsOthers r.advance ⟨(some others, after), report⟩) :
    Slice.Spread 0 r.offset (first :: others) after.offset ∧
      ∀ word ∈ first :: others, word.Within (r.textTo after) := by
  have whole := read.cons valid found
  exact ⟨whole.spread _ rfl, whole.within _ rfl⟩

end ReadsOthers

/-- The words of a vector follow one another, with spaces in between. -/
theorem readOthers_reads (n : Nat) (valid : r.Valid) (separated : r.AtSeparator) :
    ReadsOthers r (readOthers n r) := by
  induction n generalizing r with
  | zero =>
    refine ⟨valid.ahead_self, separated, Report.fits_empty _, rfl, ?_, ?_, nofun⟩
    · rintro words ⟨⟩
      exact Nat.le_refl _
    · rintro words ⟨⟩
      exact nofun
  | succ n ih =>
    have separator := skipSeparator_separates valid separated
    rw [readOthers]
    generalize skipSeparator r = outcome at separator ⊢
    cases separator with
    | ended ends silent =>
      subst silent
      simp only [Reported.bind_mk, currentWord?_of_atEnd ends]
      exact readsOthers_atEnd valid ends
    | passed atWord fits silent =>
      have moved := valid.advance_ahead.valid valid
      cases found : r.advance.currentWord? with
      | none =>
        have ends := current?_eq_none_iff.1 (atWord.current?_eq_none found)
        simp only [Reported.bind_mk, found]
        exact (readsOthers_atEnd moved ends).after_separator valid fits silent
      | some first =>
        have current := currentWord?_eq_some found
        have later := ih (moved.advance_ahead.valid moved) (moved.advance_atSeparator current rfl)
        simp only [Reported.bind_mk, found]
        generalize readOthers n r.advance.advance = outcome at later ⊢
        have whole := (later.cons moved current).after_separator valid fits silent
        rw [← Report.append_empty outcome.report] at whole
        exact whole

end VectorSpec

theorem readVector_reads (spec : VectorSpec) (valid : r.Valid) (atWord : r.AtWord) :
    Reads r (readVector spec r) := by
  unfold readVector
  cases found : r.currentWord? with
  | none => exact reads_atEnd valid (current?_eq_none_iff.1 (atWord.current?_eq_none found)) _
  | some first =>
    have current := currentWord?_eq_some found
    have moved := valid.advance_ahead
    have separated := valid.advance_atSeparator current rfl
    have read := VectorSpec.readOthers_reads (spec.dim - 1) (moved.valid valid) separated
    dsimp only
    generalize VectorSpec.readOthers (spec.dim - 1) r.advance = outcome at read ⊢
    rcases outcome with ⟨⟨others, after⟩, report⟩
    cases others with
    | some others =>
      obtain ⟨spread, within⟩ := read.words valid current
      exact read.reads valid current (spec.checkWords_fits spread within).toFits
    | none =>
      have ahead := read.ahead.trans moved
      obtain ⟨last, isLast, within, begins, stop⟩ :=
        ahead.previous valid (read.ahead.index_lt (atEnd_eq_false current))
      rw [← ahead.last?_eq_previous? (read.ends rfl)] at isLast
      have firstWithin := (valid.current_within_textTo current).trans
        (read.ahead.textTo_infront moved valid)
      have lastWithin := ahead.within_textTo valid within begins (Nat.le_of_eq stop)
      have order : first.start ≤ last.slice.stop := by
        rw [valid.current_start current]
        exact Nat.le_trans begins last.slice.start_le_stop
      apply read.reads valid current
      dsimp only
      rw [isLast]
      exact Report.fits_error (Slice.covers_of_ends firstWithin lastWithin order) _

/-! ## Particles -/

namespace Particle

theorem extra_reads (registries : Registries) (extra : Extra) (valid : r.Valid)
    (atWord : r.AtWord) : Reads r (extra.read registries r) := by
  cases extra with
  | block => exact readWord_reads _ valid atWord (BlockSpec.check_fits _ registries)
  | dust => exact readVector_reads _ valid atWord

/-- What follows a particle on whose word `r` stands: the reader is not moved back, all
reports are about the particle and what follows it, and no token stands on its word. -/
structure ReadsExtra (r : TokenReader) (outcome : Reported TokenReader) : Prop where
  ahead : outcome.value.Ahead r.advance
  separated : outcome.value.AtSeparator
  fits : outcome.report.FitsBetween (r.textTo outcome.value) r.advance.offset outcome.value.offset

/-- Remarks on the word alone may follow a particle. -/
theorem readsExtra_remark {word : Slice} {report : Report} (valid : r.Valid)
    (found : r.current? = some ⟨word, false⟩) (fits : report.Fits word)
    (silent : report.tokens = []) : ReadsExtra r ⟨r.advance, report⟩ where
  ahead := (valid.advance_ahead.valid valid).ahead_self
  separated := valid.advance_atSeparator found rfl
  fits := (fits.mono (valid.current_within_textTo found)).between_of_silent silent _ _

theorem readExtra_reads (registries : Registries) (id : String) {word : Slice} (valid : r.Valid)
    (found : r.current? = some ⟨word, false⟩) :
    ReadsExtra r (readExtra registries id word r.advance) := by
  have moved := valid.advance_ahead
  have separated := valid.advance_atSeparator found rfl
  unfold readExtra
  split
  · exact readsExtra_remark valid found (Report.fits_empty word) rfl
  · rename_i extra _
    have separator := skipSeparator_separates (moved.valid valid) separated
    generalize skipSeparator r.advance = outcome at separator ⊢
    cases separator with
    | ended ends silent =>
      subst silent
      have missing := Report.fits_error (Slice.covers_self word) (Fault.message .missingExtra)
      exact readsExtra_remark valid found (missing.append_remarks (Report.fits_empty word) rfl) rfl
    | @passed report afterSpace fits silent =>
      have placed := moved.valid valid
      have beyond := placed.advance_ahead
      have read := extra_reads registries extra (beyond.valid placed) afterSpace
      have separator := (fits.mono (read.ahead.textTo_infront beyond placed)).mono
        ((read.ahead.trans beyond).textTo_behind moved valid)
      have said := read.fits.between_ends (read.ahead.textTo_behind (beyond.trans moved) valid)
      rw [textTo_start, read.ahead.textTo_stop (beyond.valid placed)] at said
      exact ⟨read.ahead.trans beyond, read.separated,
        .remarks_append separator (said.widen (beyond.offset_le placed) (Nat.le_refl _)) silent⟩

/-- A particle and what follows it are read one after the other. -/
theorem ReadsExtra.after_word {word : Slice} {id : Report} {outcome : Reported TokenReader}
    (valid : r.Valid) (found : r.current? = some ⟨word, false⟩) (fits : id.Fits word)
    (extra : ReadsExtra r outcome) : Reads r ⟨outcome.value, id ++ outcome.report⟩ := by
  have unread := atEnd_eq_false found
  have moved := valid.advance_ahead
  have first := fits.between_ends ((valid.current_within_textTo found).trans
    (extra.ahead.textTo_infront moved valid))
  rw [valid.current_start found, valid.current_stop found] at first
  have whole := first.append extra.fits (moved.offset_le valid)
    (extra.ahead.offset_le (moved.valid valid))
  refine ⟨extra.ahead.trans moved, extra.separated, whole.toFits, extra.ahead.index_lt, ?_⟩
  intro ends
  rw [unread] at ends
  cases ends

theorem readAfter_reads (registries : Registries) {word : Slice} (valid : r.Valid)
    (found : r.current? = some ⟨word, false⟩) :
    Reads r (readAfter registries word r.advance) := by
  have id := (Resource.read_fits false .resource word).labelled (name ++ ": ")
  unfold readAfter
  generalize Resource.read false .resource word = outcome at id ⊢
  rcases outcome with ⟨value, report⟩
  cases value with
  | none =>
    exact (readsExtra_remark valid found (Report.fits_empty word) rfl).after_word valid found id
  | some resource =>
    apply ReadsExtra.after_word valid found id
    dsimp only [Reported.value_labelled]
    split
    · have unknown := Report.fits_warning (Slice.covers_self word) (Fault.message .unknown)
      exact readsExtra_remark valid found (unknown.append_remarks (Report.fits_empty word) rfl) rfl
    · exact readExtra_reads registries _ valid found

end Particle

theorem readParticle_reads (registries : Registries) (valid : r.Valid) (atWord : r.AtWord) :
    Reads r (readParticle registries r) := by
  unfold readParticle
  cases found : r.currentWord? with
  | none => exact reads_atEnd valid (current?_eq_none_iff.1 (atWord.current?_eq_none found)) _
  | some word => exact Particle.readAfter_reads registries valid (currentWord?_eq_some found)

/-! ## All arguments -/

/-- The value that was read does not matter to the report. -/
theorem fits_ignored {α : Type} {x : Reported α} {word : Slice} (fits : x.report.Fits word) :
    (do let _ ← x : Reported Unit).report.Fits word :=
  fits.append_remarks (Report.fits_empty word) rfl

/-- A word is highlighted or an error. -/
theorem fits_judged (condition : Prop) [Decidable condition] (word : Slice) (kind : Highlight)
    (message : String) : (if condition then Reported.token word.span kind
      else Reported.error word.span message).report.Fits word := by
  split
  · exact Report.fits_token (Slice.covers_self word) kind
  · exact Report.fits_error (Slice.covers_self word) message

/-- Every argument of the library stays in step with the tokens of a line. -/
theorem read_reads (argument : Argument) (registries : Registries) (valid : r.Valid)
    (atWord : r.AtWord) : Reads r (argument.read registries r) := by
  cases argument with
  | vector spec => exact readVector_reads spec valid atWord
  | resource allowTag =>
    exact readWord_reads _ valid atWord fun word =>
      (fits_ignored (Resource.read_fits ..)).labelled _
  | uuid => exact readWord_reads _ valid atWord fun word => fits_judged _ word _ _
  | duration min => exact readWord_reads _ valid atWord (Duration.check_fits min)
  | word kind => exact readWord_reads _ valid atWord kind.check_fits
  | criterion =>
    exact readWord_reads _ valid atWord fun word => Report.fits_token (Slice.covers_self word) _
  | operator =>
    exact readWord_reads _ valid atWord fun word =>
      (Report.fits_token (Slice.covers_self word) _).append_remarks
        (Reported.fits_errorIf _ (Slice.covers_self word) _) (Reported.errorIf_tokens ..)
  | block spec => exact readWord_reads _ valid atWord (spec.check_fits registries)
  | item allowTag => exact readWord_reads _ valid atWord (Item.check_fits allowTag)
  | particle => exact readParticle_reads registries valid atWord
  | compoundTag =>
    exact readWord_reads _ valid atWord fun word => (CompoundTag.readWhole_fits word).labelled _
  | message => exact readRest_reads _ valid
  | range form =>
    exact readWord_reads _ valid atWord fun word => fits_ignored (RangeSpec.read_fits ..)
  | target kind => exact readWord_reads _ valid atWord (Target.check_fits kind)
  | string kind =>
    cases kind with
    | word => exact readWord_reads _ valid atWord (StringKind.check_fits .word)
    | phrase => exact readWord_reads _ valid atWord (StringKind.check_fits .phrase)
    | greedy => exact readRest_reads _ valid
  | boolean => exact readWord_reads _ valid atWord fun word => fits_judged _ word _ _
  | number form min max =>
    exact readWord_reads _ valid atWord fun word =>
      (fits_ignored (NumberSpec.read_fits ..)).labelled _

end Argument

end CommandScript
