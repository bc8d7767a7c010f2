import CommandScript.Argument
import CommandScript.Proofs.Selector

/-!
Arguments of one word report inside the word.

What a check says of a word fits the word, for every check of an argument. A word is
highlighted as a whole and its errors are remarks, or it is taken apart into pieces
that stand behind one another.
-/

namespace CommandScript.Argument

/-! ## Numbers -/

namespace Duration

theorem checkLength_tokens (min : Int) (word digits unit : Slice) :
    (checkLength min word digits unit).report.tokens = [] := by
  unfold checkLength
  split
  · rfl
  · split
    · rfl
    · exact Reported.errorIf_tokens ..

theorem checkLength_fits (min : Int) {word digits unit : Slice} (digitsWithin : digits.Within word)
    (unitWithin : unit.Within word) : (checkLength min word digits unit).report.Fits word := by
  unfold checkLength
  split
  · exact Report.fits_error digitsWithin.covers _
  · split
    · exact Report.fits_error unitWithin.covers _
    · exact Reported.fits_errorIf _ (Slice.covers_self word) _

theorem check_fits (min : Int) (word : Slice) : (check min word).report.Fits word := by
  have digitsWithin := Slice.splitWhile_fst_within (fun c => Charset.isDigit c || c == '.') word
  have unitWithin := Slice.splitWhile_snd_within (fun c => Charset.isDigit c || c == '.') word
  have meets := Slice.splitWhile_stop (fun c => Charset.isDigit c || c == '.') word
  unfold check
  generalize word.splitWhile (fun c => Charset.isDigit c || c == '.') = parts
    at digitsWithin unitWithin meets ⊢
  rcases parts with ⟨digits, unit⟩
  have length := checkLength_fits min digitsWithin unitWithin
  have silent := checkLength_tokens min word digits unit
  have number := Report.fits_token (Slice.covers_self digits) .number
  dsimp only
  split
  · exact Report.fits_error (Slice.covers_self word) _
  · split
    · exact (number.mono digitsWithin).append_remarks length silent
    · have units := Report.fits_token (Slice.covers_self unit) .units
      have both := number.append_behind units digitsWithin unitWithin (Nat.le_of_eq meets)
      have whole := both.append_remarks length silent
      rw [Report.append_assoc] at whole
      exact whole

end Duration

/-! ## Words of a kind -/

theorem checkChars_tokens (fault? : Char → Option String) (s : Slice) :
    (checkChars fault? s).report.tokens = [] := by
  apply Reported.each_tokens
  rintro ⟨c, slice⟩ -
  dsimp only
  split <;> rfl

theorem checkChars_fits (fault? : Char → Option String) (s : Slice) :
    (checkChars fault? s).report.Fits s := by
  apply Reported.fits_each_of_silent
  · intro piece mem
    have within := Slice.mem_chars_within mem
    dsimp only
    split
    · exact Report.fits_error within.covers _
    · exact Report.fits_empty s
  · exact checkChars_tokens fault? s

namespace WordKind

theorem checkAxes_tokens (seen : List Char) (pieces : List (Char × Slice)) :
    (checkAxes seen pieces).report.tokens = [] := by
  induction pieces generalizing seen with
  | nil => rfl
  | cons piece pieces ih =>
    rcases piece with ⟨c, slice⟩
    rw [checkAxes]
    split
    · exact ih _
    · exact ih _

theorem checkAxes_fits {word : Slice} (seen : List Char) {pieces : List (Char × Slice)}
    (within : ∀ piece ∈ pieces, piece.2.Within word) :
    (checkAxes seen pieces).report.Fits word := by
  induction pieces generalizing seen with
  | nil => exact Report.fits_empty word
  | cons piece pieces ih =>
    rcases piece with ⟨c, slice⟩
    have later := ih (c :: seen) fun next mem => within next (List.mem_cons_of_mem _ mem)
    have here := within (c, slice) (List.mem_cons_self ..)
    rw [checkAxes]
    split
    · exact (Report.fits_error here.covers _).remarks_append later rfl
    · exact later

theorem checkValue_tokens (kind : WordKind) (word : Slice) :
    (kind.checkValue word).report.tokens = [] := by
  cases kind with
  | team => rfl
  | objective => rfl
  | scoreboardSlot => rfl
  | swizzle => exact checkAxes_tokens ..
  | itemSlot => exact Reported.errorIf_tokens ..
  | color => exact Reported.errorIf_tokens ..
  | entityAnchor => exact Reported.errorIf_tokens ..

theorem checkValue_fits (kind : WordKind) (word : Slice) :
    (kind.checkValue word).report.Fits word := by
  have self := Slice.covers_self word
  cases kind with
  | team => exact Report.fits_empty word
  | objective => exact Report.fits_empty word
  | scoreboardSlot => exact Report.fits_empty word
  | swizzle => exact checkAxes_fits [] fun _ => Slice.mem_chars_within
  | itemSlot => exact Reported.fits_errorIf _ self _
  | color => exact Reported.fits_errorIf _ self _
  | entityAnchor => exact Reported.fits_errorIf _ self _

theorem check_fits (kind : WordKind) (word : Slice) : (kind.check word).report.Fits word := by
  have token := Report.fits_token (Slice.covers_self word) kind.highlight
  have valued := (kind.checkValue_fits word).remarks_append token (kind.checkValue_tokens word)
  unfold check
  split
  · exact (checkChars_fits _ word).remarks_append valued (checkChars_tokens _ word)
  · exact valued

end WordKind

/-! ## Strings -/

namespace StringKind

theorem checkWord_fits (word : Slice) : (checkWord word).report.Fits word :=
  (Reported.fits_errorIf _ (Slice.covers_self word) _).remarks_append
    (Report.fits_token (Slice.covers_self word) _) (Reported.errorIf_tokens ..)

theorem checkQuoted_fits (word : Slice) : (checkQuoted word).report.Fits word := by
  have read := (Cursor.sound_ofSlice word).readQuoted_read
  unfold checkQuoted
  generalize (Cursor.ofSlice word).readQuoted = outcome at read ⊢
  cases read with
  | @closed quoted rest report within suffix meets silent =>
    subst silent
    have trailing := Reported.fits_errorIf (!rest.isEmpty) suffix.within.covers
      (Fault.message .trailing)
    exact trailing.remarks_append (Report.fits_token within.covers _)
      (Reported.errorIf_tokens ..)
  | unclosed suffix fits silent =>
    exact fits.remarks_append (Report.fits_token (Slice.covers_self word) _) silent

theorem check_fits (kind : StringKind) (word : Slice) : (kind.check word).report.Fits word := by
  apply Report.Fits.labelled
  split
  · exact checkQuoted_fits word
  · exact checkWord_fits word

end StringKind

/-! ## Items and blocks -/

theorem Item.check_fits (allowTag : Bool) (word : Slice) :
    (Item.check allowTag word).report.Fits word := by
  have idWithin := Slice.splitWhile_fst_within Item.isIdChar word
  have tagWithin := Slice.splitWhile_snd_within Item.isIdChar word
  have meets := Slice.splitWhile_stop Item.isIdChar word
  unfold Item.check
  generalize word.splitWhile Item.isIdChar = parts at idWithin tagWithin meets ⊢
  rcases parts with ⟨id, tag⟩
  have idFits := Resource.read_fits allowTag .resource id
  apply Report.Fits.labelled
  split
  · exact Report.fits_error (Slice.covers_self word) _
  · split
    · exact (idFits.mono idWithin).append_remarks (Report.fits_empty word) rfl
    · exact idFits.append_behind (CompoundTag.readWhole_fits tag) idWithin tagWithin
        (Nat.le_of_eq meets)

namespace BlockSpec

theorem readId_fits (spec : BlockSpec) (registries : Registries) (id : Slice) :
    (spec.readId registries id).report.Fits id := by
  have read := Resource.read_fits spec.allowTag .resource id
  have nothing := Report.fits_empty id
  unfold readId
  generalize Resource.read spec.allowTag .resource id = outcome at read ⊢
  rcases outcome with ⟨value, report⟩
  cases value with
  | none => exact read.append_remarks nothing rfl
  | some resource =>
    rw [Reported.report_bind]
    dsimp only
    split
    · exact read.append_remarks nothing rfl
    · split
      · exact read.append_remarks nothing rfl
      · exact read.append_remarks (Report.fits_warning (Slice.covers_self id) _) rfl

theorem highlightValue_fits (entry : PropertyEntry) :
    (highlightValue entry).report.Fits entry.value := by
  unfold highlightValue
  split
  · exact Report.fits_empty _
  · exact Report.fits_token (Slice.covers_self _) _

section Entries

variable {word : Slice} {entry : PropertyEntry} (block : Known) (seen : List (List Char))

theorem checkEntry_tokens (entry : PropertyEntry) :
    (checkEntry block seen entry).report.tokens = [] := by
  unfold checkEntry
  rw [Reported.report_bind, Report.append_tokens, Reported.errorIf_tokens]
  split
  · rfl
  · exact Reported.errorIf_tokens ..

theorem checkEntry_fits (keyWithin : entry.key.Within word)
    (valueWithin : entry.value.Within word) :
    (checkEntry block seen entry).report.Fits word := by
  have repeated := Reported.fits_errorIf (seen.contains entry.key.text) keyWithin.covers
    (Fault.repeatedProperty entry.key).message
  have silent := Reported.errorIf_tokens (seen.contains entry.key.text) entry.key.span
    (Fault.repeatedProperty entry.key).message
  unfold checkEntry
  rw [Reported.report_bind]
  split
  · exact repeated.remarks_append (Report.fits_error keyWithin.covers _) silent
  · exact repeated.remarks_append (Reported.fits_errorIf _ valueWithin.covers _) silent

theorem checkEntries_tokens (entries : List PropertyEntry) :
    (checkEntries block seen entries).report.tokens = [] := by
  induction entries generalizing seen with
  | nil => rfl
  | cons entry entries ih =>
    rw [checkEntries, Reported.report_bind, Report.append_tokens, checkEntry_tokens, ih]
    rfl

theorem checkEntries_fits {entries : List PropertyEntry}
    (keys : ∀ e ∈ entries, e.key.Within word) (values : ∀ e ∈ entries, e.value.Within word) :
    (checkEntries block seen entries).report.Fits word := by
  induction entries generalizing seen with
  | nil => exact Report.fits_empty word
  | cons entry entries ih =>
    have first := checkEntry_fits block seen (keys entry (List.mem_cons_self ..))
      (values entry (List.mem_cons_self ..))
    exact first.remarks_append (ih _ (fun e mem => keys e (List.mem_cons_of_mem _ mem))
      (fun e mem => values e (List.mem_cons_of_mem _ mem))) (checkEntry_tokens ..)

end Entries

theorem readTag_fits (rest : Slice) : (readTag rest).report.Fits rest := by
  unfold readTag
  split
  · exact CompoundTag.readWhole_fits rest
  · exact Reported.fits_errorIf _ (Slice.covers_self rest) _

/-- Values are highlighted after the list is read, a tag after all of them. -/
theorem readSuffix_fits (block : Option Known) (suffix : Slice) :
    (readSuffix block suffix).report.Fits suffix := by
  unfold readSuffix
  split
  · have list := PropertySpec.read_reads propertySpec rfl suffix
    generalize propertySpec.read suffix = outcome at list ⊢
    cases list with
    | refused fits silent => exact fits.append_remarks (Report.fits_empty suffix) rfl
    | @accepted list report stop restSuffix before between =>
      obtain ⟨fits, ends⟩ := between.fits_each
        (fun e mem => (highlightValue_fits e).mono (between.values e mem))
        (fun e _ => (highlightValue_fits e).tokens)
      have tag := readTag_fits list.rest
      have ends : ∀ t ∈ (report ++ (Reported.each highlightValue list.entries).report).tokens,
          t.span.stop ≤ list.rest.start := fun t mem => Nat.le_of_lt
        (Nat.lt_of_le_of_lt (ends t mem) before)
      cases block with
      | none =>
        have whole := fits.append_tail tag restSuffix.within ends
        rw [Report.append_assoc] at whole
        exact whole
      | some block =>
        have checked := checkEntries_fits block [] between.keys between.values
        have silent := checkEntries_tokens block [] list.entries
        have whole := (fits.append_remarks checked silent).append_tail tag restSuffix.within (by
          rw [Report.append_tokens, silent, List.append_nil]
          exact ends)
        rw [Report.append_assoc, Report.append_assoc] at whole
        exact whole
  · exact readTag_fits suffix

theorem check_fits (spec : BlockSpec) (registries : Registries) (word : Slice) :
    (spec.check registries word).report.Fits word := by
  have idWithin := Slice.splitWhile_fst_within Item.isIdChar word
  have suffixWithin := Slice.splitWhile_snd_within Item.isIdChar word
  have meets := Slice.splitWhile_stop Item.isIdChar word
  unfold check
  generalize word.splitWhile Item.isIdChar = parts at idWithin suffixWithin meets ⊢
  rcases parts with ⟨id, suffix⟩
  apply Report.Fits.labelled
  split
  · exact Report.fits_error (Slice.covers_self word) _
  · exact (spec.readId_fits registries id).append_behind (readSuffix_fits _ suffix) idWithin
      suffixWithin (Nat.le_of_eq meets)

end BlockSpec

/-! ## Targets -/

namespace Target

/-- Only the value of a predicate is highlighted when it is read. -/
theorem checkPredicate_tokens {entry : PropertyEntry} {t : SemanticToken}
    (mem : t ∈ (checkPredicate entry).report.tokens) : entry.value.Covers t.span := by
  unfold checkPredicate at mem
  split at mem
  · cases mem
  · split at mem
    · cases mem
    · rename_i row found
      split at mem
      · cases mem
      · exact (SelectorEntry.find?_read_fits found entry.value).tokens t mem

theorem checkPredicate_fits {word : Slice} {entry : PropertyEntry}
    (keyWithin : entry.key.Within word) (valueWithin : entry.value.Within word) :
    (checkPredicate entry).report.Fits word := by
  unfold checkPredicate
  split
  · exact Report.fits_empty word
  · split
    · exact Report.fits_error keyWithin.covers _
    · rename_i row found
      split
      · exact Report.fits_error (Slice.covers_cover keyWithin valueWithin) _
      · exact ((SelectorEntry.find?_read_fits found entry.value).mono valueWithin).labelled _

theorem checkPredicates_fits (block : Slice) : (checkPredicates block).report.Fits block := by
  unfold checkPredicates
  split
  · exact Report.fits_empty block
  · split
    · exact Report.fits_error (Slice.covers_self block) _
    · have list := PropertySpec.read_reads predicateSpec rfl block
      generalize predicateSpec.read block = outcome at list ⊢
      cases list with
      | refused fits silent => exact fits.append_remarks (Report.fits_empty block) rfl
      | @accepted list report stop suffix before between =>
        have trailing := Reported.fits_errorIf (!list.rest.isEmpty) suffix.within.covers
          (Fault.message .afterList)
        apply between.fits_trailing trailing (Reported.errorIf_tokens ..)
        · intro e mem
          exact checkPredicate_fits (between.keys e mem) (between.values e mem)
        · intro e _ t
          exact checkPredicate_tokens

theorem checkSelector_fits (word : Slice) : (checkSelector word).report.Fits word := by
  have nameWithin : ((word.drop 1).take 1).Within word :=
    (Slice.take_within ..).trans (Slice.drop_within ..)
  have meets : ((word.drop 1).take 1).stop = (word.drop 2).start := by
    rw [Slice.take_stop, Slice.drop_drop]
  unfold checkSelector
  dsimp only
  split
  · exact Report.fits_error (Slice.covers_self word) _
  · split
    · have selector := Report.fits_token (Slice.covers_cover (Slice.Within.refl word) nameWithin)
        .selector
      apply selector.append_tail (checkPredicates_fits (word.drop 2)) (Slice.drop_within ..)
      intro t mem
      obtain rfl := List.mem_singleton.1 mem
      show max ((word.drop 1).take 1).stop word.start ≤ (word.drop 2).start
      have begins : word.start ≤ (word.drop 2).start := (Slice.drop_within 2 word).start_le
      rw [meets]
      omega
    · exact Report.fits_error (Slice.covers_self word) _

theorem checkPlayer_fits (word : Slice) : (checkPlayer word).report.Fits word := by
  have self := Slice.covers_self word
  unfold checkPlayer
  split
  · exact Report.fits_token self _
  · apply (Report.fits_token self _).append_remarks
    · split
      · exact Report.fits_error self _
      · exact Reported.fits_errorIf _ self _
    · split
      · rfl
      · exact Reported.errorIf_tokens ..

theorem check_fits (kind : TargetKind) (word : Slice) : (check kind word).report.Fits word := by
  unfold check
  split
  · exact Report.fits_token (Slice.covers_self word) _
  · split
    · exact checkSelector_fits word
    · exact checkPlayer_fits word

end Target

end CommandScript.Argument
