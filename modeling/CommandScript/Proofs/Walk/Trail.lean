import CommandScript.Proofs.Kind
import CommandScript.Walk

/-!
Trails stay on their line.

The reader behind a trail stands at a word or at the end of the line
(`Trail.Sound`), and what the hops of a trail report lies behind one another, up to
the place where the reader stands (`Trail.Fits`). Both hold at the start of a line;
an attempt and the separator after it keep them.
-/

namespace CommandScript

open TokenReader

/-! ## Attempts -/

/-- What an attempt from a reader on comes to: the hop reports what it passed. If it
matched, it passed a word and stands in front of spaces or at the end. -/
structure Hop.Behind (line : List Char) (r : TokenReader) (hop : Hop) : Prop where
  ahead : hop.reader.Ahead r
  fits : hop.report.FitsBetween (Slice.ofLine line) r.offset hop.reader.offset
  covers : (Slice.ofLine line).Covers hop.span
  separated : hop.matched = true → hop.reader.AtSeparator
  moved : hop.matched = true → r.index < hop.reader.index

namespace Walk

section Attempts

variable {context : Context} {line : List Char} {r after : TokenReader} {word : Slice}

theorem attemptNode_tries (context : Context) (key : String) (node : CommandNode) (word : Slice)
    (reader : TokenReader) :
    (attemptNode context key node word reader).name = key ∧
      (attemptNode context key node word reader).node = node := by
  unfold attemptNode attemptLiteral attemptArgument
  dsimp only
  split <;> split <;> exact ⟨rfl, rfl⟩

/-- The span of an attempt goes from where its reader stood to where it stands. -/
theorem spanRead_eq (valid : r.Valid) (found : r.current? = some ⟨word, false⟩)
    (ahead : after.Ahead r) : spanRead word r after = ⟨r.offset, after.offset⟩ := by
  unfold spanRead
  rw [← valid.current_start found]
  split
  · rename_i moved
    obtain ⟨last, isLast, -, -, stop⟩ := ahead.previous valid moved
    rw [isLast, ← stop]
    rfl
  · rename_i stays
    have index : after.index = r.index := Nat.le_antisymm (Nat.le_of_not_lt stays) ahead.le
    have same : after = r := by
      rcases after with ⟨tokens, index, line⟩
      rcases ahead with ⟨rfl, rfl, -, -⟩
      subst index
      rfl
    rw [same, ← valid.current_start found]
    rfl

/-- An attempt does not move the reader back. -/
theorem attemptNode_ahead (forward : context.kinds.IsForward) (name : String)
    (node : CommandNode) (valid : r.Valid) (found : r.current? = some ⟨word, false⟩) :
    (attemptNode context name node word r).reader.Ahead r := by
  unfold attemptNode attemptLiteral attemptArgument
  split
  · split
    · exact valid.advance_ahead
    · exact valid.ahead_self
  · dsimp only
    split
    · exact valid.ahead_self
    · rename_i parser known
      exact forward _ _ parser known context.registries r valid (atWord_of_current? found)

theorem attemptLiteral_behind (name : String) (node : CommandNode) (valid : r.Valid)
    (found : r.current? = some ⟨word, false⟩) :
    Hop.Behind r.line r (attemptLiteral name node word r) := by
  have within := valid.current_within found
  unfold attemptLiteral
  split
  · have token := (Report.fits_token (Slice.covers_self word) .commandLiteral).between_ends within
    rw [valid.current_start found, valid.current_stop found] at token
    refine ⟨valid.advance_ahead, token, within.covers, fun _ => ?_, fun _ => ?_⟩
    · exact valid.advance_atSeparator found rfl
    · rw [advance_eq (atEnd_eq_false found)]
      exact Nat.lt_succ_self _
  · exact ⟨valid.ahead_self, (Report.fits_empty _).between_of_silent rfl _ _, within.covers, nofun,
      nofun⟩

theorem attemptArgument_behind (builtin : context.kinds.IsBuiltin) (name : String)
    (node : CommandNode) (valid : r.Valid) (found : r.current? = some ⟨word, false⟩) :
    Hop.Behind r.line r (attemptArgument context name node word r) := by
  have within := valid.current_within found
  have atWord := atWord_of_current? found
  unfold attemptArgument
  dsimp only
  split
  · exact ⟨valid.ahead_self, (Report.fits_error valid.remaining_covers _).between_of_silent rfl _ _,
      within.covers, nofun, nofun⟩
  · rename_i parser known
    have read := builtin.create?_reads known context.registries valid atWord
    refine ⟨read.ahead, read.fitsBetween valid, ?_, fun _ => read.separated, fun _ => ?_⟩
    · rw [spanRead_eq valid found read.ahead]
      exact read.ahead.covers valid
    · exact read.advances (atEnd_eq_false found)

/-- Every attempt stays behind the reader from which it was made. -/
theorem attemptNode_behind (builtin : context.kinds.IsBuiltin) (name : String)
    (node : CommandNode) (valid : r.Valid) (found : r.current? = some ⟨word, false⟩) :
    Hop.Behind r.line r (attemptNode context name node word r) := by
  unfold attemptNode
  split
  · exact attemptLiteral_behind name node valid found
  · exact attemptArgument_behind builtin name node valid found

end Attempts

end Walk

namespace Trail

/-! ## Positions -/

/-- The reader behind the trail stands at a word of the line or at its end. -/
structure Sound (line : List Char) (trail : Trail) : Prop where
  valid : trail.reader.Valid
  sameLine : trail.reader.line = line
  atWord : trail.reader.AtWord

/-! ## Reports -/

/-- The tokens of a trail in order. -/
def tokens (trail : Trail) : List SemanticToken :=
  trail.hops.flatMap fun hop => hop.report.sortedTokens

/-- What the hops of a trail report is covered by the line, on which their readers
stand, and their tokens lie behind one another, up to the place where the last of the
readers stands. -/
structure Fits (line : List Char) (trail : Trail) : Prop where
  readers : ∀ hop ∈ trail.hops, hop.reader.Valid ∧ hop.reader.line = line
  reports : ∀ hop ∈ trail.hops, hop.report.Fits (Slice.ofLine line)
  spans : ∀ hop ∈ trail.hops, (Slice.ofLine line).Covers hop.span
  ordered : trail.tokens.Pairwise SemanticToken.EndsBefore
  ends : ∀ t ∈ trail.tokens, t.span.stop ≤ trail.reader.offset

section Fits

variable {line : List Char} {trail : Trail} {hop : Hop}

theorem hops_push (trail : Trail) (hop : Hop) : (trail.push hop).hops = trail.hops ++ [hop] :=
  List.reverse_cons

theorem tokens_push (trail : Trail) (hop : Hop) :
    (trail.push hop).tokens = trail.tokens ++ hop.report.sortedTokens := by
  rw [tokens, hops_push, List.flatMap_append, List.flatMap_singleton]
  rfl

theorem hops_eq (trail : Trail) : trail.hops = trail.earlier.reverse ++ [trail.latest] :=
  List.reverse_cons

theorem latest_mem_hops (trail : Trail) : trail.latest ∈ trail.hops := by
  rw [hops_eq]
  exact List.mem_append_right _ (List.mem_singleton_self _)

/-- A trail goes on with a hop behind its reader. -/
theorem Fits.push (fits : trail.Fits line) (valid : trail.reader.Valid)
    (behind : Hop.Behind line trail.reader hop) : (trail.push hop).Fits line := by
  have forward : trail.reader.offset ≤ hop.reader.offset := behind.ahead.offset_le valid
  have between : ∀ t ∈ hop.report.sortedTokens,
      trail.reader.offset ≤ t.span.start ∧ t.span.stop ≤ hop.reader.offset := fun t mem =>
    behind.fits.between t (Report.mem_sortedTokens.1 mem)
  refine ⟨?_, ?_, ?_, ?_, ?_⟩
  · have reader := fits.readers trail.latest trail.latest_mem_hops
    rw [hops_push]
    refine List.forall_mem_append.2 ⟨fits.readers, List.forall_mem_singleton.2 ⟨?_, ?_⟩⟩
    · exact behind.ahead.valid reader.1
    · exact behind.ahead.line.trans reader.2
  · rw [hops_push]
    exact List.forall_mem_append.2 ⟨fits.reports, List.forall_mem_singleton.2 behind.fits.toFits⟩
  · rw [hops_push]
    exact List.forall_mem_append.2 ⟨fits.spans, List.forall_mem_singleton.2 behind.covers⟩
  · rw [tokens_push]
    refine List.pairwise_append.2 ⟨fits.ordered, behind.fits.sortedTokens_ordered, ?_⟩
    exact fun t mem u memHop => Nat.le_trans (fits.ends t mem) (between u memHop).1
  · rw [tokens_push]
    refine List.forall_mem_append.2 ⟨fun t mem => ?_, fun t mem => (between t mem).2⟩
    exact Nat.le_trans (fits.ends t mem) forward

/-- The latest hop may be replaced by one that reports more remarks and has a reader
further on. -/
theorem Fits.replace {latest : Hop} {remarks : Report} (fits : trail.Fits line)
    (ahead : latest.reader.Ahead trail.reader)
    (report : latest.report = trail.latest.report ++ remarks)
    (span : latest.span = trail.latest.span) (covered : remarks.Fits (Slice.ofLine line))
    (silent : remarks.tokens = []) : Fits line { trail with latest := latest } := by
  rcases fits with ⟨readers, reports, spans, ordered, ends⟩
  have same : tokens { trail with latest := latest } = trail.tokens := by
    simp only [tokens, hops_eq, List.flatMap_append, List.flatMap_singleton, report,
      Report.sortedTokens, Report.append_tokens, silent, List.append_nil]
  rw [hops_eq] at readers reports spans
  rcases List.forall_mem_append.1 readers with ⟨readersEarlier, readersLatest⟩
  rcases List.forall_mem_append.1 reports with ⟨reportsEarlier, reportsLatest⟩
  rcases List.forall_mem_append.1 spans with ⟨spansEarlier, spansLatest⟩
  rcases List.forall_mem_singleton.1 readersLatest with ⟨valid, sameLine⟩
  refine ⟨?_, ?_, ?_, by rwa [same], ?_⟩
  · rw [hops_eq]
    exact List.forall_mem_append.2 ⟨readersEarlier, List.forall_mem_singleton.2
      ⟨ahead.valid valid, ahead.line.trans sameLine⟩⟩
  · rw [hops_eq]
    refine List.forall_mem_append.2 ⟨reportsEarlier, List.forall_mem_singleton.2 ?_⟩
    rw [report]
    exact (List.forall_mem_singleton.1 reportsLatest).append_remarks covered silent
  · rw [hops_eq]
    refine List.forall_mem_append.2 ⟨spansEarlier, List.forall_mem_singleton.2 ?_⟩
    rw [span]
    exact spansLatest _ (List.mem_singleton_self _)
  · rw [same]
    exact fun t mem => Nat.le_trans (ends t mem) (ahead.offset_le valid)

/-- More may be remarked on the latest hop. -/
theorem Fits.add {remarks : Report} (fits : trail.Fits line)
    (covered : remarks.Fits (Slice.ofLine line)) (silent : remarks.tokens = []) :
    (trail.add remarks).Fits line :=
  fits.replace (fits.readers _ trail.latest_mem_hops).1.ahead_self rfl rfl covered silent

end Fits

/-! ## Separators -/

/-- A path depends on the entries of the hops only. -/
theorem path_replace {latest : Hop} (trail : Trail) (entry : latest.entry = trail.latest.entry) :
    path { trail with latest := latest } = trail.path := by
  simp only [path, hops_eq, List.map_drop, List.map_append, List.map_singleton, entry]

theorem path_add (trail : Trail) (report : Report) : (trail.add report).path = trail.path :=
  trail.path_replace rfl

theorem path_push (trail : Trail) (hop : Hop) :
    (trail.push hop).path = trail.path ++ [hop.entry] := by
  have nonempty : 1 ≤ trail.hops.length := List.length_pos_of_mem trail.latest_mem_hops
  rw [path, hops_push, List.drop_append_of_le_length nonempty, List.map_append]
  rfl

section Separators

variable {line : List Char} {trail : Trail}

/-- The trail after the separator behind its latest hop. -/
def passed (trail : Trail) : Trail :=
  match Walk.passSeparator trail with
  | .ok next => next
  | .error _ => trail

/-- Behind a word the separator can be passed; only the reader moves, past spaces. -/
theorem passSeparator_eq (separated : trail.reader.AtSeparator) :
    Walk.passSeparator trail = .ok trail.passed ∧
      trail.passed.reader = trail.reader.passSpaces ∧ trail.passed.node = trail.node ∧
        trail.passed.path = trail.path := by
  cases found : trail.reader.current? with
  | none => simp [passed, Walk.passSeparator, passSpaces, found]
  | some token =>
    have space := separated token found
    simp only [passed, Walk.passSeparator, passSpaces, found, space, if_true, true_and]
    exact ⟨rfl, rfl, trail.path_replace rfl⟩

/-- Only a separator is passed, and no hop is added. -/
theorem atSeparator_of_passSeparator {next : Trail} (done : Walk.passSeparator trail = .ok next) :
    trail.reader.AtSeparator ∧ next.earlier = trail.earlier := by
  unfold Walk.passSeparator at done
  split at done
  · rename_i none
    obtain rfl := Except.ok.inj done
    exact ⟨atSeparator_of_atEnd (current?_eq_none_iff.1 none), rfl⟩
  · rename_i token found
    split at done
    · rename_i space
      obtain rfl := Except.ok.inj done
      refine ⟨fun next mem => ?_, rfl⟩
      obtain rfl := Option.some.inj (found.symm.trans mem)
      exact space
    · cases done

/-- Spaces that are passed may be remarked on, and the reader moves past them. -/
theorem Fits.passed (fits : trail.Fits line) (valid : trail.reader.Valid)
    (sameLine : trail.reader.line = line) : trail.passed.Fits line := by
  cases found : trail.reader.current? with
  | none => simpa [Trail.passed, Walk.passSeparator, found] using fits
  | some token =>
    cases space : token.isSpace with
    | false => simpa [Trail.passed, Walk.passSeparator, found, space] using fits
    | true =>
      have covered := (Argument.checkSeparator_fits token).mono (valid.current_within found)
      rw [sameLine] at covered
      simp only [Trail.passed, Walk.passSeparator, found, space, if_true]
      exact fits.replace valid.advance_ahead rfl rfl covered (Argument.checkSeparator_tokens token)

end Separators

end Trail

end CommandScript
