import CommandScript.Proofs.Report
import CommandScript.Text.Cursor

/-!
Readings move forward and report what they pass.

A step that starts at a cursor either stops, or leaves the cursor at a later end of
the same slice with all its tokens in between (`Cursor.Passed`). Such steps compose
(`Reading.Passes.bind`), so a recursive reader needs one line for each of its
steps.
-/

namespace CommandScript

namespace Cursor

/-! ## Single moves -/

/-- What a step that starts at `c` comes to. -/
inductive Passed {α : Type} (c : Cursor) : Reported (Option (α × Cursor)) → Prop where
  | stopped {report : Report} (laid : report.Laid c.whole c.rest.start c.whole.stop) :
    Passed c ⟨none, report⟩
  | moved {a : α} {rest : Slice} {report : Report} (suffix : rest.SuffixOf c.rest)
    (laid : report.Laid c.whole c.rest.start rest.start) :
    Passed c ⟨some (a, c.seek rest), report⟩

/-- What is left of the slice is one of its ends. -/
def Sound (c : Cursor) : Prop :=
  c.rest.SuffixOf c.whole

variable {α : Type} {c : Cursor} {rest : Slice}

theorem sound_ofSlice (s : Slice) : (ofSlice s).Sound :=
  .refl s

theorem Sound.seek (sound : c.Sound) (suffix : rest.SuffixOf c.rest) : (c.seek rest).Sound :=
  suffix.trans sound

theorem Sound.start_le_stop (sound : c.Sound) : c.rest.start ≤ c.whole.stop :=
  Slice.SuffixOf.start_le_stop sound

theorem Sound.covers (sound : c.Sound) {d : Slice} (within : d.Within c.rest) :
    c.whole.Covers d.span :=
  (within.trans sound.within).covers

theorem currentSlice_within (c : Cursor) : c.currentSlice.Within c.rest :=
  Slice.take_within ..

/-- A move without a word. -/
theorem passed_move (a : α) (suffix : rest.SuffixOf c.rest) :
    c.Passed (pure (some (a, c.seek rest))) :=
  .moved suffix (Report.laid_empty _ suffix.within.start_le)

/-- A step after a move without a word passes what lies before it as well. -/
theorem Passed.after_move {x : Reported (Option (α × Cursor))} (suffix : rest.SuffixOf c.rest)
    (passed : (c.seek rest).Passed x) : c.Passed x := by
  have begins : c.rest.start ≤ rest.start := suffix.within.start_le
  cases passed with
  | stopped laid => exact .stopped (laid.widen begins (Nat.le_refl _))
  | moved later laid => exact .moved (later.trans suffix) (laid.widen begins (Nat.le_refl _))

/-- A stop after an error. -/
theorem Sound.passed_error (sound : c.Sound) {span : Span} (covers : c.whole.Covers span)
    (message : String) :
    c.Passed (do Reported.error span message; return (none : Option (α × Cursor))) :=
  .stopped (Report.laid_error covers message sound.start_le_stop)

/-- A move over what is highlighted. -/
theorem Sound.passed_token (sound : c.Sound) {d : Slice} (a : α) (within : d.Within c.rest)
    (suffix : rest.SuffixOf c.rest) (ends : d.stop ≤ rest.start) (kind : Highlight) :
    c.Passed (do Reported.token d.span kind; return some (a, c.seek rest)) :=
  .moved suffix (Report.laid_token (sound.covers within) kind within.start_le ends)

/-! ## Expectations -/

/-- What `expect` comes to: the character is passed, or something else is reported. -/
inductive Expected (c : Cursor) : Reported (Bool × Cursor) → Prop where
  | found {report : Report}
    (laid : report.Laid c.whole c.rest.start (c.rest.drop 1).start) :
    Expected c ⟨(true, c.seek (c.rest.drop 1)), report⟩
  | missed {report : Report} (fits : report.Fits c.whole) (silent : report.tokens = []) :
    Expected c ⟨(false, c), report⟩

theorem Sound.expect_expected (sound : c.Sound) (ch : Char) (kind : Option Highlight) :
    c.Expected (c.expect ch kind) := by
  have current := sound.covers c.currentSlice_within
  unfold expect
  split
  · cases kind with
    | none => exact .found (Report.laid_empty _ (Slice.drop_within ..).start_le)
    | some kind =>
      exact .found (Report.laid_token current kind (Nat.le_refl _) (Nat.le_refl _))
  · split
    · exact .missed (Report.fits_error (Slice.covers_self _) _) rfl
    · exact .missed (Report.fits_error current _) rfl

/-- What `readQuoted` comes to: a string in front of the rest, or an error. -/
inductive QuotedRead (c : Cursor) : Reported (Option Slice × Cursor) → Prop where
  | closed {quoted rest : Slice} {report : Report} (within : quoted.Within c.rest)
    (suffix : rest.SuffixOf c.rest) (meets : quoted.stop = rest.start) (silent : report = ∅) :
    QuotedRead c ⟨(some quoted, c.seek rest), report⟩
  | unclosed {rest : Slice} {report : Report} (suffix : rest.SuffixOf c.rest)
    (fits : report.Fits c.whole) (silent : report.tokens = []) :
    QuotedRead c ⟨(none, c.seek rest), report⟩

theorem Sound.readQuoted_read (sound : c.Sound) : c.QuotedRead c.readQuoted := by
  unfold readQuoted
  split
  · rename_i nothing
    refine .closed (.refl _) (.refl _) ?_ rfl
    rw [Slice.stop_eq, nothing]
    rfl
  · rename_i quote cs _
    generalize splitQuoted quote cs = split
    rcases split with ⟨body, remainder⟩
    dsimp only
    have inside : (c.seek (c.rest.drop (1 + body.length))).Sound :=
      sound.seek (Slice.drop_suffixOf ..)
    unfold expect
    split
    · refine .closed (Slice.take_within (2 + body.length) c.rest)
        ((Slice.drop_suffixOf 1 _).trans (Slice.drop_suffixOf _ _)) ?_ rfl
      rw [Slice.take_stop]
      show _ = ((c.rest.drop (1 + body.length)).drop 1).start
      rw [Slice.drop_drop, Nat.add_right_comm]
    · have suffix := Slice.drop_suffixOf (1 + body.length) c.rest
      split
      · exact .unclosed suffix (Report.fits_error (Slice.covers_self _) _) rfl
      · exact .unclosed suffix
          (Report.fits_error (inside.covers (currentSlice_within _)) _) rfl

end Cursor

/-! ## Readings -/

namespace Reading

/-- From every cursor the step passes what it reports. -/
def Passes {α : Type} (x : Reading α) : Prop :=
  ∀ c : Cursor, c.Sound → c.Passed (x c)

section Passes

variable {α β : Type} {x y : Reading α}

theorem passes_pure (a : α) : Passes (Pure.pure a) :=
  fun c _ => Cursor.passed_move a (.refl c.rest)

/-- One step after the other passes what both report. -/
theorem Passes.bind {f : α → Reading β} (first : x.Passes) (next : ∀ a, (f a).Passes) :
    (x >>= f).Passes := by
  intro c sound
  have start := first c sound
  rw [run_bind]
  generalize x c = outcome at start ⊢
  cases start with
  | stopped laid => exact .stopped (laid.append (Report.laid_empty _ (Nat.le_refl _)))
  | @moved a rest report suffix laid =>
    have after := next a (c.seek rest) (sound.seek suffix)
    show c.Passed ⟨(f a (c.seek rest)).value, report ++ (f a (c.seek rest)).report⟩
    generalize f a (c.seek rest) = outcome at after ⊢
    cases after with
    | stopped later => exact .stopped (laid.append later)
    | moved further later => exact .moved (further.trans suffix) (laid.append later)

theorem passes_ite {p : Prop} [Decidable p] (yes : x.Passes) (no : y.Passes) :
    Passes (if p then x else y) := by
  split
  · exact yes
  · exact no

theorem passes_look (f : Cursor → α) : Passes (look f) :=
  fun c _ => Cursor.passed_move (f c) (.refl c.rest)

/-- What is seen of a cursor is known of it. -/
theorem look_bind (f : Cursor → α) (g : α → Reading β) (c : Cursor) :
    (look f >>= g) c = g (f c) c :=
  pure_bind ..

theorem readUnquoted_bind (f : Slice → Reading β) (c : Cursor) :
    (readUnquoted >>= f) c = f (c.rest.splitWhile Charset.isUnquoted).1
      (c.seek (c.rest.splitWhile Charset.isUnquoted).2) :=
  pure_bind ..

theorem passes_advance : Passes advance :=
  fun _ _ => Cursor.passed_move () (Slice.drop_suffixOf ..)

theorem passes_advanceOver (kind : Highlight) : Passes (advanceOver kind) :=
  fun c sound => sound.passed_token () c.currentSlice_within (Slice.drop_suffixOf 1 c.rest)
    (Nat.le_refl _) kind

theorem passes_readWhile (p : Char → Bool) : Passes (readWhile p) :=
  fun _ _ => Cursor.passed_move _ (Slice.splitWhile_suffixOf ..)

theorem passes_skipBlanks : Passes skipBlanks :=
  fun _ _ => Cursor.passed_move () (Slice.splitWhile_suffixOf ..)

theorem passes_expectedValue : Passes (expectedValue : Reading α) :=
  fun _ sound => sound.passed_error (Slice.covers_self _) _

theorem passes_expect (ch : Char) (kind : Option Highlight) : Passes (expect ch kind) := by
  intro c sound
  have expected := sound.expect_expected ch kind
  unfold Reading.expect
  generalize c.expect ch kind = outcome at expected ⊢
  cases expected with
  | found laid =>
    exact .moved (Slice.drop_suffixOf ..) (laid.append (Report.laid_empty _ (Nat.le_refl _)))
  | missed fits silent =>
    have laid := fits.laid_of_silent silent sound.start_le_stop
    exact .stopped (laid.append (Report.laid_empty _ (Nat.le_refl _)))

/-- A quoted string may be highlighted when it is read. -/
theorem passes_readQuoted_token (kind : Highlight) :
    Passes (readQuoted >>= fun quoted => token quoted.span kind) := by
  intro c sound
  have read := sound.readQuoted_read
  rw [run_bind]
  unfold readQuoted
  generalize c.readQuoted = outcome at read ⊢
  cases read with
  | closed within suffix meets silent =>
    subst silent
    exact sound.passed_token () within suffix (Nat.le_of_eq meets) kind
  | unclosed suffix fits silent =>
    have laid := fits.laid_of_silent silent sound.start_le_stop
    have nothing := Report.laid_empty c.whole (Nat.le_refl c.whole.stop)
    exact .stopped ((laid.append nothing).append nothing)

/-- Unquoted text may be highlighted when it is read; `empty` follows if there is
none. -/
theorem passes_readUnquoted_token {empty : Reading Unit} (kind : Slice → Highlight)
    (passes : empty.Passes) :
    Passes (readUnquoted >>= fun text =>
      if text.isEmpty then empty else token text.span (kind text)) := by
  intro c sound
  have suffix := Slice.splitWhile_suffixOf Charset.isUnquoted c.rest
  rw [readUnquoted_bind]
  split
  · exact .after_move suffix (passes _ (sound.seek suffix))
  · exact sound.passed_token () (Slice.splitWhile_fst_within ..) suffix
      (Nat.le_of_eq (Slice.splitWhile_stop ..)) _

theorem passes_passComma : Passes passComma :=
  passes_skipBlanks.bind fun _ => (passes_look _).bind fun _ =>
    passes_ite (passes_advance.bind fun _ => passes_skipBlanks.bind fun _ => passes_pure _)
      (passes_pure _)

end Passes

/-! ## What readings report -/

/-- From every cursor, what the step reports has the property. -/
def Reports {α : Type} (P : Report → Prop) (x : Reading α) : Prop :=
  ∀ c : Cursor, P (x c).report

section Reports

variable {α β : Type} {x y : Reading α} {P : Report → Prop}

theorem reports_ite {p : Prop} [Decidable p] (yes : x.Reports P) (no : y.Reports P) :
    (if p then x else y).Reports P := by
  split
  · exact yes
  · exact no

variable (additive : Report.Additive P)

include additive

theorem reports_pure (a : α) : Reports P (Pure.pure a) :=
  fun _ => additive.empty

theorem reports_look (f : Cursor → α) : Reports P (look f) :=
  fun _ => additive.empty

theorem reports_move (f : Cursor → α × Cursor) : Reports P (move f) :=
  fun _ => additive.empty

theorem reports_report {z : Reported α} (holds : P z.report) : Reports P (report z) :=
  fun _ => additive.append holds additive.empty

theorem Reports.bind {f : α → Reading β} (first : x.Reports P) (next : ∀ a, (f a).Reports P) :
    (x >>= f).Reports P := by
  intro c
  rw [run_bind, Reported.report_bind]
  refine additive.append (first c) ?_
  split
  · exact next _ _
  · exact additive.empty

theorem reports_expect {ch : Char} {kind : Option Highlight}
    (missing : ∀ span, P (.error span (Cursor.Fault.expected ch).message))
    (ended : ∀ span, P (.error span (Cursor.Fault.expectedBeforeEnd ch).message))
    (found : ∀ c : Cursor, c.current? = some ch → ∀ k ∈ kind, P (.token c.currentSlice.span k)) :
    (expect ch kind).Reports P := by
  intro c
  unfold expect Cursor.expect
  split
  · rename_i current
    cases kind with
    | none => exact additive.empty
    | some k =>
      have token := found c current k rfl
      exact additive.append (additive.append token additive.empty) additive.empty
  · split
    · exact additive.append (additive.append (ended _) additive.empty) additive.empty
    · exact additive.append (additive.append (missing _) additive.empty) additive.empty

theorem reports_passComma : passComma.Reports P :=
  (reports_move additive _).bind additive fun _ => (reports_look additive _).bind additive fun _ =>
    reports_ite
      ((reports_move additive _).bind additive fun _ =>
        (reports_move additive _).bind additive fun _ => reports_pure additive _)
      (reports_pure additive _)

end Reports

end Reading

end CommandScript
