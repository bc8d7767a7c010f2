import CommandScript.Proofs.Text.Slice
import CommandScript.Report

/-!
Reports that stay inside the text they are about.

A report fits a slice if every span of it is covered by the slice and no two of its
tokens overlap (`Report.Fits`). Tokens may be found out of order, and an empty token
may stand where another begins; `SemanticToken.Apart` is the relation between a token
and a later found one under which sorting by beginnings, which keeps the order of
ties, leaves every token after the end of the one before it
(`Report.Fits.sortedTokens_ordered`).

Readers that go from left to right give the stronger `Report.Laid`: the tokens come
in order between two offsets, so reports of consecutive readings can be appended.
-/

namespace CommandScript

/-! ## Tokens that do not overlap -/

namespace SemanticToken

/-- The second token begins after the end of the first. -/
def EndsBefore (t u : SemanticToken) : Prop :=
  t.span.stop ≤ u.span.start

/-- A token and one that was found later do not overlap. If the later one stands in
front, it also begins in front. -/
def Apart (t u : SemanticToken) : Prop :=
  t.EndsBefore u ∨ u.EndsBefore t ∧ u.span.start < t.span.start

/-- A token in front of an offset is apart from one behind it. -/
theorem apart_of_le {t u : SemanticToken} {offset : Nat} (ends : t.span.stop ≤ offset)
    (begins : offset ≤ u.span.start) : t.Apart u :=
  Or.inl (Nat.le_trans ends begins)

theorem startsBefore_trans (t u v : SemanticToken) (first : t.startsBefore u = true)
    (second : u.startsBefore v = true) : t.startsBefore v = true := by
  simp only [startsBefore, decide_eq_true_eq] at *
  omega

theorem startsBefore_total (t u : SemanticToken) :
    (t.startsBefore u || u.startsBefore t) = true := by
  simp only [startsBefore, Bool.or_eq_true, decide_eq_true_eq]
  omega

/-- Sorting tokens that do not overlap puts every one of them after the end of those
before it. -/
theorem mergeSort_ordered {tokens : List SemanticToken}
    (proper : ∀ t ∈ tokens, t.span.start ≤ t.span.stop) (apart : tokens.Pairwise Apart) :
    (tokens.mergeSort startsBefore).Pairwise EndsBefore := by
  induction tokens with
  | nil => simp
  | cons t tokens ih =>
    rcases List.pairwise_cons.1 apart with ⟨fromFirst, later⟩
    have sorted := List.pairwise_mergeSort startsBefore_trans startsBefore_total (t :: tokens)
    have ordered := ih (fun u mem => proper u (List.mem_cons_of_mem _ mem)) later
    have sameTokens : ∀ u, u ∈ tokens.mergeSort startsBefore ↔ u ∈ tokens := fun u =>
      List.mem_mergeSort
    -- The first token goes in between those that begin before it and all others.
    rcases List.mergeSort_cons startsBefore_trans startsBefore_total t tokens with
      ⟨front, back, whole, without, inFront⟩
    rw [whole] at sorted ⊢
    rw [without] at ordered sameTokens
    rcases List.pairwise_append.1 ordered with ⟨frontOrdered, backOrdered, across⟩
    rcases List.pairwise_append.1 sorted with ⟨-, backSorted, -⟩
    refine List.pairwise_append.2 ⟨frontOrdered, List.pairwise_cons.2 ⟨?_, backOrdered⟩, ?_⟩
    · intro u mem
      have begins := (List.pairwise_cons.1 backSorted).1 u mem
      have found := (sameTokens u).1 (List.mem_append_right _ mem)
      simp only [startsBefore, decide_eq_true_eq] at begins
      rcases fromFirst u found with ends | ⟨-, strictly⟩
      · exact ends
      · omega
    · intro u mem v memBack
      rcases List.mem_cons.1 memBack with rfl | memBack
      · have begins := inFront u mem
        have found := (sameTokens u).1 (List.mem_append_left _ mem)
        have properFirst := proper v (List.mem_cons_self ..)
        simp only [startsBefore, Bool.not_eq_true', decide_eq_false_iff_not] at begins
        rcases fromFirst u found with ends | ⟨ends, -⟩
        · simp only [EndsBefore] at ends
          omega
        · exact ends
      · exact across u mem v memBack

end SemanticToken

namespace Report

/-! ## Reports that fit a slice -/

/-- All spans are covered by the slice and no two tokens overlap. -/
structure Fits (r : Report) (s : Slice) : Prop where
  errors : ∀ e ∈ r.errors, s.Covers e.span
  warnings : ∀ w ∈ r.warnings, s.Covers w.span
  tokens : ∀ t ∈ r.tokens, s.Covers t.span
  apart : r.tokens.Pairwise SemanticToken.Apart

section Fits

variable {a b r : Report} {d e s : Slice} {span : Span}

theorem fits_empty (s : Slice) : (∅ : Report).Fits s :=
  ⟨nofun, nofun, nofun, .nil⟩

theorem fits_error (covers : s.Covers span) (message : String) : (error span message).Fits s :=
  ⟨by simpa [error] using covers, nofun, nofun, .nil⟩

theorem fits_warning (covers : s.Covers span) (message : String) :
    (warning span message).Fits s :=
  ⟨nofun, by simpa [warning] using covers, nofun, .nil⟩

theorem fits_token (covers : s.Covers span) (kind : Highlight) : (token span kind).Fits s :=
  ⟨nofun, nofun, by simpa [token] using covers, List.pairwise_singleton ..⟩

/-- Two reports fit together if the tokens of one are apart from those of the other. -/
theorem Fits.append (first : a.Fits s) (second : b.Fits s)
    (apart : ∀ t ∈ a.tokens, ∀ u ∈ b.tokens, t.Apart u) : (a ++ b).Fits s where
  errors e mem := (List.mem_append.1 mem).elim (first.errors e) (second.errors e)
  warnings w mem := (List.mem_append.1 mem).elim (first.warnings w) (second.warnings w)
  tokens t mem := (List.mem_append.1 mem).elim (first.tokens t) (second.tokens t)
  apart := List.pairwise_append.2 ⟨first.apart, second.apart, apart⟩

/-- Remarks may be added to any report. -/
theorem Fits.append_remarks (first : a.Fits s) (second : b.Fits s) (none : b.tokens = []) :
    (a ++ b).Fits s :=
  first.append second fun t _ u mem => by simp [none] at mem

/-- Remarks may stand in front of any report. -/
theorem Fits.remarks_append (first : a.Fits s) (second : b.Fits s) (none : a.tokens = []) :
    (a ++ b).Fits s :=
  first.append second fun t mem => by simp [none] at mem

theorem Fits.mono (within : d.Within s) (fits : r.Fits d) : r.Fits s where
  errors e mem := (fits.errors e mem).mono within
  warnings w mem := (fits.warnings w mem).mono within
  tokens t mem := (fits.tokens t mem).mono within
  apart := fits.apart

/-- A report on a piece behind all tokens so far may follow. -/
theorem Fits.append_tail (first : a.Fits s) (second : b.Fits e) (behind : e.Within s)
    (ends : ∀ t ∈ a.tokens, t.span.stop ≤ e.start) : (a ++ b).Fits s := by
  apply first.append (second.mono behind)
  intro t mem u memBehind
  have begins := (second.tokens u memBehind).bounds
  exact SemanticToken.apart_of_le (ends t mem) begins.1

/-- Reports on two pieces, one behind the other, fit together. -/
theorem Fits.append_behind (first : a.Fits d) (second : b.Fits e) (within : d.Within s)
    (behind : e.Within s) (le : d.stop ≤ e.start) : (a ++ b).Fits s :=
  (first.mono within).append_tail second behind fun t mem =>
    Nat.le_trans (first.tokens t mem).bounds.2.2 le

/-- A label changes no span. -/
theorem Fits.labelled (label : String) (fits : r.Fits s) : (r.labelled label).Fits s where
  errors e mem := by
    rcases List.mem_map.1 mem with ⟨m, found, rfl⟩
    exact fits.errors m found
  warnings w mem := by
    rcases List.mem_map.1 mem with ⟨m, found, rfl⟩
    exact fits.warnings m found
  tokens := fits.tokens
  apart := fits.apart

/-- The tokens of a report that fits a slice are ordered once they are sorted. -/
theorem Fits.sortedTokens_ordered (fits : r.Fits s) :
    r.sortedTokens.Pairwise SemanticToken.EndsBefore :=
  SemanticToken.mergeSort_ordered (fun t mem => (fits.tokens t mem).bounds.2.1) fits.apart

theorem mem_sortedTokens {t : SemanticToken} : t ∈ r.sortedTokens ↔ t ∈ r.tokens :=
  List.mem_mergeSort

end Fits

/-! ## Reports of readings from left to right -/

/-- The tokens come in order between two offsets, and all spans are covered by the
slice. -/
structure Laid (r : Report) (s : Slice) (start stop : Nat) : Prop where
  errors : ∀ e ∈ r.errors, s.Covers e.span
  warnings : ∀ w ∈ r.warnings, s.Covers w.span
  tokens : ∀ t ∈ r.tokens, s.Covers t.span ∧ start ≤ t.span.start ∧ t.span.stop ≤ stop
  ordered : r.tokens.Pairwise SemanticToken.EndsBefore
  le : start ≤ stop

section Laid

variable {a b r : Report} {d s : Slice} {span : Span} {start middle stop : Nat}

theorem Laid.fits (laid : r.Laid s start stop) : r.Fits s :=
  ⟨laid.errors, laid.warnings, fun t mem => (laid.tokens t mem).1,
    laid.ordered.imp fun ends => Or.inl ends⟩

theorem laid_empty (s : Slice) (le : start ≤ stop) : (∅ : Report).Laid s start stop :=
  ⟨nofun, nofun, nofun, .nil, le⟩

theorem laid_error (covers : s.Covers span) (message : String) (le : start ≤ stop) :
    (error span message).Laid s start stop :=
  ⟨by simpa [error] using covers, nofun, nofun, .nil, le⟩

theorem laid_token (covers : s.Covers span) (kind : Highlight) (begins : start ≤ span.start)
    (ends : span.stop ≤ stop) : (token span kind).Laid s start stop := by
  have bounds := covers.bounds
  exact ⟨nofun, nofun, by simpa [token] using ⟨covers, begins, ends⟩,
    List.pairwise_singleton .., by omega⟩

/-- Remarks alone may stand between any two offsets. -/
theorem Fits.laid_of_silent (fits : r.Fits s) (silent : r.tokens = []) (le : start ≤ stop) :
    r.Laid s start stop :=
  ⟨fits.errors, fits.warnings, by simp [silent], by simp [silent], le⟩

/-- What is read next is laid behind what was read before. -/
theorem Laid.append (first : a.Laid s start middle) (second : b.Laid s middle stop) :
    (a ++ b).Laid s start stop where
  errors e mem := (List.mem_append.1 mem).elim (first.errors e) (second.errors e)
  warnings w mem := (List.mem_append.1 mem).elim (first.warnings w) (second.warnings w)
  tokens t mem := by
    rcases List.mem_append.1 mem with mem | mem
    · obtain ⟨covers, begins, ends⟩ := first.tokens t mem
      exact ⟨covers, begins, Nat.le_trans ends second.le⟩
    · obtain ⟨covers, begins, ends⟩ := second.tokens t mem
      exact ⟨covers, Nat.le_trans first.le begins, ends⟩
  ordered := List.pairwise_append.2 ⟨first.ordered, second.ordered, fun t mem u memBehind =>
    Nat.le_trans (first.tokens t mem).2.2 (second.tokens u memBehind).2.1⟩
  le := Nat.le_trans first.le second.le

theorem Laid.mono {start' stop' : Nat} (laid : r.Laid d start stop) (within : d.Within s)
    (begins : start' ≤ start) (ends : stop ≤ stop') : r.Laid s start' stop' where
  errors e mem := (laid.errors e mem).mono within
  warnings w mem := (laid.warnings w mem).mono within
  tokens t mem := by
    obtain ⟨covers, after, before⟩ := laid.tokens t mem
    exact ⟨covers.mono within, Nat.le_trans begins after, Nat.le_trans before ends⟩
  ordered := laid.ordered
  le := Nat.le_trans begins (Nat.le_trans laid.le ends)

theorem Laid.widen {start' stop' : Nat} (laid : r.Laid s start stop) (begins : start' ≤ start)
    (ends : stop ≤ stop') : r.Laid s start' stop' :=
  laid.mono (.refl s) begins ends

end Laid

/-! ## Reports between two offsets -/

/-- The report fits the slice, and all its tokens stand between two offsets. -/
structure FitsBetween (r : Report) (s : Slice) (start stop : Nat) : Prop extends r.Fits s where
  between : ∀ t ∈ r.tokens, start ≤ t.span.start ∧ t.span.stop ≤ stop

section FitsBetween

variable {a b r : Report} {d s : Slice} {start middle stop : Nat}

theorem Fits.between_ends (fits : r.Fits d) (within : d.Within s) :
    r.FitsBetween s d.start d.stop :=
  ⟨fits.mono within, fun t mem =>
    have bounds := (fits.tokens t mem).bounds
    ⟨bounds.1, bounds.2.2⟩⟩

theorem Laid.fitsBetween (laid : r.Laid s start stop) : r.FitsBetween s start stop :=
  ⟨laid.fits, fun t mem => (laid.tokens t mem).2⟩

/-- Remarks alone may stand between any two offsets. -/
theorem Fits.between_of_silent (fits : r.Fits s) (silent : r.tokens = []) (start stop : Nat) :
    r.FitsBetween s start stop :=
  ⟨fits, by simp [silent]⟩

theorem FitsBetween.widen {start' stop' : Nat} (fits : r.FitsBetween s start stop)
    (begins : start' ≤ start) (ends : stop ≤ stop') : r.FitsBetween s start' stop' :=
  ⟨fits.toFits, fun t mem =>
    ⟨Nat.le_trans begins (fits.between t mem).1, Nat.le_trans (fits.between t mem).2 ends⟩⟩

theorem FitsBetween.append (first : a.FitsBetween s start middle)
    (second : b.FitsBetween s middle stop) (begins : start ≤ middle) (ends : middle ≤ stop) :
    (a ++ b).FitsBetween s start stop where
  toFits := first.toFits.append second.toFits fun t mem u memBehind =>
    SemanticToken.apart_of_le (first.between t mem).2 (second.between u memBehind).1
  between t mem := (List.mem_append.1 mem).elim
    ((first.widen (Nat.le_refl _) ends).between t) ((second.widen begins (Nat.le_refl _)).between t)

/-- Remarks may be added to any report. -/
theorem FitsBetween.append_remarks (first : a.FitsBetween s start stop) (second : b.Fits s)
    (silent : b.tokens = []) : (a ++ b).FitsBetween s start stop where
  toFits := first.toFits.append_remarks second silent
  between := by
    rw [append_tokens, silent, List.append_nil]
    exact first.between

/-- Remarks may stand in front of any report. -/
theorem FitsBetween.remarks_append (first : a.Fits s) (second : b.FitsBetween s start stop)
    (silent : a.tokens = []) : (a ++ b).FitsBetween s start stop where
  toFits := first.remarks_append second.toFits silent
  between := by
    rw [append_tokens, silent, List.nil_append]
    exact second.between

end FitsBetween

/-! ## Reports that stay inside a slice -/

/-- All spans are covered by the slice; the tokens may overlap. -/
structure Inside (r : Report) (s : Slice) : Prop where
  errors : ∀ e ∈ r.errors, s.Covers e.span
  warnings : ∀ w ∈ r.warnings, s.Covers w.span
  tokens : ∀ t ∈ r.tokens, s.Covers t.span

section Inside

variable {a b r : Report} {d s : Slice} {span : Span}

theorem Fits.inside (fits : r.Fits s) : r.Inside s :=
  ⟨fits.errors, fits.warnings, fits.tokens⟩

theorem inside_empty (s : Slice) : (∅ : Report).Inside s :=
  (fits_empty s).inside

theorem Inside.append (first : a.Inside s) (second : b.Inside s) : (a ++ b).Inside s where
  errors e mem := (List.mem_append.1 mem).elim (first.errors e) (second.errors e)
  warnings w mem := (List.mem_append.1 mem).elim (first.warnings w) (second.warnings w)
  tokens t mem := (List.mem_append.1 mem).elim (first.tokens t) (second.tokens t)

theorem Inside.mono (inside : r.Inside d) (within : d.Within s) : r.Inside s where
  errors e mem := (inside.errors e mem).mono within
  warnings w mem := (inside.warnings w mem).mono within
  tokens t mem := (inside.tokens t mem).mono within

end Inside

end Report

/-! ## Readings that report -/

/-- A label adds no errors and drops none. -/
@[simp] theorem Report.labelled_errors_eq_nil {label : String} {r : Report} :
    (r.labelled label).errors = [] ↔ r.errors = [] := by
  simp [Report.labelled]

namespace Reported

@[simp] theorem report_error (span : Span) (message : String) :
    (error span message).report = .error span message :=
  rfl

@[simp] theorem report_warning (span : Span) (message : String) :
    (warning span message).report = .warning span message :=
  rfl

@[simp] theorem report_token (span : Span) (kind : Highlight) :
    (token span kind).report = .token span kind :=
  rfl

@[simp] theorem report_map {α β : Type} (f : α → β) (x : Reported α) :
    (f <$> x).report = x.report := by
  rw [map_eq_pure_bind, report_bind, report_pure, Report.append_empty]

@[simp] theorem report_labelled {α : Type} (label : String) (x : Reported α) :
    (x.labelled label).report = x.report.labelled label :=
  rfl

@[simp] theorem value_labelled {α : Type} (label : String) (x : Reported α) :
    (x.labelled label).value = x.value :=
  rfl

/-- What follows a reading adds its report. -/
theorem bind_mk {α β : Type} (a : α) (report : Report) (f : α → Reported β) :
    (⟨a, report⟩ >>= f : Reported β) = ⟨(f a).value, report ++ (f a).report⟩ :=
  rfl

variable {s : Slice} {span : Span}

theorem errorIf_tokens (condition : Bool) (span : Span) (message : String) :
    (errorIf condition span message).report.tokens = [] := by
  cases condition <;> rfl

theorem errorIf_errors (condition : Bool) (span : Span) (message : String) :
    (errorIf condition span message).report.errors =
      if condition then [⟨span, message⟩] else [] := by
  cases condition <;> rfl

theorem errorIf_warnings (condition : Bool) (span : Span) (message : String) :
    (errorIf condition span message).report.warnings = [] := by
  cases condition <;> rfl

theorem fits_errorIf (condition : Bool) (covers : s.Covers span) (message : String) :
    (errorIf condition span message).report.Fits s := by
  cases condition
  · exact Report.fits_empty s
  · exact Report.fits_error covers message

theorem laid_errorIf {start stop : Nat} (condition : Bool) (covers : s.Covers span)
    (message : String) (le : start ≤ stop) :
    (errorIf condition span message).report.Laid s start stop := by
  cases condition
  · exact Report.laid_empty s le
  · exact Report.laid_error covers message le

/-- If every element of a list is read into remarks only, so is the list. -/
theorem each_tokens {α : Type} {f : α → Reported Unit} {as : List α}
    (none : ∀ a ∈ as, (f a).report.tokens = []) : (each f as).report.tokens = [] := by
  induction as with
  | nil => rfl
  | cons a as ih =>
    show (f a).report.tokens ++ (each f as).report.tokens = []
    rw [none a (List.mem_cons_self ..), ih fun b mem => none b (List.mem_cons_of_mem _ mem),
      List.append_nil]

/-- Whatever is said of the elements of a list is covered if it is for each of them. -/
theorem each_covered {α : Type} {f : α → Reported Unit} {as : List α}
    (fits : ∀ a ∈ as, (f a).report.Fits s) :
    (∀ e ∈ (each f as).report.errors, s.Covers e.span) ∧
      (∀ w ∈ (each f as).report.warnings, s.Covers w.span) ∧
        ∀ t ∈ (each f as).report.tokens, s.Covers t.span := by
  induction as with
  | nil => exact ⟨nofun, nofun, nofun⟩
  | cons a as ih =>
    have first := fits a (List.mem_cons_self ..)
    obtain ⟨errors, warnings, tokens⟩ := ih fun b mem => fits b (List.mem_cons_of_mem _ mem)
    refine ⟨?_, ?_, ?_⟩
    · exact fun e mem => (List.mem_append.1 mem).elim (first.errors e) (errors e)
    · exact fun w mem => (List.mem_append.1 mem).elim (first.warnings w) (warnings w)
    · exact fun t mem => (List.mem_append.1 mem).elim (first.tokens t) (tokens t)

/-- What is said of the elements of a list fits if it does for each of them and no text
is highlighted. -/
theorem fits_each_of_silent {α : Type} {f : α → Reported Unit} {as : List α}
    (fits : ∀ a ∈ as, (f a).report.Fits s) (silent : (each f as).report.tokens = []) :
    (each f as).report.Fits s := by
  obtain ⟨errors, warnings, tokens⟩ := each_covered fits
  refine ⟨errors, warnings, tokens, ?_⟩
  rw [silent]
  exact .nil

theorem each_cons {α : Type} (f : α → Reported Unit) (a : α) (as : List α) :
    (each f (a :: as)).report = (f a).report ++ (each f as).report :=
  rfl

/-- What is said of the elements of a list, in their order. -/
theorem report_each {α : Type} (f : α → Reported Unit) (as : List α) :
    (each f as).report = ⟨as.flatMap fun a => (f a).report.errors,
      as.flatMap fun a => (f a).report.warnings, as.flatMap fun a => (f a).report.tokens⟩ := by
  induction as with
  | nil => rfl
  | cons a as ih =>
    rw [each_cons, ih]
    rfl

end Reported

/-! ## Properties of joined reports -/

namespace Report

/-- A property of the empty report, and of one report after another if both have it. -/
structure Additive (P : Report → Prop) : Prop where
  empty : P ∅
  append {a b : Report} (first : P a) (second : P b) : P (a ++ b)

/-- The readings of the elements of a list have the property if each of them has. -/
theorem Additive.each {P : Report → Prop} (additive : Additive P) {α : Type}
    {f : α → Reported Unit} {as : List α} (all : ∀ a ∈ as, P (f a).report) :
    P (Reported.each f as).report := by
  induction as with
  | nil => exact additive.empty
  | cons a as ih =>
    obtain ⟨first, later⟩ := List.forall_mem_cons.1 all
    exact additive.append first (ih later)

end Report

end CommandScript
