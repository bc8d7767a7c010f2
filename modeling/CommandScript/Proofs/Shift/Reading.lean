import CommandScript.Proofs.Report
import CommandScript.Proofs.Shift.Slice

/-!
Readings of the same text further on in a line.

A reading is the shift of another if it yields the same value shifted and reports the same,
with every span shifted (`Reported.Shifted`). A step with a cursor is if that holds from every
cursor and the shifted one (`Reading.Shifted`). Both relations are kept by `bind`, so a reader is
compared with itself one step at a time. What a step shows of a cursor is a value of its own,
and the steps after it are compared at that value and at the shifted one.
-/

namespace CommandScript

namespace Report

variable (k : Nat)

theorem shift_append (a b : Report) : (a ++ b).shift k = a.shift k ++ b.shift k := by
  show Report.mk _ _ _ = Report.mk _ _ _
  simp only [append_errors, append_warnings, append_tokens, List.map_append]
  rfl

theorem error_shift (s : Slice) (message : String) :
    error (s.shift k).span message = (error s.span message).shift k := by
  rw [Slice.span_shift]
  rfl

theorem token_shift (s : Slice) (kind : Highlight) :
    token (s.shift k).span kind = (token s.span kind).shift k := by
  rw [Slice.span_shift]
  rfl

end Report

/-! ## Readings without a cursor -/

namespace Reported

variable {α β γ δ : Type}

/-- The second reading is the first one further on. -/
def Shifted (k : Nat) (move : α → β) (x : Reported α) (y : Reported β) : Prop :=
  y = ⟨move x.value, x.report.shift k⟩

variable {k : Nat} {move : α → β} {moveNext : γ → δ} {x x' : Reported α} {y y' : Reported β}

theorem shifted_pure {a : α} : Shifted k move (Pure.pure a) (Pure.pure (move a)) :=
  rfl

/-- One reading after the other. -/
theorem Shifted.bind {f : α → Reported γ} {g : β → Reported δ} (first : Shifted k move x y)
    (next : ∀ a, Shifted k moveNext (f a) (g (move a))) :
    Shifted k moveNext (x >>= f) (y >>= g) := by
  have later := next x.value
  subst first
  show Reported.mk (g (move x.value)).value (x.report.shift k ++ (g (move x.value)).report) = _
  rw [later, report_bind, Report.shift_append]
  rfl

/-- What a reading yields may be left aside. -/
theorem Shifted.ignored (shifted : Shifted k move x y) :
    Shifted k id (x >>= fun _ => Pure.pure ()) (y >>= fun _ => Pure.pure ()) :=
  shifted.bind fun _ => shifted_pure

theorem shifted_ite {p : Prop} [Decidable p] (yes : Shifted k move x y)
    (no : Shifted k move x' y') : Shifted k move (if p then x else x') (if p then y else y') := by
  split
  · exact yes
  · exact no

theorem shifted_error {s : Slice} {message : String} :
    Shifted k id (error s.span message) (error (s.shift k).span message) :=
  congrArg (Reported.mk ()) (Report.error_shift ..)

theorem shifted_token {s : Slice} {kind : Highlight} :
    Shifted k id (token s.span kind) (token (s.shift k).span kind) :=
  congrArg (Reported.mk ()) (Report.token_shift ..)

theorem shifted_warning {s : Slice} {message : String} :
    Shifted k id (warning s.span message) (warning (s.shift k).span message) := by
  rw [Slice.span_shift]
  rfl

/-- Messages may be labelled before or after. -/
theorem Shifted.labelled (shifted : Shifted k move x y) (label : String) :
    Shifted k move (x.labelled label) (y.labelled label) := by
  subst shifted
  simp only [Shifted, Reported.labelled, Report.labelled, Report.shift, List.map_map]
  rfl

/-- Further on there is an error where there was one. -/
theorem Shifted.success (shifted : Shifted k move x y) :
    y.report.success = x.report.success := by
  subst shifted
  exact List.isEmpty_map

/-- Further on there are as many errors and warnings. -/
theorem Shifted.counts (shifted : Shifted k move x y) :
    y.report.errors.length = x.report.errors.length ∧
      y.report.warnings.length = x.report.warnings.length := by
  subst shifted
  exact ⟨List.length_map .., List.length_map ..⟩

theorem shifted_errorIf {condition : Bool} {s : Slice} {message : String} :
    Shifted k id (errorIf condition s.span message) (errorIf condition (s.shift k).span message) :=
  shifted_ite shifted_error shifted_pure

/-- Readings of the elements of a list. -/
theorem shifted_each (move : α → β) {f : α → Reported Unit} {g : β → Reported Unit}
    (each : ∀ a, Shifted k id (f a) (g (move a))) (as : List α) :
    Shifted k id (Reported.each f as) (Reported.each g (as.map move)) := by
  induction as with
  | nil => exact shifted_pure
  | cons a as ih => exact (each a).bind fun _ => ih

end Reported

/-! ## Readings with a cursor -/

namespace Cursor

theorem expect_shifted {k : Nat} {ch : Char} {kind : Option Highlight} {c : Cursor} :
    Reported.Shifted k (Prod.map id (shift k)) (c.expect ch kind) ((c.shift k).expect ch kind) := by
  unfold expect
  refine Reported.shifted_ite ?_ (Reported.shifted_ite ?_ ?_)
  · rw [advance_shift]
    cases kind with
    | none => exact Reported.shifted_pure
    | some kind => exact Reported.shifted_token.bind fun _ => Reported.shifted_pure
  · exact Reported.shifted_error.bind fun _ => Reported.shifted_pure
  · exact Reported.shifted_error.bind fun _ => Reported.shifted_pure

theorem readQuoted_shifted {k : Nat} {c : Cursor} :
    Reported.Shifted k (Prod.map (Option.map (Slice.shift k)) (shift k)) c.readQuoted
      (c.shift k).readQuoted := by
  have sameText : (c.shift k).rest.text = c.rest.text := rfl
  unfold readQuoted
  rw [sameText]
  split
  · exact Reported.shifted_pure
  · rename_i quote cs _
    have inside : (c.shift k).seek ((c.shift k).rest.drop (1 + (splitQuoted quote cs).1.length)) =
        (c.seek (c.rest.drop (1 + (splitQuoted quote cs).1.length))).shift k := by
      rw [rest_shift, Slice.drop_shift, seek_shift]
    dsimp only
    rw [inside]
    refine expect_shifted.bind fun found => ?_
    rcases found with ⟨closed, after⟩
    cases closed <;> exact Reported.shifted_pure

end Cursor

namespace Reading

variable {α β γ δ : Type}

/-- From the cursor further on, the second step does what the first one does. -/
def Shifted (k : Nat) (move : α → β) (x : Reading α) (y : Reading β) : Prop :=
  ∀ c : Cursor,
    Reported.Shifted k (Option.map (Prod.map move (Cursor.shift k))) (x c) (y (c.shift k))

variable {k : Nat} {move : α → β} {moveNext : γ → δ} {x x' : Reading α} {y y' : Reading β}

theorem shifted_pure {a : α} : Shifted k move (Pure.pure a) (Pure.pure (move a)) :=
  fun _ => Reported.shifted_pure

/-- One step after the other. -/
theorem Shifted.bind {f : α → Reading γ} {g : β → Reading δ} (first : Shifted k move x y)
    (next : ∀ a, Shifted k moveNext (f a) (g (move a))) :
    Shifted k moveNext (x >>= f) (y >>= g) := by
  intro c
  rw [run_bind, run_bind]
  refine (first c).bind fun outcome => ?_
  cases outcome with
  | none => exact Reported.shifted_pure
  | some found => exact next found.1 found.2

theorem shifted_ite {p : Prop} [Decidable p] (yes : Shifted k move x y)
    (no : Shifted k move x' y') : Shifted k move (if p then x else x') (if p then y else y') := by
  split
  · exact yes
  · exact no

/-- What is seen of a cursor and of the one further on may depend on the text only, or be shifted
as well. -/
theorem shifted_look {f : Cursor → α} {g : Cursor → β} (same : ∀ c, g (c.shift k) = move (f c)) :
    Shifted k move (look f) (look g) := by
  intro c
  rw [look, look, same]
  exact Reported.shifted_pure

theorem shifted_move {f : Cursor → α × Cursor} {g : Cursor → β × Cursor}
    (same : ∀ c, g (c.shift k) = Prod.map move (Cursor.shift k) (f c)) :
    Shifted k move (Reading.move f) (Reading.move g) := by
  intro c
  rw [Reading.move, Reading.move, same]
  exact Reported.shifted_pure

theorem shifted_report {x : Reported α} {y : Reported β} (shifted : Reported.Shifted k move x y) :
    Shifted k move (report x) (report y) :=
  fun _ => shifted.bind fun _ => Reported.shifted_pure

theorem shifted_error {s : Slice} {message : String} :
    Shifted k id (error s.span message) (error (s.shift k).span message) :=
  shifted_report Reported.shifted_error

theorem shifted_token {s : Slice} {kind : Highlight} :
    Shifted k id (token s.span kind) (token (s.shift k).span kind) :=
  shifted_report Reported.shifted_token

theorem shifted_fail {s : Slice} {message : String} :
    Shifted k move (fail s.span message) (fail (s.shift k).span message) :=
  fun _ => Reported.shifted_error.bind fun _ => Reported.shifted_pure

theorem shifted_expectedValue : Shifted k move expectedValue expectedValue :=
  fun _ => Reported.shifted_error.bind fun _ => Reported.shifted_pure

theorem shifted_current? : Shifted k id current? current? :=
  shifted_look fun _ => rfl

theorem shifted_advance : Shifted k id advance advance :=
  shifted_move fun c => by rw [Cursor.advance_shift]; rfl

theorem shifted_advanceOver {kind : Highlight} :
    Shifted k id (advanceOver kind) (advanceOver kind) := by
  intro c
  refine Reported.shifted_token.bind fun _ => ?_
  rw [Cursor.advance_shift]
  exact Reported.shifted_pure

theorem shifted_skipBlanks : Shifted k id skipBlanks skipBlanks :=
  shifted_move fun c => by rw [Cursor.skipBlanks_shift]; rfl

theorem shifted_readWhile {p : Char → Bool} :
    Shifted k (Slice.shift k) (readWhile p) (readWhile p) :=
  shifted_move fun _ => Cursor.readWhile_shift ..

theorem shifted_readUnquoted : Shifted k (Slice.shift k) readUnquoted readUnquoted :=
  shifted_move fun _ => Cursor.readWhile_shift ..

theorem shifted_expect {ch : Char} {kind : Option Highlight} :
    Shifted k id (expect ch kind) (expect ch kind) := by
  intro c
  refine Cursor.expect_shifted.bind fun found => ?_
  rcases found with ⟨found, after⟩
  cases found <;> exact Reported.shifted_pure

theorem shifted_readQuoted : Shifted k (Slice.shift k) readQuoted readQuoted := by
  intro c
  refine Cursor.readQuoted_shifted.bind fun found => ?_
  rcases found with ⟨found, after⟩
  cases found <;> exact Reported.shifted_pure

theorem shifted_passComma : Shifted k id passComma passComma :=
  shifted_skipBlanks.bind fun _ => shifted_current?.bind fun _ => shifted_ite
    (shifted_advance.bind fun _ => shifted_skipBlanks.bind fun _ => shifted_pure)
    shifted_pure

end Reading

end CommandScript
