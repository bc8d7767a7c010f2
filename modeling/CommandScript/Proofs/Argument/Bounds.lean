import CommandScript.Json.Numeral
import CommandScript.Kind.Builtin
import CommandScript.Proofs.Argument.Word
import CommandScript.Proofs.Number.Range
import CommandScript.Proofs.Number.Rounding

/-!
Integers between bounds.

An integer argument compares its value with its bounds as floats. The value and a bound that is a
JSON integer (`Numeral.IsInteger`) both become the float of what they are rounded to, so of two
integers beyond 53 bits the greater one may pass for the smaller one's equal, but never the other
way round (`Argument.read_integer_rounded`).
-/

namespace CommandScript

open Binary64

/-! ## Integers in JSON -/

namespace Numeral

/-- The numeral is that of an integer, with neither point nor exponent nor needless zeros. -/
structure IsInteger (numeral : Numeral) (i : Int) : Prop where
  plain : numeral.isInteger = true
  digits : Decimal.AreDigits numeral.whole
  shortest : numeral.whole.head? = some '0' → numeral.whole = ['0']
  noFraction : numeral.fraction = []
  noExponent : numeral.exponent = 0
  value : i = if numeral.negative then -(Decimal.ofDigits numeral.whole : Int)
    else Decimal.ofDigits numeral.whole

/-- Digits do not make a number smaller. -/
theorem le_foldl_digits (cs : List Char) (n : Nat) :
    n ≤ cs.foldl (fun n c => 10 * n + (c.toNat - '0'.toNat)) n := by
  induction cs generalizing n with
  | nil => exact Nat.le_refl n
  | cons c cs ih =>
    calc n ≤ 10 * n + (c.toNat - '0'.toNat) := by omega
      _ ≤ _ := ih _

/-- What has the value zero begins with a zero. -/
theorem head_of_ofDigits_zero {cs : List Char} (digits : Decimal.AreDigits cs)
    (zero : Decimal.ofDigits cs = 0) : cs.head? = some '0' := by
  obtain ⟨nonempty, areDigits⟩ := digits
  obtain ⟨c, rest, rfl⟩ := List.exists_cons_of_ne_nil nonempty
  have isDigit := areDigits c (List.mem_cons_self ..)
  have least := le_foldl_digits rest (10 * 0 + (c.toNat - '0'.toNat))
  rw [Decimal.ofDigits, List.foldl_cons] at zero
  have code : c.toNat = '0'.toNat := by
    simp only [Charset.isDigit, Bool.and_eq_true, decide_eq_true_eq] at isDigit
    have low : '0'.toNat ≤ c.toNat := isDigit.1
    omega
  rw [List.head?_cons, Char.toNat_inj.1 code]

theorem float?_zero {numeral : Numeral} (zero : numeral.whole = ['0'])
    (noFraction : numeral.fraction = []) (noExponent : numeral.exponent = 0)
    (negative : numeral.negative = true) : numeral.float? = some (ofInt (0 : Nat)).neg := by
  have scaled : scale? 0 0 = some (ofInt (0 : Nat)) := by
    unfold scale?
    rw [if_neg (by decide), if_pos rfl]
  have taken : takeWhole 0 ['0'] = (0, 0) := by decide +kernel
  have nothing : takeFraction 0 [] = (0, 0) := rfl
  have exponent : numeral.exponent + (0 : Nat) - (0 : Nat) = 0 := by omega
  unfold float?
  rw [zero, taken, noFraction, negative]
  dsimp only
  rw [nothing]
  dsimp only
  rw [exponent, scaled, Option.map_some, if_pos rfl]

/-- Minus zero is the one integer that is read as a float. -/
theorem IsInteger.value?_zero {numeral : Numeral} (isInteger : numeral.IsInteger 0)
    (negative : numeral.negative = true) :
    numeral.value? = some (.float (ofInt (0 : Nat)).neg) := by
  obtain ⟨plain, digits, shortest, noFraction, noExponent, value⟩ := isInteger
  rw [negative, if_pos rfl] at value
  have zero : Decimal.ofDigits numeral.whole = 0 := by omega
  have digit := shortest (head_of_ofDigits_zero digits zero)
  have float := float?_zero digit noFraction noExponent negative
  unfold value?
  rw [plain, negative, zero, float]
  rfl

end Numeral

theorem Binary64.IsValue.neg {x : Binary64} {i : Int} (isX : IsValue x i) : IsValue x.neg (-i) := by
  obtain ⟨s, units, rfl, value⟩ := isX
  refine ⟨!s, units, rfl, ?_⟩
  rw [Int.neg_mul, ← value]
  cases s <;> simp [signedUnits]

/-- A JSON integer of 64 bits becomes the float of what it is rounded to. -/
theorem Numeral.IsInteger.toFloat {numeral : Numeral} {i : Int} (isInteger : numeral.IsInteger i)
    (low : -Nat.pow 2 63 ≤ i) (high : i < Nat.pow 2 63) :
    ∃ number, numeral.value? = some number ∧ IsValue number.toFloat (nearest i) := by
  have bits : Nat.pow 2 63 + Nat.pow 2 63 = maxSignificand + 1 := by decide +kernel
  have wide : Nat.pow 2 64 = maxSignificand + 1 := by decide +kernel
  have small : i.natAbs ≤ Nat.pow 2 64 := by
    rw [wide]
    omega
  have rounded := ofInt_isValue small
  have plain := isInteger.plain
  have value := isInteger.value
  cases sign : numeral.negative with
  | false =>
    rw [sign, if_neg Bool.false_ne_true] at value
    have fits : Decimal.ofDigits numeral.whole ≤ maxSignificand := by omega
    refine ⟨.natural (Decimal.ofDigits numeral.whole), ?_, ?_⟩
    · unfold value?
      rw [plain, sign, if_pos (by simp [fits])]
    · rw [value] at rounded ⊢
      exact rounded
  | true =>
    rw [sign, if_pos rfl] at value
    rcases Nat.eq_zero_or_pos (Decimal.ofDigits numeral.whole) with zero | positive
    · obtain rfl : i = (0 : Nat) := by omega
      have whole : nearest (0 : Nat) = -nearest (0 : Nat) := by
        rw [nearest_of_le (Nat.zero_le _)]
        rfl
      refine ⟨.float (ofInt (0 : Nat)).neg, isInteger.value?_zero sign, ?_⟩
      rw [whole]
      exact rounded.neg
    · have fits : Decimal.ofDigits numeral.whole ≤ Nat.pow 2 63 := by omega
      refine ⟨.negative (-Decimal.ofDigits numeral.whole), ?_, ?_⟩
      · unfold value?
        rw [plain, sign, if_neg (by simp), if_pos (by simp [positive, fits])]
      · rw [value] at rounded ⊢
        exact rounded

theorem Decimal.IsInteger.small {text : List Char} {i : Int} (isInteger : IsInteger text i) :
    i.natAbs ≤ Nat.pow 2 64 := by
  have wide : Nat.pow 2 63 ≤ Nat.pow 2 64 := pow_mono (by decide)
  cases isInteger with
  | plain _ high => omega
  | plus _ high => omega
  | minus _ low => omega

/-- A property sets a bound to an integer of 64 bits, or sets none. -/
def SetsInteger (properties : Properties) (key : String) : Option Int → Prop
  | none => properties.lookup key = none
  | some i => -Nat.pow 2 63 ≤ i ∧ i < Nat.pow 2 63 ∧
    ∃ numeral : Numeral, numeral.IsInteger i ∧
      properties.lookup key = some (.number numeral.value?)

/-- The bound that is set is the float of what the integer is rounded to. -/
theorem SetsInteger.bound {properties : Properties} {key : String} {bound : Option Int}
    (sets : SetsInteger properties key bound) :
    Option.Rel (fun x i => IsValue x (nearest i)) (BuiltinKind.numberProperty? properties key)
      bound := by
  cases bound with
  | none =>
    have unset : properties.lookup key = none := sets
    rw [BuiltinKind.numberProperty?, unset]
    exact .none
  | some i =>
    obtain ⟨low, high, numeral, isInteger, set⟩ := sets
    obtain ⟨number, value, isValue⟩ := isInteger.toFloat low high
    rw [BuiltinKind.numberProperty?, set, value]
    exact .some isValue

/-! ## Violations -/

/-- The span once for every bound that a value violates, the lower one first. -/
def violations {α : Type} (less : α → α → Bool) (value : α) (min max : Option α) (span : Span) :
    List Span :=
  ((min.filter fun bound => less value bound).toList ++
    (max.filter fun bound => less bound value).toList).map fun _ => span

theorem filter_spans {α : Type} (p : α → Bool) (bound : α) (span : Span) :
    ((some bound).filter p).toList.map (fun _ => span) = if p bound then [span] else [] := by
  rw [Option.filter_some]
  cases p bound <;> rfl

/-- Whether a bound is violated is all that counts. -/
theorem violations_congr {α β : Type} {R : α → β → Prop} {less : α → α → Bool}
    {lessToo : β → β → Bool} {x : α} {y : β} {min max : Option α} {minToo maxToo : Option β}
    (sameMin : Option.Rel R min minToo) (sameMax : Option.Rel R max maxToo)
    (below : ∀ a b, R a b → less x a = lessToo y b)
    (above : ∀ a b, R a b → less a x = lessToo b y) (span : Span) :
    violations less x min max span = violations lessToo y minToo maxToo span := by
  have single : ∀ {bound : Option α} {other : Option β} {p : α → Bool} {q : β → Bool},
      Option.Rel R bound other → (∀ a b, R a b → p a = q b) →
        (bound.filter p).toList.map (fun _ => span) =
          (other.filter q).toList.map fun _ => span := by
    intro bound other p q related same
    cases related with
    | none => rfl
    | @some a b related => rw [filter_spans, filter_spans, same a b related]
  rw [violations, violations, List.map_append, List.map_append, single sameMin below,
    single sameMax above]

/-- A label moves nothing. -/
theorem Report.labelled_spans (label : String) (report : Report) :
    (report.labelled label).errors.map Remark.span = report.errors.map Remark.span := by
  rw [labelled, List.map_map]
  rfl

theorem Reported.errorIf_spans (condition : Bool) (span : Span) (message : String) :
    (errorIf condition span message).report.errors.map Remark.span =
      if condition then [span] else [] := by
  rw [errorIf_errors]
  cases condition <;> rfl

namespace NumberSpec

/-- There is one error for every bound that is violated, about the whole number. -/
theorem checkBounds_spans (spec : NumberSpec) (s : Slice) (value : Binary64) :
    (spec.checkBounds s value).report.errors.map Remark.span =
        violations Binary64.lt value spec.min spec.max s.span ∧
      (spec.checkBounds s value).report.warnings = [] := by
  unfold checkBounds violations
  rw [List.map_append]
  cases spec.min with
  | none =>
    cases spec.max with
    | none => exact ⟨rfl, rfl⟩
    | some max =>
      rw [filter_spans]
      exact ⟨Reported.errorIf_spans .., Reported.errorIf_warnings ..⟩
  | some min =>
    rw [filter_spans, Reported.report_bind, Report.append_errors, Report.append_warnings,
      Reported.errorIf_warnings, List.map_append, Reported.errorIf_spans]
    cases spec.max with
    | none => exact ⟨rfl, rfl⟩
    | some max =>
      rw [filter_spans]
      exact ⟨congrArg _ (Reported.errorIf_spans ..), Reported.errorIf_warnings ..⟩

/-- A number that can be read is highlighted, and judged by its bounds. -/
theorem read_spans {spec : NumberSpec} {s : Slice} {value : Binary64}
    (read : spec.form.read? s.text = some value) :
    (spec.read s).report.errors.map Remark.span =
        violations Binary64.lt value spec.min spec.max s.span ∧
      (spec.read s).report.warnings = [] ∧ (spec.read s).report.tokens = [⟨s.span, .number⟩] := by
  obtain ⟨spans, silent⟩ := spec.checkBounds_spans s value
  unfold NumberSpec.read
  rw [read]
  simp only [Reported.report_bind, Reported.report_pure, Report.append_empty]
  refine ⟨spans, silent, ?_⟩
  rw [Report.append_tokens, checkBounds_tokens]
  rfl

end NumberSpec

namespace Argument

section Integers

variable {kind : BuiltinKind} {properties : Properties} {min max : Option Int}
  {reader : TokenReader} {word : Slice} {v : Int}

theorem violations_eq_nil_iff {less : Int → Int → Bool} {span : Span} :
    violations less v min max span = [] ↔
      (∀ bound ∈ min, less v bound = false) ∧ ∀ bound ∈ max, less bound v = false := by
  cases min <;> cases max <;> simp [violations, Option.filter_some]

/-- What is said of an integer goes by what it and its bounds are rounded to. -/
theorem read_integer_spans (isInteger : kind = .integer ∨ kind = .long)
    (setsMin : SetsInteger properties "min" min) (setsMax : SetsInteger properties "max" max)
    (registries : Registries) (found : reader.currentWord? = some word)
    (written : Decimal.IsInteger word.text v) :
    let report := ((kind.kind.build properties).read registries reader).report
    report.errors.map Remark.span =
        violations (fun i j => nearest i < nearest j) v min max word.span ∧
      report.warnings = [] ∧ report.tokens = [⟨word.span, .number⟩] := by
  let spec := numberSpec .integer (BuiltinKind.numberProperty? properties "min")
    (BuiltinKind.numberProperty? properties "max")
  have read : spec.form.read? word.text = some (ofInt v) :=
    congrArg (Option.map ofInt) (Decimal.readInteger?_eq_some.2 written)
  have said : ((kind.kind.build properties).read registries reader).report =
      Report.labelled (numberLabel .integer) (spec.read word).report := by
    have number : ((kind.kind.build properties).read registries reader).report =
        (readNumber .integer (BuiltinKind.numberProperty? properties "min")
          (BuiltinKind.numberProperty? properties "max") reader).report := by
      rcases isInteger with rfl | rfl <;> rfl
    rw [number, readNumber, readWord_report _ _ found, Reported.report_labelled,
      Reported.report_bind, Reported.report_pure, Report.append_empty]
  have isValue : IsValue (ofInt v) (nearest v) := ofInt_isValue written.small
  obtain ⟨spans, silent, tokens⟩ := NumberSpec.read_spans read
  dsimp only
  rw [said]
  refine ⟨?_, ?_, tokens⟩
  · rw [Report.labelled_spans, spans]
    exact violations_congr setsMin.bound setsMax.bound
      (fun x i isBound => isValue.lt_eq isBound) (fun x i isBound => isBound.lt_eq isValue) _
  · rw [Report.labelled, silent]
    rfl

end Integers

/-- An integer argument compares the integer that it reads with its bounds after all of them are
rounded to 53 significant bits. It reports one error about the word for every bound that is
violated then, and highlights the word once in any case. No bound is violated that holds of the
integers themselves, and up to 53 bits of the value those are violated that do not. -/
theorem read_integer_rounded {kind : BuiltinKind} (isInteger : kind = .integer ∨ kind = .long)
    {properties : Properties} {min max : Option Int}
    (setsMin : SetsInteger properties "min" min) (setsMax : SetsInteger properties "max" max)
    (registries : Registries) {reader : TokenReader} {word : Slice}
    (found : reader.currentWord? = some word) {v : Int}
    (written : Decimal.IsInteger word.text v) :
    let report := ((kind.kind.build properties).read registries reader).report
    (∀ i, IsNearest i (nearest i)) ∧
    report.errors.map Remark.span =
      violations (fun i j => nearest i < nearest j) v min max word.span ∧
    (report.errors = [] ↔ (∀ bound ∈ min, nearest bound ≤ nearest v) ∧
      ∀ bound ∈ max, nearest v ≤ nearest bound) ∧
    ((∀ bound ∈ min, bound ≤ v) → (∀ bound ∈ max, v ≤ bound) → report.errors = []) ∧
    (v.natAbs < Nat.pow 2 53 →
      report.errors.map Remark.span = violations (fun i j => i < j) v min max word.span) ∧
    report.warnings = [] ∧ report.tokens = [⟨word.span, .number⟩] := by
  intro report
  obtain ⟨spans, silent, tokens⟩ :=
    read_integer_spans isInteger setsMin setsMax registries found written
  have errors_iff : report.errors = [] ↔ (∀ bound ∈ min, nearest bound ≤ nearest v) ∧
      ∀ bound ∈ max, nearest v ≤ nearest bound := by
    rw [← List.map_eq_nil_iff, spans, violations_eq_nil_iff]
    simp only [decide_eq_false_iff_not, Int.not_lt]
  refine ⟨isNearest_nearest, spans, errors_iff, fun low high => ?_, fun small => ?_, silent,
    tokens⟩
  · refine errors_iff.2 ⟨fun bound mem => ?_, fun bound mem => ?_⟩
    · exact nearest_mono (low bound mem)
    · exact nearest_mono (high bound mem)
  · have below : ∀ bound, (nearest v < nearest bound ↔ v < bound) :=
      fun bound => nearest_lt_iff (Or.inl small)
    have above : ∀ bound, (nearest bound < nearest v ↔ bound < v) :=
      fun bound => nearest_lt_iff (Or.inr small)
    rw [spans]
    simp only [violations, below, above]

/-- The least integer as lower bound, and an upper bound of 54 bits that is violated. -/
theorem read_integer_rounded_long :
    let low : Numeral := ⟨true, "9223372036854775808".toList, [], 0, true⟩
    let high : Numeral := ⟨false, "9007199254740993".toList, [], 0, true⟩
    let properties : Properties := [("min", .number low.value?), ("max", .number high.value?)]
    let text := "9007199254740995".toList
    let reader := TokenReader.ofLine text
    SetsInteger properties "min" (some (-9223372036854775808)) ∧
      SetsInteger properties "max" (some 9007199254740993) ∧
      reader.currentWord? = some ⟨text, 0⟩ ∧ Decimal.IsInteger text 9007199254740995 ∧
      ((BuiltinKind.long.kind.build properties).read .empty reader).report.errors.map
        Remark.span = [⟨0, 16⟩] ∧
      ((BuiltinKind.long.kind.build properties).read .empty reader).report.tokens =
        [⟨⟨0, 16⟩, .number⟩] := by
  intro low high properties text reader
  have isLow : low.IsInteger (-9223372036854775808) :=
    ⟨rfl, Decimal.isDigits_iff.1 (by decide +kernel), by decide, rfl, rfl, by decide +kernel⟩
  have isHigh : high.IsInteger 9007199254740993 :=
    ⟨rfl, Decimal.isDigits_iff.1 (by decide +kernel), by decide, rfl, rfl, by decide +kernel⟩
  have setsMin : SetsInteger properties "min" (some (-9223372036854775808)) :=
    ⟨by decide +kernel, by decide +kernel, low, isLow, rfl⟩
  have setsMax : SetsInteger properties "max" (some 9007199254740993) :=
    ⟨by decide +kernel, by decide +kernel, high, isHigh, rfl⟩
  have found : reader.currentWord? = some ⟨text, 0⟩ := by decide +kernel
  have written : Decimal.IsInteger text 9007199254740995 :=
    Decimal.readInteger?_eq_some.1 (by decide +kernel)
  obtain ⟨-, spans, -, -, -, -, tokens⟩ :=
    read_integer_rounded (Or.inr rfl) setsMin setsMax .empty found written
  refine ⟨setsMin, setsMax, found, written, spans.trans ?_, tokens⟩
  decide +kernel

/-- The first integer of 54 bits that is not even passes for the power of two in front of it, and
so for an integer up to that bound. -/
theorem read_integer_inexact :
    let high : Numeral := ⟨false, "9007199254740992".toList, [], 0, true⟩
    let properties : Properties := [("max", .number high.value?)]
    let text := "9007199254740993".toList
    SetsInteger properties "min" none ∧
      SetsInteger properties "max" (some 9007199254740992) ∧
      Decimal.IsInteger text 9007199254740993 ∧
      ((BuiltinKind.long.kind.build properties).read .empty
        (TokenReader.ofLine text)).report.errors = [] ∧
      ¬(9007199254740993 : Int) ≤ 9007199254740992 := by
  intro high properties text
  have isHigh : high.IsInteger 9007199254740992 :=
    ⟨rfl, Decimal.isDigits_iff.1 (by decide +kernel), by decide, rfl, rfl, by decide +kernel⟩
  have setsMin : SetsInteger properties "min" none := rfl
  have setsMax : SetsInteger properties "max" (some 9007199254740992) :=
    ⟨by decide +kernel, by decide +kernel, high, isHigh, rfl⟩
  have found : (TokenReader.ofLine text).currentWord? = some ⟨text, 0⟩ := by decide +kernel
  have written : Decimal.IsInteger text 9007199254740993 :=
    Decimal.readInteger?_eq_some.1 (by decide +kernel)
  obtain ⟨spans, -⟩ :=
    read_integer_spans (Or.inr rfl) setsMin setsMax .empty found written
  have none : violations (fun i j => nearest i < nearest j) 9007199254740993 none
      (some 9007199254740992) (Slice.span ⟨text, 0⟩) = [] := by decide +kernel
  refine ⟨setsMin, setsMax, written, ?_, by decide⟩
  exact List.map_eq_nil_iff.1 (spans.trans none)

end Argument

end CommandScript
