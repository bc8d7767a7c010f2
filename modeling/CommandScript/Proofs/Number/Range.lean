import CommandScript.Proofs.Number
import CommandScript.Selector.Predicate

/-!
Ranges of integers are read in exactly their forms.

An integer is an optional sign and digits within the bounds of a word (`Decimal.IsInteger`); it
contains no dot, so a range of one of the forms `a`, `a..b`, `a..` and `..b` is cut at the dots
between its ends and nowhere else, and what is cut differently has none of the forms
(`isRange_iff`). A negative end is an error where it is not allowed, but the range has a value all
the same.
-/

namespace CommandScript

/-! ## Signs of floats -/

namespace Binary64

/-- Nothing that makes up a unit is rounded to zero. -/
theorem roundUnits_pos {num den : Nat} (positive : 0 < den) (enough : den ≤ num) :
    0 < roundUnits num den := by
  have whole : num / den ≠ 0 := Nat.ne_of_gt (Nat.div_pos enough positive)
  have power : Nat.pow 2 (excessBits (num / den)) ≤ num / den :=
    (Nat.pow_le_pow_right (by decide) (Nat.sub_le ..)).trans (Nat.log2_self_le whole)
  have step : den * Nat.pow 2 (excessBits (num / den)) ≤ num :=
    (Nat.mul_le_mul_left den power).trans (Nat.mul_div_le num den)
  have quantum : 0 < Nat.pow 2 (excessBits (num / den)) := Nat.pow_pos (by decide)
  have low : 0 < num / (den * Nat.pow 2 (excessBits (num / den))) :=
    Nat.div_pos step (Nat.mul_pos positive quantum)
  unfold roundUnits
  dsimp only
  split
  · exact Nat.mul_pos (Nat.succ_pos _) quantum
  · exact Nat.mul_pos low quantum

/-- An integer keeps its sign as a float. -/
theorem ofInt_lt_zero (i : Int) : (ofInt i).lt zero = decide (i < 0) := by
  unfold ofInt ofUnits
  dsimp only
  split
  · by_cases negative : i < 0
    · have units : 0 < one := by decide +kernel
      have positive : 0 < roundUnits (i.natAbs * one) 1 :=
        roundUnits_pos Nat.one_pos (Nat.mul_pos (Int.natAbs_pos.2 (Int.ne_of_lt negative)) units)
      simp [lt, zero, signedUnits, negative, positive]
    · simp [lt, zero, signedUnits, negative]
  · simp [lt, zero]

end Binary64

/-! ## Integers -/

namespace Decimal

/-- At least one decimal digit. -/
def AreDigits (text : List Char) : Prop :=
  text ≠ [] ∧ ∀ c ∈ text, Charset.isDigit c = true

/-- An optional sign and digits, whose value fits into a word of 64 bits with sign. -/
inductive IsInteger : List Char → Int → Prop where
  | plain {digits : List Char} (areDigits : AreDigits digits)
    (high : ofDigits digits < Nat.pow 2 63) : IsInteger digits (ofDigits digits)
  | plus {digits : List Char} (areDigits : AreDigits digits)
    (high : ofDigits digits < Nat.pow 2 63) : IsInteger ('+' :: digits) (ofDigits digits)
  | minus {digits : List Char} (areDigits : AreDigits digits)
    (low : ofDigits digits ≤ Nat.pow 2 63) : IsInteger ('-' :: digits) (-ofDigits digits)

/-- The text is an integer of that kind. -/
def IsLiteral (text : List Char) : Prop :=
  ∃ i, IsInteger text i

theorem isDigits_iff {text : List Char} : isDigits text = true ↔ AreDigits text := by
  simp [isDigits, AreDigits]

theorem splitSign_cases {text digits : List Char} {negative : Bool}
    (sign : splitSign text = (negative, digits)) :
    negative = false ∧ (text = digits ∨ text = '+' :: digits) ∨
      negative = true ∧ text = '-' :: digits := by
  unfold splitSign at sign
  split at sign
  all_goals
    obtain ⟨rfl, rfl⟩ := Prod.mk.inj sign
    simp

theorem splitSign_of_areDigits {digits : List Char} (areDigits : AreDigits digits) :
    splitSign digits = (false, digits) := by
  unfold splitSign
  split
  · exact absurd (areDigits.2 '+' (List.mem_cons_self ..)) (by decide)
  · exact absurd (areDigits.2 '-' (List.mem_cons_self ..)) (by decide)
  · rfl

theorem readInteger?_eq_some {text : List Char} {i : Int} :
    readInteger? text = some i ↔ IsInteger text i := by
  have positive : 0 < Nat.pow 2 63 := Nat.pow_pos (by decide)
  unfold readInteger?
  constructor
  · intro found
    rcases sign : splitSign text with ⟨negative, digits⟩
    simp only [sign, Bool.and_eq_true, decide_eq_true_eq, Option.ite_none_right_eq_some,
      Option.some.injEq] at found
    obtain ⟨⟨⟨digitsOnly, low⟩, high⟩, rfl⟩ := found
    have areDigits := isDigits_iff.1 digitsOnly
    rcases splitSign_cases sign with ⟨rfl, rfl | rfl⟩ | ⟨rfl, rfl⟩
    · rw [if_neg Bool.false_ne_true] at high
      exact .plain areDigits (by omega)
    · rw [if_neg Bool.false_ne_true] at high
      exact .plus areDigits (by omega)
    · rw [if_pos rfl] at low
      exact .minus areDigits (by omega)
  · intro isInteger
    -- The bound stays a symbol: it only matters that it is not zero.
    cases isInteger with
    | plain areDigits high =>
      rw [splitSign_of_areDigits areDigits]
      generalize Nat.pow 2 63 = bound at positive high
      simp [isDigits_iff.2 areDigits]
      omega
    | plus areDigits high =>
      generalize Nat.pow 2 63 = bound at positive high
      simp [splitSign, isDigits_iff.2 areDigits]
      omega
    | minus areDigits low =>
      generalize Nat.pow 2 63 = bound at positive low
      simp [splitSign, isDigits_iff.2 areDigits]
      omega

instance : DecidablePred IsLiteral := fun text =>
  decidable_of_iff ((readInteger? text).isSome = true) <| by
    rw [Option.isSome_iff_exists]
    exact exists_congr fun _ => readInteger?_eq_some

theorem IsInteger.ne_nil {text : List Char} {i : Int} (isInteger : IsInteger text i) :
    text ≠ [] := by
  cases isInteger with
  | plain areDigits => exact areDigits.1
  | plus => exact List.cons_ne_nil _ _
  | minus => exact List.cons_ne_nil _ _

theorem not_isLiteral_nil : ¬IsLiteral [] := by
  rintro ⟨i, isInteger⟩
  exact isInteger.ne_nil rfl

/-- No dot is part of an integer. -/
theorem IsInteger.dot_not_mem {text : List Char} {i : Int} (isInteger : IsInteger text i) :
    '.' ∉ text := by
  have digits : ∀ {digits}, AreDigits digits → '.' ∉ digits :=
    fun areDigits mem => absurd (areDigits.2 '.' mem) (by decide)
  cases isInteger with
  | plain areDigits => exact digits areDigits
  | plus areDigits => simpa using digits areDigits
  | minus areDigits => simpa using digits areDigits

theorem IsInteger.unique {text : List Char} {i j : Int} (isInteger : IsInteger text i)
    (other : IsInteger text j) : i = j :=
  Option.some.inj ((readInteger?_eq_some.2 isInteger).symm.trans (readInteger?_eq_some.2 other))

end Decimal

/-! ## Ranges -/

namespace RangeSpec

open Decimal

/-- A range of integers with its ends, one of which may be open. -/
inductive IsRange : List Char → Option Int → Option Int → Prop where
  | single {text : List Char} {i : Int} (isInteger : IsInteger text i) :
    IsRange text (some i) (some i)
  | between {low high : List Char} {i j : Int} (isLow : IsInteger low i)
    (isHigh : IsInteger high j) : IsRange (low ++ '.' :: '.' :: high) (some i) (some j)
  | atLeast {low : List Char} {i : Int} (isLow : IsInteger low i) :
    IsRange (low ++ ['.', '.']) (some i) none
  | atMost {high : List Char} {j : Int} (isHigh : IsInteger high j) :
    IsRange ('.' :: '.' :: high) none (some j)

/-- What is written at one end: nothing where it is open. -/
inductive IsEnd : List Char → Option Int → Prop where
  | opened : IsEnd [] none
  | written {text : List Char} {i : Int} (isInteger : IsInteger text i) : IsEnd text (some i)

/-- Some parts between dots are those of a range with these ends. -/
def Ends (low high : Option Int) : List Slice → Prop
  | [single] => ∃ i, IsInteger single.text i ∧ low = some i ∧ high = some i
  | [first, second] => IsEnd first.text low ∧ IsEnd second.text high ∧ (low ≠ none ∨ high ≠ none)
  | _ => False

section Forms

variable {s : Slice} {low high : Option Int}

theorem IsEnd.dot_not_mem {text : List Char} {bound : Option Int} (isEnd : IsEnd text bound) :
    '.' ∉ text := by
  cases isEnd with
  | opened => exact List.not_mem_nil
  | written isInteger => exact isInteger.dot_not_mem

theorem isEnd_nil_iff {bound : Option Int} : IsEnd [] bound ↔ bound = none := by
  constructor
  · intro isEnd
    cases isEnd with
    | opened => rfl
    | written isInteger => exact absurd rfl isInteger.ne_nil
  · rintro rfl
    exact .opened

theorem isEnd_iff {text : List Char} {bound : Option Int} (nonempty : text ≠ []) :
    IsEnd text bound ↔ ∃ i, bound = some i ∧ IsInteger text i := by
  constructor
  · intro isEnd
    cases isEnd with
    | opened => exact absurd rfl nonempty
    | written isInteger => exact ⟨_, rfl, isInteger⟩
  · rintro ⟨i, rfl, isInteger⟩
    exact .written isInteger

theorem IsEnd.ne_none {text : List Char} {bound : Option Int} (isEnd : IsEnd text bound)
    (nonempty : text ≠ []) : bound ≠ none := by
  cases isEnd with
  | opened => exact absurd rfl nonempty
  | written => exact Option.some_ne_none _

/-- Two ends with dots in between are found as such. -/
theorem ends_of_isEnd {first second : List Char} (text : s.text = first ++ '.' :: '.' :: second)
    (isLow : IsEnd first low) (isHigh : IsEnd second high) (written : low ≠ none ∨ high ≠ none) :
    Ends low high (s.splitOn ['.', '.']) := by
  rw [Slice.splitOn_of_once text isLow.dot_not_mem isHigh.dot_not_mem]
  exact ⟨isLow, isHigh, written⟩

/-- A text is a range with some ends if and only if its parts are. -/
theorem isRange_iff : IsRange s.text low high ↔ Ends low high (s.splitOn ['.', '.']) := by
  constructor
  · intro isRange
    generalize text : s.text = chars at isRange
    cases isRange with
    | @single _ i isInteger =>
      rw [Slice.splitOn_of_not_mem (text ▸ isInteger.dot_not_mem)]
      exact ⟨i, text ▸ isInteger, rfl, rfl⟩
    | between isLow isHigh => exact ends_of_isEnd text (.written isLow) (.written isHigh) (by simp)
    | atLeast isLow => exact ends_of_isEnd text (.written isLow) .opened (by simp)
    | atMost isHigh => exact ends_of_isEnd text .opened (.written isHigh) (by simp)
  · intro ends
    rcases parts : s.splitOn ['.', '.'] with _ | ⟨first, _ | ⟨second, _ | ⟨third, rest⟩⟩⟩
    all_goals rw [parts] at ends
    · exact ends.elim
    · obtain ⟨i, isInteger, rfl, rfl⟩ := ends
      rw [← Slice.splitOn_single parts]
      exact .single isInteger
    · obtain ⟨isLow, isHigh, written⟩ := ends
      obtain ⟨text, -, -⟩ := Slice.splitOn_pair parts
      rw [text]
      generalize first.text = before, second.text = after at isLow isHigh
      cases isLow with
      | opened =>
        cases isHigh with
        | opened => simp at written
        | written isHigh => exact .atMost isHigh
      | written isLow =>
        cases isHigh with
        | opened => exact .atLeast isLow
        | written isHigh => exact .between isLow isHigh
    · exact ends.elim

end Forms

/-! ### Ends -/

section Values

variable {α : Type} {IsBound : Int → Prop} {openEnd : α} {turn : Int → α}

/-- The value of an end that is known, whatever it is turned into. -/
theorem some_eq_iff_elim {i : Int} (only : ∀ j, IsBound j ↔ j = i) (openEnd : α)
    (turn : Int → α) (v : α) :
    some (turn i) = some v ↔
      ∃ bound : Option Int, (∃ j, bound = some j ∧ IsBound j) ∧ v = bound.elim openEnd turn := by
  simp [only, eq_comm]

/-- A value that is both ends of a range. -/
theorem twice_eq_some_iff {value : Option α} {lowest highest : α}
    (value_iff : ∀ v, value = some v ↔
      ∃ bound : Option Int, (∃ j, bound = some j ∧ IsBound j) ∧ v = bound.elim openEnd turn)
    (v : α × α) :
    value.map (fun v => (v, v)) = some v ↔ ∃ low high : Option Int,
      (∃ i, IsBound i ∧ low = some i ∧ high = some i) ∧
        v = (low.elim lowest turn, high.elim highest turn) := by
  rw [Option.map_eq_some_iff]
  constructor
  · rintro ⟨w, found, rfl⟩
    obtain ⟨_, ⟨i, rfl, isBound⟩, rfl⟩ := (value_iff w).1 found
    exact ⟨_, _, ⟨i, isBound, rfl, rfl⟩, rfl⟩
  · rintro ⟨_, _, ⟨i, isBound, rfl, rfl⟩, rfl⟩
    exact ⟨turn i, (value_iff _).2 ⟨_, ⟨i, rfl, isBound⟩, rfl⟩, rfl⟩

theorem pair_eq_some_iff {first second : Option α} {v : α × α} :
    (first.bind fun l => second.map fun h => (l, h)) = some v ↔
      first = some v.1 ∧ second = some v.2 := by
  cases first <;> cases second <;> simp [Prod.ext_iff]

end Values

section Reading

variable {spec : RangeSpec} {s : Slice}

/-- An end is not negative, unless that is allowed. -/
def Allows (spec : RangeSpec) (bound : Option Int) : Prop :=
  spec.allowNegative = true ∨ ∀ i ∈ bound, 0 ≤ i

theorem allows_some {i : Int} : spec.Allows (some i) ↔ spec.allowNegative = true ∨ 0 ≤ i := by
  simp [Allows]

instance (spec : RangeSpec) (bound : Option Int) : Decidable (spec.Allows bound) :=
  inferInstanceAs (Decidable (_ ∨ _))

/-- The tokens over those parts that are integers. -/
def literals (parts : List Slice) : List SemanticToken :=
  (parts.filter fun part => IsLiteral part.text).map fun part => ⟨part.span, .number⟩

/-- An end with one of the given values is read: without an error if it is allowed, and into its
value in any case. -/
structure ReadsEnd (spec : RangeSpec) (s : Slice) (IsBound : Option Int → Prop)
    (openEnd : Binary64) (outcome : Reported (Option Binary64)) : Prop where
  errors_iff : outcome.report.errors = [] ↔ ∃ bound, IsBound bound ∧ spec.Allows bound
  value_iff : ∀ v, outcome.value = some v ↔
    ∃ bound, IsBound bound ∧ v = bound.elim openEnd Binary64.ofInt
  atMostOne : outcome.report.errors.length ≤ 1
  tokens : outcome.report.tokens = literals [s]

theorem literals_of_isInteger {i : Int} (isInteger : IsInteger s.text i) :
    literals [s] = [⟨s.span, .number⟩] := by
  have isLiteral : IsLiteral s.text := ⟨i, isInteger⟩
  simp [literals, isLiteral]

theorem literals_of_not (noLiteral : ¬IsLiteral s.text) : literals [s] = [] := by
  simp [literals, noLiteral]

/-- An integer is highlighted and yielded. -/
theorem bound_read_integer (integer : spec.form = .integer) {i : Int}
    (isInteger : IsInteger s.text i) :
    spec.bound.read s = ⟨some (.ofInt i),
      ⟨if spec.Allows (some i) then [] else [⟨s.span, spec.negative⟩], [],
        [⟨s.span, .number⟩]⟩⟩ := by
  have found : spec.bound.form.read? s.text = some (Binary64.ofInt i) := by
    have read := readInteger?_eq_some.2 isInteger
    simp [bound, integer, NumberForm.read?, read]
  have below := Binary64.ofInt_lt_zero i
  unfold NumberSpec.read
  rw [found]
  -- What the float is made of must not be computed.
  generalize Binary64.ofInt i = value at below
  have bounds : spec.bound.checkBounds s value =
      ⟨(), ⟨if spec.Allows (some i) then [] else [⟨s.span, spec.negative⟩], [], []⟩⟩ := by
    unfold NumberSpec.checkBounds bound
    rw [if_congr allows_some rfl rfl]
    cases spec.allowNegative with
    | true => rfl
    | false =>
      simp only [Bool.false_eq_true, false_or, if_false, below]
      by_cases negative : i < 0
      · rw [decide_eq_true negative, if_neg (Int.not_le.2 negative)]
        rfl
      · rw [decide_eq_false negative, if_pos (Int.not_lt.1 negative)]
        rfl
  dsimp only
  rw [bounds]
  split <;> rfl

/-- Anything else is an error and has no value. -/
theorem bound_read_other (integer : spec.form = .integer) (noLiteral : ¬IsLiteral s.text) :
    spec.bound.read s = ⟨none, ⟨[⟨s.span, spec.unreadable⟩], [], []⟩⟩ := by
  have missing : readInteger? s.text = none :=
    Option.eq_none_iff_forall_ne_some.2 fun i found => noLiteral ⟨i, readInteger?_eq_some.1 found⟩
  have missing : spec.bound.form.read? s.text = none := by
    simp [bound, integer, NumberForm.read?, missing]
  unfold NumberSpec.read
  rw [missing]
  rfl

/-- An end that has to be written. -/
theorem readsEnd_bound (integer : spec.form = .integer) (s : Slice) (openEnd : Binary64) :
    spec.ReadsEnd s (fun bound => ∃ i, bound = some i ∧ IsInteger s.text i) openEnd
      (spec.bound.read s) := by
  by_cases isLiteral : IsLiteral s.text
  · obtain ⟨i, isInteger⟩ := isLiteral
    have only : ∀ j, IsInteger s.text j ↔ j = i := fun j =>
      ⟨fun other => other.unique isInteger, fun same => same ▸ isInteger⟩
    rw [bound_read_integer integer isInteger]
    refine ⟨by simp [only], some_eq_iff_elim only openEnd Binary64.ofInt, ?_,
      (literals_of_isInteger isInteger).symm⟩
    dsimp only
    split <;> simp
  · have absent : ∀ {P : Option Int → Prop},
        ¬∃ bound, (∃ i, bound = some i ∧ IsInteger s.text i) ∧ P bound :=
      fun ⟨_, ⟨i, _, isInteger⟩, _⟩ => isLiteral ⟨i, isInteger⟩
    rw [bound_read_other integer isLiteral]
    exact ⟨iff_of_false (List.cons_ne_nil _ _) absent, fun v => iff_of_false nofun absent,
      Nat.le_refl _, (literals_of_not isLiteral).symm⟩

/-- An end that may be left out. -/
theorem readsEnd_readBound (integer : spec.form = .integer) (s : Slice) (openEnd : Binary64) :
    spec.ReadsEnd s (IsEnd s.text) openEnd (spec.readBound openEnd s) := by
  unfold readBound
  split
  · rename_i empty
    have nothing : s.text = [] := List.isEmpty_iff.1 empty
    have noLiteral : ¬IsLiteral s.text := nothing ▸ not_isLiteral_nil
    refine ⟨?_, fun v => ?_, Nat.zero_le _, (literals_of_not noLiteral).symm⟩
    · exact iff_of_true rfl ⟨none, nothing ▸ .opened, Or.inr nofun⟩
    · simp [nothing, isEnd_nil_iff, eq_comm]
  · rename_i nonempty
    have same : IsEnd s.text = fun bound => ∃ i, bound = some i ∧ IsInteger s.text i :=
      funext fun bound => propext (isEnd_iff (by simpa [Slice.isEmpty] using nonempty))
    rw [same]
    exact readsEnd_bound integer s openEnd

/-- A text is read as a range of integers: without an error exactly if it has one of the forms, with
ends that are allowed, and into its ends exactly if it has one of the forms. The integers among the
parts are highlighted, behind the dots if there are two parts. -/
structure ReadsIntegers (spec : RangeSpec) (s : Slice)
    (outcome : Reported (Option (Binary64 × Binary64))) : Prop where
  errors_iff : outcome.report.errors = [] ↔
    ∃ low high, IsRange s.text low high ∧ spec.Allows low ∧ spec.Allows high
  value_iff : ∀ v, outcome.value = some v ↔ ∃ low high, IsRange s.text low high ∧
    v = (low.elim (.infinity true) .ofInt, high.elim (.infinity false) .ofInt)
  atMostTwo : outcome.report.errors.length ≤ 2
  tokens : match s.splitOn ['.', '.'] with
    | [single] => outcome.report.tokens = literals [single]
    | [low, high] =>
      outcome.report.tokens = ⟨⟨low.stop, high.start⟩, .operator⟩ :: literals [low, high]
    | _ => outcome.report.tokens = [] ∧ outcome.report.errors.length = 1

theorem readsIntegers_single (integer : spec.form = .integer)
    (parts : s.splitOn ['.', '.'] = [s]) : spec.ReadsIntegers s (spec.read s) := by
  have range : ∀ low high, IsRange s.text low high ↔
      ∃ i, IsInteger s.text i ∧ low = some i ∧ high = some i := fun low high => by
    rw [isRange_iff, parts, Ends]
  have reads := readsEnd_bound integer s .nan
  have eq : spec.read s = ⟨(spec.bound.read s).value.map fun v => (v, v),
      (spec.bound.read s).report⟩ := by
    unfold read
    rw [parts]
    exact congrArg (Reported.mk _) (Report.append_empty _)
  rw [eq]
  refine ⟨?_, ?_, Nat.le_succ_of_le reads.atMostOne, ?_⟩
  · rw [reads.errors_iff]
    simp only [range]
    constructor
    · rintro ⟨_, ⟨i, rfl, isInteger⟩, allowed⟩
      exact ⟨_, _, ⟨i, isInteger, rfl, rfl⟩, allowed, allowed⟩
    · rintro ⟨_, _, ⟨i, isInteger, rfl, rfl⟩, allowed, -⟩
      exact ⟨_, ⟨i, rfl, isInteger⟩, allowed⟩
  · simp only [range]
    exact twice_eq_some_iff reads.value_iff
  · rw [parts]
    exact reads.tokens

theorem literals_pair (low high : Slice) :
    literals [low, high] = literals [low] ++ literals [high] := by
  rw [← List.singleton_append, literals, List.filter_append, List.map_append]
  rfl

/-- Dots alone are an error, and there is nothing else to highlight. -/
theorem read_dots {low high : Slice} (parts : s.splitOn ['.', '.'] = [low, high])
    (lowNil : low.text = []) (highNil : high.text = []) :
    spec.read s = ⟨none, ⟨[⟨s.span, spec.missingBounds⟩], [],
      [⟨((s.drop low.text.length).take 2).span, .operator⟩]⟩⟩ := by
  unfold read
  rw [parts]
  dsimp only
  rw [if_pos (by simp [Slice.isEmpty, lowNil, highNil])]
  rfl

/-- Otherwise both ends are read. -/
theorem read_ends {low high : Slice} (parts : s.splitOn ['.', '.'] = [low, high])
    (written : low.text ≠ [] ∨ high.text ≠ []) :
    let lowest := spec.readBound (.infinity true) low
    let highest := spec.readBound (.infinity false) high
    spec.read s = ⟨lowest.value.bind fun l => highest.value.map fun h => (l, h),
      Report.token ((s.drop low.text.length).take 2).span .operator ++
        (lowest.report ++ highest.report)⟩ := by
  intro lowest highest
  unfold read
  rw [parts]
  dsimp only
  rw [if_neg (by simpa [Slice.isEmpty, imp_iff_not_or] using written)]
  exact congrArg (fun report => (⟨_, _ ++ (_ ++ report)⟩ : Reported _)) (Report.append_empty _)

theorem isRange_pair_iff {low high : Slice} (parts : s.splitOn ['.', '.'] = [low, high])
    {i j : Option Int} : IsRange s.text i j ↔
      IsEnd low.text i ∧ IsEnd high.text j ∧ (i ≠ none ∨ j ≠ none) := by
  rw [isRange_iff, parts, Ends]

theorem span_dots {low high : Slice} (parts : s.splitOn ['.', '.'] = [low, high]) :
    ((s.drop low.text.length).take 2).span = ⟨low.stop, high.start⟩ := by
  obtain ⟨-, start, stop⟩ := dots_between parts
  rw [Slice.span, start, stop]

theorem readsIntegers_dots {low high : Slice} (parts : s.splitOn ['.', '.'] = [low, high])
    (lowNil : low.text = []) (highNil : high.text = []) :
    spec.ReadsIntegers s (spec.read s) := by
  have noRange : ∀ i j, ¬IsRange s.text i j := fun i j isRange => by
    obtain ⟨isLow, isHigh, written⟩ := (isRange_pair_iff parts).1 isRange
    rw [lowNil, isEnd_nil_iff] at isLow
    rw [highNil, isEnd_nil_iff] at isHigh
    simp [isLow, isHigh] at written
  rw [read_dots parts lowNil highNil, span_dots parts]
  refine ⟨by simp [noRange], by simp [noRange], by simp, ?_⟩
  rw [parts]
  simp [literals, lowNil, highNil, not_isLiteral_nil]

theorem readsIntegers_ends (integer : spec.form = .integer) {low high : Slice}
    (parts : s.splitOn ['.', '.'] = [low, high]) (written : low.text ≠ [] ∨ high.text ≠ []) :
    spec.ReadsIntegers s (spec.read s) := by
  have range : ∀ i j, IsRange s.text i j ↔ IsEnd low.text i ∧ IsEnd high.text j := by
    intro i j
    rw [isRange_pair_iff parts, ← and_assoc, and_iff_left_iff_imp]
    rintro ⟨isLow, isHigh⟩
    exact written.imp isLow.ne_none isHigh.ne_none
  have lowReads := readsEnd_readBound integer low (.infinity true)
  have highReads := readsEnd_readBound integer high (.infinity false)
  rw [read_ends parts written, span_dots parts]
  refine ⟨?_, fun v => ?_, ?_, ?_⟩
  · have silent : (Report.token ⟨low.stop, high.start⟩ .operator).errors = [] := rfl
    simp only [Report.append_errors, silent, List.append_eq_nil_iff, true_and,
      lowReads.errors_iff, highReads.errors_iff, range]
    constructor
    · rintro ⟨⟨i, isLow, allowed⟩, j, isHigh, allowedToo⟩
      exact ⟨i, j, ⟨isLow, isHigh⟩, allowed, allowedToo⟩
    · rintro ⟨i, j, ⟨isLow, isHigh⟩, allowed, allowedToo⟩
      exact ⟨⟨i, isLow, allowed⟩, j, isHigh, allowedToo⟩
  · simp only [pair_eq_some_iff, lowReads.value_iff, highReads.value_iff, range, Prod.ext_iff]
    constructor
    · rintro ⟨⟨i, isLow, first⟩, j, isHigh, second⟩
      exact ⟨i, j, ⟨isLow, isHigh⟩, first, second⟩
    · rintro ⟨i, j, ⟨isLow, isHigh⟩, first, second⟩
      exact ⟨⟨i, isLow, first⟩, j, isHigh, second⟩
  · have few := Nat.add_le_add lowReads.atMostOne highReads.atMostOne
    rw [Report.append_errors, Report.append_errors, List.length_append, List.length_append]
    exact (Nat.zero_add _).trans_le few
  · rw [parts]
    dsimp only
    rw [literals_pair, ← lowReads.tokens, ← highReads.tokens]
    rfl

theorem readsIntegers_pair (integer : spec.form = .integer) {low high : Slice}
    (parts : s.splitOn ['.', '.'] = [low, high]) : spec.ReadsIntegers s (spec.read s) := by
  by_cases empty : low.text = [] ∧ high.text = []
  · exact readsIntegers_dots parts empty.1 empty.2
  · exact readsIntegers_ends integer parts (not_and_or.1 empty)

theorem readsIntegers_many (spec : RangeSpec) (single : ∀ part, s.splitOn ['.', '.'] ≠ [part])
    (pair : ∀ low high, s.splitOn ['.', '.'] ≠ [low, high]) :
    spec.ReadsIntegers s (spec.read s) := by
  have noRange : ∀ low high, ¬IsRange s.text low high := fun low high isRange => by
    have ends := isRange_iff.1 isRange
    unfold Ends at ends
    split at ends
    · exact single _ ‹_›
    · exact pair _ _ ‹_›
    · exact ends
  have eq : spec.read s = ⟨none, ⟨[⟨s.span, spec.tooManyParts⟩], [], []⟩⟩ := by
    unfold read
    split
    · exact absurd ‹_› (single _)
    · exact absurd ‹_› (pair _ _)
    · rfl
  rw [eq]
  refine ⟨by simp [noRange], by simp [noRange], by simp, ?_⟩
  split
  · exact absurd ‹_› (single _)
  · exact absurd ‹_› (pair _ _)
  · exact ⟨rfl, rfl⟩

/-- Ranges of integers are read in exactly their forms. -/
theorem read_integers (integer : spec.form = .integer) (s : Slice) :
    spec.ReadsIntegers s (spec.read s) := by
  rcases parts : s.splitOn ['.', '.'] with _ | ⟨low, _ | ⟨high, _ | ⟨third, rest⟩⟩⟩
  · exact readsIntegers_many spec (by simp [parts]) (by simp [parts])
  · exact readsIntegers_single integer (by rw [parts, Slice.splitOn_single parts])
  · exact readsIntegers_pair integer parts
  · exact readsIntegers_many spec (by simp [parts]) (by simp [parts])

/-- A signed end of a range that must not be negative. -/
theorem read_integers_signed :
    let spec := SelectorPredicate.rangeSpec .integer false
    let s : Slice := ⟨"3..+7".toList, 2⟩
    spec.form = .integer ∧ spec.ReadsIntegers s (spec.read s) ∧
      (spec.read s).report.errors = [] := by
  intro spec s
  have reads : spec.ReadsIntegers s (spec.read s) := read_integers rfl s
  have isLow : IsInteger ['3'] 3 := readInteger?_eq_some.1 (by decide)
  have isHigh : IsInteger ['+', '7'] 7 := readInteger?_eq_some.1 (by decide)
  have isRange : IsRange s.text (some 3) (some 7) := .between isLow isHigh
  exact ⟨rfl, reads, reads.errors_iff.2
    ⟨_, _, isRange, allows_some.2 (by decide), allows_some.2 (by decide)⟩⟩

end Reading

end RangeSpec

end CommandScript
