import CommandScript.Proofs.Argument.Word
import CommandScript.Proofs.PropertyList.Accounting
import CommandScript.Proofs.PropertyList.Written
import CommandScript.Proofs.Shift.Argument
import Mathlib.Algebra.GroupWithZero.Nat

/-!
The predicates of a selector are independent.

What stands between two commas of a selector is read on its own: it is an entry of the list or
not, and an entry is checked as a predicate (`Argument.Target.checkPart`). A selector is read in
two passes, first all parts and then all entries, but there are as many errors as on its parts
one by one (`Argument.Target.errors_of_parts`), and on a part there are as many wherever it
stands. So the errors of a selector are those of the selectors with one of its parts each.
-/

namespace CommandScript.Argument.Target

/-! ## Parts of a selector -/

/-- What is written between two commas of a selector: one line, not blank, in which every quote
and every bracket is closed, with no comma outside of quotes and brackets. -/
structure IsPart (part : List Char) : Prop where
  oneLine : '\n' ∉ part
  filled : ∃ c ∈ part, Charset.isBlank c = false
  balanced : Balanced part
  whole : Nesting.Whole ',' part

theorem IsPart.separable {part : List Char} (isPart : IsPart part) :
    PropertySpec.Separable part where
  enclosed := Nesting.enclosed_of_balanced isPart.balanced
  whole := isPart.whole
  filled := isPart.filled

/-- A selector of some class with these parts. -/
def selector (c : Char) (parts : List (List Char)) : List Char :=
  '@' :: c :: '[' :: ([','].intercalate parts ++ [']'])

theorem joins_selector {c : Char} {parts : List (List Char)} (isClass : c ∈ classes)
    (isPart : ∀ part ∈ parts, IsPart part) : Token.Joins [] (selector c parts) [] :=
  joins_block isClass fun _ => Token.joins_intercalate fun part mem =>
    Token.joins_of_balanced (isPart part mem).balanced (isPart part mem).oneLine
      (List.cons_ne_nil _ _)

/-! ## Errors part by part -/

/-- Reads a part on its own: as an entry of the list, and the entry as a predicate. -/
def checkPart (part : Slice) : Reported Unit := do
  match ← predicateSpec.readEntry part with
  | none => pure ()
  | some entry => checkPredicate entry

theorem checkPart_shifted (k : Nat) (part : Slice) :
    Reported.Shifted k id (checkPart part) (checkPart (part.shift k)) := by
  refine (PropertySpec.readEntry_shifted k predicateSpec part).bind fun entry => ?_
  cases entry with
  | none => exact Reported.shifted_pure
  | some entry => exact checkPredicate_shifted k entry

/-- The number of errors on a part, wherever it stands. -/
def errorCount (part : List Char) : Nat :=
  (checkPart (.ofLine part)).report.errors.length

theorem checkPart_errors_length (part : Slice) :
    (checkPart part).report.errors.length = errorCount part.text :=
  (checkPart_shifted part.start (.ofLine part.text)).counts.1

/-- Reading all parts and then checking all entries finds as many errors as doing both part by
part. -/
theorem errors_of_parts (parts : List Slice) :
    let list := PropertySpec.gather (parts.map predicateSpec.readEntry)
    list.report.errors.length + (Reported.each checkPredicate list.value).report.errors.length =
      (parts.map fun part => errorCount part.text).sum := by
  induction parts with
  | nil => rfl
  | cons part parts ih =>
    -- The errors of a predicate stand behind those of all parts; only their number is the same.
    rw [List.map_cons, List.map_cons, List.sum_cons, ← checkPart_errors_length, ← ih,
      PropertySpec.gather_cons, checkPart]
    generalize PropertySpec.gather (parts.map predicateSpec.readEntry) = list
    rcases predicateSpec.readEntry part with ⟨_ | entry, report⟩
    · simp [Nat.add_assoc]
    · simp only [Reported.report_bind, Reported.value_bind, Reported.report_pure,
        Reported.value_pure, Report.append_errors, Report.append_empty, Option.toList_some,
        List.singleton_append, Reported.each_cons, List.length_append]
      omega

/-- A block of parts has the errors of its parts. -/
theorem checkPredicates_errors_length {parts : List (List Char)} {block : Slice}
    (nonempty : parts ≠ []) (isPart : ∀ part ∈ parts, IsPart part)
    (text : block.text = '[' :: ([','].intercalate parts ++ [']'])) :
    (checkPredicates block).report.errors.length = (parts.map errorCount).sum := by
  let pieces := (Slice.placeParts ',' (block.start + 1) parts).parts
  have texts : pieces.map (·.text) = parts := Slice.map_text_placeParts ',' (block.start + 1) parts
  have filled : ∀ piece ∈ pieces, piece.trim.isEmpty = false := by
    intro piece mem
    have ofText : piece.text ∈ parts := texts ▸ List.mem_map_of_mem mem
    obtain ⟨c, inside, noBlank⟩ := (isPart _ ofText).filled
    exact Slice.trim_isEmpty_eq_false inside noBlank
  have read : predicateSpec.read block = _ := PropertySpec.read_parts .square nonempty
    (fun part mem => (isPart part mem).separable) text
  have sum : (parts.map errorCount).sum = (pieces.map fun piece => errorCount piece.text).sum := by
    rw [← texts, List.map_map]
    rfl
  rw [checkPredicates_of_bracket text, read,
    PropertySpec.readParts_of_filled predicateSpec _ _ _ filled, sum, ← errors_of_parts]
  generalize PropertySpec.gather (pieces.map predicateSpec.readEntry) = list
  simp only [bind_assoc, pure_bind]
  show (list.report ++ (∅ ++ (Reported.each checkPredicate list.value).report)).errors.length = _
  rw [Report.empty_append, Report.append_errors, List.length_append]

/-! ## Selectors -/

/-- Under a reader, a selector has the errors of its parts. -/
theorem read_selector_errors (kind : TargetKind) (registries : Registries) {c : Char}
    {parts : List (List Char)} {reader : TokenReader} {word : Slice} (isClass : c ∈ classes)
    (nonempty : parts ≠ []) (isPart : ∀ part ∈ parts, IsPart part)
    (found : reader.currentWord? = some word) (text : word.text = selector c parts) :
    ((target kind).read registries reader).report.errors.length =
      (parts.map errorCount).sum := by
  have onWord : ((target kind).read registries reader).report.errors =
      (check kind word).report.errors := readWord_errors _ _ found
  rw [onWord, check_selector kind isClass text]
  exact checkPredicates_errors_length nonempty isPart (by simp [Slice.drop, text, selector])

/-- The parts of a selector are independent. A selector with a known class is a single word, and
on this word a target reports as many errors as on the selectors of this class with one of the
parts each, taken together. So the selector is accepted exactly if each of its parts is accepted
alone. -/
theorem predicates_independent (kind : TargetKind) (registries : Registries) {c : Char}
    {parts : List (List Char)} {reader : TokenReader} {word : Slice} (isClass : c ∈ classes)
    (nonempty : parts ≠ []) (isPart : ∀ part ∈ parts, IsPart part)
    (found : reader.currentWord? = some word) (text : word.text = selector c parts) :
    let errors := ((target kind).read registries reader).report.errors
    let alone := fun part =>
      ((target kind).read registries (.ofLine (selector c [part]))).report.errors
    Token.ofLine (selector c parts) = [⟨⟨selector c parts, 0⟩, false⟩] ∧
      errors.length = (parts.map fun part => (alone part).length).sum ∧
      (errors = [] ↔ ∀ part ∈ parts, alone part = []) := by
  intro errors alone
  have isWord : ∀ {parts}, (∀ part ∈ parts, IsPart part) →
      Token.ofLine (selector c parts) = [⟨⟨selector c parts, 0⟩, false⟩] := fun isPart =>
    (Token.ofLine_of_joins (joins_selector isClass isPart) (List.cons_ne_nil _ _)).1
  have each : ∀ part ∈ parts, (alone part).length = errorCount part := by
    intro part mem
    have single := List.forall_mem_singleton.2 (isPart part mem)
    have current : (TokenReader.ofLine (selector c [part])).currentWord? =
        some ⟨selector c [part], 0⟩ := by
      rw [TokenReader.ofLine, isWord single]
      rfl
    have counted := read_selector_errors kind registries isClass (List.cons_ne_nil part []) single
      current rfl
    simpa using counted
  have sum : errors.length = (parts.map fun part => (alone part).length).sum := by
    rw [List.map_congr_left each]
    exact read_selector_errors kind registries isClass nonempty isPart found text
  refine ⟨isWord isPart, sum, ?_⟩
  rw [← List.length_eq_zero_iff, sum, List.sum_eq_zero_iff_forall_eq_nat, List.forall_mem_map]
  exact forall₂_congr fun part _ => List.length_eq_zero_iff

/-- Four parts, of which the second is a predicate and the others are not: the values of the first
are wrong twice, a key has a blank in it, and a key is missing. -/
theorem predicates_independent_four :
    let parts := ["scores=\x7ba=1..2,b=x,c\x7d".toList, "name=\",]\"".toList, "lim it=5".toList,
      " =5".toList]
    let report := ((target .entity).read .empty (.ofLine (selector 'e' parts))).report
    report.errors.length = 2 + 0 + 1 + 1 := by
  intro parts report
  have plain : ∀ text : List Char, (text.all fun c => !Nesting.isMark c) = true →
      Balanced text := fun text all => balanced_of_plain (by simpa using all)
  have scores : Balanced "scores=\x7ba=1..2,b=x,c\x7d".toList :=
    .append (plain "scores=".toList rfl) (.nested .curly (plain "a=1..2,b=x,c".toList rfl))
  have body : QuotedBody '"' [',', ']'] :=
    .plain (by decide) (by decide) (.plain (by decide) (by decide) .nil)
  have name : Balanced "name=\",]\"".toList :=
    .append (plain "name=".toList rfl) (.quoted rfl body)
  have isPart : ∀ part ∈ parts, IsPart part := by
    refine List.forall_mem_cons.2 ⟨?_, List.forall_mem_cons.2 ⟨?_, List.forall_mem_cons.2 ⟨?_,
      List.forall_mem_singleton.2 ?_⟩⟩⟩
    · exact ⟨by decide, ⟨'s', by decide, rfl⟩, scores, by decide⟩
    · exact ⟨by decide, ⟨'n', by decide, rfl⟩, name, by decide⟩
    · exact ⟨by decide, ⟨'l', by decide, rfl⟩, plain _ rfl, by decide⟩
    · exact ⟨by decide, ⟨'=', by decide, rfl⟩, plain _ rfl, by decide⟩
  have found : (TokenReader.ofLine (selector 'e' parts)).currentWord? =
      some ⟨selector 'e' parts, 0⟩ := by decide
  obtain ⟨-, sum, -⟩ := predicates_independent .entity .empty (by decide : 'e' ∈ classes)
    (List.cons_ne_nil _ _) isPart found rfl
  exact sum

end CommandScript.Argument.Target
