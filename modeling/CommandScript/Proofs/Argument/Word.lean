import CommandScript.Argument
import CommandScript.Proofs.Resource
import CommandScript.Proofs.Shift.Reading
import CommandScript.Proofs.Token.Balanced

/-!
Arguments of one word.

On a word such an argument says what its check does (`Argument.readWord_report`). If the check
depends on the text of the word only, so do the numbers of errors and warnings, wherever the word
stands (`Argument.readWord_counts`). Many words begin with an id, whose characters have no meaning
in a line; the id ends in front of the first bracket (`Argument.splitWhile_isIdChar`). A word that
begins with the class of a selector is as good as its predicates
(`Argument.Target.check_selector`), and with a block behind the class it is one word if the inside
of the block is (`Argument.Target.joins_block`).
-/

namespace CommandScript

variable {allowTag : Bool} {name : List Char}

/-! ## Words that begin with an id -/

theorem Resource.isPlain_of_isPath {c : Char} (isPath : Charset.isPath c = true) :
    Atom.isPlain c = true := by
  apply eq_true_of_ne_false
  intro special
  simp only [Atom.isPlain, Charset.isQuote, Bool.not_eq_false', Bool.or_eq_true, beq_iff_eq]
    at special
  rcases special with ((((rfl | rfl | rfl) | rfl) | rfl) | rfl) | rfl
  all_goals exact absurd isPath (by decide)

/-- No character of an id has a meaning in a line. -/
theorem Resource.IsId.isPlain (isId : Resource.IsId allowTag name) :
    ∀ c ∈ name, Atom.isPlain c = true := by
  have body : ∀ {text}, Resource.IsBody text → ∀ c ∈ text, Atom.isPlain c = true := by
    intro text isBody c mem
    rcases isBody.chars c mem with isPath | rfl
    · exact Resource.isPlain_of_isPath isPath
    · decide
  cases isId with
  | plain isBody => exact body isBody
  | tag _ isBody => exact List.forall_mem_cons.2 ⟨by decide, body isBody⟩

theorem Token.joins_of_isId (isId : Resource.IsId allowTag name) (opened : List Bracket) :
    Joins opened name opened :=
  joins_of_plain opened isId.isPlain

namespace Argument

/-- An id is read up to what does not go on with its characters. -/
theorem splitWhile_isIdChar {word : Slice} {after : List Char}
    (isId : Resource.IsId allowTag name) (stops : Stops Item.isIdChar after)
    (text : word.text = name ++ after) :
    word.splitWhile Item.isIdChar =
      (⟨name, word.start⟩, ⟨after, word.start + byteLength name⟩) := by
  refine Slice.splitWhile_eq (fun c mem => ?_) stops text
  have plain := isId.isPlain c mem
  simp only [Atom.isPlain, Bool.not_eq_true', Bool.or_eq_false_iff] at plain
  simp [Item.isIdChar, bne, plain]

/-- A block that begins with an id is looked up, and what follows the id is read after that. -/
theorem BlockSpec.check_report (spec : BlockSpec) (registries : Registries) {word : Slice}
    {suffix : List Char} (isId : Resource.IsId spec.allowTag name)
    (stops : Stops Item.isIdChar suffix) (text : word.text = name ++ suffix) :
    let found := spec.readId registries ⟨name, word.start⟩
    (spec.check registries word).report = Report.labelled spec.label
      (found.report ++ (readSuffix found.value ⟨suffix, word.start + byteLength name⟩).report) := by
  have hasId : Slice.isEmpty ⟨name, word.start⟩ = false := by simp [Slice.isEmpty, isId.ne_nil]
  unfold check
  rw [splitWhile_isIdChar isId stops text]
  dsimp only
  rw [hasId, if_neg Bool.false_ne_true]
  rfl

/-! ## Selectors -/

/-- A selector with a block is a piece of a word if what stands in the block is. -/
theorem Target.joins_block {c : Char} {text : List Char} (isClass : c ∈ classes)
    (inside : ∀ bracket, Token.Joins [bracket] text [bracket]) :
    Token.Joins [] ('@' :: c :: '[' :: (text ++ [']'])) [] := by
  have ofClass : ∀ d ∈ classes, Atom.isPlain d = true := List.all_eq_true.1 rfl
  have plain : ∀ d ∈ ['@', c], Atom.isPlain d = true :=
    List.forall_mem_cons.2 ⟨by decide, List.forall_mem_singleton.2 (ofClass c isClass)⟩
  exact (Token.joins_of_plain [] plain).append (Token.joins_bracketed .square inside)

/-- What is wrong with a selector of a known class is wrong with its predicates. -/
theorem Target.check_selector (kind : TargetKind) {word : Slice} {c : Char} {block : List Char}
    (isClass : c ∈ classes) (text : word.text = '@' :: c :: block) :
    (check kind word).report.errors = (checkPredicates (word.drop 2)).report.errors := by
  have noWildcard : word.is "*" = false := by
    rw [Slice.is, text]
    rfl
  have marked : word.front? = some '@' := by rw [Slice.front?, text, List.head?_cons]
  have className : ((word.drop 1).take 1).front? = some c := by
    simp [Slice.drop, Slice.take, Slice.front?, text]
  unfold check
  rw [noWildcard, Bool.and_false, if_neg Bool.false_ne_true, if_pos marked, checkSelector,
    className]
  dsimp only
  rw [if_pos (List.contains_iff_mem.2 isClass)]
  rfl

/-- What follows the class and begins with a bracket is read as a list, and its entries as
predicates. -/
theorem Target.checkPredicates_of_bracket {block : Slice} {after : List Char}
    (text : block.text = '[' :: after) :
    checkPredicates block = (do
      match ← predicateSpec.read block with
      | none => pure ()
      | some list =>
        Reported.errorIf (!list.rest.isEmpty) list.rest.span Fault.afterList.message
        Reported.each checkPredicate list.entries) := by
  have nonempty : ¬block.isEmpty = true := by simp [Slice.isEmpty, text]
  have front : ¬block.front? ≠ some '[' := by simp [Slice.front?, text]
  unfold checkPredicates
  exact (if_neg nonempty).trans (if_neg front)

/-! ## Words under a reader -/

section Reader

variable {check : Slice → Reported Unit} {reader : TokenReader} {word : Slice}

/-- On a word an argument of one word says what its check does. -/
theorem readWord_report (missing : String) (check : Slice → Reported Unit)
    (found : reader.currentWord? = some word) :
    (readWord missing check reader).report = (check word).report := by
  unfold readWord
  rw [found]
  exact Report.append_empty _

theorem readWord_errors (missing : String) (check : Slice → Reported Unit)
    (found : reader.currentWord? = some word) :
    (readWord missing check reader).report.errors = (check word).report.errors :=
  congrArg Report.errors (readWord_report missing check found)

/-- Wherever the word stands, there are as many errors and warnings as on a line of this word
alone. -/
theorem readWord_counts (missing : String)
    (shifted : ∀ k s, Reported.Shifted k id (check s) (check (s.shift k)))
    (found : reader.currentWord? = some word) :
    (readWord missing check reader).report.errors.length =
        (check (.ofLine word.text)).report.errors.length ∧
      (readWord missing check reader).report.warnings.length =
        (check (.ofLine word.text)).report.warnings.length := by
  rw [readWord_report missing check found]
  exact (shifted word.start (.ofLine word.text)).counts

end Reader

end Argument

end CommandScript
