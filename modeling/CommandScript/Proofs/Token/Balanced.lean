import CommandScript.Proofs.Text.Balanced
import CommandScript.Proofs.Token

/-!
Balanced text in a line.

A text joins the word in front of it if, whatever follows, its characters become the
beginning of the first word behind it (`Token.Joins`). Each kind of atom does so in front of
anything, except for spaces with no bracket open, hence so does balanced text inside a
bracket (`Token.joins_of_balanced`). A text that joins from no open bracket to none is a
single word, both on its own and in front of a space.
-/

namespace CommandScript

/-! ## Atoms -/

namespace Atom

theorem atomsFrom_congr {fuel fuel' : Nat} {cs : List Char} (enough : cs.length ≤ fuel)
    (enoughToo : cs.length ≤ fuel') : atomsFrom fuel cs = atomsFrom fuel' cs := by
  induction fuel generalizing cs fuel' with
  | zero =>
    obtain rfl := List.length_eq_zero_iff.1 (Nat.le_zero.1 enough)
    cases fuel' <;> rfl
  | succ fuel ih =>
    cases cs with
    | nil => cases fuel' <;> rfl
    | cons c cs =>
      simp only [List.length_cons] at enough enoughToo
      obtain ⟨fuel', rfl⟩ := Nat.exists_eq_succ_of_ne_zero (by omega : fuel' ≠ 0)
      have shorter := (List.drop_sublist (extent c cs).2 cs).length_le
      have rest : atomsFrom fuel (cs.drop (extent c cs).2) =
          atomsFrom fuel' (cs.drop (extent c cs).2) := ih (by omega) (by omega)
      rw [atomsFrom_cons, atomsFrom_cons, rest]

/-- The first atom of a line and those of what follows it. -/
theorem ofLine_cons (c : Char) (cs : List Char) :
    ofLine (c :: cs) =
      ⟨(extent c cs).1, c :: cs.take (extent c cs).2⟩ :: ofLine (cs.drop (extent c cs).2) := by
  rw [ofLine, List.length_cons, atomsFrom_cons]
  exact congrArg _ (atomsFrom_congr (List.drop_sublist ..).length_le (Nat.le_refl _))

/-- Induction on a line, atom by atom. -/
theorem line_induction {motive : List Char → Prop} (nil : motive [])
    (cons : ∀ c cs, motive (cs.drop (extent c cs).2) → motive (c :: cs)) (line : List Char) :
    motive line := by
  induction length : line.length using Nat.strong_induction_on generalizing line with
  | _ n ih =>
    cases line with
    | nil => exact nil
    | cons c cs =>
      have shorter := (List.drop_sublist (extent c cs).2 cs).length_le
      rw [List.length_cons] at length
      exact cons c cs (ih _ (by omega) _ rfl)

theorem extent_of_isPlain (c : Char) (cs : List Char) (plain : isPlain c = true) :
    extent c cs = (.plain, (cs.takeWhile isPlain).length) := by
  simp only [isPlain, Bool.not_eq_true', Bool.or_eq_false_iff, beq_eq_false_iff_ne] at plain
  obtain ⟨⟨⟨⟨⟨noSpace, noQuote⟩, noCurly⟩, noCurlyToo⟩, noSquare⟩, noSquareToo⟩ := plain
  simp [extent, noSpace, noQuote, noCurly, noCurlyToo, noSquare, noSquareToo]

/-- A character without a meaning is a space or plain. -/
theorem isPlain_of_noMark {c : Char} (noMark : Nesting.isMark c = false) (noSpace : c ≠ ' ') :
    isPlain c = true := by
  simp only [Nesting.isMark, Nesting.isOpener, Nesting.isCloser, Bool.or_eq_false_iff] at noMark
  obtain ⟨⟨noQuote, noCurly, noSquare⟩, noCurlyToo, noSquareToo⟩ := noMark
  simp [isPlain, noSpace, noQuote, noCurly, noSquare, noCurlyToo, noSquareToo]

/-- The brackets of a pair are of one kind. -/
theorem extent_of_pair {opener closer : Char} (pair : BracketPair opener closer) :
    ∃ bracket, ∀ cs, extent opener cs = (.opener bracket, 0) ∧
      extent closer cs = (.closer bracket, 0) := by
  cases pair with
  | curly => exact ⟨.curly, fun _ => ⟨rfl, rfl⟩⟩
  | square => exact ⟨.square, fun _ => ⟨rfl, rfl⟩⟩

/-- A quoted string in one line goes on up to its closing quote. -/
theorem quotedLength_of_quotedBody {quote : Char} {body : List Char} (noEscape : '\\' ≠ quote)
    (inside : QuotedBody quote body) (oneLine : '\n' ∉ body) (rest : List Char) :
    quotedLength quote (body ++ quote :: rest) = body.length + 1 := by
  induction inside with
  | nil => cases rest <;> simp [quotedLength, noEscape.symm]
  | @plain c body noQuote plain _ ih =>
    have later := ih (List.not_mem_of_not_mem_cons oneLine)
    obtain ⟨d, ds, split⟩ := List.exists_cons_of_ne_nil (List.append_ne_nil_of_right_ne_nil body
      (List.cons_ne_nil quote rest))
    rw [split] at later
    simp [split, quotedLength, noQuote, plain, later, Nat.add_comm 1]
  | @escaped c body _ ih =>
    simp only [List.mem_cons, not_or] at oneLine
    obtain ⟨-, noBreak, oneLine⟩ := oneLine
    have later := ih oneLine
    simp [quotedLength, noEscape, Ne.symm noBreak, later]
    omega

end Atom

namespace Token

/-! ## Texts that join -/

/-- The tokens of a text that begins at `start` while `opened` brackets are open. -/
def ofText (opened : List Bracket) (start : Nat) (text : List Char) : List Token :=
  group opened start (Atom.ofLine text)

/-- Puts the characters of a text, if there are any, in front of the first word. -/
def joinText (text : List Char) (start : Nat) (tokens : List Token) : List Token :=
  if text = [] then tokens else joinWord ⟨text, start⟩ tokens

/-- Whatever follows it, the text is a piece of a word, behind which `later` brackets are
open. -/
def Joins (opened : List Bracket) (text : List Char) (later : List Bracket) : Prop :=
  ∀ start rest, ofText opened start (text ++ rest) =
    joinText text start (ofText later (start + byteLength text) rest)

theorem joinWord_joinWord (before after : List Char) (start middle : Nat) (tokens : List Token) :
    joinWord ⟨before, start⟩ (joinWord ⟨after, middle⟩ tokens) =
      joinWord ⟨before ++ after, start⟩ tokens := by
  match tokens with
  | [] => rfl
  | ⟨_, true⟩ :: _ => rfl
  | ⟨_, false⟩ :: _ => simp [joinWord]

theorem joinText_append (before after : List Char) (start : Nat) (tokens : List Token) :
    joinText before start (joinText after (start + byteLength before) tokens) =
      joinText (before ++ after) start tokens := by
  unfold joinText
  by_cases first : before = []
  · simp [first]
  · by_cases second : after = []
    · simp [first, second]
    · simp [first, second, joinWord_joinWord]

section Joins

variable {opened later last : List Bracket} {text more : List Char}

theorem joins_nil (opened : List Bracket) : Joins opened [] opened :=
  fun _ _ => rfl

theorem Joins.append (first : Joins opened text later) (second : Joins later more last) :
    Joins opened (text ++ more) last := by
  intro start rest
  rw [List.append_assoc, first, second, joinText_append, byteLength_append, Nat.add_assoc]

/-- A text that is an atom, whatever follows it, joins unless it is spaces between words. -/
theorem joins_atom {kind : AtomKind} {c : Char} {cs : List Char}
    (atom : ∀ rest, Atom.extent c (cs ++ rest) = (kind, cs.length))
    (joined : ¬(kind = .spaces ∧ opened = [])) :
    Joins opened (c :: cs) (bracketsAfter opened kind) := by
  intro start rest
  rw [ofText, List.cons_append, Atom.ofLine_cons, atom, List.take_left, List.drop_left, group,
    if_neg joined]
  rfl

/-- A character of a run, which ends only where the run does, joins. -/
theorem joins_run {kind : AtomKind} {p : Char → Bool} {c : Char}
    (run : ∀ c cs, p c = true → Atom.extent c cs = (kind, (cs.takeWhile p).length))
    (joined : ¬(kind = .spaces ∧ opened = [])) (still : bracketsAfter opened kind = opened)
    (holds : p c = true) : Joins opened [c] opened := by
  intro start rest
  rw [ofText, List.singleton_append, Atom.ofLine_cons, run c rest holds, group, if_neg joined,
    still]
  cases rest with
  | nil => rfl
  | cons d rest =>
    cases goesOn : p d with
    | false =>
      rw [List.takeWhile_cons_of_neg (by simp [goesOn])]
      rfl
    | true =>
      rw [List.takeWhile_cons_of_pos goesOn, ofText, Atom.ofLine_cons, run d rest goesOn, group,
        if_neg joined, still]
      simp [joinText, joinWord_joinWord, Slice.stop_eq, Nat.add_assoc]

theorem joins_plain {c : Char} (opened : List Bracket) (plain : Atom.isPlain c = true) :
    Joins opened [c] opened :=
  joins_run Atom.extent_of_isPlain (fun alone => AtomKind.noConfusion alone.1) rfl plain

theorem joins_of_plain (opened : List Bracket) (plain : ∀ c ∈ text, Atom.isPlain c = true) :
    Joins opened text opened := by
  induction text with
  | nil => exact joins_nil opened
  | cons c text ih =>
    obtain ⟨first, others⟩ := List.forall_mem_cons.1 plain
    exact (joins_plain opened first).append (ih others)

theorem joins_space (bracketed : opened ≠ []) : Joins opened [' '] opened := by
  have run : ∀ c cs, (c == ' ') = true →
      Atom.extent c cs = (.spaces, (cs.takeWhile (· == ' ')).length) := by
    intro c cs space
    simp [Atom.extent, beq_iff_eq.1 space]
  exact joins_run run (fun alone => bracketed alone.2) rfl rfl

/-- Inside a bracket a character without a meaning joins, a space too. -/
theorem joins_unmarked {c : Char} (noMark : Nesting.isMark c = false) (bracketed : opened ≠ []) :
    Joins opened [c] opened := by
  by_cases space : c = ' '
  · exact space ▸ joins_space bracketed
  · exact joins_plain opened (Atom.isPlain_of_noMark noMark space)

theorem joins_of_unmarked (unmarked : ∀ c ∈ text, Nesting.isMark c = false)
    (bracketed : opened ≠ []) : Joins opened text opened := by
  induction text with
  | nil => exact joins_nil opened
  | cons c text ih =>
    obtain ⟨first, others⟩ := List.forall_mem_cons.1 unmarked
    exact (joins_unmarked first bracketed).append (ih others)

theorem joins_quoted {quote : Char} {body : List Char} (opened : List Bracket)
    (isQuote : Charset.isQuote quote = true) (inside : QuotedBody quote body)
    (oneLine : '\n' ∉ body) : Joins opened (quote :: (body ++ [quote])) opened := by
  have noSpace : quote ≠ ' ' := by
    rintro rfl
    exact absurd isQuote (by decide)
  have atom : ∀ rest, Atom.extent quote (body ++ [quote] ++ rest) =
      (.quoted, (body ++ [quote]).length) := by
    intro rest
    have noEscape := escape_ne_of_isQuote isQuote
    have length := Atom.quotedLength_of_quotedBody noEscape inside oneLine rest
    simp [Atom.extent, noSpace, isQuote, length]
  exact joins_atom atom fun alone => AtomKind.noConfusion alone.1

theorem closeBracket_cons (bracket : Bracket) (opened : List Bracket) :
    closeBracket bracket (bracket :: opened) = opened := by
  simp [closeBracket]

/-- A text in brackets joins if it does so inside of them. -/
theorem joins_bracketed {opener closer : Char} (pair : BracketPair opener closer)
    (inside : ∀ bracket, Joins (bracket :: opened) text (bracket :: opened)) :
    Joins opened (opener :: (text ++ [closer])) opened := by
  obtain ⟨bracket, extent⟩ := Atom.extent_of_pair pair
  have opens : Joins opened [opener] (bracketsAfter opened (.opener bracket)) :=
    joins_atom (fun rest => (extent rest).1) fun alone => AtomKind.noConfusion alone.1
  have closes : Joins (bracket :: opened) [closer]
      (bracketsAfter (bracket :: opened) (.closer bracket)) :=
    joins_atom (fun rest => (extent rest).2) fun alone => AtomKind.noConfusion alone.1
  rw [bracketsAfter, closeBracket_cons] at closes
  exact opens.append ((inside bracket).append closes)

/-- Inside a bracket balanced text joins. -/
theorem joins_of_balanced (balanced : Balanced text) (oneLine : '\n' ∉ text)
    (bracketed : opened ≠ []) : Joins opened text opened := by
  induction balanced generalizing opened with
  | nil => exact joins_nil opened
  | plain noMark => exact joins_unmarked noMark bracketed
  | quoted isQuote inside =>
    exact joins_quoted opened isQuote inside fun mem =>
      oneLine (List.mem_cons_of_mem _ (List.mem_append_left _ mem))
  | nested pair _ ih =>
    refine joins_bracketed pair fun bracket => ih (fun mem => ?_) (List.cons_ne_nil _ _)
    exact oneLine (List.mem_cons_of_mem _ (List.mem_append_left _ mem))
  | append _ _ ih ihSecond =>
    rw [List.mem_append, not_or] at oneLine
    exact (ih oneLine.1 bracketed).append (ihSecond oneLine.2 bracketed)

/-- Texts join with commas between them if each of them does. -/
theorem joins_intercalate {parts : List (List Char)}
    (each : ∀ part ∈ parts, Joins opened part opened) :
    Joins opened ([','].intercalate parts) opened := by
  have comma : Joins opened [','] opened := joins_plain opened (by decide)
  exact intercalate_closed (P := fun text => Joins opened text opened) (joins_nil opened)
    Joins.append comma each

/-- A text that joins from no open bracket to none is a word in front of a space. -/
theorem ofLine_of_joins (joins : Joins [] text []) (nonempty : text ≠ []) :
    ofLine text = [⟨⟨text, 0⟩, false⟩] ∧
      ∀ rest, ∃ others, ofLine (text ++ ' ' :: rest) = ⟨⟨text, 0⟩, false⟩ :: others := by
  constructor
  · have whole := joins 0 []
    rw [List.append_nil, joinText, if_neg nonempty] at whole
    exact whole
  · intro rest
    have whole := joins 0 (' ' :: rest)
    rw [joinText, if_neg nonempty] at whole
    exact ⟨_, whole⟩

end Joins

end Token

end CommandScript
