import CommandScript.Proofs.Token.Lexing
import Mathlib.Data.List.SplitBy

/-!
Tokens, one character at a time.

A `LineScan` goes over a line character by character and keeps the open brackets, the open
quote and whether a backslash protects the character ahead. A space is a separator if
nothing is open when it is reached. The tokens of a line are the longest runs of separators
and the longest runs of other characters (`Token.ofLine_eq_runs`).

Between two atoms the scan is outside of quotes, so only what one atom does to it has to be
known (`LineScan.marks_atom`). A quoted string that is not closed is the exception: it ends
at the end of the line or in front of a last backslash, and there the scan marks what is left
in the same way with the quote open as without it.
-/

namespace CommandScript

/-- Where a scan of a line stands: the open brackets, the latest first, the open quote, and
whether the character ahead is protected. -/
structure LineScan where
  opened : List Bracket
  quote : Option Char
  escaped : Bool
deriving DecidableEq, Repr

namespace LineScan

/-- Nothing is open. -/
def start : LineScan :=
  ⟨[], none, false⟩

/-- The open brackets after a bracket closes: brackets are dropped until its opener is, or
all of them. -/
def dropOpener (bracket : Bracket) : List Bracket → List Bracket
  | [] => []
  | top :: opened => if top = bracket then opened else dropOpener bracket opened

/-- The state after one more character. -/
def step (s : LineScan) (c : Char) : LineScan :=
  match s.quote with
  | some quote =>
    if s.escaped then { s with escaped := false }
    else if c = '\\' then { s with escaped := true }
    else if c = quote then { s with quote := none }
    else s
  | none =>
    if c = '"' ∨ c = '\'' then { s with quote := some c }
    else if c = '\x7b' then { s with opened := .curly :: s.opened }
    else if c = '[' then { s with opened := .square :: s.opened }
    else if c = '\x7d' then { s with opened := dropOpener .curly s.opened }
    else if c = ']' then { s with opened := dropOpener .square s.opened }
    else s

/-- The character is a space that separates words: nothing is open. -/
def separates (s : LineScan) (c : Char) : Bool :=
  c == ' ' && s.quote.isNone && s.opened.isEmpty

/-- Every character of a text with whether it is a separator. -/
def marks (s : LineScan) : List Char → List (Char × Bool)
  | [] => []
  | c :: cs => (c, s.separates c) :: (s.step c).marks cs

/-- Consecutive runs of marked characters as tokens, the first of which begins at `start`. -/
def place (start : Nat) : List (List (Char × Bool)) → List Token
  | [] => []
  | run :: runs =>
    let slice : Slice := ⟨run.map Prod.fst, start⟩
    ⟨slice, run.all Prod.snd⟩ :: place slice.stop runs

/-- The longest runs of separators and of other characters of a line. -/
def runs (line : List Char) : List Token :=
  place 0 ((start.marks line).splitBy fun a b => a.2 == b.2)

/-! ## What an atom does to a scan -/

/-- The state outside of quotes. -/
def outside (opened : List Bracket) : LineScan :=
  ⟨opened, none, false⟩

/-- The state behind an opening quote. -/
def inside (opened : List Bracket) (quote : Char) : LineScan :=
  ⟨opened, some quote, false⟩

/-- All characters of a text with one mark. -/
def markAll (isSeparator : Bool) (text : List Char) : List (Char × Bool) :=
  text.map (·, isSeparator)

section Marks

variable {opened : List Bracket} {quote c : Char} {cs text : List Char}

theorem dropOpener_eq (bracket : Bracket) (opened : List Bracket) :
    dropOpener bracket opened = Token.closeBracket bracket opened := by
  induction opened with
  | nil => rfl
  | cons top opened ih =>
    by_cases opens : top = bracket
    · simp [dropOpener, Token.closeBracket, opens]
    · rw [dropOpener, if_neg opens, ih, Token.closeBracket, Token.closeBracket,
        List.dropWhile_cons_of_pos (by simp [opens])]

theorem marks_cons (s : LineScan) (c : Char) (cs : List Char) :
    s.marks (c :: cs) = (c, s.separates c) :: (s.step c).marks cs :=
  rfl

/-- A run of characters that leave the state alone is marked alike. -/
theorem marks_run {s : LineScan} {p : Char → Bool} {isSeparator : Bool}
    (still : ∀ d, p d = true → s.step d = s ∧ s.separates d = isSeparator) (holds : p c = true) :
    s.marks (c :: cs) = markAll isSeparator (c :: cs.take (cs.takeWhile p).length) ++
      s.marks (cs.drop (cs.takeWhile p).length) := by
  have append : ∀ rest text, (∀ d ∈ text, p d = true) →
      s.marks (text ++ rest) = markAll isSeparator text ++ s.marks rest := by
    intro rest text all
    induction text with
    | nil => rfl
    | cons d text ih =>
      obtain ⟨first, others⟩ := List.forall_mem_cons.1 all
      obtain ⟨step, mark⟩ := still d first
      rw [List.cons_append, marks_cons, step, mark, ih others]
      rfl
  have all : ∀ d ∈ c :: cs.take (cs.takeWhile p).length, p d = true :=
    Atom.all_take_takeWhile holds
  have whole := append (cs.drop (cs.takeWhile p).length) _ all
  rwa [List.cons_append, List.take_append_drop] at whole

theorem step_plain (plain : Atom.isPlain c = true) : (outside opened).step c = outside opened := by
  simp only [Atom.isPlain, Charset.isQuote, Bool.not_eq_true', Bool.or_eq_false_iff,
    beq_eq_false_iff_ne] at plain
  obtain ⟨⟨⟨⟨⟨-, noQuote, noQuoteToo⟩, noCurly⟩, noCurlyToo⟩, noSquare⟩, noSquareToo⟩ := plain
  simp [step, outside, noQuote, noQuoteToo, noCurly, noCurlyToo, noSquare, noSquareToo]

theorem separates_of_ne (s : LineScan) (noSpace : c ≠ ' ') : s.separates c = false := by
  simp [separates, noSpace]

/-- Inside quotes nothing separates, up to the closing quote. Where it is missing, the rest
of the line is marked as if the string had ended there. -/
theorem marks_inside (noEscape : '\\' ≠ quote) (oneLine : '\n' ∉ cs) :
    (inside opened quote).marks cs =
      markAll false (cs.take (Atom.quotedLength quote cs)) ++
        (outside opened).marks (cs.drop (Atom.quotedLength quote cs)) := by
  induction cs using Atom.quotedLength.induct quote with
  | case1 => rfl
  | case2 => rfl
  | case3 c plain => simp [Atom.quotedLength, plain, marks, markAll, separates, inside]
  | case4 d cs =>
    simp [Atom.quotedLength, marks_cons, markAll, separates, inside, outside, step,
      noEscape.symm]
  | case5 cs => simp at oneLine
  | case6 d cs noBreak _ ih =>
    simp only [List.mem_cons, not_or] at oneLine
    have later := ih oneLine.2.2
    have escape : (inside opened quote).step '\\' = ⟨opened, some quote, true⟩ := rfl
    have escaped : step ⟨opened, some quote, true⟩ d = inside opened quote := rfl
    rw [marks_cons, escape, marks_cons, escaped, later]
    simp [Atom.quotedLength, noEscape, noBreak, Nat.add_comm 2, markAll, separates, inside]
  | case7 c d cs noQuote plain ih =>
    have later := ih (List.not_mem_of_not_mem_cons oneLine)
    have step : (inside opened quote).step c = inside opened quote := by
      simp [step, inside, noQuote, plain]
    rw [marks_cons, step, later]
    simp [Atom.quotedLength, noQuote, plain, Nat.add_comm 1, markAll, separates, inside]

/-- The spaces of a run are separators if no bracket is open, and no other atom has any. What
follows is marked as behind the atom. -/
theorem marks_atom (opened : List Bracket) (c : Char) (oneLine : '\n' ∉ cs) :
    (outside opened).marks (c :: cs) =
      markAll ((Atom.extent c cs).1 = .spaces ∧ opened = []) (c :: cs.take (Atom.extent c cs).2) ++
        (outside (Token.bracketsAfter opened (Atom.extent c cs).1)).marks
          (cs.drop (Atom.extent c cs).2) := by
  by_cases plain : Atom.isPlain c = true
  · rw [Atom.extent_of_isPlain c cs plain]
    refine marks_run (fun d plain => ⟨step_plain plain, separates_of_ne _ ?_⟩) plain
    rintro rfl
    exact absurd plain (by decide)
  by_cases isQuote : Charset.isQuote c = true
  · have opens : (outside opened).step c = inside opened c := by
      simp only [Charset.isQuote, Bool.or_eq_true, beq_iff_eq] at isQuote
      simp [step, outside, inside, isQuote]
    have noSpace : c ≠ ' ' := by
      rintro rfl
      exact absurd isQuote (by decide)
    rw [Atom.extent_of_isQuote isQuote, marks_cons, opens, separates_of_ne _ noSpace,
      marks_inside (escape_ne_of_isQuote isQuote) oneLine]
    rfl
  simp only [Atom.isPlain, Bool.not_eq_true', Bool.not_eq_false, Bool.or_eq_true,
    beq_iff_eq] at plain
  rcases plain with ((((rfl | quote) | rfl) | rfl) | rfl) | rfl
  · have still : ∀ d, (d == ' ') = true → (outside opened).step d = outside opened ∧
        (outside opened).separates d = decide (AtomKind.spaces = .spaces ∧ opened = []) := by
      intro d space
      rw [beq_iff_eq.1 space]
      exact ⟨rfl, by cases opened <;> rfl⟩
    exact marks_run still rfl
  · exact absurd quote isQuote
  -- A bracket is an atom of its own.
  · rfl
  · exact congrArg (fun opened => (_, false) :: (outside opened).marks cs) (dropOpener_eq ..)
  · rfl
  · exact congrArg (fun opened => (_, false) :: (outside opened).marks cs) (dropOpener_eq ..)

end Marks

/-! ## Runs -/

/-- The characters of a token with its mark. -/
def marked (t : Token) : List (Char × Bool) :=
  markAll t.isSpace t.slice.text

section Runs

variable {tokens : List Token} {text line : List Char}

theorem flatMap_joinWord (piece : Slice) (tokens : List Token) :
    (Token.joinWord piece tokens).flatMap marked =
      markAll false piece.text ++ tokens.flatMap marked := by
  match tokens with
  | [] => rfl
  | ⟨_, true⟩ :: _ => rfl
  | ⟨_, false⟩ :: _ => simp [Token.joinWord, marked, markAll]

/-- The scan marks the characters of a text as its tokens do. -/
theorem flatMap_ofText (opened : List Bracket) (start : Nat) (oneLine : '\n' ∉ text) :
    (Token.ofText opened start text).flatMap marked = (outside opened).marks text := by
  induction text using Atom.line_induction generalizing opened start with
  | nil => rfl
  | cons c cs ih =>
    have oneLine := List.not_mem_of_not_mem_cons oneLine
    have later := fun opened start =>
      ih opened start fun mem => oneLine (List.mem_of_mem_drop mem)
    rw [marks_atom opened c oneLine, Token.ofText, Atom.ofLine_cons, Token.group]
    split
    · rename_i alone
      rw [List.flatMap_cons, ← Token.ofText, later]
      simp [marked, alone, Token.bracketsAfter]
    · rename_i joined
      rw [flatMap_joinWord, ← Token.ofText, later, decide_eq_false joined]

theorem place_marked {start : Nat} (tiles : Token.Tiles start tokens text) :
    place start (tokens.map marked) = tokens := by
  induction tiles with
  | nil => rfl
  | @cons start token tokens text starts nonempty _ _ ih =>
    rcases token with ⟨⟨word, start⟩, isSpace⟩
    subst starts
    have slice : (markAll isSpace word).map Prod.fst = word := by simp [markAll, Function.comp_def]
    have mark : (markAll isSpace word).all Prod.snd = isSpace := by
      obtain ⟨c, others, rfl⟩ := List.exists_cons_of_ne_nil nonempty
      cases isSpace <;> simp [markAll]
    rw [List.map_cons, place, marked, slice, mark, ih]

/-- The marks of a token are alike and those of neighbours differ, so the runs are the tokens. -/
theorem splitBy_marked {start : Nat} (tiles : Token.Tiles start tokens text) :
    (tokens.flatMap marked).splitBy (fun a b => a.2 == b.2) = tokens.map marked := by
  have nonempty : ∀ token ∈ tokens, marked token ≠ [] := by
    simpa [marked, markAll] using tiles.nonempty
  have alike : ∀ (token : Token), ∀ a ∈ marked token, a.2 = token.isSpace := by
    intro token a mem
    obtain ⟨c, -, rfl⟩ := List.mem_map.1 mem
    rfl
  rw [List.flatMap_def]
  apply List.splitBy_flatten
  · simpa using nonempty
  · refine List.forall_mem_map.2 fun token _ => List.Pairwise.isChain ?_
    refine List.pairwise_of_forall_mem_list fun a memA b memB => ?_
    rw [alike token a memA, alike token b memB]
    exact beq_self_eq_true _
  · rw [List.isChain_map]
    refine tiles.turns.imp_of_mem_imp fun token next mem memNext differ => ?_
    refine ⟨nonempty token mem, nonempty next memNext, ?_⟩
    rw [alike token _ (List.getLast_mem _), alike next _ (List.head_mem _)]
    exact beq_eq_false_iff_ne.2 differ.symm

end Runs

end LineScan

/-- The tokens of a line are its longest runs of separators and of other characters. The atoms
they are made of are the only longest matches of the patterns. -/
theorem Token.ofLine_eq_runs (line : List Char) (oneLine : '\n' ∉ line) :
    Token.ofLine line = LineScan.runs line ∧
      ∀ atoms, Atom.Lexed line atoms ↔ atoms = Atom.ofLine line := by
  have tiles := Token.ofLine_tiles line
  have marks := LineScan.flatMap_ofText [] 0 oneLine
  refine ⟨?_, fun atoms => Atom.lexed_iff⟩
  calc
    Token.ofLine line = LineScan.place 0 ((Token.ofLine line).map LineScan.marked) :=
      (LineScan.place_marked tiles).symm
    _ = LineScan.runs line := by
      rw [← LineScan.splitBy_marked tiles]
      exact congrArg (fun marks => LineScan.place 0 (marks.splitBy fun a b => a.2 == b.2)) marks

theorem Token.ofLine_eq_runs_unclosed :
    let line := ['a', ']', ' ', '{', 'b', ' ', '\'', '}', '\'', '}', ' ', ' ', '"', 'é', ' ', '\\']
    '\n' ∉ line ∧ LineScan.runs line =
      [⟨⟨['a', ']'], 0⟩, false⟩, ⟨⟨[' '], 2⟩, true⟩,
        ⟨⟨['{', 'b', ' ', '\'', '}', '\'', '}'], 3⟩, false⟩, ⟨⟨[' ', ' '], 10⟩, true⟩,
        ⟨⟨['"', 'é', ' ', '\\'], 12⟩, false⟩] := by
  intro line
  have oneLine : '\n' ∉ line := by decide
  exact ⟨oneLine, (Token.ofLine_eq_runs line oneLine).1.symm.trans (by decide)⟩

end CommandScript
