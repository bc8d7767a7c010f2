import CommandScript.Proofs.Token.Balanced

/-!
Atoms as longest matches.

Each kind of atom has a pattern (`Atom.Matches`). A line is lexed if its atoms are, one
after the other, the longest texts that match any pattern (`Atom.Lexed`). There is one way
to do that, and it is what `Atom.ofLine` finds (`Atom.lexed_iff`): the first character
settles the kind (`Atom.Matches.kind_eq`), and no match with that beginning is longer than
the extent of the atom (`Atom.Matches.length_le`).
-/

namespace CommandScript

namespace Atom

/-! ## Patterns -/

/-- What the pattern of a quoted string allows behind the opening quote, within one line. -/
inductive LineBody (quote : Char) : List Char → Prop where
  | nil : LineBody quote []
  | plain {c : Char} {body : List Char} (noQuote : c ≠ quote) (noEscape : c ≠ '\\')
    (rest : LineBody quote body) : LineBody quote (c :: body)
  | escaped {c : Char} {body : List Char} (noBreak : c ≠ '\n') (rest : LineBody quote body) :
    LineBody quote ('\\' :: c :: body)

/-- The patterns of atoms. The closing quote of a quoted string may be missing. -/
inductive Matches : AtomKind → List Char → Prop where
  | spaces {run : List Char} (nonempty : run ≠ []) (all : ∀ c ∈ run, (c == ' ') = true) :
    Matches .spaces run
  | unclosed {quote : Char} {body : List Char} (isQuote : Charset.isQuote quote = true)
    (inside : LineBody quote body) : Matches .quoted (quote :: body)
  | closed {quote : Char} {body : List Char} (isQuote : Charset.isQuote quote = true)
    (inside : LineBody quote body) : Matches .quoted (quote :: (body ++ [quote]))
  | openCurly : Matches (.opener .curly) ['{']
  | openSquare : Matches (.opener .square) ['[']
  | closeCurly : Matches (.closer .curly) ['}']
  | closeSquare : Matches (.closer .square) [']']
  | plain {run : List Char} (nonempty : run ≠ []) (all : ∀ c ∈ run, isPlain c = true) :
    Matches .plain run

/-- The atom is a longest one that a text begins with. -/
structure LongestMatch (atom : Atom) (text : List Char) : Prop where
  begins : atom.text <+: text
  fits : Matches atom.kind atom.text
  longest : ∀ kind run, Matches kind run → run <+: text → run.length ≤ atom.text.length

/-- The atoms are longest matches that make up a text, one after the other. -/
inductive Lexed : List Char → List Atom → Prop where
  | nil : Lexed [] []
  | cons {atom : Atom} {atoms : List Atom} {text : List Char} (first : LongestMatch atom text)
    (later : Lexed (text.drop atom.text.length) atoms) : Lexed text (atom :: atoms)

/-! ## The extent of an atom -/

section Extent

variable {kind : AtomKind} {quote c : Char} {body run cs : List Char}

theorem extent_of_isQuote (isQuote : Charset.isQuote c = true) (cs : List Char) :
    extent c cs = (.quoted, quotedLength c cs) := by
  have noSpace : c ≠ ' ' := by
    rintro rfl
    exact absurd isQuote (by decide)
  simp [extent, noSpace, isQuote]

/-- A run of characters that a text begins with is not longer than the longest such. -/
theorem length_le_takeWhile {p : Char → Bool} (all : ∀ d ∈ run, p d = true) (begins : run <+: cs) :
    run.length ≤ (cs.takeWhile p).length := by
  obtain ⟨rest, rfl⟩ := begins
  rw [List.takeWhile_append_of_pos all, List.length_append]
  exact Nat.le_add_right ..

/-- What is taken of a text up to the end of a run is the run. -/
theorem all_take_takeWhile {p : Char → Bool} (holds : p c = true) :
    ∀ d ∈ c :: cs.take (cs.takeWhile p).length, p d = true := by
  rw [← List.prefix_iff_eq_take.1 (List.takeWhile_prefix p)]
  exact List.forall_mem_cons.2 ⟨holds, List.all_eq_true.1 List.all_takeWhile⟩

/-- The inside of a quoted string ends at its first quote, if not before. -/
theorem LineBody.length_le (inside : LineBody quote body) (noEscape : '\\' ≠ quote)
    (begins : body <+: cs) : body.length ≤ quotedLength quote cs := by
  induction inside generalizing cs with
  | nil => exact Nat.zero_le _
  | @plain c body noQuote plain _ ih =>
    obtain ⟨rest, rfl⟩ := begins
    have later := ih (List.prefix_append body rest)
    cases more : body ++ rest with
    | nil => simp [List.append_eq_nil_iff.1 more, quotedLength, plain]
    | cons d ds =>
      rw [more] at later
      simp only [List.cons_append, more, quotedLength, noQuote, plain, if_false, List.length_cons]
      omega
  | @escaped c body noBreak _ ih =>
    obtain ⟨rest, rfl⟩ := begins
    have later := ih (List.prefix_append body rest)
    simp only [List.cons_append, quotedLength, noEscape, noBreak, if_false, if_true,
      List.length_cons]
    omega

theorem LineBody.length_lt (inside : LineBody quote body) (noEscape : '\\' ≠ quote)
    (begins : body ++ [quote] <+: cs) : body.length < quotedLength quote cs := by
  induction inside generalizing cs with
  | nil =>
    obtain ⟨rest, rfl⟩ := begins
    cases rest <;> simp [quotedLength, noEscape.symm]
  | @plain c body noQuote plain _ ih =>
    obtain ⟨rest, rfl⟩ := begins
    have later := ih (List.prefix_append (body ++ [quote]) rest)
    cases more : body ++ [quote] ++ rest with
    | nil => simp at more
    | cons d ds =>
      rw [more] at later
      simp only [List.cons_append, more, quotedLength, noQuote, plain, if_false, List.length_cons]
      omega
  | @escaped c body noBreak _ ih =>
    obtain ⟨rest, rfl⟩ := begins
    have later := ih (List.prefix_append (body ++ [quote]) rest)
    simp only [List.cons_append, quotedLength, noEscape, noBreak, if_false, if_true,
      List.length_cons]
    omega

/-- Behind an opening quote stands the inside of a string, with its closing quote or
without. -/
theorem take_quotedLength (noEscape : '\\' ≠ quote) (cs : List Char) :
    LineBody quote (cs.take (quotedLength quote cs)) ∨
      ∃ body, LineBody quote body ∧ cs.take (quotedLength quote cs) = body ++ [quote] := by
  induction cs using quotedLength.induct quote with
  | case1 => exact Or.inl .nil
  | case2 => exact Or.inl (by simpa [quotedLength] using LineBody.nil)
  | case3 c plain =>
    by_cases closes : c = quote
    · exact Or.inr ⟨[], .nil, by simp [quotedLength, closes, noEscape.symm]⟩
    · exact Or.inl (by simpa [quotedLength, plain] using LineBody.plain closes plain .nil)
  | case4 d cs => exact Or.inr ⟨[], .nil, by simp [quotedLength]⟩
  | case5 cs differs => exact Or.inl (by simpa [quotedLength, noEscape] using LineBody.nil)
  | case6 d cs noBreak _ ih =>
    simp only [quotedLength, noEscape, noBreak, if_false, if_true, Nat.add_comm 2, List.take]
    rcases ih with inside | ⟨body, inside, closed⟩
    · exact Or.inl (.escaped noBreak inside)
    · exact Or.inr ⟨'\\' :: d :: body, .escaped noBreak inside, by simp [closed]⟩
  | case7 c d cs noQuote plain ih =>
    simp only [quotedLength, noQuote, plain, if_false, Nat.add_comm 1, List.take]
    rcases ih with inside | ⟨body, inside, closed⟩
    · exact Or.inl (.plain noQuote plain inside)
    · exact Or.inr ⟨c :: body, .plain noQuote plain inside, by simp [closed]⟩

/-! ## Longest matches -/

/-- The first character of a match settles the kind. -/
theorem Matches.kind_eq (fits : Matches kind (c :: run)) (cs : List Char) :
    kind = (extent c cs).1 := by
  cases fits with
  | spaces _ all =>
    have space := beq_iff_eq.1 (all c (List.mem_cons_self ..))
    simp [extent, space]
  | unclosed isQuote => rw [extent_of_isQuote isQuote]
  | closed isQuote => rw [extent_of_isQuote isQuote]
  | openCurly | openSquare | closeCurly | closeSquare => rfl
  | plain _ all => rw [extent_of_isPlain c cs (all c (List.mem_cons_self ..))]

/-- No match is longer than the atom that begins with its first character. -/
theorem Matches.length_le (fits : Matches kind (c :: run)) (begins : run <+: cs) :
    run.length ≤ (extent c cs).2 := by
  cases fits with
  | spaces _ all =>
    obtain ⟨space, others⟩ := List.forall_mem_cons.1 all
    simpa [extent, beq_iff_eq.1 space] using length_le_takeWhile others begins
  | unclosed isQuote inside =>
    rw [extent_of_isQuote isQuote]
    exact inside.length_le (escape_ne_of_isQuote isQuote) begins
  | closed isQuote inside =>
    rw [extent_of_isQuote isQuote, List.length_append]
    exact inside.length_lt (escape_ne_of_isQuote isQuote) begins
  | openCurly | openSquare | closeCurly | closeSquare => exact Nat.zero_le _
  | plain _ all =>
    obtain ⟨first, others⟩ := List.forall_mem_cons.1 all
    rw [extent_of_isPlain c cs first]
    exact length_le_takeWhile others begins

/-- An atom matches the pattern of its kind. -/
theorem extent_matches (c : Char) (cs : List Char) :
    Matches (extent c cs).1 (c :: cs.take (extent c cs).2) := by
  by_cases plain : isPlain c = true
  · rw [extent_of_isPlain c cs plain]
    exact .plain (List.cons_ne_nil _ _) (all_take_takeWhile plain)
  by_cases isQuote : Charset.isQuote c = true
  · rw [extent_of_isQuote isQuote]
    rcases take_quotedLength (escape_ne_of_isQuote isQuote) cs with inside | ⟨body, inside, closed⟩
    · exact .unclosed isQuote inside
    · exact closed ▸ .closed isQuote inside
  simp only [isPlain, Bool.not_eq_true', Bool.not_eq_false, Bool.or_eq_true, beq_iff_eq] at plain
  rcases plain with ((((rfl | quote) | rfl) | rfl) | rfl) | rfl
  · exact .spaces (List.cons_ne_nil _ _) (all_take_takeWhile rfl)
  · exact absurd quote isQuote
  · exact .openCurly
  · exact .closeCurly
  · exact .openSquare
  · exact .closeSquare

/-- The atom that begins a text is its only longest match. -/
theorem longestMatch_iff {atom : Atom} :
    LongestMatch atom (c :: cs) ↔ atom = ⟨(extent c cs).1, c :: cs.take (extent c cs).2⟩ := by
  have beginsHere : c :: cs.take (extent c cs).2 <+: c :: cs :=
    List.cons_prefix_cons.2 ⟨rfl, List.take_prefix ..⟩
  constructor
  · intro longest
    rcases atom with ⟨kind, text⟩
    obtain ⟨begins, fits, longest⟩ := longest
    have atLeast := longest _ _ (extent_matches c cs) beginsHere
    cases text with
    | nil => simp at atLeast
    | cons d run =>
      obtain ⟨rfl, later⟩ := List.cons_prefix_cons.1 begins
      have atMost := fits.length_le later
      have length : run.length = (cs.take (extent d cs).2).length := by
        simp only [List.length_cons, List.length_take] at atLeast ⊢
        have inside := later.length_le
        omega
      have same := List.prefix_of_prefix_length_le later (List.take_prefix (extent d cs).2 cs)
        (Nat.le_of_eq length)
      rw [same.eq_of_length length]
      exact congrArg (Atom.mk · _) (fits.kind_eq cs)
  · rintro rfl
    refine ⟨beginsHere, extent_matches c cs, fun kind run fits begins => ?_⟩
    cases run with
    | nil => exact Nat.zero_le _
    | cons d run =>
      obtain ⟨rfl, later⟩ := List.cons_prefix_cons.1 begins
      have atMost := fits.length_le later
      have inside := later.length_le
      simp only [List.length_cons, List.length_take]
      omega

end Extent

theorem Matches.ne_nil {kind : AtomKind} {run : List Char} (fits : Matches kind run) :
    run ≠ [] := by
  cases fits with
  | spaces nonempty | plain nonempty => exact nonempty
  | _ => exact List.cons_ne_nil _ _

/-- The atoms of a line are the only way to lex it. -/
theorem lexed_iff {line : List Char} {atoms : List Atom} :
    Lexed line atoms ↔ atoms = ofLine line := by
  have behind : ∀ c cs, (c :: cs).drop (c :: cs.take (extent c cs).2).length =
      cs.drop (extent c cs).2 := by
    intro c cs
    rw [List.length_cons, List.drop_succ_cons, List.length_take]
    rcases Nat.le_total (extent c cs).2 cs.length with le | le
    · rw [Nat.min_eq_left le]
    · rw [Nat.min_eq_right le, List.drop_length, List.drop_eq_nil_of_le le]
  constructor
  · intro lexed
    induction lexed with
    | nil => rfl
    | @cons atom atoms text first later ih =>
      cases text with
      | nil => exact absurd (List.prefix_nil.1 first.begins) first.fits.ne_nil
      | cons c cs =>
        obtain rfl := longestMatch_iff.1 first
        rw [ofLine_cons, ih, behind]
  · rintro rfl
    induction line using line_induction with
    | nil => exact .nil
    | cons c cs ih =>
      rw [ofLine_cons]
      refine .cons (longestMatch_iff.2 rfl) ?_
      rwa [behind]

end Atom

end CommandScript
