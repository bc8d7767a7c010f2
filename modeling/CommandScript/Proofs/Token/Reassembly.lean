import CommandScript.Proofs.Token.Balanced

/-!
The tokens of a text reassemble it.

Whatever a text is cut into, as long as the atoms make it up, none is empty and the runs of
spaces among them go on for as long as there are spaces (`Atom.Divides`), the tokens that they
are grouped into lose nothing: they stand one behind the other, words and spaces take turns,
spaces are spaces, and no word begins with one (`Token.Reassembles`). Breaks, unclosed quotes
and stray brackets make no difference.
-/

namespace CommandScript

/-! ## Divisions of a text -/

/-- The atoms divide a text. One that begins with a space is a run of spaces, and all the
spaces there are: those of a longer atom stand behind its first character. -/
structure Atom.Divides (text : List Char) (atoms : List Atom) : Prop where
  whole : atoms.flatMap Atom.text = text
  nonempty : ∀ atom ∈ atoms, atom.text ≠ []
  spaces : ∀ atom ∈ atoms, (atom.kind = .spaces ↔ atom.text.head? = some ' ')
  run : ∀ atom ∈ atoms, atom.kind = .spaces → ∀ c ∈ atom.text, c = ' '
  parted : atoms.IsChain Atom.Parted

/-- An atom that begins with a space is a run of spaces. -/
theorem Atom.spaces_of_head?_ofLine {line : List Char} {atom : Atom} (mem : atom ∈ ofLine line)
    (first : atom.text.head? = some ' ') : atom.kind = .spaces := by
  induction line using line_induction with
  | nil => cases mem
  | cons c cs ih =>
    rw [ofLine_cons] at mem
    rcases List.mem_cons.1 mem with rfl | later
    · obtain rfl := Option.some.inj first
      rfl
    · exact ih later

theorem Atom.ofLine_divides (line : List Char) : Divides line (ofLine line) where
  whole := atomsFrom_flatMap (Nat.le_refl line.length)
  nonempty _ := nonempty_of_mem_atomsFrom
  spaces atom mem := by
    refine ⟨fun spaces => ?_, spaces_of_head?_ofLine mem⟩
    obtain ⟨c, cs, text⟩ := List.exists_cons_of_ne_nil (nonempty_of_mem_atomsFrom mem)
    have space := spaces_of_mem_atomsFrom mem spaces c (text ▸ List.mem_cons_self ..)
    rw [text, space]
    rfl
  run _ := spaces_of_mem_atomsFrom
  parted := atomsFrom_parted line.length line

namespace Token

/-! ## Words -/

/-- No word among the tokens begins with a space. -/
def WordsBegin (tokens : List Token) : Prop :=
  ∀ token ∈ tokens, token.isSpace = false → token.slice.text.head? ≠ some ' '

/-- What is put in front of tokens changes no word but the first. -/
theorem WordsBegin.joinWord (piece : Slice) {tokens : List Token}
    (later : WordsBegin tokens.tail) :
    WordsBegin (joinWord piece tokens).tail := by
  match tokens with
  | [] => exact nofun
  | ⟨_, false⟩ :: _ => exact later
  | ⟨_, true⟩ :: _ => exact List.forall_mem_cons.2 ⟨nofun, later⟩

/-- A word that a piece begins begins as the piece does. -/
theorem WordsBegin.of_joinWord {piece : Slice} {tokens : List Token} (nonempty : piece.text ≠ [])
    (begins : piece.text.head? ≠ some ' ') (later : WordsBegin (Token.joinWord piece tokens).tail) :
    WordsBegin (Token.joinWord piece tokens) := by
  match tokens with
  | [] => exact List.forall_mem_cons.2 ⟨fun _ => begins, later⟩
  | ⟨_, true⟩ :: _ => exact List.forall_mem_cons.2 ⟨fun _ => begins, later⟩
  | ⟨⟨word, _⟩, false⟩ :: _ =>
    refine List.forall_mem_cons.2 ⟨fun _ => ?_, later⟩
    show (piece.text ++ word).head? ≠ some ' '
    rwa [List.head?_append_of_ne_nil _ nonempty]

/-- No word begins with a space, except for one that goes on inside a bracket that is open from
the beginning. -/
theorem group_wordsBegin (opened : List Bracket) (start : Nat) {atoms : List Atom}
    (nonempty : ∀ atom ∈ atoms, atom.text ≠ [])
    (spaces : ∀ atom ∈ atoms, atom.text.head? = some ' ' → atom.kind = .spaces) :
    WordsBegin (group opened start atoms).tail ∧
      (opened = [] → WordsBegin (group opened start atoms)) := by
  induction atoms generalizing opened start with
  | nil => exact ⟨List.forall_mem_nil _, fun _ => List.forall_mem_nil _⟩
  | cons atom atoms ih =>
    rcases atom with ⟨kind, text⟩
    obtain ⟨filled, others⟩ := List.forall_mem_cons.1 nonempty
    obtain ⟨first, spaces⟩ := List.forall_mem_cons.1 spaces
    have later := fun opened => ih opened (Slice.stop ⟨text, start⟩) others spaces
    rw [group]
    split
    · rename_i alone
      have words := (later opened).2 alone.2
      exact ⟨words, fun _ => List.forall_mem_cons.2 ⟨fun word => Bool.noConfusion word, words⟩⟩
    · rename_i joined
      have words := WordsBegin.joinWord ⟨text, start⟩ (later (bracketsAfter opened kind)).1
      refine ⟨words, fun nothing => .of_joinWord filled (fun space => ?_) words⟩
      exact joined ⟨first space, nothing⟩

/-! ## Reassembly -/

/-- Tokens from which a text can be put together again: none is empty, they stand one behind
the other from the beginning of the text to its end, words and runs of spaces take turns, and
no word begins with a space. -/
structure Reassembles (text : List Char) (tokens : List Token) : Prop where
  nonempty : ∀ token ∈ tokens, token.slice.text ≠ []
  starts : ∀ first ∈ tokens.head?, first.slice.start = 0
  adjacent : tokens.IsChain fun token next => next.slice.start = token.slice.stop
  stops : ∀ last ∈ tokens.getLast?, last.slice.stop = byteLength text
  whole : tokens.flatMap (·.slice.text) = text
  turns : tokens.IsChain fun token next => next.isSpace ≠ token.isSpace
  spaces : ∀ token ∈ tokens, token.isSpace = true → ∀ c ∈ token.slice.text, c = ' '
  words : WordsBegin tokens

theorem group_reassembles {text : List Char} {atoms : List Atom}
    (divides : Atom.Divides text atoms) : Reassembles text (group [] 0 atoms) := by
  have tiles := (group_tiles [] 0 divides.nonempty divides.parted).1
  rw [divides.whole] at tiles
  refine ⟨tiles.nonempty, tiles.starts, tiles.adjacent, ?_, tiles.flatMap_text, tiles.turns,
    ?_, ?_⟩
  · simpa using tiles.stops
  · intro token mem space
    obtain ⟨atom, memAtom, spaces, same⟩ := mem_group_of_isSpace mem space
    exact same ▸ divides.run atom memAtom spaces
  · have begins := fun atom mem => (divides.spaces atom mem).2
    exact (group_wordsBegin [] 0 divides.nonempty begins).2 rfl

/-- The tokens of every text reassemble it, and so would those grouped from any other division
of it. -/
theorem ofLine_reassembles (text : List Char) :
    Reassembles text (ofLine text) ∧ Atom.Divides text (Atom.ofLine text) ∧
      ∀ atoms, Atom.Divides text atoms → Reassembles text (group [] 0 atoms) :=
  ⟨group_reassembles (Atom.ofLine_divides text), Atom.ofLine_divides text,
    fun _ => group_reassembles⟩

theorem ofLine_reassembles_split :
    let atoms : List Atom :=
      [⟨.spaces, [' ']⟩, ⟨.plain, ['é', '\n']⟩, ⟨.plain, ['"', ' ', 'x']⟩, ⟨.opener .curly, ['{']⟩,
        ⟨.spaces, [' ']⟩, ⟨.closer .square, [']']⟩, ⟨.spaces, [' ', ' ']⟩]
    let text := [' ', 'é', '\n', '"', ' ', 'x', '{', ' ', ']', ' ', ' ']
    Atom.Divides text atoms ∧ Reassembles text (group [] 0 atoms) := by
  intro atoms text
  have divides : Atom.Divides text atoms :=
    ⟨rfl, by decide, by decide, by simp [atoms], by simp [atoms, Atom.Parted]⟩
  exact ⟨divides, (ofLine_reassembles text).2.2 atoms divides⟩

end Token

end CommandScript
