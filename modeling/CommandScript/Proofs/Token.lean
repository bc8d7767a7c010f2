import CommandScript.Proofs.Text.Slice
import CommandScript.Token
import Mathlib.Data.List.Chain

/-!
The tokens of a line.

Joined together the tokens are the line again, each begins where the one before it
ends, none is empty, and words and spaces take turns (`Token.ofLine_tiles`). The
turns come from the atoms: a run of spaces takes all spaces there are, so no two
of them are neighbours (`Atom.atomsFrom_parted`).
-/

namespace CommandScript

/-! ## Atoms -/

namespace Atom

/-- The atoms are not both runs of spaces. -/
def Parted (a b : Atom) : Prop :=
  ¬(a.kind = .spaces ∧ b.kind = .spaces)

/-- Only a space begins a run of spaces, which goes on for as long as it can. -/
theorem extent_eq_spaces {c : Char} {cs : List Char} {n : Nat} (run : extent c cs = (.spaces, n)) :
    c = ' ' ∧ n = (cs.takeWhile (· == ' ')).length := by
  unfold extent at run
  split at run
  · rename_i space
    exact ⟨space, (Prod.mk.inj run).2.symm⟩
  · repeat' split at run
    all_goals exact absurd (Prod.mk.inj run).1 (by decide)

theorem atomsFrom_cons (fuel : Nat) (c : Char) (cs : List Char) :
    atomsFrom (fuel + 1) (c :: cs) =
      ⟨(extent c cs).1, c :: cs.take (extent c cs).2⟩ :: atomsFrom fuel (cs.drop (extent c cs).2) :=
  rfl

theorem atomsFrom_flatMap {fuel : Nat} {cs : List Char} (enough : cs.length ≤ fuel) :
    (atomsFrom fuel cs).flatMap Atom.text = cs := by
  induction fuel generalizing cs with
  | zero =>
    obtain rfl := List.length_eq_zero_iff.1 (Nat.le_zero.1 enough)
    rfl
  | succ fuel ih =>
    cases cs with
    | nil => rfl
    | cons c cs =>
      have rest : (cs.drop (extent c cs).2).length ≤ fuel := by
        rw [List.length_drop]
        simp only [List.length_cons] at enough
        omega
      rw [atomsFrom_cons, List.flatMap_cons, ih rest, List.cons_append, List.take_append_drop]

theorem nonempty_of_mem_atomsFrom {fuel : Nat} {cs : List Char} {atom : Atom}
    (mem : atom ∈ atomsFrom fuel cs) : atom.text ≠ [] := by
  induction fuel generalizing cs with
  | zero => cases mem
  | succ fuel ih =>
    cases cs with
    | nil => cases mem
    | cons c cs =>
      rcases List.mem_cons.1 mem with rfl | later
      · exact List.cons_ne_nil _ _
      · exact ih later

/-- A run of spaces is made of spaces. -/
theorem spaces_of_mem_atomsFrom {fuel : Nat} {cs : List Char} {atom : Atom}
    (mem : atom ∈ atomsFrom fuel cs) (spaces : atom.kind = .spaces) :
    ∀ c ∈ atom.text, c = ' ' := by
  induction fuel generalizing cs with
  | zero => cases mem
  | succ fuel ih =>
    cases cs with
    | nil => cases mem
    | cons c cs =>
      rw [atomsFrom_cons] at mem
      rcases List.mem_cons.1 mem with rfl | later
      · have run : extent c cs = (.spaces, (extent c cs).2) := Prod.ext spaces rfl
        obtain ⟨first, length⟩ := extent_eq_spaces run
        have rest : cs.take (extent c cs).2 = cs.takeWhile (· == ' ') := by
          rw [length]
          exact (List.prefix_iff_eq_take.1 (List.takeWhile_prefix _)).symm
        rw [rest]
        refine List.forall_mem_cons.2 ⟨first, fun d memRun => ?_⟩
        exact beq_iff_eq.1 (List.all_eq_true.1 List.all_takeWhile d memRun)
      · exact ih later

/-- A run of spaces begins with a space. -/
theorem head?_of_spaces {fuel : Nat} {cs : List Char} {atom : Atom}
    (first : (atomsFrom fuel cs).head? = some atom) (spaces : atom.kind = .spaces) :
    cs.head? = some ' ' := by
  cases fuel with
  | zero => cases first
  | succ fuel =>
    cases cs with
    | nil => cases first
    | cons c cs =>
      rw [atomsFrom_cons] at first
      obtain rfl := Option.some.inj first
      have run : extent c cs = (.spaces, (extent c cs).2) := Prod.ext spaces rfl
      rw [(extent_eq_spaces run).1]
      rfl

theorem head?_drop_takeWhile {p : Char → Bool} {cs : List Char} {c : Char}
    (first : (cs.drop (cs.takeWhile p).length).head? = some c) : p c = false := by
  induction cs with
  | nil => cases first
  | cons d cs ih =>
    cases holds : p d with
    | true =>
      rw [List.takeWhile_cons_of_pos holds] at first
      exact ih first
    | false =>
      rw [List.takeWhile_cons_of_neg (by simp [holds])] at first
      obtain rfl := Option.some.inj first
      exact holds

/-- No two runs of spaces are neighbours. -/
theorem atomsFrom_parted (fuel : Nat) (cs : List Char) :
    (atomsFrom fuel cs).IsChain Parted := by
  induction fuel generalizing cs with
  | zero => exact .nil
  | succ fuel ih =>
    cases cs with
    | nil => exact .nil
    | cons c cs =>
      rw [atomsFrom_cons]
      refine List.isChain_cons.2 ⟨fun next first => ?_, ih _⟩
      rintro ⟨spaces, spacesNext⟩
      have run : extent c cs = (.spaces, (extent c cs).2) := Prod.ext spaces rfl
      have length := (extent_eq_spaces run).2
      have begins := head?_of_spaces first spacesNext
      rw [length] at begins
      exact absurd (head?_drop_takeWhile begins) (by decide)

end Atom

/-! ## Tokens -/

namespace Token

/-- The tokens make up a text that begins at an offset: each begins where the one
before it ends, none is empty, and words and spaces take turns. -/
inductive Tiles : Nat → List Token → List Char → Prop where
  | nil {start : Nat} : Tiles start [] []
  | cons {start : Nat} {token : Token} {tokens : List Token} {text : List Char}
    (starts : token.slice.start = start) (nonempty : token.slice.text ≠ [])
    (turns : ∀ next ∈ tokens.head?, next.isSpace ≠ token.isSpace)
    (later : Tiles token.slice.stop tokens text) :
    Tiles start (token :: tokens) (token.slice.text ++ text)

section Tiles

variable {start : Nat} {tokens : List Token} {text : List Char}

theorem Tiles.nonempty (tiles : Tiles start tokens text) :
    ∀ token ∈ tokens, token.slice.text ≠ [] := by
  induction tiles with
  | nil => exact nofun
  | cons _ nonempty _ _ ih => exact List.forall_mem_cons.2 ⟨nonempty, ih⟩

theorem Tiles.turns (tiles : Tiles start tokens text) :
    tokens.IsChain fun token next => next.isSpace ≠ token.isSpace := by
  induction tiles with
  | nil => exact .nil
  | cons _ _ turns _ ih => exact List.isChain_cons.2 ⟨turns, ih⟩

theorem Tiles.starts (tiles : Tiles start tokens text) :
    ∀ first ∈ tokens.head?, first.slice.start = start := by
  intro first head
  cases tiles with
  | nil => cases head
  | cons starts => exact Option.some.inj head ▸ starts

theorem Tiles.adjacent (tiles : Tiles start tokens text) :
    tokens.IsChain fun token next => next.slice.start = token.slice.stop := by
  induction tiles with
  | nil => exact .nil
  | cons _ _ _ later ih => exact List.isChain_cons.2 ⟨later.starts, ih⟩

theorem Tiles.start_le (tiles : Tiles start tokens text) :
    ∀ token ∈ tokens, start ≤ token.slice.start := by
  induction tiles with
  | nil => exact nofun
  | @cons start token tokens text starts _ _ later ih =>
    refine List.forall_mem_cons.2 ⟨Nat.le_of_eq starts.symm, fun next mem => ?_⟩
    exact starts ▸ Nat.le_trans token.slice.start_le_stop (ih next mem)

/-- Every token begins behind those in front of it. -/
theorem Tiles.increasing (tiles : Tiles start tokens text) :
    tokens.Pairwise fun token next => token.slice.start < next.slice.start := by
  induction tiles with
  | nil => exact .nil
  | cons _ nonempty _ later ih =>
    refine List.pairwise_cons.2 ⟨fun next mem => ?_, ih⟩
    exact Nat.lt_of_lt_of_le (Slice.start_lt_stop nonempty) (later.start_le next mem)

theorem Tiles.flatMap_text (tiles : Tiles start tokens text) :
    tokens.flatMap (·.slice.text) = text := by
  induction tiles with
  | nil => rfl
  | cons _ _ _ _ ih => rw [List.flatMap_cons, ih]

theorem Tiles.stops (tiles : Tiles start tokens text) :
    ∀ last ∈ tokens.getLast?, last.slice.stop = start + byteLength text := by
  induction tiles with
  | nil => exact nofun
  | @cons start token tokens text starts _ _ later ih =>
    intro last isLast
    have stop : token.slice.stop = start + byteLength token.slice.text := by
      rw [Slice.stop_eq, starts]
    cases later with
    | nil =>
      obtain rfl := Option.some.inj isLast
      simpa using stop
    | cons =>
      rw [List.getLast?_cons_cons] at isLast
      rw [ih last isLast, stop, Nat.add_assoc, ← byteLength_append]

end Tiles

/-- A piece of a word in front of some tokens joins the word that they begin with. -/
theorem joinWord_tiles {piece : Slice} {tokens : List Token} {text : List Char}
    (nonempty : piece.text ≠ []) (tiles : Tiles piece.stop tokens text) :
    Tiles piece.start (joinWord piece tokens) (piece.text ++ text) := by
  cases tiles with
  | nil => exact .cons rfl nonempty nofun .nil
  | @cons _ token tokens text starts some turns later =>
    rcases token with ⟨⟨word, start⟩, isSpace⟩
    obtain rfl : start = piece.stop := starts
    cases isSpace with
    | true =>
      refine .cons rfl nonempty ?_ (.cons rfl some turns later)
      rintro next ⟨⟩
      exact Bool.noConfusion
    | false =>
      have stop : Slice.stop ⟨piece.text ++ word, piece.start⟩ = Slice.stop ⟨word, piece.stop⟩ := by
        simp only [Slice.stop_eq, byteLength_append, Nat.add_assoc]
      rw [← stop] at later
      rw [← List.append_assoc]
      exact .cons rfl (by simp [nonempty]) turns later

/-- Grouped atoms make up their text, and only a run of spaces is grouped into a
token of spaces at the beginning. -/
theorem group_tiles (opened : List Bracket) (start : Nat) {atoms : List Atom}
    (nonempty : ∀ atom ∈ atoms, atom.text ≠ []) (parted : atoms.IsChain Atom.Parted) :
    Tiles start (group opened start atoms) (atoms.flatMap Atom.text) ∧
      ∀ token ∈ (group opened start atoms).head?, token.isSpace = true →
        ∃ atom ∈ atoms.head?, atom.kind = .spaces := by
  induction atoms generalizing opened start with
  | nil => exact ⟨.nil, nofun⟩
  | cons atom atoms ih =>
    rcases atom with ⟨kind, text⟩
    have some := nonempty ⟨kind, text⟩ (List.mem_cons_self ..)
    rcases List.isChain_cons.1 parted with ⟨partedFirst, partedLater⟩
    have later := fun opened => ih opened (Slice.stop ⟨text, start⟩)
      (fun atom mem => nonempty atom (List.mem_cons_of_mem _ mem)) partedLater
    rw [List.flatMap_cons, group]
    split
    · rename_i alone
      obtain ⟨tiles, fromSpaces⟩ := later opened
      refine ⟨.cons rfl some (fun next first isSpace => ?_) tiles, fun _ _ _ => ⟨_, rfl, alone.1⟩⟩
      obtain ⟨atom, firstAtom, spaces⟩ := fromSpaces next first isSpace
      exact partedFirst atom firstAtom ⟨alone.1, spaces⟩
    · obtain ⟨tiles, -⟩ := later (bracketsAfter opened kind)
      refine ⟨joinWord_tiles some tiles, fun token first isSpace => ?_⟩
      -- What a piece of a word is joined to begins with a word.
      generalize group (bracketsAfter opened kind) (Slice.stop ⟨text, start⟩) atoms = tokens
        at first
      match tokens, first with
      | [], rfl => cases isSpace
      | ⟨_, false⟩ :: _, rfl => cases isSpace
      | ⟨_, true⟩ :: _, rfl => cases isSpace

/-- The tokens of a line make up the line. -/
theorem ofLine_tiles (line : List Char) : Tiles 0 (ofLine line) line := by
  have whole := Atom.atomsFrom_flatMap (Nat.le_refl line.length)
  have tiles := (group_tiles [] 0 (fun _ => Atom.nonempty_of_mem_atomsFrom)
    (Atom.atomsFrom_parted line.length line)).1
  rw [whole] at tiles
  exact tiles

/-! ## Tokens of spaces -/

theorem mem_of_mem_joinWord {piece : Slice} {tokens : List Token} {token : Token}
    (mem : token ∈ joinWord piece tokens) (space : token.isSpace = true) : token ∈ tokens := by
  unfold joinWord at mem
  split at mem
  · rcases List.mem_cons.1 mem with rfl | later
    · cases space
    · exact List.mem_cons_of_mem _ later
  · rcases List.mem_cons.1 mem with rfl | later
    · cases space
    · exact later

/-- A token of spaces is one of the atoms that are grouped. -/
theorem mem_group_of_isSpace {opened : List Bracket} {start : Nat} {atoms : List Atom}
    {token : Token} (mem : token ∈ group opened start atoms) (space : token.isSpace = true) :
    ∃ atom ∈ atoms, atom.kind = .spaces ∧ token.slice.text = atom.text := by
  induction atoms generalizing opened start with
  | nil => cases mem
  | cons atom atoms ih =>
    rcases atom with ⟨kind, text⟩
    rw [group] at mem
    split at mem
    · rename_i alone
      rcases List.mem_cons.1 mem with rfl | later
      · exact ⟨_, List.mem_cons_self .., alone.1, rfl⟩
      · obtain ⟨atom, memAtom, spaces, same⟩ := ih later
        exact ⟨atom, List.mem_cons_of_mem _ memAtom, spaces, same⟩
    · obtain ⟨atom, memAtom, spaces, same⟩ := ih (mem_of_mem_joinWord mem space)
      exact ⟨atom, List.mem_cons_of_mem _ memAtom, spaces, same⟩

/-- A token of spaces is made of spaces. -/
theorem spaces_of_mem_ofLine {line : List Char} {token : Token} (mem : token ∈ ofLine line)
    (space : token.isSpace = true) : ∀ c ∈ token.slice.text, c = ' ' := by
  obtain ⟨atom, memAtom, spaces, same⟩ := mem_group_of_isSpace mem space
  rw [same]
  exact Atom.spaces_of_mem_atomsFrom memAtom spaces

/-- Leading spaces are the first token, and a line without them begins with a word. -/
theorem ofLine_leading (line : List Char) :
    (∃ others, ofLine line = ⟨⟨line.takeWhile (· == ' '), 0⟩, true⟩ :: others) ∨
      line.takeWhile (· == ' ') = [] ∧ ∀ first ∈ (ofLine line).head?, first.isSpace = false := by
  cases line with
  | nil => exact Or.inr ⟨rfl, nofun⟩
  | cons c cs =>
    by_cases space : c = ' '
    · subst space
      have run : Atom.extent ' ' cs = (.spaces, (cs.takeWhile (· == ' ')).length) := rfl
      have rest : cs.take (cs.takeWhile (· == ' ')).length = cs.takeWhile (· == ' ') :=
        (List.prefix_iff_eq_take.1 (List.takeWhile_prefix _)).symm
      left
      rw [ofLine, Atom.ofLine, List.length_cons, Atom.atomsFrom_cons, run, rest, group,
        if_pos ⟨rfl, rfl⟩]
      exact ⟨_, rfl⟩
    · refine Or.inr ⟨List.takeWhile_cons_of_neg (by simpa using space), fun first head => ?_⟩
      cases isSpace : first.isSpace with
      | false => rfl
      | true =>
        have nonempty : ∀ atom ∈ Atom.ofLine (c :: cs), atom.text ≠ [] :=
          fun _ => Atom.nonempty_of_mem_atomsFrom
        obtain ⟨-, fromSpaces⟩ := group_tiles [] 0 nonempty (Atom.atomsFrom_parted _ _)
        obtain ⟨atom, firstAtom, spaces⟩ := fromSpaces first head isSpace
        exact absurd (Option.some.inj (Atom.head?_of_spaces firstAtom spaces)) space

end Token

end CommandScript
