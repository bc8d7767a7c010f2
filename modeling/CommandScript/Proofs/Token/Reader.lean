import CommandScript.Proofs.List
import CommandScript.Proofs.Token
import CommandScript.Token.Reader

/-!
Where a reader stands.

A reader over the last tokens of a line divides the line into what is read and what
is not (`TokenReader.Valid.unread`). Its offset is the place between the two: the
next token begins there, and the reader is at the end of that token once it has
passed it. Behind a word stands a run of spaces or the end of the line, and behind
spaces a word or the end.
-/

namespace CommandScript

theorem Token.Tiles.of_suffix {start : Nat} {tokens later : List Token} {text : List Char}
    (tiles : Tiles start tokens text) (suffix : later <:+ tokens) :
    ∃ before rest, text = before ++ rest ∧ Tiles (start + byteLength before) later rest := by
  induction tiles with
  | nil =>
    obtain rfl := List.suffix_nil.1 suffix
    exact ⟨[], [], rfl, .nil⟩
  | @cons start token tokens text starts nonempty turns tiles ih =>
    rcases List.suffix_cons_iff.1 suffix with rfl | suffix
    · exact ⟨[], _, rfl, .cons starts nonempty turns tiles⟩
    · obtain ⟨before, rest, rfl, inner⟩ := ih suffix
      refine ⟨token.slice.text ++ before, rest, by rw [List.append_assoc], ?_⟩
      rwa [byteLength_append, ← Nat.add_assoc, ← starts]

namespace TokenReader

/-! ## Positions -/

/-- The tokens at hand are the last ones of the line, and no more are read than there
are. -/
structure Valid (r : TokenReader) : Prop where
  tokens : r.tokens <:+ Token.ofLine r.line
  index : r.index ≤ r.tokens.length

/-- The next token, if there is one, is a word. -/
def AtWord (r : TokenReader) : Prop :=
  ∀ token ∈ r.current?, token.isSpace = false

/-- The next token, if there is one, is a run of spaces. -/
def AtSeparator (r : TokenReader) : Prop :=
  ∀ token ∈ r.current?, token.isSpace = true

variable {r : TokenReader}

theorem current?_eq_head? (r : TokenReader) : r.current? = (r.tokens.drop r.index).head? := by
  rw [List.head?_drop]
  rfl

theorem current?_eq_none_iff : r.current? = none ↔ r.atEnd = true := by
  rw [current?, List.getElem?_eq_none_iff, atEnd, decide_eq_true_eq]

theorem atEnd_eq_false {token : Token} (found : r.current? = some token) : r.atEnd = false := by
  cases ends : r.atEnd with
  | false => rfl
  | true => rw [current?_eq_none_iff.2 ends] at found; cases found

theorem currentWord?_eq_some {word : Slice} (found : r.currentWord? = some word) :
    r.current? = some ⟨word, false⟩ := by
  unfold currentWord? at found
  split at found
  · rename_i token current
    rcases token with ⟨slice, isSpace⟩
    cases isSpace with
    | true => cases found
    | false =>
      obtain rfl : slice = word := Option.some.inj found
      exact current
  · cases found

theorem currentWord?_of_current? {word : Slice} (found : r.current? = some ⟨word, false⟩) :
    r.currentWord? = some word := by
  rw [currentWord?, found]
  rfl

theorem currentWord?_of_atEnd (ends : r.atEnd = true) : r.currentWord? = none := by
  rw [currentWord?, current?_eq_none_iff.2 ends]

theorem atWord_of_current? {word : Slice} (found : r.current? = some ⟨word, false⟩) :
    r.AtWord := by
  intro token current
  obtain rfl := Option.some.inj (found.symm.trans current)
  rfl

/-- At a word or at the end, a reader that stands on no word is at the end. -/
theorem AtWord.current?_eq_none (atWord : r.AtWord) (none : r.currentWord? = none) :
    r.current? = .none := by
  cases current : r.current? with
  | none => rfl
  | some token =>
    simp [currentWord?, current, atWord token current] at none

theorem AtWord.currentWord?_eq_some (atWord : r.AtWord) (ends : r.atEnd = false) :
    ∃ word, r.currentWord? = some word := by
  cases none : r.currentWord? with
  | some word => exact ⟨word, rfl⟩
  | none =>
    rw [current?_eq_none_iff.1 (atWord.current?_eq_none none)] at ends
    cases ends

theorem atWord_of_atEnd (ends : r.atEnd = true) : r.AtWord := by
  intro token current
  rw [current?_eq_none_iff.2 ends] at current
  cases current

theorem atSeparator_of_atEnd (ends : r.atEnd = true) : r.AtSeparator := by
  intro token current
  rw [current?_eq_none_iff.2 ends] at current
  cases current

/-- What the unread tokens make up begins at the offset of the reader. -/
theorem offset_eq {start : Nat} {text : List Char}
    (tiles : Token.Tiles start (r.tokens.drop r.index) text)
    (stop : start + byteLength text = byteLength r.line) : r.offset = start := by
  have current := r.current?_eq_head?
  unfold offset
  generalize r.tokens.drop r.index = tokens at tiles current
  cases tiles with
  | nil =>
    rw [current]
    exact stop.symm
  | cons starts =>
    rw [current]
    exact starts

/-- A reader divides its line into what is read and what the unread tokens make up. -/
theorem Valid.unread (valid : r.Valid) :
    ∃ before text, r.line = before ++ text ∧ r.offset = byteLength before ∧
      Token.Tiles r.offset (r.tokens.drop r.index) text := by
  obtain ⟨before, text, divided, tiles⟩ := (Token.ofLine_tiles r.line).of_suffix
    ((List.drop_suffix r.index r.tokens).trans valid.tokens)
  rw [Nat.zero_add] at tiles
  have offset := offset_eq tiles (by rw [← byteLength_append, ← divided])
  exact ⟨before, text, divided, offset, by rwa [offset]⟩

theorem Valid.remaining_suffixOf (valid : r.Valid) :
    r.remaining.SuffixOf (Slice.ofLine r.line) := by
  obtain ⟨before, text, divided, offset, -⟩ := valid.unread
  exact Slice.dropBytes_suffixOf (Slice.isBoundary_iff.2 ⟨before, text, divided, offset⟩)

theorem remaining_start (r : TokenReader) : r.remaining.start = r.offset :=
  Nat.zero_add _

theorem line_stop (line : List Char) : (Slice.ofLine line).stop = byteLength line :=
  Nat.zero_add _

theorem Valid.remaining_stop (valid : r.Valid) : r.remaining.stop = byteLength r.line := by
  rw [valid.remaining_suffixOf.stop_eq, line_stop]

theorem Valid.remaining_covers (valid : r.Valid) :
    (Slice.ofLine r.line).Covers r.remaining.span :=
  valid.remaining_suffixOf.within.covers

theorem offset_of_atEnd (ends : r.atEnd = true) : r.offset = byteLength r.line := by
  rw [offset, current?_eq_none_iff.2 ends]

/-! ## Moves -/

/-- `after` is the same reader, moved on or not. -/
structure Ahead (after before : TokenReader) : Prop where
  tokens : after.tokens = before.tokens
  line : after.line = before.line
  le : before.index ≤ after.index
  bound : after.index ≤ after.tokens.length

section Ahead

variable {after between before : TokenReader}

theorem Valid.ahead_self (valid : r.Valid) : r.Ahead r :=
  ⟨rfl, rfl, Nat.le_refl _, valid.index⟩

theorem Ahead.trans (outer : after.Ahead between) (inner : between.Ahead before) :
    after.Ahead before :=
  ⟨outer.tokens.trans inner.tokens, outer.line.trans inner.line, Nat.le_trans inner.le outer.le,
    outer.bound⟩

theorem Ahead.valid (ahead : after.Ahead before) (valid : before.Valid) : after.Valid where
  tokens := by
    rw [ahead.tokens, ahead.line]
    exact valid.tokens
  index := ahead.bound

theorem Ahead.offset_le (ahead : after.Ahead before) (valid : before.Valid) :
    before.offset ≤ after.offset := by
  obtain ⟨first, text, divided, offset, tiles⟩ := valid.unread
  have suffix : after.tokens.drop after.index <:+ before.tokens.drop before.index := by
    rw [ahead.tokens]
    exact List.drop_suffix_drop_left _ ahead.le
  obtain ⟨more, rest, rfl, later⟩ := tiles.of_suffix suffix
  rw [offset_eq later]
  · exact Nat.le_add_right ..
  · rw [ahead.line, divided, offset]
    simp only [byteLength_append, Nat.add_assoc]

/-- The stretch between two positions of a reader is covered by its line. -/
theorem Ahead.covers (ahead : after.Ahead before) (valid : before.Valid) :
    (Slice.ofLine before.line).Covers ⟨before.offset, after.offset⟩ := by
  have first := valid.remaining_suffixOf.within
  have rest := (ahead.valid valid).remaining_suffixOf.within
  rw [ahead.line] at rest
  -- The empty piece in front of what is left ends where the stretch ends.
  have stop : (after.remaining.take 0).stop = after.offset := by
    rw [← after.remaining_start]
    exact Nat.add_zero _
  have covers := Slice.covers_of_ends first ((Slice.take_within 0 _).trans rest) (by
    rw [stop, before.remaining_start]
    exact ahead.offset_le valid)
  rwa [stop, before.remaining_start] at covers

/-- The text between two positions of a reader. -/
def textTo (r after : TokenReader) : Slice :=
  r.remaining.takeBytes (after.offset - r.offset)

theorem textTo_start (r after : TokenReader) : (r.textTo after).start = r.offset :=
  r.remaining_start

theorem Ahead.textTo_stop (ahead : after.Ahead before) (valid : before.Valid) :
    (before.textTo after).stop = after.offset := by
  have forth := ahead.offset_le valid
  have rest := (ahead.valid valid).remaining_suffixOf
  rw [ahead.line] at rest
  obtain ⟨between, text, start⟩ := valid.remaining_suffixOf.of_start_le rest (by
    rwa [remaining_start, remaining_start])
  rw [remaining_start, remaining_start] at start
  have boundary : before.remaining.isBoundary (after.offset - before.offset) = true :=
    Slice.isBoundary_iff.2 ⟨between, after.remaining.text, text, by omega⟩
  rw [textTo, Slice.takeBytes_stop boundary, remaining_start]
  omega

theorem Valid.textTo_within (valid : r.Valid) (after : TokenReader) :
    (r.textTo after).Within (Slice.ofLine r.line) :=
  (Slice.takeBytes_within ..).trans valid.remaining_suffixOf.within

/-- A piece of the line between two positions of a reader is a piece of the text between them. -/
theorem Ahead.within_textTo (ahead : after.Ahead before) (valid : before.Valid) {piece : Slice}
    (within : piece.Within (Slice.ofLine before.line)) (starts : before.offset ≤ piece.start)
    (stops : piece.stop ≤ after.offset) : piece.Within (before.textTo after) :=
  within.of_ends (valid.textTo_within after) (by rwa [textTo_start])
    (by rwa [ahead.textTo_stop valid])

/-- What is read later on is part of all that is read. -/
theorem Ahead.textTo_behind (outer : after.Ahead between) (inner : between.Ahead before)
    (valid : before.Valid) : (between.textTo after).Within (before.textTo after) := by
  have middle := inner.valid valid
  have within := middle.textTo_within after
  rw [inner.line] at within
  apply (outer.trans inner).within_textTo valid within
  · rw [textTo_start]
    exact inner.offset_le valid
  · exact Nat.le_of_eq (outer.textTo_stop middle)

/-- What is read at first is part of all that is read. -/
theorem Ahead.textTo_infront (outer : after.Ahead between) (inner : between.Ahead before)
    (valid : before.Valid) : (before.textTo between).Within (before.textTo after) := by
  apply (outer.trans inner).within_textTo valid (valid.textTo_within between)
  · exact Nat.le_of_eq (textTo_start ..).symm
  · rw [inner.textTo_stop valid]
    exact outer.offset_le (inner.valid valid)

theorem advance_eq (ends : r.atEnd = false) : r.advance = { r with index := r.index + 1 } := by
  rw [advance, ends]
  rfl

/-- What stands ahead of the next token has passed it. -/
theorem Ahead.index_lt (ahead : after.Ahead r.advance) (unread : r.atEnd = false) :
    r.index < after.index := by
  have le := ahead.le
  rw [advance_eq unread] at le
  exact le

theorem Valid.advance_ahead (valid : r.Valid) : r.advance.Ahead r := by
  cases ends : r.atEnd with
  | true =>
    rw [advance, ends]
    exact valid.ahead_self
  | false =>
    rw [advance_eq ends]
    have unread : ¬r.tokens.length ≤ r.index := by simpa [atEnd] using ends
    exact ⟨rfl, rfl, Nat.le_succ _, by simp only; omega⟩

theorem Valid.consumeAll_ahead (valid : r.Valid) : r.consumeAll.Ahead r :=
  ⟨rfl, rfl, valid.index, Nat.le_refl _⟩

theorem consumeAll_atEnd (r : TokenReader) : r.consumeAll.atEnd = true :=
  decide_eq_true (Nat.le_refl _)

end Ahead

/-! ## The next token -/

section Current

variable {token : Token}

/-- The next token and the tokens behind it. -/
theorem drop_eq_cons (found : r.current? = some token) :
    r.tokens.drop r.index = token :: r.advance.tokens.drop r.advance.index := by
  have bound : ¬r.tokens.length ≤ r.index := by
    simpa [atEnd] using atEnd_eq_false found
  rw [advance_eq (atEnd_eq_false found), List.drop_eq_getElem_cons (Nat.lt_of_not_le bound)]
  rw [current?, List.getElem?_eq_getElem (Nat.lt_of_not_le bound)] at found
  rw [Option.some.inj found]

/-- The next token begins at the offset of the reader, has some text, and is followed
by a token of the other sort. -/
theorem Valid.current (valid : r.Valid) (found : r.current? = some token) :
    token.slice.Within (Slice.ofLine r.line) ∧ token.slice.start = r.offset ∧
      token.slice.stop = r.advance.offset ∧ token.slice.text ≠ [] ∧
        ∀ next ∈ r.advance.current?, next.isSpace ≠ token.isSpace := by
  obtain ⟨before, text, divided, offset, tiles⟩ := valid.unread
  have line := valid.advance_ahead.line
  rw [drop_eq_cons found] at tiles
  have next := r.advance.current?_eq_head?
  generalize behind : r.advance.tokens.drop r.advance.index = tokens at tiles next
  cases tiles with
  | @cons _ _ _ rest starts nonempty turns later =>
    have within : token.slice.Within (Slice.ofLine r.line) :=
      ⟨before, rest, by simp [Slice.ofLine, divided], by simp [Slice.ofLine, starts, offset]⟩
    rw [← behind] at later
    refine ⟨within, starts, ?_, nonempty, by rwa [next]⟩
    refine (offset_eq later ?_).symm
    rw [line, divided, Slice.stop_eq, starts, offset]
    simp only [byteLength_append, Nat.add_assoc]

theorem Valid.current_within (valid : r.Valid) (found : r.current? = some token) :
    token.slice.Within (Slice.ofLine r.line) :=
  (valid.current found).1

theorem Valid.current_start (valid : r.Valid) (found : r.current? = some token) :
    token.slice.start = r.offset :=
  (valid.current found).2.1

theorem Valid.current_stop (valid : r.Valid) (found : r.current? = some token) :
    token.slice.stop = r.advance.offset :=
  (valid.current found).2.2.1

/-- The next token is part of what is read when it is passed. -/
theorem Valid.current_within_textTo (valid : r.Valid) (found : r.current? = some token) :
    token.slice.Within (r.textTo r.advance) :=
  valid.advance_ahead.within_textTo valid (valid.current_within found)
    (Nat.le_of_eq (valid.current_start found).symm) (Nat.le_of_eq (valid.current_stop found))

theorem Valid.mem_of_current? (valid : r.Valid) (found : r.current? = some token) :
    token ∈ Token.ofLine r.line :=
  valid.tokens.subset (List.mem_of_getElem? found)

theorem Valid.offset_lt_advance (valid : r.Valid) (found : r.current? = some token) :
    r.offset < r.advance.offset := by
  rw [← valid.current_start found, ← valid.current_stop found]
  exact Slice.start_lt_stop (valid.current found).2.2.2.1

/-- A word is followed by spaces or the end of the line. -/
theorem Valid.advance_atSeparator (valid : r.Valid) (found : r.current? = some token)
    (word : token.isSpace = false) : r.advance.AtSeparator := by
  intro next mem
  have turns := (valid.current found).2.2.2.2 next mem
  rw [word] at turns
  exact eq_true_of_ne_false turns

/-- Spaces are followed by a word or the end of the line. -/
theorem Valid.advance_atWord (valid : r.Valid) (found : r.current? = some token)
    (space : token.isSpace = true) : r.advance.AtWord := by
  intro next mem
  have turns := (valid.current found).2.2.2.2 next mem
  rw [space] at turns
  exact eq_false_of_ne_true turns

end Current

/-- A reader that passes a token leaves some text behind. -/
theorem Ahead.offset_lt {after : TokenReader} (ahead : after.Ahead r) (valid : r.Valid)
    (moved : r.index < after.index) : r.offset < after.offset := by
  cases found : r.current? with
  | none =>
    have ends : r.tokens.length ≤ r.index := of_decide_eq_true (current?_eq_none_iff.1 found)
    have bound := ahead.bound
    rw [ahead.tokens] at bound
    omega
  | some token =>
    have advanced := advance_eq (atEnd_eq_false found)
    have further : after.Ahead r.advance := by
      rw [advanced]
      exact ⟨ahead.tokens, ahead.line, moved, ahead.bound⟩
    have forward := further.offset_le (valid.advance_ahead.valid valid)
    exact Nat.lt_of_lt_of_le (valid.offset_lt_advance found) forward

/-- A reader that came from a word to a separator has passed the word. -/
theorem Ahead.index_lt_of_atSeparator {after : TokenReader} (ahead : after.Ahead r) {word : Slice}
    (found : r.current? = some ⟨word, false⟩) (separated : after.AtSeparator) :
    r.index < after.index := by
  refine Nat.lt_of_le_of_ne ahead.le fun stays => ?_
  have same : after.current? = r.current? := by rw [current?, current?, ahead.tokens, stays]
  have space := separated ⟨word, false⟩ (same.trans found)
  cases space

/-! ## Spaces -/

/-- The reader past the spaces in front of it, if there are any. -/
def passSpaces (r : TokenReader) : TokenReader :=
  match r.current? with
  | some token => if token.isSpace then r.advance else r
  | none => r

theorem Valid.passSpaces_ahead (valid : r.Valid) : r.passSpaces.Ahead r := by
  unfold passSpaces
  split
  · split
    · exact valid.advance_ahead
    · exact valid.ahead_self
  · exact valid.ahead_self

/-- Past the spaces stands a word or the end of the line. -/
theorem Valid.passSpaces_atWord (valid : r.Valid) : r.passSpaces.AtWord := by
  unfold passSpaces
  split
  · rename_i token found
    split
    · rename_i space
      exact valid.advance_atWord found space
    · rename_i word
      intro next mem
      obtain rfl := Option.some.inj (found.symm.trans mem)
      exact eq_false_of_ne_true word
  · rename_i none
    exact atWord_of_atEnd (current?_eq_none_iff.1 none)

/-! ## The token read last -/

/-- At the end of a line its last token was read last. -/
theorem Ahead.last?_eq_previous? {after before : TokenReader} (ahead : after.Ahead before)
    (ends : after.atEnd = true) : after.last? = after.previous? := by
  have index : after.index = after.tokens.length :=
    Nat.le_antisymm ahead.bound (of_decide_eq_true ends)
  rw [last?, List.getLast?_eq_getElem?, previous?, index]
  cases length : after.tokens.length with
  | zero => simp [List.length_eq_zero_iff.1 length]
  | succ n => rfl

/-- The token that a reader read last ends where the reader stands. -/
theorem Ahead.previous {after before : TokenReader} (ahead : after.Ahead before)
    (valid : before.Valid) (moved : before.index < after.index) :
    ∃ token, after.previous? = some token ∧ token.slice.Within (Slice.ofLine before.line) ∧
      before.offset ≤ token.slice.start ∧ token.slice.stop = after.offset := by
  rcases after with ⟨tokens, index, line⟩
  rcases ahead with ⟨rfl, rfl, -, bound⟩
  -- The reader in front of that token moves past it.
  cases index with
  | zero => cases moved
  | succ index =>
    have onToken : Ahead { before with index := index } before :=
      ⟨rfl, rfl, Nat.le_of_lt_succ moved, Nat.le_of_succ_le bound⟩
    have placed := onToken.valid valid
    have found : current? { before with index := index } = some before.tokens[index] :=
      List.getElem?_eq_getElem bound
    refine ⟨before.tokens[index], found, placed.current_within found, ?_, ?_⟩
    · rw [placed.current_start found]
      exact onToken.offset_le valid
    · rw [placed.current_stop found, advance_eq (atEnd_eq_false found)]

end TokenReader

/-- The tokens of a line are pieces of it. -/
theorem Token.mem_ofLine_within {line : List Char} {token : Token} (mem : token ∈ ofLine line) :
    token.slice.Within (Slice.ofLine line) := by
  rcases List.mem_iff_getElem.1 mem with ⟨index, bound, rfl⟩
  have valid : TokenReader.Valid ⟨ofLine line, index, line⟩ :=
    ⟨List.suffix_refl _, Nat.le_of_lt bound⟩
  exact valid.current_within (List.getElem?_eq_getElem bound)

/-- The only token that begins where a reader stands is the next one. -/
theorem TokenReader.Valid.filter_start {r : TokenReader} (valid : r.Valid) :
    (Token.ofLine r.line).filter (·.slice.start == r.offset) = r.current?.toList := by
  have tiles := Token.ofLine_tiles r.line
  cases found : r.current? with
  | none =>
    refine List.filter_eq_nil_iff.2 fun token mem => ?_
    have ends := (Token.mem_ofLine_within mem).stop_le
    rw [line_stop, ← offset_of_atEnd (current?_eq_none_iff.1 found)] at ends
    have some := Slice.start_lt_stop (tiles.nonempty token mem)
    simpa using Nat.ne_of_lt (Nat.lt_of_lt_of_le some ends)
  | some token =>
    rw [← valid.current_start found]
    exact filter_key_eq tiles.increasing (valid.mem_of_current? found)

end CommandScript
