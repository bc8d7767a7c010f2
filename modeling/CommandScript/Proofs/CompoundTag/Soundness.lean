import CommandScript.Proofs.CompoundTag
import CommandScript.Proofs.CompoundTag.Grammar
import CommandScript.Proofs.Text.Recognition

/-!
The reader of compound tags accepts nothing but its grammar.

What every part of the reader passes without an error is a text of its symbol, for any
number of steps left (`soundAt`), and where a part stops it has reported exactly one
error. Entries and elements are read alike (`readItems_succ`), so each of the steps of
the loop is looked at once.
-/

namespace CommandScript.CompoundTag

open Reading

/-! ## Soundness -/

/-- Where a text in front of the cursor is split at a closing quote, it is read up to that
one. -/
theorem readQuoted_eq {c : Cursor} {quote : Char} {cs body after : List Char}
    (front : c.rest.text = quote :: cs) (split : splitQuoted quote cs = (body, quote :: after)) :
    readQuoted c =
      ⟨some (c.rest.take (2 + body.length), c.past (quote :: (body ++ [quote])) after), ∅⟩ := by
  have whole : cs = body ++ quote :: after := by
    have whole := splitQuoted_append quote cs
    rw [split] at whole
    exact whole.symm
  have inside : c.rest.drop (1 + body.length) =
      ⟨quote :: after, c.rest.start + byteLength (quote :: body)⟩ := by
    simp [Slice.drop, front, whole, Nat.add_comm 1]
  have found : (c.seek (c.rest.drop (1 + body.length))).current? = some quote := by
    rw [inside]
    rfl
  have past : (c.seek (c.rest.drop (1 + body.length))).advance =
      c.past (quote :: (body ++ [quote])) after := by
    rw [inside]
    simp [Cursor.advance, Cursor.past, Cursor.seek, Slice.drop, Nat.add_assoc]
  unfold readQuoted Cursor.readQuoted
  rw [front]
  dsimp only
  rw [split]
  dsimp only
  rw [Cursor.expect, if_pos found, past]
  rfl

theorem recognized_readQuoted {c : Cursor} {quote : Char} {cs : List Char}
    (front : c.rest.text = quote :: cs) :
    c.Recognized (fun _ text => ∃ body, QuotedBody quote body ∧ text = quote :: (body ++ [quote]))
      (readQuoted c) := by
  have whole := splitQuoted_append quote cs
  cases split : splitQuoted quote cs with
  | mk body rest =>
    rw [split] at whole
    cases rest with
    | nil =>
      rw [List.append_nil] at whole
      have inside : c.rest.drop (1 + body.length) = ⟨[], c.rest.stop⟩ := by
        simp [Slice.drop, Slice.stop_eq, front, ← whole, Nat.add_comm 1]
      unfold readQuoted Cursor.readQuoted
      rw [front]
      dsimp only
      rw [split]
      dsimp only
      rw [inside]
      exact .stopped rfl
    | cons last after =>
      have closed : _ ∧ QuotedBody quote (splitQuoted quote cs).1 :=
        splitQuoted_closed (congrArg Prod.snd split)
      rw [split] at closed
      obtain ⟨rfl, inside⟩ := closed
      rw [readQuoted_eq front split]
      refine .passed ⟨body, inside, rfl⟩ ?_ rfl
      rw [front, ← whole]
      simp

/-- A scalar is read and highlighted, or something else is missed. -/
theorem recognizes_scalarOr {missing : Reading Unit} (quotedKind : Highlight)
    (kind : Slice → Highlight) (stops : missing.Recognizes fun _ _ => False) :
    (do
      if (← Reading.current?).any Charset.isQuote then
        let text ← readQuoted
        token text.span quotedKind
      else
        let text ← readUnquoted
        if text.isEmpty then missing else token text.span (kind text) : Reading Unit).Recognizes
      fun _ text => IsScalar text := by
  intro c
  rw [Reading.current?, look_bind]
  split
  · rename_i found
    obtain ⟨quote, front, isQuote⟩ := (Option.any_eq_true _ _).1 found
    obtain ⟨cs, front⟩ := List.head?_eq_some_iff.1 front
    refine recognized_bind (recognized_readQuoted front) fun _ text _ quoted _ => ?_
    obtain ⟨body, inside, rfl⟩ := quoted
    refine (recognizes_token _ _).mono ?_ _
    rintro _ _ rfl
    rw [List.append_nil]
    exact .quoted isQuote inside
  · refine recognized_bind (recognizes_readWhile _ c) fun taken text _ unquoted _ => ?_
    obtain ⟨rfl, unquoted⟩ := unquoted
    refine recognizes_ite (fun _ => stops.mono fun _ _ => False.elim) (fun nonempty => ?_) _
    refine (recognizes_token _ _).mono ?_
    rintro _ _ rfl
    rw [List.append_nil]
    exact .unquoted (fun nothing => nonempty (List.isEmpty_iff.2 nothing)) unquoted

theorem recognizes_readKey : readKey.Recognizes fun _ text => IsScalar text :=
  recognizes_scalarOr .property (fun _ => .property) <| Recognizes.after_look fun _ =>
    recognizes_ite (fun _ => recognizes_fail _ _) fun _ => recognizes_fail _ _

theorem recognizes_readScalar : readScalar.Recognizes fun _ text => IsScalar text :=
  recognizes_scalarOr .string scalarKind recognizes_expectedValue

theorem startsArray_iff {c : Cursor} : startsArray c = true ↔
    ∃ first head rest, c.rest.text = first :: head :: ';' :: rest ∧
      Charset.isQuote head = false := by
  unfold startsArray Cursor.canRead Cursor.peek?
  rcases c.rest.text with _ | ⟨first, _ | ⟨head, _ | ⟨third, rest⟩⟩⟩
  · simp
  · simp
  · simp
  · constructor
    · intro starts
      simp only [List.getElem?_cons_succ, List.getElem?_cons_zero, Option.any_some,
        Bool.and_eq_true, Bool.not_eq_true', decide_eq_true_eq, Option.some.injEq] at starts
      obtain ⟨⟨-, noQuote⟩, rfl⟩ := starts
      exact ⟨first, head, rest, rfl, noQuote⟩
    · rintro ⟨_, _, _, front, noQuote⟩
      simp_all

theorem recognized_readArray {c : Cursor} (starts : startsArray c = true) :
    c.Recognized (fun _ text => Derives .any (.item .value) text) (readArray c) := by
  obtain ⟨first, head, rest, front, noQuote⟩ := startsArray_iff.1 starts
  unfold readArray
  refine recognized_bind (recognizes_expect '[' none c) fun _ opening inside isOpening cut => ?_
  rw [front, isOpening, List.singleton_append] at cut
  obtain ⟨rfl, rfl⟩ := List.cons.inj cut
  refine recognized_bind (recognized_advanceOver _ rfl) fun _ type after isType cut => ?_
  rw [isType] at cut ⊢
  obtain rfl := (List.cons.inj cut).2
  refine recognized_bind (recognized_advance rfl) fun _ semicolon after isSemicolon _ => ?_
  refine recognized_bind (recognizes_readWhile _ _) fun _ elements _ isElements _ => ?_
  refine (recognizes_expect ']' none).mono ?_ _
  rintro _ _ rfl
  rw [isOpening, isSemicolon]
  exact .array (by simp [ArrayForm.any, noQuote]) isElements.2

theorem recognizes_passComma : passComma.Recognizes fun found text =>
    ∃ before after, AreBlanks before ∧ AreBlanks after ∧
      text = if found then before ++ ',' :: after else before := by
  refine Reading.recognizes_passComma.bind fun found text passed => ?_
  obtain ⟨before, after, blank, blankToo, rfl⟩ := passed
  refine recognizes_ite (fun isFound => ?_) fun notFound => ?_
  · exact Recognizes.after_look fun ended =>
      recognizes_ite (fun _ => recognizes_expectedValue) fun _ =>
        recognizes_pure ⟨before, after, blank, blankToo, by simp [isFound]⟩
  · exact recognizes_pure ⟨before, after, blank, blankToo, by simp [notFound]⟩

/-- The entries of a tag or the elements of a list up to the closing character. -/
def readItems : Item → Nat → Reading Unit
  | .entry => readEntries
  | .value => readElements

/-- An entry, or a value with the blanks before it. -/
def readItem : Item → Nat → Reading Unit
  | .entry => fun fuel => do
    readKey
    skipBlanks
    expect ':' (some .operator)
    readValue fuel
  | .value => readValue

/-- The character that ends the items. -/
def closing : Item → Char
  | .entry => '}'
  | .value => ']'

/-- Entries and elements are read alike. -/
theorem readItems_succ (item : Item) (fuel : Nat) : readItems item (fuel + 1) = (do
    if (← Reading.current?).all (· = closing item) then
      return ()
    else
      readItem item fuel
      if ← passComma then readItems item fuel
      else return ()) := by
  cases item with
  | entry =>
    simp only [readItems, readItem, readEntries, closing, bind_assoc]
    rfl
  | value => rfl

/-- With that many steps left, every part of the reader recognizes texts of its symbol. -/
structure SoundAt (fuel : Nat) : Prop where
  tag : (readTag fuel).Recognizes fun _ text => Derives .any .tag text
  value : (readValue fuel).Recognizes fun _ text =>
    ∃ blanks value, AreBlanks blanks ∧ Derives .any (.item .value) value ∧ text = blanks ++ value
  list : (readList fuel).Recognizes fun _ text => Derives .any (.item .value) text
  items : ∀ item, (readItems item fuel).Recognizes fun _ text => Derives .any (.inside item) text

theorem SoundAt.item {fuel : Nat} (sound : SoundAt fuel) (item : Item) :
    (readItem item fuel).Recognizes fun _ text =>
      ∃ blanks piece, AreBlanks blanks ∧ Derives .any (.item item) piece ∧
        text = blanks ++ piece := by
  cases item with
  | value => exact sound.value
  | entry =>
    refine recognizes_readKey.bind fun _ key isKey => ?_
    refine recognizes_skipBlanks.bind fun _ before blank => ?_
    refine (recognizes_expect ':' _).bind fun _ colon isColon => ?_
    refine sound.value.mono ?_
    rintro _ _ ⟨after, value, blankToo, isValue, rfl⟩
    refine ⟨[], _, areBlanks_nil, .entry isKey blank blankToo isValue, ?_⟩
    simp [isColon]

theorem SoundAt.readItems {fuel : Nat} (sound : SoundAt fuel) (item : Item) :
    (readItems item (fuel + 1)).Recognizes fun _ text => Derives .any (.inside item) text := by
  rw [readItems_succ]
  refine Recognizes.after_look fun _ => recognizes_ite (fun _ => ?_) fun _ => ?_
  · exact recognizes_pure (.empty areBlanks_nil)
  · refine (sound.item item).bind fun _ text piece => ?_
    obtain ⟨blanks, piece, blank, isItem, rfl⟩ := piece
    refine CompoundTag.recognizes_passComma.bind fun found comma passed => ?_
    obtain ⟨before, after, blankBefore, blankAfter, rfl⟩ := passed
    refine recognizes_ite (fun isFound => ?_) fun notFound => ?_
    · refine (sound.items item).mono fun _ others inside => ?_
      rw [if_pos isFound, List.append_assoc, List.append_assoc]
      refine .blanks_inside blank ?_
      cases inside with
      | empty blankOthers =>
        have series := Derives.filled areBlanks_nil (.comma isItem blankBefore)
          (blankAfter.append blankOthers)
        simpa using series
      | @filled _ series more last blankMore isSeries blankLast =>
        have series := Derives.filled areBlanks_nil
          (.more isItem blankBefore (blankAfter.append blankMore) isSeries) blankLast
        simpa using series
    · refine recognizes_pure ?_
      rw [if_neg notFound, List.append_nil, List.append_assoc]
      exact .filled blank (.last isItem) blankBefore

theorem recognizes_brackets {elements : Reading Unit}
    (inside : elements.Recognizes fun _ text => Derives .any (.inside .value) text) :
    (do
      expect '['
      skipBlanks
      if ← look Cursor.atEnd then
        expectedValue
      else
        elements
        expect ']' : Reading Unit).Recognizes fun _ text =>
      ∃ inside, Derives .any (.inside .value) inside ∧ text = '[' :: (inside ++ [']']) := by
  refine (recognizes_expect '[' none).bind fun _ opening isOpening => ?_
  refine recognizes_skipBlanks.bind fun _ blanks blank => ?_
  refine Recognizes.after_look fun ended =>
    recognizes_ite (fun _ => recognizes_expectedValue) fun _ => ?_
  refine inside.bind fun _ text isInside => ?_
  refine (recognizes_expect ']' none).mono ?_
  rintro _ _ rfl
  exact ⟨_, isInside.blanks_inside blank, by simp [isOpening]⟩

theorem soundAt (fuel : Nat) : SoundAt fuel := by
  induction fuel with
  | zero =>
    refine ⟨recognizes_expectedValue, recognizes_expectedValue, recognizes_expectedValue, ?_⟩
    rintro (_ | _) <;> exact recognizes_expectedValue
  | succ fuel ih =>
    refine ⟨?_, ?_, ?_, ih.readItems⟩
    · refine (recognizes_expect '{' none).bind fun _ opening isOpening => ?_
      refine recognizes_skipBlanks.bind fun _ blanks blank => ?_
      refine (ih.items .entry).bind fun _ text inside => ?_
      refine (recognizes_expect '}' none).mono ?_
      rintro _ _ rfl
      rw [isOpening]
      have tag := Derives.tag (inside.blanks_inside blank)
      simpa using tag
    · refine recognizes_skipBlanks.bind fun _ blanks blank => ?_
      refine Recognizes.after_look fun current => ?_
      split
      · exact ih.tag.mono fun _ text isTag => ⟨blanks, text, blank, .ofTag isTag, rfl⟩
      · exact ih.list.mono fun _ text isValue => ⟨blanks, text, blank, isValue, rfl⟩
      · exact recognizes_readScalar.mono fun _ text isScalar =>
          ⟨blanks, text, blank, .scalar isScalar, rfl⟩
    · intro c
      rw [readList, look_bind]
      split
      · exact recognized_readArray ‹_›
      · rename_i noArray
        refine (recognizes_brackets (ih.items .value) c).mono fun _ text after front isList => ?_
        obtain ⟨inside, elements, rfl⟩ := isList
        refine .ofList (.list elements fun _ begins => noArray ?_)
        obtain ⟨head, rest, list, noQuote⟩ := begins
        rw [list] at front
        have isHead : Charset.isQuote head = false := by simpa [ArrayForm.any] using noQuote
        exact startsArray_iff.2 ⟨'[', head, rest ++ after, front, isHead⟩

end CommandScript.CompoundTag
