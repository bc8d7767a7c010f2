import CommandScript.Proofs.CompoundTag.Completeness

/-!
The reader of compound tags accepts exactly its grammar.

With enough steps for the characters that are left, one step more changes nothing
(`settledAt`), so the reader never runs out of them. What it passes without an error is
a tag and every tag is passed, hence the tag in front of a text is unique and found if
there is one (`read_recognizes`).
-/

namespace CommandScript.CompoundTag

open Reading

open Cursor (past_length)

/-! ## Enough steps -/

/-- With at least as many steps left as the unread text asks for, one more makes no
difference. -/
structure SettledAt (fuel : Nat) : Prop where
  tag : ∀ c : Cursor, 3 * c.rest.text.length + 1 ≤ fuel → readTag (fuel + 1) c = readTag fuel c
  list : ∀ c : Cursor, 3 * c.rest.text.length + 1 ≤ fuel → readList (fuel + 1) c = readList fuel c
  value : ∀ c : Cursor, 3 * c.rest.text.length + 2 ≤ fuel →
    readValue (fuel + 1) c = readValue fuel c
  items : ∀ item, ∀ c : Cursor, 3 * c.rest.text.length + 3 ≤ fuel →
    readItems item (fuel + 1) c = readItems item fuel c

section Settled

variable {fuel : Nat} {c : Cursor}

theorem SettledAt.item (settled : SettledAt fuel) (item : Item)
    (enough : 3 * c.rest.text.length + 2 ≤ fuel) :
    readItem item (fuel + 1) c = readItem item fuel c := by
  cases item with
  | value => exact settled.value c enough
  | entry =>
    refine bind_congr (recognizes_readKey c) rfl fun _ key rest _ front => ?_
    have behindKey := past_length front
    refine bind_congr (recognizes_skipBlanks _) rfl fun _ before rest _ front => ?_
    have behindBlanks := past_length front
    refine bind_congr (recognizes_expect ':' _ _) rfl fun _ colon rest _ front => ?_
    have behindColon := past_length front
    exact settled.value _ (by omega)

theorem SettledAt.readItems (settled : SettledAt fuel) (item : Item)
    (enough : 3 * c.rest.text.length + 3 ≤ fuel + 1) :
    readItems item (fuel + 2) c = readItems item (fuel + 1) c := by
  refine (congrFun (readItems_succ item (fuel + 1)) c).trans
    (Eq.trans ?_ (congrFun (readItems_succ item fuel) c).symm)
  rw [Reading.current?, look_bind, look_bind]
  split
  · rfl
  · have sound := (soundAt fuel).item item c
    refine bind_congr sound (settled.item item (by omega)) fun _ piece rest _ front => ?_
    have behindPiece := past_length front
    refine bind_congr (recognizes_passComma _) rfl fun found comma rest passed front => ?_
    have behindComma := past_length front
    obtain ⟨before, after, -, -, rfl⟩ := passed
    split
    · rename_i isFound
      rw [if_pos isFound] at behindComma
      simp only [List.length_append, List.length_cons] at behindComma
      refine settled.items item _ ?_
      omega
    · rfl

theorem SettledAt.readTag (settled : SettledAt fuel)
    (enough : 3 * c.rest.text.length + 1 ≤ fuel + 1) :
    readTag (fuel + 2) c = readTag (fuel + 1) c := by
  refine bind_congr (recognizes_expect '{' none c) rfl fun _ opening rest isOpening front => ?_
  have behindBrace := past_length front
  refine bind_congr (recognizes_skipBlanks _) rfl fun _ blanks rest _ front => ?_
  have behindBlanks := past_length front
  subst isOpening
  simp only [List.length_cons, List.length_nil] at behindBrace
  exact bind_congr ((soundAt fuel).items .entry _) (settled.items .entry _ (by omega))
    fun _ _ _ _ _ => rfl

theorem SettledAt.readList (settled : SettledAt fuel)
    (enough : 3 * c.rest.text.length + 1 ≤ fuel + 1) :
    readList (fuel + 2) c = readList (fuel + 1) c := by
  rw [CompoundTag.readList, CompoundTag.readList, look_bind, look_bind]
  split
  · rfl
  · refine bind_congr (recognizes_expect '[' none c) rfl fun _ opening rest isOpening front => ?_
    have behindBracket := past_length front
    refine bind_congr (recognizes_skipBlanks _) rfl fun _ blanks rest _ front => ?_
    have behindBlanks := past_length front
    subst isOpening
    simp only [List.length_cons, List.length_nil] at behindBracket
    rw [look_bind, look_bind]
    split
    · rfl
    · exact bind_congr ((soundAt fuel).items .value _) (settled.items .value _ (by omega))
        fun _ _ _ _ _ => rfl

theorem SettledAt.readValue (settled : SettledAt fuel)
    (enough : 3 * c.rest.text.length + 2 ≤ fuel + 1) :
    readValue (fuel + 2) c = readValue (fuel + 1) c := by
  refine bind_congr (recognizes_skipBlanks c) rfl fun _ blanks rest _ front => ?_
  have behindBlanks := past_length front
  rw [Reading.current?, look_bind, look_bind]
  generalize c.past blanks rest = behind at behindBlanks ⊢
  generalize behind.current? = current
  split
  · exact settled.tag _ (by omega)
  · exact settled.list _ (by omega)
  · rfl

theorem settledAt (fuel : Nat) : SettledAt fuel := by
  induction fuel with
  | zero => exact ⟨nofun, nofun, nofun, nofun⟩
  | succ fuel ih =>
    exact ⟨fun _ => ih.readTag, fun _ => ih.readList, fun _ => ih.readValue,
      fun item _ => ih.readItems item⟩

/-- More steps than are provided for make no difference. -/
theorem readTag_settled {s : Slice} (enough : fuelFor s.text.length ≤ fuel) :
    CompoundTag.readTag fuel (.ofSlice s) =
      CompoundTag.readTag (fuelFor s.text.length) (.ofSlice s) := by
  induction enough with
  | refl => rfl
  | @step fuel enough ih =>
    refine ((settledAt fuel).tag _ ?_).trans ih
    exact Nat.le_trans (Nat.add_le_add_left (by decide) _) enough

end Settled

/-! ## Tags in front of a text -/

section Tags

variable {s : Slice} {tag after : List Char}

/-- The reading of a slice yields what is left behind a tag, or stops after one error. -/
theorem read_sound (s : Slice) :
    (∃ tag after, IsTag tag ∧ s.text = tag ++ after ∧
      (read s).value = some ⟨after, s.start + byteLength tag⟩ ∧ (read s).report.errors = []) ∨
        (read s).value = none ∧ (read s).report.errors.length = 1 := by
  have sound := (soundAt (fuelFor s.text.length)).tag (.ofSlice s)
  unfold read
  generalize CompoundTag.readTag (fuelFor s.text.length) (.ofSlice s) = outcome at sound ⊢
  cases sound with
  | @stopped report one =>
    refine Or.inr ⟨rfl, ?_⟩
    show (report ++ ∅).errors.length = 1
    rwa [Report.append_empty]
  | @passed _ tag after report holds front silent =>
    refine Or.inl ⟨tag, after, holds, front, rfl, ?_⟩
    show (report ++ ∅).errors = []
    rwa [Report.append_empty]

/-- What follows a tag is yielded. -/
theorem read_complete (isTag : IsTag tag) (front : s.text = tag ++ after) :
    (read s).value = some ⟨after, s.start + byteLength tag⟩ := by
  have enough : 3 * tag.length + 1 ≤ fuelFor s.text.length := by
    rw [front, List.length_append, fuelFor]
    omega
  have taken := isRead_of_derives isTag (fuelFor s.text.length) after enough (.ofSlice s) front
  unfold read
  rw [Reported.value_bind, taken]
  rfl

/-- Of two tags in front of a text neither is longer. -/
theorem isTag_unique {other rest : List Char} (isTag : IsTag tag) (front : s.text = tag ++ after)
    (isOther : IsTag other) (frontToo : s.text = other ++ rest) : other = tag := by
  have same := (read_complete isOther frontToo).symm.trans (read_complete isTag front)
  obtain ⟨rfl, -⟩ := Slice.mk.inj (Option.some.inj same)
  exact List.append_cancel_right (frontToo.symm.trans front)

/-- Behind a tag, whatever is left of the slice is an error. -/
theorem readWhole_errors (s : Slice) : (readWhole s).report.errors = (read s).report.errors ++
    match (read s).value with
    | some rest => if rest.isEmpty then [] else [⟨rest.span, Fault.trailing.message⟩]
    | none => [] := by
  unfold readWhole
  rw [Reported.report_bind, Report.append_errors]
  congr 1
  cases (read s).value with
  | none => rfl
  | some rest => cases empty : rest.isEmpty <;> simp [Reported.errorIf, empty] <;> rfl

theorem readWhole_sound (s : Slice) :
    IsTag s.text ∧ (readWhole s).report.errors = [] ∨
      ¬IsTag s.text ∧ (readWhole s).report.errors.length = 1 := by
  rw [readWhole_errors]
  rcases read_sound s with ⟨tag, after, isTag, front, value, silent⟩ | ⟨nothing, one⟩
  · rw [value, silent]
    cases after with
    | nil =>
      rw [List.append_nil] at front
      exact Or.inl ⟨front ▸ isTag, rfl⟩
    | cons c after =>
      refine Or.inr ⟨fun whole => ?_, rfl⟩
      have same := isTag_unique isTag front whole (List.append_nil _).symm
      rw [front] at same
      simp at same
  · rw [nothing, List.append_nil]
    refine Or.inr ⟨fun whole => ?_, one⟩
    rw [read_complete whole (List.append_nil _).symm] at nothing
    cases nothing

end Tags

/-- The reader of compound tags accepts exactly its grammar. The steps it is given suffice:
more of them change nothing. If a tag stands in front of a text, it is the only one, what
follows it is yielded and no error is reported; if there is none, nothing is yielded and
exactly one error is reported. A text is read as a whole without an error if and only if
it is a tag, and with exactly one error if it is not. -/
theorem read_recognizes (s : Slice) :
    (∀ fuel, fuelFor s.text.length ≤ fuel →
      readTag fuel (.ofSlice s) = readTag (fuelFor s.text.length) (.ofSlice s)) ∧
    ((∃ tag after, IsTag tag ∧ s.text = tag ++ after ∧
        (∀ other, IsTag other → other <+: s.text → other = tag) ∧
        (read s).value = some ⟨after, s.start + byteLength tag⟩ ∧ (read s).report.errors = []) ∨
      (∀ tag, IsTag tag → ¬tag <+: s.text) ∧
        (read s).value = none ∧ (read s).report.errors.length = 1) ∧
    (IsTag s.text → (readWhole s).report.errors = []) ∧
      (¬IsTag s.text → (readWhole s).report.errors.length = 1) := by
  refine ⟨fun fuel enough => readTag_settled enough, ?_, fun isTag => ?_, fun noTag => ?_⟩
  · rcases read_sound s with ⟨tag, after, isTag, front, value, silent⟩ | ⟨nothing, one⟩
    · refine Or.inl ⟨tag, after, isTag, front, ?_, value, silent⟩
      rintro other isOther ⟨rest, frontToo⟩
      exact isTag_unique isTag front isOther frontToo.symm
    · refine Or.inr ⟨?_, nothing, one⟩
      rintro tag isTag ⟨rest, front⟩
      rw [read_complete isTag front.symm] at nothing
      cases nothing
  · rcases readWhole_sound s with ⟨-, silent⟩ | ⟨noTag, -⟩
    · exact silent
    · exact absurd isTag noTag
  · rcases readWhole_sound s with ⟨isTag, -⟩ | ⟨-, one⟩
    · exact absurd isTag noTag
    · exact one

end CommandScript.CompoundTag
