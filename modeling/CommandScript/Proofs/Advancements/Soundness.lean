import CommandScript.Proofs.Advancements
import CommandScript.Proofs.Advancements.Grammar
import CommandScript.Proofs.Resource.Splitting
import CommandScript.Proofs.Text.Acceptance

/-!
The reader of advancements accepts nothing but its grammar.

The items of a value and the criteria of an item are read by one loop (`readItems_eq`,
`readCriteria_eq`), so each of its steps is looked at once. A bad id and a bad boolean do not stop
the reader, but they are errors, and without an error each part has passed a text of its kind.
-/

namespace CommandScript.Advancements

open Reading

/-! ## The parts of the reader -/

/-- Reads entries up to the closing brace, each with the steps that are left. -/
def readEntries (entry : Nat → Reading Unit) : Nat → Reading Unit
  | 0 => expectedValue
  | fuel + 1 => do
    if (← Reading.current?).all (· = '}') then
      return ()
    else
      entry fuel
      if ← passComma then readEntries entry fuel
      else return ()

/-- Reads a name, an equals sign and a value. -/
def readAssignment (name value : Reading Unit) : Reading Unit := do
  name
  skipBlanks
  expect '=' (some .operator)
  skipBlanks
  value

/-- Reads what stands between braces, and the braces. -/
def readBraces (inside : Reading Unit) : Reading Unit := do
  expect '{'
  skipBlanks
  inside
  expect '}'

/-- A criterion with its value. -/
def readProgress : Nat → Reading Unit :=
  fun _ => readAssignment readCriterion readBoolean

/-- An id with what it is set to. -/
def readItem (fuel : Nat) : Reading Unit :=
  readAssignment readId (readSetting fuel)

theorem readCriteria_eq (fuel : Nat) : readCriteria fuel = readEntries readProgress fuel := by
  induction fuel with
  | zero => rfl
  | succ fuel ih =>
    simp only [readCriteria, readEntries, readProgress, readAssignment, bind_assoc, ih]

theorem readItems_eq (fuel : Nat) : readItems fuel = readEntries readItem fuel := by
  induction fuel with
  | zero => rfl
  | succ fuel ih =>
    simp only [readItems, readEntries, readItem, readAssignment, bind_assoc, ih]

/-- Where a character is known to stand, it may as well be expected. -/
theorem advance_bind {α : Type} {ch : Char} {c : Cursor} (found : c.current? = some ch)
    (f : Unit → Reading α) : (advance >>= f) c = (expect ch >>= f) c := by
  have same : advance c = expect ch none c := by
    unfold expect Cursor.expect
    rw [if_pos found]
    rfl
  rw [run_bind, run_bind, same]

theorem readSetting_eq (fuel : Nat) : readSetting fuel = (do
    if (← Reading.current?) = some '{' then readBraces (readEntries readProgress fuel)
    else readBoolean) := by
  funext c
  rw [readSetting, Reading.current?, look_bind, look_bind]
  split
  · rename_i found
    rw [readBraces, ← readCriteria_eq]
    exact advance_bind found _
  · rfl

/-- Reads a value and leaves what follows it. -/
def readBraced (fuel : Nat) : Reading Unit :=
  readBraces (readEntries readItem fuel)

theorem readValue_eq (fuel : Nat) : readValue fuel = (do
    readBraced fuel
    let rest ← look Cursor.rest
    Reading.report (Reported.errorIf (!rest.isEmpty) rest.span Fault.trailing.message)) := by
  simp only [readValue, readBraced, readBraces, readItems_eq, bind_assoc]

/-! ## Soundness -/

theorem admits_readBoolean : readBoolean.Admits fun _ text => IsBoolean text := by
  refine (recognizes_readWhile _).admits.bind fun value text taken => ?_
  obtain ⟨rfl, -⟩ := taken
  refine admits_ite (fun known => ?_) fun _ => (admits_error _ _).bind fun _ _ => False.elim
  refine (recognizes_token _ _).admits.mono ?_
  rintro _ _ rfl
  rw [List.append_nil]
  simpa [IsBoolean, Slice.is] using known

theorem admits_readCriterion : readCriterion.Admits fun _ text => IsCriterion text := by
  refine Admits.after_look fun _ => ?_
  refine (recognizes_readWhile _).admits.bind fun criterion text taken => ?_
  obtain ⟨rfl, unquoted⟩ := taken
  refine admits_ite (fun _ => (recognizes_fail _ _).admits) fun nonempty => ?_
  refine (recognizes_token _ _).admits.mono ?_
  rintro _ _ rfl
  rw [List.append_nil]
  exact ⟨fun nothing => nonempty (List.isEmpty_iff.2 nothing), unquoted⟩

theorem admits_readId : readId.Admits fun _ text => Resource.IsBody text := by
  intro c silent
  obtain ⟨nothing, before, text, start⟩ := Resource.splitter_splits c.rest .empty
  unfold readId at silent ⊢
  generalize Resource.splitter c.rest .empty = split at nothing text start silent ⊢
  obtain ⟨⟨⟨rest, _⟩, goOn, held⟩, _⟩ := split
  obtain rfl : _ = (∅ : Report) := nothing
  obtain rfl : _ = c.rest.start + byteLength before := start
  have parts : (Resource.read false .resource
      (Combinator.consumed c.rest ⟨rest, _⟩)).report.errors = [] ∧ _ :=
    List.append_eq_nil_iff.1 silent
  have isId := (Resource.read_errors_iff ..).1 parts.1
  rw [Combinator.consumed_eq text] at isId
  cases isId with
  | plain isBody => exact ⟨(), before, rest, isBody, text, rfl⟩
  | tag allowed => cases allowed

section Parts

variable {IsEntry IsName IsValue : List Char → Prop} {name value inside : Reading Unit}
  {entry : Nat → Reading Unit}

theorem admits_readAssignment (isName : name.Admits fun _ text => IsName text)
    (isValue : value.Admits fun _ text => IsValue text) :
    (readAssignment name value).Admits fun _ text => IsAssignment IsName IsValue text := by
  refine isName.bind fun _ name isName => ?_
  refine recognizes_skipBlanks.admits.bind fun _ before blank => ?_
  refine (recognizes_expect '=' _).admits.bind fun _ equals isEquals => ?_
  refine recognizes_skipBlanks.admits.bind fun _ after blankToo => ?_
  refine isValue.mono fun _ value isValue => ?_
  have whole : IsAssignment IsName IsValue (name ++ (before ++ '=' :: (after ++ value))) :=
    .assignment isName blank blankToo isValue
  rwa [isEquals]

theorem admits_readEntries (isEntry : ∀ fuel, (entry fuel).Admits fun _ text => IsEntry text)
    (fuel : Nat) : (readEntries entry fuel).Admits fun _ text => IsInside IsEntry text := by
  induction fuel with
  | zero => exact recognizes_expectedValue.admits
  | succ fuel ih =>
    refine Admits.after_look fun _ => admits_ite (fun _ => ?_) fun _ => ?_
    · exact (recognizes_pure (.empty CompoundTag.areBlanks_nil)).admits
    · refine (isEntry fuel).bind fun _ text isEntry => ?_
      refine recognizes_passComma.admits.bind fun found comma passed => ?_
      obtain ⟨before, after, blank, blankToo, rfl⟩ := passed
      refine admits_ite (fun isFound => ?_) fun notFound => ?_
      · refine ih.mono fun _ others inside => ?_
        rw [if_pos isFound, List.append_assoc]
        exact inside.cons isEntry blank blankToo
      · refine (recognizes_pure ?_).admits
        rw [if_neg notFound, List.append_nil]
        exact .filled CompoundTag.areBlanks_nil (.last isEntry) blank

theorem admits_readBraces (isInside : inside.Admits fun _ text => IsInside IsEntry text) :
    (readBraces inside).Admits fun _ text => IsBraces IsEntry text := by
  refine (recognizes_expect '{' none).admits.bind fun _ opening isOpening => ?_
  refine recognizes_skipBlanks.admits.bind fun _ blanks blank => ?_
  refine isInside.bind fun _ text inside => ?_
  refine (recognizes_expect '}' none).admits.mono fun _ closing isClosing => ?_
  have braces := IsBraces.braces (inside.after_blanks blank)
  rw [List.append_assoc] at braces
  rwa [isOpening, isClosing]

end Parts

theorem admits_readProgress (fuel : Nat) :
    (readProgress fuel).Admits fun _ text => IsAssignment IsCriterion IsBoolean text :=
  admits_readAssignment admits_readCriterion admits_readBoolean

theorem admits_readSetting (fuel : Nat) :
    (readSetting fuel).Admits fun _ text => IsSetting text := by
  rw [readSetting_eq]
  refine Admits.after_look fun _ => admits_ite (fun _ => ?_) fun _ => ?_
  · exact (admits_readBraces (admits_readEntries admits_readProgress fuel)).mono
      fun _ _ => Or.inr
  · exact admits_readBoolean.mono fun _ _ => Or.inl

theorem admits_readItem (fuel : Nat) :
    (readItem fuel).Admits fun _ text => IsAssignment Resource.IsBody IsSetting text :=
  admits_readAssignment admits_readId (admits_readSetting fuel)

/-- What is passed in front of other characters is a value. -/
theorem admits_readBraced (fuel : Nat) :
    (readBraced fuel).Admits fun _ text => IsValue text :=
  admits_readBraces (admits_readEntries admits_readItem fuel)

end CommandScript.Advancements
