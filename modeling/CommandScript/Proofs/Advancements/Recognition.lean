import CommandScript.Proofs.Advancements.Soundness
import CommandScript.Proofs.CompoundTag.Completeness
import CommandScript.Selector.Predicate

/-!
The reader of advancements accepts exactly its grammar.

Where a text of the grammar is in front of the cursor, it is passed without an error: every part
ends where the next one begins, since ids, criteria and booleans contain neither blanks nor
separators. A loop gets through with as many steps as there are characters left, because every
entry but the last one is followed by a comma, so the reader never runs out of steps
(`settled_readBraced`). Hence a text is read without an error if and only if it is a value
(`read_accepts`).
-/

namespace CommandScript.Advancements

open Reading

open CompoundTag (AreBlanks Delimits delimits_of_blanks stops_of_blanks stops_unquoted_of_blanks)

/-! ## Completeness -/

/-- The text begins with a character that is neither blank nor a closing brace. -/
def Begins (text : List Char) : Prop :=
  ∃ c rest, text = c :: rest ∧ Charset.isBlank c = false ∧ c ≠ '}'

/-- Entries can be told from what separates them, and with enough steps for its characters one is
passed without an error, provided that what follows ends it. -/
structure Passable (entry : Nat → Reading Unit) (IsEntry : List Char → Prop) : Prop where
  begins : ∀ {text}, IsEntry text → Begins text
  clears : ∀ {text fuel after}, IsEntry text → text.length ≤ fuel → Delimits after →
    (entry fuel).Clears text after

section Texts

variable {text after blanks : List Char}

theorem Begins.append (begins : Begins text) (after : List Char) : Begins (text ++ after) := by
  obtain ⟨c, rest, rfl, noBlank, open'⟩ := begins
  exact ⟨c, rest ++ after, rfl, noBlank, open'⟩

theorem Begins.stops_blanks (begins : Begins text) : Stops Charset.isBlank text := by
  obtain ⟨c, rest, rfl, noBlank, -⟩ := begins
  exact stops_cons noBlank rest

/-- What begins with a character of a class without blanks and braces can be told from them. -/
theorem begins_of_class {p : Char → Bool} (noBlank : ∀ c, p c = true → Charset.isBlank c = false)
    (noBrace : p '}' = false) (nonempty : text ≠ []) (all : ∀ c ∈ text, p c = true) :
    Begins text := by
  obtain ⟨c, rest, rfl⟩ := List.exists_cons_of_ne_nil nonempty
  have holds := all c (List.mem_cons_self ..)
  refine ⟨c, rest, rfl, noBlank c holds, ?_⟩
  rintro rfl
  rw [noBrace] at holds
  cases holds

theorem IsCriterion.begins (isCriterion : IsCriterion text) : Begins text :=
  begins_of_class (fun _ => Charset.isBlank_of_isUnquoted) (by decide) isCriterion.1 isCriterion.2

theorem isBody_begins (isBody : Resource.IsBody text) : Begins text := by
  have first : ∀ {path : List Char}, path ≠ [] → (∀ c ∈ path, Charset.isPath c = true) →
      Begins path := begins_of_class (fun _ => Charset.isBlank_of_isPath) (by decide)
  cases isBody with
  | path nonempty isPath => exact first nonempty isPath
  | spaced nonempty isNamespace =>
    exact (first nonempty fun c mem =>
      Resource.isPath_of_isNamespace (isNamespace c mem)).append _

theorem IsBoolean.begins (isBoolean : IsBoolean text) : Begins text := by
  rcases isBoolean with rfl | rfl
  · exact ⟨'t', _, rfl, by decide, by decide⟩
  · exact ⟨'f', _, rfl, by decide, by decide⟩

theorem IsSetting.begins (isSetting : IsSetting text) : Begins text := by
  rcases isSetting with isBoolean | isCriteria
  · exact isBoolean.begins
  · cases isCriteria
    exact ⟨'{', _, rfl, by decide, by decide⟩

theorem IsAssignment.begins {IsName IsValue : List Char → Prop}
    (begins : ∀ {name}, IsName name → Begins name)
    (isAssignment : IsAssignment IsName IsValue text) : Begins text := by
  cases isAssignment with
  | assignment isName => exact (begins isName).append _

theorem IsSeries.begins {IsEntry : List Char → Prop}
    (begins : ∀ {entry}, IsEntry entry → Begins entry) (isSeries : IsSeries IsEntry text) :
    Begins text := by
  cases isSeries with
  | last isEntry => exact begins isEntry
  | comma isEntry => exact (begins isEntry).append _
  | more isEntry => exact (begins isEntry).append _

theorem stops_blanks_brace (after : List Char) : Stops Charset.isBlank ('}' :: after) :=
  stops_cons (by decide) after

end Texts

section Parts

variable {text after blanks : List Char}

theorem clears_readBoolean (isBoolean : IsBoolean text) (stops : Stops Charset.isUnquoted after) :
    readBoolean.Clears text after := by
  have unquoted : ∀ c ∈ text, Charset.isUnquoted c = true := by
    rcases isBoolean with rfl | rfl <;> exact List.all_eq_true.1 (by decide)
  refine (clears_readWhile unquoted stops).still fun value same => ?_
  have known : (value.is "true" || value.is "false") = true := by
    simpa [IsBoolean, Slice.is, same] using isBoolean
  rw [if_pos known]
  exact (clears_token _ _ _).mono fun _ _ => trivial

theorem clears_readCriterion (isCriterion : IsCriterion text)
    (stops : Stops Charset.isUnquoted after) : readCriterion.Clears text after := by
  intro c front
  rw [readCriterion, look_bind]
  refine (clears_readWhile isCriterion.2 stops).still (fun criterion same => ?_) c front
  rw [if_neg (by simpa [Slice.isEmpty, same] using isCriterion.1)]
  exact (clears_token _ _ _).mono fun _ _ => trivial

theorem clears_readId (isBody : Resource.IsBody text) (stops : Stops Charset.isPath after)
    (stopsToo : Stops (· == ':') after) : readId.Clears text after := by
  intro c front
  have noColon : after.head? ≠ some ':' := fun colon => absurd (stopsToo ':' colon) (by decide)
  obtain ⟨held, eq⟩ := Resource.splitter_isBody isBody front stops (fun _ => noColon) .empty
  have silent : (Resource.read false .resource
      ⟨text, c.rest.start⟩).report.errors = [] :=
    (Resource.read_errors_iff ..).2 (.plain isBody)
  unfold readId
  rw [eq]
  dsimp only [Reported.bind_mk]
  rw [Combinator.consumed_eq front]
  refine ⟨(), _, rfl, trivial, ?_⟩
  simp [silent]

/-- A name, an equals sign and a value are passed one after the other. -/
theorem clears_readAssignment {name value : Reading Unit} {nameText between valueText : List Char}
    (first : name.Clears nameText (blanks ++ '=' :: (between ++ valueText) ++ after))
    (blank : AreBlanks blanks) (blankToo : AreBlanks between) (begins : Begins valueText)
    (last : value.Clears valueText after) :
    (readAssignment name value).Clears (nameText ++ (blanks ++ '=' :: (between ++ valueText)))
      after := by
  have equals : Stops Charset.isBlank ('=' :: (between ++ valueText) ++ after) :=
    stops_cons (by decide) _
  have stops := (begins.append after).stops_blanks
  exact first.bind fun _ _ => (clears_skipBlanks blank equals).bind fun _ _ =>
    (clears_expect '=' _ _).cons fun _ _ => (clears_skipBlanks blankToo stops).bind fun _ _ => last

/-! ### Entries in braces -/

variable {IsEntry : List Char → Prop} {entry : Nat → Reading Unit} {fuel : Nat}

/-- In front of the closing brace there is no entry. -/
theorem clears_readEntries_closed (after : List Char) :
    (readEntries entry (fuel + 1)).Clears [] ('}' :: after) := by
  refine .after_look (a := some '}') (fun c front => congrArg List.head? front) ?_
  rw [if_pos (by simp)]
  exact (clears_pure () _).mono fun _ _ => trivial

/-- An entry is passed where there is one. -/
theorem clears_readEntries_open {others : List Char} (begins : Begins text)
    (first : (entry fuel).Clears text (others ++ after))
    (next : (do if ← passComma then readEntries entry fuel else return () : Reading Unit).Clears
      others after) :
    (readEntries entry (fuel + 1)).Clears (text ++ others) after := by
  obtain ⟨c, rest, rfl, -, noBrace⟩ := begins
  refine .after_look (a := some c) (fun c front => congrArg List.head? front) ?_
  rw [if_neg (by simpa using noBrace)]
  exact first.bind fun _ _ => next

theorem clears_readEntries_last (passable : Passable entry IsEntry) (isEntry : IsEntry text)
    (enough : text.length ≤ fuel) (blank : AreBlanks blanks) (after : List Char) :
    (readEntries entry (fuel + 1)).Clears (text ++ blanks) ('}' :: after) := by
  have delimits : Delimits (blanks ++ '}' :: after) :=
    delimits_of_blanks blank ⟨_, _, rfl, by simp⟩
  have noComma : passComma.Clears blanks ('}' :: after) (· = false) :=
    (takes_passComma_none blank (stops_blanks_brace after) (by simp)).clears
      recognizes_passComma
  refine clears_readEntries_open (passable.begins isEntry)
    (passable.clears isEntry enough delimits) (noComma.still fun found isFound => ?_)
  subst isFound
  exact (clears_pure () _).mono fun _ _ => trivial

theorem clears_readEntries_more {before between others : List Char}
    (passable : Passable entry IsEntry) (isEntry : IsEntry text) (enough : text.length ≤ fuel)
    (blank : AreBlanks before) (blankToo : AreBlanks between)
    (stops : Stops Charset.isBlank (others ++ after))
    (rest : (readEntries entry fuel).Clears others after) :
    (readEntries entry (fuel + 1)).Clears (text ++ (before ++ ',' :: between ++ others)) after := by
  have delimits : Delimits (before ++ ',' :: between ++ others ++ after) := by
    rw [List.append_assoc, List.append_assoc]
    exact delimits_of_blanks blank ⟨_, _, rfl, by simp⟩
  have comma : passComma.Clears (before ++ ',' :: between) (others ++ after) (· = true) :=
    (takes_passComma blank blankToo stops).clears recognizes_passComma
  refine clears_readEntries_open (passable.begins isEntry)
    (passable.clears isEntry enough delimits) (comma.bind fun found isFound => ?_)
  rw [isFound, if_pos rfl]
  exact rest

/-- A series is passed up to the closing brace. -/
theorem clears_readEntries (passable : Passable entry IsEntry) (isSeries : IsSeries IsEntry text)
    (enough : text.length < fuel) (blank : AreBlanks blanks) (after : List Char) :
    (readEntries entry fuel).Clears (text ++ blanks) ('}' :: after) := by
  induction isSeries generalizing fuel with
  | last isEntry =>
    obtain ⟨fuel, rfl⟩ := Nat.exists_eq_succ_of_ne_zero (by omega : fuel ≠ 0)
    exact clears_readEntries_last passable isEntry (by omega) blank after
  | @comma text _ isEntry blankBefore =>
    simp only [List.length_append, List.length_cons] at enough
    obtain ⟨fuel, rfl⟩ := Nat.exists_eq_succ_of_ne_zero (by omega : fuel ≠ 0)
    obtain ⟨fuel, rfl⟩ := Nat.exists_eq_succ_of_ne_zero (by omega : fuel ≠ 0)
    have short : text.length ≤ fuel + 1 := by omega
    have more := clears_readEntries_more passable isEntry short blankBefore blank
      (stops_blanks_brace after) (clears_readEntries_closed after)
    simpa using more
  | @more text _ _ _ isEntry blankBefore blankAfter isSeries ih =>
    simp only [List.length_append, List.length_cons] at enough
    obtain ⟨fuel, rfl⟩ := Nat.exists_eq_succ_of_ne_zero (by omega : fuel ≠ 0)
    have short : text.length ≤ fuel := by omega
    have begins := ((isSeries.begins passable.begins).append blanks).append ('}' :: after)
    have more := clears_readEntries_more passable isEntry short blankBefore blankAfter
      begins.stops_blanks (ih (by omega))
    simpa using more

/-- Entries are passed with their braces. -/
theorem clears_readBraces (passable : Passable entry IsEntry) (isBraces : IsBraces IsEntry text)
    (enough : text.length ≤ fuel) (after : List Char) :
    (readBraces (readEntries entry fuel)).Clears text after := by
  obtain ⟨inside⟩ := isBraces
  simp only [List.length_cons, List.length_append, List.length_nil] at enough
  refine (clears_expect '{' none _).cons fun _ _ => ?_
  have closing : ∀ u : Unit, True → (expect '}').Clears ['}'] after (fun _ => True) :=
    fun _ _ => (clears_expect '}' none _).mono fun _ _ => trivial
  cases inside with
  | empty blank =>
    obtain ⟨fuel, rfl⟩ := Nat.exists_eq_succ_of_ne_zero (by omega : fuel ≠ 0)
    refine (clears_skipBlanks blank (stops_blanks_brace after)).bind fun _ _ => ?_
    exact Clears.bind (clears_readEntries_closed after) closing
  | @filled series before between blank isSeries blankToo =>
    simp only [List.length_append] at enough
    have begins := ((isSeries.begins passable.begins).append between).append ('}' :: after)
    have stops : Stops Charset.isBlank ((series ++ between) ++ ['}'] ++ after) := by
      rw [List.append_assoc]
      exact begins.stops_blanks
    rw [List.append_assoc]
    refine (clears_skipBlanks blank stops).bind fun _ _ => ?_
    exact (clears_readEntries passable isSeries (by omega) blankToo after).bind closing

theorem passable_readProgress : Passable readProgress (IsAssignment IsCriterion IsBoolean) where
  begins := IsAssignment.begins IsCriterion.begins
  clears isAssignment _ delimits := by
    obtain ⟨isCriterion, blank, blankToo, isBoolean⟩ := isAssignment
    refine clears_readAssignment (clears_readCriterion isCriterion ?_) blank blankToo
      isBoolean.begins (clears_readBoolean isBoolean delimits.stops_unquoted)
    rw [List.append_assoc]
    exact stops_unquoted_of_blanks blank (by decide) _

theorem clears_readSetting (isSetting : IsSetting text) (enough : text.length ≤ fuel)
    (delimits : Delimits after) : (readSetting fuel).Clears text after := by
  rw [readSetting_eq]
  rcases isSetting with isBoolean | isCriteria
  · have clears := clears_readBoolean isBoolean delimits.stops_unquoted
    obtain ⟨c, rest, rfl, noBrace⟩ : ∃ c rest, text = c :: rest ∧ c ≠ '{' := by
      rcases isBoolean with rfl | rfl
      · exact ⟨'t', _, rfl, by decide⟩
      · exact ⟨'f', _, rfl, by decide⟩
    refine .after_look (a := some c) (fun c front => congrArg List.head? front) ?_
    rwa [if_neg (by simpa using noBrace)]
  · have clears := clears_readBraces passable_readProgress isCriteria enough after
    obtain ⟨inside⟩ := isCriteria
    refine .after_look (a := some '{') (fun c front => congrArg List.head? front) ?_
    rwa [if_pos rfl]

theorem passable_readItem : Passable readItem (IsAssignment Resource.IsBody IsSetting) where
  begins := IsAssignment.begins isBody_begins
  clears isAssignment enough delimits := by
    obtain ⟨isBody, blank, blankToo, isSetting⟩ := isAssignment
    simp only [List.length_append, List.length_cons] at enough
    refine clears_readAssignment (clears_readId isBody ?_ ?_) blank blankToo isSetting.begins
      (clears_readSetting isSetting (by omega) delimits)
    · rw [List.append_assoc]
      exact stops_of_blanks (fun _ => Charset.isBlank_of_isPath) blank (by decide) _
    · rw [List.append_assoc]
      refine stops_of_blanks (fun c colon => ?_) blank (by decide) _
      rw [beq_iff_eq.1 colon]
      decide

/-- A value is passed in front of any characters. -/
theorem clears_readBraced (isValue : IsValue text) (enough : text.length ≤ fuel)
    (after : List Char) : (readBraced fuel).Clears text after :=
  clears_readBraces passable_readItem isValue enough after

end Parts

/-! ## Enough steps -/

section Steps

variable {c : Cursor} {fuel : Nat}

theorem worded_expect_of {ch : Char} {kind : Option Highlight}
    (other : (Cursor.Fault.expected ch).message ≠ outOfSteps ∧
      (Cursor.Fault.expectedBeforeEnd ch).message ≠ outOfSteps) :
    (expect ch kind).Worded (· ≠ outOfSteps) :=
  worded_expect other.1 other.2

theorem worded_readBoolean : readBoolean.Worded (· ≠ outOfSteps) := by
  refine (worded_move _).bind fun value => worded_ite ?_ ?_
  · exact worded_report Report.worded_token
  · have unknown : Fault.notBoolean.message ≠ outOfSteps := by decide
    have error : (error value.span Fault.notBoolean.message).Worded (· ≠ outOfSteps) :=
      worded_report (Report.worded_error.2 unknown)
    exact error.bind fun _ => worded_report Report.worded_token

theorem worded_readCriterion : readCriterion.Worded (· ≠ outOfSteps) := by
  refine (worded_look _).bind fun _ => (worded_move _).bind fun _ => worded_ite ?_ ?_
  · have missing : Fault.missingCriterion.message ≠ outOfSteps := by decide
    exact fun _ => Report.worded_append.2 ⟨Report.worded_error.2 missing, Report.worded_empty⟩
  · exact worded_report Report.worded_token

theorem worded_readId : readId.Worded (· ≠ outOfSteps) := by
  intro c
  have silent := (Resource.splitter_splits c.rest .empty).1
  have words : ∀ fault : Resource.Fault, fault.message ≠ outOfSteps := by
    intro fault
    cases fault <;> decide
  unfold readId
  rw [Reported.report_bind, Reported.report_bind, silent]
  exact Report.worded_append.2 ⟨Report.worded_empty, Report.worded_append.2
    ⟨Resource.read_worded words false .resource _, Report.worded_empty⟩⟩

/-- The value of an assignment has fewer characters left than the assignment. -/
theorem settled_readAssignment {name value other : Reading Unit} (passes : name.Passes)
    (worded : name.Worded (· ≠ outOfSteps)) (sound : c.Sound)
    (settled : ∀ behind : Cursor, behind.Sound →
      behind.rest.text.length < c.rest.text.length → Settled value other behind) :
    Settled (readAssignment name value) (readAssignment name other) c := by
  refine (worded.settled c).bind fun _ c₁ moved => ?_
  obtain ⟨sound₁, length₁⟩ := passes.moved sound moved
  refine ((worded_move _).settled c₁).bind fun _ c₂ moved => ?_
  obtain ⟨sound₂, length₂⟩ := passes_skipBlanks.moved sound₁ moved
  refine ((worded_expect_of (by decide)).settled c₂).bind fun _ c₃ moved => ?_
  obtain ⟨sound₃, length₃⟩ := expect_moved sound₂ moved
  refine ((worded_move _).settled c₃).bind fun _ c₄ moved => ?_
  obtain ⟨sound₄, length₄⟩ := passes_skipBlanks.moved sound₃ moved
  exact settled c₄ sound₄ (by omega)

/-- What is inside of braces has fewer characters left than the braces. -/
theorem settled_readBraces {inside other : Reading Unit} (sound : c.Sound)
    (settled : ∀ behind : Cursor, behind.Sound →
      behind.rest.text.length < c.rest.text.length → Settled inside other behind) :
    Settled (readBraces inside) (readBraces other) c := by
  refine ((worded_expect_of (by decide)).settled c).bind fun _ c₁ moved => ?_
  obtain ⟨sound₁, length₁⟩ := expect_moved sound moved
  refine ((worded_move _).settled c₁).bind fun _ c₂ moved => ?_
  obtain ⟨sound₂, length₂⟩ := passes_skipBlanks.moved sound₁ moved
  refine (settled c₂ sound₂ (by omega)).bind fun _ c₃ _ => ?_
  exact (worded_expect_of (by decide)).settled c₃

/-- Only a comma leads to another entry, and takes a character. -/
theorem settled_readEntries {entry : Nat → Reading Unit} (passes : ∀ fuel, (entry fuel).Passes)
    (settled : ∀ {fuel : Nat} {c : Cursor}, c.Sound → c.rest.text.length ≤ fuel →
      Settled (entry fuel) (entry (fuel + 1)) c)
    (sound : c.Sound) (enough : c.rest.text.length < fuel) :
    Settled (readEntries entry fuel) (readEntries entry (fuel + 1)) c := by
  induction fuel generalizing c with
  | zero => cases enough
  | succ fuel ih =>
    refine Settled.after_look ?_
    split
    · exact (worded_pure ()).settled c
    · refine (settled sound (Nat.le_of_lt_succ enough)).bind fun _ c₁ moved => ?_
      obtain ⟨sound₁, length₁⟩ := (passes fuel).moved sound moved
      refine (worded_passComma.settled c₁).bind fun found c₂ moved => ?_
      cases found with
      | false => exact (worded_pure ()).settled c₂
      | true =>
        obtain ⟨sound₂, length₂⟩ := passComma_moved sound₁ moved
        exact ih sound₂ (by omega)

theorem passes_readAssignment {name value : Reading Unit} (passes : name.Passes)
    (passesToo : value.Passes) : (readAssignment name value).Passes :=
  passes.bind fun _ => passes_skipBlanks.bind fun _ => (passes_expect _ _).bind fun _ =>
    passes_skipBlanks.bind fun _ => passesToo

theorem settled_readSetting (sound : c.Sound) (enough : c.rest.text.length ≤ fuel) :
    Settled (readSetting fuel) (readSetting (fuel + 1)) c := by
  rw [readSetting_eq, readSetting_eq]
  refine Settled.after_look ?_
  split
  · refine settled_readBraces sound fun behind sound shorter => ?_
    have passes : ∀ fuel, (readProgress fuel).Passes := fun _ =>
      passes_readAssignment passes_readCriterion passes_readBoolean
    refine settled_readEntries passes (fun sound _ => ?_) sound (by omega)
    exact settled_readAssignment passes_readCriterion worded_readCriterion sound
      fun behind _ _ => worded_readBoolean.settled behind
  · exact worded_readBoolean.settled c

theorem settled_readBraced (sound : c.Sound) (enough : c.rest.text.length ≤ fuel) :
    Settled (readBraced fuel) (readBraced (fuel + 1)) c := by
  refine settled_readBraces sound fun behind sound shorter => ?_
  have passes : ∀ fuel, (readItem fuel).Passes := fun fuel =>
    passes_readAssignment passes_readId (passes_readSetting fuel)
  refine settled_readEntries passes (fun sound enough => ?_) sound (by omega)
  refine settled_readAssignment passes_readId worded_readId sound fun behind sound shorter => ?_
  exact settled_readSetting sound (by omega)

theorem settled_readValue (sound : c.Sound) (enough : c.rest.text.length ≤ fuel) :
    Settled (readValue fuel) (readValue (fuel + 1)) c := by
  rw [readValue_eq, readValue_eq]
  refine (settled_readBraced sound enough).bind fun _ behind _ => Settled.after_look ?_
  have trailing : Fault.trailing.message ≠ outOfSteps := by decide
  have words : (Reported.errorIf (!behind.rest.isEmpty) behind.rest.span
      Fault.trailing.message).report.Worded (· ≠ outOfSteps) :=
    Reported.worded_errorIf.2 fun _ => trailing
  exact (worded_report words).settled behind

end Steps

/-- As many steps as there are characters come to the same as more of them. -/
theorem readValue_settled {s : Slice} {fuel : Nat} (enough : s.text.length ≤ fuel) :
    readValue fuel (.ofSlice s) = readValue s.text.length (.ofSlice s) := by
  induction enough with
  | refl => rfl
  | @step fuel enough ih =>
    exact (settled_readValue (Cursor.sound_ofSlice s) enough).same.trans ih

theorem read_report (s : Slice) :
    (read s).report = (readValue s.text.length (.ofSlice s)).report := by
  unfold read
  rw [readValue_settled (by omega : s.text.length ≤ 2 * s.text.length + 1), Reported.report_bind]
  exact Report.append_empty _

/-- The errors for a slice are those for its braces, and one about what follows them. -/
theorem readValue_errors_iff (fuel : Nat) (c : Cursor) :
    (readValue fuel c).report.errors = [] ↔ (readBraced fuel c).report.errors = [] ∧
      ∀ u behind, (readBraced fuel c).value = some (u, behind) → behind.rest.text = [] := by
  rw [readValue_eq, run_bind, Reported.report_bind, Report.append_errors, List.append_eq_nil_iff]
  refine and_congr_right fun _ => ?_
  cases (readBraced fuel c).value with
  | none => exact iff_of_true rfl nofun
  | some found =>
    obtain ⟨u, behind⟩ := found
    have trailing : (Reading.report (Reported.errorIf (!behind.rest.isEmpty) behind.rest.span
        Fault.trailing.message) behind).report.errors = [] ↔ behind.rest.text = [] := by
      rw [report_of_slice, Reported.errorIf_errors]
      simp [Slice.isEmpty]
    refine trailing.trans ⟨?_, fun silent => silent _ _ rfl⟩
    rintro silent _ _ ⟨⟩
    exact silent

/-- The reader of advancements accepts exactly its grammar. As many steps as there are characters
suffice: more of them, and those it is given, come to the same, and it never says that there are
none left. A text is read without an error if and only if it is a value. -/
theorem read_accepts (s : Slice) :
    (∀ fuel, s.text.length ≤ fuel → readValue fuel (.ofSlice s) =
      readValue (2 * s.text.length + 1) (.ofSlice s)) ∧
    (SelectorPredicate.advancements.read s).report.Worded (· ≠ outOfSteps) ∧
    ((SelectorPredicate.advancements.read s).report.errors = [] ↔ IsValue s.text) := by
  refine ⟨fun fuel enough => ?_, ?_, ?_⟩
  · exact (readValue_settled enough).trans (readValue_settled (by omega)).symm
  · show (read s).report.Worded _
    rw [read_report]
    exact (settled_readValue (Cursor.sound_ofSlice s) (Nat.le_refl _)).inTime
  · show (read s).report.errors = [] ↔ _
    rw [read_report, readValue_errors_iff]
    constructor
    · rintro ⟨silent, nothing⟩
      obtain ⟨u, text, after, isValue, front, value⟩ := admits_readBraced _ _ silent
      obtain rfl : after = [] := nothing _ _ value
      rw [List.append_nil] at front
      exact front ▸ isValue
    · intro isValue
      have front : (Cursor.ofSlice s).rest.text = s.text ++ [] := (List.append_nil _).symm
      obtain ⟨u, report, eq, -, silent⟩ :=
        clears_readBraced isValue (Nat.le_refl _) [] (.ofSlice s) front
      rw [eq]
      refine ⟨silent, ?_⟩
      rintro _ _ ⟨⟩
      rfl

/-- Blanks and commas are free, but an id may not be left out. -/
example :
    (read ⟨"{ story/root = {enter = true,}, a:b=false }".toList, 0⟩).report.errors = [] ∧
      (read ⟨"{=true}".toList, 0⟩).report.errors.length = 1 := by
  decide

end CommandScript.Advancements
