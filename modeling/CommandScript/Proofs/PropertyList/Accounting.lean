import CommandScript.Proofs.List
import CommandScript.Proofs.PropertyList

/-!
Every part of a property list is accounted for.

A part is divided at its first equals sign into a key and a value (`PropertySpec.dividedEntry`).
Reading it yields that entry, with a token over the sign, or nothing but a single error
(`PropertySpec.Accounts`); which of the two depends on the part alone. A list is read part by
part (`PropertySpec.readParts_eq`), so its entries and its remarks are those of its parts, in
their order, and there are as many parts as there are entries and refused parts.
-/

namespace CommandScript

/-! ## Parts -/

/-- The text up to its first equals sign, and the text behind it. -/
structure DividedAtEquals (text before after : List Char) : Prop where
  text : text = before ++ '=' :: after
  first : '=' ∉ before

namespace PropertySpec

/-- Key and value of a part that is divided at an equals sign: what stands on either side of
it, without the blanks around it. An empty value stands right behind the sign. -/
def dividedEntry (part : Slice) (before after : List Char) : PropertyEntry :=
  ⟨Slice.trim ⟨before, part.start⟩,
    (Slice.trimEnd ⟨after, part.start + byteLength before + 1⟩).trim⟩

/-- The key or the value is empty and must not be. -/
def lacks (spec : PropertySpec) (entry : PropertyEntry) : Bool :=
  entry.key.isEmpty && !spec.allowEmptyKey || entry.value.isEmpty && !spec.allowEmptyValue

/-- What is said of an entry whose equals sign stands at `sign`: an error for a key and one for
a value of bad characters, a token over the key if there is one, and one over the sign. -/
def entryReport (spec : PropertySpec) (entry : PropertyEntry) (sign : Nat) : Report where
  errors :=
    (if spec.keyValid entry.key.text then [] else [⟨entry.key.span, spec.wording.badKey⟩]) ++
      if spec.valueValid entry.value.text then [] else [⟨entry.value.span, spec.wording.badValue⟩]
  warnings := []
  tokens := (if entry.key.isEmpty then [] else [⟨entry.key.span, spec.keyKind⟩]) ++
    [⟨⟨sign, sign + 1⟩, .operator⟩]

/-- What a part of a list comes to: the entry on either side of its first equals sign, or a
single error if there is no such sign or the entry lacks something. -/
inductive Accounts (spec : PropertySpec) (part : Slice) :
    Reported (Option PropertyEntry) → Prop where
  | entry {before after : List Char} (divided : DividedAtEquals part.text before after)
    (complete : spec.lacks (dividedEntry part before after) = false) :
    Accounts spec part ⟨some (dividedEntry part before after),
      spec.entryReport (dividedEntry part before after) (part.start + byteLength before)⟩
  | refused {fault : Remark} (reason : ∀ before after, DividedAtEquals part.text before after →
      spec.lacks (dividedEntry part before after) = true) :
    Accounts spec part ⟨none, ⟨[fault], [], []⟩⟩

section Parts

variable {spec : PropertySpec} {part : Slice} {before after : List Char}

/-- A part that is divided is trimmed on either side of its equals sign. -/
theorem trim_divided (divided : DividedAtEquals part.text before after) :
    let front := Slice.trimStart ⟨before, part.start⟩
    let back := Slice.trimEnd ⟨after, part.start + byteLength before + 1⟩
    part.trim = ⟨front.text ++ '=' :: back.text, front.start⟩ ∧ '=' ∉ front.text ∧
      front.start + byteLength front.text = part.start + byteLength before := by
  intro front back
  refine ⟨Slice.trim_around divided.text (by decide), fun mem => divided.first ?_,
    Slice.trimStart_stop ⟨before, part.start⟩⟩
  exact (List.dropWhile_sublist _).mem mem

/-- Whether the entry of a part lacks something does not depend on how the part is divided, for
it is divided in one way only. -/
theorem lacks_of_divided (spec : PropertySpec) (divided : DividedAtEquals part.text before after)
    (lacking : spec.lacks (dividedEntry part before after) = true) :
    ∀ before after, DividedAtEquals part.text before after →
      spec.lacks (dividedEntry part before after) = true := by
  intro before' after' divided'
  obtain ⟨rfl, rfl⟩ := append_separator_inj divided.first divided'.first
    (divided.text.symm.trans divided'.text)
  exact lacking

/-- An entry that lacks nothing is said of what the report of an entry says. -/
theorem reading_entry (spec : PropertySpec) (entry : PropertyEntry) (sign : Slice)
    (width : sign.stop = sign.start + 1) :
    (do
      Reported.errorIf (!spec.keyValid entry.key.text) entry.key.span spec.wording.badKey
      Reported.errorIf (!spec.valueValid entry.value.text) entry.value.span spec.wording.badValue
      if entry.key.isEmpty then pure () else Reported.token entry.key.span spec.keyKind
      Reported.token sign.span .operator
      return some entry : Reported (Option PropertyEntry)) =
    ⟨some entry, spec.entryReport entry sign.start⟩ := by
  have span : sign.span = ⟨sign.start, sign.start + 1⟩ := congrArg (Span.mk _) width
  rw [span, entryReport]
  generalize spec.keyValid entry.key.text = keyValid
  generalize spec.valueValid entry.value.text = valueValid
  generalize entry.key.isEmpty = noKey
  cases keyValid <;> cases valueValid <;> cases noKey <;> rfl

theorem readEntry_accounts (spec : PropertySpec) (part : Slice) :
    Accounts spec part (spec.readEntry part) := by
  unfold readEntry
  dsimp only
  by_cases sign : '=' ∈ part.text
  · obtain ⟨before, after, text, first⟩ := List.eq_append_cons_of_mem sign
    have divided : DividedAtEquals part.text before after := ⟨text, first⟩
    obtain ⟨trimmed, absent, sameStop⟩ := trim_divided divided
    have key : Slice.trim (Slice.trimStart ⟨before, part.start⟩) =
        (dividedEntry part before after).key :=
      congrArg Slice.trimEnd (Slice.trimStart_trimStart ⟨before, part.start⟩)
    have found := Slice.find?_of_not_mem (congrArg Slice.text trimmed) absent
    obtain ⟨keyCut, signCut, valueCut⟩ := cuts_around_equals (congrArg Slice.text trimmed)
    rw [found]
    dsimp only
    rw [keyCut, signCut, valueCut, congrArg Slice.start trimmed]
    dsimp only
    rw [sameStop]
    rw [key]
    have lacking := lacks_of_divided spec divided
    have read := reading_entry spec (dividedEntry part before after)
      ⟨['='], part.start + byteLength before⟩ rfl
    split
    · rename_i noKey
      exact .refused (lacking (Bool.or_eq_true_iff.2 (Or.inl noKey)))
    · rename_i hasKey
      split
      · rename_i noValue
        exact .refused (lacking (Bool.or_eq_true_iff.2 (Or.inr noValue)))
      · rename_i hasValue
        have complete : spec.lacks (dividedEntry part before after) = false :=
          Bool.or_eq_false_iff.2 ⟨eq_false_of_ne_true hasKey, eq_false_of_ne_true hasValue⟩
        have accounted := Accounts.entry divided complete
        rw [← read] at accounted
        exact accounted
  · have notFound : part.trim.find? '=' = none := by
      obtain ⟨front, back, text, -⟩ := Slice.trim_within part
      refine if_neg fun found => sign ?_
      rw [text]
      exact List.mem_append_left _ (List.mem_append_right _ (by simpa using found))
    rw [notFound]
    exact .refused fun before after divided => absurd (by simp [divided.text]) sign

/-! ## Lists of parts -/

/-- Reads a part of a list. A blank one is an error at a comma beside it. -/
def readPart (spec : PropertySpec) (comma part : Slice) : Reported (Option PropertyEntry) :=
  if part.trim.isEmpty then do
    Reported.error comma.span spec.wording.extraComma
    return none
  else
    spec.readEntry part

/-- The entries and the remarks of all parts, in their order. -/
def gather (outcomes : List (Reported (Option PropertyEntry))) : Reported (List PropertyEntry) where
  value := outcomes.filterMap (·.value)
  report := ⟨outcomes.flatMap (·.report.errors), outcomes.flatMap (·.report.warnings),
    outcomes.flatMap (·.report.tokens)⟩

theorem gather_cons (outcome : Reported (Option PropertyEntry))
    (outcomes : List (Reported (Option PropertyEntry))) :
    gather (outcome :: outcomes) = do
      let entry ← outcome
      let entries ← gather outcomes
      return entry.toList ++ entries := by
  rcases outcome with ⟨entry, report⟩
  show _ = Reported.mk _ (report ++ ((gather outcomes).report ++ ∅))
  rw [Report.append_empty]
  cases entry <;> rfl

/-- Every part yields an entry or none. -/
theorem length_gather (outcomes : List (Reported (Option PropertyEntry))) :
    outcomes.length = (gather outcomes).value.length + outcomes.countP (·.value.isNone) := by
  induction outcomes with
  | nil => rfl
  | cons outcome outcomes ih =>
    have entries : (gather (outcome :: outcomes)).value =
        outcome.value.toList ++ (gather outcomes).value := by
      rw [gather_cons]
      rfl
    rw [entries, List.length_append, List.length_cons, ih]
    rcases outcome with ⟨_ | entry, report⟩
    · simp [Nat.add_assoc]
    · simp [Nat.add_assoc, Nat.add_comm 1]

/-- A list is read part by part. -/
theorem readParts_eq (spec : PropertySpec) (inner : Slice) (before : Option Slice)
    (parts commas : List Slice) : ∃ outcomes,
      List.Forall₂ (fun part outcome => ∃ comma, outcome = spec.readPart comma part) parts outcomes ∧
        spec.readParts inner before parts commas = gather outcomes := by
  induction parts generalizing before commas with
  | nil => exact ⟨[], .nil, rfl⟩
  | cons part parts ih =>
    obtain ⟨outcomes, each, eq⟩ := ih commas.head? commas.tail
    let comma := (commas.head?.or before).getD inner
    refine ⟨spec.readPart comma part :: outcomes, .cons ⟨comma, rfl⟩ each, ?_⟩
    rw [gather_cons, readParts, eq, readPart]
    split
    · simp only [bind_assoc, pure_bind, Option.toList_none, List.nil_append, bind_pure]
      rfl
    · rfl

/-- If no part is blank, the commas do not matter. -/
theorem readParts_of_filled (spec : PropertySpec) (inner : Slice) (before : Option Slice)
    {parts : List Slice} (commas : List Slice)
    (filled : ∀ part ∈ parts, part.trim.isEmpty = false) :
    spec.readParts inner before parts commas = gather (parts.map spec.readEntry) := by
  induction parts generalizing before commas with
  | nil => rfl
  | cons part parts ih =>
    obtain ⟨first, others⟩ := List.forall_mem_cons.1 filled
    rw [readParts, first, if_neg Bool.false_ne_true, ih _ _ others, List.map_cons, gather_cons]

theorem readPart_accounts (spec : PropertySpec) (comma part : Slice) :
    Accounts spec part (spec.readPart comma part) := by
  unfold readPart
  split
  · rename_i blank
    refine .refused fun before after divided => ?_
    have trimmed := (trim_divided divided).1
    rw [trimmed] at blank
    simp [Slice.isEmpty] at blank
  · exact spec.readEntry_accounts part

/-- No part is warned of. -/
theorem flatMap_warnings {parts : List Slice} {outcomes : List (Reported (Option PropertyEntry))}
    (accounts : List.Forall₂ (Accounts spec) parts outcomes) :
    outcomes.flatMap (·.report.warnings) = [] := by
  induction accounts with
  | nil => rfl
  | cons first _ ih =>
    rw [List.flatMap_cons, ih]
    cases first <;> rfl

end Parts

/-- Every part of a list is accounted for. A list without its closing bracket is a single error
and nothing else. Of any other list, what stands between its brackets is read: if that is blank,
there are no entries and no remarks; otherwise it is cut at its commas at top level into parts
that cannot be cut any further. Each part yields either the entry on either side of its first
equals sign, with a token over the sign, or a single error and nothing else, and the list consists
of what its parts yield, in their order. So there are as many parts as there are entries and
refused parts. -/
theorem read_accounts (spec : PropertySpec) (s : Slice) :
    (spec.bracketed? s = none ∧ ∃ fault, spec.read s = ⟨none, ⟨[fault], [], []⟩⟩) ∨
      ∃ (inner : Slice) (list : PropertyList), (spec.read s).value = some list ∧
        spec.bracketed? s = some (inner, list.rest) ∧
        (Nesting.isCloser spec.opener = false →
          s.text = spec.opener :: (inner.text ++ spec.closer :: list.rest.text) ∧
            inner.start = s.start + spec.opener.utf8Size ∧
            list.rest.start = inner.stop + spec.closer.utf8Size) ∧
        ((∀ c ∈ inner.text, Charset.isBlank c = true) →
          list.entries = [] ∧ (spec.read s).report = ∅) ∧
        ((∃ c ∈ inner.text, Charset.isBlank c = false) →
          let parts := (inner.splitTopLevel ',').parts
          [','].intercalate (parts.map (·.text)) = inner.text ∧
          (∀ part ∈ parts, Nesting.outside.topLevelParts ',' part.text = [part.text]) ∧
          ∃ outcomes, List.Forall₂ spec.Accounts parts outcomes ∧
            list.entries = outcomes.filterMap (·.value) ∧
            (spec.read s).report = ⟨outcomes.flatMap (·.report.errors), [],
              outcomes.flatMap (·.report.tokens)⟩ ∧
            parts.length = list.entries.length + outcomes.countP (·.value.isNone)) := by
  unfold read
  split
  · rename_i unclosed
    exact Or.inl ⟨unclosed, _, rfl⟩
  · rename_i inner rest brackets
    have place := fun noCloser => bracketed?_eq_some noCloser brackets
    right
    split
    · rename_i blank
      refine ⟨inner, ⟨[], rest⟩, rfl, brackets, place, fun _ => ⟨rfl, rfl⟩, ?_⟩
      rintro ⟨c, mem, noBlank⟩
      rw [Slice.trim_isEmpty_eq_false mem noBlank] at blank
      cases blank
    · rename_i filled
      let parts := (inner.splitTopLevel ',').parts
      obtain ⟨outcomes, read, eq⟩ :=
        spec.readParts_eq inner none parts (inner.splitTopLevel ',').separators
      have accounts : List.Forall₂ spec.Accounts parts outcomes :=
        read.imp fun part outcome ⟨comma, same⟩ => same ▸ spec.readPart_accounts comma part
      have report : (gather outcomes).report = ⟨outcomes.flatMap (·.report.errors), [],
          outcomes.flatMap (·.report.tokens)⟩ := by
        rw [gather, flatMap_warnings accounts]
      have length : parts.length =
          (outcomes.filterMap (·.value)).length + outcomes.countP (·.value.isNone) := by
        rw [accounts.length_eq]
        exact length_gather outcomes
      refine ⟨inner, ⟨outcomes.filterMap (·.value), rest⟩, ?_, brackets, place, ?_, fun _ => ?_⟩
      · show some _ = _
        rw [eq]
        rfl
      · intro blank
        exact absurd (Slice.trim_isEmpty_of_blank blank) filled
      · refine ⟨inner.intercalate_splitTopLevel ',', fun _ => Slice.splitTopLevel_part, outcomes,
          accounts, rfl, ?_, length⟩
        rw [Reported.report_bind, Reported.report_pure, Report.append_empty, eq, report]

end PropertySpec

end CommandScript
