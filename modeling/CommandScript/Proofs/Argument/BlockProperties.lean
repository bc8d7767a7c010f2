import CommandScript.Proofs.Argument.Word
import CommandScript.Proofs.PropertyList.Written
import CommandScript.Proofs.Resource.Normalized
import CommandScript.Proofs.Shift.Argument

/-!
The properties of a block are checked exactly.

A list of properties is written with keys and values of word characters and with blanks around
each of them (`WrittenEntry.OfWords`). Behind an id it is read as it is written
(`WrittenEntry.OfWords.fits`), so what is said of it is what the check of its entries says. Of a
single property that check reports that its key was there before, that the block has no such
property, or that the property has no such value (`Argument.BlockSpec.checkEntry_counts`); over a
list the keys before a property are the ones in front of it
(`Argument.BlockSpec.checkEntries_counts`). A tag and a block without a table have nothing that
their properties could be checked against.
-/

namespace CommandScript

/-! ## Properties of word characters -/

/-- A property whose key and value are word characters, at least one of each, with blanks around
both of them. -/
structure WrittenEntry.OfWords (w : WrittenEntry) : Prop where
  blanks : ∀ c ∈ w.beforeKey ++ w.afterKey ++ w.beforeValue ++ w.afterValue,
    Charset.isBlank c = true
  keyNonempty : w.key ≠ []
  key : ∀ c ∈ w.key, Charset.isWord c = true
  valueNonempty : w.value ≠ []
  value : ∀ c ∈ w.value, Charset.isWord c = true

instance (w : WrittenEntry) : Decidable w.OfWords :=
  decidable_of_iff ((w.beforeKey ++ w.afterKey ++ w.beforeValue ++ w.afterValue).all
      Charset.isBlank = true ∧ w.key ≠ [] ∧ w.key.all Charset.isWord = true ∧ w.value ≠ [] ∧
        w.value.all Charset.isWord = true)
    ⟨fun ⟨blanks, keyNonempty, key, valueNonempty, value⟩ => ⟨List.all_eq_true.1 blanks,
      keyNonempty, List.all_eq_true.1 key, valueNonempty, List.all_eq_true.1 value⟩,
    fun ofWords => ⟨List.all_eq_true.2 ofWords.blanks, ofWords.keyNonempty,
      List.all_eq_true.2 ofWords.key, ofWords.valueNonempty, List.all_eq_true.2 ofWords.value⟩⟩

section OfWords

variable {text : List Char} {w : WrittenEntry}

theorem trimmed_of_isWord (isWord : ∀ c ∈ text, Charset.isWord c = true) : Trimmed text :=
  trimmed_of_noBlank fun c mem =>
    Charset.isBlank_of_isUnquoted (Charset.isUnquoted_of_isWord (isWord c mem))

/-- Word characters neither mark nor separate anything. -/
theorem plain_of_isWord (isWord : ∀ c ∈ text, Charset.isWord c = true) :
    ∀ c ∈ text, Nesting.isMark c = false ∧ c ≠ ',' := by
  intro c mem
  refine ⟨Nesting.isMark_of_isUnquoted (Charset.isUnquoted_of_isWord (isWord c mem)), ?_⟩
  rintro rfl
  exact absurd (isWord ',' mem) (by decide)

theorem WrittenEntry.OfWords.fits (ofWords : w.OfWords) :
    w.Fits Argument.BlockSpec.propertySpec where
  blanks := ofWords.blanks
  keyNonempty := ofWords.keyNonempty
  keyTrimmed := trimmed_of_isWord ofWords.key
  keyValid := List.all_eq_true.2 ofWords.key
  noEquals mem := absurd (ofWords.key '=' mem) (by decide)
  valueNonempty none := absurd none ofWords.valueNonempty
  valueTrimmed := trimmed_of_isWord ofWords.value
  valueValid := List.all_eq_true.2 ofWords.value
  keyPlain := plain_of_isWord ofWords.key
  valueCloses := Nesting.closes_of_plain (plain_of_isWord ofWords.value)

/-- No character of such a property has a meaning in a line. -/
theorem WrittenEntry.OfWords.unmarked (ofWords : w.OfWords) :
    ∀ c ∈ w.text, Nesting.isMark c = false := by
  have blanks := fun c mem => Nesting.isMark_of_isBlank (ofWords.blanks c mem)
  have key := fun c mem => (plain_of_isWord ofWords.key c mem).1
  have value := fun c mem => (plain_of_isWord ofWords.value c mem).1
  have sign : Nesting.isMark '=' = false := by decide
  unfold text
  grind

end OfWords

namespace Argument.BlockSpec

open WrittenEntry (join entries)

/-! ## What is wrong with properties -/

/-- How many keys of a list stand somewhere in front as well. -/
def repeats (keys : List (List Char)) : Nat :=
  keys.zipIdx.countP fun p => (keys.take p.2).contains p.1

/-- How many keys of a list stand somewhere in front as well, the keys of `front` included. -/
def repeatsBehind (front keys : List (List Char)) : Nat :=
  (keys.zipIdx front.length).countP fun p => ((front ++ keys).take p.2).contains p.1

/-- The table has no property of this key. -/
def isUnknown (table : BlockProperties) (w : WrittenEntry) : Bool :=
  (table.lookup (String.ofList w.key)).isNone

/-- The table has a property of this key, but not with this value. -/
def isIllegal (table : BlockProperties) (w : WrittenEntry) : Bool :=
  (table.lookup (String.ofList w.key)).any fun allowed =>
    !allowed.contains (String.ofList w.value)

theorem repeatsBehind_cons (front : List (List Char)) (key : List Char)
    (keys : List (List Char)) :
    repeatsBehind front (key :: keys) =
      repeatsBehind (front ++ [key]) keys + (front.contains key).toNat := by
  have whole : front ++ key :: keys = front ++ [key] ++ keys := by simp
  have before : (front ++ [key] ++ keys).take front.length = front := by
    rw [List.append_assoc, List.take_left]
  unfold repeatsBehind
  rw [whole, List.zipIdx_cons, List.countP_cons, before, List.length_append]
  cases front.contains key <;> rfl

/-- No key is repeated exactly if all are distinct, also from those in front. -/
theorem repeatsBehind_eq_zero_iff (front keys : List (List Char)) :
    repeatsBehind front keys = 0 ↔ keys.Nodup ∧ ∀ key ∈ keys, key ∉ front := by
  induction keys generalizing front with
  | nil => simp [repeatsBehind]
  | cons key keys ih =>
    rw [repeatsBehind_cons, Nat.add_eq_zero_iff, ih]
    grind

theorem repeats_eq_zero_iff (keys : List (List Char)) : repeats keys = 0 ↔ keys.Nodup := by
  have behind : repeats keys = 0 ↔ _ := repeatsBehind_eq_zero_iff [] keys
  simpa using behind

section Entries

variable {table : BlockProperties} {ws : List WrittenEntry}

theorem checkEntry_counts (block : Known) (seen : List (List Char)) (w : WrittenEntry)
    (start : Nat) :
    let report := (checkEntry block seen (w.entry start)).report
    report.errors.length = (seen.contains w.key).toNat +
        ((isUnknown block.properties w).toNat + (isIllegal block.properties w).toNat) ∧
      report.warnings = [] := by
  have key : (w.entry start).key.toString = String.ofList w.key := rfl
  have value : (w.entry start).value.toString = String.ofList w.value := rfl
  have seenKey : seen.contains (w.entry start).key.text = seen.contains w.key := rfl
  unfold checkEntry isUnknown isIllegal
  rw [key, value, seenKey]
  generalize seen.contains w.key = again
  cases block.properties.lookup (String.ofList w.key) with
  | none => cases again <;> exact ⟨rfl, rfl⟩
  | some allowed =>
    dsimp only [Option.any, Option.isNone]
    generalize (!allowed.contains (String.ofList w.value)) = illegal
    cases again <;> cases illegal <;> exact ⟨rfl, rfl⟩

/-- A list of properties has an error for every key that was there before, for every property
that the block does not have, and for every value that its property does not have. -/
theorem checkEntries_counts (block : Known) {front seen : List (List Char)}
    (same : ∀ key, key ∈ seen ↔ key ∈ front) (start : Nat) (ws : List WrittenEntry) :
    let report := (checkEntries block seen (entries start ws)).report
    report.errors.length = repeatsBehind front (ws.map (·.key)) +
        (ws.countP (isUnknown block.properties) + ws.countP (isIllegal block.properties)) ∧
      report.warnings = [] := by
  induction ws generalizing start front seen with
  | nil => exact ⟨rfl, rfl⟩
  | cons w ws ih =>
    -- The keys are collected in front of one another, so only which ones they are stays the same.
    have sameLater : ∀ key, key ∈ w.key :: seen ↔ key ∈ front ++ [w.key] := by
      intro key
      simp [same, or_comm]
    obtain ⟨errors, warnings⟩ := checkEntry_counts block seen w start
    obtain ⟨later, laterWarnings⟩ := ih sameLater (start + byteLength w.text + 1)
    have again : seen.contains w.key = front.contains w.key := by
      rw [Bool.eq_iff_iff, List.contains_iff_mem, List.contains_iff_mem, same]
    have split : (checkEntries block seen (entries start (w :: ws))).report =
        (checkEntry block seen (w.entry start)).report ++
          (checkEntries block (w.key :: seen)
            (entries (start + byteLength w.text + 1) ws)).report := rfl
    constructor
    · rw [split, Report.append_errors, List.length_append, errors, later, List.map_cons,
        repeatsBehind_cons, List.countP_cons, List.countP_cons, again]
      generalize front.contains w.key = c, isUnknown block.properties w = a,
        isIllegal block.properties w = b
      cases a <;> cases b <;> simp <;> omega
    · rw [split, Report.append_warnings, warnings, laterWarnings]
      rfl

/-- Every property is one of the table exactly if none is unknown or has an illegal value. -/
theorem countP_eq_zero_iff : ws.countP (isUnknown table) + ws.countP (isIllegal table) = 0 ↔
    ∀ w ∈ ws, ∃ allowed, table.lookup (String.ofList w.key) = some allowed ∧
      String.ofList w.value ∈ allowed := by
  rw [Nat.add_eq_zero_iff, List.countP_eq_zero, List.countP_eq_zero, ← forall₂_and]
  refine forall₂_congr fun w _ => ?_
  unfold isUnknown isIllegal
  cases table.lookup (String.ofList w.key) with
  | none => simp
  | some allowed => simp

end Entries

/-! ## Blocks with properties -/

section Written

variable {spec : BlockSpec} {registries : Registries} {name : List Char} {resource : ResourceId}
  {ws : List WrittenEntry}

/-- Highlighting values is no remark. -/
theorem highlightValues_remarks (list : List PropertyEntry) :
    (Reported.each highlightValue list).report.errors = [] ∧
      (Reported.each highlightValue list).report.warnings = [] := by
  have one : ∀ entry, (highlightValue entry).report.errors = [] ∧
      (highlightValue entry).report.warnings = [] := by
    intro entry
    unfold highlightValue
    split <;> exact ⟨rfl, rfl⟩
  rw [Reported.report_each]
  exact ⟨List.flatMap_eq_nil_iff.2 fun entry _ => (one entry).1,
    List.flatMap_eq_nil_iff.2 fun entry _ => (one entry).2⟩

/-- What the check of the entries says of a block, if there is one to check them against. -/
def checked (block : Option Known) (list : List PropertyEntry) : Report :=
  (block.elim (pure ()) fun block => checkEntries block [] list).report

/-- Of properties as they are written nothing is said but what the check of their entries says. -/
theorem readSuffix_written (block : Option Known) (ofWords : ∀ w ∈ ws, w.OfWords) (start : Nat) :
    let report := (readSuffix block ⟨'[' :: (join ws ++ [']']), start⟩).report
    report.errors = (checked block (entries (start + 1) ws)).errors ∧
      report.warnings = (checked block (entries (start + 1) ws)).warnings := by
  have comma : Nesting.isMark ',' = false := rfl
  have read : propertySpec.read ⟨'[' :: (join ws ++ [']']), start⟩ = _ :=
    PropertySpec.read_entries .square (fun w mem => (ofWords w mem).fits.toReadable)
      (fun w mem => (ofWords w mem).fits.closes.enclosed comma)
      (fun w mem => (ofWords w mem).fits.closes.whole comma) rfl
  have front : Slice.front? ⟨'[' :: (join ws ++ [']']), start⟩ = some '[' := rfl
  have noRest : ∀ stop, readTag ⟨[], stop⟩ = pure () := fun _ => rfl
  obtain ⟨errors, warnings⟩ := highlightValues_remarks (entries (start + 1) ws)
  unfold readSuffix checked
  rw [if_pos front, read, Reported.bind_mk]
  cases block with
  | none =>
    simp only [Reported.report_bind, Reported.report_pure, noRest, Report.append_empty,
      Option.elim]
    exact ⟨errors, warnings⟩
  | some block => simp [errors, warnings, noRest]

/-- Reads an id that is known to be one: its resource, and not a remark. -/
theorem read_named
    (named : (Resource.read spec.allowTag .resource (.ofLine name)).value = some resource) :
    Resource.IsId spec.allowTag name ∧ ∃ tokens,
      Resource.read spec.allowTag .resource (.ofLine name) = ⟨some resource, ⟨[], [], tokens⟩⟩ := by
  rcases Resource.read_decides spec.allowTag .resource (.ofLine name) with
    ⟨-, found, -, -, -, read⟩ | ⟨-, fault, read⟩
  · have silent := (Resource.read_errors_iff spec.allowTag .resource (.ofLine name)).1
    rw [read] at named silent
    obtain rfl := Option.some.inj named
    exact ⟨silent rfl, _, read⟩
  · rw [read] at named
    cases named

/-- The block that properties are checked against: none for a tag, and none if it has no
table. -/
def known? (registries : Registries) (resource : ResourceId) : Option Known :=
  if resource.isTag then none
  else (registries.block? resource.normalized).map (Known.mk resource.normalized)

/-- An id is warned of if it names a single block and that block has no table. -/
def isUntabled (registries : Registries) (resource : ResourceId) : Bool :=
  !resource.isTag && (registries.block? resource.normalized).isNone

theorem readId_named (registries : Registries)
    (named : (Resource.read spec.allowTag .resource (.ofLine name)).value = some resource) :
    let found := spec.readId registries (.ofLine name)
    found.value = known? registries resource ∧ found.report.errors = [] ∧
      found.report.warnings.length = (isUntabled registries resource).toNat := by
  obtain ⟨-, tokens, read⟩ := read_named named
  unfold readId known? isUntabled
  rw [read]
  dsimp only [Reported.bind_mk]
  cases resource.isTag with
  | true => exact ⟨rfl, rfl, rfl⟩
  | false => cases registries.block? resource.normalized <;> exact ⟨rfl, rfl, rfl⟩

/-- On a block with written properties the check of its entries is all that is said, but for the
warning if the block has no table. -/
theorem check_written (registries : Registries)
    (named : (Resource.read spec.allowTag .resource (.ofLine name)).value = some resource)
    (ofWords : ∀ w ∈ ws, w.OfWords) :
    ∃ start, let said := checked (known? registries resource) (entries start ws)
      let report := (spec.check registries (.ofLine (name ++ '[' :: (join ws ++ [']'])))).report
      report.errors.length = said.errors.length ∧
        report.warnings.length = (isUntabled registries resource).toNat + said.warnings.length := by
  obtain ⟨isId, -⟩ := read_named named
  have stops : Stops Item.isIdChar ('[' :: (join ws ++ [']'])) := by
    rintro _ ⟨⟩
    rfl
  obtain ⟨value, errors, warnings⟩ := readId_named registries named
  obtain ⟨errorsBehind, warningsBehind⟩ :=
    readSuffix_written (known? registries resource) ofWords (0 + byteLength name)
  have report : (spec.check registries (.ofLine (name ++ '[' :: (join ws ++ [']'])))).report =
      Report.labelled spec.label ((spec.readId registries (.ofLine name)).report ++
        (readSuffix (spec.readId registries (.ofLine name)).value
          ⟨'[' :: (join ws ++ [']']), 0 + byteLength name⟩).report) :=
    spec.check_report registries isId stops rfl
  refine ⟨0 + byteLength name + 1, ?_⟩
  dsimp only
  rw [report, value]
  constructor
  · show (List.map _ (_ ++ _)).length = _
    rw [List.length_map, errors, errorsBehind, List.nil_append]
  · show (List.map _ (_ ++ _)).length = _
    rw [List.length_map, List.length_append, warnings, warningsBehind]

/-- Against a table every property is checked. -/
theorem check_tabled {table : BlockProperties}
    (named : (Resource.read spec.allowTag .resource (.ofLine name)).value = some resource)
    (ofWords : ∀ w ∈ ws, w.OfWords) (noTag : resource.isTag = false)
    (tabled : registries.block? resource.normalized = some table) :
    let report := (spec.check registries (.ofLine (name ++ '[' :: (join ws ++ [']'])))).report
    report.errors.length = repeats (ws.map (·.key)) +
        (ws.countP (isUnknown table) + ws.countP (isIllegal table)) ∧
      report.warnings.length = 0 := by
  obtain ⟨start, errors, warnings⟩ := check_written registries named ofWords
  have known : known? registries resource = some ⟨resource.normalized, table⟩ := by
    simp [known?, noTag, tabled]
  have noRemark : isUntabled registries resource = false := by simp [isUntabled, tabled]
  have sameKeys : ∀ key : List Char, key ∈ [] ↔ key ∈ [] := fun _ => Iff.rfl
  obtain ⟨found, silent⟩ := checkEntries_counts ⟨resource.normalized, table⟩ sameKeys start ws
  rw [known] at errors warnings
  refine ⟨errors.trans found, warnings.trans ?_⟩
  rw [noRemark]
  exact congrArg (fun remarks => 0 + remarks.length) silent

/-- Without a table there is nothing to check. -/
theorem check_unknown
    (named : (Resource.read spec.allowTag .resource (.ofLine name)).value = some resource)
    (ofWords : ∀ w ∈ ws, w.OfWords) (unknown : known? registries resource = none) :
    let report := (spec.check registries (.ofLine (name ++ '[' :: (join ws ++ [']'])))).report
    report.errors.length = 0 ∧
      report.warnings.length = (isUntabled registries resource).toNat := by
  obtain ⟨start, errors, warnings⟩ := check_written registries named ofWords
  rw [unknown] at errors warnings
  exact ⟨errors, warnings⟩

end Written

/-! ## Blocks in a line -/

/-- Behind an id, properties of word characters are a part of the word. -/
theorem joins_written {allowTag : Bool} {name : List Char} {ws : List WrittenEntry}
    (isId : Resource.IsId allowTag name) (ofWords : ∀ w ∈ ws, w.OfWords) :
    Token.Joins [] (name ++ '[' :: (join ws ++ [']'])) [] := by
  refine (Token.joins_of_isId isId []).append (Token.joins_bracketed .square fun bracket => ?_)
  exact Token.joins_intercalate <| List.forall_mem_map.2 fun w mem =>
    Token.joins_of_unmarked (ofWords w mem).unmarked (List.cons_ne_nil _ _)

/-- The properties of a block are checked exactly. Let an id that is read as a resource be
followed by properties of word characters, with blanks around keys and values; this is a single
word. If the id names a single block that has a table, there is no warning, and there is an error
for every key that stands somewhere in front as well, one for every key that is not in the table,
and one for every value that is not listed for a key of the table. So there is none exactly if the
keys are distinct and every value is listed for its key. If the block has no table, there are no
errors and a single warning, and if the id names a tag, there is neither. -/
theorem properties_checked (spec : BlockSpec) (registries : Registries) {name : List Char}
    {resource : ResourceId} {ws : List WrittenEntry} {reader : TokenReader} {word : Slice}
    (named : (Resource.read spec.allowTag .resource (.ofLine name)).value = some resource)
    (ofWords : ∀ w ∈ ws, w.OfWords) (found : reader.currentWord? = some word)
    (text : word.text = name ++ '[' :: (join ws ++ [']'])) :
    let report := ((Argument.block spec).read registries reader).report
    Token.ofLine word.text = [⟨⟨word.text, 0⟩, false⟩] ∧
      (resource.isTag = false → ∀ table, registries.block? resource.normalized = some table →
        report.warnings = [] ∧
          report.errors.length = repeats (ws.map (·.key)) +
            (ws.countP (isUnknown table) + ws.countP (isIllegal table)) ∧
          (report.errors = [] ↔ (ws.map (·.key)).Nodup ∧
            ∀ w ∈ ws, ∃ allowed, table.lookup (String.ofList w.key) = some allowed ∧
              String.ofList w.value ∈ allowed)) ∧
      (resource.isTag = false → registries.block? resource.normalized = none →
        report.errors = [] ∧ report.warnings.length = 1) ∧
      (resource.isTag = true → report.errors = [] ∧ report.warnings = []) := by
  intro report
  obtain ⟨sameErrors, sameWarnings⟩ : report.errors.length = _ ∧ report.warnings.length = _ :=
    readWord_counts _ (fun k => spec.check_shifted k registries) found
  rw [text] at sameErrors sameWarnings
  refine ⟨?_, fun noTag table tabled => ?_, fun noTag untabled => ?_, fun isTag => ?_⟩
  · have joins := joins_written (read_named named).1 ofWords
    rw [← text] at joins
    exact (Token.ofLine_of_joins joins (by simp [text])).1
  · obtain ⟨errors, warnings⟩ := check_tabled named ofWords noTag tabled
    rw [← sameErrors] at errors
    rw [← sameWarnings] at warnings
    refine ⟨List.eq_nil_of_length_eq_zero warnings, errors, ?_⟩
    rw [← List.length_eq_zero_iff, errors, Nat.add_eq_zero_iff, repeats_eq_zero_iff,
      countP_eq_zero_iff]
  · have unknown : known? registries resource = none := by simp [known?, untabled]
    have remark : isUntabled registries resource = true := by simp [isUntabled, noTag, untabled]
    obtain ⟨errors, warnings⟩ := check_unknown named ofWords unknown
    rw [← sameErrors] at errors
    rw [← sameWarnings, remark] at warnings
    exact ⟨List.eq_nil_of_length_eq_zero errors, warnings⟩
  · have unknown : known? registries resource = none := by simp [known?, isTag]
    have noRemark : isUntabled registries resource = false := by simp [isUntabled, isTag]
    obtain ⟨errors, warnings⟩ := check_unknown named ofWords unknown
    rw [← sameErrors] at errors
    rw [← sameWarnings, noRemark] at warnings
    exact ⟨List.eq_nil_of_length_eq_zero errors, List.eq_nil_of_length_eq_zero warnings⟩

/-- Properties that are repeated, unknown or illegal, some of them more than one of these. -/
theorem properties_checked_barrel :
    let barrel : BlockProperties := [("facing", ["north", "south"]), ("open", ["true", "false"])]
    let report := ((Argument.block ⟨"BlockState", false⟩).read ⟨[("minecraft:barrel", barrel)], []⟩
      (.ofLine "barrel[ facing = south ,open=true,open=ajar,lid=on, lid=off]".toList)).report
    report.warnings = [] ∧ report.errors.length = 2 + (2 + 1) := by
  intro barrel report
  let ws : List WrittenEntry :=
    [⟨[' '], "facing".toList, [' '], [' '], "south".toList, [' ']⟩,
      ⟨[], "open".toList, [], [], "true".toList, []⟩, ⟨[], "open".toList, [], [], "ajar".toList, []⟩,
      ⟨[], "lid".toList, [], [], "on".toList, []⟩, ⟨[' '], "lid".toList, [], [], "off".toList, []⟩]
  have ofWords : ∀ w ∈ ws, w.OfWords := by decide
  have named : (Resource.read false .resource (.ofLine "barrel".toList)).value =
      some ⟨false, none, ⟨"barrel".toList, 0⟩⟩ := by decide
  obtain ⟨-, tabled, -⟩ := properties_checked ⟨"BlockState", false⟩
    ⟨[("minecraft:barrel", barrel)], []⟩ named ofWords
    (rfl : TokenReader.currentWord? (.ofLine
      "barrel[ facing = south ,open=true,open=ajar,lid=on, lid=off]".toList) = some ⟨_, 0⟩) rfl
  obtain ⟨warnings, errors, -⟩ := tabled rfl barrel rfl
  exact ⟨warnings, errors⟩

end Argument.BlockSpec

end CommandScript
