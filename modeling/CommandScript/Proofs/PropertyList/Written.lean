import CommandScript.Argument.Target
import CommandScript.Proofs.PropertyList
import CommandScript.Proofs.Text.Balanced

/-!
Property lists are read as they are written.

A pair is written down with blanks around its key and its value (`WrittenEntry`). If the key
is there, takes no equals sign and both sides are of the characters that the list asks for
(`WrittenEntry.Readable`), then reading the pair yields the key and the value where they stand
and nothing but their two tokens (`PropertySpec.readEntry_written`). Provided that the scans for
the closing bracket and for the commas pass over each part of a list, it is read part by part
(`PropertySpec.read_parts`), and a list of such pairs pair by pair (`PropertySpec.read_entries`).
They do if the keys are plain and every value closes what it opens (`PropertySpec.read_written`),
and, for a single pair, if its text is balanced and no comma in it counts
(`PropertySpec.read_single`).
-/

namespace CommandScript

/-! ## Pairs as they are written -/

/-- A key and a value with the blanks around each of them. -/
structure WrittenEntry where
  beforeKey : List Char
  key : List Char
  afterKey : List Char
  beforeValue : List Char
  value : List Char
  afterValue : List Char
deriving DecidableEq, Repr

namespace WrittenEntry

/-- The text of a pair. -/
def text (w : WrittenEntry) : List Char :=
  w.beforeKey ++ w.key ++ w.afterKey ++ '=' :: (w.beforeValue ++ w.value ++ w.afterValue)

/-- The pairs of a list, a comma between two of them. -/
def join (ws : List WrittenEntry) : List Char :=
  [','].intercalate (ws.map text)

section Places

variable (start : Nat) (w : WrittenEntry)

/-- Where the key stands if the pair begins at `start`. -/
def keyAt : Nat :=
  start + byteLength w.beforeKey

/-- Where the equals sign stands. -/
def equalsAt : Nat :=
  w.keyAt start + byteLength w.key + byteLength w.afterKey

/-- Where the value stands. An empty one has no place of its own among the blanks behind the
equals sign; it counts as standing in front of all of them. -/
def valueAt : Nat :=
  if w.value = [] then w.equalsAt start + 1
  else w.equalsAt start + 1 + byteLength w.beforeValue

/-- The key and the value, each at its place. -/
def entry : PropertyEntry :=
  ⟨⟨w.key, w.keyAt start⟩, ⟨w.value, w.valueAt start⟩⟩

/-- A token over the key and one over the equals sign. -/
def tokens (spec : PropertySpec) : List SemanticToken :=
  [⟨⟨w.keyAt start, w.keyAt start + byteLength w.key⟩, spec.keyKind⟩,
    ⟨⟨w.equalsAt start, w.equalsAt start + 1⟩, .operator⟩]

end Places

/-- The pairs of a list with the offsets at which they begin, the first at `start`. -/
def placed : Nat → List WrittenEntry → List (Nat × WrittenEntry)
  | _, [] => []
  | start, w :: ws => (start, w) :: placed (start + byteLength w.text + 1) ws

/-- The entries of a list whose first pair begins at `start`. -/
def entries (start : Nat) (ws : List WrittenEntry) : List PropertyEntry :=
  (placed start ws).map fun p => p.2.entry p.1

/-- The tokens of such a list, pair by pair. -/
def allTokens (spec : PropertySpec) (start : Nat) (ws : List WrittenEntry) :
    List SemanticToken :=
  (placed start ws).flatMap fun p => p.2.tokens p.1 spec

/-- What is written around key and value is blank, neither of them begins or ends with a
blank, both are of the characters of the list, and no equals sign stands in the key. A key is
always there, a value is unless it may be empty. -/
structure Readable (spec : PropertySpec) (w : WrittenEntry) : Prop where
  blanks : ∀ c ∈ w.beforeKey ++ w.afterKey ++ w.beforeValue ++ w.afterValue,
    Charset.isBlank c = true
  keyNonempty : w.key ≠ []
  keyTrimmed : Trimmed w.key
  keyValid : spec.keyValid w.key = true
  noEquals : '=' ∉ w.key
  valueNonempty : w.value = [] → spec.allowEmptyValue = true
  valueTrimmed : Trimmed w.value
  valueValid : spec.valueValid w.value = true

/-! ### Trimmed pairs -/

/-- What remains behind the equals sign when the pair is trimmed. -/
def behindEquals (w : WrittenEntry) : List Char :=
  if w.value = [] then [] else w.beforeValue ++ w.value

/-- The pair without the blanks around it. -/
def core (w : WrittenEntry) : List Char :=
  w.key ++ w.afterKey ++ '=' :: w.behindEquals

section Readable

variable {spec : PropertySpec} {w : WrittenEntry}

theorem Readable.noEquals_before (readable : w.Readable spec) : '=' ∉ w.key ++ w.afterKey := by
  intro mem
  rcases List.mem_append.1 mem with inKey | inBlanks
  · exact readable.noEquals inKey
  · have blank := readable.blanks '=' (by simp [inBlanks])
    exact absurd blank (by decide)

theorem Readable.core_trimmed (readable : w.Readable spec) : Trimmed w.core := by
  rw [core, behindEquals]
  split
  · have sign : Trimmed ['='] := ⟨by rintro _ ⟨⟩; rfl, by rintro _ ⟨⟩; rfl⟩
    have whole := readable.keyTrimmed.around sign readable.keyNonempty (by simp) w.afterKey
    simpa using whole
  · rename_i some
    have whole := readable.keyTrimmed.around readable.valueTrimmed readable.keyNonempty some
      (w.afterKey ++ '=' :: w.beforeValue)
    simpa using whole

/-- The blanks around a pair are trimmed off, those behind the equals sign too if no value
follows. -/
theorem Readable.trim (readable : w.Readable spec) (start : Nat) :
    Slice.trim ⟨w.text, start⟩ = ⟨w.core, w.keyAt start⟩ := by
  obtain ⟨after, split, blanks⟩ : ∃ after, w.text = w.beforeKey ++ w.core ++ after ∧
      ∀ c ∈ w.beforeKey ++ after, Charset.isBlank c = true := by
    have all := readable.blanks
    by_cases none : w.value = []
    · refine ⟨w.beforeValue ++ w.afterValue, by simp [text, core, behindEquals, none], ?_⟩
      grind
    · refine ⟨w.afterValue, by simp [text, core, behindEquals, none], ?_⟩
      grind
  have nonempty : w.core ≠ [] := by simp [core]
  rw [split]
  exact Slice.trim_of_surrounded start blanks readable.core_trimmed nonempty

theorem Readable.trim_key (readable : w.Readable spec) (start : Nat) :
    Slice.trim ⟨w.key ++ w.afterKey, start⟩ = ⟨w.key, start⟩ := by
  have blanks : ∀ c ∈ [] ++ w.afterKey, Charset.isBlank c = true :=
    fun c mem => readable.blanks c (by simp_all)
  exact Slice.trim_of_surrounded start blanks readable.keyTrimmed readable.keyNonempty

theorem Readable.trim_value (readable : w.Readable spec) (start : Nat) :
    Slice.trim ⟨w.behindEquals, w.equalsAt start + 1⟩ = ⟨w.value, w.valueAt start⟩ := by
  rw [behindEquals, valueAt]
  split
  · rename_i none
    rw [none]
    rfl
  · rename_i some
    have blanks : ∀ c ∈ w.beforeValue ++ [], Charset.isBlank c = true :=
      fun c mem => readable.blanks c (by simp_all)
    have whole := Slice.trim_of_surrounded (w.equalsAt start + 1) blanks readable.valueTrimmed some
    rwa [List.append_nil] at whole

/-- A readable pair is not blank. -/
theorem Readable.exists_noBlank (readable : w.Readable spec) :
    ∃ c ∈ w.text, Charset.isBlank c = false := by
  obtain ⟨c, rest, key⟩ := List.exists_cons_of_ne_nil readable.keyNonempty
  refine ⟨c, by simp [text, key], readable.keyTrimmed.first c ?_⟩
  rw [key]
  rfl

end Readable

end WrittenEntry

namespace PropertySpec

variable {spec : PropertySpec} {w : WrittenEntry} {ws : List WrittenEntry}

/-! ## Reading pairs -/

/-- A pair is read as it is written. -/
theorem readEntry_written (readable : w.Readable spec) (start : Nat) :
    spec.readEntry ⟨w.text, start⟩ = ⟨some (w.entry start), ⟨[], [], w.tokens start spec⟩⟩ := by
  have equals : w.keyAt start + byteLength (w.key ++ w.afterKey) = w.equalsAt start := by
    rw [byteLength_append, ← Nat.add_assoc]
    rfl
  have found : Slice.find? '=' ⟨w.core, w.keyAt start⟩ = some (byteLength (w.key ++ w.afterKey)) :=
    Slice.find?_of_not_mem rfl readable.noEquals_before
  obtain ⟨front, sign, back⟩ := @cuts_around_equals ⟨w.core, w.keyAt start⟩ _ _ rfl
  have hasKey : Slice.isEmpty ⟨w.key, w.keyAt start⟩ = false := by
    simp [Slice.isEmpty, readable.keyNonempty]
  have hasValue : (Slice.isEmpty ⟨w.value, w.valueAt start⟩ && !spec.allowEmptyValue) = false := by
    simpa [Slice.isEmpty] using readable.valueNonempty
  dsimp only at front sign back
  rw [equals] at sign back
  unfold readEntry
  rw [readable.trim]
  dsimp only
  rw [found]
  dsimp only
  rw [front, sign, back, readable.trim_key, readable.trim_value, hasKey, hasValue,
    readable.keyValid, readable.valueValid]
  rfl

/-- Pairs that are cut apart are read one after the other. -/
theorem readParts_written (readable : ∀ w ∈ ws, w.Readable spec) (inner : Slice)
    (before : Option Slice) (commas : List Slice) (start : Nat) :
    spec.readParts inner before (Slice.placeParts ',' start (ws.map (·.text))).parts commas =
      ⟨WrittenEntry.entries start ws, ⟨[], [], WrittenEntry.allTokens spec start ws⟩⟩ := by
  induction ws generalizing start before commas with
  | nil => rfl
  | cons w ws ih =>
    obtain ⟨first, others⟩ := List.forall_mem_cons.1 readable
    obtain ⟨c, mem, noBlank⟩ := first.exists_noBlank
    have nonempty : Slice.isEmpty (Slice.trim ⟨w.text, start⟩) = false :=
      Slice.trim_isEmpty_eq_false mem noBlank
    have later := ih others commas.head? commas.tail (start + byteLength w.text + ','.utf8Size)
    rw [List.map_cons, Slice.placeParts_parts_cons, readParts, nonempty, readEntry_written first,
      if_neg Bool.false_ne_true, later]
    show Reported.mk _ (Report.mk _ _ (_ ++ (_ ++ []))) = _
    rw [List.append_nil]
    rfl

/-! ## Reading lists -/

/-- The brackets around an enclosed text are those of the list. -/
theorem bracketed?_of_enclosed {s : Slice} {inner rest : List Char}
    (pair : BracketPair spec.opener spec.closer) (enclosed : Nesting.Enclosed inner)
    (text : s.text = spec.opener :: (inner ++ spec.closer :: rest)) :
    spec.bracketed? s =
      some (⟨inner, s.start + 1⟩, ⟨rest, s.start + byteLength inner + 2⟩) := by
  have openerSize : spec.opener.utf8Size = 1 := pair.opener_size
  have closerSize : spec.closer.utf8Size = 1 := pair.closer_size
  have found : s.findClosing? = some (byteLength (spec.opener :: inner)) := by
    rw [Slice.findClosing?, text, Nesting.beforeClosing?_of_enclosed pair enclosed]
    rfl
  have front : s.front? = some spec.opener := by rw [Slice.front?, text, List.head?_cons]
  have behind : dropBytes (byteLength (spec.opener :: inner)) s.text = spec.closer :: rest := by
    rw [text]
    exact dropBytes_byteLength_append (spec.opener :: inner) _
  have inside : dropBytes spec.opener.utf8Size s.text = inner ++ spec.closer :: rest := by
    rw [text]
    exact dropBytes_byteLength_append [spec.opener] _
  have after : dropBytes (byteLength (spec.opener :: inner) + spec.closer.utf8Size) s.text =
      rest := by
    have whole := dropBytes_byteLength_append (spec.opener :: (inner ++ [spec.closer])) rest
    simpa [text, Nat.add_assoc] using whole
  have width : byteLength (spec.opener :: inner) - spec.opener.utf8Size = byteLength inner := by
    simp
  have back : (s.dropBytes (byteLength (spec.opener :: inner))).front? = some spec.closer :=
    congrArg List.head? behind
  have restAt : s.start + (byteLength (spec.opener :: inner) + spec.closer.utf8Size) =
      s.start + byteLength inner + 2 := by
    rw [byteLength_cons, openerSize, closerSize]
    omega
  unfold bracketed?
  rw [found]
  dsimp only
  rw [front, back, if_pos (by simp), Slice.extract, width]
  simp only [Slice.takeBytes, Slice.dropBytes, inside, after, takeBytes_byteLength_append, restAt]
  rw [openerSize]

/-- The text of a part is passed over by the scans for the end of a list and for its commas, and
is not blank. -/
structure Separable (part : List Char) : Prop where
  enclosed : Nesting.Enclosed part
  whole : Nesting.Whole ',' part
  filled : ∃ c ∈ part, Charset.isBlank c = false

/-- A list of parts that can be told apart is read part by part. -/
theorem read_parts {s : Slice} {texts : List (List Char)} {rest : List Char}
    (pair : BracketPair spec.opener spec.closer) (nonempty : texts ≠ [])
    (separable : ∀ part ∈ texts, Separable part)
    (text : s.text = spec.opener :: ([','].intercalate texts ++ spec.closer :: rest)) :
    let inner : Slice := ⟨[','].intercalate texts, s.start + 1⟩
    let split := Slice.placeParts ',' (s.start + 1) texts
    spec.read s = do
      let entries ← spec.readParts inner none split.parts split.separators
      return some ⟨entries, ⟨rest, s.start + byteLength inner.text + 2⟩⟩ := by
  intro inner split
  have comma : Nesting.isMark ',' = false := rfl
  have brackets := bracketed?_of_enclosed pair
    (Nesting.enclosed_intercalate comma fun part mem => (separable part mem).enclosed) text
  have filled : inner.trim.isEmpty = false := by
    obtain ⟨first, others, rfl⟩ := List.exists_cons_of_ne_nil nonempty
    obtain ⟨c, mem, noBlank⟩ := (separable first (List.mem_cons_self ..)).filled
    obtain ⟨more, joined⟩ := exists_intercalate_cons [','] first others
    have inside : c ∈ [','].intercalate (first :: others) := by
      rw [joined]
      exact List.mem_append_left more mem
    exact Slice.trim_isEmpty_eq_false inside noBlank
  have parts : Nesting.outside.topLevelParts ',' ([','].intercalate texts) = texts :=
    Nesting.topLevelParts_intercalate comma nonempty fun part mem => (separable part mem).whole
  rw [read, brackets]
  dsimp only
  rw [filled, if_neg Bool.false_ne_true, Slice.splitTopLevel, parts]

/-- A list whose pairs the scans for its end and for its commas pass over is read pair by
pair. -/
theorem read_entries {s : Slice} {rest : List Char} (pair : BracketPair spec.opener spec.closer)
    (readable : ∀ w ∈ ws, w.Readable spec) (enclosed : ∀ w ∈ ws, Nesting.Enclosed w.text)
    (whole : ∀ w ∈ ws, Nesting.Whole ',' w.text)
    (text : s.text = spec.opener :: (WrittenEntry.join ws ++ spec.closer :: rest)) :
    spec.read s =
      ⟨some ⟨WrittenEntry.entries (s.start + 1) ws,
          ⟨rest, s.start + byteLength (WrittenEntry.join ws) + 2⟩⟩,
        ⟨[], [], WrittenEntry.allTokens spec (s.start + 1) ws⟩⟩ := by
  cases ws with
  | nil =>
    rw [read, bracketed?_of_enclosed pair .nil text]
    rfl
  | cons w ws =>
    have separable : ∀ part ∈ (w :: ws).map (·.text), Separable part :=
      List.forall_mem_map.2 fun w mem =>
        ⟨enclosed w mem, whole w mem, (readable w mem).exists_noBlank⟩
    rw [read_parts pair (by simp) separable text, readParts_written readable]
    show Reported.mk _ (Report.mk _ _ (_ ++ [])) = _
    rw [List.append_nil]
    rfl

/-! ## Lists of a single pair -/

section Single

variable {key value rest : List Char}

/-- A key and a value that may be written down as an entry: neither is empty or has a blank
at an end, and no equals sign stands in the key. -/
structure Writes (spec : PropertySpec) (key value : List Char) : Prop where
  keyNonempty : key ≠ []
  keyTrimmed : Trimmed key
  noEquals : '=' ∉ key
  keyValid : spec.keyValid key = true
  valueNonempty : value ≠ []
  valueTrimmed : Trimmed value
  valueValid : spec.valueValid value = true

theorem Writes.readable (writes : spec.Writes key value) :
    WrittenEntry.Readable spec ⟨[], key, [], [], value, []⟩ where
  blanks := nofun
  keyNonempty := writes.keyNonempty
  keyTrimmed := writes.keyTrimmed
  keyValid := writes.keyValid
  noEquals := writes.noEquals
  valueNonempty none := absurd none writes.valueNonempty
  valueTrimmed := writes.valueTrimmed
  valueValid := writes.valueValid

/-- A list of a single entry, in which no comma counts, is that entry. -/
theorem read_single {s : Slice} (writes : spec.Writes key value)
    (pair : BracketPair spec.opener spec.closer) (balanced : Balanced (key ++ '=' :: value))
    (whole : Nesting.Whole ',' (key ++ '=' :: value))
    (text : s.text = spec.opener :: (key ++ '=' :: value ++ spec.closer :: rest)) :
    ∃ keyAt valueAt restAt report,
      spec.read s = ⟨some ⟨[⟨⟨key, keyAt⟩, ⟨value, valueAt⟩⟩], ⟨rest, restAt⟩⟩, report⟩ ∧
        report.errors = [] := by
  let w : WrittenEntry := ⟨[], key, [], [], value, []⟩
  have written : w.text = key ++ '=' :: value := by simp [w, WrittenEntry.text]
  have join : WrittenEntry.join [w] = key ++ '=' :: value := by simp [WrittenEntry.join, written]
  have readable : ∀ v ∈ [w], v.Readable spec := List.forall_mem_singleton.2 writes.readable
  have enclosed : ∀ v ∈ [w], Nesting.Enclosed v.text :=
    List.forall_mem_singleton.2 (written ▸ Nesting.enclosed_of_balanced balanced)
  have oneWhole : ∀ v ∈ [w], Nesting.Whole ',' v.text :=
    List.forall_mem_singleton.2 (written ▸ whole)
  rw [← join] at text
  exact ⟨_, _, _, _, read_entries pair readable enclosed oneWhole text, rfl⟩

end Single

end PropertySpec

/-! ## Plain keys and closed values -/

/-- A readable pair whose key has neither marks nor commas and whose value closes what it
opens and keeps its commas inside brackets or quotes. -/
structure WrittenEntry.Fits (spec : PropertySpec) (w : WrittenEntry) : Prop
    extends w.Readable spec where
  keyPlain : ∀ c ∈ w.key, Nesting.isMark c = false ∧ c ≠ ','
  valueCloses : Nesting.Closes ',' 0 w.value

theorem WrittenEntry.Fits.closes {spec : PropertySpec} {w : WrittenEntry} (fits : w.Fits spec) :
    Nesting.Closes ',' 0 w.text := by
  have blank : ∀ c, Charset.isBlank c = true → Nesting.isMark c = false ∧ c ≠ ',' := by
    intro c isBlank
    refine ⟨Nesting.isMark_of_isBlank isBlank, ?_⟩
    rintro rfl
    exact absurd isBlank (by decide)
  have front : ∀ c ∈ w.beforeKey ++ w.key ++ w.afterKey ++ ['='] ++ w.beforeValue,
      Nesting.isMark c = false ∧ c ≠ ',' := by
    have blanks := fits.blanks
    have key := fits.keyPlain
    have sign : Nesting.isMark '=' = false ∧ '=' ≠ ',' := by decide
    grind
  have back : ∀ c ∈ w.afterValue, Nesting.isMark c = false ∧ c ≠ ',' :=
    fun c mem => blank c (fits.blanks c (by simp [mem]))
  have whole := ((Nesting.closes_of_plain front).append fits.valueCloses).append
    (Nesting.closes_of_plain back)
  simpa [text] using whole

namespace PropertySpec

open WrittenEntry (join entries allTokens)

/-- A list of fitting pairs, whatever follows it, is read as exactly these pairs, in order and
each where it stands, without an error and with a token for every key and equals sign. -/
theorem read_written {spec : PropertySpec} {ws : List WrittenEntry}
    (pair : BracketPair spec.opener spec.closer) (fits : ∀ w ∈ ws, w.Fits spec)
    (rest : List Char) (start : Nat) :
    let s : Slice := ⟨spec.opener :: (join ws ++ spec.closer :: rest), start⟩
    spec.read s = ⟨some ⟨entries (start + 1) ws, ⟨rest, start + byteLength (join ws) + 2⟩⟩,
        ⟨[], [], allTokens spec (start + 1) ws⟩⟩ ∧
      ∀ e ∈ entries (start + 1) ws, e.key.Within s ∧ e.value.Within s := by
  intro s
  have noMark : Nesting.isMark ',' = false := rfl
  have read : spec.read s = _ := read_entries pair (fun w mem => (fits w mem).toReadable)
    (fun w mem => (fits w mem).closes.enclosed noMark)
    (fun w mem => (fits w mem).closes.whole noMark) rfl
  refine ⟨read, fun e mem => ?_⟩
  have within := read_reads spec pair.isOpener s
  rw [read] at within
  cases within with
  | accepted _ _ between => exact ⟨between.keys e mem, between.values e mem⟩

theorem read_written_predicates :
    Argument.Target.predicateSpec.read ⟨"[ nbt = \x7ba=\"]\\\"\",b\x7d ,tag= ]x".toList, 7⟩ =
      ⟨some ⟨[⟨⟨"nbt".toList, 9⟩, ⟨"\x7ba=\"]\\\"\",b\x7d".toList, 15⟩⟩,
          ⟨⟨"tag".toList, 28⟩, ⟨[], 32⟩⟩], ⟨['x'], 34⟩⟩,
        ⟨[], [], [⟨⟨9, 12⟩, .property⟩, ⟨⟨13, 14⟩, .operator⟩, ⟨⟨28, 31⟩, .property⟩,
          ⟨⟨31, 32⟩, .operator⟩]⟩⟩ := by
  have blank : ∀ c ∈ List.replicate 4 ' ', Charset.isBlank c = true := by
    intro c mem
    rw [List.eq_of_mem_replicate mem]
    rfl
  have plain : ("nbttag".toList.all fun c => !Nesting.isMark c && c != ',') = true := by decide
  have keyPlain : ∀ c ∈ "nbttag".toList, Nesting.isMark c = false ∧ c ≠ ',' := fun c mem => by
    simpa using List.all_eq_true.1 plain c mem
  have nbt : WrittenEntry.Fits Argument.Target.predicateSpec
      ⟨[' '], "nbt".toList, [' '], [' '], "\x7ba=\"]\\\"\",b\x7d".toList, [' ']⟩ := by
    refine ⟨⟨blank, by decide, ?_, by decide, by decide, nofun, ?_, rfl⟩,
      fun c mem => keyPlain c (List.mem_append_left "tag".toList mem), ?_⟩
    · exact ⟨by rintro _ ⟨⟩; decide, by rintro _ ⟨⟩; decide⟩
    · exact ⟨by rintro _ ⟨⟩; decide, by rintro _ ⟨⟩; decide⟩
    · have quoted : QuotedBody '"' [']', '\\', '"'] :=
        .plain (by decide) (by decide) (.escaped .nil)
      have inside : Nesting.Closes ',' 1 [',', 'b', '\x7d'] :=
        .plain rfl nofun (.plain rfl nofun (.closer rfl .nil))
      exact .opener rfl (.plain rfl nofun (.plain rfl nofun (.quoted rfl quoted inside)))
  have tag : WrittenEntry.Fits Argument.Target.predicateSpec
      ⟨[], "tag".toList, [], [' '], [], []⟩ := by
    refine ⟨⟨fun c mem => blank c (List.mem_append_left [' ', ' ', ' '] mem), by decide, ?_,
      by decide, by decide, fun _ => rfl, ?_, rfl⟩,
      fun c mem => keyPlain c (List.mem_append_right "nbt".toList mem), .nil⟩
    · exact ⟨by rintro _ ⟨⟩; decide, by rintro _ ⟨⟩; decide⟩
    · exact ⟨nofun, nofun⟩
  have fits := List.forall_mem_cons.2 ⟨nbt, List.forall_mem_singleton.2 tag⟩
  exact (read_written .square fits ['x'] 7).1

end PropertySpec

end CommandScript
