import CommandScript.Proofs.Combinator.Nested
import CommandScript.Proofs.Resource.Normalized

/-!
The splitter of ids agrees with their validation.

The splitter takes the longest beginning of a text that looks like an id
(`Resource.LongestLook`): path characters, or path characters on either side of a colon. Where
it stops is told by the character that follows, so it takes exactly the text of an id whenever
neither a path character nor a second part follows (`Resource.splitter_isBody`). What looks like
an id is one unless a part is missing or the first part, being the namespace, contains a slash.
-/

namespace CommandScript

namespace Combinator

variable {input : Slice} {taken rest : List Char}

/-- What was read is what stands in front of the rest. -/
theorem consumed_eq (text : input.text = taken ++ rest) (start : Nat) :
    consumed input ⟨rest, start⟩ = ⟨taken, input.start⟩ := by
  have length : input.length - Slice.length ⟨rest, start⟩ = byteLength taken :=
    length_in_front text
  rw [consumed, length, Slice.takeBytes, text, takeBytes_byteLength_append]

/-- Characters are stored up to the first that does not satisfy the condition. -/
theorem stored_takeWhile_eq {q : Char → Bool} (text : input.text = taken ++ rest)
    (all : ∀ c ∈ taken, q c = true) (stops : Stops q rest) (name : String) (held : Captures) :
    stored true name (takeWhile q) input held =
      ⟨⟨⟨rest, input.start + byteLength taken⟩, true, held.insert name ⟨taken, input.start⟩⟩,
        ∅⟩ := by
  have left : takeWhile q input held =
      ⟨⟨⟨rest, input.start + byteLength taken⟩, true, held⟩, ∅⟩ := by
    rw [takeWhile, Slice.splitWhile_eq all stops text]
    rfl
  rw [stored, observing_eq, left]
  dsimp only
  rw [consumed_eq text]
  rfl

end Combinator

namespace Resource

open Combinator

/-! ## What looks like an id -/

/-- Path characters, or path characters on either side of a colon. Every part may be empty. -/
inductive LooksLikeId : List Char → Prop where
  | bare {path : List Char} (isPath : ∀ c ∈ path, Charset.isPath c = true) : LooksLikeId path
  | divided {space path : List Char} (isSpace : ∀ c ∈ space, Charset.isPath c = true)
    (isPath : ∀ c ∈ path, Charset.isPath c = true) : LooksLikeId (space ++ ':' :: path)

/-- The text is the longest beginning of another one that looks like an id. -/
structure LongestLook (taken text : List Char) : Prop where
  begins : taken <+: text
  looks : LooksLikeId taken
  longest : ∀ other, LooksLikeId other → other <+: text → other.length ≤ taken.length

section Texts

variable {space path rest : List Char}

theorem stops_colon (text : List Char) : Stops Charset.isPath (':' :: text) :=
  stops_cons (by decide) text

theorem longestLook_bare (isPath : ∀ c ∈ path, Charset.isPath c = true)
    (stops : Stops Charset.isPath rest) (noColon : rest.head? ≠ some ':') :
    LongestLook path (path ++ rest) := by
  refine ⟨List.prefix_append .., .bare isPath, fun other looks begins => ?_⟩
  obtain ⟨after, same⟩ := begins
  cases looks with
  | bare all => exact length_le_of_stops all stops same
  | divided all _ =>
    -- Its colon would stand right behind the path.
    rw [List.append_assoc] at same
    obtain ⟨-, rfl⟩ := stops_unique isPath stops all (stops_colon _) same.symm
    exact absurd rfl noColon

theorem longestLook_divided (isSpace : ∀ c ∈ space, Charset.isPath c = true)
    (isPath : ∀ c ∈ path, Charset.isPath c = true) (stops : Stops Charset.isPath rest) :
    LongestLook (space ++ ':' :: path) (space ++ ':' :: (path ++ rest)) := by
  refine ⟨⟨rest, by simp⟩, .divided isSpace isPath, fun other looks begins => ?_⟩
  obtain ⟨after, same⟩ := begins
  cases looks with
  | bare all =>
    have short := length_le_of_stops all (stops_colon _) same
    rw [List.length_append]
    exact Nat.le_add_right_of_le short
  | divided all allToo =>
    rw [List.append_assoc] at same
    obtain ⟨rfl, tails⟩ := stops_unique all (stops_colon _) isSpace (stops_colon _) same
    have short := length_le_of_stops allToo stops (List.cons.inj tails).2
    simpa using short

/-! ## What the splitter takes -/

variable {input : Slice}

/-- Without a colon behind them, path characters are taken and stored as a whole. -/
theorem splitter_bare (text : input.text = path ++ rest)
    (isPath : ∀ c ∈ path, Charset.isPath c = true) (stops : Stops Charset.isPath rest)
    (noColon : rest.head? ≠ some ':') (held : Captures) :
    splitter input held =
      ⟨⟨⟨rest, input.start + byteLength path⟩, true,
        held.insert spaceOrPathKey ⟨path, input.start⟩⟩, ∅⟩ := by
  rw [splitter, chain, stored_takeWhile_eq text isPath stops]
  simp [chain, onlyIf, noColon, Reported.bind_mk]

/-- The parts on either side of a colon are taken, the second one up to where it stops, and
stored each on its own. -/
theorem splitter_divided (text : input.text = space ++ ':' :: (path ++ rest))
    (isSpace : ∀ c ∈ space, Charset.isPath c = true)
    (isPath : ∀ c ∈ path, Charset.isPath c = true) (stops : Stops Charset.isPath rest)
    (held : Captures) :
    splitter input held =
      ⟨⟨⟨rest, input.start + byteLength (space ++ ':' :: path)⟩, true,
        (held.insert spaceOrPathKey ⟨space, input.start⟩).insert pathKey
          ⟨path, input.start + byteLength space + 1⟩⟩, ∅⟩ := by
  have behind : Slice.dropPrefix? [':']
      ⟨':' :: (path ++ rest), input.start + byteLength space⟩ =
        some ⟨path ++ rest, input.start + byteLength space + 1⟩ := rfl
  have second : stored true pathKey (takeWhile Charset.isPath)
      ⟨path ++ rest, input.start + byteLength space + 1⟩
      (held.insert spaceOrPathKey ⟨space, input.start⟩) = _ :=
    stored_takeWhile_eq rfl isPath stops _ _
  have ends : input.start + byteLength (space ++ ':' :: path) =
      input.start + byteLength space + 1 + byteLength path := by
    rw [byteLength_append, Nat.add_assoc, Nat.add_assoc]
    rfl
  rw [splitter, chain, stored_takeWhile_eq text isSpace (stops_colon _), ends]
  simp [chain, onlyIf, after, behind, second, Reported.bind_mk]

/-- In front of a text that goes on with neither a path character nor, behind an id without a
namespace, a colon, the splitter takes exactly the id. -/
theorem splitter_isBody {text : List Char} (isBody : IsBody text)
    (front : input.text = text ++ rest) (stops : Stops Charset.isPath rest)
    (noSecond : ':' ∉ text → rest.head? ≠ some ':') (held : Captures) :
    ∃ after, splitter input held =
      ⟨⟨⟨rest, input.start + byteLength text⟩, true, after⟩, ∅⟩ := by
  cases isBody with
  | path _ isPath =>
    exact ⟨_, splitter_bare front isPath stops (noSecond (colon_not_mem isPath)) held⟩
  | spaced _ isNamespace _ isPath =>
    rw [List.append_assoc] at front
    have isSpace := fun c mem => isPath_of_isNamespace (isNamespace c mem)
    exact ⟨_, splitter_divided front isSpace isPath stops held⟩

/-! ## Which of it is an id -/

theorem isBody_bare_iff (isPath : ∀ c ∈ path, Charset.isPath c = true) :
    IsBody path ↔ path ≠ [] :=
  ⟨IsBody.ne_nil, fun nonempty => .path nonempty isPath⟩

/-- The characters of a namespace are those of a path without the slash. -/
theorem isNamespace_iff {c : Char} : Charset.isNamespace c = true ↔
    Charset.isPath c = true ∧ c ≠ '/' := by
  constructor
  · intro isNamespace
    refine ⟨isPath_of_isNamespace isNamespace, ?_⟩
    rintro rfl
    exact absurd isNamespace (by decide)
  · rintro ⟨isPath, noSlash⟩
    simpa [Charset.isPath, noSlash] using isPath

theorem isBody_divided_iff (isSpace : ∀ c ∈ space, Charset.isPath c = true)
    (isPath : ∀ c ∈ path, Charset.isPath c = true) :
    IsBody (space ++ ':' :: path) ↔ space ≠ [] ∧ path ≠ [] ∧ '/' ∉ space := by
  constructor
  · intro isBody
    generalize whole : space ++ ':' :: path = text at isBody
    cases isBody with
    | path _ all =>
      have colon : ':' ∈ text := whole ▸ List.mem_append_right _ (List.mem_cons_self ..)
      exact absurd colon (colon_not_mem all)
    | spaced spaceNonempty isNamespace nonempty _ =>
      have noColon := colon_not_mem fun c mem => isPath_of_isNamespace (isNamespace c mem)
      obtain ⟨rfl, rfl⟩ := append_separator_inj (colon_not_mem isSpace) noColon whole
      exact ⟨spaceNonempty, nonempty, fun slash => absurd (isNamespace '/' slash) (by decide)⟩
  · rintro ⟨spaceNonempty, nonempty, noSlash⟩
    refine .spaced spaceNonempty (fun c mem => isNamespace_iff.2 ⟨isSpace c mem, ?_⟩) nonempty
      isPath
    rintro rfl
    exact noSlash mem

end Texts

/-- The slice is read as an id without the mark of a tag: its parts are yielded and no error is
reported. -/
def Accepts (kind : Highlight) (s : Slice) : Prop :=
  (read false kind s).value.isSome = true ∧ (read false kind s).report.errors = []

theorem accepts_iff {kind : Highlight} {s : Slice} : Accepts kind s ↔ IsBody s.text := by
  unfold Accepts
  rcases read_decides false kind s with ⟨isBody, id, -, -, -, eq⟩ | ⟨noBody, fault, eq⟩
  · rw [eq]
    exact iff_of_true ⟨rfl, rfl⟩ isBody
  · rw [eq]
    exact iff_of_false (fun accepted => Bool.false_ne_true accepted.1) noBody

/-! ## Agreement -/

/-- The parts of what the splitter took are stored, and tell whether it is accepted as an id. -/
inductive Parted (kind : Highlight) (taken : Slice) (held after : Captures) : Prop where
  | bare (noColon : ':' ∉ taken.text) (accepted : Accepts kind taken ↔ taken.text ≠ [])
    (stored : ∀ name, after.get? name =
      if name = spaceOrPathKey then some taken else held.get? name)
  | divided (space path : Slice) (text : taken.text = space.text ++ ':' :: path.text)
    (starts : space.start = taken.start) (stops : path.stop = taken.stop)
    (accepted : Accepts kind taken ↔ space.text ≠ [] ∧ path.text ≠ [] ∧ '/' ∉ space.text)
    (stored : ∀ name, after.get? name =
      if name = pathKey then some path
      else if name = spaceOrPathKey then some space else held.get? name)

/-- The splitter goes on without a remark and takes the longest beginning of its input that looks
like an id. -/
structure SplitsOff (kind : Highlight) (input : Slice) (held : Captures)
    (outcome : Reported Leftover) : Prop where
  silent : outcome.report = ∅
  goesOn : outcome.value.goOn = true
  divides : Divides (consumed input outcome.value.rest) outcome.value.rest input
  longest : LongestLook (consumed input outcome.value.rest).text input.text
  parted : Parted kind (consumed input outcome.value.rest) held outcome.value.captures

theorem splitter_splitsOff (kind : Highlight) (input : Slice) (held : Captures) :
    SplitsOff kind input held (splitter input held) := by
  have divides := consumed_divides (splitter_splits input held).2
  obtain ⟨first, behind, text, isFirst, stops⟩ := exists_stops Charset.isPath input.text
  by_cases colon : behind.head? = some ':'
  · obtain ⟨behind, rfl⟩ := List.head?_eq_some_iff.1 colon
    obtain ⟨path, rest, rfl, isPath, stops⟩ := exists_stops Charset.isPath behind
    have front : input.text = (first ++ ':' :: path) ++ rest := by
      rw [text, List.append_assoc, List.cons_append]
    have longest := longestLook_divided isFirst isPath stops
    rw [splitter_divided text isFirst isPath stops held] at divides ⊢
    refine ⟨rfl, rfl, divides, ?_, ?_⟩
    · rw [consumed_eq front, text]
      exact longest
    · rw [consumed_eq front]
      refine .divided ⟨first, input.start⟩ ⟨path, input.start + byteLength first + 1⟩ rfl rfl ?_ ?_
        fun name => ?_
      · rw [Slice.stop_eq, Slice.stop_eq, byteLength_append, Nat.add_assoc, Nat.add_assoc]
        rfl
      · exact accepts_iff.trans (isBody_divided_iff isFirst isPath)
      · rw [Captures.get?_insert, Captures.get?_insert]
  · have longest := longestLook_bare isFirst stops colon
    rw [splitter_bare text isFirst stops colon held] at divides ⊢
    refine ⟨rfl, rfl, divides, ?_, ?_⟩
    · rw [consumed_eq text, text]
      exact longest
    · rw [consumed_eq text]
      exact .bare (colon_not_mem isFirst) (accepts_iff.trans (isBody_bare_iff isFirst))
        fun name => Captures.get?_insert ..

/-- The splitter of ids agrees with their validation. What it takes of any text, the longest
beginning that looks like an id, is accepted unless it is empty or, with a colon in it, a part is
empty or the first one contains a slash; the parts are stored. Conversely, in front of a text that
goes on with neither a path character nor, behind an id without a colon, a colon, it takes exactly
the text of an accepted id. -/
theorem splitter_agrees (kind : Highlight) (held : Captures) :
    (∀ input : Slice, SplitsOff kind input held (splitter input held)) ∧
    ∀ (id : Slice) (rest : List Char), Accepts kind id → Stops Charset.isPath rest →
      (':' ∉ id.text → rest.head? ≠ some ':') →
        let input : Slice := ⟨id.text ++ rest, id.start⟩
        (splitter input held).value.rest = ⟨rest, id.stop⟩ ∧
          consumed input (splitter input held).value.rest = id := by
  refine ⟨fun input => splitter_splitsOff kind input held, ?_⟩
  intro id rest accepted stops noSecond input
  have front : input.text = id.text ++ rest := rfl
  obtain ⟨after, eq⟩ := splitter_isBody (accepts_iff.1 accepted) front stops noSecond held
  rw [eq]
  exact ⟨rfl, consumed_eq rfl _⟩

/-- An id with a namespace in front of an equals sign. -/
theorem splitter_agrees_root :
    let id : Slice := ⟨"minecraft:story/root".toList, 4⟩
    let rest := "=\x7b".toList
    let input : Slice := ⟨id.text ++ rest, id.start⟩
    Accepts .resource id ∧ Stops Charset.isPath rest ∧ (':' ∉ id.text → rest.head? ≠ some ':') ∧
      (splitter input .empty).value.rest = ⟨rest, id.stop⟩ ∧
        consumed input (splitter input .empty).value.rest = id := by
  intro id rest input
  have accepted : Accepts .resource id := ⟨by decide, by decide⟩
  have stops : Stops Charset.isPath rest := stops_cons (by decide) _
  have noSecond : ':' ∉ id.text → rest.head? ≠ some ':' := by decide
  exact ⟨accepted, stops, noSecond,
    (splitter_agrees .resource .empty).2 id rest accepted stops noSecond⟩

end Resource

end CommandScript
