import CommandScript.Proofs.Resource

/-!
Ids are read exactly, and their normal forms tell them apart.

Reading an id comes to one of two things: its parts and a token over each piece of it, or a
single error (`Resource.ReadsBody`). The parts that are yielded are of the right characters
(`ResourceId.Valid`) and make up the text that was read (`ResourceId.written`). Neither a
namespace nor a path contains a colon, so a normal form is divided in one way only: ids with
the same normal form have the same namespace and the same path, and a normal form is read as
an id that has it.
-/

namespace CommandScript

namespace ResourceId

/-- The text of an id behind the mark of a tag. -/
def written (id : ResourceId) : List Char :=
  match id.space with
  | some space => space.text ++ ':' :: id.path.text
  | none => id.path.text

/-- Neither the path nor a namespace that is written is empty, and both are of their
characters. -/
structure Valid (id : ResourceId) : Prop where
  space : ∀ d ∈ id.space, d.text ≠ [] ∧ ∀ c ∈ d.text, Charset.isNamespace c = true
  pathNonempty : id.path.text ≠ []
  path : ∀ c ∈ id.path.text, Charset.isPath c = true

theorem normalized_toList (id : ResourceId) :
    id.normalized.toList = id.spaceName.toList ++ ':' :: id.path.text := by
  simp [normalized, Slice.toString]

section Valid

variable {id other : ResourceId}

/-- The namespace, written or not, is there and of its characters. -/
theorem Valid.spaceName (valid : id.Valid) :
    id.spaceName.toList ≠ [] ∧ ∀ c ∈ id.spaceName.toList, Charset.isNamespace c = true := by
  rcases id with ⟨isTag, space, path⟩
  cases space with
  | none =>
    show ResourceId.defaultSpace.toList ≠ [] ∧ ∀ c ∈ ResourceId.defaultSpace.toList, _
    exact ⟨by decide, List.all_eq_true.1 (by decide)⟩
  | some space =>
    have text : (ResourceId.spaceName ⟨isTag, some space, path⟩).toList = space.text :=
      String.toList_ofList
    rw [text]
    exact valid.space space rfl

theorem Valid.colon_not_mem_spaceName (valid : id.Valid) : ':' ∉ id.spaceName.toList :=
  Resource.colon_not_mem fun c mem => Resource.isPath_of_isNamespace (valid.spaceName.2 c mem)

theorem Valid.isBody_normalized (valid : id.Valid) : Resource.IsBody id.normalized.toList := by
  obtain ⟨nonempty, isNamespace⟩ := valid.spaceName
  rw [normalized_toList]
  exact .spaced nonempty isNamespace valid.pathNonempty valid.path

/-- An id that is written with a colon is its own normal form. -/
theorem Valid.normalized_of_colon (valid : id.Valid) (colon : ':' ∈ id.written) :
    id.normalized.toList = id.written := by
  rcases id with ⟨isTag, space, path⟩
  cases space with
  | none => exact absurd colon (Resource.colon_not_mem valid.path)
  | some space =>
    rw [normalized_toList]
    exact congrArg (· ++ ':' :: path.text) String.toList_ofList

/-- The normal form is the same for the same namespace and path, and for no others. -/
theorem Valid.normalized_eq_iff (valid : id.Valid) (validToo : other.Valid) :
    id.normalized = other.normalized ↔
      id.path.text = other.path.text ∧ id.spaceName = other.spaceName := by
  constructor
  · intro same
    have texts := congrArg String.toList same
    rw [normalized_toList, normalized_toList] at texts
    obtain ⟨spaces, paths⟩ := append_separator_inj valid.colon_not_mem_spaceName
      validToo.colon_not_mem_spaceName texts
    exact ⟨paths, String.toList_inj.1 spaces⟩
  · rintro ⟨paths, spaces⟩
    rw [← String.toList_inj, normalized_toList, normalized_toList, paths, spaces]

end Valid

end ResourceId

namespace Resource

/-! ## What reading an id comes to -/

/-- The mark of a tag stands in front, where tags are allowed. -/
def isMarked (allowTag : Bool) (text : List Char) : Bool :=
  allowTag && text.head? == some '#'

/-- The text without the mark of a tag, where tags are allowed. -/
def unmarked (allowTag : Bool) (text : List Char) : List Char :=
  if isMarked allowTag text then text.tail else text

/-- A token over the mark of a tag, if there is one, and one over what follows it. -/
def highlights (allowTag : Bool) (kind : Highlight) (s : Slice) : List SemanticToken :=
  if isMarked allowTag s.text then
    [⟨⟨s.start, s.start + 1⟩, .tag⟩, ⟨⟨s.start + 1, s.stop⟩, kind⟩]
  else
    [⟨⟨s.start, s.stop⟩, kind⟩]

/-- Reading an id behind the mark of a tag yields its parts and the tokens of both, or nothing
and a single error. -/
inductive ReadsBody (kind : Highlight) (mark : Option Slice) (body : Slice) :
    Reported (Option ResourceId) → Prop where
  | accepted {id : ResourceId} (valid : id.Valid) (written : id.written = body.text)
    (isTag : id.isTag = mark.isSome) (isBody : IsBody body.text) :
    ReadsBody kind mark body
      ⟨some id, ⟨[], [], mark.toList.map (⟨·.span, .tag⟩) ++ [⟨body.span, kind⟩]⟩⟩
  | rejected {fault : Remark} (noBody : ¬IsBody body.text) :
    ReadsBody kind mark body ⟨none, ⟨[fault], [], []⟩⟩

/-- Parts that make up the id are read exactly, provided that an error means that it is none. -/
theorem readParts_reads {kind : Highlight} {mark space : Option Slice} {body path : Slice}
    (written : ResourceId.written ⟨mark.isSome, space, path⟩ = body.text)
    (exact : (readParts kind mark body space path).report.errors = [] ↔ IsBody body.text) :
    ReadsBody kind mark body (readParts kind mark body space path) := by
  have silent : (readParts kind mark body space path).report.errors = [] ↔ _ :=
    readParts_errors kind mark
  cases fault : faultOf? body space path with
  | none =>
    have isBody := exact.1 (silent.2 fault)
    obtain ⟨isSpace, nonempty, isPath⟩ := faultOf?_eq_none.1 fault
    have accepted : ReadsBody kind mark body _ :=
      .accepted ⟨isSpace, nonempty, isPath⟩ written rfl isBody
    unfold readParts
    rw [fault]
    cases mark <;> exact accepted
  | some found =>
    have noBody : ¬IsBody body.text := fun isBody => by
      rw [silent.1 (exact.2 isBody)] at fault
      cases fault
    unfold readParts
    rw [fault]
    exact .rejected noBody

theorem readBody_reads (kind : Highlight) (mark : Option Slice) (body : Slice) :
    ReadsBody kind mark body (readBody kind mark body) := by
  have exact := readBody_errors kind mark body
  unfold readBody at exact ⊢
  split at exact
  · rename_i path single
    obtain rfl := Slice.splitOn_single single
    exact readParts_reads rfl exact
  · rename_i space path pair
    exact readParts_reads (Slice.splitOn_pair pair).1.symm exact
  · exact .rejected fun isBody => absurd (exact.2 isBody) (List.cons_ne_nil _ _)

/-- An id is accepted with its parts and its tokens if its text is that of one, and refused
with a single error if it is not. -/
theorem read_decides (allowTag : Bool) (kind : Highlight) (s : Slice) :
    (IsBody (unmarked allowTag s.text) ∧ ∃ id : ResourceId, id.Valid ∧
        id.written = unmarked allowTag s.text ∧ id.isTag = isMarked allowTag s.text ∧
          read allowTag kind s = ⟨some id, ⟨[], [], highlights allowTag kind s⟩⟩) ∨
      ¬IsBody (unmarked allowTag s.text) ∧
        ∃ fault, read allowTag kind s = ⟨none, ⟨[fault], [], []⟩⟩ := by
  rcases s with ⟨text, start⟩
  unfold read
  split
  · rename_i found
    obtain ⟨allowed, front⟩ := Bool.and_eq_true_iff.1 found
    obtain ⟨body, rfl⟩ := List.head?_eq_some_iff.1 (of_decide_eq_true front)
    have marked : isMarked allowTag ('#' :: body) = true := by simp [isMarked, allowed]
    have stop : Slice.stop ⟨'#' :: body, start⟩ = start + 1 + byteLength body :=
      (Nat.add_assoc ..).symm
    rw [highlights, unmarked, if_pos marked, if_pos marked, marked, stop]
    dsimp only
    split
    · rename_i empty
      exact Or.inr ⟨fun isBody => isBody.ne_nil (List.isEmpty_iff.1 empty), _, rfl⟩
    · have reads := readBody_reads kind (some (Slice.take 1 ⟨'#' :: body, start⟩))
        (Slice.drop 1 ⟨'#' :: body, start⟩)
      generalize readBody kind _ _ = outcome at reads ⊢
      cases reads with
      | accepted valid written isTag isBody =>
        exact Or.inl ⟨isBody, _, valid, written, isTag, rfl⟩
      | rejected noBody => exact Or.inr ⟨noBody, _, rfl⟩
  · rename_i absent
    have noMark : isMarked allowTag text = false := by
      apply eq_false_of_ne_true
      intro marked
      obtain ⟨allowed, front⟩ := Bool.and_eq_true_iff.1 marked
      exact absent (Bool.and_eq_true_iff.2 ⟨allowed, decide_eq_true (beq_iff_eq.1 front)⟩)
    rw [highlights, unmarked, noMark, if_neg Bool.false_ne_true, if_neg Bool.false_ne_true]
    have reads := readBody_reads kind none ⟨text, start⟩
    generalize readBody kind _ _ = outcome at reads ⊢
    cases reads with
    | accepted valid written isTag isBody => exact Or.inl ⟨isBody, _, valid, written, isTag, rfl⟩
    | rejected noBody => exact Or.inr ⟨noBody, _, rfl⟩

/-- An id that is yielded is valid and makes up the text that was read. -/
theorem read_eq_some {allowTag : Bool} {kind : Highlight} {s : Slice} {id : ResourceId}
    (found : (read allowTag kind s).value = some id) :
    id.Valid ∧ id.written = unmarked allowTag s.text := by
  rcases read_decides allowTag kind s with ⟨-, other, valid, written, -, eq⟩ | ⟨-, fault, eq⟩
  · rw [eq] at found
    obtain rfl := Option.some.inj found
    exact ⟨valid, written⟩
  · rw [eq] at found
    cases found

/-- The normal form of an id is read as an id with this normal form. -/
theorem read_normalized {id : ResourceId} (valid : id.Valid) (kind : Highlight) {s : Slice}
    (text : s.text = id.normalized.toList) :
    ∃ again, (read false kind s).value = some again ∧ again.normalized = id.normalized := by
  have isBody : IsBody (unmarked false s.text) := text ▸ valid.isBody_normalized
  rcases read_decides false kind s with ⟨-, again, validToo, written, -, eq⟩ | ⟨noBody, -⟩
  · have colon : ':' ∈ again.written := by
      rw [written, text]
      simp [unmarked, isMarked, ResourceId.normalized_toList]
    have same : again.normalized.toList = id.normalized.toList :=
      (validToo.normalized_of_colon colon).trans (written.trans text)
    exact ⟨again, congrArg Reported.value eq, String.toList_inj.1 same⟩
  · exact absurd isBody noBody

/-- Exactly the texts of ids are read, behind the mark of a tag where tags are allowed. Such a
text yields an id that makes it up, without a remark and with a token over the mark, if there is
one, and one over the id; any other yields nothing but a single error. The normal form of an id
that was read is itself read as an id with this normal form, and two ids that were read have the
same one if and only if their paths and their namespaces, written or not, are the same. -/
theorem read_exact (allowTag : Bool) (kind : Highlight) (s : Slice) :
    (IsBody (unmarked allowTag s.text) → ∃ id : ResourceId,
        id.written = unmarked allowTag s.text ∧ id.isTag = isMarked allowTag s.text ∧
          read allowTag kind s = ⟨some id, ⟨[], [], highlights allowTag kind s⟩⟩) ∧
      (¬IsBody (unmarked allowTag s.text) →
        ∃ fault, read allowTag kind s = ⟨none, ⟨[fault], [], []⟩⟩) ∧
      ∀ id, (read allowTag kind s).value = some id →
        (∀ t : Slice, t.text = id.normalized.toList → ∃ again,
          (read false kind t).value = some again ∧ again.normalized = id.normalized) ∧
        ∀ (allowTag' : Bool) (kind' : Highlight) (t : Slice) (other : ResourceId),
          (read allowTag' kind' t).value = some other →
            (id.normalized = other.normalized ↔
              id.path.text = other.path.text ∧ id.spaceName = other.spaceName) := by
  refine ⟨fun isBody => ?_, fun noBody => ?_, fun id found => ⟨fun t => ?_, ?_⟩⟩
  · rcases read_decides allowTag kind s with ⟨-, id, -, written, isTag, eq⟩ | ⟨noBody, -⟩
    · exact ⟨id, written, isTag, eq⟩
    · exact absurd isBody noBody
  · rcases read_decides allowTag kind s with ⟨isBody, -⟩ | ⟨-, refused⟩
    · exact absurd isBody noBody
    · exact refused
  · exact read_normalized (read_eq_some found).1 kind
  · intro allowTag' kind' t other foundToo
    exact (read_eq_some found).1.normalized_eq_iff (read_eq_some foundToo).1

end Resource

end CommandScript
