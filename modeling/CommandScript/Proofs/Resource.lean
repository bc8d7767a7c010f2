import CommandScript.Proofs.Report
import CommandScript.Proofs.Text.Split
import CommandScript.Resource

/-!
A resource id reports inside its text: either one error about a part of it, or the
mark of a tag and the id behind it, in this order. It is read without an error exactly
if its text is that of an id (`Resource.read_errors_iff`).
-/

namespace CommandScript.Resource

variable {body path : Slice} {space : Option Slice} {span : Span} {fault : Fault}

/-- What is wrong with an id stands in it. -/
theorem faultOf?_covers (found : faultOf? body space path = some (span, fault))
    (pathWithin : path.Within body) (spaceWithin : ∀ d, space = some d → d.Within body) :
    body.Covers span := by
  unfold faultOf? at found
  split at found
  · rcases Prod.mk.inj (Option.some.inj found) with ⟨rfl, -⟩
    exact Slice.covers_self body
  · split at found
    · rcases Prod.mk.inj (Option.some.inj found) with ⟨rfl, -⟩
      exact Slice.covers_self body
    · split at found
      · rcases Prod.mk.inj (Option.some.inj found) with ⟨rfl, -⟩
        exact pathWithin.covers
      · split at found
        · rename_i d _
          split at found
          · cases found
          · rcases Prod.mk.inj (Option.some.inj found) with ⟨rfl, -⟩
            exact (spaceWithin d rfl).covers
        · cases found

section Body

variable {mark : Option Slice} {s : Slice}

/-- The parts of an id report inside the slice that it ends, the mark of a tag in
front of it. -/
theorem readParts_laid (kind : Highlight) (bodyWithin : body.Within s)
    (markWithin : ∀ m, mark = some m → m.Within s ∧ m.stop ≤ body.start)
    (pathWithin : path.Within body) (spaceWithin : ∀ d, space = some d → d.Within body) :
    (readParts kind mark body space path).report.Laid s s.start s.stop := by
  have token : (Report.token body.span kind).Laid s body.start s.stop :=
    Report.laid_token bodyWithin.covers _ (Nat.le_refl _) bodyWithin.stop_le
  unfold readParts
  split
  · rename_i found
    have covers := faultOf?_covers found pathWithin spaceWithin
    exact Report.laid_error (covers.mono bodyWithin) _ s.start_le_stop
  · cases mark with
    | none => exact token.widen bodyWithin.start_le (Nat.le_refl _)
    | some m =>
      obtain ⟨within, before⟩ := markWithin m rfl
      exact (Report.laid_token within.covers .tag within.start_le before).append token

theorem readBody_laid (kind : Highlight) (bodyWithin : body.Within s)
    (markWithin : ∀ m, mark = some m → m.Within s ∧ m.stop ≤ body.start) :
    (readBody kind mark body).report.Laid s s.start s.stop := by
  unfold readBody
  split
  · rename_i path parts
    have pathWithin : path.Within body :=
      Slice.mem_splitOn_within (parts ▸ List.mem_singleton_self _)
    exact readParts_laid kind bodyWithin markWithin pathWithin nofun
  · rename_i space path parts
    have spaceWithin : space.Within body := Slice.mem_splitOn_within (parts ▸ List.mem_cons_self ..)
    have pathWithin : path.Within body :=
      Slice.mem_splitOn_within (parts ▸ List.mem_cons_of_mem _ (List.mem_singleton_self _))
    apply readParts_laid kind bodyWithin markWithin pathWithin
    rintro d ⟨⟩
    exact spaceWithin
  · exact Report.laid_error bodyWithin.covers _ s.start_le_stop

end Body

/-- An id reports inside the text in which it is written, from left to right. -/
theorem read_laid (allowTag : Bool) (kind : Highlight) (s : Slice) :
    (read allowTag kind s).report.Laid s s.start s.stop := by
  unfold read
  split
  · dsimp only
    split
    · exact Report.laid_error (Slice.covers_self s) _ s.start_le_stop
    · apply readBody_laid kind (Slice.drop_within ..)
      rintro m ⟨⟩
      exact ⟨Slice.take_within .., Nat.le_refl _⟩
  · exact readBody_laid kind (.refl s) nofun

theorem read_fits (allowTag : Bool) (kind : Highlight) (s : Slice) :
    (read allowTag kind s).report.Fits s :=
  (read_laid allowTag kind s).fits

/-! ## The texts of ids -/

/-- A path, or a namespace, a colon and a path. -/
inductive IsBody : List Char → Prop where
  | path {path : List Char} (nonempty : path ≠ []) (isPath : ∀ c ∈ path, Charset.isPath c = true) :
    IsBody path
  | spaced {space path : List Char} (spaceNonempty : space ≠ [])
    (isNamespace : ∀ c ∈ space, Charset.isNamespace c = true) (nonempty : path ≠ [])
    (isPath : ∀ c ∈ path, Charset.isPath c = true) : IsBody (space ++ ':' :: path)

/-- The mark of a tag may stand in front, where tags are allowed. -/
inductive IsId (allowTag : Bool) : List Char → Prop where
  | plain {text : List Char} (body : IsBody text) : IsId allowTag text
  | tag {text : List Char} (allowed : allowTag = true) (body : IsBody text) :
    IsId allowTag ('#' :: text)

theorem isPath_of_isNamespace {c : Char} (isNamespace : Charset.isNamespace c = true) :
    Charset.isPath c = true := by
  simp [Charset.isPath, isNamespace]

/-- A text of path characters contains no colon. -/
theorem colon_not_mem {text : List Char} (isPath : ∀ c ∈ text, Charset.isPath c = true) :
    ':' ∉ text :=
  fun mem => absurd (isPath ':' mem) (by decide)

theorem IsBody.chars {text : List Char} (body : IsBody text) :
    ∀ c ∈ text, Charset.isPath c = true ∨ c = ':' := by
  cases body with
  | path _ isPath => exact fun c mem => Or.inl (isPath c mem)
  | spaced _ isNamespace _ isPath =>
    refine List.forall_mem_append.2 ⟨fun c mem => ?_, List.forall_mem_cons.2 ⟨Or.inr rfl, ?_⟩⟩
    · exact Or.inl (isPath_of_isNamespace (isNamespace c mem))
    · exact fun c mem => Or.inl (isPath c mem)

theorem IsBody.ne_nil {text : List Char} (body : IsBody text) : text ≠ [] := by
  cases body with
  | path nonempty => exact nonempty
  | spaced => simp

/-- The mark of a tag is no character of an id. -/
theorem IsBody.not_marked {text : List Char} (body : IsBody ('#' :: text)) : False := by
  rcases body.chars '#' (List.mem_cons_self ..) with isPath | colon
  · exact absurd isPath (by decide)
  · exact absurd colon (by decide)

theorem IsId.ne_nil {allowTag : Bool} {text : List Char} (isId : IsId allowTag text) :
    text ≠ [] := by
  cases isId with
  | plain body => exact body.ne_nil
  | tag => exact List.cons_ne_nil _ _

/-- Nothing is wrong with the parts of an id exactly if neither is empty and both consist of
their characters. -/
theorem faultOf?_eq_none : faultOf? body space path = none ↔
    (∀ d ∈ space, d.text ≠ [] ∧ ∀ c ∈ d.text, Charset.isNamespace c = true) ∧
      path.text ≠ [] ∧ ∀ c ∈ path.text, Charset.isPath c = true := by
  unfold faultOf?
  split
  · rename_i blank
    obtain ⟨d, found, empty⟩ := (Option.any_eq_true _ _).1 blank
    exact iff_of_false (Option.some_ne_none _) fun fits =>
      (fits.1 d found).1 (List.isEmpty_iff.1 empty)
  · rename_i noBlank
    split
    · rename_i empty
      exact iff_of_false (Option.some_ne_none _) fun fits => fits.2.1 (List.isEmpty_iff.1 empty)
    · rename_i nonempty
      split
      · rename_i bad
        refine iff_of_false (Option.some_ne_none _) fun fits => ?_
        simp [List.all_eq_true.2 fits.2.2] at bad
      · rename_i good
        have isPath : ∀ c ∈ path.text, Charset.isPath c = true := by simpa using good
        have nonempty : path.text ≠ [] := by simpa [Slice.isEmpty] using nonempty
        cases space with
        | none => exact iff_of_true rfl ⟨by simp, nonempty, isPath⟩
        | some space =>
          have spaceNonempty : space.text ≠ [] := by simpa [Slice.isEmpty] using noBlank
          simpa [spaceNonempty, nonempty] using fun _ => isPath

/-- Nothing is wrong with an id exactly if no error is reported. -/
theorem readParts_errors (kind : Highlight) (mark : Option Slice) :
    (readParts kind mark body space path).report.errors = [] ↔
      faultOf? body space path = none := by
  unfold readParts
  cases faultOf? body space path with
  | none => cases mark <;> exact iff_of_true rfl rfl
  | some found => exact iff_of_false (List.cons_ne_nil _ _) nofun

theorem readBody_errors (kind : Highlight) (mark : Option Slice) (body : Slice) :
    (readBody kind mark body).report.errors = [] ↔ IsBody body.text := by
  constructor
  · intro silent
    unfold readBody at silent
    split at silent
    · rename_i path single
      obtain rfl := Slice.splitOn_single single
      obtain ⟨-, nonempty, isPath⟩ := faultOf?_eq_none.1 ((readParts_errors kind mark).1 silent)
      exact .path nonempty isPath
    · rename_i space path pair
      obtain ⟨text, -, -⟩ := Slice.splitOn_pair pair
      obtain ⟨isSpace, nonempty, isPath⟩ :=
        faultOf?_eq_none.1 ((readParts_errors kind mark).1 silent)
      obtain ⟨spaceNonempty, isNamespace⟩ := isSpace space rfl
      rw [text]
      exact .spaced spaceNonempty isNamespace nonempty isPath
    · cases silent
  · rcases body with ⟨text, start⟩
    intro isBody
    unfold readBody
    cases isBody with
    | path nonempty isPath =>
      rw [Slice.splitOn_of_not_mem (colon_not_mem isPath)]
      exact (readParts_errors kind mark).2 (faultOf?_eq_none.2 ⟨nofun, nonempty, isPath⟩)
    | spaced spaceNonempty isNamespace nonempty isPath =>
      have noColon := colon_not_mem fun c mem => isPath_of_isNamespace (isNamespace c mem)
      rw [Slice.splitOn_of_mem_once rfl noColon (colon_not_mem isPath)]
      refine (readParts_errors kind mark).2 (faultOf?_eq_none.2 ⟨?_, nonempty, isPath⟩)
      rintro _ ⟨⟩
      exact ⟨spaceNonempty, isNamespace⟩

/-- A text is read without an error exactly if it is an id. -/
theorem read_errors_iff (allowTag : Bool) (kind : Highlight) (s : Slice) :
    (read allowTag kind s).report.errors = [] ↔ IsId allowTag s.text := by
  rcases s with ⟨text, start⟩
  unfold read
  split
  · rename_i marked
    obtain ⟨allowed, front⟩ := Bool.and_eq_true_iff.1 marked
    obtain ⟨text, rfl⟩ := List.head?_eq_some_iff.1 (of_decide_eq_true front)
    have behind : IsId allowTag ('#' :: text) ↔ IsBody text := by
      refine ⟨fun isId => ?_, .tag allowed⟩
      cases isId with
      | plain body => exact body.not_marked.elim
      | tag _ body => exact body
    dsimp only
    rw [behind]
    split
    · rename_i empty
      refine iff_of_false (List.cons_ne_nil _ _) fun body => ?_
      exact body.ne_nil (List.isEmpty_iff.1 empty)
    · exact readBody_errors kind _ _
  · rename_i unmarked
    rw [readBody_errors]
    refine ⟨.plain, fun isId => ?_⟩
    cases isId with
    | plain body => exact body
    | tag allowed => exact absurd (by simp [allowed, Slice.front?]) unmarked

end CommandScript.Resource
