import CommandScript.Argument
import CommandScript.Proofs.Shift.Relocation

/-!
Arguments of one word further on in a line.

Most arguments check the word under their reader and pass it, some take the rest of the line
(`Argument.WordReader`). What the check of a word comes to depends on the text of the word only:
further on it reports the same, shifted. So whether such an argument is read with success has
nothing to do with where its word stands.
-/

namespace CommandScript

open Reported

variable {k : Nat}

namespace Argument

/-! ## Words -/

theorem checkChars_shifted (k : Nat) (fault? : Char → Option String) (s : Slice) :
    Shifted k id (checkChars fault? s) (checkChars fault? (s.shift k)) := by
  unfold checkChars
  rw [Slice.chars_shift]
  refine shifted_each (Prod.map id (Slice.shift k)) (fun piece => ?_) s.chars
  rcases piece with ⟨c, slice⟩
  dsimp only [Prod.map, id]
  cases fault? c with
  | some message => exact shifted_error
  | none => exact shifted_pure

namespace WordKind

theorem checkAxes_shifted (k : Nat) (seen : List Char) (pieces : List (Char × Slice)) :
    Shifted k id (checkAxes seen pieces)
      (checkAxes seen (pieces.map (Prod.map id (Slice.shift k)))) := by
  induction pieces generalizing seen with
  | nil => exact shifted_pure
  | cons piece pieces ih =>
    rcases piece with ⟨c, slice⟩
    show Shifted k id (checkAxes seen ((c, slice) :: pieces))
      (checkAxes seen ((c, slice.shift k) :: pieces.map (Prod.map id (Slice.shift k))))
    rw [checkAxes, checkAxes]
    cases axisFault? seen c with
    | some fault => exact shifted_error.bind fun _ => ih (c :: seen)
    | none => exact ih (c :: seen)

theorem checkValue_shifted (k : Nat) (kind : WordKind) (word : Slice) :
    Shifted k id (kind.checkValue word) (kind.checkValue (word.shift k)) := by
  cases kind with
  | swizzle =>
    unfold checkValue
    rw [Slice.chars_shift]
    exact checkAxes_shifted k [] word.chars
  | itemSlot | color | entityAnchor => exact shifted_errorIf
  | team | objective | scoreboardSlot => exact shifted_pure

theorem check_shifted (k : Nat) (kind : WordKind) (word : Slice) :
    Shifted k id (kind.check word) (kind.check (word.shift k)) := by
  have value : Shifted k id
      (kind.checkValue word >>= fun _ => token word.span kind.highlight)
      (kind.checkValue (word.shift k) >>= fun _ => token (word.shift k).span kind.highlight) :=
    (checkValue_shifted k kind word).bind fun _ => shifted_token
  exact shifted_ite ((checkChars_shifted k _ word).bind fun _ => value) value

end WordKind

theorem checkUuid_shifted (k : Nat) (word : Slice) :
    Shifted k id (if isUuid word then token word.span .uuid else error word.span invalidUuid)
      (if isUuid (word.shift k) then token (word.shift k).span .uuid
        else error (word.shift k).span invalidUuid) :=
  shifted_ite shifted_token shifted_error

/-! ## Numbers and strings -/

namespace Duration

theorem checkLength_shifted (k : Nat) (min : Int) (word digits unit : Slice) :
    Shifted k id (checkLength min word digits unit)
      (checkLength min (word.shift k) (digits.shift k) (unit.shift k)) := by
  unfold checkLength
  rw [Slice.text_shift]
  cases Decimal.readFloat? digits.text with
  | none => exact shifted_error
  | some value =>
    have sameUnit : ticksPer? (unit.shift k) = ticksPer? unit := rfl
    dsimp only
    rw [sameUnit]
    cases ticksPer? unit with
    | none => exact shifted_error
    | some ticks => exact shifted_errorIf

theorem check_shifted (k : Nat) (min : Int) (word : Slice) :
    Shifted k id (check min word) (check min (word.shift k)) := by
  unfold check
  rw [Slice.splitWhile_shift]
  generalize word.splitWhile _ = parts
  rcases parts with ⟨digits, unit⟩
  refine shifted_ite shifted_error (shifted_token.bind fun _ => ?_)
  have length := checkLength_shifted k min word digits unit
  exact shifted_ite length (shifted_token.bind fun _ => length)

end Duration

namespace StringKind

theorem checkQuoted_shifted (k : Nat) (word : Slice) :
    Shifted k id (checkQuoted word) (checkQuoted (word.shift k)) := by
  refine Cursor.readQuoted_shifted.bind fun found => ?_
  rcases found with ⟨quoted, c⟩
  cases quoted with
  | some quoted => exact shifted_errorIf.bind fun _ => shifted_token
  | none => exact shifted_token

theorem check_shifted (k : Nat) (kind : StringKind) (word : Slice) :
    Shifted k id (kind.check word) (kind.check (word.shift k)) := by
  have word' : Shifted k id (checkWord word) (checkWord (word.shift k)) :=
    shifted_errorIf.bind fun _ => shifted_token
  exact (shifted_ite (checkQuoted_shifted k word) word').labelled kind.label

end StringKind

/-! ## Items and blocks -/

theorem Item.check_shifted (k : Nat) (allowTag : Bool) (word : Slice) :
    Shifted k id (Item.check allowTag word) (Item.check allowTag (word.shift k)) := by
  unfold Item.check
  rw [Slice.splitWhile_shift]
  generalize word.splitWhile isIdChar = parts
  rcases parts with ⟨name, tag⟩
  refine (shifted_ite shifted_error ?_).labelled _
  refine (Resource.read_shifted k allowTag .resource name).bind fun _ => ?_
  exact shifted_ite shifted_pure (CompoundTag.readWhole_shifted k tag)

namespace BlockSpec

theorem readId_shifted (k : Nat) (spec : BlockSpec) (registries : Registries) (name : Slice) :
    Shifted k id (spec.readId registries name) (spec.readId registries (name.shift k)) := by
  refine (Resource.read_shifted k spec.allowTag .resource name).bind fun found => ?_
  cases found with
  | none => exact shifted_pure
  | some resource =>
    have sameName : (resource.shift k).normalized = resource.normalized := by
      rcases resource with ⟨isTag, space, path⟩
      cases space <;> rfl
    refine shifted_ite shifted_pure ?_
    dsimp only [Option.map]
    rw [sameName]
    cases registries.block? resource.normalized with
    | some properties => exact shifted_pure
    | none => exact shifted_warning.bind fun _ => shifted_pure

theorem highlightValue_shifted (k : Nat) (entry : PropertyEntry) :
    Shifted k id (highlightValue entry) (highlightValue (entry.shift k)) :=
  shifted_ite shifted_pure shifted_token

theorem checkEntry_shifted (k : Nat) (block : Known) (seen : List (List Char))
    (entry : PropertyEntry) :
    Shifted k id (checkEntry block seen entry) (checkEntry block seen (entry.shift k)) := by
  refine shifted_errorIf.bind fun _ => ?_
  have sameKey : (entry.shift k).key.toString = entry.key.toString := rfl
  rw [sameKey]
  cases block.properties.lookup entry.key.toString with
  | none => exact shifted_error
  | some allowed => exact shifted_errorIf

theorem checkEntries_shifted (k : Nat) (block : Known) (seen : List (List Char))
    (entries : List PropertyEntry) :
    Shifted k id (checkEntries block seen entries)
      (checkEntries block seen (entries.map (PropertyEntry.shift k))) := by
  induction entries generalizing seen with
  | nil => exact shifted_pure
  | cons entry entries ih =>
    exact (checkEntry_shifted k block seen entry).bind fun _ => ih (entry.key.text :: seen)

theorem readTag_shifted (k : Nat) (rest : Slice) :
    Shifted k id (readTag rest) (readTag (rest.shift k)) :=
  shifted_ite (CompoundTag.readWhole_shifted k rest) shifted_errorIf

theorem readSuffix_shifted (k : Nat) (block : Option Known) (suffix : Slice) :
    Shifted k id (readSuffix block suffix) (readSuffix block (suffix.shift k)) := by
  refine shifted_ite ?_ (readTag_shifted k suffix)
  refine (PropertySpec.read_shifted k propertySpec suffix).bind fun found => ?_
  cases found with
  | none => exact shifted_pure
  | some list =>
    refine (shifted_each _ (highlightValue_shifted k) list.entries).bind fun _ => ?_
    cases block with
    | none => exact readTag_shifted k list.rest
    | some block =>
      exact (checkEntries_shifted k block [] list.entries).bind fun _ =>
        readTag_shifted k list.rest

theorem check_shifted (k : Nat) (spec : BlockSpec) (registries : Registries) (word : Slice) :
    Shifted k id (spec.check registries word) (spec.check registries (word.shift k)) := by
  unfold check
  rw [Slice.splitWhile_shift]
  generalize word.splitWhile Item.isIdChar = parts
  rcases parts with ⟨name, suffix⟩
  refine (shifted_ite shifted_error ?_).labelled spec.label
  exact (spec.readId_shifted k registries name).bind fun block => readSuffix_shifted k block suffix

end BlockSpec

/-! ## Targets -/

namespace Target

theorem checkPredicate_shifted (k : Nat) (entry : PropertyEntry) :
    Shifted k id (checkPredicate entry) (checkPredicate (entry.shift k)) := by
  refine shifted_ite shifted_pure ?_
  have sameKey : (entry.shift k).key.toString = entry.key.toString := rfl
  rw [sameKey]
  cases SelectorEntry.find? entry.key.toString with
  | none => exact shifted_error
  | some row =>
    have covered : Span.cover (entry.shift k).key (entry.shift k).value =
        (Span.cover entry.key entry.value).shift k := Slice.cover_shift ..
    have empty : Shifted k id (error (Span.cover entry.key entry.value) Fault.emptyValue.message)
        (error (Span.cover (entry.shift k).key (entry.shift k).value)
          Fault.emptyValue.message) := by
      rw [covered]
      rfl
    exact shifted_ite empty ((row.predicate.read_shifted k entry.value).labelled _)

theorem checkPredicates_shifted (k : Nat) (block : Slice) :
    Shifted k id (checkPredicates block) (checkPredicates (block.shift k)) := by
  refine shifted_ite shifted_pure (shifted_ite shifted_error ?_)
  refine (PropertySpec.read_shifted k predicateSpec block).bind fun found => ?_
  cases found with
  | none => exact shifted_pure
  | some list =>
    exact shifted_errorIf.bind fun _ => shifted_each _ (checkPredicate_shifted k) list.entries

theorem checkSelector_shifted (k : Nat) (word : Slice) :
    Shifted k id (checkSelector word) (checkSelector (word.shift k)) := by
  unfold checkSelector
  dsimp only
  rw [Slice.drop_shift, Slice.take_shift, Slice.front?_shift, Slice.drop_shift, Slice.cover_shift]
  cases ((word.drop 1).take 1).front? with
  | none => exact shifted_error
  | some c =>
    have highlighted : Shifted k id
        (token (Span.cover word ((word.drop 1).take 1)) .selector)
        (token ((Span.cover word ((word.drop 1).take 1)).shift k) .selector) := rfl
    exact shifted_ite (highlighted.bind fun _ => checkPredicates_shifted k (word.drop 2))
      shifted_error

theorem checkPlayer_shifted (k : Nat) (word : Slice) :
    Shifted k id (checkPlayer word) (checkPlayer (word.shift k)) :=
  shifted_ite shifted_token <| shifted_token.bind fun _ => shifted_ite shifted_error shifted_errorIf

theorem check_shifted (k : Nat) (kind : TargetKind) (word : Slice) :
    Shifted k id (check kind word) (check kind (word.shift k)) :=
  shifted_ite shifted_token <|
    shifted_ite (checkSelector_shifted k word) (checkPlayer_shifted k word)

end Target

/-! ## Vectors of one component -/

namespace VectorSpec

theorem component_shift (k : Nat) (spec : VectorSpec) (word : Slice) :
    spec.component (word.shift k) =
      ⟨(spec.component word).mark.map (Slice.shift k), (spec.component word).number.shift k⟩ := by
  unfold component
  rw [Slice.front?_shift, Slice.take_shift, Slice.drop_shift]
  split <;> rfl

theorem checkNumber_shifted (k : Nat) (spec : VectorSpec) (mark : Option Slice) (number : Slice) :
    Shifted k id (spec.checkNumber ⟨mark, number⟩)
      (spec.checkNumber ⟨mark.map (Slice.shift k), number.shift k⟩) := by
  have sameForm : spec.form ⟨mark.map (Slice.shift k), number.shift k⟩ =
      spec.form ⟨mark, number⟩ := by
    cases mark <;> rfl
  have sameMessage : ∀ form, spec.message (.unreadable form (number.shift k)) =
      spec.message (.unreadable form number) := by
    intro form
    cases form <;> rfl
  unfold checkNumber
  rw [sameForm]
  dsimp only
  rw [sameMessage]
  exact shifted_ite shifted_pure (shifted_errorIf.bind fun _ => shifted_token)

theorem checkComponent_shifted (k : Nat) (spec : VectorSpec) (word : Slice) :
    Shifted k id (spec.checkComponent (spec.component word))
      (spec.checkComponent (spec.component (word.shift k))) := by
  rw [component_shift]
  rcases spec.component word with ⟨mark, number⟩
  have rest := checkNumber_shifted k spec mark number
  cases mark with
  | none => exact rest
  | some mark => exact shifted_token.bind fun _ => rest

/-- The only component of a vector cannot mix marks with another. -/
theorem checkWords_shifted (k : Nat) (spec : VectorSpec) (word : Slice) :
    Shifted k id (spec.checkWords word []) (spec.checkWords (word.shift k) []) := by
  have alone : ∀ word, mixesMarks [spec.component word] = false := by
    intro word
    rcases spec.component word with ⟨mark, number⟩
    cases mark <;> rfl
  have only := (checkComponent_shifted k spec word).bind fun _ => shifted_pure (a := ())
  unfold checkWords
  dsimp only [List.map]
  rw [alone, alone]
  exact only.bind fun _ => shifted_pure

end VectorSpec

/-! ## Readers -/

/-- Readers of single words and of the rest of a line: the word under the reader is checked,
wherever it stands, or everything is taken. -/
inductive WordReader : (TokenReader → Reported TokenReader) → Prop where
  | word (missing : String) {check : Slice → Reported Unit}
    (shifted : ∀ k s, Shifted k id (check s) (check (s.shift k))) :
    WordReader (readWord missing check)
  | rest (missing : String) : WordReader (readRest missing)

/-- An argument that may take several words with separators between them. -/
def IsSpaced : Argument → Prop
  | vector spec => 1 < spec.dim
  | particle => True
  | _ => False

/-- A vector of one component is read as a word. -/
theorem readVector_eq (spec : VectorSpec) (single : ¬1 < spec.dim) :
    readVector spec = readWord (spec.message (.missing spec.dim)) (spec.checkWords · []) := by
  have none : spec.dim - 1 = 0 := by omega
  funext r
  unfold readVector readWord
  rw [none]
  cases r.currentWord? with
  | none => rfl
  | some word => rfl

/-- All other arguments are read as a word or take the rest of the line. -/
theorem read_wordReader (argument : Argument) (registries : Registries)
    (unspaced : ¬argument.IsSpaced) : WordReader (argument.read registries) := by
  cases argument with
  | vector spec =>
    rw [read, readVector_eq spec unspaced]
    exact .word _ fun k => spec.checkWords_shifted k
  | resource allowTag =>
    exact .word _ fun k s => (Resource.read_shifted k allowTag .resource s).ignored.labelled _
  | uuid => exact .word _ checkUuid_shifted
  | duration min => exact .word _ fun k => Duration.check_shifted k min
  | word kind => exact .word _ fun k => kind.check_shifted k
  | criterion => exact .word _ fun _ _ => shifted_token
  | operator => exact .word _ fun _ _ => shifted_token.bind fun _ => shifted_errorIf
  | block spec => exact .word _ fun k => spec.check_shifted k registries
  | item allowTag => exact .word _ fun k => Item.check_shifted k allowTag
  | particle => exact absurd trivial unspaced
  | compoundTag => exact .word _ fun k s => (CompoundTag.readWhole_shifted k s).labelled _
  | message => exact .rest _
  | range form =>
    exact .word _ fun k s => (RangeSpec.read_shifted k _ s).ignored
  | target kind => exact .word _ fun k => Target.check_shifted k kind
  | string kind =>
    cases kind with
    | greedy => exact .rest _
    | word | phrase => exact .word _ fun k => StringKind.check_shifted k _
  | boolean => exact .word _ fun _ _ => shifted_ite shifted_token shifted_error
  | number form min max =>
    exact .word _ fun k s => (NumberSpec.read_shifted k _ s).ignored.labelled _

end Argument

end CommandScript
