import CommandScript.Proofs.CompoundTag.Recognition
import CommandScript.Proofs.Text.Balanced

/-!
Compound tags with simple arrays.

Where the type of an array is an unquoted character and no quote or bracket stands among its
elements, a text of the grammar is balanced, so whoever skips brackets and quotes finds the
end of the tag. No list begins like such an array, hence these texts are tags of the
documented grammar as well, in which an array has precedence over a list.
-/

namespace CommandScript.CompoundTag

open Reading

/-- An unquoted character gives the type of the elements, and these are written without
quotes and brackets. -/
def ArrayForm.simple : ArrayForm where
  head := Charset.isUnquoted
  element c := !Nesting.isMark c
  precedence := false

/-- A compound tag all arrays of which are simple. -/
def IsSimpleTag (text : List Char) : Prop :=
  Derives .simple .tag text

/-! ## Balance -/

section Balance

variable {text : List Char}

theorem AreBlanks.balanced (blank : AreBlanks text) : Balanced text :=
  balanced_of_plain fun c mem => Nesting.isMark_of_isBlank (blank c mem)

theorem IsScalar.balanced (isScalar : IsScalar text) : Balanced text := by
  cases isScalar with
  | quoted isQuote inside => exact .quoted isQuote inside
  | unquoted _ unquoted =>
    exact balanced_of_plain fun c mem => Nesting.isMark_of_isUnquoted (unquoted c mem)

theorem Derives.balanced {symbol : Symbol} (derives : Derives .simple symbol text) :
    Balanced text := by
  induction derives with
  | tag _ ih => exact .nested .curly ih
  | list _ _ ih => exact .nested .square ih
  | entry isKey blank blankToo _ ih =>
    exact .append isKey.balanced (.append blank.balanced
      (.cons (by decide) (.append blankToo.balanced ih)))
  | ofTag _ ih => exact ih
  | ofList _ ih => exact ih
  | @array head elements isHead each =>
    have inside : Balanced elements :=
      balanced_of_plain fun c mem => by simpa [ArrayForm.simple] using each c mem
    exact .nested .square (.cons (Nesting.isMark_of_isUnquoted isHead) (.cons (by decide) inside))
  | scalar isScalar => exact isScalar.balanced
  | last _ ih => exact ih
  | comma _ blank ih => exact .append ih (.append blank.balanced (.plain (by decide)))
  | more _ blank blankToo _ ih ihOthers =>
    exact .append ih (.append blank.balanced
      (.cons (by decide) (.append blankToo.balanced ihOthers)))
  | empty blank => exact blank.balanced
  | filled blank _ blankToo ih =>
    exact .append blank.balanced (.append ih blankToo.balanced)

theorem IsSimpleTag.balanced (isTag : IsSimpleTag text) : Balanced text :=
  Derives.balanced isTag

/-- A tag is balanced text in curly brackets. -/
theorem IsSimpleTag.bracketed (isTag : IsSimpleTag text) :
    ∃ inside, text = '{' :: (inside ++ ['}']) ∧ Balanced inside := by
  cases isTag with
  | tag entries => exact ⟨_, rfl, entries.balanced⟩

end Balance

/-! ## Tags of the documented grammar -/

/-- The text does not go on with a semicolon. -/
def StopsType (text : List Char) : Prop :=
  Stops (· == ';') text

/-- The text does not go on like an array behind its bracket: no semicolon follows the first
character, unless that is a quote. -/
def NoType (text : List Char) : Prop :=
  ∃ c rest, text = c :: rest ∧ (Charset.isQuote c = true ∨ StopsType rest)

section Documented

variable {c : Char} {text after : List Char} {form : ArrayForm} {item : Item}

theorem stopsType_cons (noSemicolon : c ≠ ';') (rest : List Char) : StopsType (c :: rest) := by
  rintro _ ⟨⟩
  simpa using noSemicolon

theorem AreBlanks.stopsType (blank : AreBlanks text) (stops : StopsType after) :
    StopsType (text ++ after) := by
  cases text with
  | nil => exact stops
  | cons c text =>
    refine stopsType_cons ?_ _
    rintro rfl
    exact absurd (blank ';' (List.mem_cons_self ..)) (by decide)

theorem Opens.stopsType (opens : Opens text) : StopsType text := by
  obtain ⟨c, rest, rfl, opening⟩ := opens
  refine stopsType_cons ?_ _
  rintro rfl
  exact absurd opening (by decide)

theorem Derives.stopsType_inside (inside : Derives form (.inside item) text)
    (stops : StopsType after) : StopsType (text ++ after) := by
  cases inside with
  | empty blank => exact blank.stopsType stops
  | filled blank isSeries _ =>
    rw [List.append_assoc]
    exact blank.stopsType ((isSeries.opens_series.append _).append _).stopsType

theorem NoType.append (noType : NoType text) (stops : StopsType after) :
    NoType (text ++ after) := by
  obtain ⟨c, rest, rfl, quoteOrStops⟩ := noType
  refine ⟨c, rest ++ after, rfl, quoteOrStops.imp_right fun stopsRest => ?_⟩
  cases rest with
  | nil => exact stops
  | cons => exact stopsRest

theorem IsScalar.noType (isScalar : IsScalar text) : NoType text := by
  cases isScalar with
  | quoted isQuote _ => exact ⟨_, _, rfl, Or.inl isQuote⟩
  | unquoted nonempty unquoted =>
    obtain ⟨first, rest, rfl⟩ := List.exists_cons_of_ne_nil nonempty
    refine ⟨first, rest, rfl, Or.inr ?_⟩
    cases rest with
    | nil => exact nofun
    | cons second rest =>
      refine stopsType_cons ?_ _
      rintro rfl
      exact absurd (unquoted ';' (by simp)) (by decide)

theorem Derives.noType_value (isValue : Derives .simple (.item .value) text) : NoType text := by
  cases isValue with
  | ofTag tag =>
    cases tag with
    | tag entries =>
      have closing : StopsType ['}'] := stopsType_cons (by decide) _
      exact ⟨_, _, rfl, Or.inr (entries.stopsType_inside closing)⟩
  | ofList list =>
    cases list with
    | list elements =>
      have closing : StopsType [']'] := stopsType_cons (by decide) _
      exact ⟨_, _, rfl, Or.inr (elements.stopsType_inside closing)⟩
  | @array head _ isHead _ =>
    refine ⟨_, _, rfl, Or.inr (stopsType_cons ?_ _)⟩
    rintro rfl
    exact absurd isHead (by decide)
  | scalar isScalar => exact isScalar.noType

theorem Derives.noType_series (isSeries : Derives .simple (.series .value) text) :
    NoType text := by
  cases isSeries with
  | last isItem => exact isItem.noType_value
  | comma isItem blank =>
    exact isItem.noType_value.append (blank.stopsType (stopsType_cons (by decide) _))
  | more isItem blank _ _ =>
    exact isItem.noType_value.append (blank.stopsType (stopsType_cons (by decide) _))

/-- Where arrays are simple, no list goes on like an array. -/
theorem Derives.noType_inside (inside : Derives .simple (.inside .value) text) :
    NoType (text ++ [']']) := by
  have closing : StopsType [']'] := stopsType_cons (by decide) _
  cases inside with
  | empty blank =>
    cases text with
    | nil => exact ⟨_, _, rfl, Or.inr nofun⟩
    | cons c blanks =>
      have rest : AreBlanks blanks := fun c mem => blank c (List.mem_cons_of_mem _ mem)
      exact ⟨_, _, rfl, Or.inr (rest.stopsType closing)⟩
  | @filled _ series before after blank isSeries blankToo =>
    rw [List.append_assoc, List.append_assoc]
    have behind := isSeries.noType_series.append (blankToo.stopsType closing)
    cases before with
    | nil => exact behind
    | cons c before =>
      have rest : AreBlanks before := fun c mem => blank c (List.mem_cons_of_mem _ mem)
      refine ⟨_, _, rfl, Or.inr (rest.stopsType ?_)⟩
      exact (isSeries.opens_series.append _).stopsType

theorem NoType.free (noType : NoType (text ++ [']'])) :
    ¬ArrayForm.any.Begins ('[' :: (text ++ [']'])) := by
  rintro ⟨head, rest, eq, noQuote⟩
  obtain ⟨c, others, front, quoteOrStops⟩ := noType
  rw [front] at eq
  obtain ⟨rfl, rfl⟩ := List.cons.inj (List.cons.inj eq).2
  rcases quoteOrStops with isQuote | stops
  · simp [ArrayForm.any, isQuote] at noQuote
  · exact absurd (stops ';' rfl) (by decide)

/-- Texts with simple arrays are texts of the documented grammar. -/
theorem Derives.any {symbol : Symbol} (derives : Derives .simple symbol text) :
    Derives .any symbol text := by
  induction derives with
  | tag _ ih => exact .tag ih
  | list elements _ ih => exact .list ih fun _ => elements.noType_inside.free
  | entry isKey blank blankToo _ ih => exact .entry isKey blank blankToo ih
  | ofTag _ ih => exact .ofTag ih
  | ofList _ ih => exact .ofList ih
  | @array head elements isHead each =>
    refine .array ?_ fun c mem => ?_
    · simp [ArrayForm.any, Charset.isQuote_of_isUnquoted isHead]
    · have noMark : Nesting.isMark c = false := by simpa [ArrayForm.simple] using each c mem
      refine bne_iff_ne.2 ?_
      rintro rfl
      exact absurd noMark (by decide)
  | scalar isScalar => exact .scalar isScalar
  | last _ ih => exact .last ih
  | comma _ blank ih => exact .comma ih blank
  | more _ blank blankToo _ ih ihOthers => exact .more ih blank blankToo ihOthers
  | empty blank => exact .empty blank
  | filled blank _ blankToo ih => exact .filled blank ih blankToo

/-- A tag with simple arrays is read as a whole. -/
theorem IsSimpleTag.readWhole_errors (isTag : IsSimpleTag text) (start : Nat) :
    (readWhole ⟨text, start⟩).report.errors = [] := by
  rcases readWhole_sound ⟨text, start⟩ with ⟨-, silent⟩ | ⟨noTag, -⟩
  · exact silent
  · exact absurd (Derives.any isTag) noTag

end Documented

end CommandScript.CompoundTag
