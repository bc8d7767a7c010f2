import CommandScript.Proofs.Text.Balanced
import CommandScript.Proofs.Text.Split

/-!
Cuts at top level.

A text is cut at a separator exactly where the scan of all that stands in front of it ends
outside quotes and brackets (`Slice.mem_separators_iff`), although each part is read with
what is left of the state of the scan. The reason is that nothing is open at a cut, so a
scan goes on behind it as if the text began there: what is in front of a separator at top
level and what is behind it are cut independently (`Nesting.topLevelParts_append`).
-/

namespace CommandScript

namespace Nesting

variable {n : Nesting} {separator c : Char}

/-- No quote and no bracket is open at the end of the text. -/
def AtTopLevel (text : List Char) : Prop :=
  (outside.scan text).quote = none ∧ (outside.scan text).depth = 0

instance (text : List Char) : Decidable (AtTopLevel text) :=
  inferInstanceAs (Decidable (_ ∧ _))

/-! ## Separators and the scan -/

/-- The separator itself counts where no quote and no bracket is open. -/
theorem separates_self_iff (noMark : isMark separator = false) :
    n.separates separator separator = true ↔ n.quote = none ∧ n.depth = 0 := by
  simp only [isMark, Bool.or_eq_false_iff] at noMark
  simp [separates, noMark]

theorem eq_of_separates (separates : n.separates separator c = true) : c = separator := by
  simp only [Nesting.separates, Bool.and_eq_true, beq_iff_eq] at separates
  exact separates.1.1.1.2

/-- A separator that counts leaves the scan as it is. -/
theorem step_of_separates (separates : n.separates separator c = true) : n.step c = n := by
  simp only [Nesting.separates, Bool.and_eq_true, Bool.not_eq_true',
    Option.isNone_iff_eq_none] at separates
  obtain ⟨⟨⟨⟨⟨noQuote, -⟩, -⟩, isQuote⟩, isOpener⟩, isCloser⟩ := separates
  simp [step, noQuote, isQuote, isOpener, isCloser]

/-- A character at which the text is not cut begins the first of the parts behind it. -/
theorem topLevelParts_cons (goesOn : n.separates separator c = false) (cs : List Char) :
    ∃ part parts, (n.step c).topLevelParts separator cs = part :: parts ∧
      n.topLevelParts separator (c :: cs) = (c :: part) :: parts := by
  obtain ⟨part, parts, cut⟩ :=
    List.exists_cons_of_ne_nil (topLevelParts_ne_nil separator (n.step c) cs)
  exact ⟨part, parts, cut, by simp [topLevelParts, goesOn, cut]⟩

/-- What is in front of a separator that counts and what is behind it are cut each on its own. -/
theorem topLevelParts_append {before : List Char}
    (separates : (n.scan before).separates separator separator = true) (after : List Char) :
    n.topLevelParts separator (before ++ separator :: after) =
      n.topLevelParts separator before ++ (n.scan before).topLevelParts separator after := by
  induction before generalizing n with
  | nil =>
    change n.separates separator separator = true at separates
    simp [topLevelParts, separates, scan]
  | cons c before ih =>
    have later := ih (n := n.step c) separates
    cases cuts : n.separates separator c with
    | true =>
      rw [step_of_separates cuts] at later
      simp [topLevelParts, cuts, later, scan, step_of_separates cuts]
    | false =>
      obtain ⟨part, parts, cut, first⟩ := topLevelParts_cons cuts before
      obtain ⟨part', parts', cut', whole⟩ :=
        topLevelParts_cons cuts (before ++ separator :: after)
      rw [later, cut, List.cons_append] at cut'
      obtain ⟨rfl, rfl⟩ := List.cons.inj cut'
      rw [List.cons_append, whole, first]
      rfl

theorem scan_settled (text : List Char) : (outside.scan text).Settled :=
  List.foldlRecOn text step (fun _ => rfl) fun _ settled c _ => settled.step c

/-- At top level the scan is as at the beginning. -/
theorem AtTopLevel.scan_eq {text : List Char} (atTopLevel : AtTopLevel text) :
    outside.scan text = outside := by
  have settled := scan_settled text atTopLevel.1
  rcases found : outside.scan text with ⟨depth, quote, escaped⟩
  simp only [AtTopLevel, found] at atTopLevel settled
  rw [atTopLevel.1, atTopLevel.2, settled]
  rfl

end Nesting

namespace Slice

/-! ## Pieces in a row -/

/-- Parts and what stands between them in turns. -/
def alternate : List Slice → List Slice → List Slice
  | part :: parts, cut :: cuts => part :: cut :: alternate parts cuts
  | parts, _ => parts

/-- Each of the slices begins where the one before it ends, from one offset to another. -/
def Contiguous : Nat → List Slice → Nat → Prop
  | start, [], stop => start = stop
  | start, piece :: pieces, stop => piece.start = start ∧ Contiguous piece.stop pieces stop

section Placed

variable {separator : Char} {start : Nat} {part : List Char} {parts more : List (List Char)}

theorem placeParts_of_ne_nil (others : parts ≠ []) :
    placeParts separator start (part :: parts) =
      ⟨⟨part, start⟩ ::
        (placeParts separator (start + byteLength part + separator.utf8Size) parts).parts,
      ⟨[separator], start + byteLength part⟩ ::
        (placeParts separator (start + byteLength part + separator.utf8Size)
          parts).separators⟩ := by
  cases parts with
  | nil => exact absurd rfl others
  | cons next parts => rfl

/-- There is one part more than there are separators; in turns they stand behind one another
and make up the joined text. -/
theorem placeParts_contiguous (separator : Char) (start : Nat) (some : parts ≠ []) :
    let split := placeParts separator start parts
    let pieces := alternate split.parts split.separators
    split.parts.length = split.separators.length + 1 ∧
      Contiguous start pieces (start + byteLength ([separator].intercalate parts)) ∧
      pieces.flatMap (·.text) = [separator].intercalate parts := by
  induction parts generalizing start with
  | nil => exact absurd rfl some
  | cons part parts ih =>
    cases parts with
    | nil =>
      rw [List.intercalate_singleton]
      exact ⟨rfl, ⟨rfl, rfl⟩, List.append_nil _⟩
    | cons next parts =>
      obtain ⟨lengths, follow, texts⟩ :=
        ih (start + byteLength part + separator.utf8Size) (List.cons_ne_nil _ _)
      rw [placeParts_of_ne_nil (List.cons_ne_nil _ _), List.intercalate_cons_cons,
        List.append_assoc]
      dsimp only [alternate]
      refine ⟨congrArg Nat.succ lengths, ⟨rfl, rfl, ?_⟩, ?_⟩
      · simpa [stop_eq, Nat.add_assoc] using follow
      · rw [List.flatMap_cons, List.flatMap_cons, texts]

/-- A character in front of the first part moves the rest on. -/
theorem placeParts_separators_cons (c : Char) (part : List Char) (parts : List (List Char)) :
    (placeParts separator start ((c :: part) :: parts)).separators =
      (placeParts separator (start + c.utf8Size) (part :: parts)).separators := by
  cases parts with
  | nil => rfl
  | cons next parts =>
    rw [placeParts_of_ne_nil (List.cons_ne_nil _ _), placeParts_of_ne_nil (List.cons_ne_nil _ _),
      byteLength_cons, ← Nat.add_assoc]

/-- Two runs of parts are placed one behind the other, with a separator in between. -/
theorem placeParts_append (separator : Char) (start : Nat) (some : parts ≠ [])
    (others : more ≠ []) :
    let left := placeParts separator start parts
    let cut := start + byteLength ([separator].intercalate parts)
    let right := placeParts separator (cut + separator.utf8Size) more
    placeParts separator start (parts ++ more) =
      ⟨left.parts ++ right.parts, left.separators ++ ⟨[separator], cut⟩ :: right.separators⟩ := by
  induction parts generalizing start with
  | nil => exact absurd rfl some
  | cons part parts ih =>
    cases parts with
    | nil =>
      rw [List.intercalate_singleton]
      exact placeParts_of_ne_nil others
    | cons next parts =>
      have later := ih (start + byteLength part + separator.utf8Size) (List.cons_ne_nil _ _)
      dsimp only at later ⊢
      rw [List.cons_append, placeParts_of_ne_nil (by simp), later,
        placeParts_of_ne_nil (List.cons_ne_nil next parts), List.intercalate_cons_cons]
      simp [Nat.add_assoc]

end Placed

/-! ## Where a slice is cut -/

section Cuts

variable {separator : Char}

/-- A text is cut at its first character, or where the rest of it is cut. -/
theorem mem_separators_cons {n : Nesting} {start : Nat} {c : Char} {text : List Char}
    {cut : Slice} :
    cut ∈ (placeParts separator start (n.topLevelParts separator (c :: text))).separators ↔
      (n.separates separator c = true ∧ cut = ⟨[separator], start⟩) ∨
        cut ∈ (placeParts separator (start + c.utf8Size)
          ((n.step c).topLevelParts separator text)).separators := by
  cases cuts : n.separates separator c with
  | true =>
    rw [Nesting.topLevelParts, if_pos cuts, Nesting.step_of_separates cuts,
      Nesting.eq_of_separates cuts,
      placeParts_of_ne_nil (Nesting.topLevelParts_ne_nil separator n text)]
    simp
  | false =>
    obtain ⟨part, parts, later, whole⟩ := Nesting.topLevelParts_cons cuts text
    rw [whole, placeParts_separators_cons, later]
    simp

/-- A scan cuts at the separators in front of which no quote and no bracket is open. -/
theorem mem_separators_iff (noMark : Nesting.isMark separator = false) {n : Nesting} {start : Nat}
    {text : List Char} {cut : Slice} :
    cut ∈ (placeParts separator start (n.topLevelParts separator text)).separators ↔
      ∃ before after, text = before ++ separator :: after ∧ (n.scan before).quote = none ∧
        (n.scan before).depth = 0 ∧ cut = ⟨[separator], start + byteLength before⟩ := by
  induction text generalizing n start with
  | nil => simp [Nesting.topLevelParts, placeParts]
  | cons c text ih =>
    rw [mem_separators_cons, ih]
    constructor
    · rintro (⟨cuts, rfl⟩ | ⟨before, after, rfl, noQuote, depth, rfl⟩)
      · obtain rfl := Nesting.eq_of_separates cuts
        obtain ⟨noQuote, depth⟩ := (Nesting.separates_self_iff noMark).1 cuts
        exact ⟨[], text, rfl, noQuote, depth, rfl⟩
      · exact ⟨c :: before, after, rfl, noQuote, depth, by simp [Nat.add_assoc]⟩
    · rintro ⟨before, after, divided, noQuote, depth, rfl⟩
      cases before with
      | nil =>
        obtain ⟨rfl, rfl⟩ := List.cons.inj divided
        exact .inl ⟨(Nesting.separates_self_iff noMark).2 ⟨noQuote, depth⟩, rfl⟩
      | cons d before =>
        obtain ⟨rfl, rfl⟩ := List.cons.inj divided
        exact .inr ⟨before, after, rfl, noQuote, depth, by simp [Nat.add_assoc]⟩

/-- At a separator at top level a slice is cut into what is in front of it and what is behind
it, each cut on its own. -/
theorem splitTopLevel_append (noMark : Nesting.isMark separator = false)
    {before after : List Char} (atTopLevel : Nesting.AtTopLevel before) (start : Nat) :
    let cut := start + byteLength before
    let left := splitTopLevel separator ⟨before, start⟩
    let right := splitTopLevel separator ⟨after, cut + separator.utf8Size⟩
    splitTopLevel separator ⟨before ++ separator :: after, start⟩ =
      ⟨left.parts ++ right.parts, left.separators ++ ⟨[separator], cut⟩ :: right.separators⟩ := by
  have parts := Nesting.topLevelParts_append
    ((Nesting.separates_self_iff noMark).2 atTopLevel) after
  rw [atTopLevel.scan_eq] at parts
  have placed := placeParts_append separator start
    (Nesting.topLevelParts_ne_nil separator Nesting.outside before)
    (Nesting.topLevelParts_ne_nil separator Nesting.outside after)
  rw [Nesting.intercalate_topLevelParts] at placed
  dsimp only [splitTopLevel]
  rw [parts]
  exact placed

/-- Splitting at top level is exact. There is one part more than there are separators; in
turns they follow one another from the beginning of the slice to its end and make up its
text; the separators are those outside quotes and brackets, and all of them; a part is not
split any further; and what is in front of a separator at top level is split independently of
what is behind it. -/
theorem splitTopLevel_exact (noMark : Nesting.isMark separator = false) (s : Slice) :
    let split := s.splitTopLevel separator
    let pieces := alternate split.parts split.separators
    split.parts.length = split.separators.length + 1 ∧
      Contiguous s.start pieces s.stop ∧
      pieces.flatMap (·.text) = s.text ∧
      (∀ cut, cut ∈ split.separators ↔ ∃ before after, s.text = before ++ separator :: after ∧
        Nesting.AtTopLevel before ∧ cut = ⟨[separator], s.start + byteLength before⟩) ∧
      (∀ part ∈ split.parts, part.splitTopLevel separator = ⟨[part], []⟩) ∧
      ∀ before after, s.text = before ++ separator :: after → Nesting.AtTopLevel before →
        let cut := s.start + byteLength before
        let left := splitTopLevel separator ⟨before, s.start⟩
        let right := splitTopLevel separator ⟨after, cut + separator.utf8Size⟩
        split = ⟨left.parts ++ right.parts,
          left.separators ++ ⟨[separator], cut⟩ :: right.separators⟩ := by
  rcases s with ⟨text, start⟩
  obtain ⟨lengths, follow, texts⟩ := placeParts_contiguous separator start
    (Nesting.topLevelParts_ne_nil separator Nesting.outside text)
  rw [Nesting.intercalate_topLevelParts] at follow texts
  refine ⟨lengths, follow, texts, fun cut => ?_, fun part mem => ?_, ?_⟩
  · refine (mem_separators_iff noMark).trans ?_
    simp only [Nesting.AtTopLevel, and_assoc]
  · rw [splitTopLevel, splitTopLevel_part mem]
    rfl
  · rintro before after rfl atTopLevel
    exact splitTopLevel_append noMark atTopLevel start

/-- A list whose second value has brackets and whose third is quoted. -/
theorem splitTopLevel_exact_nested :
    let s : Slice := ⟨"a=1,b=\x7bc,d\x7d,e=\"x,y".toList, 4⟩
    (s.splitTopLevel ',').separators = [⟨[','], 7⟩, ⟨[','], 15⟩] ∧
      ∀ part ∈ (s.splitTopLevel ',').parts, part.splitTopLevel ',' = ⟨[part], []⟩ :=
  ⟨by decide, (splitTopLevel_exact (by decide) _).2.2.2.2.1⟩

end Cuts

end Slice

end CommandScript
