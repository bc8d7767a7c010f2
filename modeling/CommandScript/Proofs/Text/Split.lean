import CommandScript.Proofs.Text.Slice
import CommandScript.Text.Nesting
import CommandScript.Text.Split
import Mathlib.Data.List.TakeWhile

/-!
Splitting loses nothing.

The parts of a text, joined by the separator again, are the text
(`intercalate_partsOf`, `intercalate_topLevelParts`), so a part that is placed
behind the parts and separators before it stands where its text does. Parts follow
one another with a separator in between (`placeParts_spread`), and the offsets that
a list is cut at lie between two characters. No part at top level can be cut any further
(`Nesting.topLevelParts_parts`).
-/

namespace CommandScript

/-! ## Joining parts -/

theorem consHead_ne_nil (c : Char) (parts : List (List Char)) : consHead c parts ≠ [] := by
  cases parts <;> simp [consHead]

theorem intercalate_consHead (separator : List Char) (c : Char) {parts : List (List Char)}
    (some : parts ≠ []) :
    separator.intercalate (consHead c parts) = c :: separator.intercalate parts := by
  cases parts with
  | nil => exact absurd rfl some
  | cons part parts =>
    cases parts with
    | nil => simp [consHead]
    | cons next parts => simp [consHead]

theorem partsFrom_ne_nil (separator : List Char) (skip : Nat) (cs : List Char) :
    partsFrom separator skip cs ≠ [] := by
  induction cs generalizing skip with
  | nil => cases skip <;> simp [partsFrom]
  | cons c cs ih =>
    cases skip with
    | succ skip => exact ih skip
    | zero =>
      rw [partsFrom]
      split
      · exact List.cons_ne_nil _ _
      · exact consHead_ne_nil _ _

/-- While characters of an occurrence are passed over, the parts make up what
follows it. -/
theorem intercalate_partsFrom {separator : List Char} (nonempty : separator ≠ []) (skip : Nat)
    (cs : List Char) :
    separator.intercalate (partsFrom separator skip cs) = cs.drop skip := by
  induction cs generalizing skip with
  | nil => cases skip <;> simp [partsFrom]
  | cons c cs ih =>
    cases skip with
    | succ skip => simpa [partsFrom] using ih skip
    | zero =>
      rw [partsFrom]
      split
      · rename_i found
        rcases List.isPrefixOf_iff_prefix.1 found with ⟨rest, text⟩
        rw [List.intercalate_cons_of_ne_nil (partsFrom_ne_nil _ _ _), ih, List.nil_append,
          List.drop_zero, ← text]
        cases separator with
        | nil => exact absurd rfl nonempty
        | cons d separator =>
          rcases List.cons.inj text with ⟨-, rfl⟩
          simp
      · rw [intercalate_consHead _ _ (partsFrom_ne_nil _ _ _), ih]
        simp

theorem intercalate_nil_separator (parts : List (List Char)) :
    List.intercalate [] parts = parts.flatten := by
  induction parts with
  | nil => rfl
  | cons part parts ih =>
    cases parts with
    | nil => simp
    | cons next parts =>
      rw [List.intercalate_cons_cons, ih, List.append_nil]
      rfl

/-- The parts joined by the separator are the text. -/
theorem intercalate_partsOf (separator text : List Char) :
    separator.intercalate (partsOf separator text) = text := by
  rw [partsOf]
  split
  · rename_i empty
    rw [List.isEmpty_iff.1 empty, intercalate_nil_separator]
    simp [← List.flatMap_def]
  · rename_i nonempty
    rw [intercalate_partsFrom (by simpa using nonempty), List.drop_zero]

namespace Slice

/-! ## Parts of a slice -/

/-- Parts that are placed behind one another, the separator between them, stand in
the text that they make up. -/
theorem mem_place_within {separator : List Char} {start : Nat} {parts : List (List Char)}
    {part : Slice} (mem : part ∈ place (byteLength separator) start parts) :
    part.Within ⟨separator.intercalate parts, start⟩ := by
  induction parts generalizing start with
  | nil => cases mem
  | cons first parts ih =>
    cases parts with
    | nil =>
      obtain rfl : part = ⟨first, start⟩ := by simpa [place] using mem
      rw [List.intercalate_singleton]
      exact Within.refl _
    | cons next parts =>
      rw [List.intercalate_cons_cons, List.append_assoc]
      rcases List.mem_cons.1 mem with rfl | later
      · exact ⟨[], separator ++ separator.intercalate (next :: parts), by simp, by simp⟩
      · refine (ih later).trans (SuffixOf.within ⟨first ++ separator, by simp, ?_⟩)
        simp [Nat.add_assoc]

theorem mem_splitOn_within {separator : List Char} {s part : Slice}
    (mem : part ∈ s.splitOn separator) : part.Within s := by
  have within := mem_place_within mem
  rwa [intercalate_partsOf] at within

/-- Of two parts, the first is the beginning of the slice, and the second follows it
after the separator. -/
theorem splitOn_pair {separator : List Char} {s first second : Slice}
    (pair : s.splitOn separator = [first, second]) :
    s.text = first.text ++ (separator ++ second.text) ∧ first.start = s.start ∧
      second.start = first.stop + byteLength separator := by
  have join := intercalate_partsOf separator s.text
  rw [splitOn] at pair
  generalize partsOf separator s.text = parts at pair join
  match parts, pair with
  | [part, next], pair =>
    simp only [place, List.cons.injEq, and_true] at pair
    rcases pair with ⟨rfl, rfl⟩
    rw [List.intercalate_cons_cons, List.intercalate_singleton, List.append_assoc] at join
    exact ⟨join.symm, rfl, rfl⟩

end Slice

/-! ## Occurrences of a separator -/

section Occurrences

variable {c : Char} {cs : List Char}

theorem partsFrom_of_not_mem {text : List Char} (absent : c ∉ text) :
    partsFrom (c :: cs) 0 text = [text] := by
  induction text with
  | nil => rfl
  | cons d text ih =>
    simp only [List.mem_cons, not_or] at absent
    simp [partsFrom, absent.1, ih absent.2, consHead]

/-- The characters that are to be passed over are. -/
theorem partsFrom_skip (separator passed after : List Char) :
    partsFrom separator passed.length (passed ++ after) = partsFrom separator 0 after := by
  induction passed with
  | nil => rfl
  | cons d passed ih => exact ih

/-- A text is cut behind what does not contain the first character of the separator. -/
theorem partsFrom_cut {before : List Char} (absent : c ∉ before) (cs after : List Char) :
    partsFrom (c :: cs) 0 (before ++ c :: (cs ++ after)) =
      before :: partsFrom (c :: cs) 0 after := by
  induction before with
  | nil =>
    have found : (c :: cs).isPrefixOf (c :: (cs ++ after)) = true :=
      List.isPrefixOf_iff_prefix.2 ⟨after, rfl⟩
    rw [List.nil_append, partsFrom, if_pos found]
    exact congrArg _ (partsFrom_skip ..)
  | cons d before ih =>
    simp only [List.mem_cons, not_or] at absent
    simp [partsFrom, absent.1, ih absent.2, consHead]

theorem partsFrom_append {before : List Char} (absent : c ∉ before) (after : List Char) :
    partsFrom [c] 0 (before ++ c :: after) = before :: partsFrom [c] 0 after :=
  partsFrom_cut absent [] after

end Occurrences

/-- A text is divided at its first separator in one way only. -/
theorem append_separator_inj {c : Char} {before before' after after' : List Char}
    (absent : c ∉ before) (absentToo : c ∉ before')
    (same : before ++ c :: after = before' ++ c :: after') :
    before = before' ∧ after = after' := by
  have parts := congrArg (partsFrom [c] 0) same
  rw [partsFrom_append absent, partsFrom_append absentToo] at parts
  obtain rfl := (List.cons.inj parts).1
  exact ⟨rfl, (List.cons.inj (List.append_cancel_left same)).2⟩

namespace Slice

/-- A slice without the first character of the separator is its only part. -/
theorem splitOn_of_not_mem {c : Char} {cs : List Char} {s : Slice} (absent : c ∉ s.text) :
    s.splitOn (c :: cs) = [s] := by
  have parts : partsOf (c :: cs) s.text = [s.text] := partsFrom_of_not_mem absent
  simp [splitOn, parts, place]

/-- A separator that occurs once makes two parts. -/
theorem splitOn_of_once {c : Char} {cs : List Char} {s : Slice} {before after : List Char}
    (text : s.text = before ++ c :: (cs ++ after)) (absent : c ∉ before) (absentToo : c ∉ after) :
    s.splitOn (c :: cs) =
      [⟨before, s.start⟩, ⟨after, s.start + byteLength before + byteLength (c :: cs)⟩] := by
  have parts : partsOf (c :: cs) s.text = [before, after] := by
    rw [text]
    exact (partsFrom_cut absent cs after).trans (congrArg _ (partsFrom_of_not_mem absentToo))
  simp [splitOn, parts, place]

theorem splitOn_of_mem_once {c : Char} {s : Slice} {before after : List Char}
    (text : s.text = before ++ c :: after) (absent : c ∉ before) (absentToo : c ∉ after) :
    s.splitOn [c] =
      [⟨before, s.start⟩, ⟨after, s.start + byteLength before + byteLength [c]⟩] :=
  splitOn_of_once text absent absentToo

/-- A single part is the whole slice. -/
theorem splitOn_single {separator : List Char} {s part : Slice}
    (single : s.splitOn separator = [part]) : part = s := by
  have join := intercalate_partsOf separator s.text
  rw [splitOn] at single
  generalize partsOf separator s.text = parts at single join
  match parts, single with
  | [text], single =>
    simp only [place, List.cons.injEq, and_true] at single
    rw [List.intercalate_singleton] at join
    rw [← single, join]

end Slice

/-! ## Parts at top level -/

namespace Nesting

theorem topLevelParts_ne_nil (separator : Char) (n : Nesting) (cs : List Char) :
    topLevelParts separator n cs ≠ [] := by
  cases cs with
  | nil => simp [topLevelParts]
  | cons c cs =>
    rw [topLevelParts]
    split
    · exact List.cons_ne_nil _ _
    · split <;> exact List.cons_ne_nil _ _

/-- The parts at top level joined by the separator are the text. -/
theorem intercalate_topLevelParts (separator : Char) (n : Nesting) (cs : List Char) :
    [separator].intercalate (topLevelParts separator n cs) = cs := by
  induction cs generalizing n with
  | nil => exact List.intercalate_singleton
  | cons c cs ih =>
    rw [topLevelParts]
    split
    · rename_i separates
      have same : c = separator := by
        simp only [Nesting.separates, Bool.and_eq_true, beq_iff_eq] at separates
        exact separates.1.1.1.2
      rw [List.intercalate_cons_of_ne_nil (topLevelParts_ne_nil _ _ _), ih, same]
      rfl
    · have some := topLevelParts_ne_nil separator (n.step c) cs
      have rest := ih (n.step c)
      split
      · rename_i none
        exact absurd none some
      · rename_i part parts split
        rw [split] at rest
        rw [← rest]
        exact intercalate_consHead [separator] c (List.cons_ne_nil part parts)

/-- Outside quotes nothing is escaped. -/
def Settled (n : Nesting) : Prop :=
  n.quote = none → n.escaped = false

theorem Settled.step {n : Nesting} (settled : n.Settled) (c : Char) : (n.step c).Settled := by
  rcases n with ⟨depth, quote, escaped⟩
  unfold Nesting.step
  cases quote with
  | none =>
    obtain rfl : escaped = false := settled rfl
    dsimp only
    split_ifs <;> exact fun _ => rfl
  | some quote =>
    dsimp only
    split_ifs with isEscaped isEscape closes
    · exact nofun
    · exact nofun
    · exact fun _ => eq_false_of_ne_true isEscaped
    · exact nofun

/-- Where a separator counts nothing is open. -/
theorem Settled.eq_outside {n : Nesting} {separator c : Char} (settled : n.Settled)
    (separates : n.separates separator c = true) : n = outside := by
  rcases n with ⟨depth, quote, escaped⟩
  obtain ⟨rfl, rfl⟩ : quote = none ∧ depth = 0 := by
    simp only [Nesting.separates, Bool.and_eq_true, Option.isNone_iff_eq_none, beq_iff_eq]
      at separates
    exact separates.1.1.1.1
  obtain rfl : escaped = false := settled rfl
  rfl

/-- No separator that counts is left in a part. -/
theorem topLevelParts_parts {n : Nesting} (separator : Char) (settled : n.Settled)
    (cs : List Char) :
    ∃ first others, n.topLevelParts separator cs = first :: others ∧
      n.topLevelParts separator first = [first] ∧
        ∀ part ∈ others, outside.topLevelParts separator part = [part] := by
  induction cs generalizing n with
  | nil => exact ⟨[], [], rfl, rfl, nofun⟩
  | cons c cs ih =>
    rw [topLevelParts]
    split
    · rename_i separates
      obtain ⟨first, others, cut, alone, each⟩ := ih settled
      refine ⟨[], _, rfl, rfl, ?_⟩
      rw [cut]
      rw [settled.eq_outside separates] at alone
      exact List.forall_mem_cons.2 ⟨alone, each⟩
    · rename_i goesOn
      obtain ⟨first, others, cut, alone, each⟩ := ih (settled.step c)
      rw [cut]
      refine ⟨c :: first, others, rfl, ?_, each⟩
      rw [topLevelParts, if_neg goesOn, alone]

/-- No bracket both opens and closes. -/
theorem not_isCloser {c : Char} (opens : isOpener c = true) : isCloser c = false := by
  simp only [isOpener, Bool.or_eq_true, beq_iff_eq] at opens
  rcases opens with rfl | rfl <;> rfl

/-- What stands before the closing bracket is the beginning of the text, and the
bracket follows it. -/
theorem beforeClosing?_eq_some {n : Nesting} {cs before : List Char}
    (found : n.beforeClosing? cs = some before) :
    ∃ c after, cs = before ++ c :: after ∧ (n.scan before).closesAll c = true := by
  induction cs generalizing n before with
  | nil => cases found
  | cons c cs ih =>
    rw [beforeClosing?] at found
    split at found
    · rename_i closes
      obtain rfl := Option.some.inj found
      exact ⟨c, cs, rfl, closes⟩
    · rcases Option.map_eq_some_iff.1 found with ⟨rest, later, rfl⟩
      obtain ⟨d, after, text, closes⟩ := ih later
      exact ⟨d, after, by rw [text, List.cons_append], closes⟩

end Nesting

namespace Slice

/-- Slices that follow one another between two offsets, with at least `gap` bytes
between two of them. -/
def Spread (gap : Nat) : Nat → List Slice → Nat → Prop
  | start, [], stop => start ≤ stop + gap
  | start, part :: parts, stop =>
    start ≤ part.start ∧ part.stop ≤ stop ∧ Spread gap (part.stop + gap) parts stop

/-- Slices that follow one another from some offset on do so from an earlier one. -/
theorem Spread.of_le {gap start later stop : Nat} {parts : List Slice}
    (spread : Spread gap later parts stop) (le : start ≤ later) : Spread gap start parts stop := by
  cases parts with
  | nil => exact Nat.le_trans le spread
  | cons part parts => exact ⟨Nat.le_trans le spread.1, spread.2⟩

/-- A part is placed in front of the others. -/
theorem placeParts_parts_cons (separator : Char) (start : Nat) (part : List Char)
    (parts : List (List Char)) :
    (placeParts separator start (part :: parts)).parts =
      ⟨part, start⟩ ::
        (placeParts separator (start + byteLength part + separator.utf8Size) parts).parts := by
  cases parts <;> rfl

/-- The parts keep their texts. -/
theorem map_text_placeParts (separator : Char) (start : Nat) (parts : List (List Char)) :
    (placeParts separator start parts).parts.map (·.text) = parts := by
  induction parts generalizing start with
  | nil => rfl
  | cons part parts ih => rw [placeParts_parts_cons, List.map_cons, ih]

/-- The parts at top level follow one another; each separator takes a byte. -/
theorem placeParts_spread (separator : Char) (start : Nat) (parts : List (List Char)) :
    Spread 1 start (placeParts separator start parts).parts
      (start + byteLength ([separator].intercalate parts)) := by
  induction parts generalizing start with
  | nil => exact Nat.le_add_right_of_le (Nat.le_add_right ..)
  | cons part parts ih =>
    cases parts with
    | nil =>
      rw [List.intercalate_singleton]
      exact ⟨Nat.le_refl _, Nat.le_refl _, Nat.le_refl _⟩
    | cons next parts =>
      have later := ih (start + byteLength part + separator.utf8Size)
      rw [List.intercalate_cons_cons, List.append_assoc]
      refine ⟨Nat.le_refl _, ?_, ?_⟩
      · simp only [stop_eq, byteLength_append]
        omega
      · have stop : start + byteLength part + separator.utf8Size +
              byteLength ([separator].intercalate (next :: parts)) =
            start + byteLength
              (part ++ ([separator] ++ [separator].intercalate (next :: parts))) := by
          simp only [byteLength_append, byteLength_cons, byteLength_nil]
          omega
        rw [stop] at later
        exact later.of_le (Nat.add_le_add_left separator.utf8Size_pos _)

/-- Parts and separators at top level stand in the text that they make up. -/
theorem placeParts_within (separator : Char) (start : Nat) (parts : List (List Char)) :
    let whole : Slice := ⟨[separator].intercalate parts, start⟩
    (∀ part ∈ (placeParts separator start parts).parts, part.Within whole) ∧
      ∀ cut ∈ (placeParts separator start parts).separators, cut.Within whole := by
  induction parts generalizing start with
  | nil => simp [placeParts]
  | cons part parts ih =>
    cases parts with
    | nil =>
      rw [List.intercalate_singleton]
      exact ⟨by simpa [placeParts] using Within.refl _, by simp [placeParts]⟩
    | cons next parts =>
      obtain ⟨partsWithin, cutsWithin⟩ := ih (start + byteLength part + separator.utf8Size)
      rw [List.intercalate_cons_cons, List.append_assoc]
      generalize [separator].intercalate (next :: parts) = rest at partsWithin cutsWithin ⊢
      have inner : SuffixOf ⟨rest, start + byteLength part + separator.utf8Size⟩
          ⟨part ++ ([separator] ++ rest), start⟩ :=
        ⟨part ++ [separator], by simp, by simp [Nat.add_assoc]⟩
      constructor
      · intro piece mem
        rcases List.mem_cons.1 mem with rfl | later
        · exact ⟨[], [separator] ++ rest, by simp, by simp⟩
        · exact (partsWithin piece later).trans inner.within
      · intro cut mem
        rcases List.mem_cons.1 mem with rfl | later
        · exact ⟨part, rest, by simp, rfl⟩
        · exact (cutsWithin cut later).trans inner.within

/-- The parts at top level of a slice follow one another inside it. -/
theorem splitTopLevel_spread (separator : Char) (s : Slice) :
    Spread 1 s.start (s.splitTopLevel separator).parts s.stop := by
  have spread := placeParts_spread separator s.start
    (Nesting.outside.topLevelParts separator s.text)
  rwa [Nesting.intercalate_topLevelParts] at spread

/-- The parts at top level of a slice make up its text. -/
theorem intercalate_splitTopLevel (separator : Char) (s : Slice) :
    [separator].intercalate ((s.splitTopLevel separator).parts.map (·.text)) = s.text := by
  rw [splitTopLevel, map_text_placeParts, Nesting.intercalate_topLevelParts]

/-- A part at top level cannot be split any further. -/
theorem splitTopLevel_part {separator : Char} {s part : Slice}
    (mem : part ∈ (s.splitTopLevel separator).parts) :
    Nesting.outside.topLevelParts separator part.text = [part.text] := by
  have ofText : part.text ∈ Nesting.outside.topLevelParts separator s.text := by
    rw [← map_text_placeParts separator s.start (Nesting.outside.topLevelParts separator s.text)]
    exact List.mem_map_of_mem mem
  have settled : Nesting.outside.Settled := fun _ => rfl
  obtain ⟨first, others, cut, alone, each⟩ :=
    Nesting.topLevelParts_parts separator settled s.text
  have all : ∀ text ∈ first :: others, Nesting.outside.topLevelParts separator text = [text] :=
    List.forall_mem_cons.2 ⟨alone, each⟩
  exact all part.text (cut ▸ ofText)

theorem mem_splitTopLevel_parts {separator : Char} {s part : Slice}
    (mem : part ∈ (s.splitTopLevel separator).parts) : part.Within s := by
  have within := (placeParts_within separator s.start _).1 part mem
  rwa [Nesting.intercalate_topLevelParts] at within

theorem mem_splitTopLevel_separators {separator : Char} {s cut : Slice}
    (mem : cut ∈ (s.splitTopLevel separator).separators) : cut.Within s := by
  have within := (placeParts_within separator s.start _).2 cut mem
  rwa [Nesting.intercalate_topLevelParts] at within

/-! ## Offsets of single characters -/

/-- The first occurrence of a character divides the slice. -/
theorem find?_eq_some {s : Slice} {c : Char} {offset : Nat} (found : s.find? c = some offset) :
    ∃ before after, s.text = before ++ c :: after ∧ offset = byteLength before := by
  rw [find?] at found
  split at found
  · rename_i contains
    refine ⟨s.text.takeWhile (· != c), (s.text.dropWhile (· != c)).drop 1, ?_,
      (Option.some.inj found).symm⟩
    have mem : c ∈ s.text := by simpa using contains
    have divided := List.takeWhile_append_dropWhile (p := (· != c)) (l := s.text)
    cases rest : s.text.dropWhile (· != c) with
    | nil =>
      have absent := List.dropWhile_eq_nil_iff.1 rest c mem
      simp at absent
    | cons d after =>
      have stopped : d = c := by
        have := List.head_dropWhile_not (· != c) (l := s.text) (by simp [rest])
        simpa [rest] using this
      rw [rest, stopped] at divided
      exact divided.symm
  · cases found

/-- The first occurrence is the one with no other in front of it. -/
theorem find?_of_not_mem {s : Slice} {c : Char} {before after : List Char}
    (text : s.text = before ++ c :: after) (absent : c ∉ before) :
    s.find? c = some (byteLength before) := by
  have others : ∀ d ∈ before, (d != c) = true :=
    fun d mem => bne_iff_ne.2 fun same => absent (same ▸ mem)
  have front : s.text.takeWhile (· != c) = before := by
    rw [text, List.takeWhile_append_of_pos others]
    simp
  have found : s.text.contains c = true := by simp [text]
  rw [find?, if_pos found, front]

/-- The closing bracket of a list divides the slice. -/
theorem findClosing?_eq_some {s : Slice} {offset : Nat} (found : s.findClosing? = some offset) :
    ∃ before c after, s.text = before ++ c :: after ∧ offset = byteLength before ∧
      (Nesting.outside.scan before).closesAll c = true := by
  rcases Option.map_eq_some_iff.1 found with ⟨before, bracket, rfl⟩
  obtain ⟨c, after, text, closes⟩ := Nesting.beforeClosing?_eq_some bracket
  exact ⟨before, c, after, text, rfl, closes⟩

end Slice

end CommandScript
