import CommandScript.Proofs.Text.Split
import Mathlib.Logic.Relation

/-!
Slices stay anchored in their line.

A slice is derived from another by any of the cuts of the library, with offsets between two
characters where a cut takes offsets (`Slice.Derives`), and from that one by further cuts. Every
cut stands inside what it was cut out of, also where offsets are counted up over pieces that were
made first, so after any number of cuts the offsets of a slice still tell which bytes of the first
one are its text (`Slice.derived_anchored`).
-/

namespace CommandScript

/-! ## Bytes -/

/-- The bytes of a text in UTF-8. -/
def utf8 (cs : List Char) : List UInt8 :=
  cs.flatMap String.utf8EncodeChar

theorem utf8_append (cs ds : List Char) : utf8 (cs ++ ds) = utf8 cs ++ utf8 ds :=
  List.flatMap_append

theorem length_utf8 (cs : List Char) : (utf8 cs).length = byteLength cs := by
  induction cs with
  | nil => rfl
  | cons c cs ih =>
    rw [utf8, List.flatMap_cons, List.length_append, String.length_utf8EncodeChar, byteLength_cons]
    exact congrArg _ ih

/-- The bytes of a run of characters are those between the bytes in front of it and the bytes
behind it. -/
theorem extract_utf8 (before middle after : List Char) :
    (utf8 (before ++ middle ++ after)).extract (byteLength before)
      (byteLength before + byteLength middle) = utf8 middle := by
  rw [List.extract_eq_take_drop, utf8_append, utf8_append, List.append_assoc,
    List.drop_left' (length_utf8 before), Nat.add_sub_cancel_left,
    List.take_left' (length_utf8 middle)]

/-! ## Joining parts with a limit -/

/-- Parts from some index on may be joined first. -/
theorem intercalate_rejoin (separator : List Char) (n : Nat) (parts : List (List Char)) :
    separator.intercalate (rejoin separator n parts) = separator.intercalate parts := by
  unfold rejoin
  split
  · rfl
  · rename_i long
    have many : n < parts.length := by omega
    clear long
    induction n generalizing parts with
    | zero => exact List.intercalate_singleton
    | succ n ih =>
      cases parts with
      | nil => cases many
      | cons part parts =>
        have later : n < parts.length := Nat.lt_of_succ_lt_succ many
        have some : parts ≠ [] := List.ne_nil_of_length_pos (Nat.zero_lt_of_lt later)
        rw [List.take_succ_cons, List.drop_succ_cons, List.cons_append,
          List.intercalate_cons_of_ne_nil (by simp), List.intercalate_cons_of_ne_nil some,
          ih parts later]

namespace Slice

variable {s d : Slice}

/-! ## Cuts stand inside -/

theorem extract_within {start stop : Nat} (cut : s.IsCut start stop) :
    (s.extract start stop).Within s :=
  (takeBytes_within _ _).trans (dropBytes_suffixOf cut.starts).within

theorem charAt?_within {offset : Nat} (found : s.charAt? offset = some d) : d.Within s := by
  unfold charAt? at found
  split at found
  · rename_i boundary
    obtain ⟨c, first, rfl⟩ := Option.map_eq_some_iff.1 found
    obtain ⟨rest, text⟩ := List.head?_eq_some_iff.1 first
    have front : Within ⟨[c], s.start + offset⟩ (s.dropBytes offset) :=
      ⟨[], rest, text, rfl⟩
    exact front.trans (dropBytes_suffixOf boundary).within
  · cases found

theorem dropPrefix?_within {pattern : List Char} (found : s.dropPrefix? pattern = some d) :
    d.Within s := by
  unfold dropPrefix? at found
  split at found
  · obtain rfl := Option.some.inj found
    exact drop_within ..
  · cases found

theorem dropSuffix?_within {pattern : List Char} (found : s.dropSuffix? pattern = some d) :
    d.Within s := by
  unfold dropSuffix? at found
  split at found
  · obtain rfl := Option.some.inj found
    exact take_within ..
  · cases found

theorem mem_splitOnN_within {limit : Nat} {separator : List Char}
    (mem : d ∈ s.splitOnN limit separator) : d.Within s := by
  cases limit with
  | zero => cases mem
  | succ n =>
    have within := mem_place_within mem
    rwa [intercalate_rejoin, intercalate_partsOf] at within

/-! ## Pieces make up the whole -/

theorem map_text_place (gap start : Nat) (parts : List (List Char)) :
    (place gap start parts).map text = parts := by
  induction parts generalizing start with
  | nil => rfl
  | cons part parts ih => rw [place, List.map_cons, ih]

theorem intercalate_splitOn (separator : List Char) (s : Slice) :
    separator.intercalate ((s.splitOn separator).map text) = s.text := by
  rw [splitOn, map_text_place, intercalate_partsOf]

theorem intercalate_splitOnN {limit : Nat} (positive : 1 ≤ limit) (separator : List Char)
    (s : Slice) : separator.intercalate ((s.splitOnN limit separator).map text) = s.text := by
  cases limit with
  | zero => cases positive
  | succ n => rw [splitOnN, map_text_place, intercalate_rejoin, intercalate_partsOf]

theorem flatMap_chars_go (cs : List Char) (start : Nat) :
    (chars.go cs start).flatMap (fun piece => piece.2.text) = cs := by
  induction cs generalizing start with
  | nil => rfl
  | cons c cs ih => rw [chars.go, List.flatMap_cons, ih, List.singleton_append]

/-! ## Derived slices -/

/-- One slice is cut out of another. -/
inductive Derives (s : Slice) : Slice → Prop where
  | extract {start stop : Nat} (cut : s.IsCut start stop) : Derives s (s.extract start stop)
  | dropBytes {start : Nat} (boundary : s.isBoundary start = true) : Derives s (s.dropBytes start)
  | takeBytes {stop : Nat} (boundary : s.isBoundary stop = true) : Derives s (s.takeBytes stop)
  | emptyAt {offset : Nat} (boundary : s.isBoundary offset = true) : Derives s (s.emptyAt offset)
  | charAt {offset : Nat} {d : Slice} (found : s.charAt? offset = some d) : Derives s d
  | dropPrefix {pattern : List Char} {d : Slice} (found : s.dropPrefix? pattern = some d) :
    Derives s d
  | dropSuffix {pattern : List Char} {d : Slice} (found : s.dropSuffix? pattern = some d) :
    Derives s d
  | trim : Derives s s.trim
  | trimStart : Derives s s.trimStart
  | trimEnd : Derives s s.trimEnd
  | taken (p : Char → Bool) : Derives s (s.splitWhile p).1
  | rest (p : Char → Bool) : Derives s (s.splitWhile p).2
  | part {separator : List Char} {d : Slice} (mem : d ∈ s.splitOn separator) : Derives s d
  | limitedPart {limit : Nat} {separator : List Char} {d : Slice}
    (mem : d ∈ s.splitOnN limit separator) : Derives s d
  | topLevelPart {separator : Char} {d : Slice} (mem : d ∈ (s.splitTopLevel separator).parts) :
    Derives s d
  | topLevelSeparator {separator : Char} {d : Slice}
    (mem : d ∈ (s.splitTopLevel separator).separators) : Derives s d
  | char {c : Char} {d : Slice} (mem : (c, d) ∈ s.chars) : Derives s d

/-- Every cut stands inside what it is cut out of. -/
theorem Derives.within (derives : s.Derives d) : d.Within s := by
  cases derives with
  | extract cut => exact extract_within cut
  | dropBytes boundary => exact (dropBytes_suffixOf boundary).within
  | takeBytes boundary => exact takeBytes_within ..
  | emptyAt boundary => exact extract_within ⟨Nat.le_refl _, boundary, boundary⟩
  | charAt found => exact charAt?_within found
  | dropPrefix found => exact dropPrefix?_within found
  | dropSuffix found => exact dropSuffix?_within found
  | trim => exact trim_within s
  | trimStart => exact (trimStart_suffixOf s).within
  | trimEnd => exact trimEnd_within s
  | taken p => exact splitWhile_fst_within p s
  | rest p => exact splitWhile_snd_within p s
  | part mem => exact mem_splitOn_within mem
  | limitedPart mem => exact mem_splitOnN_within mem
  | topLevelPart mem => exact mem_splitTopLevel_parts mem
  | topLevelSeparator mem => exact mem_splitTopLevel_separators mem
  | char mem => exact mem_chars_within mem

/-- One slice is cut out of another in any number of steps. -/
abbrev Derived : Slice → Slice → Prop :=
  Relation.ReflTransGen Derives

theorem Derived.within (derived : s.Derived d) : d.Within s := by
  induction derived with
  | refl => exact .refl s
  | tail _ last ih => exact last.within.trans ih

/-- The offsets of the slice lie in order between characters of another one and tell which of its
bytes are the text of the slice. -/
structure AnchoredIn (d s : Slice) : Prop where
  starts : s.start ≤ d.start
  stops : d.stop ≤ s.stop
  cut : s.IsCut (d.start - s.start) (d.stop - s.start)
  bytes : utf8 d.text = (utf8 s.text).extract (d.start - s.start) (d.stop - s.start)

theorem Within.anchored (within : d.Within s) : d.AnchoredIn s := by
  have starts := within.start_le
  have stops := within.stop_le
  obtain ⟨before, after, text, start⟩ := within
  have first : d.start - s.start = byteLength before := by omega
  have last : d.stop - s.start = byteLength before + byteLength d.text := by
    rw [stop_eq]
    omega
  refine ⟨starts, stops, ⟨?_, ?_, ?_⟩, ?_⟩
  · exact Nat.sub_le_sub_right d.start_le_stop _
  · rw [first]
    exact isBoundary_iff.2 ⟨before, d.text ++ after, by rw [text, List.append_assoc], rfl⟩
  · rw [last, ← byteLength_append]
    exact isBoundary_iff.2 ⟨before ++ d.text, after, text, rfl⟩
  · rw [first, last, text, extract_utf8]

/-- However a slice was derived, its offsets lie inside those of the first one and tell which bytes
of it are its text; and the pieces that it is cut into make it up again: what is taken and what is
left, the parts between separators, with a limit or without, and the single characters. -/
theorem derived_anchored (derived : s.Derived d) :
    d.AnchoredIn s ∧
    (∀ p, (d.splitWhile p).1.text ++ (d.splitWhile p).2.text = d.text) ∧
    (∀ separator : List Char,
      separator.intercalate ((d.splitOn separator).map text) = d.text) ∧
    (∀ (limit : Nat) (separator : List Char), 1 ≤ limit →
      separator.intercalate ((d.splitOnN limit separator).map text) = d.text) ∧
    d.chars.flatMap (fun piece => piece.2.text) = d.text :=
  ⟨derived.within.anchored, fun _ => List.takeWhile_append_dropWhile,
    fun separator => intercalate_splitOn separator d,
    fun _ separator positive => intercalate_splitOnN positive separator d,
    flatMap_chars_go d.text d.start⟩

/-- What stands behind an equals sign between characters of two bytes, in a line with blanks
around. -/
theorem derived_anchored_value :
    let s : Slice := ⟨[' ', 'é', '=', 'ü', ' '], 3⟩
    let d : Slice := ⟨['ü'], 7⟩
    s.Derived d ∧ d.AnchoredIn s ∧ ['='].intercalate ((s.splitOnN 2 ['=']).map text) = s.text := by
  intro s d
  have trimmed : s.Derived s.trim := .single .trim
  have behind : d ∈ s.trim.splitOn ['='] := by decide
  have derived : s.Derived d := trimmed.tail (.part behind)
  have whole : s.Derived s := .refl
  exact ⟨derived, (derived_anchored derived).1,
    (derived_anchored whole).2.2.2.1 2 ['='] (by decide)⟩

end Slice

end CommandScript
