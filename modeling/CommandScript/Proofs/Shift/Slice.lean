import CommandScript.PropertyList
import CommandScript.Resource
import CommandScript.Resource.Splitter
import CommandScript.Text.Cursor
import CommandScript.Text.Split

/-!
The same text further on in a line.

A slice that is shifted has the same text and stands some bytes further on. Every cut of it
is the cut of the slice itself, shifted by as much, and what depends on the text alone does not
change. The same goes for what is made of slices: cursors, captures, entries and ids.
-/

namespace CommandScript

namespace Slice

variable (k n : Nat) (s : Slice)

/-! ## What depends on the text alone -/

@[simp] theorem text_shift : (s.shift k).text = s.text :=
  rfl

@[simp] theorem isEmpty_shift : (s.shift k).isEmpty = s.isEmpty :=
  rfl

@[simp] theorem front?_shift : (s.shift k).front? = s.front? :=
  rfl

@[simp] theorem find?_shift (c : Char) : (s.shift k).find? c = s.find? c :=
  rfl

@[simp] theorem findClosing?_shift : (s.shift k).findClosing? = s.findClosing? :=
  rfl

/-! ## Cuts -/

@[simp] theorem span_shift : (s.shift k).span = s.span.shift k :=
  congrArg (Span.mk _) (Nat.add_assoc ..)

@[simp] theorem take_shift : (s.shift k).take n = (s.take n).shift k :=
  rfl

@[simp] theorem drop_shift : (s.shift k).drop n = (s.drop n).shift k :=
  congrArg (Slice.mk _) (Nat.add_assoc ..)

@[simp] theorem takeBytes_shift : (s.shift k).takeBytes n = (s.takeBytes n).shift k :=
  rfl

@[simp] theorem dropBytes_shift : (s.shift k).dropBytes n = (s.dropBytes n).shift k :=
  congrArg (Slice.mk _) (Nat.add_assoc ..)

@[simp] theorem extract_shift (start stop : Nat) :
    (s.shift k).extract start stop = (s.extract start stop).shift k := by
  rw [extract, dropBytes_shift, takeBytes_shift, extract]

@[simp] theorem splitWhile_shift (p : Char → Bool) :
    (s.shift k).splitWhile p = ((s.splitWhile p).1.shift k, (s.splitWhile p).2.shift k) :=
  congrArg (fun start => (_, Slice.mk _ start)) (Nat.add_assoc ..)

@[simp] theorem trimStart_shift : (s.shift k).trimStart = s.trimStart.shift k := by
  rw [trimStart, splitWhile_shift, trimStart]

@[simp] theorem trimEnd_shift : (s.shift k).trimEnd = s.trimEnd.shift k :=
  rfl

@[simp] theorem trim_shift : (s.shift k).trim = s.trim.shift k := by
  rw [trim, trimStart_shift, trimEnd_shift, trim]

@[simp] theorem dropPrefix?_shift (pattern : List Char) :
    (s.shift k).dropPrefix? pattern = (s.dropPrefix? pattern).map (shift k) := by
  unfold dropPrefix?
  rw [drop_shift, apply_ite (Option.map (shift k))]
  rfl

theorem chars_go_shift (start : Nat) (cs : List Char) :
    chars.go cs (k + start) = (chars.go cs start).map (Prod.map id (shift k)) := by
  induction cs generalizing start with
  | nil => rfl
  | cons c cs ih =>
    rw [chars.go, chars.go, List.map_cons, ← ih, Nat.add_assoc]
    rfl

@[simp] theorem chars_shift : (s.shift k).chars = s.chars.map (Prod.map id (shift k)) :=
  chars_go_shift ..

@[simp] theorem cover_shift (first last : Slice) :
    Span.cover (first.shift k) (last.shift k) = (Span.cover first last).shift k := by
  have stop : (last.shift k).stop = k + last.stop := Nat.add_assoc ..
  have start : (first.shift k).start = k + first.start := rfl
  rw [Span.cover, stop, start, Nat.add_max_add_left]
  rfl

/-! ## Parts -/

theorem place_shift (gap start : Nat) (parts : List (List Char)) :
    place gap (k + start) parts = (place gap start parts).map (shift k) := by
  induction parts generalizing start with
  | nil => rfl
  | cons part parts ih =>
    rw [place, place, List.map_cons, ← ih, Nat.add_assoc, Nat.add_assoc, Nat.add_assoc]
    rfl

@[simp] theorem splitOn_shift (separator : List Char) :
    (s.shift k).splitOn separator = (s.splitOn separator).map (shift k) :=
  place_shift ..

end Slice

/-- The parts and separators further on. -/
def TopLevelSplit.shift (k : Nat) (split : TopLevelSplit) : TopLevelSplit :=
  ⟨split.parts.map (Slice.shift k), split.separators.map (Slice.shift k)⟩

theorem Slice.placeParts_cons (separator : Char) (start : Nat) (part next : List Char)
    (parts : List (List Char)) :
    let cut := start + byteLength part
    let later := placeParts separator (cut + separator.utf8Size) (next :: parts)
    placeParts separator start (part :: next :: parts) =
      ⟨⟨part, start⟩ :: later.parts, ⟨[separator], cut⟩ :: later.separators⟩ :=
  rfl

theorem Slice.placeParts_shift (k start : Nat) (separator : Char) (parts : List (List Char)) :
    placeParts separator (k + start) parts = (placeParts separator start parts).shift k := by
  induction parts generalizing start with
  | nil => rfl
  | cons part parts ih =>
    cases parts with
    | nil => rfl
    | cons next parts =>
      have later := ih (start + byteLength part + separator.utf8Size)
      rw [placeParts_cons, placeParts_cons, Nat.add_assoc k, Nat.add_assoc k, later]
      rfl

@[simp] theorem Slice.splitTopLevel_shift (k : Nat) (separator : Char) (s : Slice) :
    (s.shift k).splitTopLevel separator = (s.splitTopLevel separator).shift k :=
  placeParts_shift ..

/-! ## What is made of slices -/

/-- The entry further on. -/
def PropertyEntry.shift (k : Nat) (entry : PropertyEntry) : PropertyEntry :=
  ⟨entry.key.shift k, entry.value.shift k⟩

/-- The list further on. -/
def PropertyList.shift (k : Nat) (list : PropertyList) : PropertyList :=
  ⟨list.entries.map (PropertyEntry.shift k), list.rest.shift k⟩

/-- The id further on. -/
def ResourceId.shift (k : Nat) (id : ResourceId) : ResourceId :=
  ⟨id.isTag, id.space.map (Slice.shift k), id.path.shift k⟩

/-- The captures further on, under the same names. -/
def Captures.shift (k : Nat) (captures : Captures) : Captures :=
  ⟨captures.entries.map (Prod.map id (Slice.shift k))⟩

/-- What is left further on. -/
def Leftover.shift (k : Nat) (left : Leftover) : Leftover :=
  ⟨left.rest.shift k, left.goOn, left.captures.shift k⟩

namespace Cursor

/-- The cursor further on. -/
def shift (k : Nat) (c : Cursor) : Cursor :=
  ⟨c.whole.shift k, c.rest.shift k⟩

variable (k : Nat) (c : Cursor)

@[simp] theorem rest_shift : (c.shift k).rest = c.rest.shift k :=
  rfl

@[simp] theorem seek_shift (rest : Slice) :
    (c.shift k).seek (rest.shift k) = (c.seek rest).shift k :=
  rfl

@[simp] theorem currentSlice_shift : (c.shift k).currentSlice = c.currentSlice.shift k :=
  rfl

@[simp] theorem advance_shift : (c.shift k).advance = c.advance.shift k :=
  congrArg (Cursor.mk _) (Slice.drop_shift ..)

@[simp] theorem readWhile_shift (p : Char → Bool) :
    (c.shift k).readWhile p = ((c.readWhile p).1.shift k, (c.readWhile p).2.shift k) := by
  simp [readWhile]

@[simp] theorem skipBlanks_shift : (c.shift k).skipBlanks = c.skipBlanks.shift k := by
  simp [skipBlanks]

end Cursor

end CommandScript
