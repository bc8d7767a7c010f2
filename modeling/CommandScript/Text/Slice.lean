import CommandScript.Text.Charset

/-!
Slices of a line that remember where they stand.

Every reader of the library works on a `Slice`: some characters of a line
together with the byte offset of the first of them. Offsets count the bytes of
the UTF-8 encoding, so that a span can be handed to an editor as it is. A slice
is only ever made from another by cutting whole characters off, hence a derived
slice stands inside its parent (`Slice.Within`), and what it spans is text of
the line.
-/

namespace CommandScript

/-! ## Spans and byte lengths -/

/-- A stretch of a line, from the byte at `start` up to the byte before `stop`. -/
structure Span where
  start : Nat
  stop : Nat
deriving DecidableEq, Repr

namespace Span

/-- The number of bytes covered. -/
def length (s : Span) : Nat :=
  s.stop - s.start

/-- The empty stretch in front of the byte at `offset`. -/
def emptyAt (offset : Nat) : Span :=
  ⟨offset, offset⟩

/-- The stretch from the beginning of the line up to `stop`. -/
def upTo (stop : Nat) : Span :=
  ⟨0, stop⟩

/-- The same stretch in a line that has `k` more bytes in front. -/
def shift (k : Nat) (s : Span) : Span :=
  ⟨k + s.start, k + s.stop⟩

end Span

/-- The length of a text in bytes of UTF-8. -/
def byteLength (cs : List Char) : Nat :=
  cs.foldr (fun c length => c.utf8Size + length) 0

@[simp] theorem byteLength_nil : byteLength [] = 0 :=
  rfl

@[simp] theorem byteLength_cons (c : Char) (cs : List Char) :
    byteLength (c :: cs) = c.utf8Size + byteLength cs :=
  rfl

@[simp] theorem byteLength_append (cs ds : List Char) :
    byteLength (cs ++ ds) = byteLength cs + byteLength ds := by
  induction cs with
  | nil => simp
  | cons c cs ih => simp [ih, Nat.add_assoc]

/-- The longest beginning of a text that fits into `n` bytes. -/
def takeBytes : Nat → List Char → List Char
  | _, [] => []
  | n, c :: cs => if c.utf8Size ≤ n then c :: takeBytes (n - c.utf8Size) cs else []

/-- What follows `takeBytes n` of a text. -/
def dropBytes : Nat → List Char → List Char
  | _, [] => []
  | n, c :: cs => if c.utf8Size ≤ n then dropBytes (n - c.utf8Size) cs else c :: cs

/-- A cut loses no character. -/
@[simp] theorem takeBytes_append_dropBytes (n : Nat) (cs : List Char) :
    takeBytes n cs ++ dropBytes n cs = cs := by
  induction cs generalizing n with
  | nil => simp [takeBytes, dropBytes]
  | cons c cs ih =>
    by_cases fits : c.utf8Size ≤ n
    · simp [takeBytes, dropBytes, fits, ih]
    · simp [takeBytes, dropBytes, fits]

/-- What is taken fits. -/
theorem byteLength_takeBytes_le (n : Nat) (cs : List Char) :
    byteLength (takeBytes n cs) ≤ n := by
  induction cs generalizing n with
  | nil => simp [takeBytes]
  | cons c cs ih =>
    by_cases fits : c.utf8Size ≤ n
    · have rest := ih (n - c.utf8Size)
      simp only [takeBytes, fits, if_true, byteLength_cons]
      omega
    · simp [takeBytes, fits]

/-- A cut between two characters falls there. -/
theorem takeBytes_byteLength_append (cs ds : List Char) :
    takeBytes (byteLength cs) (cs ++ ds) = cs := by
  induction cs with
  | nil =>
    cases ds with
    | nil => rfl
    | cons d ds =>
      have positive := d.utf8Size_pos
      simp only [List.nil_append, byteLength_nil, takeBytes]
      rw [if_neg (by omega)]
  | cons c cs ih => simp [takeBytes, ih]

/-! ## Slices -/

/-- Some characters of a line and the byte offset at which they begin. -/
structure Slice where
  text : List Char
  start : Nat
deriving DecidableEq, Repr

namespace Slice

/-- A whole line. -/
def ofLine (line : List Char) : Slice :=
  ⟨line, 0⟩

/-- Length in bytes. -/
def length (s : Slice) : Nat :=
  byteLength s.text

/-- The offset of the first byte after the slice. -/
def stop (s : Slice) : Nat :=
  s.start + s.length

/-- Where the slice stands in its line. -/
def span (s : Slice) : Span :=
  ⟨s.start, s.stop⟩

/-- No character is left. -/
def isEmpty (s : Slice) : Bool :=
  s.text.isEmpty

/-- The characters as a string. -/
def toString (s : Slice) : String :=
  String.ofList s.text

instance : ToString Slice := ⟨toString⟩

/-- The slice reads `word`. -/
def is (s : Slice) (word : String) : Bool :=
  s.text == word.toList

/-- The slice in a line that has `k` more bytes in front. -/
def shift (k : Nat) (s : Slice) : Slice :=
  ⟨s.text, k + s.start⟩

/-- `d` stands inside `s`: its text is a run of the characters of `s`, and its
offset is that of the run. -/
def Within (d s : Slice) : Prop :=
  ∃ before after, s.text = before ++ d.text ++ after ∧ d.start = s.start + byteLength before

/-- `d` is what is left of `s` after some of its first characters. -/
def SuffixOf (d s : Slice) : Prop :=
  ∃ before, s.text = before ++ d.text ∧ d.start = s.start + byteLength before

theorem SuffixOf.refl (s : Slice) : s.SuffixOf s :=
  ⟨[], by simp, by simp⟩

theorem SuffixOf.trans {r d s : Slice} (inner : r.SuffixOf d) (outer : d.SuffixOf s) :
    r.SuffixOf s := by
  obtain ⟨before, text, start⟩ := outer
  obtain ⟨more, text', start'⟩ := inner
  exact ⟨before ++ more, by simp [text, text'], by simp [start, start', Nat.add_assoc]⟩

theorem SuffixOf.within {d s : Slice} (suffix : d.SuffixOf s) : d.Within s := by
  obtain ⟨before, text, start⟩ := suffix
  exact ⟨before, [], by simp [text], start⟩

theorem Within.trans {r d s : Slice} (inner : r.Within d) (outer : d.Within s) :
    r.Within s := by
  obtain ⟨before, after, text, start⟩ := outer
  obtain ⟨before', after', text', start'⟩ := inner
  exact ⟨before ++ before', after' ++ after, by simp [text, text'],
    by simp [start, start', Nat.add_assoc]⟩

/-- A slice inside another ends no later. -/
theorem Within.stop_le {d s : Slice} (within : d.Within s) : d.stop ≤ s.stop := by
  obtain ⟨before, after, text, start⟩ := within
  simp only [stop, length, text, start, byteLength_append]
  omega

/-! ## Cutting by characters -/

/-- The first `n` characters. -/
def take (n : Nat) (s : Slice) : Slice :=
  ⟨s.text.take n, s.start⟩

/-- What follows the first `n` characters. -/
def drop (n : Nat) (s : Slice) : Slice :=
  ⟨s.text.drop n, s.start + byteLength (s.text.take n)⟩

/-- The first character. -/
def front? (s : Slice) : Option Char :=
  s.text.head?

/-- The longest beginning whose characters satisfy `p`, and the rest. -/
def splitWhile (p : Char → Bool) (s : Slice) : Slice × Slice :=
  let taken := s.text.takeWhile p
  (⟨taken, s.start⟩, ⟨s.text.dropWhile p, s.start + byteLength taken⟩)

/-- What follows some characters is the end of the slice. -/
theorem drop_suffixOf (n : Nat) (s : Slice) : (s.drop n).SuffixOf s :=
  ⟨s.text.take n, by simp [drop], rfl⟩

/-- What `splitWhile` leaves is the end of the slice. -/
theorem splitWhile_suffixOf (p : Char → Bool) (s : Slice) : (s.splitWhile p).2.SuffixOf s :=
  ⟨s.text.takeWhile p, by simp [splitWhile], rfl⟩

/-- Every character with its own slice. -/
def chars (s : Slice) : List (Char × Slice) :=
  go s.text s.start
where
  /-- The characters of `cs`, the first of which stands at `start`. -/
  go : List Char → Nat → List (Char × Slice)
    | [], _ => []
    | c :: cs, start => (c, ⟨[c], start⟩) :: go cs (start + c.utf8Size)

/-! ## Cutting by bytes

An offset is relative to the slice and has to lie between two characters. -/

/-- The first `n` bytes. -/
def takeBytes (n : Nat) (s : Slice) : Slice :=
  ⟨CommandScript.takeBytes n s.text, s.start⟩

/-- What follows the first `n` bytes. -/
def dropBytes (n : Nat) (s : Slice) : Slice :=
  ⟨CommandScript.dropBytes n s.text, s.start + n⟩

/-- The bytes from `start` up to the one before `stop`. -/
def extract (start stop : Nat) (s : Slice) : Slice :=
  (s.dropBytes start).takeBytes (stop - start)

/-- The empty slice in front of the byte at `offset`. -/
def emptyAt (offset : Nat) (s : Slice) : Slice :=
  s.extract offset offset

/-- The offset lies between two characters of the slice, or at one of its ends. -/
def isBoundary (offset : Nat) (s : Slice) : Bool :=
  byteLength (CommandScript.takeBytes offset s.text) == offset

/-- The character that begins at `offset`, as a slice. -/
def charAt? (offset : Nat) (s : Slice) : Option Slice :=
  if s.isBoundary offset then
    (CommandScript.dropBytes offset s.text).head?.map fun c => ⟨[c], s.start + offset⟩
  else
    none

/-- The offset of the first `c`. -/
def find? (c : Char) (s : Slice) : Option Nat :=
  if s.text.contains c then some (byteLength (s.text.takeWhile (· != c))) else none

/-! ## Beginnings, endings and blanks -/

/-- The slice begins with `pattern`. -/
def startsWith (pattern : List Char) (s : Slice) : Bool :=
  pattern.isPrefixOf s.text

/-- The slice ends with `pattern`. -/
def endsWith (pattern : List Char) (s : Slice) : Bool :=
  pattern.isSuffixOf s.text

/-- What follows `pattern` at the beginning of the slice. -/
def dropPrefix? (pattern : List Char) (s : Slice) : Option Slice :=
  if s.startsWith pattern then some (s.drop pattern.length) else none

/-- What precedes `pattern` at the end of the slice. -/
def dropSuffix? (pattern : List Char) (s : Slice) : Option Slice :=
  if s.endsWith pattern then some (s.take (s.text.length - pattern.length)) else none

/-- The slice without the blanks at its beginning. -/
def trimStart (s : Slice) : Slice :=
  (s.splitWhile Charset.isBlank).2

/-- The slice without the blanks at its end. -/
def trimEnd (s : Slice) : Slice :=
  ⟨(s.text.reverse.dropWhile Charset.isBlank).reverse, s.start⟩

/-- The slice without the blanks at either end. -/
def trim (s : Slice) : Slice :=
  s.trimStart.trimEnd

end Slice

/-- The stretch from the beginning of one slice to the end of another, empty
when the second ends before the first begins. -/
def Span.cover (first last : Slice) : Span :=
  ⟨first.start, max last.stop first.start⟩

end CommandScript
