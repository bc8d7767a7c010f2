import CommandScript.Text.Slice
import Mathlib.Data.List.TakeWhile

/-!
Where the pieces of a slice stand.

Every cut of a slice yields a piece within it (`Slice.Within`), so whatever is
reported about a piece is reported about the slice as well (`Slice.Covers`). A
span that is covered by a whole line is one that an editor can show: its ends are
in order, inside the line and between two characters (`Span.IsCutOf`).
-/

namespace CommandScript

/-! ## Byte lengths -/

theorem byteLength_pos {cs : List Char} (nonempty : cs ≠ []) : 0 < byteLength cs := by
  cases cs with
  | nil => exact absurd rfl nonempty
  | cons c cs =>
    have positive := c.utf8Size_pos
    rw [byteLength_cons]
    omega

/-- A cut between two characters leaves what follows it. -/
theorem dropBytes_byteLength_append (cs ds : List Char) :
    dropBytes (byteLength cs) (cs ++ ds) = ds := by
  have whole := takeBytes_append_dropBytes (byteLength cs) (cs ++ ds)
  rw [takeBytes_byteLength_append] at whole
  exact List.append_cancel_left whole

/-! ## Ends of a text -/

/-- The text does not go on with such a character. -/
def Stops (p : Char → Bool) (text : List Char) : Prop :=
  ∀ ch ∈ text.head?, p ch = false

section Stops

variable {p : Char → Bool} {taken other rest after : List Char}

theorem stops_cons {c : Char} (fails : p c = false) (text : List Char) : Stops p (c :: text) := by
  rintro _ ⟨⟩
  exact fails

theorem stops_dropWhile (p : Char → Bool) (text : List Char) : Stops p (text.dropWhile p) := by
  intro ch front
  have stopped := List.head?_dropWhile_not p text
  rw [front] at stopped
  exact stopped

/-- Every text begins with all the characters up to where it stops. -/
theorem exists_stops (p : Char → Bool) (text : List Char) :
    ∃ taken rest, text = taken ++ rest ∧ (∀ ch ∈ taken, p ch = true) ∧ Stops p rest :=
  ⟨text.takeWhile p, text.dropWhile p, List.takeWhile_append_dropWhile.symm,
    List.all_eq_true.1 List.all_takeWhile, stops_dropWhile p text⟩

/-- A beginning of such characters goes no further than to where the text stops. -/
theorem length_le_of_stops (all : ∀ ch ∈ other, p ch = true) (stops : Stops p rest)
    (same : other ++ after = taken ++ rest) : other.length ≤ taken.length := by
  rcases List.append_eq_append_iff.1 same with ⟨more, rfl, -⟩ | ⟨more, rfl, rfl⟩
  · rw [List.length_append]
    exact Nat.le_add_right ..
  · cases more with
    | nil => exact Nat.le_of_eq (by rw [List.append_nil])
    | cons ch more =>
      have fails : p ch = false := stops ch rfl
      rw [all ch (List.mem_append_right _ (List.mem_cons_self ..))] at fails
      cases fails

/-- A text stops at one place only. -/
theorem stops_unique (all : ∀ ch ∈ taken, p ch = true) (stops : Stops p rest)
    (allToo : ∀ ch ∈ other, p ch = true) (stopsToo : Stops p after)
    (same : taken ++ rest = other ++ after) : taken = other ∧ rest = after :=
  List.append_inj same (Nat.le_antisymm (length_le_of_stops all stopsToo same)
    (length_le_of_stops allToo stops same.symm))

end Stops

/-- The text neither begins nor ends with a blank. -/
structure Trimmed (text : List Char) : Prop where
  first : Stops Charset.isBlank text
  last : ∀ ch ∈ text.getLast?, Charset.isBlank ch = false

theorem trimmed_of_noBlank {text : List Char}
    (noBlank : ∀ c ∈ text, Charset.isBlank c = false) : Trimmed text where
  first c mem := noBlank c (List.mem_of_mem_head? mem)
  last c mem := noBlank c (List.mem_of_getLast? mem)

theorem Trimmed.around {before after : List Char} (first : Trimmed before)
    (second : Trimmed after) (nonempty : before ≠ []) (nonemptyToo : after ≠ [])
    (between : List Char) : Trimmed (before ++ (between ++ after)) where
  first := by
    obtain ⟨c, rest, rfl⟩ := List.exists_cons_of_ne_nil nonempty
    exact first.first
  last := by
    rw [← List.append_assoc, List.getLast?_append, List.getLast?_eq_some_getLast nonemptyToo,
      Option.some_or, ← List.getLast?_eq_some_getLast]
    exact second.last

/-- Behind a character that fails the condition, nothing changes how far a text satisfies it. -/
theorem splitWhile_around {p : Char → Bool} {c : Char} (before after : List Char)
    (fails : p c = false) : (before ++ c :: after).takeWhile p = before.takeWhile p ∧
      (before ++ c :: after).dropWhile p = before.dropWhile p ++ c :: after := by
  induction before with
  | nil => simp [fails]
  | cons d before ih => cases holds : p d <;> simp [holds, ih]

/-! ## Spans of a line -/

namespace Slice

/-! ## Pieces -/

theorem Within.refl (s : Slice) : s.Within s :=
  ⟨[], [], by simp, by simp⟩

/-- A piece of a slice begins no earlier. -/
theorem Within.start_le {d s : Slice} (within : d.Within s) : s.start ≤ d.start := by
  rcases within with ⟨before, after, -, start⟩
  omega

theorem start_le_stop (s : Slice) : s.start ≤ s.stop :=
  Nat.le_add_right ..

theorem stop_eq (s : Slice) : s.stop = s.start + byteLength s.text :=
  rfl

theorem start_lt_stop {s : Slice} (nonempty : s.text ≠ []) : s.start < s.stop := by
  have positive := byteLength_pos nonempty
  rw [stop_eq]
  omega

theorem start_lt_stop_of_isEmpty {s : Slice} (nonempty : s.isEmpty = false) : s.start < s.stop :=
  start_lt_stop (by simpa [isEmpty] using nonempty)

/-- What is left of a slice ends where the slice does. -/
theorem SuffixOf.stop_eq {d s : Slice} (suffix : d.SuffixOf s) : d.stop = s.stop := by
  rcases suffix with ⟨before, text, start⟩
  rw [Slice.stop_eq, Slice.stop_eq, text, start, byteLength_append, Nat.add_assoc]

theorem SuffixOf.start_le_stop {d s : Slice} (suffix : d.SuffixOf s) : d.start ≤ s.stop := by
  rw [← suffix.stop_eq]
  exact d.start_le_stop

/-- Of two ends of a slice, the one that begins later is an end of the other. -/
theorem SuffixOf.of_start_le {d e s : Slice} (outer : d.SuffixOf s) (inner : e.SuffixOf s)
    (le : d.start ≤ e.start) : e.SuffixOf d := by
  rcases outer with ⟨before, text, start⟩
  rcases inner with ⟨before', text', start'⟩
  have lengths : byteLength before ≤ byteLength before' := by omega
  rw [text] at text'
  rcases List.append_eq_append_iff.1 text' with ⟨more, rfl, rest⟩ | ⟨more, rfl, rest⟩
  · refine ⟨more, rest, ?_⟩
    rw [start', start, byteLength_append, Nat.add_assoc]
  · -- Here the one that begins later has the shorter text in front, so nothing in between.
    have nothing : more = [] := by
      apply Classical.byContradiction
      intro something
      have positive := byteLength_pos something
      rw [byteLength_append] at lengths
      omega
    subst nothing
    exact ⟨[], by simpa using rest.symm, by simp [start, start']⟩

/-- Of two pieces of a slice, one that begins and ends between the ends of the other is a piece of
it. -/
theorem Within.of_ends {d e s : Slice} (inner : d.Within s) (outer : e.Within s)
    (starts : e.start ≤ d.start) (stops : d.stop ≤ e.stop) : d.Within e := by
  rcases inner with ⟨before, after, text, start⟩
  rcases outer with ⟨before', after', text', start'⟩
  have innerRest : SuffixOf ⟨d.text ++ after, d.start⟩ s :=
    ⟨before, by rw [text, List.append_assoc], start⟩
  have outerRest : SuffixOf ⟨e.text ++ after', e.start⟩ s :=
    ⟨before', by rw [text', List.append_assoc], start'⟩
  obtain ⟨more, rest, reach⟩ := outerRest.of_start_le innerRest starts
  dsimp only at rest reach
  rw [stop_eq, stop_eq, reach] at stops
  rw [← List.append_assoc] at rest
  rcases List.append_eq_append_iff.1 rest with ⟨beyond, split, -⟩ | ⟨left, split, -⟩
  · -- What the inner piece has behind the outer one is nothing.
    have nothing : beyond = [] := by
      apply Classical.byContradiction
      intro something
      have positive := byteLength_pos something
      have lengths := congrArg byteLength split
      simp only [byteLength_append] at lengths
      omega
    rw [nothing, List.append_nil] at split
    exact ⟨more, [], by rw [List.append_nil, split], reach⟩
  · exact ⟨more, left, split, reach⟩

theorem take_within (n : Nat) (s : Slice) : (s.take n).Within s :=
  ⟨[], s.text.drop n, by simp [take], by simp [take]⟩

theorem drop_within (n : Nat) (s : Slice) : (s.drop n).Within s :=
  (drop_suffixOf n s).within

/-- The two sides of a cut meet. -/
theorem take_stop (n : Nat) (s : Slice) : (s.take n).stop = (s.drop n).start :=
  rfl

theorem drop_drop (m n : Nat) (s : Slice) : (s.drop m).drop n = s.drop (m + n) := by
  simp only [drop, List.drop_drop, List.take_add, byteLength_append, Nat.add_assoc]

theorem splitWhile_fst_within (p : Char → Bool) (s : Slice) : (s.splitWhile p).1.Within s :=
  ⟨[], s.text.dropWhile p, by simp [splitWhile], by simp [splitWhile]⟩

theorem splitWhile_snd_within (p : Char → Bool) (s : Slice) : (s.splitWhile p).2.Within s :=
  (splitWhile_suffixOf p s).within

/-- What is read ends where the rest begins. -/
theorem splitWhile_stop (p : Char → Bool) (s : Slice) :
    (s.splitWhile p).1.stop = (s.splitWhile p).2.start :=
  rfl

/-- Characters that satisfy a condition are read up to the first that does not. -/
theorem splitWhile_eq {p : Char → Bool} {s : Slice} {text after : List Char}
    (all : ∀ ch ∈ text, p ch = true) (stops : Stops p after) (front : s.text = text ++ after) :
    s.splitWhile p = (⟨text, s.start⟩, ⟨after, s.start + byteLength text⟩) := by
  have taken : (text ++ after).takeWhile p = text ∧ (text ++ after).dropWhile p = after := by
    rw [List.takeWhile_append_of_pos all, List.dropWhile_append_of_pos all]
    cases after with
    | nil => simp
    | cons ch after => simp [stops ch rfl]
  simp [splitWhile, front, taken]

theorem trimStart_suffixOf (s : Slice) : s.trimStart.SuffixOf s :=
  splitWhile_suffixOf _ s

theorem trimEnd_within (s : Slice) : s.trimEnd.Within s := by
  refine ⟨[], (s.text.reverse.takeWhile Charset.isBlank).reverse, ?_, by simp [trimEnd]⟩
  rw [trimEnd, List.nil_append, ← List.reverse_append, List.takeWhile_append_dropWhile,
    List.reverse_reverse]

theorem trim_within (s : Slice) : s.trim.Within s :=
  (trimEnd_within _).trans (trimStart_suffixOf s).within

/-- What remains between blanks is the text in their midst, at its place. -/
theorem trim_of_surrounded {before text after : List Char} (start : Nat)
    (blanks : ∀ c ∈ before ++ after, Charset.isBlank c = true) (trimmed : Trimmed text)
    (nonempty : text ≠ []) :
    trim ⟨before ++ text ++ after, start⟩ = ⟨text, start + byteLength before⟩ := by
  obtain ⟨blanksBefore, blanksAfter⟩ := List.forall_mem_append.1 blanks
  have front : Stops Charset.isBlank (text ++ after) := by
    obtain ⟨c, rest, rfl⟩ := List.exists_cons_of_ne_nil nonempty
    exact trimmed.first
  have rest : trimStart ⟨before ++ text ++ after, start⟩ =
      ⟨text ++ after, start + byteLength before⟩ :=
    congrArg Prod.snd (splitWhile_eq blanksBefore front (List.append_assoc ..))
  have last : text.reverse.dropWhile Charset.isBlank = text.reverse := by
    cases reversed : text.reverse with
    | nil => rfl
    | cons c rest =>
      have noBlank := trimmed.last c (by rw [← List.head?_reverse, reversed]; rfl)
      rw [List.dropWhile_cons_of_neg (by simp [noBlank])]
  have behind : ∀ c ∈ after.reverse, Charset.isBlank c = true :=
    fun c mem => blanksAfter c (List.mem_reverse.1 mem)
  rw [trim, rest, trimEnd]
  dsimp only
  rw [List.reverse_append, List.dropWhile_append_of_pos behind, last, List.reverse_reverse]

theorem trimStart_stop (s : Slice) : s.trimStart.stop = s.stop :=
  (trimStart_suffixOf s).stop_eq

theorem trimStart_trimStart (s : Slice) : s.trimStart.trimStart = s.trimStart := by
  have front : Stops Charset.isBlank s.trimStart.text := stops_dropWhile Charset.isBlank s.text
  have none : ∀ c ∈ ([] : List Char), Charset.isBlank c = true := nofun
  have nothing := splitWhile_eq none front (List.nil_append s.trimStart.text).symm
  have rest := congrArg Prod.snd nothing
  exact rest

/-- Around a character that is no blank, a slice is trimmed on either side on its own. -/
theorem trim_around {before after : List Char} {c : Char} {s : Slice}
    (text : s.text = before ++ c :: after) (noBlank : Charset.isBlank c = false) :
    let front := trimStart ⟨before, s.start⟩
    let back := trimEnd ⟨after, s.start + byteLength before + c.utf8Size⟩
    s.trim = ⟨front.text ++ c :: back.text, front.start⟩ := by
  intro front back
  obtain ⟨taken, left⟩ := splitWhile_around before after noBlank
  have rest : s.trimStart = ⟨front.text ++ c :: after, front.start⟩ := by
    simp only [front, trimStart, splitWhile, text, taken, left]
  have last := (splitWhile_around after.reverse front.text.reverse noBlank).2
  rw [trim, rest, trimEnd]
  simp only [back, trimEnd, List.reverse_append, List.reverse_cons, List.append_assoc,
    List.singleton_append, last, List.reverse_reverse]

/-- A slice that is not all blanks is not trimmed to nothing. -/
theorem trim_isEmpty_eq_false {s : Slice} {c : Char} (mem : c ∈ s.text)
    (noBlank : Charset.isBlank c = false) : s.trim.isEmpty = false := by
  have rest : s.text.dropWhile Charset.isBlank ≠ [] := fun nothing => by
    rw [List.dropWhile_eq_nil_iff.1 nothing c mem] at noBlank
    cases noBlank
  have front := List.head_dropWhile_not Charset.isBlank rest
  have kept : (s.text.dropWhile Charset.isBlank).reverse.dropWhile Charset.isBlank ≠ [] := by
    intro nothing
    have blank := List.dropWhile_eq_nil_iff.1 nothing _ (List.mem_reverse.2 (List.head_mem rest))
    rw [front] at blank
    cases blank
  simpa [isEmpty, trim, trimStart, trimEnd, splitWhile] using kept

/-- Blanks are trimmed to nothing. -/
theorem trim_isEmpty_of_blank {s : Slice} (blank : ∀ c ∈ s.text, Charset.isBlank c = true) :
    s.trim.isEmpty = true := by
  have nothing := List.dropWhile_eq_nil_iff.2 blank
  simp [isEmpty, trim, trimStart, trimEnd, splitWhile, nothing]

/-- The character pieces of a text stand where their characters do. -/
theorem mem_chars_go_within {cs : List Char} {start : Nat} {piece : Char × Slice}
    (mem : piece ∈ chars.go cs start) : piece.2.Within ⟨cs, start⟩ := by
  induction cs generalizing start with
  | nil => cases mem
  | cons c cs ih =>
    rcases List.mem_cons.1 mem with rfl | later
    · exact ⟨[], cs, rfl, rfl⟩
    · refine (ih later).trans (SuffixOf.within ⟨[c], rfl, ?_⟩)
      simp

theorem mem_chars_within {s : Slice} {piece : Char × Slice} (mem : piece ∈ s.chars) :
    piece.2.Within s :=
  mem_chars_go_within mem

/-! ## Cuts by bytes -/

/-- The bytes from `start` up to `stop` can be cut out of the slice: both offsets
lie between two characters of it, in order. -/
structure IsCut (s : Slice) (start stop : Nat) : Prop where
  ordered : start ≤ stop
  starts : s.isBoundary start = true
  stops : s.isBoundary stop = true

theorem isBoundary_iff {s : Slice} {offset : Nat} :
    s.isBoundary offset = true ↔
      ∃ before after, s.text = before ++ after ∧ offset = byteLength before := by
  constructor
  · intro boundary
    refine ⟨CommandScript.takeBytes offset s.text, CommandScript.dropBytes offset s.text, ?_, ?_⟩
    · rw [takeBytes_append_dropBytes]
    · simpa [isBoundary] using (beq_iff_eq.1 boundary).symm
  · rintro ⟨before, after, text, rfl⟩
    rw [isBoundary, text, takeBytes_byteLength_append]
    exact beq_self_eq_true _

/-- What follows an offset between two characters is the end of the slice. -/
theorem dropBytes_suffixOf {s : Slice} {offset : Nat} (boundary : s.isBoundary offset = true) :
    (s.dropBytes offset).SuffixOf s := by
  obtain ⟨before, after, text, rfl⟩ := isBoundary_iff.1 boundary
  refine ⟨before, ?_, rfl⟩
  rw [dropBytes, text, dropBytes_byteLength_append]

theorem takeBytes_within (n : Nat) (s : Slice) : (s.takeBytes n).Within s :=
  ⟨[], CommandScript.dropBytes n s.text, by simp [takeBytes], by simp [takeBytes]⟩

/-- What is taken up to an offset between two characters ends there. -/
theorem takeBytes_stop {s : Slice} {offset : Nat} (boundary : s.isBoundary offset = true) :
    (s.takeBytes offset).stop = s.start + offset := by
  rw [stop_eq, takeBytes, beq_iff_eq.1 boundary]

/-! ## Covered spans -/

/-- The span is that of a piece of the slice. -/
def Covers (s : Slice) (span : Span) : Prop :=
  ∃ piece : Slice, piece.Within s ∧ piece.span = span

theorem Within.covers {d s : Slice} (within : d.Within s) : s.Covers d.span :=
  ⟨d, within, rfl⟩

theorem covers_self (s : Slice) : s.Covers s.span :=
  (Within.refl s).covers

/-- What a piece covers, the slice covers. -/
theorem Covers.mono {d s : Slice} {span : Span} (within : d.Within s) (covers : d.Covers span) :
    s.Covers span := by
  rcases covers with ⟨piece, inner, rfl⟩
  exact (inner.trans within).covers

theorem Covers.bounds {s : Slice} {span : Span} (covers : s.Covers span) :
    s.start ≤ span.start ∧ span.start ≤ span.stop ∧ span.stop ≤ s.stop := by
  rcases covers with ⟨piece, within, rfl⟩
  exact ⟨within.start_le, piece.start_le_stop, within.stop_le⟩

/-- The stretch from one piece to a later one is covered as well. -/
theorem covers_of_ends {s first last : Slice} (firstWithin : first.Within s)
    (lastWithin : last.Within s) (le : first.start ≤ last.stop) :
    s.Covers ⟨first.start, last.stop⟩ := by
  rcases firstWithin with ⟨before, after, text, start⟩
  rcases lastWithin with ⟨before', after', text', start'⟩
  have stop : last.stop = s.start + byteLength (before' ++ last.text) := by
    rw [stop_eq, start', byteLength_append, Nat.add_assoc]
  have inner : SuffixOf ⟨after', last.stop⟩ s := ⟨before' ++ last.text, text', stop⟩
  have outer : SuffixOf ⟨first.text ++ after, first.start⟩ s :=
    ⟨before, by rw [text, List.append_assoc], start⟩
  obtain ⟨between, split, reach⟩ := outer.of_start_le inner le
  refine ⟨⟨between, first.start⟩, ⟨before, after', ?_, start⟩, ?_⟩
  · simp only at split
    rw [text, List.append_assoc, List.append_assoc, split]
  · rw [Slice.span, stop_eq]
    exact congrArg (Span.mk first.start) reach.symm

/-- The stretch from one piece to another is covered in any order. -/
theorem covers_cover {s first last : Slice} (firstWithin : first.Within s)
    (lastWithin : last.Within s) : s.Covers (Span.cover first last) := by
  rw [Span.cover]
  rcases Nat.le_total first.start last.stop with le | le
  · rw [Nat.max_eq_left le]
    exact covers_of_ends firstWithin lastWithin le
  · rw [Nat.max_eq_right le]
    exact covers_of_ends firstWithin ((take_within 0 first).trans firstWithin) (Nat.le_refl _)

/-- An offset between two characters of the slice is an empty stretch of it. -/
theorem covers_emptyAt {d s : Slice} (within : d.Within s) : s.Covers (.emptyAt d.start) :=
  ⟨d.take 0, (take_within 0 d).trans within, by simp [span, stop_eq, take, Span.emptyAt]⟩

end Slice

end CommandScript
