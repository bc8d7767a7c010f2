import CommandScript.Proofs.CompoundTag.Completeness

/-!
What a reading highlights.

Where a text stands at a known offset, a step that passes it without a remark highlights known
spans of it (`Reading.Emits`). Steps that do so one behind the other highlight the spans of both
(`Reading.Emits.bind`), so the whole report of a reader on a text of a known shape is put together
from the reports of its steps, as it is here for a tag of one entry whose value is quoted
(`CompoundTag.readWhole_entry`).
-/

namespace CommandScript

namespace Reading

open Cursor

variable {α β : Type} {x : Reading α} {f : α → Reading β} {n : Nat} {text more after : List Char}
  {a : α} {b : β} {tokens others : List SemanticToken}

/-- In front of a given text, at an offset, the step passes another one and reports nothing but
some tokens. -/
def Emits (x : Reading α) (n : Nat) (text after : List Char) (a : α)
    (tokens : List SemanticToken) : Prop :=
  ∀ c : Cursor, c.rest = ⟨text ++ after, n⟩ → x c = ⟨some (a, c.past text after), ⟨[], [], tokens⟩⟩

/-! ## Steps -/

theorem Emits.bind (first : x.Emits n text (more ++ after) a tokens)
    (next : (f a).Emits (n + byteLength text) more after b others) :
    (x >>= f).Emits n (text ++ more) after b (tokens ++ others) := by
  intro c front
  rw [List.append_assoc] at front
  have behind : (c.past text (more ++ after)).rest = ⟨more ++ after, n + byteLength text⟩ := by
    simp only [past, seek, front]
  rw [run_bind, first c front, Reported.bind_mk]
  dsimp only
  rw [next _ behind, past_past]
  rfl

/-- Nothing is left for the second step. -/
theorem Emits.still (first : x.Emits n text after a tokens)
    (next : (f a).Emits (n + byteLength text) [] after b others) :
    (x >>= f).Emits n text after b (tokens ++ others) := by
  have both : (x >>= f).Emits n (text ++ []) after b (tokens ++ others) := Emits.bind first next
  rwa [List.append_nil] at both

/-- The first step passes nothing and is silent. -/
theorem Emits.after_silent (first : x.Emits n [] (text ++ after) a [])
    (next : (f a).Emits n text after b tokens) : (x >>= f).Emits n text after b tokens :=
  Emits.bind first next

/-- Nothing is passed where nothing is taken. -/
theorem past_nil {c : Cursor} (front : c.rest = ⟨[] ++ after, n⟩) : c.past [] after = c := by
  rcases c with ⟨whole, rest⟩
  simp only [List.nil_append] at front
  simp [past, seek, front]

theorem emits_pure (a : α) (n : Nat) (after : List Char) :
    (Pure.pure a : Reading α).Emits n [] after a [] := by
  rintro c front
  rw [past_nil front]
  rfl

/-- What is seen in front of the texts decides on the next step. -/
theorem Emits.after_look {g : Cursor → α}
    (seen : ∀ c : Cursor, c.rest = ⟨text ++ after, n⟩ → g c = a)
    (next : (f a).Emits n text after b tokens) : (look g >>= f).Emits n text after b tokens := by
  intro c front
  rw [look_bind, seen c front]
  exact next c front

theorem emits_readWhile {p : Char → Bool} (all : ∀ ch ∈ text, p ch = true) (stops : Stops p after)
    (n : Nat) : (readWhile p).Emits n text after ⟨text, n⟩ [] := by
  intro c front
  have whole : c.rest.text = text ++ after := congrArg Slice.text front
  rw [readWhile, move, Cursor.readWhile, Slice.splitWhile_eq all stops whole, front]
  simp only [past, seek, front]
  rfl

theorem emits_skipBlanks (stops : Stops Charset.isBlank after) (n : Nat) :
    skipBlanks.Emits n [] after () [] := by
  intro c front
  have whole : c.rest.text = [] ++ after := congrArg Slice.text front
  rw [skipBlanks, move, Cursor.skipBlanks, Cursor.readWhile,
    Slice.splitWhile_eq (fun _ mem => absurd mem List.not_mem_nil) stops whole]
  rfl

theorem emits_token (span : Span) (kind : Highlight) (n : Nat) (after : List Char) :
    (token span kind).Emits n [] after () [⟨span, kind⟩] := by
  intro c front
  rw [past_nil front]
  rfl

/-- A character that is there is passed, and highlighted if it has a kind. -/
theorem emits_expect (ch : Char) (kind : Option Highlight) (n : Nat) (after : List Char) :
    (expect ch kind).Emits n [ch] after ()
      (kind.toList.map fun kind => ⟨⟨n, n + byteLength [ch]⟩, kind⟩) := by
  intro c front
  have whole : c.rest.text = ch :: after := congrArg Slice.text front
  have found : c.current? = some ch := congrArg List.head? whole
  have current : c.currentSlice.span = ⟨n, n + byteLength [ch]⟩ := by
    simp only [currentSlice, front, Slice.take, Slice.span, Slice.stop_eq]
    rfl
  unfold expect Cursor.expect
  rw [if_pos found, advance_eq_past whole]
  cases kind with
  | none => rfl
  | some kind =>
    dsimp only
    rw [current]
    rfl

/-- A quoted text is passed up to its closing quote. -/
theorem emits_readQuoted {quote : Char} {body : List Char} (isQuote : Charset.isQuote quote = true)
    (inside : QuotedBody quote body) (n : Nat) (after : List Char) :
    readQuoted.Emits n (quote :: (body ++ [quote])) after ⟨quote :: (body ++ [quote]), n⟩ [] := by
  intro c front
  have noEscape : '\\' ≠ quote := by
    rintro rfl
    exact absurd isQuote (by decide)
  have whole : c.rest.text = quote :: (body ++ quote :: after) := by
    rw [front]
    simp
  have taken : c.rest.take (2 + body.length) = ⟨quote :: (body ++ [quote]), n⟩ := by
    have length : 2 + body.length = (quote :: (body ++ [quote])).length := by
      simp
      omega
    rw [front, Slice.take, length, List.take_left]
  rw [CompoundTag.readQuoted_eq whole (inside.split noEscape after), taken]
  rfl

end Reading

/-! ## Tags of one entry -/

namespace CompoundTag

open Reading

variable {n : Nat} {text after : List Char}

/-- The span of a text at an offset. -/
def spanAt (n : Nat) (text : List Char) : Span :=
  ⟨n, n + byteLength text⟩

theorem emits_quotedOr {unquoted : Reading Unit} {quote : Char} {body : List Char}
    (kind : Highlight) (isQuote : Charset.isQuote quote = true) (inside : QuotedBody quote body)
    (n : Nat) (after : List Char) :
    (do
      if (← Reading.current?).any Charset.isQuote then
        let text ← readQuoted
        token text.span kind
      else
        unquoted : Reading Unit).Emits n (quote :: (body ++ [quote])) after ()
      [⟨spanAt n (quote :: (body ++ [quote])), kind⟩] := by
  refine .after_look (a := some quote) (fun c front => ?_) ?_
  · rw [Cursor.current?, front]
    rfl
  rw [if_pos (by simpa using isQuote)]
  exact (emits_readQuoted isQuote inside n after).still (emits_token _ _ _ _)

/-- A key is highlighted as one. -/
theorem emits_readKey (isScalar : IsScalar text) (stops : Stops Charset.isUnquoted after) (n : Nat) :
    readKey.Emits n text after () [⟨spanAt n text, .property⟩] := by
  cases isScalar with
  | quoted isQuote inside => exact emits_quotedOr .property isQuote inside n after
  | unquoted nonempty unquoted =>
    obtain ⟨first, rest, rfl⟩ := List.exists_cons_of_ne_nil nonempty
    have noQuote := Charset.isQuote_of_isUnquoted (unquoted first (List.mem_cons_self ..))
    refine .after_look (a := some first) (fun c front => ?_) ?_
    · rw [Cursor.current?, front]
      rfl
    rw [if_neg (by simp [noQuote])]
    exact (emits_readWhile unquoted stops n).still (emits_token _ _ _ _)

section Entry

variable {key body : List Char} {quote : Char}

/-- A quoted value is highlighted as one string. -/
theorem emits_readValue (isQuote : Charset.isQuote quote = true) (inside : QuotedBody quote body)
    (fuel n : Nat) (after : List Char) :
    (readValue (fuel + 1)).Emits n (quote :: (body ++ [quote])) after ()
      [⟨spanAt n (quote :: (body ++ [quote])), .string⟩] := by
  have noBlank : Charset.isBlank quote = false := by
    rcases Charset.isQuote_iff.1 isQuote with rfl | rfl <;> decide
  rw [readValue]
  refine (emits_skipBlanks (stops_cons noBlank _) n).after_silent ?_
  refine .after_look (a := some quote) (fun c front => ?_) ?_
  · rw [Cursor.current?, front]
    rfl
  rcases Charset.isQuote_iff.1 isQuote with rfl | rfl
  all_goals exact emits_quotedOr .string isQuote inside n after

/-- In front of a closing brace no comma is passed. -/
theorem emits_passComma_none (n : Nat) (after : List Char) :
    passComma.Emits n [] ('}' :: after) false [] := by
  have noComma : Reading.passComma.Emits n [] ('}' :: after) false [] := by
    refine (emits_skipBlanks (stops_cons (by decide) _) n).after_silent ?_
    refine .after_look (a := some '}') (fun c front => ?_) (emits_pure false n _)
    rw [Cursor.current?, front]
    rfl
  refine noComma.after_silent ?_
  rw [if_neg Bool.false_ne_true]
  exact emits_pure false n _

/-- The tokens of an entry at an offset: its key, the colon and its value. -/
def entryTokens (n : Nat) (key value : List Char) : List SemanticToken :=
  [⟨spanAt n key, .property⟩, ⟨spanAt (n + byteLength key) [':'], .operator⟩,
    ⟨spanAt (n + byteLength key + byteLength [':']) value, .string⟩]

/-- An entry with a quoted value that is the last one. -/
theorem emits_readEntries (isKey : IsScalar key) (isQuote : Charset.isQuote quote = true)
    (inside : QuotedBody quote body) (fuel n : Nat) (after : List Char) :
    (readEntries (fuel + 2)).Emits n (key ++ ':' :: quote :: (body ++ [quote])) ('}' :: after) ()
      (entryTokens n key (quote :: (body ++ [quote]))) := by
  obtain ⟨first, rest, isFirst, opening⟩ := isKey.opens
  have noBrace : first ≠ '}' := ne_closing_of_isOpening opening .entry
  rw [readEntries]
  refine .after_look (a := some first) (fun c front => ?_) ?_
  · rw [Cursor.current?, front, isFirst]
    rfl
  rw [if_neg (by simpa using noBrace)]
  have colon : Stops Charset.isUnquoted (':' :: quote :: (body ++ [quote]) ++ '}' :: after) :=
    stops_cons (by decide) _
  refine (emits_readKey isKey colon n).bind ?_
  refine (emits_skipBlanks (stops_cons (by decide) _) _).after_silent ?_
  refine (emits_expect ':' (some .operator) _ _).bind ?_
  refine (emits_readValue isQuote inside fuel _ _).still ?_
  refine (emits_passComma_none _ _).after_silent ?_
  rw [if_neg Bool.false_ne_true]
  exact emits_pure () _ _

/-- A tag with nothing but that entry. -/
theorem emits_readTag (isKey : IsScalar key) (isQuote : Charset.isQuote quote = true)
    (inside : QuotedBody quote body) (fuel n : Nat) :
    (readTag (fuel + 3)).Emits n
      (['{'] ++ ((key ++ ':' :: quote :: (body ++ [quote])) ++ ['}'])) [] ()
      (entryTokens (n + byteLength ['{']) key (quote :: (body ++ [quote]))) := by
  obtain ⟨first, rest, isFirst, opening⟩ := isKey.opens
  have noBlank : Stops Charset.isBlank
      ((key ++ ':' :: quote :: (body ++ [quote])) ++ ['}'] ++ []) := by
    rw [isFirst]
    exact stops_cons (isBlank_of_isOpening opening) _
  rw [readTag]
  refine (emits_expect '{' none n _).bind ?_
  refine (emits_skipBlanks noBlank _).after_silent ?_
  have entries : (readEntries (fuel + 2)).Emits (n + byteLength ['{'])
      (key ++ ':' :: quote :: (body ++ [quote])) (['}'] ++ []) () _ :=
    emits_readEntries isKey isQuote inside fuel _ []
  exact entries.bind (emits_expect '}' none _ _)

/-- A tag with a single entry whose value is quoted is read without a remark, with the key, the
colon and the value as its tokens. -/
theorem readWhole_entry {s : Slice} (isKey : IsScalar key) (isQuote : Charset.isQuote quote = true)
    (inside : QuotedBody quote body)
    (text : s.text = '{' :: (key ++ ':' :: quote :: (body ++ [quote]) ++ ['}'])) :
    (readWhole s).report =
      ⟨[], [], entryTokens (s.start + byteLength ['{']) key (quote :: (body ++ [quote]))⟩ := by
  have front : (Cursor.ofSlice s).rest =
      ⟨['{'] ++ ((key ++ ':' :: quote :: (body ++ [quote])) ++ ['}']) ++ [], s.start⟩ := by
    rw [List.append_nil]
    exact congrArg (Slice.mk · s.start) text
  unfold readWhole read
  rw [fuelFor, emits_readTag isKey isQuote inside _ s.start _ front]
  rfl

end Entry

end CompoundTag

end CommandScript
