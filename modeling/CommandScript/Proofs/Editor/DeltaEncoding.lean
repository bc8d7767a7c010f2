import CommandScript.Editor.DeltaEncoding
import CommandScript.Proofs.List

/-!
What an editor makes of encoded tokens.

An editor adds the numbers of a token to the place of the token before (`LineToken.decode`). That
gives back where every token stands, in the order of the encoding (`LineToken.decode_encode`).
The order is stable (`LineToken.StablySorted`), so the tokens in front of a line come first, and
they as well as those from that line on come in the order that they have without the others
(`LineToken.sort_split`). None of the differences in the encoding is negative, whatever the tokens
and their order (`LineToken.encodeFrom?_eq`), and hence nothing is lost
(`LineToken.encode_lossless`).
-/

namespace CommandScript

namespace LineToken

/-! ## The order of tokens -/

theorem before_iff {a b : LineToken} :
    a.before b = true ↔ a.line < b.line ∨ a.line = b.line ∧ a.column ≤ b.column := by
  simp only [before, SemanticToken.startsBefore, column, Bool.or_eq_true, Bool.and_eq_true,
    decide_eq_true_eq]

theorem before_trans (a b c : LineToken) (first : a.before b = true) (second : b.before c = true) :
    a.before c = true := by
  rw [before_iff] at *
  omega

theorem before_total (a b : LineToken) : (a.before b || b.before a) = true := by
  rw [Bool.or_eq_true, before_iff, before_iff]
  omega

/-- The tokens in the order of their places, those at the same place in the order that they had. -/
structure StablySorted (tokens sorted : List LineToken) : Prop where
  perm : sorted.Perm tokens
  ordered : sorted.Pairwise fun a b => a.line < b.line ∨ a.line = b.line ∧ a.column ≤ b.column
  stable : ∀ line column, sorted.filter (fun t => t.line = line ∧ t.column = column) =
    tokens.filter fun t => t.line = line ∧ t.column = column

theorem mergeSort_stablySorted (tokens : List LineToken) :
    StablySorted tokens (tokens.mergeSort before) where
  perm := List.mergeSort_perm tokens before
  ordered := (List.pairwise_mergeSort before_trans before_total tokens).imp before_iff.1
  stable line column := by
    -- All tokens at one place are in order as they are.
    rw [filter_mergeSort before_trans before_total]
    apply List.mergeSort_of_pairwise
    refine List.pairwise_of_forall_mem_list fun a memA b memB => before_iff.2 ?_
    obtain ⟨lineA, columnA⟩ := of_decide_eq_true (List.mem_filter.1 memA).2
    obtain ⟨lineB, columnB⟩ := of_decide_eq_true (List.mem_filter.1 memB).2
    omega

/-- The tokens in front of a line come before those from that line on. -/
theorem sort_split (line : Nat) (tokens : List LineToken) :
    tokens.mergeSort before =
      (tokens.filter fun t => t.line < line).mergeSort before ++
        (tokens.filter fun t => !decide (t.line < line)).mergeSort before := by
  have sorted := List.pairwise_mergeSort before_trans before_total tokens
  have ordered : (tokens.mergeSort before).Pairwise fun a b =>
      decide (b.line < line) = true → decide (a.line < line) = true := by
    refine sorted.imp fun {a b} ordered => ?_
    rw [before_iff] at ordered
    simp only [decide_eq_true_eq]
    omega
  rw [← filter_mergeSort before_trans before_total, ← filter_mergeSort before_trans before_total,
    filter_append_filter ordered]

/-! ## Decoding -/

/-- Where a token stands, as an editor sees it. -/
structure Placed where
  line : Nat
  column : Nat
  length : Nat
  kind : Nat
deriving DecidableEq, Repr

/-- What the editor is to see of a token. -/
def placed (t : LineToken) : Placed :=
  ⟨t.line, t.column, t.token.span.length, t.token.kind.index⟩

/-- The tokens that numbers stand for behind a token at the given line and column. A token on the
same line is counted on from that column, any other from the beginning of its line. -/
def decodeFrom (line column : Nat) : List Nat → List Placed
  | lineDelta :: columnDelta :: length :: kind :: _ :: numbers =>
    let next := if lineDelta = 0 then column + columnDelta else columnDelta
    ⟨line + lineDelta, next, length, kind⟩ :: decodeFrom (line + lineDelta) next numbers
  | _ => []

/-- The tokens that numbers stand for. -/
def decode (numbers : List Nat) : List Placed :=
  decodeFrom 0 0 numbers

theorem decodeFrom_encodeFrom {line column : Nat} {tokens : List LineToken}
    (sorted : tokens.Pairwise fun a b => a.before b = true)
    (behind : ∀ t ∈ tokens.head?, line < t.line ∨ line = t.line ∧ column ≤ t.column) :
    decodeFrom line column (encodeFrom line column tokens) = tokens.map placed := by
  induction tokens generalizing line column with
  | nil => rfl
  | cons t ts ih =>
    obtain ⟨first, later⟩ := List.pairwise_cons.1 sorted
    have rest : decodeFrom t.line t.column (encodeFrom t.line t.column ts) = ts.map placed :=
      ih later fun next head => before_iff.1 (first next (List.mem_of_mem_head? head))
    have place := behind t rfl
    have sameLine : line + (t.line - line) = t.line := by omega
    have sameColumn : (if t.line - line = 0 then
          column + (if t.line = line then t.column - column else t.column)
        else if t.line = line then t.column - column else t.column) = t.column := by
      split <;> split <;> omega
    simp only [encodeFrom, List.cons_append, List.nil_append, decodeFrom]
    rw [sameLine, sameColumn, rest]
    rfl

/-- An editor sees the tokens in their order where they are. -/
theorem decode_encode (tokens : List LineToken) :
    decode (encode tokens) = (tokens.mergeSort before).map placed :=
  decodeFrom_encodeFrom (List.pairwise_mergeSort before_trans before_total tokens)
    fun t _ => by omega

/-- An editor sees these tokens and no others. -/
theorem mem_decode_encode {tokens : List LineToken} {seen : Placed} :
    seen ∈ decode (encode tokens) ↔ ∃ t ∈ tokens, t.placed = seen := by
  rw [decode_encode, List.mem_map]
  simp only [List.mem_mergeSort]

/-! ## Exact differences -/

/-- The difference of two numbers, unless it is negative. -/
def minus? (a b : Nat) : Option Nat :=
  if b ≤ a then some (a - b) else none

/-- How far a token stands behind a column, unless it stands in front of it; on a new line that is
its own column. -/
def columnDelta? (lineDelta column : Nat) (t : LineToken) : Option Nat :=
  if lineDelta = 0 then minus? t.column column else some t.column

/-- The numbers of tokens in order, after a token at the given line and column, unless one of the
differences among them is negative. -/
def encodeFrom? (line column : Nat) : List LineToken → Option (List Nat)
  | [] => some []
  | t :: ts => do
    let lineDelta ← minus? t.line line
    let columnDelta ← columnDelta? lineDelta column t
    let length ← minus? t.token.span.stop t.token.span.start
    let numbers ← encodeFrom? t.line t.column ts
    return [lineDelta, columnDelta, length, t.token.kind.index, 0] ++ numbers

theorem minus?_of_le {a b : Nat} (le : b ≤ a) : minus? a b = some (a - b) :=
  if_pos le

/-- Tokens in order are encoded without a negative difference. -/
theorem encodeFrom?_eq {line column : Nat} {tokens : List LineToken}
    (sorted : tokens.Pairwise fun a b => a.before b = true)
    (proper : ∀ t ∈ tokens, t.token.span.start ≤ t.token.span.stop)
    (behind : ∀ t ∈ tokens.head?, line < t.line ∨ line = t.line ∧ column ≤ t.column) :
    encodeFrom? line column tokens = some (encodeFrom line column tokens) := by
  induction tokens generalizing line column with
  | nil => rfl
  | cons t ts ih =>
    obtain ⟨first, later⟩ := List.pairwise_cons.1 sorted
    obtain ⟨span, spans⟩ := List.forall_mem_cons.1 proper
    have rest : encodeFrom? t.line t.column ts = some (encodeFrom t.line t.column ts) :=
      ih later spans fun next head => before_iff.1 (first next (List.mem_of_mem_head? head))
    have place := behind t rfl
    have lineDelta : minus? t.line line = some (t.line - line) := minus?_of_le (by omega)
    have columnDelta : columnDelta? (t.line - line) column t =
        some (if t.line = line then t.column - column else t.column) := by
      unfold columnDelta?
      split
      · rw [if_pos (by omega), minus?_of_le (by omega)]
      · rw [if_neg (by omega)]
    have length : minus? t.token.span.stop t.token.span.start = some t.token.span.length :=
      minus?_of_le span
    rw [encodeFrom?, lineDelta, Option.bind_eq_bind, Option.bind_some, columnDelta,
      Option.bind_some, length, rest]
    rfl

/-! ## Five numbers for each token -/

theorem encodeFrom_length (line column : Nat) (tokens : List LineToken) :
    (encodeFrom line column tokens).length = 5 * tokens.length := by
  induction tokens generalizing line column with
  | nil => rfl
  | cons t ts ih =>
    simp only [encodeFrom, List.length_append, List.length_cons, List.length_nil, ih]
    omega

/-- The last number of each token is zero. -/
theorem getElem?_encodeFrom {i : Nat} {tokens : List LineToken} (inside : i < tokens.length)
    (line column : Nat) : (encodeFrom line column tokens)[5 * i + 4]? = some 0 := by
  induction tokens generalizing line column i with
  | nil => cases inside
  | cons t ts ih =>
    cases i with
    | zero => rfl
    | succ i =>
      have later := ih (Nat.lt_of_succ_lt_succ inside) t.line t.column
      rw [encodeFrom, List.getElem?_append_right (by simp; omega)]
      exact later

/-- Nothing is lost in the encoding of any tokens in any order. There are five numbers for each of
them, the last of which is zero, and an editor sees the tokens in the order of their places, those
at the same place in the order that they had. No difference that is taken on the way is negative. -/
theorem encode_lossless (tokens : List LineToken) :
    (encode tokens).length = 5 * tokens.length ∧
      (∀ i < tokens.length, (encode tokens)[5 * i + 4]? = some 0) ∧
        ∃ sorted, StablySorted tokens sorted ∧ decode (encode tokens) = sorted.map placed ∧
          ((∀ t ∈ tokens, t.token.span.start ≤ t.token.span.stop) →
            encodeFrom? 0 0 sorted = some (encode tokens)) := by
  have length : (tokens.mergeSort before).length = tokens.length := List.length_mergeSort tokens
  have sorted := List.pairwise_mergeSort before_trans before_total tokens
  refine ⟨?_, fun i inside => ?_, _, mergeSort_stablySorted tokens, decode_encode tokens,
    fun proper => ?_⟩
  · rw [encode, encodeFrom_length, length]
  · exact getElem?_encodeFrom (length.symm ▸ inside) 0 0
  · refine encodeFrom?_eq sorted (fun t mem => ?_) fun t _ => by omega
    exact proper t (List.mem_mergeSort.1 mem)

/-- Two lines out of order, and a token without text in front of another one. -/
theorem encode_lossless_unsorted :
    let tokens : List LineToken := [⟨1, ⟨⟨4, 5⟩, .number⟩⟩, ⟨0, ⟨⟨5, 5⟩, .keyword⟩⟩,
      ⟨0, ⟨⟨5, 7⟩, .selector⟩⟩, ⟨1, ⟨⟨0, 2⟩, .string⟩⟩]
    (∀ t ∈ tokens, t.token.span.start ≤ t.token.span.stop) ∧ ∃ sorted,
      StablySorted tokens sorted ∧ decode (encode tokens) = sorted.map placed ∧
        encodeFrom? 0 0 sorted = some (encode tokens) := by
  intro tokens
  have proper : ∀ t ∈ tokens, t.token.span.start ≤ t.token.span.stop := by decide
  obtain ⟨-, -, sorted, order, decoded, exact⟩ := encode_lossless tokens
  exact ⟨proper, sorted, order, decoded, exact proper⟩

end LineToken

end CommandScript
