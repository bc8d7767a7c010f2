import CommandScript.Proofs.Token.Reader
import Mathlib.Algebra.GroupWithZero.Nat

/-!
Readers of one line that are called in turn.

All readers of a line come from the one in front of its first token. A fork adds a reader
that stands at the same place, the other calls move the reader they are made on. A call
leaves every other reader as it is, and takes its own at most further along the line
(`getElem?_callAt`); over any number of calls this adds up to `getElem?_runCalls`. What
a reader has read and what remains make up the line wherever it stands (`OnLine.partition`).
-/

namespace CommandScript.TokenReader

/-! ## Calls -/

/-- A call on a reader. -/
inductive Call where
  | fork
  | consume
  | consumeWord
  | consumeAll
deriving DecidableEq, Repr

/-- The reader after a call on it. -/
def called (r : TokenReader) : Call → TokenReader
  | .fork => r
  | .consume => r.consume.2
  | .consumeWord => r.consumeWord.2
  | .consumeAll => r.consumeAll

/-- The readers that a call adds. -/
def added (r : TokenReader) : Call → List TokenReader
  | .fork => [r]
  | _ => []

/-- The readers after a call on the one at a place. Those that it adds come last; where no
reader is, nothing happens. -/
def callAt (readers : List TokenReader) (place : Nat) (call : Call) : List TokenReader :=
  match readers[place]? with
  | some r => readers.set place (r.called call) ++ r.added call
  | none => readers

/-- The readers after some calls, each on the reader at a place. -/
def runCalls (readers : List TokenReader) (calls : List (Nat × Call)) : List TokenReader :=
  calls.foldl (fun readers call => callAt readers call.1 call.2) readers

/-! ## What a reader has read -/

/-- The reader goes over all the tokens of a line and has passed no more than there are. -/
structure OnLine (line : List Char) (r : TokenReader) : Prop where
  tokens : r.tokens = Token.ofLine line
  line : r.line = line
  index : r.index ≤ r.tokens.length

section OnLine

variable {line : List Char} {r after : TokenReader}

theorem onLine_ofLine (line : List Char) : (ofLine line).OnLine line :=
  ⟨rfl, rfl, Nat.zero_le _⟩

theorem OnLine.valid (onLine : r.OnLine line) : r.Valid where
  tokens := ⟨[], onLine.tokens.trans (congrArg Token.ofLine onLine.line.symm)⟩
  index := onLine.index

theorem Ahead.onLine (ahead : after.Ahead r) (onLine : r.OnLine line) : after.OnLine line :=
  ⟨ahead.tokens.trans onLine.tokens, ahead.line.trans onLine.line, ahead.bound⟩

theorem byteLength_flatMap (tokens : List Token) :
    byteLength (tokens.flatMap (·.slice.text)) = (tokens.map (·.slice.length)).sum := by
  induction tokens with
  | nil => rfl
  | cons token tokens ih =>
    rw [List.flatMap_cons, byteLength_append, ih]
    rfl

/-- The tokens that are read and the text that remains are the line, and the offset lies
between them. -/
theorem OnLine.partition (onLine : r.OnLine line) :
    r.offset = ((r.tokens.take r.index).map (·.slice.length)).sum ∧
      (r.tokens.take r.index).flatMap (·.slice.text) ++ r.remaining.text = line := by
  obtain ⟨before, text, divided, offset, unread⟩ := onLine.valid.unread
  have whole := (Token.ofLine_tiles line).flatMap_text
  rw [← onLine.tokens, ← List.take_append_drop r.index r.tokens, List.flatMap_append,
    unread.flatMap_text, ← onLine.line, divided] at whole
  have read : (r.tokens.take r.index).flatMap (·.slice.text) = before :=
    List.append_cancel_right whole
  have remains : r.remaining.text = text := by
    change dropBytes r.offset r.line = text
    rw [offset, divided, dropBytes_byteLength_append]
  refine ⟨?_, ?_⟩
  · rw [offset, ← read, byteLength_flatMap]
  · rw [read, remains, ← divided, onLine.line]

end OnLine

/-! ## Runs of calls -/

section Runs

variable {line : List Char} {readers : List TokenReader} {r : TokenReader} {place : Nat}

/-- A call takes a reader further or leaves it where it is. -/
theorem Valid.called_ahead (valid : r.Valid) (call : Call) : (r.called call).Ahead r := by
  cases call with
  | fork => exact valid.ahead_self
  | consume => exact valid.advance_ahead
  | consumeWord =>
    change r.consumeWord.2.Ahead r
    unfold consumeWord
    split
    · exact valid.advance_ahead
    · exact valid.ahead_self
  | consumeAll => exact valid.consumeAll_ahead

/-- A fork adds the reader as it is, and no other call adds one. -/
theorem eq_of_mem_added {call : Call} {other : TokenReader} (mem : other ∈ r.added call) :
    other = r := by
  cases call with
  | fork => exact List.mem_singleton.1 mem
  | consume | consumeWord | consumeAll => cases mem

theorem callAt_eq (found : readers[place]? = some r) (call : Call) :
    callAt readers place call = readers.set place (r.called call) ++ r.added call := by
  rw [callAt, found]

/-- After a call the reader at a place is the one that was there, unless the call was on it. -/
theorem getElem?_callAt (found : readers[place]? = some r) (target : Nat) (call : Call) :
    (callAt readers target call)[place]? = some (if target = place then r.called call else r) := by
  have bound : place < readers.length := (List.getElem?_eq_some_iff.1 found).1
  cases hit : readers[target]? with
  | none =>
    have elsewhere : target ≠ place := by
      rintro rfl
      rw [found] at hit
      cases hit
    rw [callAt, hit, if_neg elsewhere, found]
  | some called =>
    rw [callAt_eq hit, List.getElem?_append_left (by rwa [List.length_set])]
    by_cases same : target = place
    · subst same
      obtain rfl := Option.some.inj (found.symm.trans hit)
      rw [List.getElem?_set_self bound, if_pos rfl]
    · rw [List.getElem?_set_ne same, if_neg same, found]

/-- A call keeps all readers on the line. -/
theorem callAt_onLine (onLine : ∀ r ∈ readers, r.OnLine line) (target : Nat) (call : Call) :
    ∀ r ∈ callAt readers target call, r.OnLine line := by
  cases hit : readers[target]? with
  | none =>
    rw [callAt, hit]
    exact onLine
  | some called =>
    have calledOnLine := onLine called (List.mem_of_getElem? hit)
    rw [callAt_eq hit]
    intro r mem
    rcases List.mem_append.1 mem with kept | added
    · rcases List.mem_or_eq_of_mem_set kept with old | rfl
      · exact onLine r old
      · exact (calledOnLine.valid.called_ahead call).onLine calledOnLine
    · exact eq_of_mem_added added ▸ calledOnLine

/-- Calls keep all readers on the line. -/
theorem runCalls_onLine (onLine : ∀ r ∈ readers, r.OnLine line) (calls : List (Nat × Call)) :
    ∀ r ∈ runCalls readers calls, r.OnLine line := by
  induction calls generalizing readers with
  | nil => exact onLine
  | cons call calls ih => exact ih (callAt_onLine onLine call.1 call.2)

/-- After some calls a reader has not gone back, and without a call on it it has not moved. -/
theorem getElem?_runCalls (onLine : ∀ r ∈ readers, r.OnLine line)
    (found : readers[place]? = some r) (calls : List (Nat × Call)) :
    ∃ later, (runCalls readers calls)[place]? = some later ∧ later.Ahead r ∧
      ((∀ call ∈ calls, call.1 ≠ place) → later = r) := by
  induction calls generalizing readers r with
  | nil => exact ⟨r, found, (onLine r (List.mem_of_getElem? found)).valid.ahead_self, fun _ => rfl⟩
  | cons call calls ih =>
    have valid := (onLine r (List.mem_of_getElem? found)).valid
    have next := getElem?_callAt found call.1 call.2
    obtain ⟨later, foundLater, ahead, still⟩ := ih (callAt_onLine onLine call.1 call.2) next
    refine ⟨later, foundLater, ahead.trans ?_, fun elsewhere => ?_⟩
    · split
      · exact valid.called_ahead call.2
      · exact valid.ahead_self
    · have first : call.1 ≠ place := elsewhere call (List.mem_cons_self ..)
      rw [still fun other mem => elsewhere other (List.mem_cons_of_mem _ mem), if_neg first]

theorem runCalls_append (readers : List TokenReader) (calls more : List (Nat × Call)) :
    runCalls readers (calls ++ more) = runCalls (runCalls readers calls) more :=
  List.foldl_append

/-- Whatever is called on the readers of a line, in any order and on any of them, each reader
has passed no more tokens than there are, its offset is the length of those it has passed,
and these make up the line with what remains. A fork is one more reader at the same place.
Later calls never bring a reader back, and those on other readers leave it as it is. -/
theorem runCalls_partition (line : List Char) (calls : List (Nat × Call)) {place : Nat}
    {r : TokenReader} (found : (runCalls [ofLine line] calls)[place]? = some r) :
    r.tokens = Token.ofLine line ∧ r.index ≤ r.tokens.length ∧
      r.offset = ((r.tokens.take r.index).map (·.slice.length)).sum ∧
      (r.tokens.take r.index).flatMap (·.slice.text) ++ r.remaining.text = line ∧
      runCalls [ofLine line] (calls ++ [(place, .fork)]) = runCalls [ofLine line] calls ++ [r] ∧
      ∀ more, ∃ later, (runCalls [ofLine line] (calls ++ more))[place]? = some later ∧
        r.index ≤ later.index ∧ r.offset ≤ later.offset ∧
          ((∀ call ∈ more, call.1 ≠ place) → later = r) := by
  have all := runCalls_onLine (List.forall_mem_singleton.2 (onLine_ofLine line)) calls
  have onLine := all r (List.mem_of_getElem? found)
  obtain ⟨offset, whole⟩ := onLine.partition
  refine ⟨onLine.tokens, onLine.index, offset, whole, ?_, fun more => ?_⟩
  · obtain ⟨bound, rfl⟩ := List.getElem?_eq_some_iff.1 found
    rw [runCalls_append]
    change callAt (runCalls [ofLine line] calls) place .fork = _
    rw [callAt_eq found]
    exact congrArg (· ++ _) (List.set_getElem_self bound)
  · obtain ⟨later, foundLater, ahead, still⟩ := getElem?_runCalls all found more
    rw [runCalls_append]
    exact ⟨later, foundLater, ahead.le, ahead.offset_le onLine.valid, still⟩

/-- The second reader of a line, made behind its first word, after it passed the space. -/
theorem runCalls_partition_forked :
    (runCalls [ofLine "say hi".toList] [(0, .consumeWord), (0, .fork), (1, .consume)])[1]? =
        some ⟨Token.ofLine "say hi".toList, 2, "say hi".toList⟩ ∧
      ∀ more, ∃ later, (runCalls [ofLine "say hi".toList]
          ([(0, .consumeWord), (0, .fork), (1, .consume)] ++ more))[1]? = some later ∧
        2 ≤ later.index :=
  have found : (runCalls [ofLine "say hi".toList]
      [(0, .consumeWord), (0, .fork), (1, .consume)])[1]? =
        some ⟨Token.ofLine "say hi".toList, 2, "say hi".toList⟩ := by decide
  ⟨found, fun more =>
    have ⟨later, foundLater, further, _⟩ :=
      (runCalls_partition "say hi".toList _ found).2.2.2.2.2 more
    ⟨later, foundLater, further⟩⟩

end Runs

end CommandScript.TokenReader
