import CommandScript.Number.Range
import CommandScript.Proofs.Shift.Reading

/-!
Numbers, ranges, ids and property lists further on in a line.

Each of these readers is compared with itself on the same text further on. Their cuts are
shifted by lemmas on slices, so what is left is one step of a reading after the other. The
combinators that split ids also carry captures, which are shifted with the text.
-/

namespace CommandScript

open Reported

variable {k : Nat}

/-! ## Numbers and ranges -/

theorem NumberSpec.checkBounds_shifted (k : Nat) (spec : NumberSpec) (s : Slice)
    (value : Binary64) :
    Shifted k id (spec.checkBounds s value) (spec.checkBounds (s.shift k) value) := by
  unfold checkBounds
  rcases spec.min with _ | min <;> rcases spec.max with _ | max
  · exact shifted_pure
  · exact shifted_errorIf
  · exact shifted_errorIf.bind fun _ => shifted_pure
  · exact shifted_errorIf.bind fun _ => shifted_errorIf

theorem NumberSpec.read_shifted (k : Nat) (spec : NumberSpec) (s : Slice) :
    Shifted k id (spec.read s) (spec.read (s.shift k)) := by
  unfold read
  rw [Slice.text_shift]
  split
  · exact shifted_error.bind fun _ => shifted_pure
  · exact shifted_token.bind fun _ =>
      (spec.checkBounds_shifted k s _).bind fun _ => shifted_pure

theorem RangeSpec.readBound_shifted (k : Nat) (spec : RangeSpec) (openEnd : Binary64) (s : Slice) :
    Shifted k id (spec.readBound openEnd s) (spec.readBound openEnd (s.shift k)) :=
  shifted_ite shifted_pure (spec.bound.read_shifted k s)

theorem RangeSpec.read_shifted (k : Nat) (spec : RangeSpec) (s : Slice) :
    Shifted k id (spec.read s) (spec.read (s.shift k)) := by
  unfold read
  rw [Slice.splitOn_shift]
  rcases s.splitOn ['.', '.'] with _ | ⟨low, _ | ⟨high, _ | ⟨more, parts⟩⟩⟩
  · exact shifted_error.bind fun _ => shifted_pure
  · exact (spec.bound.read_shifted k low).bind fun _ => shifted_pure
  · have dots : ((s.shift k).drop (low.shift k).text.length).take 2 =
        ((s.drop low.text.length).take 2).shift k := by
      rw [Slice.drop_shift, Slice.take_shift, Slice.text_shift]
    dsimp only [List.map]
    rw [dots]
    refine shifted_token.bind fun _ => shifted_ite ?_ ?_
    · exact shifted_error.bind fun _ => shifted_pure
    · exact (spec.readBound_shifted k _ low).bind fun _ =>
        (spec.readBound_shifted k _ high).bind fun _ => shifted_pure
  · exact shifted_error.bind fun _ => shifted_pure

/-! ## Ids -/

namespace Resource

theorem faultOf?_shift (k : Nat) (body : Slice) (space : Option Slice) (path : Slice) :
    faultOf? (body.shift k) (space.map (Slice.shift k)) (path.shift k) =
      (faultOf? body space path).map (Prod.map (Span.shift k) id) := by
  cases space with
  | none => simp [faultOf?, apply_ite (Option.map _)]
  | some space => simp [faultOf?, apply_ite (Option.map _)]

theorem readParts_shifted (k : Nat) (kind : Highlight) (mark : Option Slice) (body : Slice)
    (space : Option Slice) (path : Slice) :
    Shifted k (Option.map (ResourceId.shift k)) (readParts kind mark body space path)
      (readParts kind (mark.map (Slice.shift k)) (body.shift k) (space.map (Slice.shift k))
        (path.shift k)) := by
  unfold readParts
  rw [faultOf?_shift]
  cases faultOf? body space path with
  | some found =>
    have reported : Shifted k id (error found.1 found.2.message)
        (error (found.1.shift k) found.2.message) := rfl
    exact reported.bind fun _ => shifted_pure
  | none =>
    cases mark with
    | none => exact shifted_token.bind fun _ => shifted_pure
    | some mark =>
      exact shifted_token.bind fun _ => shifted_token.bind fun _ => shifted_pure

theorem readBody_shifted (k : Nat) (kind : Highlight) (mark : Option Slice) (body : Slice) :
    Shifted k (Option.map (ResourceId.shift k)) (readBody kind mark body)
      (readBody kind (mark.map (Slice.shift k)) (body.shift k)) := by
  unfold readBody
  rw [Slice.splitOn_shift]
  rcases body.splitOn [':'] with _ | ⟨first, _ | ⟨second, _ | ⟨third, parts⟩⟩⟩
  · exact shifted_error.bind fun _ => shifted_pure
  · exact readParts_shifted k kind mark body none first
  · exact readParts_shifted k kind mark body (some first) second
  · exact shifted_error.bind fun _ => shifted_pure

theorem read_shifted (k : Nat) (allowTag : Bool) (kind : Highlight) (s : Slice) :
    Shifted k (Option.map (ResourceId.shift k)) (read allowTag kind s)
      (read allowTag kind (s.shift k)) := by
  unfold read
  rw [Slice.front?_shift, Slice.drop_shift]
  refine shifted_ite (shifted_ite ?_ ?_) ?_
  · exact shifted_error.bind fun _ => shifted_pure
  · exact readBody_shifted k kind (some (s.take 1)) (s.drop 1)
  · exact readBody_shifted k kind none s

end Resource

/-! ## Combinators -/

namespace Combinator

/-- Further on, with the captures further on, the combinator does the same. -/
def Shifted (k : Nat) (p : Combinator) : Prop :=
  ∀ input captures,
    Reported.Shifted k (Leftover.shift k) (p input captures) (p (input.shift k) (captures.shift k))

theorem shifted_takeWhile (p : Char → Bool) : Shifted k (takeWhile p) := by
  intro input captures
  unfold takeWhile
  rw [Slice.splitWhile_shift]
  exact shifted_pure

theorem Shifted.stored {p : Combinator} (shifted : Shifted k p) (onStop : Bool)
    (name : String) : Shifted k (stored onStop name p) := by
  intro input captures
  refine (shifted input captures).bind fun left => shifted_ite ?_ shifted_pure
  have kept : Reported.Shifted k (Captures.shift k)
      (Pure.pure (left.captures.insert name (consumed input left.rest)))
      (Pure.pure ((left.captures.insert name (consumed input left.rest)).shift k)) := shifted_pure
  exact kept.bind fun _ => shifted_pure

theorem Shifted.onlyIf {p : Combinator} (shifted : Shifted k p)
    (condition : List Char → Bool) : Shifted k (onlyIf condition p) :=
  fun input captures => shifted_ite (shifted input captures) shifted_pure

theorem Shifted.after {p : Combinator} (shifted : Shifted k p) (pattern : List Char) :
    Shifted k (after pattern p) := by
  intro input captures
  have passed : ((input.shift k).dropPrefix? pattern).getD (input.shift k) =
      ((input.dropPrefix? pattern).getD input).shift k := by
    rw [Slice.dropPrefix?_shift]
    exact Option.getD_map ..
  unfold Combinator.after
  rw [passed]
  exact shifted ..

theorem shifted_chain {ps : List Combinator} (exitOnEmpty : Bool)
    (each : ∀ p ∈ ps, Shifted k p) : Shifted k (chain exitOnEmpty ps) := by
  intro input captures
  induction ps generalizing input captures with
  | nil => exact shifted_pure
  | cons p ps ih =>
    have later := ih fun q mem => each q (List.mem_cons_of_mem _ mem)
    refine (each p (List.mem_cons_self ..) input captures).bind fun left => ?_
    exact shifted_ite shifted_pure (shifted_ite shifted_pure (later ..))

end Combinator

theorem Resource.shifted_splitter : splitter.Shifted k := by
  have path (name : String) :
      Combinator.Shifted k (.stored true name (.takeWhile Charset.isPath)) :=
    (Combinator.shifted_takeWhile Charset.isPath).stored true name
  refine Combinator.shifted_chain false ?_
  simp only [List.forall_mem_cons]
  exact ⟨path spaceOrPathKey, ((path pathKey).after [':']).onlyIf _, List.forall_mem_nil _⟩

/-! ## Property lists -/

namespace PropertySpec

theorem readEntry_shifted (k : Nat) (spec : PropertySpec) (part : Slice) :
    Shifted k (Option.map (PropertyEntry.shift k)) (spec.readEntry part)
      (spec.readEntry (part.shift k)) := by
  unfold readEntry
  rw [Slice.trim_shift]
  generalize part.trim = data
  dsimp only
  rw [Slice.find?_shift]
  cases data.find? '=' with
  | none => exact shifted_error.bind fun _ => shifted_pure
  | some equals =>
    dsimp only
    rw [Slice.takeBytes_shift, Slice.dropBytes_shift, Slice.trim_shift, Slice.trim_shift,
      Slice.extract_shift]
    refine shifted_ite ?_ (shifted_ite ?_ ?_)
    · exact shifted_error.bind fun _ => shifted_pure
    · exact shifted_error.bind fun _ => shifted_pure
    · refine shifted_errorIf.bind fun _ => shifted_errorIf.bind fun _ => ?_
      refine shifted_ite ?_ (shifted_token.bind fun _ => ?_)
      · exact shifted_token.bind fun _ => shifted_pure
      · exact shifted_token.bind fun _ => shifted_pure

theorem readParts_shifted (k : Nat) (spec : PropertySpec) (inner : Slice) (before : Option Slice)
    (parts commas : List Slice) :
    Shifted k (List.map (PropertyEntry.shift k)) (spec.readParts inner before parts commas)
      (spec.readParts (inner.shift k) (before.map (Slice.shift k)) (parts.map (Slice.shift k))
        (commas.map (Slice.shift k))) := by
  induction parts generalizing before commas with
  | nil => exact shifted_pure
  | cons part parts ih =>
    have later := ih commas.head? commas.tail
    rw [← List.head?_map, List.map_tail] at later
    have comma : (((commas.map (Slice.shift k)).head?.or (before.map (Slice.shift k))).getD
        (inner.shift k)) = ((commas.head?.or before).getD inner).shift k := by
      cases commas <;> cases before <;> rfl
    rw [List.map_cons]
    unfold readParts
    dsimp only
    rw [comma, Slice.trim_shift]
    refine shifted_ite ?_ ?_
    · exact shifted_error.bind fun _ => later
    · refine (spec.readEntry_shifted k part).bind fun entry => later.bind fun entries => ?_
      have joined : (entry.map (PropertyEntry.shift k)).toList ++
          entries.map (PropertyEntry.shift k) =
            (entry.toList ++ entries).map (PropertyEntry.shift k) := by
        cases entry <;> rfl
      rw [joined]
      exact shifted_pure

theorem bracketed?_shift (k : Nat) (spec : PropertySpec) (s : Slice) :
    spec.bracketed? (s.shift k) =
      (spec.bracketed? s).map (Prod.map (Slice.shift k) (Slice.shift k)) := by
  unfold bracketed?
  rw [Slice.findClosing?_shift]
  cases s.findClosing? with
  | none => rfl
  | some close =>
    dsimp only
    rw [Slice.front?_shift, Slice.dropBytes_shift, Slice.front?_shift, Slice.extract_shift,
      Slice.dropBytes_shift, apply_ite (Option.map _)]
    rfl

theorem read_shifted (k : Nat) (spec : PropertySpec) (s : Slice) :
    Shifted k (Option.map (PropertyList.shift k)) (spec.read s) (spec.read (s.shift k)) := by
  unfold read
  rw [bracketed?_shift]
  rcases spec.bracketed? s with _ | ⟨inner, rest⟩
  · exact shifted_error.bind fun _ => shifted_pure
  · dsimp only [Option.map, Prod.map]
    rw [Slice.trim_shift, Slice.splitTopLevel_shift]
    refine shifted_ite shifted_pure ?_
    exact (readParts_shifted k spec inner none _ _).bind fun _ => shifted_pure

end PropertySpec

end CommandScript
