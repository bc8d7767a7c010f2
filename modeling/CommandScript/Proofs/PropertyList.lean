import CommandScript.Proofs.Report
import CommandScript.Proofs.Text.Split
import CommandScript.PropertyList

/-!
Property lists report inside their text.

The keys of a list are highlighted while it is read, its values only afterwards, so
the tokens are found out of order. `PropertyList.Interleaved` keeps track of where
they stand: those of an entry come before its value, and the value ends before the
tokens of the next entry begin. Whatever is then said of the values
(`PropertyList.Between.fits_each`) fits the list.
-/

namespace CommandScript

/-! ## Brackets and equals signs -/

namespace PropertySpec

/-- A list in brackets is its opening bracket, what stands inside, its closing
bracket and the rest. -/
theorem bracketed?_eq_some {spec : PropertySpec} {s inner rest : Slice}
    (noCloser : Nesting.isCloser spec.opener = false)
    (found : spec.bracketed? s = some (inner, rest)) :
    s.text = spec.opener :: (inner.text ++ spec.closer :: rest.text) ∧
      inner.start = s.start + spec.opener.utf8Size ∧
      rest.start = inner.stop + spec.closer.utf8Size := by
  unfold bracketed? at found
  split at found
  · rename_i close closing
    obtain ⟨before, c, after, text, rfl, closes⟩ := Slice.findClosing?_eq_some closing
    split at found
    · rename_i fronts
      obtain ⟨first, last⟩ : s.front? = some spec.opener ∧
          (s.dropBytes (byteLength before)).front? = some spec.closer := by simpa using fronts
      have closer : c = spec.closer := by
        simpa [Slice.dropBytes, Slice.front?, text, dropBytes_byteLength_append] using last
      subst closer
      rcases Prod.mk.inj (Option.some.inj found) with ⟨innerEq, restEq⟩
      cases before with
      | nil =>
        -- The first character opens the list, so it cannot close it.
        have same : spec.closer = spec.opener := by simpa [Slice.front?, text] using first
        have closesHere := (Bool.and_eq_true_iff.1 (Bool.and_eq_true_iff.1 closes).1).2
        rw [same, noCloser] at closesHere
        cases closesHere
      | cons d body =>
        obtain rfl : d = spec.opener := by simpa [Slice.front?, text] using first
        have widthInner : byteLength (spec.opener :: body) - spec.opener.utf8Size =
            byteLength body := by simp
        have dropOpener : dropBytes spec.opener.utf8Size s.text = body ++ spec.closer :: after := by
          have := dropBytes_byteLength_append [spec.opener] (body ++ spec.closer :: after)
          simpa [text] using this
        have dropList : dropBytes (byteLength (spec.opener :: body) + spec.closer.utf8Size) s.text =
            after := by
          have := dropBytes_byteLength_append (spec.opener :: body ++ [spec.closer]) after
          simpa [text, Nat.add_assoc] using this
        subst innerEq restEq
        simp only [Slice.extract, Slice.takeBytes, Slice.dropBytes, widthInner, dropOpener,
          takeBytes_byteLength_append, dropList, Slice.stop_eq]
        refine ⟨text, trivial, ?_⟩
        simp only [byteLength_cons]
        omega
    · cases found
  · cases found

/-- A text is cut around an equals sign into what stands before it, the sign itself and what
stands after it. -/
theorem cuts_around_equals {data : Slice} {before after : List Char}
    (text : data.text = before ++ '=' :: after) :
    let equals := byteLength before
    data.takeBytes equals = ⟨before, data.start⟩ ∧
      data.extract equals (equals + 1) = ⟨['='], data.start + equals⟩ ∧
      data.dropBytes (equals + 1) = ⟨after, data.start + equals + 1⟩ := by
  have sign : byteLength (before ++ ['=']) = byteLength before + 1 := by
    rw [byteLength_append]
    rfl
  have drop := dropBytes_byteLength_append (before ++ ['=']) after
  rw [sign, List.append_assoc, List.singleton_append] at drop
  refine ⟨?_, ?_, ?_⟩
  · simp only [Slice.takeBytes, text, takeBytes_byteLength_append]
  · have one : byteLength before + 1 - byteLength before = byteLength ['='] := by
      rw [Nat.add_sub_cancel_left]
      rfl
    have take := takeBytes_byteLength_append ['='] after
    simp only [Slice.extract, Slice.takeBytes, Slice.dropBytes, text, dropBytes_byteLength_append,
      one]
    exact congrArg (Slice.mk · _) take
  · simp only [Slice.dropBytes, text, drop, Nat.add_assoc]

/-- The first equals sign divides a text into what stands before it, the sign itself
and what stands after it. -/
theorem equals_divides {data : Slice} {equals : Nat} (found : data.find? '=' = some equals) :
    ∃ before after, data.text = before ++ '=' :: after ∧
      data.takeBytes equals = ⟨before, data.start⟩ ∧
      data.extract equals (equals + 1) = ⟨['='], data.start + byteLength before⟩ ∧
      data.dropBytes (equals + 1) = ⟨after, data.start + byteLength before + 1⟩ := by
  obtain ⟨before, after, text, rfl⟩ := Slice.find?_eq_some found
  exact ⟨before, after, text, cuts_around_equals text⟩

/-! ## Single entries -/

/-- What reading one part of a list comes to: remarks only, or an entry whose tokens
are laid in front of its value. -/
inductive ReadsEntry (part : Slice) : Reported (Option PropertyEntry) → Prop where
  | refused {report : Report} (fits : report.Fits part) (silent : report.tokens = []) :
    ReadsEntry part ⟨none, report⟩
  | accepted {key value : Slice} {report : Report} (keyWithin : key.Within part)
    (valueWithin : value.Within part) (laid : report.Laid part part.start value.start) :
    ReadsEntry part ⟨some ⟨key, value⟩, report⟩

/-- The key, the sign and the value of an entry follow one another. -/
theorem divided_pieces {data : Slice} {before after : List Char}
    (text : data.text = before ++ '=' :: after) :
    let key := Slice.trim ⟨before, data.start⟩
    let sign : Slice := ⟨['='], data.start + byteLength before⟩
    let value := Slice.trim ⟨after, data.start + byteLength before + 1⟩
    key.Within data ∧ sign.Within data ∧ value.Within data ∧ key.stop ≤ sign.start ∧
      sign.stop ≤ value.start := by
  intro key sign value
  have keyInFront : key.Within ⟨before, data.start⟩ := Slice.trim_within _
  have valueBehind : value.Within ⟨after, data.start + byteLength before + 1⟩ :=
    Slice.trim_within _
  have frontWithin : Slice.Within ⟨before, data.start⟩ data :=
    ⟨[], '=' :: after, by simp [text], by simp⟩
  have signWithin : sign.Within data := ⟨before, after, by simp [sign, text], rfl⟩
  have backWithin : Slice.Within ⟨after, data.start + byteLength before + 1⟩ data := by
    refine ⟨before ++ ['='], [], by simp [text], ?_⟩
    rw [byteLength_append, ← Nat.add_assoc]
    rfl
  exact ⟨keyInFront.trans frontWithin, signWithin, valueBehind.trans backWithin,
    keyInFront.stop_le, valueBehind.start_le⟩

theorem readEntry_reads (spec : PropertySpec) (part : Slice) :
    ReadsEntry part (spec.readEntry part) := by
  have data : part.trim.Within part := Slice.trim_within part
  have refuse : ∀ message : String, ReadsEntry part (do
      Reported.error part.trim.span message
      return none) := fun message =>
    .refused (Report.fits_error data.covers message) rfl
  unfold readEntry
  dsimp only
  split
  · exact refuse _
  · rename_i equals found
    obtain ⟨before, after, text, front, sign, back⟩ := equals_divides found
    obtain ⟨keyInData, signInData, valueInData, keyEnds, signEnds⟩ := divided_pieces text
    rw [front, sign, back]
    generalize Slice.trim ⟨before, part.trim.start⟩ = key at keyInData keyEnds ⊢
    generalize Slice.trim ⟨after, part.trim.start + byteLength before + 1⟩ = value
      at valueInData signEnds ⊢
    generalize Slice.mk ['='] (part.trim.start + byteLength before) = sign
      at signInData keyEnds signEnds ⊢
    split
    · exact refuse _
    · split
      · exact refuse _
      · have keyWithin := keyInData.trans data
        have signWithin := signInData.trans data
        have valueWithin := valueInData.trans data
        have keyToken : (Report.token key.span spec.keyKind).Laid part part.start sign.start :=
          Report.laid_token keyWithin.covers _ keyWithin.start_le keyEnds
        have signToken : (Report.token sign.span .operator).Laid part sign.start value.start :=
          Report.laid_token signWithin.covers _ (Nat.le_refl _) signEnds
        have tail := signToken.append (Report.laid_empty part (Nat.le_refl value.start))
        have badKey := Reported.laid_errorIf (!spec.keyValid key.text) keyWithin.covers
          spec.wording.badKey (Nat.le_refl part.start)
        have badValue := Reported.laid_errorIf (!spec.valueValid value.text) valueWithin.covers
          spec.wording.badValue (Nat.le_refl part.start)
        split
        · apply ReadsEntry.accepted keyWithin valueWithin (badKey.append (badValue.append _))
          exact tail.widen signWithin.start_le (Nat.le_refl _)
        · apply ReadsEntry.accepted keyWithin valueWithin (badKey.append (badValue.append _))
          exact keyToken.append tail

end PropertySpec

/-! ## Whole lists -/

namespace PropertyList

/-- Where the tokens of a list stand between two offsets: those of an entry come in
order before its value, and the next entry begins behind the value and a comma. -/
inductive Interleaved : Nat → List SemanticToken → List PropertyEntry → Nat → Prop where
  | nil {start stop : Nat} (le : start ≤ stop + 1) : Interleaved start [] [] stop
  | cons {start stop : Nat} {heads tokens : List SemanticToken} {entry : PropertyEntry}
    {entries : List PropertyEntry} (ordered : heads.Pairwise SemanticToken.EndsBefore)
    (heads_between : ∀ t ∈ heads, start ≤ t.span.start ∧ t.span.stop ≤ entry.value.start)
    (begins : start ≤ entry.value.start) (ends : entry.value.stop ≤ stop)
    (later : Interleaved (entry.value.stop + 1) tokens entries stop) :
    Interleaved start (heads ++ tokens) (entry :: entries) stop

section Interleaved

variable {start stop : Nat} {tokens : List SemanticToken} {entries : List PropertyEntry}

theorem Interleaved.of_le {later : Nat} (list : Interleaved later tokens entries stop)
    (le : start ≤ later) : Interleaved start tokens entries stop := by
  cases list with
  | nil bound => exact .nil (Nat.le_trans le bound)
  | cons ordered between begins ends rest =>
    refine .cons ordered (fun t mem => ?_) (Nat.le_trans le begins) ends rest
    exact ⟨Nat.le_trans le (between t mem).1, (between t mem).2⟩

/-- Tokens behind a value may be found after those in front of it and before its own. -/
theorem apart_around {heads tokens values laterValues : List SemanticToken} {low high : Nat}
    (headsApart : heads.Pairwise SemanticToken.Apart)
    (valuesApart : values.Pairwise SemanticToken.Apart)
    (laterApart : (tokens ++ laterValues).Pairwise SemanticToken.Apart)
    (before : ∀ t ∈ heads, t.span.stop ≤ low)
    (inside : ∀ t ∈ values, low ≤ t.span.start ∧ t.span.start ≤ t.span.stop ∧ t.span.stop ≤ high)
    (behind : ∀ t ∈ tokens ++ laterValues, high < t.span.start) (le : low ≤ high) :
    (heads ++ (tokens ++ (values ++ laterValues))).Pairwise SemanticToken.Apart := by
  rcases List.pairwise_append.1 laterApart with ⟨tokensApart, laterValuesApart, tokensFirst⟩
  refine List.pairwise_append.2 ⟨headsApart, List.pairwise_append.2 ⟨tokensApart,
    List.pairwise_append.2 ⟨valuesApart, laterValuesApart, ?_⟩, ?_⟩, ?_⟩
  · intro t mem u memLater
    have ends := inside t mem
    have begins := behind u (List.mem_append_right _ memLater)
    exact SemanticToken.apart_of_le ends.2.2 (Nat.le_of_lt begins)
  · intro t mem u memBehind
    rcases List.mem_append.1 memBehind with memValue | memLater
    · -- Only here the token that is found later stands in front.
      have begins := behind t (List.mem_append_left _ mem)
      have ends := inside u memValue
      refine Or.inr ⟨?_, by omega⟩
      exact Nat.le_trans ends.2.2 (Nat.le_of_lt begins)
    · exact tokensFirst t mem u memLater
  · intro t mem u memBehind
    apply SemanticToken.apart_of_le (before t mem)
    rcases List.mem_append.1 memBehind with memToken | memValues
    · have begins := behind u (List.mem_append_left _ memToken)
      omega
    · rcases List.mem_append.1 memValues with memValue | memLater
      · exact (inside u memValue).1
      · have begins := behind u (List.mem_append_right _ memLater)
        omega

/-- Whatever is said of the values afterwards, no two tokens overlap, and all stand
between the two offsets. -/
theorem Interleaved.apart {f : PropertyEntry → Reported Unit}
    (list : Interleaved start tokens entries stop)
    (apart : ∀ e ∈ entries, (f e).report.tokens.Pairwise SemanticToken.Apart)
    (inside : ∀ e ∈ entries, ∀ t ∈ (f e).report.tokens, e.value.Covers t.span) :
    (tokens ++ (Reported.each f entries).report.tokens).Pairwise SemanticToken.Apart ∧
      ∀ t ∈ tokens ++ (Reported.each f entries).report.tokens,
        start ≤ t.span.start ∧ t.span.stop ≤ stop := by
  induction list with
  | nil le => exact ⟨.nil, nofun⟩
  | @cons start stop heads tokens entry entries ordered between begins ends rest ih =>
    rcases List.forall_mem_cons.1 apart with ⟨valueApart, apartLater⟩
    rcases List.forall_mem_cons.1 inside with ⟨insideFirst, insideLater⟩
    obtain ⟨laterApart, laterBetween⟩ := ih apartLater insideLater
    have valueInside : ∀ t ∈ (f entry).report.tokens,
        entry.value.start ≤ t.span.start ∧ t.span.start ≤ t.span.stop ∧
          t.span.stop ≤ entry.value.stop := fun t mem => (insideFirst t mem).bounds
    have valueOrder := entry.value.start_le_stop
    rw [Reported.each_cons, Report.append_tokens]
    generalize (f entry).report.tokens = values at valueApart valueInside ⊢
    generalize (Reported.each f entries).report.tokens = laterValues at laterApart laterBetween ⊢
    rw [List.append_assoc]
    constructor
    · have headsApart := ordered.imp fun {t u} ends => (Or.inl ends : t.Apart u)
      exact apart_around headsApart valueApart laterApart (fun t mem => (between t mem).2)
        valueInside (fun t mem => (laterBetween t mem).1) valueOrder
    · intro t mem
      rcases List.mem_append.1 mem with memHead | memRest
      · have := between t memHead
        omega
      · rcases List.mem_append.1 memRest with memToken | memValues
        · have := laterBetween t (List.mem_append_left _ memToken)
          omega
        · rcases List.mem_append.1 memValues with memValue | memLater
          · have := valueInside t memValue
            omega
          · have := laterBetween t (List.mem_append_right _ memLater)
            omega

end Interleaved

/-- What reading entries between two offsets of a slice comes to: keys and values
stand in the slice, all spans are covered, and the tokens leave room for the values. -/
structure Between (s : Slice) (r : Report) (entries : List PropertyEntry) (start stop : Nat) :
    Prop where
  keys : ∀ e ∈ entries, e.key.Within s
  values : ∀ e ∈ entries, e.value.Within s
  errors : ∀ e ∈ r.errors, s.Covers e.span
  warnings : ∀ w ∈ r.warnings, s.Covers w.span
  tokens : ∀ t ∈ r.tokens, s.Covers t.span
  interleaved : Interleaved start r.tokens entries stop

section Between

variable {d s : Slice} {r : Report} {entries : List PropertyEntry} {start stop : Nat}

theorem Between.mono {start' : Nat} (between : Between d r entries start stop)
    (within : d.Within s) (le : start' ≤ start) : Between s r entries start' stop where
  keys e mem := (between.keys e mem).trans within
  values e mem := (between.values e mem).trans within
  errors e mem := (between.errors e mem).mono within
  warnings w mem := (between.warnings w mem).mono within
  tokens t mem := (between.tokens t mem).mono within
  interleaved := between.interleaved.of_le le

theorem between_empty (s : Slice) (le : start ≤ stop + 1) : Between s ∅ [] start stop :=
  ⟨nofun, nofun, nofun, nofun, nofun, .nil le⟩

/-- Remarks in front of a list change nothing. -/
theorem Between.remarks_append {a : Report} (between : Between s r entries start stop)
    (fits : a.Fits s) (silent : a.tokens = []) : Between s (a ++ r) entries start stop where
  keys := between.keys
  values := between.values
  errors e mem := (List.mem_append.1 mem).elim (fits.errors e) (between.errors e)
  warnings w mem := (List.mem_append.1 mem).elim (fits.warnings w) (between.warnings w)
  tokens t mem := (List.mem_append.1 mem).elim (fits.tokens t) (between.tokens t)
  interleaved := by
    rw [Report.append_tokens, silent, List.nil_append]
    exact between.interleaved

/-- Remarks behind a list change nothing either. -/
theorem Between.append_remarks {b : Report} (between : Between s r entries start stop)
    (fits : b.Fits s) (silent : b.tokens = []) : Between s (r ++ b) entries start stop where
  keys := between.keys
  values := between.values
  errors e mem := (List.mem_append.1 mem).elim (between.errors e) (fits.errors e)
  warnings w mem := (List.mem_append.1 mem).elim (between.warnings w) (fits.warnings w)
  tokens t mem := (List.mem_append.1 mem).elim (between.tokens t) (fits.tokens t)
  interleaved := by
    rw [Report.append_tokens, silent, List.append_nil]
    exact between.interleaved

/-- One more entry in front of a list. -/
theorem Between.cons {a : Report} {part key value : Slice}
    (between : Between s r entries (part.stop + 1) stop) (partWithin : part.Within s)
    (keyWithin : key.Within part) (valueWithin : value.Within part)
    (laid : a.Laid part part.start value.start) (ends : part.stop ≤ stop) :
    Between s (a ++ r) (⟨key, value⟩ :: entries) part.start stop where
  keys := List.forall_mem_cons.2 ⟨keyWithin.trans partWithin, between.keys⟩
  values := List.forall_mem_cons.2 ⟨valueWithin.trans partWithin, between.values⟩
  errors e mem := (List.mem_append.1 mem).elim
    (fun front => (laid.errors e front).mono partWithin) (between.errors e)
  warnings w mem := (List.mem_append.1 mem).elim
    (fun front => (laid.warnings w front).mono partWithin) (between.warnings w)
  tokens t mem := (List.mem_append.1 mem).elim
    (fun front => (laid.tokens t front).1.mono partWithin) (between.tokens t)
  interleaved := by
    have valueStop := valueWithin.stop_le
    refine .cons laid.ordered (fun t mem => (laid.tokens t mem).2) valueWithin.start_le
      (Nat.le_trans valueStop ends) ?_
    exact between.interleaved.of_le (Nat.succ_le_succ valueStop)

/-- What is said of the values of a list fits the list, and all tokens end with it. -/
theorem Between.fits_each {f : PropertyEntry → Reported Unit}
    (between : Between s r entries start stop)
    (fits : ∀ e ∈ entries, (f e).report.Fits s)
    (inside : ∀ e ∈ entries, ∀ t ∈ (f e).report.tokens, e.value.Covers t.span) :
    (r ++ (Reported.each f entries).report).Fits s ∧
      ∀ t ∈ (r ++ (Reported.each f entries).report).tokens, t.span.stop ≤ stop := by
  have said := Reported.each_covered fits
  obtain ⟨apart, bounded⟩ :=
    between.interleaved.apart (fun e mem => (fits e mem).apart) inside
  refine ⟨⟨?_, ?_, ?_, apart⟩, fun t mem => (bounded t mem).2⟩
  · exact fun e mem => (List.mem_append.1 mem).elim (between.errors e) (said.1 e)
  · exact fun w mem => (List.mem_append.1 mem).elim (between.warnings w) (said.2.1 w)
  · exact fun t mem => (List.mem_append.1 mem).elim (between.tokens t) (said.2.2 t)

/-- Remarks on what follows a list may come before what is said of its values. -/
theorem Between.fits_trailing {f : PropertyEntry → Reported Unit} {b : Report}
    (between : Between s r entries start stop) (trailing : b.Fits s) (silent : b.tokens = [])
    (fits : ∀ e ∈ entries, (f e).report.Fits s)
    (inside : ∀ e ∈ entries, ∀ t ∈ (f e).report.tokens, e.value.Covers t.span) :
    (r ++ (b ++ (Reported.each f entries).report)).Fits s := by
  have whole := ((between.append_remarks trailing silent).fits_each fits inside).1
  rw [Report.append_assoc] at whole
  exact whole

end Between

/-- What reading a list at the beginning of a slice comes to: remarks only, or a list
whose tokens end before the rest begins. -/
inductive Reads (s : Slice) : Reported (Option PropertyList) → Prop where
  | refused {report : Report} (fits : report.Fits s) (silent : report.tokens = []) :
    Reads s ⟨none, report⟩
  | accepted {list : PropertyList} {report : Report} {stop : Nat}
    (suffix : list.rest.SuffixOf s) (before : stop < list.rest.start)
    (between : Between s report list.entries s.start stop) : Reads s ⟨some list, report⟩

end PropertyList

namespace PropertySpec

open PropertyList (Between Reads)

/-- Parts that follow one another are read into entries that do. -/
theorem readParts_between (spec : PropertySpec) {inner : Slice} {before : Option Slice}
    {parts commas : List Slice} {start stop : Nat} (spread : Slice.Spread 1 start parts stop)
    (partsWithin : ∀ part ∈ parts, part.Within inner)
    (commasWithin : ∀ comma ∈ commas, comma.Within inner)
    (beforeWithin : ∀ comma ∈ before, comma.Within inner) :
    Between inner (spec.readParts inner before parts commas).report
      (spec.readParts inner before parts commas).value start stop := by
  induction parts generalizing before commas start with
  | nil => exact PropertyList.between_empty inner spread
  | cons part parts ih =>
    rcases spread with ⟨begins, ends, later⟩
    have partWithin := partsWithin part (List.mem_cons_self ..)
    have rest := ih later (fun next mem => partsWithin next (List.mem_cons_of_mem _ mem))
      (fun comma mem => commasWithin comma (List.mem_of_mem_tail mem))
      (fun comma mem => commasWithin comma (List.mem_of_mem_head? mem))
    have restFromStart := rest.mono (.refl inner)
      (Nat.le_trans begins (Nat.le_succ_of_le part.start_le_stop))
    rw [readParts]
    split
    · have commaWithin : ((commas.head?.or before).getD inner).Within inner := by
        cases commas with
        | nil =>
          cases before with
          | none => exact .refl inner
          | some comma => exact beforeWithin comma rfl
        | cons comma commas => exact commasWithin comma (List.mem_cons_self ..)
      exact restFromStart.remarks_append (Report.fits_error commaWithin.covers _) rfl
    · have entry := spec.readEntry_reads part
      simp only [Reported.report_bind, Reported.value_bind, Reported.report_pure,
        Reported.value_pure, Report.append_empty]
      generalize spec.readEntry part = outcome at entry ⊢
      cases entry with
      | refused fits silent => exact restFromStart.remarks_append (fits.mono partWithin) silent
      | accepted keyWithin valueWithin laid =>
        exact (rest.cons partWithin keyWithin valueWithin laid ends).mono (.refl inner) begins

theorem read_reads (spec : PropertySpec) (opens : Nesting.isOpener spec.opener = true)
    (s : Slice) : Reads s (spec.read s) := by
  unfold read
  split
  · exact .refused (Report.fits_error (Slice.covers_self s) _) rfl
  · rename_i inner rest found
    obtain ⟨text, innerStart, restStart⟩ := bracketed?_eq_some (Nesting.not_isCloser opens) found
    have closerSize := spec.closer.utf8Size_pos
    have innerWithin : inner.Within s := by
      refine ⟨[spec.opener], spec.closer :: rest.text, by simp [text], ?_⟩
      rw [innerStart]
      rfl
    have restSuffix : rest.SuffixOf s := by
      refine ⟨spec.opener :: (inner.text ++ [spec.closer]), by simp [text], ?_⟩
      rw [restStart, Slice.stop_eq, innerStart]
      simp only [byteLength_cons, byteLength_append, byteLength_nil]
      omega
    have innerBefore : inner.stop < rest.start := by omega
    split
    · have empty : Between s ∅ [] s.start inner.stop := PropertyList.between_empty s
        (Nat.le_succ_of_le (Nat.le_trans innerWithin.start_le inner.start_le_stop))
      exact .accepted restSuffix innerBefore empty
    · let split := inner.splitTopLevel ','
      have between : Between inner (spec.readParts inner none split.parts split.separators).report
          (spec.readParts inner none split.parts split.separators).value inner.start inner.stop :=
        spec.readParts_between (inner.splitTopLevel_spread ',')
          (fun _ => Slice.mem_splitTopLevel_parts)
          (fun _ => Slice.mem_splitTopLevel_separators) nofun
      apply Reads.accepted restSuffix innerBefore
      rw [Reported.report_pure, Report.append_empty]
      exact between.mono innerWithin innerWithin.start_le

end PropertySpec

end CommandScript
