import CommandScript.Proofs.Selector

/-!
What the readers highlight can be seen.

A token without text cannot be shown in an editor. Each reader highlights text that is there,
because it looks whether there is any or because it has just passed it (`Report.Visible`).
One does not: the boolean of an advancement is highlighted as a keyword whether or not
something is written, but next to an error that says what is missing
(`Advancements.readBoolean_visible`).
-/

namespace CommandScript

/-! ## Reports -/

/-- A first character is some text. -/
theorem Slice.take_ne_nil_of_front? {s : Slice} {c : Char} (front : s.front? = some c) :
    (s.take 1).text ≠ [] := by
  obtain ⟨cs, text⟩ := List.head?_eq_some_iff.1 front
  simp [Slice.take, text]

theorem Slice.text_ne_nil_of_isEmpty {s : Slice} (written : ¬s.isEmpty = true) : s.text ≠ [] :=
  fun empty => written (List.isEmpty_iff.2 empty)

namespace Report

/-- Every token is over some text. -/
def Visible (r : Report) : Prop :=
  ∀ t ∈ r.tokens, t.span.start < t.span.stop

/-- Every token is over some text, or is an empty keyword where an error with one of the
messages stands. -/
def VisibleBut (messages : String → Prop) (r : Report) : Prop :=
  ∀ t ∈ r.tokens, t.span.start < t.span.stop ∨
    (t.kind = .keyword ∧ t.span.start = t.span.stop ∧
      ∃ e ∈ r.errors, e.span = t.span ∧ messages e.message)

variable {a b r : Report} {span : Span} {message label : String} {messages : String → Prop}

@[simp] theorem visible_empty : (∅ : Report).Visible :=
  nofun

@[simp] theorem visible_append : (a ++ b).Visible ↔ a.Visible ∧ b.Visible :=
  List.forall_mem_append

@[simp] theorem visible_error : (error span message).Visible :=
  nofun

@[simp] theorem visible_warning : (warning span message).Visible :=
  nofun

@[simp] theorem visible_token {s : Slice} {kind : Highlight} :
    (token s.span kind).Visible ↔ s.text ≠ [] := by
  refine List.forall_mem_singleton.trans ⟨fun positive empty => ?_, Slice.start_lt_stop⟩
  change s.start < s.stop at positive
  rw [Slice.stop_eq, empty] at positive
  exact Nat.lt_irrefl _ positive

@[simp] theorem visible_labelled : (r.labelled label).Visible ↔ r.Visible :=
  Iff.rfl

theorem visible_of_silent (silent : r.tokens = []) : r.Visible := by
  rw [Visible, silent]
  exact nofun

theorem visible_additive : Additive Visible where
  empty := visible_empty
  append first second := visible_append.2 ⟨first, second⟩

theorem Visible.but (visible : r.Visible) : r.VisibleBut messages :=
  fun t mem => .inl (visible t mem)

theorem visibleBut_additive (messages : String → Prop) : Additive (VisibleBut messages) where
  empty := visible_empty.but
  append {a b} first second t mem := by
    rcases List.mem_append.1 mem with mem | mem
    · refine (first t mem).imp_right fun ⟨keyword, empty, e, error, there⟩ => ?_
      exact ⟨keyword, empty, e, List.mem_append_left _ error, there⟩
    · refine (second t mem).imp_right fun ⟨keyword, empty, e, error, there⟩ => ?_
      exact ⟨keyword, empty, e, List.mem_append_right _ error, there⟩

theorem VisibleBut.labelled (visible : r.VisibleBut fun message => messages (label ++ message)) :
    (r.labelled label).VisibleBut messages := by
  intro t mem
  refine (visible t mem).imp_right fun ⟨keyword, empty, e, error, place, excused⟩ => ?_
  exact ⟨keyword, empty, _, List.mem_map_of_mem error, place, excused⟩

end Report

@[simp] theorem Reported.visible_errorIf {condition : Bool} {span : Span} {message : String} :
    (errorIf condition span message).report.Visible :=
  Report.visible_of_silent (errorIf_tokens ..)

/-! ## Ids, numbers and lists -/

theorem Resource.read_visible (allowTag : Bool) (kind : Highlight) (s : Slice) :
    (read allowTag kind s).report.Visible := by
  have parts : ∀ mark body space path, (∀ d ∈ mark, d.text ≠ []) →
      (path.text ≠ [] → body.text ≠ []) → (readParts kind mark body space path).report.Visible := by
    intro mark body space path marked written
    unfold readParts
    split
    · simp
    · rename_i faultless
      have whole := written (faultOf?_eq_none.1 faultless).2.1
      cases mark with
      | none => simp [whole]
      | some mark => simp [whole, marked mark rfl]
  have body : ∀ mark body, (∀ d ∈ mark, d.text ≠ []) →
      (readBody kind mark body).report.Visible := by
    intro mark body marked
    unfold readBody
    split
    · rename_i path single
      exact parts _ _ _ _ marked (Slice.splitOn_single single ▸ id)
    · rename_i space path pair
      refine parts _ _ _ _ marked fun _ => ?_
      simp [(Slice.splitOn_pair pair).1]
    · simp
  unfold read
  split
  · rename_i marked
    dsimp only
    split
    · simp
    · have front := (Bool.and_eq_true_iff.1 marked).2
      refine body _ _ fun d mark => ?_
      obtain rfl := Option.some.inj mark
      exact Slice.take_ne_nil_of_front? (of_decide_eq_true front)
  · exact body _ _ nofun

theorem NumberForm.read?_nil (form : NumberForm) : form.read? [] = none := by
  cases form <;> rfl

theorem NumberSpec.read_visible (spec : NumberSpec) (s : Slice) :
    (spec.read s).report.Visible := by
  unfold read
  split
  · simp
  · rename_i value found
    have written : s.text ≠ [] := by
      intro empty
      rw [empty, NumberForm.read?_nil] at found
      cases found
    have bounds := Report.visible_of_silent (spec.checkBounds_tokens s value)
    simp [written, bounds]

theorem RangeSpec.read_visible (spec : RangeSpec) (s : Slice) :
    (spec.read s).report.Visible := by
  have bound : ∀ openEnd s, (spec.readBound openEnd s).report.Visible := by
    intro openEnd s
    unfold readBound
    split
    · exact Report.visible_empty
    · exact NumberSpec.read_visible _ s
  unfold read
  split
  · simp [NumberSpec.read_visible]
  · rename_i low high ends
    have dots : ((s.drop low.text.length).take 2).text ≠ [] := by
      simp [Slice.drop, Slice.take, (Slice.splitOn_pair ends).1]
    split <;> simp [dots, bound]
  · simp

namespace PropertySpec

variable (spec : PropertySpec)

theorem readEntry_visible (part : Slice) : (spec.readEntry part).report.Visible := by
  unfold readEntry
  dsimp only
  split
  · simp
  · rename_i equals found
    obtain ⟨before, after, -, -, sign, -⟩ := equals_divides found
    split
    · simp
    · split
      · simp
      · rw [sign]
        split
        · simp
        · rename_i written
          simp [Slice.text_ne_nil_of_isEmpty written]

theorem readParts_visible (inner : Slice) (before : Option Slice) (parts commas : List Slice) :
    (spec.readParts inner before parts commas).report.Visible := by
  induction parts generalizing before commas with
  | nil => exact Report.visible_empty
  | cons part parts ih =>
    rw [readParts]
    split <;> simp [ih, readEntry_visible]

theorem read_visible (s : Slice) : (spec.read s).report.Visible := by
  unfold read
  split
  · simp
  · split <;> simp [readParts_visible]

end PropertySpec

/-! ## Readings -/

/-- What is read behind a quote has that quote at least. -/
theorem Cursor.readQuoted_visible {c : Cursor} (quoted : c.current?.any Charset.isQuote = true) :
    c.readQuoted.report.Visible ∧ ∀ s ∈ c.readQuoted.value.1, s.text ≠ [] := by
  unfold readQuoted
  split
  · rename_i empty
    simp [current?, Slice.front?, empty] at quoted
  · rename_i quote cs text
    dsimp only
    generalize splitQuoted quote cs = body
    unfold expect
    split
    · exact ⟨Report.visible_empty, by simp [Slice.take, text]⟩
    · split <;> exact ⟨by simp, fun s mem => by cases mem⟩

namespace Reading

open Report

theorem visible_expect (ch : Char) (kind : Option Highlight) :
    (expect ch kind).Reports Visible :=
  reports_expect visible_additive (fun _ => visible_error) (fun _ => visible_error)
    fun _ current _ _ => visible_token.2 (Slice.take_ne_nil_of_front? current)

theorem visible_fail {α : Type} (span : Span) (message : String) :
    (fail span message : Reading α).Reports Visible :=
  fun _ => visible_append.2 ⟨visible_error, visible_empty⟩

theorem visible_expectedValue {α : Type} : (expectedValue : Reading α).Reports Visible :=
  fun c => visible_fail c.whole.span Cursor.Fault.expectedValue.message c

theorem visible_token_slice {s : Slice} (written : s.text ≠ []) (kind : Highlight) :
    (token s.span kind).Reports Visible :=
  reports_report visible_additive (Report.visible_token.2 written)

theorem Reports.but {α : Type} {x : Reading α} {messages : String → Prop}
    (visible : x.Reports Visible) : x.Reports (VisibleBut messages) :=
  fun c => (visible c).but

/-- A quoted string has its quotes at least. -/
theorem visible_readQuoted_token {c : Cursor} (quoted : c.current?.any Charset.isQuote = true)
    (kind : Highlight) :
    ((readQuoted >>= fun quoted => token quoted.span kind) c).report.Visible := by
  obtain ⟨visible, written⟩ := c.readQuoted_visible quoted
  rw [run_bind]
  unfold readQuoted
  rcases result : c.readQuoted with ⟨⟨read, after⟩, report⟩
  rw [result] at visible written
  cases read with
  | none => exact visible_append.2 ⟨visible_append.2 ⟨visible, visible_empty⟩, visible_empty⟩
  | some read =>
    have token := visible_token_slice (written read rfl) kind after
    exact visible_append.2 ⟨visible_append.2 ⟨visible, visible_empty⟩, token⟩

/-- Unquoted text is highlighted only if there is some. -/
theorem visible_readUnquoted_token {empty : Reading Unit} (kind : Slice → Highlight)
    (visible : empty.Reports Visible) :
    (readUnquoted >>= fun text =>
      if text.isEmpty then empty else token text.span (kind text)).Reports Visible := by
  intro c
  rw [readUnquoted_bind]
  split
  · exact visible _
  · rename_i written
    exact visible_token_slice (Slice.text_ne_nil_of_isEmpty written) _ _

end Reading

/-! ## Compound tags -/

namespace CompoundTag

open Reading Report

theorem visible_readKey : readKey.Reports Visible := by
  intro c
  unfold readKey Reading.current?
  rw [look_bind]
  split
  · rename_i quoted
    exact visible_readQuoted_token quoted _
  · refine visible_readUnquoted_token (fun _ => .property) (fun c => ?_) c
    rw [look_bind]
    split <;> exact visible_fail _ _ c

theorem visible_readScalar : readScalar.Reports Visible := by
  intro c
  unfold readScalar Reading.current?
  rw [look_bind]
  split
  · rename_i quoted
    exact visible_readQuoted_token quoted _
  · exact visible_readUnquoted_token _ visible_expectedValue c

/-- What is highlighted as the type of an array was seen behind its bracket. -/
theorem visible_readArray {c : Cursor} (starts : startsArray c = true) :
    (readArray c).report.Visible := by
  have letter : c.advance.currentSlice.text ≠ [] := by
    simp only [startsArray, Cursor.canRead, Bool.and_eq_true, decide_eq_true_eq] at starts
    refine List.ne_nil_of_length_pos ?_
    simp only [Cursor.advance, Cursor.currentSlice, Slice.take, Slice.drop, List.length_take,
      List.length_drop]
    omega
  have behind : Reading.Reports Visible (do
      advance
      let _ ← readWhile (· != ']')
      expect ']') :=
    (reports_move visible_additive _).bind visible_additive fun _ =>
      (reports_move visible_additive _).bind visible_additive fun _ => visible_expect _ _
  unfold readArray
  rw [run_bind]
  unfold Reading.expect Cursor.expect
  split
  · have typed : Visible (.token c.advance.currentSlice.span .keyword ++ ∅) := by simp [letter]
    exact visible_append.2 ⟨by simp, visible_append.2 ⟨typed, behind c.advance.advance⟩⟩
  · split <;> simp

theorem visible_passComma : passComma.Reports Visible :=
  (reports_passComma visible_additive).bind visible_additive fun _ =>
    reports_ite ((reports_look visible_additive _).bind visible_additive fun _ =>
      reports_ite visible_expectedValue (reports_pure visible_additive _))
      (reports_pure visible_additive _)

/-- With that many steps left, every part of a tag highlights what can be seen. -/
structure VisibleAt (fuel : Nat) : Prop where
  tag : (readTag fuel).Reports Visible
  entries : (readEntries fuel).Reports Visible
  value : (readValue fuel).Reports Visible
  list : (readList fuel).Reports Visible
  elements : (readElements fuel).Reports Visible

theorem visibleAt (fuel : Nat) : VisibleAt fuel := by
  have additive := visible_additive
  have blanks := reports_move additive fun c => ((), c.skipBlanks)
  induction fuel with
  | zero => constructor <;> exact visible_expectedValue
  | succ fuel ih =>
    have tag : (readTag (fuel + 1)).Reports Visible :=
      (visible_expect _ _).bind additive fun _ => blanks.bind additive fun _ =>
        ih.entries.bind additive fun _ => visible_expect _ _
    have entries : (readEntries (fuel + 1)).Reports Visible :=
      (reports_look additive _).bind additive fun _ => reports_ite (reports_pure additive _) <|
        visible_readKey.bind additive fun _ => blanks.bind additive fun _ =>
          (visible_expect _ _).bind additive fun _ => ih.value.bind additive fun _ =>
            visible_passComma.bind additive fun _ =>
              reports_ite ih.entries (reports_pure additive _)
    have value : (readValue (fuel + 1)).Reports Visible := by
      refine blanks.bind additive fun _ => (reports_look additive _).bind additive fun _ => ?_
      split
      · exact ih.tag
      · exact ih.list
      · exact visible_readScalar
    have list : (readList (fuel + 1)).Reports Visible := by
      intro c
      rw [readList, look_bind]
      split
      · rename_i starts
        exact visible_readArray starts
      · refine Reports.bind additive (visible_expect _ _) (fun _ => ?_) c
        exact blanks.bind additive fun _ => (reports_look additive _).bind additive fun _ =>
          reports_ite visible_expectedValue (ih.elements.bind additive fun _ =>
            visible_expect _ _)
    have elements : (readElements (fuel + 1)).Reports Visible :=
      (reports_look additive _).bind additive fun _ => reports_ite (reports_pure additive _) <|
        ih.value.bind additive fun _ => visible_passComma.bind additive fun _ =>
          reports_ite ih.elements (reports_pure additive _)
    exact ⟨tag, entries, value, list, elements⟩

theorem readWhole_visible (s : Slice) : (readWhole s).report.Visible := by
  have tag := (visibleAt (fuelFor s.text.length)).tag (.ofSlice s)
  unfold readWhole read
  simp only [Reported.report_bind, visible_append]
  refine ⟨⟨tag, visible_empty⟩, ?_⟩
  split
  · exact Reported.visible_errorIf
  · exact visible_empty

end CompoundTag

/-! ## Advancements -/

namespace Advancements

open Reading Report

variable {messages : String → Prop}

theorem visible_readId : readId.Reports Visible := by
  intro c
  obtain ⟨silent, -⟩ := Resource.splitter_splits c.rest .empty
  unfold readId
  generalize Resource.splitter c.rest .empty = split at silent ⊢
  simp [silent, Resource.read_visible]

theorem visible_readCriterion : readCriterion.Reports Visible := by
  intro c
  unfold readCriterion
  rw [look_bind]
  exact visible_readUnquoted_token (fun _ => .string) (visible_fail _ _) c

/-- A boolean is highlighted even if nothing is written, which is an error at this place. -/
theorem readBoolean_visible (excused : messages Fault.notBoolean.message) :
    readBoolean.Reports (VisibleBut messages) := by
  intro c
  have additive := visibleBut_additive messages
  unfold readBoolean
  rw [readUnquoted_bind]
  generalize (c.rest.splitWhile Charset.isUnquoted).1 = value
  generalize c.seek (c.rest.splitWhile Charset.isUnquoted).2 = after
  by_cases written : value.text = []
  · have bad : ¬(value.is "true" || value.is "false") = true := by simp [Slice.is, written]
    rw [if_neg bad]
    intro t mem
    obtain rfl : t = ⟨value.span, .keyword⟩ := List.mem_singleton.1 mem
    refine .inr ⟨rfl, ?_, _, List.mem_singleton_self _, rfl, excused⟩
    change value.start = value.stop
    rw [Slice.stop_eq, written]
    rfl
  · have token := visible_token_slice written .keyword
    have remark := reports_report visible_additive (z := Reported.error value.span
      Fault.notBoolean.message) visible_error
    split
    · exact (token after).but
    · exact (remark.bind visible_additive (fun _ => token) after).but

section Items

variable (excused : messages Fault.notBoolean.message)

include excused

theorem readCriteria_visible (fuel : Nat) : (readCriteria fuel).Reports (VisibleBut messages) := by
  have additive := visibleBut_additive messages
  have blanks := reports_move additive fun c => ((), c.skipBlanks)
  induction fuel with
  | zero => exact visible_expectedValue.but
  | succ fuel ih =>
    exact (reports_look additive _).bind additive fun _ => reports_ite (reports_pure additive _) <|
      visible_readCriterion.but.bind additive fun _ => blanks.bind additive fun _ =>
        (visible_expect _ _).but.bind additive fun _ => blanks.bind additive fun _ =>
          (readBoolean_visible excused).bind additive fun _ =>
            (reports_passComma additive).bind additive fun _ =>
              reports_ite ih (reports_pure additive _)

theorem readSetting_visible (fuel : Nat) : (readSetting fuel).Reports (VisibleBut messages) := by
  have additive := visibleBut_additive messages
  exact (reports_look additive _).bind additive fun _ => reports_ite
    ((reports_move additive _).bind additive fun _ => (reports_move additive _).bind additive
      fun _ => (readCriteria_visible excused fuel).bind additive fun _ => (visible_expect _ _).but)
    (readBoolean_visible excused)

theorem readItems_visible (fuel : Nat) : (readItems fuel).Reports (VisibleBut messages) := by
  have additive := visibleBut_additive messages
  have blanks := reports_move additive fun c => ((), c.skipBlanks)
  induction fuel with
  | zero => exact visible_expectedValue.but
  | succ fuel ih =>
    exact (reports_look additive _).bind additive fun _ => reports_ite (reports_pure additive _) <|
      visible_readId.but.bind additive fun _ => blanks.bind additive fun _ =>
        (visible_expect _ _).but.bind additive fun _ => blanks.bind additive fun _ =>
          (readSetting_visible excused fuel).bind additive fun _ =>
            (reports_passComma additive).bind additive fun _ =>
              reports_ite ih (reports_pure additive _)

theorem read_visible (s : Slice) : (read s).report.VisibleBut messages := by
  have additive := visibleBut_additive messages
  have value : (readValue (2 * s.text.length + 1)).Reports (VisibleBut messages) :=
    (visible_expect _ _).but.bind additive fun _ => (reports_move additive _).bind additive
      fun _ => (readItems_visible excused _).bind additive fun _ =>
        (visible_expect _ _).but.bind additive fun _ => (reports_look additive _).bind additive
          fun _ => reports_report additive Reported.visible_errorIf.but
  exact additive.append (value (.ofSlice s)) additive.empty

end Items

end Advancements

end CommandScript
