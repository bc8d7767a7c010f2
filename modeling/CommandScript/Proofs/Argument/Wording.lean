import CommandScript.Kind.Builtin
import CommandScript.Proofs.Report

/-!
How the arguments word their errors.

A walk says of a literal that it is unknown, in words that open with a capital `U`. No
argument of the library words an error so (`BuiltinKind.read_worded`): most of them put a
label in front of whatever they say, and the others open with letters of their own.
-/

namespace CommandScript

/-! ## Messages -/

/-- The message opens with another letter than what is said of unknown literals. -/
def OpensOtherwise (message : String) : Prop :=
  message.toList.head?.any (· != 'U') = true

instance : DecidablePred OpensOtherwise :=
  fun _ => inferInstanceAs (Decidable (_ = true))

theorem OpensOtherwise.of_letters {letters : List Char}
    (other : letters.head?.any (· != 'U') = true) : OpensOtherwise (.ofList letters) := by
  rwa [OpensOtherwise, String.toList_ofList]

theorem OpensOtherwise.append {opening : String} (opens : OpensOtherwise opening)
    (rest : String) : OpensOtherwise (opening ++ rest) := by
  unfold OpensOtherwise at *
  rw [String.toList_append]
  cases letters : opening.toList with
  | nil => rw [letters] at opens; cases opens
  | cons c cs => rwa [letters] at opens

theorem OpensOtherwise.not_unknown {message : String} (opens : OpensOtherwise message) :
    ¬"Unknown literal".toList <+: message.toList := by
  rintro ⟨rest, whole⟩
  rw [OpensOtherwise, ← whole] at opens
  cases opens

/-! ## Reports -/

namespace Report

/-- Every error of the report is worded so. -/
def Worded (P : String → Prop) (r : Report) : Prop :=
  ∀ e ∈ r.errors, P e.message

variable {P : String → Prop} {a b r : Report} {span : Span} {message label : String}

@[simp] theorem worded_empty : (∅ : Report).Worded P :=
  nofun

@[simp] theorem worded_append : (a ++ b).Worded P ↔ a.Worded P ∧ b.Worded P :=
  List.forall_mem_append

@[simp] theorem worded_error : (error span message).Worded P ↔ P message :=
  List.forall_mem_singleton

@[simp] theorem worded_warning : (warning span message).Worded P :=
  nofun

@[simp] theorem worded_token {kind : Highlight} : (token span kind).Worded P :=
  nofun

@[simp] theorem worded_labelled :
    (r.labelled label).Worded P ↔ r.Worded fun message => P (label ++ message) :=
  List.forall_mem_map

theorem worded_additive (P : String → Prop) : Additive (Worded P) where
  empty := worded_empty
  append first second := worded_append.2 ⟨first, second⟩

end Report

namespace Reported

variable {P : String → Prop} {span : Span} {message : String}

@[simp] theorem worded_errorIf {condition : Bool} :
    (errorIf condition span message).report.Worded P ↔ (condition = true → P message) := by
  cases condition with
  | false => exact iff_of_true Report.worded_empty nofun
  | true => simp [errorIf]

theorem worded_each {α : Type} {f : α → Reported Unit} {as : List α}
    (each : ∀ a ∈ as, (f a).report.Worded P) : (Reported.each f as).report.Worded P :=
  (Report.worded_additive P).each each

end Reported

theorem worded_of_label {label : String} {r : Report} (opens : OpensOtherwise label) :
    (r.labelled label).Worded OpensOtherwise :=
  Report.worded_labelled.2 fun remark _ => opens.append remark.message

/-! ## Ids -/

/-- An id is refused in the words for its faults. -/
theorem Resource.read_worded {P : String → Prop} (worded : ∀ fault : Fault, P fault.message)
    (allowTag : Bool) (kind : Highlight) (s : Slice) :
    (Resource.read allowTag kind s).report.Worded P := by
  have parts : ∀ mark body space path, (readParts kind mark body space path).report.Worded P := by
    intro mark body space path
    unfold readParts
    split
    · simp [worded]
    · cases mark <;> simp
  have body : ∀ mark body, (readBody kind mark body).report.Worded P := by
    intro mark body
    unfold readBody
    split
    · exact parts _ _ _ _
    · exact parts _ _ _ _
    · simp [worded]
  unfold read
  split
  · dsimp only
    split
    · simp [worded]
    · exact body _ _
  · exact body _ _

/-! ## Lists and ranges -/

section Lists

variable {P : String → Prop}

/-- What is said of a number: that it cannot be read, or that it violates a bound. -/
theorem NumberSpec.read_worded {spec : NumberSpec} (unreadable : P spec.unreadable)
    (below : ∀ value, ∀ bound ∈ spec.min, P (spec.belowMessage value bound))
    (above : ∀ value, ∀ bound ∈ spec.max, P (spec.aboveMessage value bound)) (s : Slice) :
    (spec.read s).report.Worded P := by
  unfold read
  split
  · simpa using unreadable
  · rename_i value _
    have bounds : (spec.checkBounds s value).report.Worded P := by
      unfold checkBounds
      cases min : spec.min <;> cases max : spec.max <;> simp [below, above, min, max]
    simpa using bounds

theorem RangeSpec.read_worded {spec : RangeSpec} (unreadable : P spec.unreadable)
    (missingBounds : P spec.missingBounds) (tooManyParts : P spec.tooManyParts)
    (negative : P spec.negative) (s : Slice) : (spec.read s).report.Worded P := by
  have bound : ∀ s, (spec.bound.read s).report.Worded P :=
    NumberSpec.read_worded unreadable (fun _ _ _ => negative) nofun
  have readBound : ∀ openEnd s, (spec.readBound openEnd s).report.Worded P := by
    intro openEnd s
    unfold readBound
    split
    · exact Report.worded_empty
    · exact bound s
  unfold read
  split
  · simpa using bound _
  · split
    · simpa using missingBounds
    · simp [readBound]
  · simpa using tooManyParts

/-- The messages of a list. -/
structure PropertyWording.All (P : String → Prop) (wording : PropertyWording) : Prop where
  unclosed : P wording.unclosed
  badKey : P wording.badKey
  badValue : P wording.badValue
  emptyKey : P wording.emptyKey
  emptyValue : P wording.emptyValue
  missingEquals : P wording.missingEquals
  extraComma : P wording.extraComma

theorem PropertySpec.readEntry_worded {spec : PropertySpec} (all : spec.wording.All P)
    (part : Slice) : (spec.readEntry part).report.Worded P := by
  unfold readEntry
  dsimp only
  split
  · simpa using all.missingEquals
  · split
    · simpa using all.emptyKey
    · split
      · simpa using all.emptyValue
      · split <;> simp [all.badKey, all.badValue]

theorem PropertySpec.readParts_worded {spec : PropertySpec} (all : spec.wording.All P)
    (inner : Slice) (before : Option Slice) (parts commas : List Slice) :
    (spec.readParts inner before parts commas).report.Worded P := by
  induction parts generalizing before commas with
  | nil => exact Report.worded_empty
  | cons part parts ih =>
    rw [readParts]
    split
    · simp [all.extraComma, ih]
    · simp [readEntry_worded all, ih]

theorem PropertySpec.read_worded {spec : PropertySpec} (all : spec.wording.All P) (s : Slice) :
    (spec.read s).report.Worded P := by
  unfold read
  split
  · simpa using all.unclosed
  · split
    · exact Report.worded_empty
    · simp [readParts_worded all]

end Lists

namespace Argument

variable {P : String → Prop} {r : TokenReader}

theorem readWord_worded {missing : String} {check : Slice → Reported Unit} (holds : P missing)
    (checked : ∀ word, (check word).report.Worded P) (r : TokenReader) :
    (readWord missing check r).report.Worded P := by
  unfold readWord
  split
  · simp [checked]
  · simp [holds]

theorem readRest_worded {missing : String} (holds : P missing) (r : TokenReader) :
    (readRest missing r).report.Worded P := by
  unfold readRest
  split
  · simp [holds]
  · simp

theorem skipSeparator_worded (holds : P extraSpace) (r : TokenReader) :
    (skipSeparator r).report.Worded P := by
  unfold skipSeparator checkSeparator
  split
  · split <;> simp [holds]
  · simp

/-! ## Vectors, blocks and particles -/

theorem VectorSpec.message_opens {spec : VectorSpec} (named : OpensOtherwise spec.name)
    (fault : Fault) : OpensOtherwise (spec.message fault) :=
  (named.append ": ").append fault.message

theorem VectorSpec.checkWords_worded {spec : VectorSpec}
    (messages : ∀ fault, P (spec.message fault)) (first : Slice) (others : List Slice) :
    (spec.checkWords first others).report.Worded P := by
  have component : ∀ c, (spec.checkComponent c).report.Worded P := by
    intro c
    unfold checkComponent checkNumber
    cases c.mark <;> split <;> simp [messages]
  simp [checkWords, messages, Reported.worded_each fun c _ => component c]

theorem VectorSpec.readOthers_worded (holds : P extraSpace) (n : Nat) (r : TokenReader) :
    (readOthers n r).report.Worded P := by
  induction n generalizing r with
  | zero => exact Report.worded_empty
  | succ n ih =>
    rw [readOthers, Reported.report_bind, Report.worded_append]
    refine ⟨skipSeparator_worded holds r, ?_⟩
    dsimp only
    split
    · simp [ih]
    · simp

theorem readVector_worded {spec : VectorSpec} (named : OpensOtherwise spec.name)
    (r : TokenReader) : (readVector spec r).report.Worded OpensOtherwise := by
  have messages := VectorSpec.message_opens named
  unfold readVector
  split
  · simp [messages]
  · rw [Reported.report_bind, Report.worded_append]
    refine ⟨VectorSpec.readOthers_worded (.of_letters rfl) _ _, ?_⟩
    dsimp only
    split
    · simp [VectorSpec.checkWords_worded messages]
    · simp [messages]

theorem readBlock_worded {spec : BlockSpec} (named : OpensOtherwise spec.name)
    (registries : Registries) (r : TokenReader) :
    (readBlock spec registries r).report.Worded OpensOtherwise := by
  have label := named.append ": "
  exact readWord_worded (label.append _) (fun _ => worded_of_label label) r

namespace Particle

theorem name_opens : OpensOtherwise name :=
  .of_letters rfl

theorem message_opens (fault : Fault) : OpensOtherwise fault.message :=
  (name_opens.append ": ").append _

theorem readExtra_worded (registries : Registries) (id : String) (word : Slice) (r : TokenReader) :
    (readExtra registries id word r).report.Worded OpensOtherwise := by
  unfold readExtra
  split
  · exact Report.worded_empty
  · rename_i extra _
    rw [Reported.report_bind, Report.worded_append]
    refine ⟨skipSeparator_worded (.of_letters rfl) r, ?_⟩
    dsimp only
    split
    · cases extra with
      | block => exact readBlock_worded name_opens registries _
      | dust => exact readVector_worded name_opens _
    · simp [message_opens]

end Particle

theorem readParticle_worded (registries : Registries) (r : TokenReader) :
    (readParticle registries r).report.Worded OpensOtherwise := by
  unfold readParticle
  split
  · unfold Particle.readAfter
    rw [Reported.report_bind, Report.worded_append]
    refine ⟨worded_of_label (Particle.name_opens.append ": "), ?_⟩
    split
    · exact Report.worded_empty
    · dsimp only
      split
      · simp
      · exact Particle.readExtra_worded registries _ _ _
  · simp [Particle.message_opens]

/-! ## Words -/

theorem WordKind.message_opens (fault : Fault) : OpensOtherwise fault.message := by
  cases fault with
  | missing => exact .of_letters rfl
  | illegalChar => exact .of_letters rfl
  | badAxis c => exact .append (.append (.of_letters rfl) _) _
  | repeatedAxis c => exact .append (.append (.of_letters rfl) _) _
  | unknownSlot slot => exact .append (.append (.of_letters rfl) _) _
  | unknownColor name => exact .append (.append (.of_letters rfl) _) _
  | unknownAnchor anchor => exact .append (.append (.of_letters rfl) _) _

theorem WordKind.checkAxes_worded (seen : List Char) (pieces : List (Char × Slice)) :
    (checkAxes seen pieces).report.Worded OpensOtherwise := by
  induction pieces generalizing seen with
  | nil => exact Report.worded_empty
  | cons piece pieces ih =>
    rw [checkAxes]
    split
    · simp [message_opens, ih]
    · simp [ih]

theorem checkChars_worded {fault? : Char → Option String}
    (messages : ∀ c, ∀ message ∈ fault? c, P message) (word : Slice) :
    (checkChars fault? word).report.Worded P := by
  refine Reported.worded_each fun piece _ => ?_
  dsimp only
  split
  · rename_i message found
    exact Report.worded_error.2 (messages _ message found)
  · exact Report.worded_empty

theorem WordKind.check_worded (kind : WordKind) (word : Slice) :
    (kind.check word).report.Worded OpensOtherwise := by
  have value : (kind.checkValue word).report.Worded OpensOtherwise := by
    cases kind <;> simp [checkValue, message_opens, checkAxes_worded]
  unfold check
  split
  · refine Report.worded_append.2 ⟨checkChars_worded (fun c message found => ?_) word, ?_⟩
    · obtain ⟨-, same⟩ := Option.ite_none_left_eq_some.1 found
      exact Option.some.inj same ▸ message_opens .illegalChar
    · simp [value]
  · simp [value]

theorem readOperator_worded (r : TokenReader) :
    (readOperator r).report.Worded OpensOtherwise := by
  refine readWord_worded (.of_letters rfl) (fun word => ?_) r
  have unknown : OpensOtherwise s!"OperatorArgument: unknown operator '{word}'" :=
    .append (.append (.of_letters rfl) _) _
  simp [unknown]

/-! ## Durations and targets -/

theorem Duration.message_opens (fault : Fault) : OpensOtherwise fault.message := by
  cases fault with
  | missing => exact .of_letters rfl
  | unreadable digits => exact .append (.append (.of_letters rfl) _) _
  | unknownUnit unit => exact .append (.append (.append (.of_letters rfl) _) _) _
  | tooShort min ticks => exact .append (.append (.append (.of_letters rfl) _) _) _

theorem Duration.checkLength_worded (min : Int) (word digits unit : Slice) :
    (checkLength min word digits unit).report.Worded OpensOtherwise := by
  unfold checkLength
  split
  · simp [message_opens]
  · split <;> simp [message_opens]

theorem Duration.check_worded (min : Int) (word : Slice) :
    (check min word).report.Worded OpensOtherwise := by
  unfold check
  dsimp only
  split
  · simp [message_opens]
  · split <;> simp [checkLength_worded]

namespace Target

theorem message_opens (fault : Fault) : OpensOtherwise fault.message :=
  .append (.of_letters rfl) _

theorem checkPredicate_worded (entry : PropertyEntry) :
    (checkPredicate entry).report.Worded OpensOtherwise := by
  unfold checkPredicate
  split
  · exact Report.worded_empty
  · split
    · simp [message_opens]
    · split
      · simp [message_opens]
      · exact worded_of_label (.append (.append (.of_letters rfl) _) _)

theorem checkPredicates_worded (block : Slice) :
    (checkPredicates block).report.Worded OpensOtherwise := by
  have list : predicateSpec.wording.All OpensOtherwise := by
    constructor <;> exact .of_letters rfl
  unfold checkPredicates
  split
  · exact Report.worded_empty
  · split
    · simp [message_opens]
    · rw [Reported.report_bind, Report.worded_append]
      refine ⟨PropertySpec.read_worded list block, ?_⟩
      split
      · exact Report.worded_empty
      · simp [message_opens, Reported.worded_each fun entry _ => checkPredicate_worded entry]

theorem checkSelector_worded (word : Slice) :
    (checkSelector word).report.Worded OpensOtherwise := by
  unfold checkSelector
  dsimp only
  split
  · simp [message_opens]
  · split
    · simp [checkPredicates_worded]
    · simp [message_opens]

theorem check_worded (kind : TargetKind) (word : Slice) :
    (check kind word).report.Worded OpensOtherwise := by
  unfold check checkPlayer
  split
  · simp
  · split
    · exact checkSelector_worded word
    · split
      · simp
      · split <;> simp [message_opens]

end Target

/-! ## All arguments -/

/-- The name that an argument carries among its settings. -/
def ownName? : Argument → Option String
  | vector spec => some spec.name
  | block spec => some spec.name
  | _ => none

theorem read_worded {argument : Argument}
    (named : ∀ name ∈ argument.ownName?, OpensOtherwise name) (registries : Registries)
    (r : TokenReader) : (argument.read registries r).report.Worded OpensOtherwise := by
  cases argument with
  | vector spec => exact readVector_worded (named _ rfl) r
  | resource allowTag =>
    have label : OpensOtherwise (resourceLabel allowTag) := by
      cases allowTag <;> exact .of_letters rfl
    exact readWord_worded (.of_letters rfl) (fun _ => worded_of_label label) r
  | uuid =>
    refine readWord_worded (.of_letters rfl) (fun word => ?_) r
    split
    · exact Report.worded_token
    · exact Report.worded_error.2 (.of_letters rfl)
  | duration min => exact readWord_worded (Duration.message_opens _) (Duration.check_worded min) r
  | word kind => exact readWord_worded (WordKind.message_opens _) kind.check_worded r
  | criterion => exact readWord_worded (.of_letters rfl) (fun _ => Report.worded_token) r
  | operator => exact readOperator_worded r
  | block spec => exact readBlock_worded (named _ rfl) registries r
  | item allowTag =>
    have label : OpensOtherwise (Item.label allowTag) := by
      cases allowTag <;> exact .of_letters rfl
    exact readWord_worded (label.append _) (fun _ => worded_of_label label) r
  | particle => exact readParticle_worded registries r
  | compoundTag =>
    have label : OpensOtherwise compoundTagLabel := .of_letters rfl
    exact readWord_worded (label.append _) (fun _ => worded_of_label label) r
  | message => exact readRest_worded (.of_letters rfl) r
  | range form =>
    refine readWord_worded (.of_letters rfl) (fun word => ?_) r
    have range : ((rangeSpec form).read word).report.Worded OpensOtherwise :=
      RangeSpec.read_worded (.of_letters rfl) (.of_letters rfl) (.of_letters rfl)
        (.of_letters rfl) word
    simpa using range
  | target kind => exact readWord_worded (Target.message_opens _) (Target.check_worded kind) r
  | string kind =>
    have label : OpensOtherwise kind.label := .append (.append (.of_letters rfl) _) _
    cases kind with
    | greedy => exact readRest_worded (label.append _) r
    | word => exact readWord_worded (label.append _) (fun _ => worded_of_label label) r
    | phrase => exact readWord_worded (label.append _) (fun _ => worded_of_label label) r
  | boolean =>
    refine readWord_worded (.of_letters rfl) (fun word => ?_) r
    split
    · exact Report.worded_token
    · exact Report.worded_error.2 (.of_letters rfl)
  | number form min max =>
    have label : OpensOtherwise (numberLabel form) := by cases form <;> exact .of_letters rfl
    exact readWord_worded (.of_letters rfl) (fun _ => worded_of_label label) r

end Argument

namespace BuiltinKind

theorem read_worded (kind : BuiltinKind) (properties : Properties) (registries : Registries)
    (r : TokenReader) :
    ((kind.kind.build properties).read registries r).report.Worded OpensOtherwise := by
  have named : (kind.argument properties).ownName?.all (OpensOtherwise ·) = true := by
    cases kind <;> rfl
  refine Argument.read_worded (fun name mem => ?_) registries r
  exact of_decide_eq_true ((Option.all_eq_true _ _).1 named name mem)

end BuiltinKind

end CommandScript
