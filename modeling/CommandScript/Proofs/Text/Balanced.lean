import CommandScript.Proofs.List
import CommandScript.Proofs.Text.Charset
import CommandScript.Proofs.Text.Quoted
import CommandScript.Text.Nesting

/-!
Balanced text.

In a balanced text every quote is closed and every bracket is closed by one of its kind.
A scan that enters such a text inside a bracket leaves it as it was, and on the way no
bracket leaves nothing open and no separator counts (`Balanced.quiet`). So balanced text is
passed over where the closing bracket of a list is looked for
(`Nesting.beforeClosing?_of_quiet`) and where it is cut at its separators
(`Nesting.topLevelParts_of_quiet`).

What may stand between two separators is less: a scan counts brackets and does not compare
them, so one of either kind closes the one opened last (`Nesting.Closes`). Texts that are
passed over on their own are the parts of the text that they make up
(`Nesting.topLevelParts_intercalate`).
-/

namespace CommandScript

/-- A bracket and the one that closes it. -/
inductive BracketPair : Char → Char → Prop where
  | curly : BracketPair '{' '}'
  | square : BracketPair '[' ']'

/-- A character that has a meaning outside quotes: a quote or a bracket. -/
def Nesting.isMark (c : Char) : Bool :=
  Charset.isQuote c || isOpener c || isCloser c

/-- Every quote is closed, and so is every bracket outside quotes, by one of its kind. -/
inductive Balanced : List Char → Prop where
  | nil : Balanced []
  | plain {c : Char} (noMark : Nesting.isMark c = false) : Balanced [c]
  | quoted {quote : Char} {body : List Char} (isQuote : Charset.isQuote quote = true)
    (inside : QuotedBody quote body) : Balanced (quote :: (body ++ [quote]))
  | nested {opener closer : Char} {text : List Char} (pair : BracketPair opener closer)
    (inside : Balanced text) : Balanced (opener :: (text ++ [closer]))
  | append {before after : List Char} (first : Balanced before) (second : Balanced after) :
    Balanced (before ++ after)

section Marks

variable {c : Char}

theorem Nesting.isMark_iff : isMark c = true ↔
    ((c = '"' ∨ c = '\'') ∨ c = '{' ∨ c = '[') ∨ c = '}' ∨ c = ']' := by
  simp [isMark, Charset.isQuote, isOpener, isCloser]

theorem Nesting.isOpener_iff : isOpener c = true ↔ c = '{' ∨ c = '[' := by
  simp [isOpener]

theorem Nesting.isCloser_iff : isCloser c = true ↔ c = '}' ∨ c = ']' := by
  simp [isCloser]

theorem Nesting.isMark_of_isBlank (blank : Charset.isBlank c = true) : isMark c = false := by
  apply eq_false_of_ne_true
  intro mark
  have range := Charset.isBlank_range blank
  rcases isMark_iff.1 mark with ((rfl | rfl) | rfl | rfl) | rfl | rfl
  all_goals exact absurd range (by decide)

theorem Nesting.isMark_of_isUnquoted (unquoted : Charset.isUnquoted c = true) :
    isMark c = false := by
  apply eq_false_of_ne_true
  intro mark
  rcases isMark_iff.1 mark with ((rfl | rfl) | rfl | rfl) | rfl | rfl
  all_goals exact absurd unquoted (by decide)

end Marks

section Pairs

variable {opener closer : Char}

theorem BracketPair.isOpener (pair : BracketPair opener closer) :
    Nesting.isOpener opener = true := by
  cases pair <;> rfl

theorem BracketPair.isCloser (pair : BracketPair opener closer) :
    Nesting.isCloser closer = true := by
  cases pair <;> rfl

theorem BracketPair.not_isCloser (pair : BracketPair opener closer) :
    Nesting.isCloser opener = false := by
  cases pair <;> rfl

theorem BracketPair.opener_size (pair : BracketPair opener closer) : opener.utf8Size = 1 := by
  cases pair <;> rfl

theorem BracketPair.closer_size (pair : BracketPair opener closer) : closer.utf8Size = 1 := by
  cases pair <;> rfl

end Pairs

theorem Balanced.cons {c : Char} {text : List Char} (noMark : Nesting.isMark c = false)
    (balanced : Balanced text) : Balanced (c :: text) :=
  .append (.plain noMark) balanced

/-- Characters without a meaning are balanced. -/
theorem balanced_of_plain {text : List Char} (plain : ∀ c ∈ text, Nesting.isMark c = false) :
    Balanced text := by
  induction text with
  | nil => exact .nil
  | cons c text ih =>
    obtain ⟨first, others⟩ := List.forall_mem_cons.1 plain
    exact .cons first (ih others)

theorem escape_ne_of_isQuote {quote : Char} (isQuote : Charset.isQuote quote = true) :
    '\\' ≠ quote := by
  rintro rfl
  exact absurd isQuote (by decide)

namespace Nesting

/-- Some brackets are open and no quote is. -/
def atDepth (depth : Nat) : Nesting :=
  ⟨depth, none, false⟩

/-- A quote is open inside some brackets. -/
def inQuote (depth : Nat) (quote : Char) : Nesting :=
  ⟨depth, some quote, false⟩

/-- The character closes the outermost bracket or separates at top level. -/
def counts (separator : Char) (n : Nesting) (c : Char) : Bool :=
  n.closesAll c || n.separates separator c

/-- A scan of the text leads from one state to another without being stopped. -/
inductive Quiet (stops : Nesting → Char → Bool) : Nesting → List Char → Nesting → Prop where
  | nil {n : Nesting} : Quiet stops n [] n
  | cons {n m : Nesting} {c : Char} {text : List Char} (goesOn : stops n c = false)
    (rest : Quiet stops (n.step c) text m) : Quiet stops n (c :: text) m

instance decidableQuiet (stops : Nesting → Char → Bool) (m : Nesting) :
    (text : List Char) → (n : Nesting) → Decidable (Quiet stops n text m)
  | [], n => decidable_of_iff (n = m) ⟨fun same => same ▸ .nil, fun quiet => by cases quiet; rfl⟩
  | c :: text, n =>
    have := decidableQuiet stops m text (n.step c)
    decidable_of_iff (stops n c = false ∧ Quiet stops (n.step c) text m)
      ⟨fun ⟨goesOn, rest⟩ => .cons goesOn rest, fun quiet => by
        cases quiet with
        | cons goesOn rest => exact ⟨goesOn, rest⟩⟩

section Quiet

variable {stops : Nesting → Char → Bool} {n m k : Nesting} {c : Char} {text more : List Char}

theorem Quiet.append (first : Quiet stops n text m) (second : Quiet stops m more k) :
    Quiet stops n (text ++ more) k := by
  induction first with
  | nil => exact second
  | cons goesOn _ ih => exact .cons goesOn (ih second)

theorem Quiet.mono {weaker : Nesting → Char → Bool} (quiet : Quiet stops n text m)
    (goesOn : ∀ n c, stops n c = false → weaker n c = false) : Quiet weaker n text m := by
  induction quiet with
  | nil => exact .nil
  | cons first _ ih => exact .cons (goesOn _ _ first) ih

theorem quiet_singleton (goesOn : stops n c = false) : Quiet stops n [c] (n.step c) :=
  .cons goesOn .nil

/-- The bracket that leaves nothing open is found behind a text that is passed over. -/
theorem beforeClosing?_of_quiet (quiet : Quiet closesAll n text m) (closes : m.closesAll c = true)
    (after : List Char) : n.beforeClosing? (text ++ c :: after) = some text := by
  induction quiet with
  | nil => simp [beforeClosing?, closes]
  | cons goesOn _ ih => simp [beforeClosing?, goesOn, ih closes]

/-- A text that is passed over is a single part. -/
theorem topLevelParts_of_quiet {separator : Char}
    (quiet : Quiet (fun n c => n.separates separator c) n text m) :
    n.topLevelParts separator text = [text] := by
  induction quiet with
  | nil => rfl
  | cons goesOn _ ih => simp [topLevelParts, goesOn, ih]

end Quiet

/-! ## Balanced text inside a bracket -/

section Inside

variable {quote c : Char} {body : List Char}

/-- With a bracket open no separator counts, and only a bracket may leave nothing open. -/
theorem counts_atDepth (separator : Char) (depth : Nat) (noCloser : isCloser c = false) :
    counts separator (atDepth (depth + 1)) c = false := by
  simp [counts, closesAll, separates, atDepth, noCloser]

/-- With two brackets open nothing counts. -/
theorem counts_atDepth_succ (separator : Char) (depth : Nat) (c : Char) :
    counts separator (atDepth (depth + 2)) c = false := by
  simp [counts, closesAll, separates, atDepth]

/-- In quotes nothing counts. -/
theorem counts_of_quote {n : Nesting} (separator c : Char) (inside : n.quote = some quote) :
    counts separator n c = false := by
  simp [counts, closesAll, separates, inside]

theorem step_plain (depth : Nat) (noMark : isMark c = false) :
    (atDepth depth).step c = atDepth depth := by
  simp only [isMark, Bool.or_eq_false_iff] at noMark
  simp [step, atDepth, noMark]

theorem step_opener (depth : Nat) (opens : isOpener c = true) :
    (atDepth depth).step c = atDepth (depth + 1) := by
  rcases isOpener_iff.1 opens with rfl | rfl <;> rfl

theorem step_closer (depth : Nat) (closes : isCloser c = true) :
    (atDepth (depth + 1)).step c = atDepth depth := by
  rcases isCloser_iff.1 closes with rfl | rfl <;> rfl

theorem step_opening_quote (depth : Nat) (isQuote : Charset.isQuote quote = true) :
    (atDepth depth).step quote = inQuote depth quote := by
  simp [step, atDepth, inQuote, isQuote]

theorem step_closing_quote (depth : Nat) (noEscape : '\\' ≠ quote) :
    (inQuote depth quote).step quote = atDepth depth := by
  simp [step, atDepth, inQuote, noEscape.symm]

theorem step_inQuote (depth : Nat) (noQuote : c ≠ quote) (noEscape : c ≠ '\\') :
    (inQuote depth quote).step c = inQuote depth quote := by
  simp [step, inQuote, noQuote, noEscape]

/-- What stands in quotes is passed over, and so is the quote that closes it. -/
theorem quiet_quotedBody {stops : Nesting → Char → Bool} {depth : Nat}
    (isQuote : Charset.isQuote quote = true) (inside : QuotedBody quote body)
    (silent : ∀ n c, n.quote = some quote → stops n c = false) :
    Quiet stops (inQuote depth quote) (body ++ [quote]) (atDepth depth) := by
  induction inside with
  | nil =>
    have closing : Quiet stops (inQuote depth quote) [quote] ((inQuote depth quote).step quote) :=
      quiet_singleton (silent _ _ rfl)
    rwa [step_closing_quote depth (escape_ne_of_isQuote isQuote)] at closing
  | @plain c body noQuote noEscape _ ih =>
    refine .cons (silent _ _ rfl) ?_
    rwa [step_inQuote depth noQuote noEscape]
  | escaped _ ih => exact .cons (silent _ _ rfl) (.cons (silent _ _ rfl) ih)

end Inside

/-- Inside a bracket balanced text is passed over. -/
theorem quiet_of_balanced {text : List Char} (separator : Char) (balanced : Balanced text)
    (depth : Nat) :
    Quiet (counts separator) (atDepth (depth + 1)) text (atDepth (depth + 1)) := by
  induction balanced generalizing depth with
  | nil => exact .nil
  | plain noMark =>
    have noCloser := (Bool.or_eq_false_iff.1 noMark).2
    have goesOn := counts_atDepth separator depth noCloser
    have single := quiet_singleton goesOn
    rwa [step_plain _ noMark] at single
  | @quoted quote body isQuote inside =>
    have noCloser : isCloser quote = false := by
      rcases Charset.isQuote_iff.1 isQuote with rfl | rfl <;> rfl
    refine .cons (counts_atDepth separator depth noCloser) ?_
    rw [step_opening_quote _ isQuote]
    exact quiet_quotedBody isQuote inside fun n c => counts_of_quote separator c
  | @nested opener closer text pair _ ih =>
    have closing := quiet_singleton (counts_atDepth_succ separator depth closer)
    rw [step_closer _ pair.isCloser] at closing
    refine .cons (counts_atDepth separator depth pair.not_isCloser) ?_
    rw [step_opener _ pair.isOpener]
    exact (ih (depth + 1)).append closing
  | append _ _ ih ihSecond => exact (ih depth).append (ihSecond depth)

/-- Inside one bracket the text is passed over as far as the bracket that closes it goes. -/
def Enclosed (text : List Char) : Prop :=
  Quiet closesAll (atDepth 1) text (atDepth 1)

theorem enclosed_of_balanced {text : List Char} (balanced : Balanced text) : Enclosed text :=
  (quiet_of_balanced ',' balanced 0).mono fun _ _ silent => (Bool.or_eq_false_iff.1 silent).1

/-- From outside, the bracket that closes the one around an enclosed text is found. -/
theorem beforeClosing?_of_enclosed {opener closer : Char} {text : List Char}
    (pair : BracketPair opener closer) (enclosed : Enclosed text) (after : List Char) :
    outside.beforeClosing? (opener :: (text ++ closer :: after)) = some (opener :: text) := by
  have quiet : Quiet closesAll outside (opener :: text) (atDepth 1) := by
    refine .cons (by simp [closesAll, pair.not_isCloser]) ?_
    have opened : outside.step opener = atDepth 1 := step_opener 0 pair.isOpener
    rw [opened]
    exact enclosed
  exact beforeClosing?_of_quiet quiet (by simp [closesAll, atDepth, pair.isCloser]) after

/-! ## Top level -/

section TopLevel

variable {separator : Char} {text more : List Char}

/-- At top level the text is passed over as far as separators go. -/
def Whole (separator : Char) (text : List Char) : Prop :=
  Quiet (fun n c => n.separates separator c) (atDepth 0) text (atDepth 0)

instance (separator : Char) (text : List Char) : Decidable (Whole separator text) :=
  decidableQuiet ..

theorem Whole.append (first : Whole separator text) (second : Whole separator more) :
    Whole separator (text ++ more) :=
  Quiet.append first second

theorem whole_of_plain (plain : ∀ c ∈ text, isMark c = false ∧ c ≠ separator) :
    Whole separator text := by
  induction text with
  | nil => exact .nil
  | cons c text ih =>
    obtain ⟨⟨noMark, differs⟩, others⟩ := List.forall_mem_cons.1 plain
    refine .cons (by simp [separates, differs]) ?_
    rw [step_plain 0 noMark]
    exact ih others

/-- Balanced text in brackets contains no separator that counts. -/
theorem whole_of_bracketed {opener closer : Char} (pair : BracketPair opener closer)
    (balanced : Balanced text) : Whole separator (opener :: (text ++ [closer])) := by
  have inside := (quiet_of_balanced separator balanced 0).mono fun n c silent =>
    (Bool.or_eq_false_iff.1 silent).2
  have closing : Quiet (fun n c => n.separates separator c) (atDepth 1) [closer]
      ((atDepth 1).step closer) := quiet_singleton (by simp [separates, atDepth])
  rw [step_closer 0 pair.isCloser] at closing
  refine .cons (by simp [separates, pair.isOpener]) ?_
  rw [step_opener 0 pair.isOpener]
  exact inside.append closing

theorem Whole.topLevelParts (whole : Whole separator text) :
    outside.topLevelParts separator text = [text] :=
  topLevelParts_of_quiet whole

/-- A text is cut at a separator behind what is passed over. -/
theorem topLevelParts_of_quiet_append {n m : Nesting}
    (quiet : Quiet (fun n c => n.separates separator c) n text m)
    (cut : m.separates separator separator = true) (after : List Char) :
    n.topLevelParts separator (text ++ separator :: after) =
      text :: m.topLevelParts separator after := by
  induction quiet with
  | nil => simp [CommandScript.Nesting.topLevelParts, cut]
  | cons goesOn _ ih => simp [CommandScript.Nesting.topLevelParts, goesOn, ih cut]

/-- Texts that are passed over on their own are cut apart again at the separators between
them. -/
theorem topLevelParts_intercalate {parts : List (List Char)}
    (noMark : isMark separator = false) (nonempty : parts ≠ [])
    (whole : ∀ part ∈ parts, Whole separator part) :
    outside.topLevelParts separator ([separator].intercalate parts) = parts := by
  have cut : (atDepth 0).separates separator separator = true := by
    simp only [isMark, Bool.or_eq_false_iff] at noMark
    simp [separates, atDepth, noMark]
  induction parts with
  | nil => exact absurd rfl nonempty
  | cons part parts ih =>
    obtain ⟨first, others⟩ := List.forall_mem_cons.1 whole
    cases parts with
    | nil =>
      rw [List.intercalate_singleton]
      exact first.topLevelParts
    | cons next parts =>
      rw [List.intercalate_cons_cons, List.append_assoc]
      have later := ih (List.cons_ne_nil _ _) others
      exact (topLevelParts_of_quiet_append first cut _).trans (congrArg _ later)

/-- Enclosed texts and unmarked separators between them make up an enclosed text. -/
theorem enclosed_intercalate {parts : List (List Char)} (noMark : isMark separator = false)
    (enclosed : ∀ part ∈ parts, Enclosed part) : Enclosed ([separator].intercalate parts) :=
  intercalate_closed .nil Quiet.append (enclosed_of_balanced (.plain noMark)) enclosed

end TopLevel

/-! ## Text that closes what is open -/

/-- With `depth` brackets open, the text closes these and all that it opens, of whatever kind,
and its quotes too; at no place does it close more than is open, and outside of all brackets
and quotes no separator stands. -/
inductive Closes (separator : Char) : Nat → List Char → Prop where
  | nil : Closes separator 0 []
  | plain {depth : Nat} {c : Char} {text : List Char} (noMark : isMark c = false)
    (noCut : depth = 0 → c ≠ separator) (rest : Closes separator depth text) :
    Closes separator depth (c :: text)
  | quoted {depth : Nat} {quote : Char} {body text : List Char}
    (isQuote : Charset.isQuote quote = true) (inside : QuotedBody quote body)
    (rest : Closes separator depth text) :
    Closes separator depth (quote :: (body ++ [quote] ++ text))
  | opener {depth : Nat} {c : Char} {text : List Char} (opens : isOpener c = true)
    (rest : Closes separator (depth + 1) text) : Closes separator depth (c :: text)
  | closer {depth : Nat} {c : Char} {text : List Char} (closes : isCloser c = true)
    (rest : Closes separator depth text) : Closes separator (depth + 1) (c :: text)

section Closes

variable {separator : Char} {depth : Nat} {text more : List Char}

theorem Closes.append (first : Closes separator depth text) (second : Closes separator 0 more) :
    Closes separator depth (text ++ more) := by
  induction first with
  | nil => exact second
  | plain noMark noCut _ ih => exact .plain noMark noCut ih
  | @quoted depth quote body text isQuote inside _ ih =>
    have whole := Closes.quoted isQuote inside ih
    rwa [← List.append_assoc] at whole
  | opener opens _ ih => exact .opener opens ih
  | closer closes _ ih => exact .closer closes ih

theorem closes_of_plain (plain : ∀ c ∈ text, isMark c = false ∧ c ≠ separator) :
    Closes separator 0 text := by
  induction text with
  | nil => exact .nil
  | cons c text ih =>
    obtain ⟨⟨noMark, differs⟩, others⟩ := List.forall_mem_cons.1 plain
    exact .plain noMark (fun _ => differs) (ih others)

/-- With further brackets open around it, such a text is passed over by a scan that stops
in no quotes, and where nothing but these is open only at closing brackets and separators. -/
theorem Closes.quiet {stops : Nesting → Char → Bool} {around : Nat}
    (noMark : isMark separator = false) (closes : Closes separator depth text)
    (inQuotes : ∀ n q c, n.quote = some q → stops n c = false)
    (silent : ∀ depth c, (depth = 0 → isCloser c = false ∧ c ≠ separator) →
      stops (atDepth (around + depth)) c = false) :
    Quiet stops (atDepth (around + depth)) text (atDepth around) := by
  have opening : ∀ {c}, isMark c = true → isCloser c = false → ∀ depth,
      stops (atDepth (around + depth)) c = false := by
    intro c mark noCloser depth
    refine silent depth c fun _ => ⟨noCloser, ?_⟩
    rintro rfl
    rw [noMark] at mark
    cases mark
  induction closes with
  | nil => exact .nil
  | @plain depth c text plain noCut _ ih =>
    have noCloser := (Bool.or_eq_false_iff.1 plain).2
    refine .cons (silent depth c fun top => ⟨noCloser, noCut top⟩) ?_
    rw [step_plain _ plain]
    exact ih
  | @quoted depth quote body text isQuote inside _ ih =>
    have noCloser : isCloser quote = false := by
      rcases Charset.isQuote_iff.1 isQuote with rfl | rfl <;> rfl
    refine .cons (opening (by simp [isMark, isQuote]) noCloser depth) ?_
    rw [step_opening_quote _ isQuote]
    exact (quiet_quotedBody isQuote inside fun n c => inQuotes n quote c).append ih
  | @opener depth c text opens _ ih =>
    have noCloser : isCloser c = false := by
      rcases isOpener_iff.1 opens with rfl | rfl <;> rfl
    refine .cons (opening (by simp [isMark, opens]) noCloser depth) ?_
    rw [step_opener _ opens]
    exact ih
  | @closer depth c text closes _ ih =>
    refine .cons (silent (depth + 1) c nofun) ?_
    rw [← Nat.add_assoc, step_closer _ closes]
    exact ih

theorem Closes.enclosed (noMark : isMark separator = false) (closes : Closes separator 0 text) :
    Enclosed text := by
  have quiet : Quiet closesAll (atDepth (1 + 0)) text (atDepth 1) := by
    refine closes.quiet noMark (fun n q c inside => by simp [closesAll, inside]) ?_
    intro depth c top
    rcases Nat.eq_zero_or_pos depth with rfl | positive
    · simp [closesAll, (top rfl).1]
    · have deep : ¬ 1 + depth ≤ 1 := by omega
      simp [closesAll, atDepth, deep]
  exact quiet

theorem Closes.whole (noMark : isMark separator = false) (closes : Closes separator 0 text) :
    Whole separator text := by
  have quiet : Quiet (fun n c => n.separates separator c) (atDepth (0 + 0)) text (atDepth 0) := by
    refine closes.quiet noMark (fun n q c inside => by simp [separates, inside]) ?_
    intro depth c top
    rcases Nat.eq_zero_or_pos depth with rfl | positive
    · simp [separates, (top rfl).2]
    · have deep : depth ≠ 0 := by omega
      simp [separates, atDepth, deep]
  exact quiet

end Closes

end Nesting

end CommandScript
