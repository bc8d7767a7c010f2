import CommandScript.Text.Quoted

/-!
What stands between two quotes.

A text in quotes is split at the first quote that no backslash protects, which is where
the inside of a quoted string (`QuotedBody`) ends. Any text may be put in quotes, with a
backslash in front of the characters that would count otherwise (`quotedBody_escaped`).
-/

namespace CommandScript

/-- What may stand between two quotes: no quote of that kind, unless it is escaped. -/
inductive QuotedBody (quote : Char) : List Char → Prop where
  | nil : QuotedBody quote []
  | plain {c : Char} {body : List Char} (noQuote : c ≠ quote) (noEscape : c ≠ '\\')
    (rest : QuotedBody quote body) : QuotedBody quote (c :: body)
  | escaped {c : Char} {body : List Char} (rest : QuotedBody quote body) :
    QuotedBody quote ('\\' :: c :: body)

section Quoted

variable {quote : Char} {body after cs : List Char}

theorem splitQuoted_append (quote : Char) (cs : List Char) :
    (splitQuoted quote cs).1 ++ (splitQuoted quote cs).2 = cs := by
  induction cs using splitQuoted.induct quote with
  | case1 => rfl
  | case2 => simp [splitQuoted]
  | case3 c differs => simp [splitQuoted, differs]
  | case4 d cs => simp [splitQuoted]
  | case5 d cs body rest _ differs ih => simpa [splitQuoted, differs] using ih
  | case6 c d cs differs noEscape body rest _ ih => simpa [splitQuoted, differs, noEscape] using ih

/-- A text is split at nothing but a closing quote. -/
theorem splitQuoted_closed {c : Char} (split : (splitQuoted quote cs).2 = c :: after) :
    c = quote ∧ QuotedBody quote (splitQuoted quote cs).1 := by
  induction cs using splitQuoted.induct quote with
  | case1 => cases split
  | case2 => simp_all [splitQuoted, QuotedBody.nil]
  | case3 c differs => simp [splitQuoted, differs] at split
  | case4 d cs => simp_all [splitQuoted, QuotedBody.nil]
  | case5 d cs body rest _ differs ih =>
    simp only [splitQuoted, differs] at split ⊢
    exact ⟨(ih split).1, .escaped (ih split).2⟩
  | case6 c d cs differs noEscape body rest _ ih =>
    simp only [splitQuoted, differs, noEscape] at split ⊢
    exact ⟨(ih split).1, .plain differs noEscape (ih split).2⟩

/-- A text in quotes is split at the closing one. -/
theorem QuotedBody.split (inside : QuotedBody quote body) (noEscape : '\\' ≠ quote)
    (after : List Char) : splitQuoted quote (body ++ quote :: after) = (body, quote :: after) := by
  induction inside with
  | nil => cases after <;> simp [splitQuoted]
  | @plain c body differs plain rest ih =>
    cases body <;> simp_all [splitQuoted]
  | @escaped c body rest ih => simp [splitQuoted, noEscape, ih]

/-! ## Putting a text in quotes -/

/-- The text with a backslash in front of every quote of the kind and of every backslash. -/
def escaped (quote : Char) (text : List Char) : List Char :=
  text.flatMap fun c => if c = quote ∨ c = '\\' then ['\\', c] else [c]

/-- The text in quotes. -/
def quoted (quote : Char) (text : List Char) : List Char :=
  quote :: (escaped quote text ++ [quote])

/-- In front of every character that counts stands a backslash. -/
theorem quotedBody_escaped (quote : Char) (text : List Char) :
    QuotedBody quote (escaped quote text) := by
  induction text with
  | nil => exact .nil
  | cons c text ih =>
    rw [escaped, List.flatMap_cons]
    split
    · exact .escaped ih
    · rename_i plain
      obtain ⟨noQuote, noEscape⟩ := not_or.1 plain
      exact .plain noQuote noEscape ih

/-- Backslashes are all that is added. -/
theorem mem_escaped {c : Char} {text : List Char} (mem : c ∈ escaped quote text) :
    c = '\\' ∨ c ∈ text := by
  obtain ⟨d, memText, mem⟩ := List.mem_flatMap.1 mem
  split at mem
  · rcases List.mem_cons.1 mem with rfl | mem
    · exact Or.inl rfl
    · exact Or.inr (List.mem_singleton.1 mem ▸ memText)
  · exact Or.inr (List.mem_singleton.1 mem ▸ memText)

end Quoted

end CommandScript
