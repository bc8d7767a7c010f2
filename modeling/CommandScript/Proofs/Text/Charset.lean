import CommandScript.Text.Charset

/-!
Which character classes exclude one another.

The ASCII classes lie between the plus sign and the letter z, and all blanks lie
outside of that range.
-/

namespace CommandScript.Charset

variable {c : Char}

theorem le_toNat {a b : Char} (le : (decide (a ≤ b)) = true) : a.toNat ≤ b.toNat :=
  UInt32.le_iff_toNat_le.1 (of_decide_eq_true le)

theorem isAlphanumeric_range (alphanumeric : isAlphanumeric c = true) :
    48 ≤ c.toNat ∧ c.toNat ≤ 122 := by
  unfold isAlphanumeric isLower isUpper isDigit at alphanumeric
  simp only [Bool.or_eq_true, Bool.and_eq_true] at alphanumeric
  rcases alphanumeric with (⟨low, high⟩ | ⟨low, high⟩) | ⟨low, high⟩
  all_goals
    exact ⟨Nat.le_trans (by decide) (le_toNat low), Nat.le_trans (le_toNat high) (by decide)⟩

theorem isUnquoted_range (unquoted : isUnquoted c = true) : 43 ≤ c.toNat ∧ c.toNat ≤ 122 := by
  unfold isUnquoted at unquoted
  simp only [Bool.or_eq_true, beq_iff_eq] at unquoted
  rcases unquoted with (((alphanumeric | rfl) | rfl) | rfl) | rfl
  · have := isAlphanumeric_range alphanumeric
    omega
  all_goals decide

theorem isUnquoted_of_isWord (isWord : isWord c = true) : isUnquoted c = true := by
  rcases Bool.or_eq_true_iff.1 isWord with alphanumeric | underscore
  · simp [isUnquoted, alphanumeric]
  · simp [isUnquoted, underscore]

theorem isBlank_range (blank : isBlank c = true) : c.toNat ≤ 32 ∨ 133 ≤ c.toNat := by
  have wide : (wideBlanks.all fun c => 133 ≤ c.toNat) = true := by decide
  unfold isBlank at blank
  simp only [Bool.or_eq_true, Bool.and_eq_true, beq_iff_eq] at blank
  rcases blank with (rfl | ⟨-, high⟩) | mem
  · exact Or.inl (Nat.le_refl _)
  · exact Or.inl (Nat.le_trans (le_toNat high) (by decide))
  · exact Or.inr (of_decide_eq_true (List.all_eq_true.1 wide c (List.contains_iff_mem.1 mem)))

/-- No blank lies between those of ASCII and the wide ones. -/
theorem isBlank_of_range (low : 32 < c.toNat) (high : c.toNat < 133) : isBlank c = false := by
  apply eq_false_of_ne_true
  intro blank
  have := isBlank_range blank
  omega

theorem isBlank_of_isUnquoted (unquoted : isUnquoted c = true) : isBlank c = false := by
  have range := isUnquoted_range unquoted
  exact isBlank_of_range (by omega) (by omega)

theorem isPath_range (isPath : isPath c = true) : 45 ≤ c.toNat ∧ c.toNat ≤ 122 := by
  simp only [Charset.isPath, isNamespace, Bool.or_eq_true, beq_iff_eq] at isPath
  rcases isPath with ((((lower | digit) | rfl) | rfl) | rfl) | rfl
  · have := isAlphanumeric_range (c := c) (by simp [isAlphanumeric, lower])
    omega
  · have := isAlphanumeric_range (c := c) (by simp [isAlphanumeric, digit])
    omega
  all_goals decide

theorem isBlank_of_isPath (isPath : isPath c = true) : isBlank c = false := by
  have range := isPath_range isPath
  exact isBlank_of_range (by omega) (by omega)

theorem isQuote_iff : isQuote c = true ↔ c = '"' ∨ c = '\'' := by
  simp [isQuote]

theorem isQuote_of_isUnquoted (unquoted : isUnquoted c = true) : isQuote c = false := by
  apply eq_false_of_ne_true
  intro isQuote
  rcases isQuote_iff.1 isQuote with rfl | rfl <;> exact absurd unquoted (by decide)

end CommandScript.Charset
