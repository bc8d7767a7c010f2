import CommandScript.Number.Binary64

/-!
Integers as floats.

An integer becomes the float with the nearest of the values that have at most 53 significant
bits, and of two that are equally near the one with fewer bits (`Binary64.IsNearest`,
`Binary64.isNearest_nearest`). Nothing more has to be known of the rounding: that it keeps the
order, up to equality, and that it does nothing to an integer of 53 bits follow from it
(`Binary64.nearest_mono`, `Binary64.nearest_lt_iff`). The float of an integer compares like what
the integer is rounded to (`Binary64.IsValue.lt_eq`).
-/

namespace CommandScript.Binary64

/-! ## Significant bits -/

/-- The number is one of so many bits, with zeros behind it. -/
def Significant (bits n : Nat) : Prop :=
  ∃ m e, m < Nat.pow 2 bits ∧ n = m * Nat.pow 2 e

theorem pow_pos (e : Nat) : 0 < Nat.pow 2 e :=
  Nat.pow_pos (by decide)

theorem pow_add (d e : Nat) : Nat.pow 2 (d + e) = Nat.pow 2 d * Nat.pow 2 e :=
  Nat.pow_add 2 d e

theorem pow_mono {d e : Nat} (le : d ≤ e) : Nat.pow 2 d ≤ Nat.pow 2 e :=
  Nat.pow_le_pow_right (by decide) le

/-- Up to a power of two every number has no more bits than that. -/
theorem significant_of_le {bits n : Nat} (positive : 0 < bits) (small : n ≤ Nat.pow 2 bits) :
    Significant bits n := by
  rcases Nat.lt_or_eq_of_le small with less | rfl
  · exact ⟨n, 0, less, (Nat.mul_one n).symm⟩
  · refine ⟨1, bits, ?_, (Nat.one_mul _).symm⟩
    exact Nat.lt_of_lt_of_le (by decide) (pow_mono positive : Nat.pow 2 1 ≤ Nat.pow 2 bits)

theorem Significant.mul_pow {bits n : Nat} (significant : Significant bits n) (e : Nat) :
    Significant bits (n * Nat.pow 2 e) := by
  obtain ⟨m, d, small, rfl⟩ := significant
  exact ⟨m, d + e, small, by rw [pow_add, Nat.mul_assoc]⟩

/-- An even number of one bit more. -/
theorem significant_of_even {bits m : Nat} (positive : 0 < bits) (even : m % 2 = 0)
    (small : m ≤ Nat.pow 2 (bits + 1)) : Significant bits m := by
  have twice : Nat.pow 2 (bits + 1) = Nat.pow 2 bits * 2 := pow_add bits 1
  have half : Significant bits (m / 2) := significant_of_le positive (by omega)
  have whole : m = m / 2 * Nat.pow 2 1 := by
    rw [show Nat.pow 2 1 = 2 from rfl]
    omega
  rw [whole]
  exact half.mul_pow 1

/-! ## Rounding a natural number -/

section Natural

variable {n s : Nat}

/-- What separates the numbers with 53 significant bits around a number. -/
def quantum (n : Nat) : Nat :=
  Nat.pow 2 (excessBits n)

/-- The number counts up to 53 bits of its quantum. -/
theorem div_quantum_lt (n : Nat) : n / quantum n < Nat.pow 2 53 := by
  apply Nat.div_lt_of_lt_mul
  have bits : n.log2 + 1 ≤ excessBits n + 53 := by
    unfold excessBits
    omega
  calc n < Nat.pow 2 (n.log2 + 1) := Nat.lt_log2_self
    _ ≤ Nat.pow 2 (excessBits n + 53) := pow_mono bits
    _ = quantum n * Nat.pow 2 53 := pow_add ..

/-- A number of more than 53 bits counts no fewer of its quantum. -/
theorem le_div_quantum (excess : excessBits n ≠ 0) : Nat.pow 2 52 ≤ n / quantum n := by
  have bits : 52 + excessBits n = n.log2 := by
    unfold excessBits at excess ⊢
    omega
  have nonzero : n ≠ 0 := by
    rintro rfl
    exact excess rfl
  apply (Nat.le_div_iff_mul_le (pow_pos _)).2
  calc Nat.pow 2 52 * quantum n = Nat.pow 2 n.log2 := by rw [quantum, ← pow_add, bits]
    _ ≤ n := Nat.log2_self_le nonzero

/-- Between two neighbours there is no other number with 53 significant bits. -/
theorem Significant.apart (significant : Significant 53 s) (n : Nat) :
    s ≤ n / quantum n * quantum n ∨ (n / quantum n + 1) * quantum n ≤ s := by
  obtain ⟨m, e, small, rfl⟩ := significant
  rcases Nat.lt_or_ge e (excessBits n) with less | ge
  · left
    have power : Nat.pow 2 (e + 1) ≤ quantum n := pow_mono less
    calc m * Nat.pow 2 e ≤ Nat.pow 2 53 * Nat.pow 2 e :=
          Nat.mul_le_mul_right _ (Nat.le_of_lt small)
      _ = Nat.pow 2 52 * Nat.pow 2 (e + 1) := by
          rw [← pow_add, ← pow_add]
          congr 1
          omega
      _ ≤ n / quantum n * quantum n := Nat.mul_le_mul (le_div_quantum (by omega)) power
  · have whole : m * Nat.pow 2 e = m * Nat.pow 2 (e - excessBits n) * quantum n := by
      rw [quantum, Nat.mul_assoc, ← pow_add, Nat.sub_add_cancel ge]
    rw [whole]
    rcases Nat.lt_or_ge (n / quantum n) (m * Nat.pow 2 (e - excessBits n)) with less | le
    · exact Or.inr (Nat.mul_le_mul_right _ less)
    · exact Or.inl (Nat.mul_le_mul_right _ le)

theorem roundUnits_form (n : Nat) :
    roundUnits n 1 =
      (if quantum n < 2 * (n % quantum n) ∨
          2 * (n % quantum n) = quantum n ∧ n / quantum n % 2 = 1 then
        n / quantum n + 1 else n / quantum n) * quantum n := by
  unfold roundUnits
  simp only [Nat.div_one, Nat.one_mul]
  rfl

/-- A number is rounded to the nearer one of its neighbours, from the middle to the one that
counts an even number of its quantum. -/
theorem roundUnits_eq (n : Nat) :
    roundUnits n 1 = n / quantum n * quantum n ∧
        (2 * (n % quantum n) < quantum n ∨
          2 * (n % quantum n) = quantum n ∧ n / quantum n % 2 = 0) ∨
      roundUnits n 1 = (n / quantum n + 1) * quantum n ∧
        (quantum n < 2 * (n % quantum n) ∨
          2 * (n % quantum n) = quantum n ∧ n / quantum n % 2 = 1) := by
  rw [roundUnits_form]
  split
  · rename_i up
    exact Or.inr ⟨rfl, up⟩
  · rename_i down
    exact Or.inl ⟨rfl, by omega⟩

theorem roundUnits_significant (n : Nat) : Significant 53 (roundUnits n 1) := by
  have low := div_quantum_lt n
  rcases roundUnits_eq n with ⟨rounded, -⟩ | ⟨rounded, -⟩
  · rw [rounded]
    exact (significant_of_le (by decide) (Nat.le_of_lt low)).mul_pow _
  · rw [rounded]
    exact (significant_of_le (by decide) low).mul_pow _

/-- A number lies between its neighbours, which are one quantum apart. -/
theorem neighbours (n : Nat) :
    n / quantum n * quantum n + n % quantum n = n ∧ n % quantum n < quantum n ∧
      (n / quantum n + 1) * quantum n = n / quantum n * quantum n + quantum n :=
  ⟨Nat.div_add_mod' n _, Nat.mod_lt n (pow_pos _), Nat.succ_mul ..⟩

/-- Nothing with 53 significant bits is nearer. -/
theorem roundUnits_closest (significant : Significant 53 s) (n : Nat) :
    ((n : Int) - roundUnits n 1).natAbs ≤ ((n : Int) - s).natAbs := by
  obtain ⟨whole, rest, next⟩ := neighbours n
  rcases significant.apart n with below | above
  all_goals
    rcases roundUnits_eq n with ⟨rounded, side⟩ | ⟨rounded, side⟩
    all_goals
      rw [rounded]
      omega

/-- If something else is equally near, one bit less is enough for what a number is rounded to. -/
theorem roundUnits_even (significant : Significant 53 s)
    (near : ((n : Int) - s).natAbs = ((n : Int) - roundUnits n 1).natAbs) :
    s = roundUnits n 1 ∨ Significant 52 (roundUnits n 1) := by
  obtain ⟨whole, rest, next⟩ := neighbours n
  have low := div_quantum_lt n
  rcases roundUnits_eq n with ⟨rounded, side⟩ | ⟨rounded, side⟩
  · rw [rounded] at near ⊢
    rcases significant.apart n with below | above
    · left
      omega
    · right
      exact (significant_of_even (by decide) (by omega) (Nat.le_of_lt low)).mul_pow _
  · rw [rounded] at near ⊢
    rcases significant.apart n with below | above
    · right
      exact (significant_of_even (by decide) (by omega) low).mul_pow _
    · left
      omega

theorem roundUnits_of_significant (significant : Significant 53 n) : roundUnits n 1 = n := by
  have closest := roundUnits_closest significant n
  omega

theorem roundUnits_le {bits : Nat} (small : n ≤ Nat.pow 2 bits) :
    roundUnits n 1 ≤ Nat.pow 2 bits := by
  have power : Significant 53 (Nat.pow 2 bits) :=
    ⟨1, bits, by decide, (Nat.one_mul _).symm⟩
  have closest := roundUnits_closest power n
  omega

/-- The quantum of a number of more than 53 bits grows with the zeros behind it. -/
theorem quantum_mul_pow (large : Nat.pow 2 53 < n) (k : Nat) :
    quantum (n * Nat.pow 2 k) = quantum n * Nat.pow 2 k := by
  have nonzero : n ≠ 0 := Nat.ne_of_gt (Nat.zero_lt_of_lt large)
  have bits : 53 ≤ n.log2 := (Nat.le_log2 nonzero).2 (Nat.le_of_lt large)
  have shifted : (n * Nat.pow 2 k).log2 = n.log2 + k := by
    have positive : n * Nat.pow 2 k ≠ 0 := Nat.mul_ne_zero nonzero (Nat.ne_of_gt (pow_pos k))
    refine (Nat.log2_eq_iff positive).2 ⟨?_, ?_⟩
    · rw [Nat.pow_add]
      exact Nat.mul_le_mul_right _ (Nat.log2_self_le nonzero)
    · rw [Nat.add_right_comm, Nat.pow_add]
      exact Nat.mul_lt_mul_of_pos_right Nat.lt_log2_self (pow_pos k)
  have excess : excessBits (n * Nat.pow 2 k) = excessBits n + k := by
    unfold excessBits
    omega
  rw [quantum, excess, pow_add]
  rfl

/-- Zeros behind a number do not change how it is rounded. -/
theorem roundUnits_mul_pow (n k : Nat) :
    roundUnits (n * Nat.pow 2 k) 1 = roundUnits n 1 * Nat.pow 2 k := by
  rcases Nat.lt_or_ge (Nat.pow 2 53) n with large | small
  · have positive := pow_pos k
    rw [roundUnits_form, roundUnits_form, quantum_mul_pow large]
    generalize Nat.pow 2 k = factor at positive
    rw [Nat.mul_div_mul_right _ _ positive, Nat.mul_mod_mul_right, ← Nat.mul_assoc 2]
    simp only [Nat.mul_lt_mul_right positive, Nat.mul_left_inj (Nat.ne_of_gt positive)]
    rw [Nat.mul_assoc]
  · have significant : Significant 53 n := significant_of_le (by decide) small
    rw [roundUnits_of_significant significant, roundUnits_of_significant (significant.mul_pow k)]

end Natural

/-! ## Rounding an integer -/

/-- Of the integers with at most 53 significant bits one is nearest to a given one; of two that
are, it is the one with at most 52. -/
structure IsNearest (i rounded : Int) : Prop where
  significant : Significant 53 rounded.natAbs
  closest : ∀ s : Int, Significant 53 s.natAbs → (i - rounded).natAbs ≤ (i - s).natAbs
  even : ∀ s : Int, Significant 53 s.natAbs → (i - s).natAbs = (i - rounded).natAbs →
    s = rounded ∨ Significant 52 rounded.natAbs

/-- What an integer is rounded to. -/
def nearest (i : Int) : Int :=
  signedUnits (i < 0) (roundUnits i.natAbs 1)

section Integer

variable {i j : Int}

theorem natAbs_nearest (i : Int) : (nearest i).natAbs = roundUnits i.natAbs 1 := by
  unfold nearest signedUnits
  split <;> simp

/-- Rounding goes by the magnitude. -/
theorem sub_nearest (i : Int) :
    (i - nearest i).natAbs = ((i.natAbs : Int) - roundUnits i.natAbs 1).natAbs := by
  unfold nearest signedUnits
  split
  · rename_i negative
    have := of_decide_eq_true negative
    omega
  · rename_i positive
    have : ¬i < 0 := fun negative => positive (decide_eq_true negative)
    omega

theorem isNearest_nearest (i : Int) : IsNearest i (nearest i) := by
  have magnitude := sub_nearest i
  refine ⟨?_, fun s significant => ?_, fun s significant near => ?_⟩
  · rw [natAbs_nearest]
    exact roundUnits_significant _
  · have closest := roundUnits_closest significant i.natAbs
    omega
  · have closest := roundUnits_closest significant i.natAbs
    have nearToo : ((i.natAbs : Int) - s.natAbs).natAbs =
        ((i.natAbs : Int) - roundUnits i.natAbs 1).natAbs := by omega
    have rounded := natAbs_nearest i
    rcases roundUnits_even significant nearToo with same | even
    · -- Zero is not rounded, so the sign of what is equally near is the same.
      have bits : Significant 53 0 := significant_of_le (by decide) (Nat.zero_le _)
      have zero := roundUnits_closest bits i.natAbs
      left
      omega
    · rw [rounded]
      exact Or.inr even

/-- Rounding keeps the order, up to equality. -/
theorem nearest_mono (le : i ≤ j) : nearest i ≤ nearest j := by
  rcases Int.lt_or_eq_of_le le with less | rfl
  · have first := (isNearest_nearest i).closest (nearest j) (isNearest_nearest j).significant
    have second := (isNearest_nearest j).closest (nearest i) (isNearest_nearest i).significant
    omega
  · exact Int.le_refl _

theorem lt_of_nearest_lt (less : nearest i < nearest j) : i < j := by
  apply Int.lt_of_not_ge
  intro ge
  exact absurd (nearest_mono ge) (Int.not_le.2 less)

/-- What has 53 bits is not rounded. -/
theorem nearest_of_le (small : i.natAbs ≤ Nat.pow 2 53) : nearest i = i := by
  have closest := (isNearest_nearest i).closest i (significant_of_le (by decide) small)
  omega

/-- If one of two integers has at most 53 bits, they compare like what they are rounded to. -/
theorem nearest_lt_iff (small : i.natAbs < Nat.pow 2 53 ∨ j.natAbs < Nat.pow 2 53) :
    nearest i < nearest j ↔ i < j := by
  refine ⟨lt_of_nearest_lt, fun less => ?_⟩
  generalize bound : Nat.pow 2 53 = limit at small
  rcases small with small | small
  · have exact : nearest i = i := nearest_of_le (by omega)
    have next : nearest (i + 1) = i + 1 := nearest_of_le (by omega)
    have mono : nearest (i + 1) ≤ nearest j := nearest_mono less
    omega
  · have exact : nearest j = j := nearest_of_le (by omega)
    have before : nearest (j - 1) = j - 1 := nearest_of_le (by omega)
    have mono : nearest i ≤ nearest (j - 1) := nearest_mono (by omega)
    omega

end Integer

/-! ## Floats of integers -/

/-- The float is finite and has the value of an integer. -/
def IsValue (x : Binary64) (i : Int) : Prop :=
  ∃ negative units, x = .finite negative units ∧ signedUnits negative units = i * one

theorem one_pos : 0 < one := by
  decide +kernel

section Value

variable {x y : Binary64} {i j : Int}

/-- Floats of integers compare like these. -/
theorem IsValue.lt_eq (isX : IsValue x i) (isY : IsValue y j) : x.lt y = decide (i < j) := by
  obtain ⟨s, a, rfl, valueX⟩ := isX
  obtain ⟨t, b, rfl, valueY⟩ := isY
  have positive : (0 : Int) < one := Int.natCast_pos.2 one_pos
  rw [lt, valueX, valueY]
  exact decide_eq_decide.2 (Int.mul_lt_mul_right positive)

/-- An integer of up to 64 bits becomes a finite float with the value of what it is rounded to. -/
theorem ofInt_isValue (small : i.natAbs ≤ Nat.pow 2 64) : IsValue (ofInt i) (nearest i) := by
  have units : roundUnits (i.natAbs * one) 1 = roundUnits i.natAbs 1 * one := by
    unfold one
    generalize 1074 = k
    exact roundUnits_mul_pow i.natAbs k
  have inRange : roundUnits i.natAbs 1 * one < limit :=
    Nat.lt_of_le_of_lt (Nat.mul_le_mul_right one (roundUnits_le small)) (by decide +kernel)
  refine ⟨decide (i < 0), roundUnits i.natAbs 1 * one, ?_, ?_⟩
  · unfold ofInt ofUnits
    rw [units]
    dsimp only
    rw [if_pos inRange]
  · unfold nearest signedUnits
    split
    · rw [Int.natCast_mul, Int.neg_mul]
    · exact Int.natCast_mul ..

end Value

end CommandScript.Binary64
