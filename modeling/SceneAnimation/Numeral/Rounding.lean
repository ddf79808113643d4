/-!
# Rounding a quotient to the nearest whole number

One rule for the whole library: the nearest whole number, and of two equally near ones the one that the `Tie` names.
A number of `p` significant binary digits is such a whole number times a power of two, ties to even.
-/
namespace SceneAnimation.Numeral

/-- Which of two equally near whole numbers is taken: the even one, or the larger one. -/
inductive Tie where
  | even
  | up
  deriving DecidableEq, Repr

/-- The step from the smaller of two equally near whole numbers to the one that is taken. -/
def Tie.step : Tie → Nat → Nat
  | .even, q => q % 2
  | .up, _ => 1

/-- A tie goes to one of the two neighbours. -/
theorem Tie.step_le_one (tie : Tie) (q : Nat) : tie.step q ≤ 1 := by
  cases tie with
  | even => exact Nat.le_of_lt_succ (Nat.mod_lt q (by decide))
  | up => exact Nat.le_refl 1

/-- The whole number nearest to `num / den`; of two equally near ones, the one that `tie` takes. -/
def roundDiv (tie : Tie) (num den : Nat) : Nat :=
  let q := num / den
  let r := num % den
  if 2 * r < den then q else if den < 2 * r then q + 1 else q + tie.step q

/-- The number of at most `p` significant binary digits nearest to `n`, ties to even. -/
def significant (p n : Nat) : Nat :=
  let drop := n.log2 + 1 - p
  roundDiv .even n (1 <<< drop) <<< drop

/-- **The rounded quotient is within half a unit**: twice the distance is at most the divisor. -/
theorem roundDiv_error (tie : Tie) (num : Nat) {den : Nat} (hd : 0 < den) :
    2 * num ≤ 2 * (roundDiv tie num den * den) + den ∧ 2 * (roundDiv tie num den * den) ≤ 2 * num + den := by
  have hm := Nat.div_add_mod num den
  have hr := Nat.mod_lt num hd
  have hup : (num / den + 1) * den = den * (num / den) + den := by rw [Nat.add_mul, Nat.one_mul, Nat.mul_comm]
  have hc : num / den * den = den * (num / den) := Nat.mul_comm ..
  unfold roundDiv
  simp only
  split
  · omega
  · split
    · omega
    · rcases Nat.le_one_iff_eq_zero_or_eq_one.1 (tie.step_le_one (num / den)) with h | h
      · rw [h, Nat.add_zero]; omega
      · rw [h]; omega

/-- Whole numbers are their own rounding. -/
@[simp] theorem roundDiv_one (tie : Tie) (n : Nat) : roundDiv tie n 1 = n := by
  simp [roundDiv, Nat.mod_one]

end SceneAnimation.Numeral
