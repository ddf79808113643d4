import SceneAnimation.Fraction
import Mathlib.Algebra.Order.Ring.Nat
import Mathlib.Data.Nat.Log
/-!
# Fractions: the share of a span grows with the time that has passed

Rounding to the nearest number is monotone, to whole numbers (`Numeral.roundDiv_mono`) as to a number of significant
digits (`Numeral.significant_mono`).  A quotient of smaller exponent stays below one of larger exponent when both are
rounded, so the share of a span that has passed never falls (`Span.fractionOf_mono`).  Once it is whole, it stays so.
-/
namespace SceneAnimation

/-! ## Rounding -/

namespace Numeral

theorem div_le_roundDiv (tie : Tie) (num den : Nat) : num / den ≤ roundDiv tie num den := by
  unfold roundDiv
  dsimp only
  split
  · exact Nat.le_refl _
  · split <;> exact Nat.le_add_right ..

theorem roundDiv_le_succ (tie : Tie) (num den : Nat) : roundDiv tie num den ≤ num / den + 1 := by
  have hstep := tie.step_le_one (num / den)
  unfold roundDiv
  dsimp only
  split
  · exact Nat.le_succ _
  · split <;> omega

/-- **Rounding to the nearest whole number is monotone.** -/
theorem roundDiv_mono (tie : Tie) {num num' : Nat} (den : Nat) (h : num ≤ num') :
    roundDiv tie num den ≤ roundDiv tie num' den := by
  rcases Nat.lt_or_eq_of_le (Nat.div_le_div_right h : num / den ≤ num' / den) with hq | hq
  · exact (roundDiv_le_succ tie num den).trans (Nat.le_trans hq (div_le_roundDiv tie num' den))
  · -- of numbers between the same two neighbours, the larger one does not round down if the smaller one rounds up
    have hr : num % den ≤ num' % den := by
      have hm := Nat.div_add_mod num den
      have hm' := Nat.div_add_mod num' den
      rw [hq] at hm
      omega
    have hup := roundDiv_le_succ tie num den
    unfold roundDiv at hup ⊢
    dsimp only at hup ⊢
    rw [hq] at hup ⊢
    by_cases hless : 2 * (num' % den) < den
    · rw [if_pos hless, if_pos (by omega)]
    · rw [if_neg hless]
      by_cases hmore : den < 2 * (num' % den)
      · rw [if_pos hmore]
        exact hup
      · rw [if_neg hmore]
        split
        · exact Nat.le_add_right ..
        · rw [if_neg (by omega)]

/-- A whole number is its own rounding. -/
theorem roundDiv_mul (tie : Tie) (k : Nat) {den : Nat} (hd : 0 < den) : roundDiv tie (k * den) den = k := by
  unfold roundDiv
  dsimp only
  rw [Nat.mul_div_cancel k hd, Nat.mul_mod_left, if_pos hd]

theorem roundDiv_le (tie : Tie) {num den k : Nat} (hd : 0 < den) (h : num ≤ k * den) : roundDiv tie num den ≤ k :=
  (roundDiv_mono tie den h).trans_eq (roundDiv_mul tie k hd)

theorem le_roundDiv (tie : Tie) {num den k : Nat} (hd : 0 < den) (h : k * den ≤ num) : k ≤ roundDiv tie num den :=
  (roundDiv_mul tie k hd).symm.trans_le (roundDiv_mono tie den h)

section Significant

variable {p m n k : Nat}

theorem log2_mono (h : m ≤ n) : m.log2 ≤ n.log2 := by
  by_cases hm : m = 0
  · subst m
    exact Nat.zero_le _
  · exact (Nat.le_log2 (by omega)).2 ((Nat.log2_self_le hm).trans h)

/-- Rounding does not lead past the next power of two. -/
theorem significant_le (p : Nat) (h : n.log2 < k) : significant p n ≤ 2 ^ k := by
  have hn : n < 2 ^ (n.log2 + 1) := Nat.lt_log2_self
  have hd : n.log2 + 1 - p ≤ k := by omega
  have hround : roundDiv .even n (2 ^ (n.log2 + 1 - p)) ≤ 2 ^ (k - (n.log2 + 1 - p)) := by
    refine roundDiv_le .even (Nat.two_pow_pos _) ?_
    rw [← Nat.pow_add, Nat.sub_add_cancel hd]
    exact hn.le.trans (Nat.pow_le_pow_right (by decide) h)
  rw [significant, Nat.shiftLeft_eq, Nat.one_shiftLeft]
  calc
    _ ≤ 2 ^ (k - (n.log2 + 1 - p)) * 2 ^ (n.log2 + 1 - p) := Nat.mul_le_mul_right _ hround
    _ = 2 ^ k := by rw [← Nat.pow_add, Nat.sub_add_cancel hd]

/-- Rounding does not lead below the power of two of the leading digit. -/
theorem le_significant (hp : 0 < p) (hn : n ≠ 0) : 2 ^ n.log2 ≤ significant p n := by
  have hself : 2 ^ n.log2 ≤ n := Nat.log2_self_le hn
  have hd : n.log2 + 1 - p ≤ n.log2 := by omega
  have hround : 2 ^ (n.log2 - (n.log2 + 1 - p)) ≤ roundDiv .even n (2 ^ (n.log2 + 1 - p)) := by
    refine le_roundDiv .even (Nat.two_pow_pos _) ?_
    rw [← Nat.pow_add, Nat.sub_add_cancel hd]
    exact hself
  rw [significant, Nat.shiftLeft_eq, Nat.one_shiftLeft]
  calc
    2 ^ n.log2 = 2 ^ (n.log2 - (n.log2 + 1 - p)) * 2 ^ (n.log2 + 1 - p) := by
      rw [← Nat.pow_add, Nat.sub_add_cancel hd]
    _ ≤ _ := Nat.mul_le_mul_right _ hround

/-- **Rounding to a number of significant digits is monotone.** -/
theorem significant_mono (hp : 0 < p) (h : m ≤ n) : significant p m ≤ significant p n := by
  rcases Nat.lt_or_eq_of_le (log2_mono h) with hlog | hlog
  · -- a power of two lies between them
    have hn : n ≠ 0 := fun hn => by
      subst hn
      exact absurd hlog (Nat.not_lt_zero _)
    exact (significant_le p hlog).trans (le_significant hp hn)
  · rw [significant, significant, hlog, Nat.shiftLeft_eq (roundDiv ..), Nat.shiftLeft_eq (roundDiv ..)]
    exact Nat.mul_le_mul_right _ (roundDiv_mono .even _ h)

end Significant

end Numeral

/-! ## Quotients -/

namespace Fraction

variable {a a' b : Nat}

/-- **The shift brings a quotient to 53 binary digits.** -/
theorem shift_spec (ha : a ≠ 0) (hab : a ≤ b) : 2 ^ 52 * b ≤ a * 2 ^ shift a b ∧ a * 2 ^ shift a b < 2 ^ 53 * b := by
  have hb : b ≠ 0 := by omega
  have hlog : a.log2 ≤ b.log2 := Numeral.log2_mono hab
  have hb' : b < 2 ^ (b.log2 + 1) := Nat.lt_log2_self
  have ha' : a < 2 ^ (a.log2 + 1) := Nat.lt_log2_self
  have hscale : ∀ k, 2 ^ (a.log2 + k) * 2 ^ (52 + b.log2 - a.log2) = 2 ^ (52 + k) * 2 ^ b.log2 := fun k => by
    rw [← Nat.pow_add, ← Nat.pow_add]
    congr 1
    omega
  -- what the first guess at the shift gives, between the powers of two of the leading digits
  have hlow : 2 ^ 52 * 2 ^ b.log2 ≤ a * 2 ^ (52 + b.log2 - a.log2) := by
    rw [← hscale 0]
    exact Nat.mul_le_mul_right _ (Nat.log2_self_le ha)
  have hhigh : a * 2 ^ (52 + b.log2 - a.log2) < 2 ^ 53 * b := by
    refine (Nat.mul_lt_mul_of_pos_right ha' (Nat.two_pow_pos _)).trans_le ?_
    rw [hscale 1]
    exact Nat.mul_le_mul_left _ (Nat.log2_self_le hb)
  unfold shift
  simp only [Nat.shiftLeft_eq]
  split
  · have hdouble : a * 2 ^ (52 + b.log2 - a.log2 + 1) = a * 2 ^ (52 + b.log2 - a.log2) * 2 := by
      rw [Nat.pow_succ, Nat.mul_assoc]
    omega
  · omega

theorem shift_le (a b : Nat) : shift a b ≤ 53 + b.log2 := by
  unfold shift
  dsimp only
  split <;> omega

/-- The larger the quotient, the less it is shifted. -/
theorem shift_antitone (ha : a ≠ 0) (h : a ≤ a') (hab : a' ≤ b) : shift a' b ≤ shift a b := by
  obtain ⟨hlow, -⟩ := shift_spec ha (h.trans hab)
  obtain ⟨-, hhigh⟩ := shift_spec (by omega : a' ≠ 0) hab
  refine Classical.byContradiction fun hlt => ?_
  have hmore : a * 2 ^ (shift a b + 1) ≤ a' * 2 ^ shift a' b :=
    Nat.mul_le_mul h (Nat.pow_le_pow_right (by decide) (by omega))
  rw [Nat.pow_succ, ← Nat.mul_assoc] at hmore
  omega

/-- The digits of a quotient, rounded to 53 and then to 24. -/
theorem digits_spec (ha : a ≠ 0) (hab : a ≤ b) :
    let digits := Numeral.roundDiv .even (Numeral.roundDiv .even (a <<< shift a b) b) (1 <<< 29)
    2 ^ 23 ≤ digits ∧ digits ≤ 2 ^ 24 := by
  obtain ⟨hlow, hhigh⟩ := shift_spec ha hab
  have hb : 0 < b := by omega
  rw [Nat.shiftLeft_eq]
  exact ⟨Numeral.le_roundDiv .even (by decide) (Numeral.le_roundDiv .even hb hlow),
    Numeral.roundDiv_le .even (by decide) (Numeral.roundDiv_le .even hb hhigh.le)⟩

/-- **The pattern of a quotient grows with the quotient**, in the range of exponents of single precision. -/
theorem pattern_mono (ha : a ≠ 0) (h : a ≤ a') (hab : a' ≤ b) (hb : b.log2 ≤ 125) : pattern a b ≤ pattern a' b := by
  have hshift := shift_antitone ha h hab
  have hrange := shift_le a b
  unfold pattern
  dsimp only
  rcases Nat.lt_or_eq_of_le hshift with hless | hsame
  · obtain ⟨-, hhigh⟩ := digits_spec ha (h.trans hab)
    obtain ⟨hlow, -⟩ := digits_spec (by omega : a' ≠ 0) hab
    rw [Nat.shiftLeft_eq (178 - _), Nat.shiftLeft_eq (178 - _)]
    omega
  · rw [hsame, Nat.shiftLeft_eq a, Nat.shiftLeft_eq a']
    exact Nat.add_le_add_left (Numeral.roundDiv_mono .even _ (Numeral.roundDiv_mono .even _
      (Nat.mul_le_mul_right _ h))) _

theorem bits_ofQuotient_mono (h : a ≤ a') (hb : b.log2 ≤ 125) : (ofQuotient a b).bits ≤ (ofQuotient a' b).bits := by
  by_cases hwhole : b ≤ a'
  · rw [show ofQuotient a' b = whole from if_pos hwhole]
    exact (ofQuotient a b).le_whole
  · by_cases ha : a = 0
    · rw [show ofQuotient a b = nothing by rw [ofQuotient, if_neg (by omega), if_pos ha]]
      exact Nat.zero_le _
    · have hpattern := pattern_mono ha h (by omega) hb
      simp only [ofQuotient, if_neg hwhole, if_neg ha, if_neg (by omega : ¬ b ≤ a), if_neg (by omega : ¬ a' = 0)]
      omega

end Fraction

/-- **The share of a span that has passed grows with time.** -/
theorem Span.fractionOf_mono {d d' : Span} (total : Span) (h : d ≤ d') :
    (d.fractionOf total).bits ≤ (d'.fractionOf total).bits := by
  unfold fractionOf
  split
  · exact Nat.le_refl _
  · have hnanos : d.nanos.toNat ≤ d'.nanos.toNat := h
    have htotal : total.nanos.toNat.log2 < 64 := by
      by_cases hz : total.nanos.toNat = 0
      · rw [hz]
        decide
      · exact (Nat.log2_lt hz).2 total.nanos.toNat_lt
    have hbits : (Numeral.significant 53 total.nanos.toNat).log2 ≤ 125 := by
      have hle := Numeral.log2_mono (Numeral.significant_le 53 htotal)
      rw [Nat.log2_two_pow] at hle
      omega
    exact Fraction.bits_ofQuotient_mono (Numeral.significant_mono (by decide) hnanos) hbits

/-- **What has passed altogether stays so.** -/
theorem Span.isWhole_mono {d d' total : Span} (h : d ≤ d') (hd : (d.fractionOf total).isWhole = true) :
    (d'.fractionOf total).isWhole = true := by
  have hbits := fractionOf_mono total h
  rw [Fraction.isWhole, decide_eq_true_eq] at hd ⊢
  exact Nat.le_antisymm (d'.fractionOf total).le_whole (hd ▸ hbits)

end SceneAnimation
