import SceneAnimation.Numeral.Decimal
import Mathlib.Algebra.Order.Field.Power
import Mathlib.Tactic.FieldSimp
import Mathlib.Tactic.Linarith
import Mathlib.Tactic.Positivity
import Mathlib.Tactic.Ring
/-!
# Decimals: the digits that are printed read back

A decimal number reads back as a binary one if the binary number is the nearest of its format, that is, if it covers
the decimal number (`Binary.Covers`).  The digits that `Binary.shortest` finds do, and for numbers of 53 binary digits
it finds them within seventeen (`Binary.Fits.shortest_spec`): on a grid that is finer than what a number covers, one of
its two neighbours is covered.
-/
namespace SceneAnimation.Numeral

theorem zpow_toNat {b : ℚ} (hb : b ≠ 0) (e : ℤ) : b ^ e = b ^ e.toNat / b ^ (-e).toNat := by
  conv_lhs => rw [← Int.toNat_sub_toNat_neg e]
  rw [zpow_sub₀ hb, zpow_natCast, zpow_natCast]

def Digits.value (x : Digits) : ℚ := x.d * 10 ^ x.k

namespace Binary

variable {x : Binary} {d : ℕ} {k : ℤ} {p q : ℚ}

def value (x : Binary) : ℚ := x.m * 2 ^ x.e

/-- The midpoint to the next smaller number. -/
def lower (x : Binary) : ℚ := (4 * x.m - if x.narrowBelow then 1 else 2) * 2 ^ (x.e - 2)

/-- The midpoint to the next larger number. -/
def upper (x : Binary) : ℚ := (4 * x.m + 2) * 2 ^ (x.e - 2)

/-- Whether `q` lies between the midpoints to the neighbours of `x`, where a midpoint itself goes to the even number. -/
def Covers (x : Binary) (q : ℚ) : Prop :=
  if x.m % 2 = 0 then x.lower ≤ q ∧ q ≤ x.upper else x.lower < q ∧ q < x.upper

/-! ### Exact arithmetic -/

theorem scaled_spec (n : ℕ) (e k : ℤ) :
    0 < (scaled n e k).2 ∧ ((scaled n e k).1 : ℚ) * 10 ^ k = n * 2 ^ e * (scaled n e k).2 := by
  have hten : Nat.pow 10 = fun n => 10 ^ n := rfl
  simp only [scaled, Nat.shiftLeft_eq, one_mul, hten]
  refine ⟨by positivity, ?_⟩
  push_cast
  rw [zpow_toNat (by norm_num : (2 : ℚ) ≠ 0) e, zpow_toNat (by norm_num : (10 : ℚ) ≠ 0) k]
  field_simp

theorem scaled_le_iff (n d : ℕ) (e k : ℤ) :
    (scaled n e k).1 ≤ d * (scaled n e k).2 ↔ (n : ℚ) * 2 ^ e ≤ d * 10 ^ k := by
  obtain ⟨hden, hnum⟩ := scaled_spec n e k
  have hden : (0 : ℚ) < (scaled n e k).2 := Nat.cast_pos.2 hden
  have hten : (0 : ℚ) < 10 ^ k := by positivity
  rw [← Nat.cast_le (α := ℚ), ← mul_le_mul_iff_left₀ hten, hnum, Nat.cast_mul,
    mul_right_comm (d : ℚ), mul_le_mul_iff_left₀ hden]

theorem le_scaled_iff (n d : ℕ) (e k : ℤ) :
    d * (scaled n e k).2 ≤ (scaled n e k).1 ↔ (d : ℚ) * 10 ^ k ≤ n * 2 ^ e := by
  obtain ⟨hden, hnum⟩ := scaled_spec n e k
  have hden : (0 : ℚ) < (scaled n e k).2 := Nat.cast_pos.2 hden
  have hten : (0 : ℚ) < 10 ^ k := by positivity
  rw [← Nat.cast_le (α := ℚ), ← mul_le_mul_iff_left₀ hten, hnum, Nat.cast_mul,
    mul_right_comm (d : ℚ), mul_le_mul_iff_left₀ hden]

/-- **What the test of the digits finds out.** -/
theorem readsBack_iff (hx : 0 < x.m) (d : ℕ) (k : ℤ) : x.readsBack d k = true ↔ x.Covers (d * 10 ^ k) := by
  have hlow : (4 * x.m - if x.narrowBelow then 1 else 2 : ℚ) = (4 * x.m - if x.narrowBelow then 1 else 2 : ℕ) := by
    rw [Nat.cast_sub (by split <;> omega)]
    push_cast
    rfl
  have hhigh : (4 * x.m + 2 : ℚ) = (4 * x.m + 2 : ℕ) := by push_cast; rfl
  have hden : (scaled (4 * x.m + 2) (x.e - 2) k).2 =
      (scaled (4 * x.m - if x.narrowBelow then 1 else 2) (x.e - 2) k).2 := rfl
  rw [Covers, lower, upper, hlow, hhigh, ← not_le, ← not_le, ← scaled_le_iff, ← scaled_le_iff, ← le_scaled_iff,
    ← le_scaled_iff, hden]
  simp [readsBack]

/-! ### The leading digit -/

theorem value_pos (hx : 0 < x.m) : 0 < x.value := by
  have hm : (0 : ℚ) < x.m := Nat.cast_pos.2 hx
  unfold value
  positivity

theorem length_repr_spec {n : ℕ} (hn : 0 < n) : 10 ^ (n.repr.length - 1) ≤ n ∧ n < 10 ^ n.repr.length := by
  have hpos := Nat.length_repr_pos (n := n)
  refine ⟨?_, (Nat.length_repr_le_iff hpos).1 (Nat.le_refl _)⟩
  by_cases hone : n.repr.length - 1 = 0
  · rw [hone]
    exact hn
  · have hlong := (Nat.length_repr_le_iff (n := n) (k := n.repr.length - 1) (by omega)).not.1 (by omega)
    omega

/-- **The exponent of the leading digit.** -/
theorem leading_spec (hx : 0 < x.m) : (10 : ℚ) ^ x.leading ≤ x.value ∧ x.value < 10 ^ (x.leading + 1) := by
  have hvalue := value_pos hx
  obtain ⟨hden, hnum⟩ := scaled_spec x.m x.e 0
  have hten : Nat.pow 10 0 = 1 := rfl
  rw [zpow_zero, mul_one, ← value] at hnum
  simp only [leading, Nat.toString_eq_repr]
  generalize (scaled x.m x.e 0).1 = num at hnum ⊢
  generalize (scaled x.m x.e 0).2 = den at hden hnum ⊢
  have hden' : (0 : ℚ) < den := Nat.cast_pos.2 hden
  split
  · rename_i hle
    obtain ⟨hlow, hhigh⟩ := length_repr_spec (Nat.div_pos hle hden)
    have hpos := Nat.length_repr_pos (n := num / den)
    generalize (num / den).repr.length = l at hlow hhigh hpos ⊢
    have hl : ((l : ℤ) - 1) = (l - 1 : ℕ) := by omega
    rw [sub_add_cancel, hl, zpow_natCast, zpow_natCast, ← mul_le_mul_iff_left₀ hden', ← mul_lt_mul_iff_left₀ hden',
      ← hnum]
    norm_cast
    exact ⟨(Nat.le_div_iff_mul_le hden).1 hlow, (Nat.div_lt_iff_lt_mul hden).1 hhigh⟩
  · rename_i hlt
    have hpos : 0 < num := by
      have : (0 : ℚ) < num := hnum ▸ mul_pos hvalue hden'
      exact_mod_cast this
    -- the number below one is between the reciprocals of two whole numbers
    have hu : (den + num - 1) / num - 1 = (den - 1) / num := by
      rw [show den + num - 1 = den - 1 + num by omega, Nat.add_div_right _ hpos]
      rfl
    have hup : 0 < (den - 1) / num := Nat.div_pos (by omega) hpos
    have hlow : (den - 1) / num * num ≤ den - 1 := Nat.div_mul_le_self ..
    have hhigh : den - 1 < (den - 1) / num * num + num := Nat.lt_div_mul_add hpos
    rw [hu]
    generalize (den - 1) / num = u at hup hlow hhigh ⊢
    obtain ⟨hleast, hmost⟩ := length_repr_spec hup
    have hlength := Nat.length_repr_pos (n := u)
    generalize u.repr.length = l at hleast hmost hlength ⊢
    have hl : -(l : ℤ) + 1 = -(l - 1 : ℕ) := by omega
    rw [hl, zpow_neg, zpow_neg, zpow_natCast, zpow_natCast, inv_eq_one_div, inv_eq_one_div,
      eq_div_of_mul_eq hden'.ne' hnum.symm, div_le_div_iff₀ (by positivity) hden',
      div_lt_div_iff₀ hden' (by positivity)]
    norm_cast
    rw [Nat.mul_comm num, Nat.mul_comm num]
    have hmore := Nat.mul_le_mul_right num hmost
    have hless := Nat.mul_le_mul_right num hleast
    rw [Nat.succ_mul] at hmore
    omega

/-! ### Numbers that are covered -/

theorem covers_value (x : Binary) : x.lower < x.value ∧ x.value < x.upper ∧ x.Covers x.value := by
  have htwo : (0 : ℚ) < 2 ^ (x.e - 2) := by positivity
  have hquarter : x.value = 4 * x.m * 2 ^ (x.e - 2) := by
    rw [value, zpow_sub₀ (by norm_num)]
    norm_num
    ring
  have hlow : x.lower < x.value := by
    rw [hquarter, lower, mul_lt_mul_iff_left₀ htwo]
    split <;> norm_num
  have hhigh : x.value < x.upper := by
    rw [hquarter, upper, mul_lt_mul_iff_left₀ htwo]
    linarith
  refine ⟨hlow, hhigh, ?_⟩
  unfold Covers
  split
  · exact ⟨hlow.le, hhigh.le⟩
  · exact ⟨hlow, hhigh⟩

/-- What lies between two numbers that are covered is covered. -/
theorem Covers.between {a b : ℚ} (ha : x.Covers a) (hb : x.Covers b) (haq : a ≤ q) (hqb : q ≤ b) : x.Covers q := by
  unfold Covers at ha hb ⊢
  split at ha
  · rename_i heven
    rw [if_pos heven] at hb ⊢
    exact ⟨ha.1.trans haq, hqb.trans hb.2⟩
  · rename_i hodd
    rw [if_neg hodd] at hb ⊢
    exact ⟨ha.1.trans_le haq, hqb.trans_lt hb.2⟩

theorem covers_of_lt (hlow : x.lower < q) (hhigh : q < x.upper) : x.Covers q := by
  unfold Covers
  split
  · exact ⟨hlow.le, hhigh.le⟩
  · exact ⟨hlow, hhigh⟩

theorem Covers.pos (h : x.Covers q) (hx : 0 < x.m) : 0 < q := by
  have hm : (1 : ℚ) ≤ x.m := by exact_mod_cast hx
  have hlow : 0 < x.lower := mul_pos (by split <;> linarith) (by positivity)
  unfold Covers at h
  split at h
  · exact hlow.trans_le h.1
  · exact hlow.trans h.1

/-! ### The points of a grid -/

/-- A number lies between its two neighbours on a grid. -/
theorem floor_spec (x : Binary) (k : ℤ) :
    (((scaled x.m x.e k).1 / (scaled x.m x.e k).2 : ℕ) : ℚ) * 10 ^ k ≤ x.value ∧
      x.value < ((scaled x.m x.e k).1 / (scaled x.m x.e k).2 + 1 : ℕ) * 10 ^ k := by
  obtain ⟨hden, -⟩ := scaled_spec x.m x.e k
  rw [value, ← le_scaled_iff, ← not_le, ← le_scaled_iff, not_le]
  exact ⟨Nat.div_mul_le_self .., (Nat.div_lt_iff_lt_mul hden).1 (Nat.lt_succ_self _)⟩

theorem readsBack_of_onGrid? {tie : Tie} (h : x.onGrid? tie k = some d) : x.readsBack d k = true := by
  simp only [onGrid?] at h
  split at h
  · rename_i hfloor hceil
    have hround : d = (scaled x.m x.e k).1 / (scaled x.m x.e k).2 ∨
        d = (scaled x.m x.e k).1 / (scaled x.m x.e k).2 + 1 := by
      have hstep := tie.step_le_one ((scaled x.m x.e k).1 / (scaled x.m x.e k).2)
      rw [← Option.some.inj h]
      simp only [roundDiv]
      split
      · exact .inl rfl
      · split
        · exact .inr rfl
        · omega
    rcases hround with rfl | rfl
    · exact hfloor
    · exact hceil
  · cases h
    assumption
  · cases h
    assumption
  · cases h

/-- **If any point of a grid reads back, one of the two neighbours does.** -/
theorem onGrid?_ne_none (hx : 0 < x.m) {tie : Tie} (h : x.readsBack d k = true) : x.onGrid? tie k ≠ none := by
  obtain ⟨hfloor, hceil⟩ := x.floor_spec k
  obtain ⟨-, -, hself⟩ := covers_value x
  have hten : (0 : ℚ) < 10 ^ k := by positivity
  rw [readsBack_iff hx] at h
  have hneighbour : x.readsBack ((scaled x.m x.e k).1 / (scaled x.m x.e k).2) k = true ∨
      x.readsBack ((scaled x.m x.e k).1 / (scaled x.m x.e k).2 + 1) k = true := by
    rw [readsBack_iff hx, readsBack_iff hx]
    rcases Nat.lt_or_ge ((scaled x.m x.e k).1 / (scaled x.m x.e k).2) d with hd | hd
    · refine .inr (hself.between h hceil.le ?_)
      exact mul_le_mul_of_nonneg_right (Nat.cast_le.2 hd) hten.le
    · refine .inl (h.between hself ?_ hfloor)
      exact mul_le_mul_of_nonneg_right (Nat.cast_le.2 hd) hten.le
  simp only [onGrid?]
  rcases hneighbour with hn | hn <;> rw [hn] <;> split <;> simp_all

/-- **A grid that is finer than what is covered has a point that reads back.** -/
theorem exists_onGrid? (hx : 0 < x.m) (tie : Tie) (h : (10 : ℚ) ^ k < x.upper - x.lower) : x.onGrid? tie k ≠ none := by
  obtain ⟨hfloor, hceil⟩ := x.floor_spec k
  obtain ⟨hlow, hhigh, -⟩ := covers_value x
  by_cases hl : x.lower < ((scaled x.m x.e k).1 / (scaled x.m x.e k).2 : ℕ) * 10 ^ k
  · exact onGrid?_ne_none hx ((readsBack_iff hx _ k).2 (covers_of_lt hl (hfloor.trans_lt hhigh)))
  · refine onGrid?_ne_none hx ((readsBack_iff hx _ k).2 (covers_of_lt (hlow.trans hceil) ?_))
    push_cast
    linarith

/-! ### The shortest digits -/

/-- A number whose digits are so few that seventeen decimal ones tell it from its neighbours. -/
structure Fits (x : Binary) : Prop where
  pos : 0 < x.m
  lt : x.m < 10 ^ 16
  narrow : x.narrowBelow = true → 4 * x.m < 3 * 10 ^ 16

/-- **Seventeen digits are enough.** -/
theorem Fits.seventeen (h : x.Fits) (tie : Tie) : x.onGrid? tie (x.leading - 16) ≠ none := by
  refine exists_onGrid? h.pos tie ?_
  obtain ⟨hleading, -⟩ := leading_spec h.pos
  have htwo : (0 : ℚ) < 2 ^ (x.e - 2) := by positivity
  have hvalue : x.value = 4 * x.m * 2 ^ (x.e - 2) := by
    rw [value, zpow_sub₀ (by norm_num)]
    norm_num
    ring
  have hlt : (x.m : ℚ) < 10 ^ 16 := by exact_mod_cast h.lt
  rw [zpow_sub₀ (by norm_num), div_lt_iff₀ (by norm_num)]
  refine hleading.trans_lt ?_
  have hwidth : (4 : ℚ) * x.m < (2 + if x.narrowBelow then 1 else 2) * 10 ^ 16 := by
    split
    · rename_i hn
      have hnarrow : (4 : ℚ) * x.m < 3 * 10 ^ 16 := by exact_mod_cast h.narrow hn
      linarith
    · linarith
  calc x.value = 4 * x.m * 2 ^ (x.e - 2) := hvalue
    _ < (2 + if x.narrowBelow then 1 else 2) * 10 ^ 16 * 2 ^ (x.e - 2) := mul_lt_mul_of_pos_right hwidth htwo
    _ = (x.upper - x.lower) * 10 ^ 16 := by rw [upper, lower]; ring

/-- The search finds the first grid that has a point which reads back. -/
theorem shortestFrom_spec (tie : Tie) (x : Binary) : ∀ (fuel n : ℕ),
    (∃ i < fuel, x.onGrid? tie (x.leading - (n + i : ℕ) + 1) ≠ none) →
    ∃ i < fuel, (x.shortestFrom tie fuel n).k = x.leading - (n + i : ℕ) + 1 ∧
      x.onGrid? tie (x.shortestFrom tie fuel n).k = some (x.shortestFrom tie fuel n).d ∧
      ∀ j < i, x.onGrid? tie (x.leading - (n + j : ℕ) + 1) = none
  | 0, _, h => by
    obtain ⟨i, hi, -⟩ := h
    cases hi
  | fuel + 1, n, h => by
    rw [shortestFrom]
    split
    · rename_i d hd
      exact ⟨0, Nat.succ_pos fuel, rfl, hd, fun j hj => absurd hj (Nat.not_lt_zero j)⟩
    · rename_i hnone
      obtain ⟨i, hi, hsome⟩ := h
      cases i with
      | zero => exact absurd hnone hsome
      | succ i =>
        have hshift : ∀ i, n + (i + 1) = n + 1 + i := fun i => by omega
        rw [hshift] at hsome
        obtain ⟨i, hi, hk, hd, hfirst⟩ := shortestFrom_spec tie x fuel (n + 1) ⟨i, Nat.lt_of_succ_lt_succ hi, hsome⟩
        refine ⟨i + 1, Nat.succ_lt_succ hi, (hshift i).symm ▸ hk, hd, fun j hj => ?_⟩
        cases j with
        | zero => exact hnone
        | succ j =>
          rw [hshift]
          exact hfirst j (Nat.lt_of_succ_lt_succ hj)

/-- **The digits that are found read back**, and no shorter ones do: no coarser grid that the number reaches has a point
that reads back. -/
theorem Fits.shortest_spec (h : x.Fits) (tie : Tie) :
    (x.shortest tie).d ≠ 0 ∧ x.Covers (x.shortest tie).value ∧
    ∀ (d : ℕ) (k : ℤ), (x.shortest tie).k < k → k ≤ x.leading → ¬ x.Covers (d * 10 ^ k) := by
  have hseventeen : x.leading - 16 = x.leading - (1 + 16 : ℕ) + 1 := by omega
  obtain ⟨i, hi, hk, hd, hfirst⟩ := shortestFrom_spec tie x 17 1 ⟨16, by decide, hseventeen ▸ h.seventeen tie⟩
  have hreads : x.Covers (x.shortest tie).value := (readsBack_iff h.pos _ _).1 (readsBack_of_onGrid? hd)
  refine ⟨fun hzero => ?_, hreads, fun d k hlt hle hcovers => ?_⟩
  · have hlow := hreads.pos h.pos
    rw [Digits.value, hzero, Nat.cast_zero, zero_mul] at hlow
    exact lt_irrefl _ hlow
  · rw [shortest, hk] at hlt
    obtain ⟨j, hj⟩ : ∃ j : ℕ, k = x.leading - (1 + j : ℕ) + 1 := ⟨(x.leading - k).toNat, by omega⟩
    have hnone : x.onGrid? tie k = none := hj ▸ hfirst j (by omega)
    exact onGrid?_ne_none h.pos ((readsBack_iff h.pos d k).2 hcovers) hnone

end Binary

theorem Digits.value_trim (fuel : ℕ) (x : Digits) (hx : x.d ≠ 0) :
    (x.trim fuel).value = x.value ∧ (x.trim fuel).d ≠ 0 := by
  induction fuel generalizing x with
  | zero => exact ⟨rfl, hx⟩
  | succ fuel ih =>
    rw [trim]
    split
    · rename_i hzero
      obtain ⟨hd, hv⟩ := ih ⟨x.d / 10, x.k + 1⟩ (by simp; omega)
      refine ⟨hd.trans ?_, hv⟩
      have hten : (x.d : ℚ) = (x.d / 10 : ℕ) * 10 := by exact_mod_cast (by omega : x.d = x.d / 10 * 10)
      rw [value, value, hten, zpow_add_one₀ (by norm_num)]
      ring
    · exact ⟨rfl, hx⟩

end SceneAnimation.Numeral
