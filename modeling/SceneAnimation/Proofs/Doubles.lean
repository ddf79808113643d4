import Mathlib
import SceneAnimation.Proofs.Decimals
/-!
# Doubles: the number that is nearest to a rational one

The numbers of a format follow one another as their patterns do, and each begins where the one before it ends
(`adjacent_ofPattern`); so what a number covers is nearest to it, and in the middle between two it goes to the even one
(`nearest_of_covers`).  With that the digits that are printed for a double are read back as the same double
(`nearest_shown`).
-/
namespace SceneAnimation.Numeral

open Float.Model Float.Model.UnpackedFloat

/-! ## The patterns of a format -/

section Patterns

variable (fieldBits bias : ℕ) {p : ℕ}

theorem ofPattern_eq (q : ℕ) {r : ℕ} (hr : r < 2 ^ fieldBits) :
    ofPattern fieldBits bias (2 ^ fieldBits * q + r) =
      if q = 0 then ⟨r, 1 - (bias : ℤ), false⟩
      else ⟨r + 2 ^ fieldBits, (q : ℤ) - bias, r = 0 ∧ 1 < q⟩ := by
  have hpos : 0 < 2 ^ fieldBits := Nat.two_pow_pos _
  have hdiv : (2 ^ fieldBits * q + r) / 2 ^ fieldBits = q := by
    rw [Nat.mul_add_div hpos, Nat.div_eq_of_lt hr, Nat.add_zero]
  have hmod : (2 ^ fieldBits * q + r) % 2 ^ fieldBits = r := by
    rw [Nat.mul_add_mod, Nat.mod_eq_of_lt hr]
  simp only [ofPattern, Nat.shiftRight_eq_div_pow, Nat.one_shiftLeft, hdiv, hmod]

/-- A pattern and the next one: the fraction grows, or the exponent field. -/
theorem pattern_cases (p : ℕ) : ∃ q r, r < 2 ^ fieldBits ∧ p = 2 ^ fieldBits * q + r ∧
    (r + 1 < 2 ^ fieldBits ∧ p + 1 = 2 ^ fieldBits * q + (r + 1) ∨
      r + 1 = 2 ^ fieldBits ∧ p + 1 = 2 ^ fieldBits * (q + 1) + 0) := by
  have hpos : 0 < 2 ^ fieldBits := Nat.two_pow_pos _
  have hr := Nat.mod_lt p hpos
  have hp := Nat.div_add_mod p (2 ^ fieldBits)
  refine ⟨p / 2 ^ fieldBits, p % 2 ^ fieldBits, hr, hp.symm, ?_⟩
  rcases Nat.lt_or_eq_of_le (Nat.succ_le_of_lt hr) with hless | hlast
  · exact .inl ⟨hless, by omega⟩
  · refine .inr ⟨hlast, ?_⟩
    rw [Nat.mul_add, Nat.mul_one, Nat.add_zero]
    omega

/-- Two neighbours: the first is smaller, and the midpoint between them is where one ends and the other begins. -/
def Adjacent (x y : Binary) : Prop :=
  x.value < y.value ∧ x.upper = (x.value + y.value) / 2 ∧ y.lower = (x.value + y.value) / 2

theorem adjacent_succ (m : ℕ) (e : ℤ) (narrow : Bool) : Adjacent ⟨m, e, narrow⟩ ⟨m + 1, e, false⟩ := by
  have hpos : (0 : ℚ) < 2 ^ e := by positivity
  simp only [Adjacent, Binary.value, Binary.upper, Binary.lower, zpow_sub₀ (by norm_num : (2 : ℚ) ≠ 0)]
  push_cast
  exact ⟨by linarith, by ring, by ring⟩

/-- The first number of a larger exponent has its lower neighbour at half the distance. -/
theorem adjacent_carry (k : ℕ) (e : ℤ) (narrow : Bool) : Adjacent ⟨2 * k + 1, e, narrow⟩ ⟨k + 1, e + 1, true⟩ := by
  have hpos : (0 : ℚ) < 2 ^ e := by positivity
  simp only [Adjacent, Binary.value, Binary.upper, Binary.lower, zpow_sub₀ (by norm_num : (2 : ℚ) ≠ 0),
    zpow_add₀ (by norm_num : (2 : ℚ) ≠ 0)]
  push_cast
  exact ⟨by linarith, by ring, by ring⟩

/-- **The number of the next pattern is the next number.** -/
theorem adjacent_ofPattern (p : ℕ) : Adjacent (ofPattern fieldBits bias p) (ofPattern fieldBits bias (p + 1)) := by
  obtain ⟨q, r, hr, rfl, ⟨hnext, hp⟩ | ⟨hnext, hp⟩⟩ := pattern_cases fieldBits p
  · rw [hp, ofPattern_eq fieldBits bias q hr, ofPattern_eq fieldBits bias q hnext]
    split
    · exact adjacent_succ ..
    · have hm : r + 1 + 2 ^ fieldBits = r + 2 ^ fieldBits + 1 := Nat.add_right_comm ..
      have hnarrow : decide (r + 1 = 0 ∧ 1 < q) = false := by simp
      rw [hm, hnarrow]
      exact adjacent_succ ..
  · rw [hp, ofPattern_eq fieldBits bias q hr, ofPattern_eq fieldBits bias (q + 1) (Nat.two_pow_pos _),
      if_neg (Nat.succ_ne_zero q), ← hnext]
    split
    · rename_i hq
      subst hq
      simpa using adjacent_succ r (1 - (bias : ℤ)) false
    · rename_i hq
      have hm : r + (r + 1) = 2 * r + 1 := by omega
      have he : ((q + 1 : ℕ) : ℤ) - bias = q - bias + 1 := by omega
      have hnarrow : decide (0 = 0 ∧ 1 < q + 1) = true := decide_eq_true ⟨rfl, by omega⟩
      rw [Nat.zero_add, hm, he, hnarrow]
      exact adjacent_carry ..

theorem value_strictMono : StrictMono fun p => (ofPattern fieldBits bias p).value :=
  strictMono_nat_of_lt_succ fun p => (adjacent_ofPattern fieldBits bias p).1

theorem even_ofPattern (hbits : 0 < fieldBits) (p : ℕ) : (ofPattern fieldBits bias p).m % 2 = p % 2 := by
  obtain ⟨k, rfl⟩ : ∃ k, fieldBits = k + 1 := ⟨fieldBits - 1, by omega⟩
  obtain ⟨q, r, hr, rfl, -⟩ := pattern_cases (k + 1) p
  have hpow : 2 ^ (k + 1) * q = 2 * (2 ^ k * q) := by rw [Nat.pow_succ]; ring
  have hpow' : 2 ^ (k + 1) = 2 * 2 ^ k := by rw [Nat.pow_succ]; ring
  rw [ofPattern_eq (k + 1) bias q hr, hpow, Nat.mul_add_mod]
  split
  · rfl
  · show (r + 2 ^ (k + 1)) % 2 = r % 2
    rw [hpow', Nat.add_mul_mod_self_left]

/-- Of two numbers the smaller is not nearer up to the middle between them, and the larger not from there on. -/
theorem nearer_iff {v v' : ℚ} (h : v < v') (q : ℚ) :
    (|q - v| ≤ |q - v'| ↔ q ≤ (v + v') / 2) ∧ (|q - v'| ≤ |q - v| ↔ (v + v') / 2 ≤ q) := by
  rw [← sq_le_sq, ← sq_le_sq]
  refine ⟨⟨fun hq => ?_, fun hq => ?_⟩, ⟨fun hq => ?_, fun hq => ?_⟩⟩ <;> nlinarith

/-- **What a number covers is nearest to it**, and in the middle between two numbers it is covered by the even one. -/
theorem nearest_of_covers (hbits : 0 < fieldBits) {q : ℚ} (h : (ofPattern fieldBits bias (p + 1)).Covers q) (p' : ℕ) :
    |q - (ofPattern fieldBits bias (p + 1)).value| ≤ |q - (ofPattern fieldBits bias p').value| ∧
    (|q - (ofPattern fieldBits bias (p + 1)).value| = |q - (ofPattern fieldBits bias p').value| →
      p' = p + 1 ∨ (p + 1) % 2 = 0) := by
  obtain ⟨hless, -, hlower⟩ := adjacent_ofPattern fieldBits bias p
  obtain ⟨hmore, hupper, -⟩ := adjacent_ofPattern fieldBits bias (p + 1)
  have heven := even_ofPattern fieldBits bias hbits (p + 1)
  have hmono := value_strictMono fieldBits bias
  unfold Binary.Covers at h
  rw [heven, hlower, hupper] at h
  rcases Nat.lt_trichotomy p' (p + 1) with hp | rfl | hp
  · have hle : (ofPattern fieldBits bias p').value ≤ (ofPattern fieldBits bias p).value :=
      hmono.monotone (Nat.le_of_lt_succ hp)
    obtain ⟨hfar, hnear⟩ := nearer_iff (hle.trans_lt hless) q
    refine ⟨hnear.2 ?_, fun he => .inr ?_⟩
    · split at h <;> linarith [h.1]
    · by_contra hodd
      rw [if_neg hodd] at h
      linarith [hfar.1 he.ge, h.1]
  · exact ⟨le_refl _, fun _ => .inl rfl⟩
  · have hle : (ofPattern fieldBits bias (p + 2)).value ≤ (ofPattern fieldBits bias p').value :=
      hmono.monotone hp
    obtain ⟨hnear, hfar⟩ := nearer_iff (hmore.trans_le hle) q
    refine ⟨hnear.2 ?_, fun he => .inr ?_⟩
    · split at h <;> linarith [h.2]
    · by_contra hodd
      rw [if_neg hodd] at h
      linarith [hfar.1 he.ge, h.2]

/-- Of a format with at most 53 binary digits, every number is told from its neighbours by seventeen decimal ones. -/
theorem fits_ofPattern (hbits : fieldBits ≤ 52) (hp : 0 < p) : (ofPattern fieldBits bias p).Fits := by
  obtain ⟨q, r, hr, rfl, -⟩ := pattern_cases fieldBits p
  have hpow : 2 ^ fieldBits ≤ 2 ^ 52 := Nat.pow_le_pow_right (by decide) hbits
  rw [ofPattern_eq fieldBits bias q hr]
  split
  · rename_i hq
    subst hq
    exact ⟨by simpa using hp, by simp only; omega, nofun⟩
  · refine ⟨by simp only; omega, by simp only; omega, fun hnarrow => ?_⟩
    simp only [decide_eq_true_eq] at hnarrow
    simp only [hnarrow.1]
    omega

end Patterns

/-! ## Double precision -/

section Doubles

/-- The pattern of a number without its sign. -/
def size (x : Float) : ℕ := x.toBits.toNat % 2 ^ 63

/-- The pattern of infinity. -/
def infinite : ℕ := 0x7ff0000000000000

def signOf (x : Float) : Sign := if 2 ^ 63 ≤ x.toBits.toNat then .negative else .positive

/-- The value of a number; infinity counts as the power of two that comes after the largest number. -/
def valueOf (x : Float) : ℚ :=
  match x.toModel.unpack with
  | .finite s m e _ => s.apply m * 2 ^ e
  | .infinity s => s.apply 1 * 2 ^ 1024
  | _ => 0

/-! ### The parts of a double -/

theorem toNat_unpackExponent (x : Float) :
    (@unpackExponent Format.binary64 x.toBits.toBitVec).toNat = size x / 2 ^ 52 := by
  have hsize : size x = x.toBits.toNat % 2 ^ 63 := rfl
  simp [unpackExponent, Nat.shiftRight_eq_div_pow]
  omega

theorem toNat_unpackMantissa (x : Float) :
    (@unpackMantissa Format.binary64 x.toBits.toBitVec).toNat = size x % 2 ^ 52 := by
  have hsize : size x = x.toBits.toNat % 2 ^ 63 := rfl
  simp [unpackMantissa]
  omega

theorem ofBitVec_unpackSign (x : Float) :
    Sign.ofBitVec (@unpackSign Format.binary64 x.toBits.toBitVec) = signOf x := by
  have hlt := x.toBits.toNat_lt
  have hnat : (@unpackSign Format.binary64 x.toBits.toBitVec).toNat = x.toBits.toNat / 2 ^ 63 := by
    simp [unpackSign, Nat.shiftRight_eq_div_pow]
    omega
  have hzero : @unpackSign Format.binary64 x.toBits.toBitVec = 0#1 ↔ ¬ 2 ^ 63 ≤ x.toBits.toNat := by
    rw [← BitVec.toNat_inj, hnat]
    simp
  rw [Sign.ofBitVec, signOf]
  by_cases hneg : 2 ^ 63 ≤ x.toBits.toNat
  · rw [if_neg (mt hzero.1 (not_not.2 hneg)), if_pos hneg]
  · rw [if_pos (hzero.2 hneg), if_neg hneg]

/-- A double is not a number, infinite, zero, or made of the number of its pattern. -/
theorem unpack_spec (x : Float) :
    infinite < size x ∧ x.toModel.unpack = .notANumber ∨
    size x = infinite ∧ x.toModel.unpack = .infinity (signOf x) ∨
    size x = 0 ∧ x.toModel.unpack = .zero (signOf x) ∨
    0 < size x ∧ size x < infinite ∧ ∃ h, x.toModel.unpack =
      .finite (signOf x) (ofPattern 52 1075 (size x)).m (ofPattern 52 1075 (size x)).e h := by
  have hfull : @unpackExponent Format.binary64 x.toBits.toBitVec = -1#11 ↔ size x / 2 ^ 52 = 2047 := by
    rw [← BitVec.toNat_inj, toNat_unpackExponent]
    rfl
  have hempty : @unpackExponent Format.binary64 x.toBits.toBitVec = 0#11 ↔ size x / 2 ^ 52 = 0 := by
    rw [← BitVec.toNat_inj, toNat_unpackExponent]
    rfl
  have hnone : @unpackMantissa Format.binary64 x.toBits.toBitVec = 0#52 ↔ size x % 2 ^ 52 = 0 := by
    rw [← BitVec.toNat_inj, toNat_unpackMantissa]
    rfl
  have hpattern := ofPattern_eq 52 1075 (size x / 2 ^ 52) (Nat.mod_lt (size x) (by decide : 0 < 2 ^ 52))
  rw [Nat.div_add_mod] at hpattern
  have hunpack : x.toModel.unpack = UnpackedFloat.unpack Format.binary64 x.toBits.toBitVec := rfl
  have hinfinite : infinite = 2047 * 2 ^ 52 := rfl
  have hsize : size x < 2 ^ 63 := Nat.mod_lt _ (by decide)
  rw [hunpack, UnpackedFloat.unpack]
  simp only [hfull, hempty, hnone, ofBitVec_unpackSign, toNat_unpackExponent, toNat_unpackMantissa]
  by_cases hlast : size x / 2 ^ 52 = 2047
  · by_cases hzero : size x % 2 ^ 52 = 0
    · exact .inr (.inl ⟨by omega, by rw [if_pos hlast, if_pos hzero]⟩)
    · exact .inl ⟨by omega, by rw [if_pos hlast, if_neg hzero]⟩
  · by_cases hfirst : size x / 2 ^ 52 = 0
    · by_cases hzero : size x % 2 ^ 52 = 0
      · exact .inr (.inr (.inl ⟨by omega, by rw [if_neg hlast, if_pos hfirst, dif_pos hzero]⟩))
      · refine .inr (.inr (.inr ⟨by omega, by omega, ?_⟩))
        rw [hpattern, if_pos hfirst, if_neg hlast, if_pos hfirst, dif_neg hzero, hfirst]
        exact ⟨Nat.pos_of_ne_zero hzero, rfl⟩
    · refine .inr (.inr (.inr ⟨by omega, by omega, ?_⟩))
      have hone : (1#1 ++ @unpackMantissa Format.binary64 x.toBits.toBitVec).toNat = size x % 2 ^ 52 + 2 ^ 52 := by
        rw [BitVec.toNat_append, ← toNat_unpackMantissa, ← Nat.shiftLeft_add_eq_or_of_lt (BitVec.isLt _),
          Nat.add_comm]
        rfl
      rw [hpattern, if_neg hfirst, if_neg hlast, if_neg hfirst]
      refine ⟨Nat.add_pos_right _ (by decide), ?_⟩
      simp only [hone]
      rfl

theorem isFinite_iff (x : Float) : x.isFinite = true ↔ size x < infinite := by
  have hfinite : x.isFinite = x.toModel.unpack.isFinite := rfl
  rw [hfinite]
  rcases unpack_spec x with ⟨hs, hu⟩ | ⟨hs, hu⟩ | ⟨hs, hu⟩ | ⟨-, hs, _, hu⟩
  · rw [hu]
    exact iff_of_false Bool.false_ne_true hs.not_gt
  · rw [hu]
    exact iff_of_false Bool.false_ne_true hs.not_lt
  · rw [hu, hs]
    exact iff_of_true rfl (by decide)
  · rw [hu]
    exact iff_of_true rfl hs

theorem isNaN_eq_false_iff (x : Float) : x.isNaN = false ↔ size x ≤ infinite := by
  have hnan : x.isNaN = x.toModel.unpack.isNaN := rfl
  rw [hnan]
  rcases unpack_spec x with ⟨hs, hu⟩ | ⟨hs, hu⟩ | ⟨hs, hu⟩ | ⟨-, hs, _, hu⟩
  · rw [hu]
    exact iff_of_false (by decide) hs.not_ge
  · rw [hu]
    exact iff_of_true rfl hs.le
  · rw [hu, hs]
    exact iff_of_true rfl (by decide)
  · rw [hu]
    exact iff_of_true rfl hs.le

theorem valueOf_eq {x : Float} (h : size x ≤ infinite) :
    valueOf x = (signOf x).apply 1 * (ofPattern 52 1075 (size x)).value := by
  unfold valueOf
  rcases unpack_spec x with ⟨hs, hu⟩ | ⟨hs, hu⟩ | ⟨hs, hu⟩ | ⟨-, hs, _, hu⟩ <;> rw [hu]
  · omega
  · have hvalue : (ofPattern 52 1075 infinite).value = 2 ^ 1024 := by
      have hpattern : ofPattern 52 1075 infinite = ⟨2 ^ 52, 972, true⟩ := rfl
      rw [hpattern, Binary.value, Nat.cast_pow, Nat.cast_ofNat, ← zpow_natCast, ← zpow_natCast,
        ← zpow_add₀ (by norm_num)]
      rfl
    rw [hs, hvalue]
  · rw [hs]
    simp [ofPattern, Binary.value]
  · cases signOf x <;> simp [Sign.apply, Binary.value]

/-- A finite double is nearest to `q`: none is nearer, and if another is as near, this one is even. -/
def Nearest (x : Float) (q : ℚ) : Prop :=
  x.isFinite = true ∧ ∀ y : Float, y.isNaN = false → |q - valueOf x| ≤ |q - valueOf y| ∧
    (|q - valueOf x| = |q - valueOf y| → valueOf y = valueOf x ∨ x.toBits.toNat % 2 = 0)

theorem nearest_zero {x : Float} (h : size x = 0) : Nearest x 0 := by
  have hx : valueOf x = 0 := by
    rw [valueOf_eq (by rw [h]; exact Nat.zero_le _), h]
    simp [ofPattern, Binary.value]
  refine ⟨(isFinite_iff x).2 (by rw [h]; decide), fun y _ => ?_⟩
  rw [hx, sub_zero, abs_zero, zero_sub, abs_neg]
  exact ⟨abs_nonneg _, fun hy => .inl (abs_eq_zero.1 hy.symm)⟩

theorem apply_one (s : Sign) : ((s.apply 1 : ℤ) : ℚ) = 1 ∨ ((s.apply 1 : ℤ) : ℚ) = -1 := by
  cases s
  · exact .inr rfl
  · exact .inl rfl

/-- Numbers of equal signs are nearer to each other. -/
theorem abs_sub_le_signed {s t a b : ℚ} (hs : s = 1 ∨ s = -1) (ht : t = 1 ∨ t = -1) (ha : 0 < a) (hb : 0 ≤ b) :
    |a - b| ≤ |s * a - t * b| ∧ (|a - b| = |s * a - t * b| → s = t ∨ b = 0) := by
  have hsum : |a - b| ≤ a + b := abs_le.2 ⟨by linarith, by linarith⟩
  have hzero : |a - b| = a + b → b = 0 := fun h => by
    rcases abs_eq_abs.1 (h.trans (abs_of_nonneg (by linarith : 0 ≤ a + b)).symm) with h | h <;> linarith
  have hopposite : |-a - b| = a + b := by
    rw [show -a - b = -(a + b) by ring, abs_neg, abs_of_nonneg (by linarith)]
  rcases hs with rfl | rfl <;> rcases ht with rfl | rfl
  · simp
  · rw [one_mul, neg_one_mul, sub_neg_eq_add, abs_of_nonneg (by linarith : 0 ≤ a + b)]
    exact ⟨hsum, fun h => .inr (hzero h)⟩
  · rw [one_mul, neg_one_mul, hopposite]
    exact ⟨hsum, fun h => .inr (hzero h)⟩
  · rw [neg_one_mul, neg_one_mul, show -a - -b = -(a - b) by ring, abs_neg]
    exact ⟨le_refl _, fun _ => .inl rfl⟩

/-- **What the size of a number covers is nearest to the number**, with its sign. -/
theorem nearest_of_size {x : Float} (hpos : 0 < size x) (hlt : size x < infinite) {q : ℚ}
    (h : (ofPattern 52 1075 (size x)).Covers q) (hq : 0 < q) : Nearest x ((signOf x).apply 1 * q) := by
  refine ⟨(isFinite_iff x).2 hlt, fun y hy => ?_⟩
  have hsize : size x % 2 = x.toBits.toNat % 2 := by
    unfold size
    omega
  obtain ⟨p, hp⟩ : ∃ p, size x = p + 1 := ⟨size x - 1, by omega⟩
  have hnonneg : 0 ≤ (ofPattern 52 1075 (size y)).value := by
    unfold Binary.value
    positivity
  have hnearest := nearest_of_covers 52 1075 (by decide) (hp ▸ h) (size y)
  rw [valueOf_eq hlt.le, valueOf_eq ((isNaN_eq_false_iff y).1 hy), ← hsize, hp]
  have hsame : |((signOf x).apply 1 : ℚ) * q - (signOf x).apply 1 * (ofPattern 52 1075 (p + 1)).value| =
      |q - (ofPattern 52 1075 (p + 1)).value| := by
    rw [← mul_sub, abs_mul]
    rcases apply_one (signOf x) with h | h <;> simp [h]
  obtain ⟨hside, hsign⟩ := abs_sub_le_signed (apply_one (signOf x)) (apply_one (signOf y)) hq hnonneg
  rw [hsame]
  refine ⟨hnearest.1.trans hside, fun he => ?_⟩
  rcases hnearest.2 (le_antisymm hnearest.1 (he ▸ hside)) with hy | heven
  · rw [hy] at hsign he ⊢
    rcases hsign he with hs | hzero
    · exact .inl (by rw [hs])
    · exact .inl (by rw [hzero, mul_zero, mul_zero])
  · exact .inr heven

/-- The decimal number that is printed for the lower bits of a pattern. -/
def magnitudeShown (tie : Tie) (p : ℕ) : ℚ := if p = 0 then 0 else ((ofPattern 52 1075 p).shortest tie).value

/-- The decimal number that is printed for a double. -/
def shown (tie : Tie) (x : Float) : ℚ := (signOf x).apply 1 * magnitudeShown tie (size x)

/-- **What is printed for a double is read back as that double.** -/
theorem nearest_shown {x : Float} (h : x.isFinite = true) (tie : Tie) : Nearest x (shown tie x) := by
  rw [isFinite_iff] at h
  unfold shown magnitudeShown
  split
  · rename_i hzero
    rw [mul_zero]
    exact nearest_zero hzero
  · rename_i hzero
    have hpos := Nat.pos_of_ne_zero hzero
    have hfits := fits_ofPattern 52 1075 (by decide) hpos
    obtain ⟨-, hcovers, -⟩ := hfits.shortest_spec tie
    exact nearest_of_size hpos h hcovers (hcovers.pos hfits.pos)

end Doubles

end SceneAnimation.Numeral
