import SceneAnimation.Proofs.Doubles
/-!
# Quotients: rounding to a double

An operation on doubles is computed on whole numbers; of what is left over it is only kept whether it reaches one half,
and whether there is more (`Keeps`).  Shifts keep that, and the double it is rounded to is nearest to the exact result
(`round_spec`).  So the double of a whole number is nearest to it, and the quotient of two doubles is nearest to that
of their values.
-/
namespace SceneAnimation.Numeral

open Float.Model Float.Model.UnpackedFloat

/-! ## What is left over -/

/-- The number `q` has the whole part that is stored, and the bits say what is left over. -/
def Keeps (em : ExtendedMantissa) (q : ℚ) : Prop :=
  ∃ rest : ℚ, 0 ≤ rest ∧ rest < 1 / 2 ∧ (rest = 0 ↔ em.stickyBit = false) ∧
    q = em.mantissa + (if em.roundBit then 1 / 2 else 0) + rest

theorem keeps_exact (m : ℕ) : Keeps (.ofMantissaAndAccuracy m .exact) m :=
  ⟨0, le_refl _, by norm_num, iff_of_true rfl rfl, by simp [ExtendedMantissa.ofMantissaAndAccuracy]⟩

theorem keeps_fraction (m : ℕ) {num den : ℕ} (h : num < den) :
    Keeps (.ofMantissaAndAccuracy m (accuracyOfFraction num den)) (m + num / den) := by
  have hden : (0 : ℚ) < den := by exact_mod_cast Nat.zero_lt_of_lt h
  have hlt : (num : ℚ) < den := by exact_mod_cast h
  unfold accuracyOfFraction
  split
  · rename_i hzero
    simpa [hzero] using keeps_exact m
  · rename_i hzero
    have hpos : (0 : ℚ) < num := by exact_mod_cast Nat.pos_of_ne_zero hzero
    rcases Nat.lt_trichotomy (2 * num) den with hhalf | hhalf | hhalf
    · have hhalf' : (2 : ℚ) * num < den := by exact_mod_cast hhalf
      rw [Nat.compare_eq_lt.2 hhalf]
      refine ⟨num / den, by positivity, ?_, iff_of_false (by positivity) nofun, ?_⟩
      · rw [div_lt_div_iff₀ hden (by norm_num)]
        linarith
      · simp [ExtendedMantissa.ofMantissaAndAccuracy]
    · have hhalf' : (2 : ℚ) * num = den := by exact_mod_cast hhalf
      rw [Nat.compare_eq_eq.2 hhalf]
      refine ⟨0, le_refl _, by norm_num, iff_of_true rfl rfl, ?_⟩
      simp [ExtendedMantissa.ofMantissaAndAccuracy, ← hhalf']
      field_simp
    · have hhalf' : (den : ℚ) < 2 * num := by exact_mod_cast hhalf
      rw [Nat.compare_eq_gt.2 hhalf]
      have hrest : (1 : ℚ) / 2 < num / den := by
        rw [div_lt_div_iff₀ (by norm_num) hden]
        linarith
      refine ⟨num / den - 1 / 2, by linarith, ?_, iff_of_false (by linarith) nofun, ?_⟩
      · have hone : (num : ℚ) / den < 1 := (div_lt_one hden).2 hlt
        linarith
      · simp [ExtendedMantissa.ofMantissaAndAccuracy]

theorem Keeps.shiftRightOne {em : ExtendedMantissa} {q : ℚ} (h : Keeps em q) : Keeps em.shiftRightOne (q / 2) := by
  obtain ⟨rest, hnonneg, hlt, hzero, rfl⟩ := h
  have hm : (em.mantissa : ℚ) = 2 * (em.mantissa / 2 : ℕ) + (em.mantissa % 2 : ℕ) := by
    exact_mod_cast (Nat.div_add_mod em.mantissa 2).symm
  have hbit : ((em.mantissa % 2 : ℕ) : ℚ) / 2 = if em.shiftRightOne.roundBit then 1 / 2 else 0 := by
    rcases Nat.mod_two_eq_zero_or_one em.mantissa with hp | hp <;> simp [ExtendedMantissa.shiftRightOne, hp]
  refine ⟨((if em.roundBit then 1 / 2 else 0) + rest) / 2, ?_, ?_, ?_, ?_⟩
  · split <;> linarith
  · split <;> linarith
  · cases hr : em.roundBit
    · simpa [ExtendedMantissa.shiftRightOne, hr] using hzero
    · simp only [ExtendedMantissa.shiftRightOne, hr, if_true, Bool.true_or]
      exact iff_of_false (by linarith) nofun
  · rw [← hbit, hm]
    simp only [ExtendedMantissa.shiftRightOne]
    ring

theorem Keeps.shiftRight {em : ExtendedMantissa} {q : ℚ} (h : Keeps em q) (n : ℕ) : Keeps (em >>> n) (q / 2 ^ n) := by
  induction n with
  | zero => simpa [HShiftRight.hShiftRight, Nat.repeat] using h
  | succ n ih =>
    rw [pow_succ, ← div_div]
    exact ih.shiftRightOne

/-- **The whole number that is nearest**, and in the middle the even one. -/
theorem Keeps.rounded {em : ExtendedMantissa} {q : ℚ} (h : Keeps em q) :
    ((em.roundedMantissa : ℚ) - 1 / 2 ≤ q ∧ q ≤ em.roundedMantissa + 1 / 2) ∧
    (em.roundedMantissa % 2 ≠ 0 → (em.roundedMantissa : ℚ) - 1 / 2 < q ∧ q < em.roundedMantissa + 1 / 2) := by
  obtain ⟨m, r, s⟩ := em
  obtain ⟨rest, hnonneg, hlt, hzero, rfl⟩ := h
  cases r with
  | false =>
    have hround : ExtendedMantissa.roundedMantissa ⟨m, false, s⟩ = m := by cases s <;> rfl
    simp only [hround, Bool.false_eq_true, if_false]
    exact ⟨⟨by linarith, by linarith⟩, fun _ => ⟨by linarith, by linarith⟩⟩
  | true =>
    cases s with
    | true =>
      have hpos : 0 < rest := lt_of_le_of_ne hnonneg (Ne.symm (hzero.not.2 nofun))
      have hround : ExtendedMantissa.roundedMantissa ⟨m, true, true⟩ = m + 1 := rfl
      simp only [hround, if_true, Nat.cast_add, Nat.cast_one]
      exact ⟨⟨by linarith, by linarith⟩, fun _ => ⟨by linarith, by linarith⟩⟩
    | false =>
      have hround : ExtendedMantissa.roundedMantissa ⟨m, true, false⟩ = m + m % 2 := rfl
      have hrest : rest = 0 := hzero.2 rfl
      have heven : (m + m % 2) % 2 = 0 := by omega
      simp only [hround, hrest, heven, if_true, ne_eq, not_true, false_imp_iff, and_true]
      rcases Nat.mod_two_eq_zero_or_one m with hm | hm <;> rw [hm] <;> push_cast <;> constructor <;> linarith

theorem Keeps.floor {em : ExtendedMantissa} {q : ℚ} (h : Keeps em q) : (em.mantissa : ℚ) ≤ q ∧ q < em.mantissa + 1 := by
  obtain ⟨rest, hnonneg, hlt, -, rfl⟩ := h
  split <;> constructor <;> linarith

theorem roundedMantissa_bounds (em : ExtendedMantissa) :
    em.mantissa ≤ em.roundedMantissa ∧ em.roundedMantissa ≤ em.mantissa + 1 := by
  obtain ⟨m, r, s⟩ := em
  cases r <;> cases s <;>
    simp only [ExtendedMantissa.roundedMantissa, ExtendedMantissa.accuracy, Accuracy.roundToNearestEven] <;> omega

/-! ## Rounding -/

/-- Numbers that a double of full precision holds. -/
structure Normal (m : ℕ) (e : ℤ) : Prop where
  le : 2 ^ 52 ≤ m
  lt : m < 2 ^ 53
  least : -1074 ≤ e
  most : e ≤ 971

theorem Normal.log2_eq {m : ℕ} {e : ℤ} (h : Normal m e) : m.log2 = 52 :=
  (Nat.log2_eq_iff (Nat.ne_of_gt ((Nat.two_pow_pos 52).trans_le h.le))).2 ⟨h.le, h.lt⟩

theorem toNat_append (v w : ℕ) (x : BitVec v) (y : BitVec w) : (x ++ y).toNat = 2 ^ w * x.toNat + y.toNat := by
  rw [BitVec.toNat_append, ← Nat.shiftLeft_add_eq_or_of_lt y.isLt, Nat.shiftLeft_eq, Nat.mul_comm]

theorem toBits_pack {m : ℕ} {e : ℤ} (h : Normal m e) (hm : 0 < m) :
    (Float.ofModel (.pack (.finite .positive m e hm))).toBits.toNat = 2 ^ 52 * (e + 1075).toNat + (m - 2 ^ 52) := by
  have hlog := h.log2_eq
  obtain ⟨hle, hlt, hleast, hmost⟩ := h
  show (UnpackedFloat.pack Format.binary64 (.finite .positive m e hm)).toNat = _
  have hbiased : (e + Format.binary64.exponentBias + Format.binary64.mantissaBitsWithoutImplicit).toNat =
      (e + 1075).toNat := by
    simp [Format.exponentBias]
    omega
  simp only [UnpackedFloat.pack, hbiased, hlog]
  have hbits : 52 + 1 = Format.binary64.mantissaBits := rfl
  rw [if_neg (by simp; omega), if_pos hbits, packComponents, toNat_append, toNat_append]
  simp [Sign.toBitVec]
  omega

section Packed

variable {m : ℕ} {e : ℤ} {q : ℚ}

/-- **A double of full precision is the number that it is made of.** -/
theorem pack_spec (h : Normal m e) (hm : 0 < m) :
    signOf (.ofModel (.pack (.finite .positive m e hm))) = .positive ∧
    0 < size (.ofModel (.pack (.finite .positive m e hm))) ∧
    size (.ofModel (.pack (.finite .positive m e hm))) < infinite ∧
    ofPattern 52 1075 (size (.ofModel (.pack (.finite .positive m e hm)))) = ⟨m, e, m = 2 ^ 52 ∧ -1074 < e⟩ := by
  have hbits := toBits_pack h hm
  obtain ⟨hle, hlt, hleast, hmost⟩ := h
  have hinfinite : infinite = 2 ^ 52 * 2047 := rfl
  have hsize : size (.ofModel (.pack (.finite .positive m e hm))) = 2 ^ 52 * (e + 1075).toNat + (m - 2 ^ 52) := by
    unfold size
    omega
  refine ⟨?_, by omega, by omega, ?_⟩
  · rw [signOf, if_neg]
    omega
  · rw [hsize, ofPattern_eq 52 1075 _ (by omega), if_neg (by omega)]
    have hm' : m - 2 ^ 52 + 2 ^ 52 = m := Nat.sub_add_cancel hle
    have he : ((e + 1075).toNat : ℤ) - (1075 : ℕ) = e := by omega
    have hnarrow : (m - 2 ^ 52 = 0 ∧ 1 < (e + 1075).toNat) ↔ (m = 2 ^ 52 ∧ -1074 < e) := by omega
    simp only [hm', he, hnarrow]

theorem unpack_pack (h : Normal m e) (hm : 0 < m) :
    (Float.ofModel (.pack (.finite .positive m e hm))).toModel.unpack = .finite .positive m e hm := by
  obtain ⟨hsign, hpos, hlt, hpattern⟩ := pack_spec h hm
  rcases unpack_spec (.ofModel (.pack (.finite .positive m e hm))) with ⟨hs, -⟩ | ⟨hs, -⟩ | ⟨hs, -⟩ | ⟨-, -, hm', hu⟩
  · omega
  · omega
  · omega
  · simp only [hsign, hpattern] at hu
    exact hu

theorem nearest_pack (h : Normal m e) (hm : 0 < m) (hq : Binary.Covers ⟨m, e, m = 2 ^ 52 ∧ -1074 < e⟩ q) :
    Nearest (.ofModel (.pack (.finite .positive m e hm))) q := by
  obtain ⟨hsign, hpos, hlt, hpattern⟩ := pack_spec h hm
  have hnearest := nearest_of_size hpos hlt (hpattern ▸ hq) (hq.pos hm)
  rw [hsign] at hnearest
  simpa [Sign.apply] using hnearest

theorem covers_of_rounded {narrow : Bool} (hle : (m : ℚ) - 1 / 2 ≤ q ∧ q ≤ m + 1 / 2)
    (hlt : m % 2 ≠ 0 → (m : ℚ) - 1 / 2 < q ∧ q < m + 1 / 2)
    (hnarrow : narrow = true → m % 2 = 0 ∧ (m : ℚ) - 1 / 4 ≤ q) :
    Binary.Covers ⟨m, e, narrow⟩ (q * 2 ^ e) := by
  have htwo : (0 : ℚ) < 2 ^ e := by positivity
  have hupper : Binary.upper ⟨m, e, narrow⟩ = (m + 1 / 2) * 2 ^ e := by
    rw [Binary.upper, zpow_sub₀ (by norm_num)]
    ring
  have hlower : Binary.lower ⟨m, e, narrow⟩ = (m - if narrow then 1 / 4 else 1 / 2) * 2 ^ e := by
    rw [Binary.lower, zpow_sub₀ (by norm_num)]
    split <;> ring
  rw [Binary.Covers, hupper, hlower, mul_le_mul_iff_left₀ htwo, mul_le_mul_iff_left₀ htwo, mul_lt_mul_iff_left₀ htwo,
    mul_lt_mul_iff_left₀ htwo]
  cases narrow with
  | true =>
    obtain ⟨heven, hless⟩ := hnarrow rfl
    rw [if_pos heven]
    exact ⟨hless, hle.2⟩
  | false =>
    split
    · exact hle
    · rename_i hodd
      exact hlt hodd

end Packed

theorem mantissa_shiftRight (em : ExtendedMantissa) (n : ℕ) : (em >>> n).mantissa = em.mantissa / 2 ^ n := by
  induction n with
  | zero => simp [HShiftRight.hShiftRight, Nat.repeat]
  | succ n ih =>
    rw [Nat.pow_succ, ← Nat.div_div_eq_div_mul, ← ih]
    rfl

theorem mantissa_of (m : ℕ) (a : Accuracy) : (ExtendedMantissa.ofMantissaAndAccuracy m a).mantissa = m := by
  rcases a with _ | _ | _ | _ <;> rfl

theorem shiftToTargetExponent_eq {m : ℕ} {e : ℤ} (hm : 2 ^ 52 ≤ m) (he : -1074 ≤ e) (a : Accuracy) :
    shiftToTargetExponent Format.binary64 m e a =
      (ExtendedMantissa.ofMantissaAndAccuracy m a >>> (m.log2 - 52), e + (m.log2 - 52 : ℕ)) := by
  have hlog : 52 ≤ m.log2 := (Nat.le_log2 (by omega)).2 hm
  have htarget : (Format.binary64.targetExponent (totalExponent m e) - e).toNat = m.log2 - 52 := by
    simp [Format.targetExponent, totalExponent, Format.mantissaBits, Format.minExponent]
    omega
  simp only [shiftToTargetExponent, shiftToExponent, htarget]

/-- After rounding there may be a digit too many, which is zero. -/
theorem roundWithAccuracy_eq {m m' : ℕ} {e e₁ e' : ℤ} {a : Accuracy} {em : ExtendedMantissa}
    (hfirst : shiftToTargetExponent Format.binary64 m e a = (em, e₁)) (hr : 2 ^ 52 ≤ em.roundedMantissa)
    (he : -1074 ≤ e₁) (hm : em.roundedMantissa / 2 ^ (em.roundedMantissa.log2 - 52) = m')
    (he' : e₁ + (em.roundedMantissa.log2 - 52 : ℕ) = e') (hpos : 0 < m') :
    roundWithAccuracy Format.binary64 .positive m e a = .finite .positive m' e' hpos := by
  subst hm he'
  simp only [roundWithAccuracy, hfirst, shiftToTargetExponent_eq hr he, mantissa_shiftRight, mantissa_of]
  rw [dif_neg (Nat.ne_of_gt hpos)]

theorem shifted_range {m k : ℕ} (hk : m.log2 = 52 + k) : 2 ^ 52 ≤ m / 2 ^ k ∧ m / 2 ^ k < 2 ^ 53 := by
  have hpos : 0 < 2 ^ k := Nat.two_pow_pos k
  have hm : m ≠ 0 := by
    rintro rfl
    rw [Nat.log2_zero] at hk
    omega
  obtain ⟨hle, hlt⟩ := (Nat.log2_eq_iff hm).1 hk
  rw [Nat.le_div_iff_mul_le hpos, Nat.div_lt_iff_lt_mul hpos, ← Nat.pow_add, ← Nat.pow_add]
  exact ⟨hle, by rwa [Nat.add_right_comm] at hlt⟩

/-- **The rounded number without the digit too many covers the exact one.**  Where there is such a digit the number is
the first of its exponent, and the exact one is below it. -/
theorem Keeps.covers {em : ExtendedMantissa} {q : ℚ} (h : Keeps em q) (hle : 2 ^ 52 ≤ em.mantissa)
    (hlt : em.mantissa < 2 ^ 53) (e : ℤ) :
    ∃ m' i, em.roundedMantissa / 2 ^ (em.roundedMantissa.log2 - 52) = m' ∧ em.roundedMantissa.log2 - 52 = i ∧
      2 ^ 52 ≤ m' ∧ m' < 2 ^ 53 ∧ i ≤ 1 ∧
      Binary.Covers ⟨m', e + i, m' = 2 ^ 52 ∧ -1074 < e + i⟩ (q * 2 ^ e) := by
  obtain ⟨hnear, hodd⟩ := h.rounded
  obtain ⟨hless, hmore⟩ := roundedMantissa_bounds em
  have hr : 2 ^ 52 ≤ em.roundedMantissa := hle.trans hless
  have hfloor : ((2 ^ 52 : ℕ) : ℚ) ≤ q ∧ q < (2 ^ 53 : ℕ) := by
    have hle' : ((2 ^ 52 : ℕ) : ℚ) ≤ em.mantissa := Nat.cast_le.2 hle
    have hlt' : (em.mantissa : ℚ) + 1 ≤ (2 ^ 53 : ℕ) := by exact_mod_cast hlt
    exact ⟨hle'.trans h.floor.1, h.floor.2.trans_le hlt'⟩
  rcases Nat.lt_or_eq_of_le (by omega : em.roundedMantissa ≤ 2 ^ 53) with hsmall | hcarry
  · have hlog : em.roundedMantissa.log2 = 52 := (Nat.log2_eq_iff (by omega)).2 ⟨hr, hsmall⟩
    rw [hlog]
    refine ⟨em.roundedMantissa, 0, Nat.div_one _, rfl, hr, hsmall, by decide, ?_⟩
    rw [Nat.cast_zero, add_zero]
    refine covers_of_rounded hnear hodd fun hmin => ?_
    rw [(of_decide_eq_true hmin).1]
    exact ⟨by decide, (sub_le_self _ (by norm_num)).trans hfloor.1⟩
  · have hlog : em.roundedMantissa.log2 = 53 := by rw [hcarry]; exact Nat.log2_two_pow
    rw [hlog]
    refine ⟨2 ^ 52, 1, by rw [hcarry]; decide, rfl, le_refl _, by decide, le_refl _, ?_⟩
    have hhalf : q * 2 ^ e = q / 2 * 2 ^ (e + 1) := by
      rw [zpow_add_one₀ (by norm_num)]
      ring
    rw [Nat.cast_one, hhalf]
    rw [hcarry] at hnear
    push_cast at hnear hfloor
    refine covers_of_rounded ?_ (fun hne => absurd rfl hne) fun _ => ⟨by decide, ?_⟩ <;> push_cast
    · constructor <;> linarith
    · linarith

/-- **Rounding gives a number that covers the exact one.** -/
theorem round_spec {m : ℕ} {e : ℤ} {a : Accuracy} {q : ℚ} (hm : 2 ^ 52 ≤ m) (hleast : -1074 ≤ e)
    (hmost : e + m.log2 ≤ 1022) (hq : Keeps (.ofMantissaAndAccuracy m a) q) :
    ∃ m' e' h, roundWithAccuracy Format.binary64 .positive m e a = .finite .positive m' e' h ∧ Normal m' e' ∧
      e ≤ e' ∧ e' ≤ e + m.log2 - 51 ∧ Binary.Covers ⟨m', e', m' = 2 ^ 52 ∧ -1074 < e'⟩ (q * 2 ^ e) := by
  have hlog : 52 ≤ m.log2 := (Nat.le_log2 (by omega)).2 hm
  obtain ⟨k, hk⟩ : ∃ k, m.log2 = 52 + k := ⟨m.log2 - 52, by omega⟩
  have hk' : 52 + k - 52 = k := Nat.add_sub_cancel_left ..
  have hkeeps := hq.shiftRight k
  have hfloor := mantissa_shiftRight (.ofMantissaAndAccuracy m a) k
  have hfirst := shiftToTargetExponent_eq hm hleast a
  rw [mantissa_of] at hfloor
  rw [hk, hk'] at hfirst
  generalize ExtendedMantissa.ofMantissaAndAccuracy m a >>> k = em at hkeeps hfloor hfirst
  obtain ⟨hle, hlt⟩ := shifted_range hk
  rw [← hfloor] at hle hlt
  obtain ⟨m', i, hm', hi, hle', hlt', hone, hcovers⟩ := hkeeps.covers hle hlt (e + k)
  have hexact : q / 2 ^ k * 2 ^ (e + k) = q * 2 ^ e := by
    rw [zpow_add₀ (by norm_num), zpow_natCast]
    field_simp
  rw [hexact] at hcovers
  have hr := hle.trans (roundedMantissa_bounds em).1
  have he' : e + k + (em.roundedMantissa.log2 - 52 : ℕ) = e + k + i := by rw [hi]
  exact ⟨m', e + k + i, by omega, roundWithAccuracy_eq hfirst hr (by omega) hm' he' _,
    ⟨hle', hlt', by omega, by omega⟩, by omega, by omega, hcovers⟩

/-! ## Whole numbers and quotients -/

theorem log2_shiftLeft {n : ℕ} (hn : 0 < n) (s : ℕ) : (n <<< s).log2 = n.log2 + s := by
  obtain ⟨hle, hlt⟩ := (Nat.log2_eq_iff (Nat.ne_of_gt hn)).1 rfl
  have hpos : 0 < 2 ^ s := Nat.two_pow_pos s
  rw [Nat.log2_eq_iff (Nat.ne_of_gt (Nat.shiftLeft_pos_iff.2 hn)), Nat.shiftLeft_eq, Nat.add_right_comm, Nat.pow_add,
    Nat.pow_add _ (n.log2 + 1)]
  exact ⟨Nat.mul_le_mul_right _ hle, Nat.mul_lt_mul_of_pos_right hlt hpos⟩

/-- **The double of a whole number is nearest to it.** -/
theorem toFloat_spec (n : UInt64) (hn : 0 < n.toNat) :
    ∃ m e h, n.toFloat = .ofModel (.pack (.finite .positive m e h)) ∧ Normal m e ∧ -52 ≤ e ∧ e ≤ 12 ∧
      Nearest n.toFloat n.toNat := by
  have hlt : n.toNat.log2 < 64 := (Nat.log2_lt (by omega)).2 n.toNat_lt
  have htarget : Format.binary64.targetExponent (totalExponent n.toNat 0) = n.toNat.log2 - 52 := by
    simp [Format.targetExponent, totalExponent, Format.mantissaBits, Format.minExponent]
    omega
  obtain ⟨s, hs⟩ : ∃ s, (0 - ((n.toNat.log2 : ℤ) - 52)).toNat = s := ⟨_, rfl⟩
  have hround : n.toFloat =
      .ofModel (.pack (roundWithAccuracy Format.binary64 .positive (n.toNat <<< s) (0 - s) .exact)) := by
    have hcompare : compare (n.toNat : ℤ) 0 = .gt := Int.compare_eq_gt.2 (by omega)
    show Float.ofModel (.pack (UnpackedFloat.normalize Format.binary64 n.toNat 0 .positive)) = _
    simp only [UnpackedFloat.normalize, hcompare, Int.toNat_natCast, UnpackedFloat.round, htarget, decreaseExponent, hs]
  have hlog := log2_shiftLeft hn s
  have hm : 2 ^ 52 ≤ n.toNat <<< s := (Nat.le_log2 (Nat.ne_of_gt (Nat.shiftLeft_pos_iff.2 hn))).1 (by omega)
  obtain ⟨m, e, h, hfinite, hnormal, hleast, hmost, hcovers⟩ :=
    round_spec (e := 0 - s) hm (by omega) (by omega) (keeps_exact (n.toNat <<< s))
  refine ⟨m, e, h, by rw [hround, hfinite], hnormal, by omega, by omega, ?_⟩
  rw [hround, hfinite]
  refine nearest_pack hnormal h ?_
  have hexact : ((n.toNat <<< s : ℕ) : ℚ) * 2 ^ (0 - s : ℤ) = n.toNat := by
    rw [Nat.shiftLeft_eq, zero_sub, zpow_neg, zpow_natCast]
    push_cast
    field_simp
  rwa [hexact] at hcovers

section Division

variable {m₁ m₂ : ℕ} {e₁ e₂ : ℤ}

theorem divCore_eq (hm₁ : Normal m₁ e₁) (hm₂ : Normal m₂ e₂) (hleast : -1021 ≤ e₁ - e₂) :
    divCore Format.binary64 m₁ e₁ m₂ e₂ =
      (m₁ <<< 53 / m₂, e₁ - e₂ - 53, accuracyOfFraction (m₁ <<< 53 % m₂) m₂) := by
  have htarget : min (e₁ - e₂) (Format.binary64.targetExponent (totalExponent m₁ e₁ - totalExponent m₂ e₂)) =
      e₁ - e₂ - 53 := by
    simp [Format.targetExponent, totalExponent, Format.mantissaBits, Format.minExponent, hm₁.log2_eq, hm₂.log2_eq]
    omega
  have hshift : (e₁ - e₂ - (e₁ - e₂ - 53)).toNat = 53 := by omega
  simp only [divCore, htarget, hshift]

theorem quotient_range (hm₁ : Normal m₁ e₁) (hm₂ : Normal m₂ e₂) :
    2 ^ 52 ≤ m₁ <<< 53 / m₂ ∧ m₁ <<< 53 / m₂ < 2 ^ 54 := by
  obtain ⟨hle₁, hlt₁, -, -⟩ := hm₁
  obtain ⟨hle₂, hlt₂, -, -⟩ := hm₂
  have hpos : 0 < m₂ := by omega
  rw [Nat.le_div_iff_mul_le hpos, Nat.div_lt_iff_lt_mul hpos, Nat.shiftLeft_eq]
  omega

/-- The quotient and the fraction of what is left over are the exact quotient. -/
theorem quotient_exact (e : ℤ) (hpos : 0 < m₂) :
    (((m₁ <<< 53 / m₂ : ℕ) : ℚ) + (m₁ <<< 53 % m₂ : ℕ) / m₂) * 2 ^ (e - 53) = m₁ / m₂ * 2 ^ e := by
  have hne : (m₂ : ℚ) ≠ 0 := Nat.cast_ne_zero.2 (Nat.ne_of_gt hpos)
  have hmod : (m₂ : ℚ) * (m₁ <<< 53 / m₂ : ℕ) + (m₁ <<< 53 % m₂ : ℕ) = m₁ * 2 ^ 53 := by
    rw [← Nat.cast_mul, ← Nat.cast_add, Nat.div_add_mod, Nat.shiftLeft_eq]
    push_cast
    rfl
  have hwhole : ((m₁ <<< 53 / m₂ : ℕ) : ℚ) + (m₁ <<< 53 % m₂ : ℕ) / m₂ = m₁ * 2 ^ 53 / m₂ := by
    rw [eq_div_iff hne, add_mul, div_mul_cancel₀ _ hne, mul_comm _ (m₂ : ℚ), hmod]
  have hpow : (2 : ℚ) ^ (53 : ℤ) = 2 ^ 53 := zpow_ofNat 2 53
  have hpow' : (2 : ℚ) ^ 53 ≠ 0 := by positivity
  rw [hwhole, zpow_sub₀ (by norm_num), hpow]
  generalize (2 : ℚ) ^ 53 = c at hpow' ⊢
  field_simp

/-- **The quotient of two doubles is nearest to that of their values.** -/
theorem div_spec {x y : Float} {h₁ : 0 < m₁} {h₂ : 0 < m₂}
    (hx : x.toModel.unpack = .finite .positive m₁ e₁ h₁) (hy : y.toModel.unpack = .finite .positive m₂ e₂ h₂)
    (hm₁ : Normal m₁ e₁) (hm₂ : Normal m₂ e₂) (hleast : -1021 ≤ e₁ - e₂) (hmost : e₁ - e₂ ≤ 960) :
    Nearest (x / y) (valueOf x / valueOf y) := by
  have hdiv : x / y = .ofModel (.pack (roundWithAccuracy Format.binary64 .positive (m₁ <<< 53 / m₂) (e₁ - e₂ - 53)
      (accuracyOfFraction (m₁ <<< 53 % m₂) m₂))) := by
    show Float.ofModel (.pack (UnpackedFloat.div Format.binary64 x.toModel.unpack y.toModel.unpack)) = _
    simp only [hx, hy, UnpackedFloat.div, divCore_eq hm₁ hm₂ hleast]
    rfl
  have hvalues : valueOf x / valueOf y = m₁ / m₂ * 2 ^ (e₁ - e₂) := by
    have hx' : valueOf x = m₁ * 2 ^ e₁ := by simp [valueOf, hx, Sign.apply]
    have hy' : valueOf y = m₂ * 2 ^ e₂ := by simp [valueOf, hy, Sign.apply]
    rw [hx', hy', zpow_sub₀ (by norm_num), mul_div_mul_comm]
  obtain ⟨hle, hlt⟩ := quotient_range hm₁ hm₂
  have hlog : (m₁ <<< 53 / m₂).log2 < 54 := (Nat.log2_lt (by omega)).2 hlt
  obtain ⟨m, e, h, hfinite, hnormal, -, -, hcovers⟩ := round_spec (e := e₁ - e₂ - 53) hle (by omega) (by omega)
    (keeps_fraction (m₁ <<< 53 / m₂) (Nat.mod_lt (m₁ <<< 53) h₂))
  rw [quotient_exact _ h₂, ← hvalues] at hcovers
  rw [hdiv, hfinite]
  exact nearest_pack hnormal h hcovers

end Division

theorem unpack_thousand : ∃ h, (1000.0 : Float).toModel.unpack = .finite .positive (1000 * 2 ^ 43) (-43) h := ⟨_, rfl⟩

/-- **A thousandth of a whole number**: the double is nearest to a thousandth of the double that is nearest to it. -/
theorem thousandth_spec (n : UInt64) :
    Nearest n.toFloat n.toNat ∧ Nearest (n.toFloat / 1000.0) (valueOf n.toFloat / 1000) := by
  rcases Nat.eq_zero_or_pos n.toNat with hzero | hpos
  · obtain rfl : n = 0 := UInt64.toNat_inj.1 hzero
    have hsize : size (UInt64.toFloat 0) = 0 := rfl
    have hsize' : size (UInt64.toFloat 0 / 1000.0) = 0 := rfl
    have hvalue : valueOf (UInt64.toFloat 0) = 0 := rfl
    rw [hzero, hvalue, Nat.cast_zero, zero_div]
    exact ⟨nearest_zero hsize, nearest_zero hsize'⟩
  · obtain ⟨m, e, h, hpack, hnormal, hleast, hmost, hnearest⟩ := toFloat_spec n hpos
    refine ⟨hnearest, ?_⟩
    obtain ⟨hthousand, hunpack⟩ := unpack_thousand
    have hvalue : valueOf 1000.0 = 1000 := by
      simp only [valueOf, hunpack, Sign.apply]
      norm_num
    rw [← hvalue]
    have hnormal' : Normal (1000 * 2 ^ 43) (-43) := ⟨by decide, by decide, by decide, by decide⟩
    exact div_spec (hpack ▸ unpack_pack hnormal h) hunpack hnormal hnormal' (by omega) (by omega)

end SceneAnimation.Numeral
