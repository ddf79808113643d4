import SceneAnimation.Proofs.Skipping
/-!
# Completion: the frame that finishes an animator

An animator is finished by the first frame at which the share of its duration that has passed is one.  The share is
rounded, to 53 binary digits and then to 24, and what is left of a long duration near its end is less than the rounding
takes away.  So the frame is exactly the first one at which the rounded spans are close enough (`Span.Completes`): never
later than the end of the duration, and earlier by at most one part in `2 ^ 24` of it.  Durations below `2 ^ 25` are
finished on time (`Animator.completion_run`).
-/
namespace SceneAnimation

/-! ## Rounding -/

namespace Numeral

/-- **A quotient is rounded up to an even number from half below it on**: a tie goes to the even number. -/
theorem le_roundDiv_iff {num den k : Nat} (hd : 0 < den) (hk : k % 2 = 0) :
    k ≤ roundDiv .even num den ↔ 2 * (k * den) ≤ 2 * num + den := by
  constructor
  · intro h
    exact (Nat.mul_le_mul_left 2 (Nat.mul_le_mul_right den h)).trans (roundDiv_error .even num hd).2
  · intro h
    rcases Nat.lt_or_ge (num / den) k with hlt | hge
    · -- `k` is the upper one of the two neighbours of the quotient, and the lower one is odd
      have hm := Nat.div_add_mod num den
      have hr := Nat.mod_lt num hd
      have hnext : k = num / den + 1 := by
        by_contra hne
        have hfar : (num / den + 2) * den ≤ k * den := Nat.mul_le_mul_right den (by omega)
        rw [Nat.add_mul, Nat.mul_comm (num / den)] at hfar
        omega
      subst k
      rw [Nat.add_mul, Nat.one_mul, Nat.mul_comm (num / den)] at h
      unfold roundDiv
      dsimp only [Tie.step]
      rw [if_neg (by omega)]
      split <;> omega
    · exact hge.trans (div_le_roundDiv .even num den)

variable {p n : Nat}

/-- A number of few digits is its own rounding. -/
theorem significant_of_lt (hp : 0 < p) (h : n < 2 ^ p) : significant p n = n := by
  have hdrop : n.log2 + 1 - p = 0 := by
    by_cases hn : n = 0
    · rw [hn]
      exact Nat.sub_eq_zero_of_le hp
    · have := (Nat.log2_lt hn).2 h
      omega
  rw [significant, hdrop]
  exact roundDiv_one .even n

/-- **Rounding to `p` digits errs by at most one part in `2 ^ p`.** -/
theorem significant_error (hp : 0 < p) (n : Nat) :
    2 ^ p * n ≤ 2 ^ p * significant p n + n ∧ 2 ^ p * significant p n ≤ 2 ^ p * n + n := by
  rcases Nat.lt_or_ge n (2 ^ p) with hlt | hge
  · rw [significant_of_lt hp hlt]
    exact ⟨Nat.le_add_right .., Nat.le_add_right ..⟩
  · have hn : n ≠ 0 := by
      rintro rfl
      exact absurd hge (Nat.not_le.2 (Nat.two_pow_pos p))
    have hlog : p ≤ n.log2 := (Nat.le_log2 hn).2 hge
    -- half of what is dropped, against the leading digit
    have hunit : 2 ^ p * 2 ^ (n.log2 + 1 - p) ≤ 2 * n := by
      rw [← Nat.pow_add, show p + (n.log2 + 1 - p) = n.log2 + 1 by omega, Nat.pow_succ, Nat.mul_comm _ 2]
      exact Nat.mul_le_mul_left 2 (Nat.log2_self_le hn)
    obtain ⟨hlow, hhigh⟩ := roundDiv_error .even n (Nat.two_pow_pos (n.log2 + 1 - p))
    have hlow := Nat.mul_le_mul_left (2 ^ p) hlow
    have hhigh := Nat.mul_le_mul_left (2 ^ p) hhigh
    rw [significant, Nat.shiftLeft_eq, Nat.one_shiftLeft]
    rw [Nat.mul_add, Nat.mul_left_comm, Nat.mul_left_comm _ 2] at hlow hhigh
    omega

end Numeral

/-! ## Shares that are whole -/

/-- **`d` is all of `total`, as far as the share tells**: spans count by their first 53 binary digits, and what is
missing may be half of what 24 digits of a share just below one can tell, and half of what 53 digits can. -/
def Span.Completes (d total : Span) : Prop :=
  (2 ^ 54 - 2 ^ 29 - 1) * Numeral.significant 53 total.nanos.toNat ≤ 2 ^ 54 * Numeral.significant 53 d.nanos.toNat

instance (d total : Span) : Decidable (d.Completes total) := inferInstanceAs (Decidable (_ ≤ _))

namespace Fraction

/-- A quotient below one has the pattern of one just if it is rounded up to it. -/
theorem whole_le_pattern {a b : Nat} (ha : a ≠ 0) (hab : a < b) :
    0x3f800000 ≤ pattern a b ↔ (2 ^ 54 - 2 ^ 29 - 1) * b ≤ 2 ^ 54 * a := by
  have hb : 0 < b := by omega
  obtain ⟨hlow, hhigh⟩ := shift_spec ha hab.le
  obtain ⟨-, hdigits⟩ := digits_spec ha hab.le
  have hshift : 53 ≤ shift a b := by
    by_contra hlt
    have hpow : a * 2 ^ shift a b ≤ a * 2 ^ 52 := Nat.mul_le_mul_left a (Nat.pow_le_pow_right (by decide) (by omega))
    omega
  rcases Nat.lt_or_eq_of_le hshift with hfar | hnear
  · -- less than a half is far from one
    have hpow : a * 2 ^ 54 ≤ a * 2 ^ shift a b := Nat.mul_le_mul_left a (Nat.pow_le_pow_right (by decide) hfar)
    refine iff_of_false ?_ (by omega)
    unfold pattern
    dsimp only
    rw [Nat.shiftLeft_eq (178 - _)]
    omega
  · have hpattern : 0x3f800000 ≤ pattern a b ↔
        2 ^ 24 ≤ Numeral.roundDiv .even (Numeral.roundDiv .even (a <<< shift a b) b) (1 <<< 29) := by
      unfold pattern
      dsimp only
      rw [← hnear, Nat.shiftLeft_eq (178 - _)]
      omega
    have hdouble : 2 ^ 53 - 2 ^ 28 ≤ Numeral.roundDiv .even (a * 2 ^ 53) b ↔
        2 * (2 ^ 24 * 2 ^ 29) ≤ 2 * Numeral.roundDiv .even (a * 2 ^ 53) b + 2 ^ 29 := by omega
    rw [hpattern, ← hnear, Nat.shiftLeft_eq, Numeral.le_roundDiv_iff (by decide) (by decide), Nat.one_shiftLeft,
      ← hdouble, Numeral.le_roundDiv_iff hb (by decide)]
    omega

theorem isWhole_ofQuotient (a b : Nat) :
    (ofQuotient a b).isWhole = true ↔ (2 ^ 54 - 2 ^ 29 - 1) * b ≤ 2 ^ 54 * a := by
  unfold ofQuotient isWhole
  rw [decide_eq_true_iff]
  split
  · exact iff_of_true rfl (by omega)
  · split
    · exact iff_of_false (by decide) (by omega)
    · rw [← whole_le_pattern (by assumption) (by omega)]
      exact min_eq_right_iff

end Fraction

namespace Span

variable {d total : Span}

/-- **The share of a span that has passed is whole** just if what has passed completes the span. -/
theorem isWhole_fractionOf : (d.fractionOf total).isWhole = true ↔ d.Completes total := by
  unfold fractionOf
  split
  · rename_i hz
    have hzero : total.nanos.toNat = 0 := by
      rw [of_decide_eq_true hz]
      rfl
    refine iff_of_true rfl ?_
    rw [Completes, hzero, Numeral.significant_of_lt (by decide) (by decide)]
    exact Nat.zero_le _
  · exact Fraction.isWhole_ofQuotient ..

/-- Where the rounding of spans takes nothing away, a span is completed by what is short of it by little more than one
part in `2 ^ 25`. -/
theorem completes_iff_of_lt (htotal : total.nanos.toNat < 2 ^ 53) (hd : d.nanos.toNat < 2 ^ 53) : d.Completes total ↔
    2 ^ 54 * (total.nanos.toNat - d.nanos.toNat) ≤ (2 ^ 29 + 1) * total.nanos.toNat := by
  rw [Completes, Numeral.significant_of_lt (by decide) htotal, Numeral.significant_of_lt (by decide) hd]
  omega

theorem completes_of_le (h : total ≤ d) : d.Completes total := by
  have hsignificant : Numeral.significant 53 total.nanos.toNat ≤ Numeral.significant 53 d.nanos.toNat :=
    Numeral.significant_mono (by decide) h
  rw [Completes]
  omega

/-- **What completes a span is short of it by at most one part in `2 ^ 24`.** -/
theorem Completes.short_le (h : d.Completes total) :
    2 ^ 24 * (total.nanos.toNat - d.nanos.toNat) ≤ total.nanos.toNat := by
  obtain ⟨htotal, -⟩ := Numeral.significant_error (p := 53) (by decide) total.nanos.toNat
  obtain ⟨-, hd⟩ := Numeral.significant_error (p := 53) (by decide) d.nanos.toNat
  rw [Completes] at h
  omega

theorem Completes.le_of_lt (h : d.Completes total) (htotal : total.nanos.toNat < 2 ^ 25) : total ≤ d := by
  show total.nanos.toNat ≤ d.nanos.toNat
  by_contra hshort
  have := (completes_iff_of_lt (by omega) (by omega)).1 h
  omega

end Span

/-! ## Animators -/

namespace Animator

/-- Whether the way of an animator that is first run at `first` is complete at `t`. -/
def Due (a : Animator) (first t : Instant) : Prop :=
  first.plusSaturating a.delay ≤ t ∧ (t.since (first.plusSaturating a.delay)).Completes a.duration

instance (a : Animator) (first t : Instant) : Decidable (a.Due first t) := inferInstanceAs (Decidable (_ ∧ _))

/-- An animator after frames, each at its time and over what the properties are by then. -/
def after (a : Animator) (frames : List (Instant × Properties)) : Animator :=
  frames.foldl (fun a f => (a.advance f.2 f.1).animator) a

variable {a : Animator} {first t : Instant} {x : Float32} {p : Properties} {frames : List (Instant × Properties)}

/-- The first frame fixes the way, and goes on as any other. -/
theorem advance_of_notStarted (h : a.state = .notStarted) (p : Properties) (t : Instant) : a.advance p t =
    { a with state := .running (t.plusSaturating a.delay) (p.get a.property) }.advance p t := by
  rw [advance, h]
  rfl

/-- An animator on its way from `x`, which it began at `first`. -/
def onWay (a : Animator) (first : Instant) (x : Float32) : Animator :=
  { a with state := .running (first.plusSaturating a.delay) x }

theorem not_lt_start_of_due (h : a.Due first t) : ¬ t < first.plusSaturating a.delay := UInt64.not_lt.2 h.1

/-- **A frame that is due finishes the animator**, with its final value. -/
theorem advance_of_due (h : a.Due first t) (p : Properties) :
    (a.onWay first x).advance p t = ⟨{ a with state := .finished }, p.set a.property a.finalValue, true⟩ := by
  have hwhole := Span.isWhole_fractionOf.2 h.2
  simp only [onWay, advance, play, if_neg (not_lt_start_of_due h), if_pos hwhole, Properties.set_set]

/-- **A frame that is not due leaves it on its way**. -/
theorem advance_of_not_due (h : ¬ a.Due first t) (p : Properties) : ((a.onWay first x).advance p t).completed = false ∧
    ((a.onWay first x).advance p t).animator = a.onWay first x := by
  by_cases hstart : t < first.plusSaturating a.delay
  · simp only [onWay, advance, play, if_pos hstart, and_self]
  · have hwhole : ¬ ((t.since (first.plusSaturating a.delay)).fractionOf a.duration).isWhole = true := fun hw =>
      h ⟨UInt64.not_lt.1 hstart, Span.isWhole_fractionOf.1 hw⟩
    have hwrites : (a.onWay first x).advance p t = ⟨a.onWay first x, p.set a.property
        ((a.onWay first x).valueAt x ((t.since (first.plusSaturating a.delay)).fractionOf a.duration)), false⟩ :=
      (if_neg hstart).trans (if_neg hwhole)
    rw [hwrites]
    exact ⟨rfl, rfl⟩

/-- **Frames up to the first that is due leave an animator on its way, and every later one finds it finished.** -/
theorem after_onWay : ∀ frames : List (Instant × Properties), (a.onWay first x).after frames =
    if ∃ f ∈ frames, a.Due first f.1 then { a with state := .finished } else a.onWay first x
  | [] => (if_neg fun ⟨_, hf, _⟩ => nomatch hf).symm
  | f :: frames => by
    rw [after, List.foldl_cons]
    by_cases hdue : a.Due first f.1
    · rw [advance_of_due hdue, if_pos ⟨f, List.mem_cons_self, hdue⟩]
      -- a finished animator stays as it is
      show after _ frames = _
      induction frames with
      | nil => rfl
      | cons g frames ih => exact ih
    · have hrest : (∃ g ∈ f :: frames, a.Due first g.1) ↔ ∃ g ∈ frames, a.Due first g.1 := by
        rw [List.exists_mem_cons_iff, or_iff_right hdue]
      rw [(advance_of_not_due hdue f.2).2, if_congr hrest rfl rfl]
      exact after_onWay frames

theorem toNat_plusSaturating (h : first.nanos.toNat + a.delay.nanos.toNat < 2 ^ 64) :
    (first.plusSaturating a.delay).nanos.toNat = first.nanos.toNat + a.delay.nanos.toNat := by
  show (saturate _).toNat = _
  rw [toNat_saturate, UInt64.size]
  omega

/-- How much is left of the way at `t`, against what a frame that is due may leave. -/
theorem due_bounds (hfit : first.nanos.toNat + a.delay.nanos.toNat + a.duration.nanos.toNat < 2 ^ 64) (t : Instant) :
    let start := first.nanos.toNat + a.delay.nanos.toNat
    let left := start + a.duration.nanos.toNat - t.nanos.toNat
    (left = 0 → a.Due first t) ∧
    (a.Due first t → start ≤ t.nanos.toNat ∧ 2 ^ 24 * left ≤ a.duration.nanos.toNat) ∧
    (a.duration.nanos.toNat < 2 ^ 25 → a.Due first t → left = 0) ∧
    (a.duration.nanos.toNat < 2 ^ 53 →
      (a.Due first t ↔ start ≤ t.nanos.toNat ∧ 2 ^ 54 * left ≤ (2 ^ 29 + 1) * a.duration.nanos.toNat)) := by
  dsimp only
  generalize hs : first.nanos.toNat + a.delay.nanos.toNat = start at hfit ⊢
  have hstart : (first.plusSaturating a.delay).nanos.toNat = start := (toNat_plusSaturating (by omega)).trans hs
  have hbegun : first.plusSaturating a.delay ≤ t ↔ start ≤ t.nanos.toNat := by
    rw [← hstart]
    exact UInt64.le_iff_toNat_le
  have hpassed : (t.since (first.plusSaturating a.delay)).nanos.toNat = t.nanos.toNat - start := by
    rw [Instant.toNat_since, hstart]
  have hover : start + a.duration.nanos.toNat ≤ t.nanos.toNat →
      (t.since (first.plusSaturating a.delay)).Completes a.duration := fun h => Span.completes_of_le (by
    show a.duration.nanos.toNat ≤ (t.since _).nanos.toNat
    omega)
  refine ⟨fun h => ⟨hbegun.2 (by omega), hover (by omega)⟩, fun h => ⟨hbegun.1 h.1, ?_⟩, fun hd h => ?_, fun hd => ?_⟩
  · have hshort := h.2.short_le
    have := hbegun.1 h.1
    rw [hpassed] at hshort
    omega
  · have hle : a.duration.nanos.toNat ≤ (t.since (first.plusSaturating a.delay)).nanos.toNat := h.2.le_of_lt hd
    have := hbegun.1 h.1
    omega
  · rw [Due, hbegun]
    refine and_congr_right fun hbegun' => ?_
    by_cases hlong : start + a.duration.nanos.toNat ≤ t.nanos.toNat
    · exact iff_of_true (hover hlong) (by omega)
    · rw [Span.completes_iff_of_lt hd (by omega), hpassed]
      omega

/-- **An animator is finished once, by the first frame that is due**, for every duration and delay, at any frame times,
and whatever is done to the properties between the frames.  No frame before the end of the delay writes anything, and
none after the one that finished it.  A frame at or after the end of the duration is due.  One before it is due only if
at most one part in `2 ^ 24` of the duration is left, and never for a duration below `2 ^ 25`. -/
theorem completion_run (h : a.state = .notStarted) (first : Instant) (p₀ : Properties)
    (frames : List (Instant × Properties))
    (hfit : first.nanos.toNat + a.delay.nanos.toNat + a.duration.nanos.toNat < 2 ^ 64) :
    let start := first.nanos.toNat + a.delay.nanos.toNat
    (∀ before t p later, (first, p₀) :: frames = before ++ (t, p) :: later →
      let call := (a.after before).advance p t
      (call.completed = true ↔ a.Due first t ∧ ∀ f ∈ before, ¬ a.Due first f.1) ∧
      (t.nanos.toNat < start → call.properties = p) ∧
      ((∃ f ∈ before, a.Due first f.1) → call.completed = false ∧ call.properties = p)) ∧
    ∀ t : Instant, let left := start + a.duration.nanos.toNat - t.nanos.toNat
      (left = 0 → a.Due first t) ∧
      (a.Due first t → start ≤ t.nanos.toNat ∧ 2 ^ 24 * left ≤ a.duration.nanos.toNat) ∧
      (a.duration.nanos.toNat < 2 ^ 25 → a.Due first t → left = 0) ∧
      (a.duration.nanos.toNat < 2 ^ 53 →
        (a.Due first t ↔ start ≤ t.nanos.toNat ∧ 2 ^ 54 * left ≤ (2 ^ 29 + 1) * a.duration.nanos.toNat)) := by
  refine ⟨fun before t p later hframes => ?_, due_bounds hfit⟩
  -- after the first frame as before it, the animator does what it does on its way
  have hcall : (a.after before).advance p t = ((a.onWay first (p₀.get a.property)).after before).advance p t := by
    cases before with
    | nil =>
      cases hframes
      exact advance_of_notStarted h p₀ first
    | cons f before =>
      cases hframes
      exact congrArg (fun b : Animator => (b.after before).advance p t)
        (congrArg Advance.animator (advance_of_notStarted h p₀ first))
  have hstart : t.nanos.toNat < first.nanos.toNat + a.delay.nanos.toNat ↔ t < first.plusSaturating a.delay := by
    rw [← toNat_plusSaturating (a := a) (by omega)]
    exact UInt64.lt_iff_toNat_lt.symm
  dsimp only
  rw [hcall, after_onWay, hstart]
  by_cases hdone : ∃ f ∈ before, a.Due first f.1
  · rw [if_pos hdone]
    refine ⟨iff_of_false Bool.false_ne_true fun hd => ?_, fun _ => rfl, fun _ => ⟨rfl, rfl⟩⟩
    obtain ⟨f, hf, hdue⟩ := hdone
    exact hd.2 f hf hdue
  · rw [if_neg hdone]
    refine ⟨?_, fun hearly => congrArg Advance.properties (if_pos hearly), fun hd => absurd hd hdone⟩
    by_cases hdue : a.Due first t
    · rw [advance_of_due hdue]
      exact iff_of_true rfl ⟨hdue, fun f hf hd => hdone ⟨f, hf, hd⟩⟩
    · rw [(advance_of_not_due hdue p).1]
      exact iff_of_false Bool.false_ne_true fun hd => hdue hd.1

/-- An animator of a span of 16 after a delay of 5, first run at 100, is finished at 121, not at 120, and writes nothing
at 104. -/
theorem completion_opening :
    let a : Animator := { property := .translationX, finalValue := 10.0, duration := ⟨16⟩, delay := ⟨5⟩ }
    let p : Properties := {}
    let framesAt (ns : List UInt64) : List (Instant × Properties) := ns.map fun n => (⟨n⟩, p)
    (a.state = .notStarted ∧ 100 + a.delay.nanos.toNat + a.duration.nanos.toNat < 2 ^ 64) ∧
    ((a.after (framesAt [100])).advance p ⟨104⟩).properties = p ∧
    ((a.after (framesAt [100, 104])).advance p ⟨120⟩).completed = false ∧
    ((a.after (framesAt [100, 104, 120])).advance p ⟨121⟩).completed = true ∧
    ((a.after (framesAt [100, 104, 120, 121])).advance p ⟨130⟩).completed = false := by
  intro a p framesAt
  have hnew : a.state = .notStarted := rfl
  have hfit : 100 + a.delay.nanos.toNat + a.duration.nanos.toNat < 2 ^ 64 := by decide +kernel
  obtain ⟨hrun, -⟩ := completion_run hnew ⟨100⟩ p (framesAt [104, 120, 121, 130]) hfit
  obtain ⟨-, hearly, -⟩ := hrun (framesAt [100]) ⟨104⟩ p (framesAt [120, 121, 130]) rfl
  obtain ⟨hbefore, -, -⟩ := hrun (framesAt [100, 104]) ⟨120⟩ p (framesAt [121, 130]) rfl
  obtain ⟨hends, -, -⟩ := hrun (framesAt [100, 104, 120]) ⟨121⟩ p (framesAt [130]) rfl
  obtain ⟨-, -, hafter⟩ := hrun (framesAt [100, 104, 120, 121]) ⟨130⟩ p [] rfl
  refine ⟨⟨hnew, hfit⟩, hearly (by decide +kernel), ?_, hends.2 ⟨by decide +kernel, ?_⟩, (hafter ?_).1⟩
  · exact Bool.eq_false_iff.2 fun hc => absurd (hbefore.1 hc).1 (by decide +kernel)
  · simp only [framesAt, List.map_cons, List.map_nil, List.forall_mem_cons]
    decide +kernel
  · exact ⟨(⟨121⟩, p), by simp [framesAt], by decide +kernel⟩

/-- A duration of `2 ^ 25` is finished one nanosecond before its end. -/
theorem completion_early :
    let a : Animator := { property := .translationX, finalValue := 10.0, duration := ⟨33554432⟩ }
    let p : Properties := {}
    (a.state = .notStarted ∧ 0 + a.delay.nanos.toNat + a.duration.nanos.toNat < 2 ^ 64) ∧
    ((a.after [(⟨0⟩, p)]).advance p ⟨33554431⟩).completed = true ∧
    33554431 < 0 + a.delay.nanos.toNat + a.duration.nanos.toNat := by
  decide +kernel

end Animator

end SceneAnimation
