import SceneAnimation.Clock
import Mathlib.Order.Lattice
import Mathlib.Algebra.Order.Ring.Nat
/-!
# Intervals: how a clock catches up

A clock that catches up goes on by as many whole intervals as have passed, and by nothing else (`Clock.toNat_catchUp`).
So it stays in step with the display: however often it caught up on the way, it is where it would be had it caught up
once, with the latest of these times (`Clock.catchUp_exact`).
-/
namespace SceneAnimation

/-! ## Words as numbers -/

theorem Instant.ext_toNat {a b : Instant} (h : a.nanos.toNat = b.nanos.toNat) : a = b := by
  cases a
  cases b
  exact congrArg Instant.mk (UInt64.toNat_inj.1 h)

theorem Instant.toNat_later (a b : Instant) : (a.later b).nanos.toNat = max a.nanos.toNat b.nanos.toNat := by
  unfold later
  split
  · rename_i h
    exact (Nat.max_eq_right (Nat.le_of_lt (UInt64.lt_iff_toNat_lt.1 h))).symm
  · rename_i h
    exact (Nat.max_eq_left (UInt64.le_iff_toNat_le.1 (UInt64.not_lt.1 h))).symm

theorem Instant.later_of_le {a b : Instant} (h : a ≤ b) : a.later b = b ∧ b.later a = b := by
  have hle : a.nanos.toNat ≤ b.nanos.toNat := UInt64.le_iff_toNat_le.1 h
  exact ⟨ext_toNat ((toNat_later a b).trans (Nat.max_eq_right hle)),
    ext_toNat ((toNat_later b a).trans (Nat.max_eq_left hle))⟩

/-- What is left of `a` when whole spans `b` are taken off.  An empty span cannot be. -/
def Span.remainder? (a b : Span) : Option Span := if b.isZero then none else some ⟨a.nanos % b.nanos⟩

/-! ## One boundary -/

namespace Clock

/-- The last whole interval of length `i` after `c` that is not after `now`; `c` itself, if none has passed. -/
def lastWhole (c i now : Nat) : Nat := c + (now - c) / i * i

theorem lastWhole_of_lt {c i now : Nat} (h : i = 0 ∨ now < c + i) : lastWhole c i now = c := by
  have hdiv : (now - c) / i = 0 := Nat.div_eq_zero_iff.2 (by omega)
  rw [lastWhole, hdiv, Nat.zero_mul, Nat.add_zero]

/-- **The boundary is the last**: it is not after `now`, and the next one is. -/
theorem lastWhole_spec {c i now : Nat} (hi : i ≠ 0) (h : c + i ≤ now) :
    c < lastWhole c i now ∧ lastWhole c i now ≤ now ∧ now - lastWhole c i now < i ∧ i ∣ lastWhole c i now - c := by
  have hpos : 0 < i := Nat.pos_of_ne_zero hi
  have hone : 1 ≤ (now - c) / i := (Nat.one_le_div_iff hpos).2 (by omega)
  have hstep : i ≤ (now - c) / i * i := Nat.le_mul_of_pos_left i hone
  have hsum := Nat.div_add_mod' (now - c) i
  have hmod := Nat.mod_lt (now - c) hpos
  unfold lastWhole
  refine ⟨by omega, by omega, by omega, ?_⟩
  rw [Nat.add_sub_cancel_left]
  exact Nat.dvd_mul_left ..

/-- **Boundaries after a boundary are boundaries**: a second step goes on from the first, as far as one step would. -/
theorem lastWhole_lastWhole (c i a b : Nat) : lastWhole (lastWhole c i a) i b = lastWhole c i (max a b) := by
  have hmono : Monotone fun n => (n - c) / i := fun m n h => Nat.div_le_div_right (Nat.sub_le_sub_right h c)
  -- what is left to the second step is `b` less the intervals that the first one took
  have hrest : (b - (c + (a - c) / i * i)) / i = (b - c) / i - (a - c) / i := by
    rw [Nat.sub_add_eq, Nat.mul_comm, Nat.sub_mul_div]
  have hmax : (max a b - c) / i = max ((a - c) / i) ((b - c) / i) := hmono.map_max
  unfold lastWhole
  rw [hrest, hmax, Nat.add_assoc, ← Nat.add_mul]
  congr 2
  omega

/-! ## Catching up -/

variable {c : Clock} {now : Instant}

/-- When a clock that is asked at `now` stays where it is: it has no interval, or no whole one has passed. -/
def Rests (c : Clock) (now : Instant) : Prop :=
  c.interval = Span.zero ∨ now.nanos.toNat < c.frameTime.nanos.toNat + c.interval.nanos.toNat

instance (c : Clock) (now : Instant) : Decidable (c.Rests now) := inferInstanceAs (Decidable (_ ∨ _))

theorem rests_iff : c.Rests now ↔
    c.interval.nanos.toNat = 0 ∨ now.nanos.toNat < c.frameTime.nanos.toNat + c.interval.nanos.toNat := by
  have hzero : c.interval = Span.zero ↔ c.interval.nanos.toNat = 0 := by
    obtain ⟨t, ⟨i⟩⟩ := c
    rw [Span.zero, Span.mk.injEq, ← UInt64.toNat_inj]
    rfl
  rw [Rests, hzero]

/-- The library asks whether a clock rests on words. -/
theorem passed_iff : (Span.zero < c.interval ∧ c.interval ≤ now.since c.frameTime) ↔ ¬ c.Rests now := by
  have hle : c.interval ≤ now.since c.frameTime ↔
      c.interval.nanos.toNat ≤ now.nanos.toNat - c.frameTime.nanos.toNat := by
    rw [← Instant.toNat_since]
    exact UInt64.le_iff_toNat_le
  have hlt : Span.zero < c.interval ↔ 0 < c.interval.nanos.toNat := UInt64.lt_iff_toNat_lt
  rw [hle, hlt, rests_iff]
  omega

/-- **No boundary fails**: what is taken off `now` is part of what has passed. -/
theorem minus_remainder (c : Clock) (now : Instant) :
    now.minus ⟨(now.since c.frameTime).nanos % c.interval.nanos⟩ =
      .ok ⟨now.nanos - (now.since c.frameTime).nanos % c.interval.nanos⟩ := by
  have hle : (now.since c.frameTime).nanos % c.interval.nanos ≤ now.nanos := by
    rw [UInt64.le_iff_toNat_le, UInt64.toNat_mod, Instant.toNat_since]
    exact Nat.le_trans (Nat.mod_le _ _) (Nat.sub_le _ _)
  rw [Instant.minus, if_pos hle]

theorem boundary_eq (c : Clock) (now : Instant) : c.boundary now =
    .ok (if c.Rests now then none
      else some ⟨now.nanos - (now.since c.frameTime).nanos % c.interval.nanos⟩) := by
  unfold boundary
  dsimp only
  by_cases h : c.Rests now
  · rw [if_neg (fun hp => passed_iff.1 hp h), if_pos h]
  · rw [if_pos (passed_iff.2 h), if_neg h, minus_remainder]
    rfl

theorem eq_of_time {c d : Clock} (hinterval : c.interval = d.interval) (htime : c.frameTime = d.frameTime) : c = d := by
  cases c
  cases d
  cases hinterval
  cases htime
  rfl

theorem interval_catchUp (c : Clock) (now : Instant) : (c.catchUp now).interval = c.interval := by
  unfold catchUp
  split <;> rfl

/-- **A clock catches up by whole intervals.** -/
theorem toNat_catchUp (c : Clock) (now : Instant) : (c.catchUp now).frameTime.nanos.toNat =
    lastWhole c.frameTime.nanos.toNat c.interval.nanos.toNat now.nanos.toNat := by
  unfold catchUp
  rw [boundary_eq]
  by_cases h : c.Rests now
  · rw [if_pos h]
    exact (lastWhole_of_lt (rests_iff.1 h)).symm
  · rw [if_neg h]
    show (c.frameTime.later _).nanos.toNat = _
    have hsum := Nat.div_add_mod' (now.nanos.toNat - c.frameTime.nanos.toNat) c.interval.nanos.toNat
    have hle := Nat.mod_le (now.nanos.toNat - c.frameTime.nanos.toNat) c.interval.nanos.toNat
    rw [rests_iff] at h
    rw [Instant.toNat_later, UInt64.toNat_sub_of_le, UInt64.toNat_mod, Instant.toNat_since, lastWhole]
    · omega
    · rw [UInt64.le_iff_toNat_le, UInt64.toNat_mod, Instant.toNat_since]
      omega

theorem catchUp_of_rests (h : c.Rests now) : c.catchUp now = c := by
  unfold catchUp
  rw [boundary_eq, if_pos h]

/-- **A clock that catches up twice** is where the later of the two times alone would have brought it. -/
theorem catchUp_catchUp (c : Clock) (a b : Instant) : (c.catchUp a).catchUp b = c.catchUp (a.later b) := by
  have hinterval : ((c.catchUp a).catchUp b).interval = (c.catchUp (a.later b)).interval := by
    simp only [interval_catchUp]
  have htime : ((c.catchUp a).catchUp b).frameTime = (c.catchUp (a.later b)).frameTime := by
    apply Instant.ext_toNat
    rw [toNat_catchUp, toNat_catchUp, toNat_catchUp, interval_catchUp, lastWhole_lastWhole, Instant.toNat_later]
  exact eq_of_time hinterval htime

/-- Times before one that the clock has caught up with do not move it. -/
theorem foldl_catchUp_of_le : ∀ {nows : List Instant}, (∀ t ∈ nows, t ≤ now) →
    nows.foldl catchUp (c.catchUp now) = c.catchUp now
  | [], _ => rfl
  | t :: nows, h => by
    obtain ⟨ht, hnows⟩ := List.forall_mem_cons.1 h
    rw [List.foldl_cons, catchUp_catchUp, (Instant.later_of_le ht).2]
    exact foldl_catchUp_of_le hnows

/-- **The way does not matter**: of a list of times, the latest alone decides where the clock ends. -/
theorem foldl_catchUp {latest : Instant} : ∀ {nows : List Instant} {c : Clock}, latest ∈ nows →
    (∀ t ∈ nows, t ≤ latest) → nows.foldl catchUp c = c.catchUp latest
  | t :: nows, c, hmem, h => by
    obtain ⟨ht, hnows⟩ := List.forall_mem_cons.1 h
    rw [List.foldl_cons]
    by_cases hlater : latest ∈ nows
    · rw [foldl_catchUp hlater hnows, catchUp_catchUp, (Instant.later_of_le ht).1]
    · obtain rfl := (List.mem_cons.1 hmem).resolve_right hlater
      exact foldl_catchUp_of_le hnows

/-! ## Nothing fails on the way -/

/-- Catching up, with every operation checked that is not defined for all words. -/
def catchUp? (c : Clock) (now : Instant) : Option Clock :=
  let passed := now.since c.frameTime
  if Span.zero < c.interval ∧ c.interval ≤ passed then
    (passed.remainder? c.interval).bind fun offset => (now.minus offset).toOption.map c.vsync
  else some c

theorem catchUp?_eq (c : Clock) (now : Instant) : c.catchUp? now = some (c.catchUp now) := by
  unfold catchUp?
  dsimp only
  by_cases h : c.Rests now
  · rw [if_neg (fun hp => passed_iff.1 hp h), catchUp_of_rests h]
  · have hzero : c.interval.isZero = false := decide_eq_false fun hz => h (.inl hz)
    rw [if_pos (passed_iff.2 h), Span.remainder?, hzero, catchUp, boundary_eq, if_neg h]
    show ((now.minus _).toOption).map c.vsync = _
    rw [minus_remainder]
    rfl

/-- **How a clock catches up.**  Asked at any time, it computes without failing.  It stays where it is if it has no
interval or no whole one has passed; otherwise it goes on by whole intervals to the last that has passed.  Asked at many
times, in any order, it ends where the latest of them alone would bring it. -/
theorem catchUp_exact (c : Clock) :
    (∀ now, c.catchUp? now = some (c.catchUp now) ∧ (c.catchUp now).interval = c.interval ∧
      let t := (c.catchUp now).frameTime
      if c.Rests now then t = c.frameTime
      else c.frameTime < t ∧ t ≤ now ∧ now.nanos.toNat - t.nanos.toNat < c.interval.nanos.toNat ∧
        c.interval.nanos.toNat ∣ t.nanos.toNat - c.frameTime.nanos.toNat) ∧
    ∀ (nows : List Instant) (latest : Instant), latest ∈ nows → (∀ now ∈ nows, now ≤ latest) →
      nows.foldl catchUp c = c.catchUp latest := by
  refine ⟨fun now => ⟨c.catchUp?_eq now, c.interval_catchUp now, ?_⟩, fun nows latest => foldl_catchUp⟩
  dsimp only
  split
  · rename_i h
    rw [catchUp_of_rests h]
  · rename_i h
    rw [rests_iff, not_or, Nat.not_lt] at h
    obtain ⟨hlt, hle, hnear, hdvd⟩ := lastWhole_spec h.1 h.2
    rw [← toNat_catchUp] at hlt hle hnear hdvd
    exact ⟨UInt64.lt_iff_toNat_lt.2 hlt, UInt64.le_iff_toNat_le.2 hle, hnear, hdvd⟩

/-- At the end of the range of instants, with times that come late and out of order. -/
theorem catchUp_exact_late :
    let c : Clock := { frameTime := ⟨0xfffffffffffffff0⟩, interval := ⟨4⟩ }
    let nows : List Instant := [⟨0xfffffffffffffffa⟩, ⟨3⟩, ⟨0xffffffffffffffff⟩, ⟨0xfffffffffffffff7⟩]
    (⟨0xffffffffffffffff⟩ ∈ nows ∧ ∀ now ∈ nows, now ≤ ⟨0xffffffffffffffff⟩) ∧
    nows.foldl catchUp c = c.catchUp ⟨0xffffffffffffffff⟩ ∧
    (c.catchUp ⟨0xffffffffffffffff⟩).frameTime = ⟨0xfffffffffffffffc⟩ := by
  intro c nows
  have hmem : ⟨0xffffffffffffffff⟩ ∈ nows := by decide
  have hle : ∀ now ∈ nows, now ≤ ⟨0xffffffffffffffff⟩ := by decide
  exact ⟨⟨hmem, hle⟩, (catchUp_exact c).2 nows _ hmem hle, by decide⟩

end Clock

end SceneAnimation
