/-!
# Instants and spans of the frame clock

Both are whole nanoseconds in 64 bits.  Three kinds of arithmetic stand side by side: saturating (stops at the end of
the range), checked (`Except Fault`), and comparison.  Each operation is stated on the natural numbers behind the words.
-/
namespace SceneAnimation

/-- The cause of a failed time computation. -/
inductive Fault where
  | addition
  | subtraction
  | wholeSeconds
deriving DecidableEq, Repr

/-- The wording of a fault. -/
def Fault.message : Fault → String
  | .addition => "attempt to add with overflow"
  | .subtraction => "attempt to subtract with overflow"
  | .wholeSeconds => "overflow in Duration::new"

/-- A point in time, in nanoseconds from the clock's origin. -/
structure Instant where
  nanos : UInt64
deriving DecidableEq, Inhabited, Ord

/-- A length of time in nanoseconds. -/
structure Span where
  nanos : UInt64
deriving DecidableEq, Inhabited, Ord

/-- `n`, or the largest word where `n` does not fit. -/
def saturate (n : Nat) : UInt64 := UInt64.ofNat (min n (UInt64.size - 1))

theorem toNat_saturate (n : Nat) : (saturate n).toNat = min n (UInt64.size - 1) := by
  unfold saturate UInt64.size
  rw [UInt64.toNat_ofNat']
  omega

/-- The word `n`, if `n` fits. -/
def fits? (n : Nat) : Option UInt64 := if n < UInt64.size then some (UInt64.ofNat n) else none

namespace Instant

instance : LT Instant := ⟨fun a b => a.nanos < b.nanos⟩
instance : LE Instant := ⟨fun a b => a.nanos ≤ b.nanos⟩
instance (a b : Instant) : Decidable (a < b) := inferInstanceAs (Decidable (a.nanos < b.nanos))
instance (a b : Instant) : Decidable (a ≤ b) := inferInstanceAs (Decidable (a.nanos ≤ b.nanos))

/-- The clock's origin. -/
def zero : Instant := ⟨0⟩

def ofMillis (ms : UInt64) : Instant := ⟨saturate (ms.toNat * 1000000)⟩

/-- The later of two instants. -/
def later (a b : Instant) : Instant := if a < b then b else a

/-- The span from `b` to `a`, zero if `b` is the later one. -/
def since (a b : Instant) : Span := ⟨saturate (a.nanos.toNat - b.nanos.toNat)⟩

theorem toNat_since (a b : Instant) : (a.since b).nanos.toNat = a.nanos.toNat - b.nanos.toNat := by
  have ha : a.nanos.toNat < UInt64.size := a.nanos.toNat_lt_size
  rw [since, toNat_saturate]
  omega

def plusSaturating (a : Instant) (d : Span) : Instant := ⟨saturate (a.nanos.toNat + d.nanos.toNat)⟩

def plus? (a : Instant) (d : Span) : Option Instant := (fits? (a.nanos.toNat + d.nanos.toNat)).map Instant.mk

def plus (a : Instant) (d : Span) : Except Fault Instant :=
  match a.plus? d with
  | some t => .ok t
  | none => .error .addition

def minus (a : Instant) (d : Span) : Except Fault Instant :=
  if d.nanos ≤ a.nanos then .ok ⟨a.nanos - d.nanos⟩ else .error .subtraction

end Instant

namespace Span

instance : LT Span := ⟨fun a b => a.nanos < b.nanos⟩
instance : LE Span := ⟨fun a b => a.nanos ≤ b.nanos⟩
instance (a b : Span) : Decidable (a < b) := inferInstanceAs (Decidable (a.nanos < b.nanos))
instance (a b : Span) : Decidable (a ≤ b) := inferInstanceAs (Decidable (a.nanos ≤ b.nanos))

def zero : Span := ⟨0⟩

def isZero (d : Span) : Bool := d = zero

def ofMillis (ms : UInt64) : Span := ⟨saturate (ms.toNat * 1000000)⟩

/-- `seconds` and `nanos` together.  A thousand million nanoseconds or more are carried into the seconds, which must
still fit a word; a total beyond the range of spans saturates. -/
def ofSeconds (seconds : UInt64) (nanos : UInt32) : Except Fault Span :=
  match fits? (seconds.toNat + nanos.toNat / 1000000000) with
  | none => .error .wholeSeconds
  | some whole => .ok ⟨saturate (whole.toNat * 1000000000 + nanos.toNat % 1000000000)⟩

def plus (a b : Span) : Except Fault Span :=
  match fits? (a.nanos.toNat + b.nanos.toNat) with
  | some n => .ok ⟨n⟩
  | none => .error .addition

def minus (a b : Span) : Except Fault Span :=
  if b ≤ a then .ok ⟨a.nanos - b.nanos⟩ else .error .subtraction

def minusSaturating (a b : Span) : Span := ⟨saturate (a.nanos.toNat - b.nanos.toNat)⟩

end Span

end SceneAnimation
