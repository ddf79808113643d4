import SceneAnimation.Time
import SceneAnimation.Numeral.Rounding
/-!
# Fraction: how much of a span has passed

The share of an animation that is over, as a single-precision number from zero to one.  It is found in two roundings,
as IEEE arithmetic finds it: both spans and their quotient are taken to 53 significant binary digits, and the quotient
then to 24.  The patterns of single-precision numbers from zero to one are ordered as the numbers are, so a fraction is
kept as its pattern.
-/
namespace SceneAnimation

/-- A single-precision number from zero to one, by its bit pattern. -/
structure Fraction where
  bits : Nat
  le_whole : bits ≤ 0x3f800000
deriving DecidableEq

namespace Fraction

/-- All of it. -/
def whole : Fraction := ⟨0x3f800000, Nat.le_refl _⟩

/-- None of it. -/
def nothing : Fraction := ⟨0, Nat.zero_le _⟩

def isWhole (f : Fraction) : Bool := f.bits = 0x3f800000

def toFloat32 (f : Fraction) : Float32 := Float32.ofBits (UInt32.ofNat f.bits)

/-- The shift that brings `a / b` to 53 binary digits before the point, for `0 < a ≤ b`. -/
def shift (a b : Nat) : Nat :=
  let s := 52 + b.log2 - a.log2
  if a <<< s < b <<< 52 then s + 1 else s

/-- The pattern of `a / b`, rounded to 53 and then to 24 significant binary digits, for `0 < a ≤ b`.  The leading digit
of the rounded number adds to the exponent field, which is therefore written one less. -/
def pattern (a b : Nat) : Nat :=
  let s := shift a b
  (178 - s) <<< 23 + Numeral.roundDiv .even (Numeral.roundDiv .even (a <<< s) b) (1 <<< 29)

/-- `a / b` in single precision, one if `b ≤ a`. -/
def ofQuotient (a b : Nat) : Fraction :=
  if b ≤ a then whole
  else if a = 0 then nothing
  else ⟨min (pattern a b) 0x3f800000, Nat.min_le_right ..⟩

end Fraction

/-- The share of `total` that `d` is.  Of an empty span everything has passed. -/
def Span.fractionOf (d total : Span) : Fraction :=
  if total.isZero then Fraction.whole
  else Fraction.ofQuotient (Numeral.significant 53 d.nanos.toNat) (Numeral.significant 53 total.nanos.toNat)

theorem Span.fractionOf_zero (d : Span) : d.fractionOf Span.zero = Fraction.whole := rfl

end SceneAnimation
