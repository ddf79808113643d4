import SceneAnimation.Numeral.Rounding
/-!
# Decimal texts of binary numbers

A positive binary number is `m * 2 ^ e`.  `shortest` finds the fewest decimal digits that read back as the same number:
it tests, for one digit, two digits and so on, the two neighbours of the number on that decimal grid, in exact
arithmetic; of two that read back it takes the nearer, and at a tie the one that the output's `Tie` names.  `fixed`
writes a given number of places, ties to even.  `Layout` says how an output chooses and writes the digits.
-/
namespace SceneAnimation.Numeral

/-- A positive number `m * 2 ^ e` of a binary format; `narrowBelow` where the next smaller number of the format is half
as far away as the next larger one. -/
structure Binary where
  m : Nat
  e : Int
  narrowBelow : Bool

/-- Decimal digits `d` with value `d * 10 ^ k`. -/
structure Digits where
  d : Nat
  k : Int

namespace Binary

/-- `(num, den)` with `num / den = n * 2 ^ e * 10 ^ -k`. -/
def scaled (n : Nat) (e k : Int) : Nat × Nat :=
  ((n <<< e.toNat) * Nat.pow 10 (-k).toNat, (1 <<< (-e).toNat) * Nat.pow 10 k.toNat)

/-- The exponent of the leading decimal digit. -/
def leading (x : Binary) : Int :=
  let (num, den) := scaled x.m x.e 0
  if den ≤ num then ((toString (num / den)).length : Int) - 1
  else - ((toString ((den + num - 1) / num - 1)).length : Int)

/-- Whether `d * 10 ^ k` reads back as `x`: it lies between the midpoints to the neighbours of `x`, where a midpoint
itself goes to the even number. -/
def readsBack (x : Binary) (d : Nat) (k : Int) : Bool :=
  let below := if x.narrowBelow then 1 else 2
  let (lo, den) := scaled (4 * x.m - below) (x.e - 2) k
  let (hi, _) := scaled (4 * x.m + 2) (x.e - 2) k
  if x.m % 2 = 0 then lo ≤ d * den ∧ d * den ≤ hi else lo < d * den ∧ d * den < hi

/-- The one of the two neighbours of `x` on the grid of `10 ^ k` that reads back; if both do, the nearer, and at a tie
the one that `tie` takes. -/
def onGrid? (tie : Tie) (x : Binary) (k : Int) : Option Nat :=
  let (num, den) := scaled x.m x.e k
  let d := num / den
  match x.readsBack d k, x.readsBack (d + 1) k with
  | true, true => some (roundDiv tie num den)
  | true, false => some d
  | false, true => some (d + 1)
  | false, false => none

/-- The first grid of `n` digits and more, at most `fuel` of them, with a point that reads back. -/
def shortestFrom (tie : Tie) (x : Binary) : (fuel : Nat) → (n : Nat) → Digits
  | 0, _ => ⟨0, 0⟩
  | fuel + 1, n =>
    let k := x.leading - (n : Int) + 1
    match x.onGrid? tie k with
    | some d => ⟨d, k⟩
    | none => shortestFrom tie x fuel (n + 1)

/-- The fewest digits that read back as `x`.  Seventeen are enough for numbers of at most 53 binary digits. -/
def shortest (tie : Tie) (x : Binary) : Digits := x.shortestFrom tie 17 1

end Binary

/-- How an output chooses and writes the digits of a number. -/
structure Layout where
  /-- The exponents of the leading digit that are written with a point in place. -/
  least : Int
  most : Int
  /-- What stands between the exponent mark and an exponent that is not negative. -/
  plus : String
  /-- Which of two equally near digit strings is written. -/
  tie : Tie

/-- Digits without trailing zeros. -/
def Digits.trim (fuel : Nat) (x : Digits) : Digits :=
  match fuel with
  | 0 => x
  | fuel + 1 => if x.d ≠ 0 ∧ x.d % 10 = 0 then trim fuel ⟨x.d / 10, x.k + 1⟩ else x

/-- Writes digits: with a point in place, and at least one digit after it, or with an exponent. -/
def Layout.write (l : Layout) (x : Digits) : String :=
  let x := x.trim 17
  let ds := toString x.d
  let lead := (ds.length : Int) - 1 + x.k
  let zeros (n : Nat) : String := String.ofList (List.replicate n '0')
  if l.least ≤ lead ∧ lead ≤ l.most then
    if 0 ≤ x.k then ds ++ zeros x.k.toNat ++ ".0"
    else if 0 ≤ lead then (ds.take (lead.toNat + 1)).toString ++ "." ++ (ds.drop (lead.toNat + 1)).toString
    else "0." ++ zeros ((-lead).toNat - 1) ++ ds
  else
    let tail := (ds.drop 1).toString
    (ds.take 1).toString ++ (if tail.isEmpty then "" else "." ++ tail) ++ "e" ++
      (if lead < 0 then "-" else l.plus) ++ toString lead.natAbs

/-! ## Single and double precision -/

/-- The number behind the lower bits of a pattern: `fieldBits` of fraction under an exponent field.  `bias` is the
exponent of the last place at exponent field zero, negated. -/
def ofPattern (fieldBits bias : Nat) (pattern : Nat) : Binary :=
  let field := pattern >>> fieldBits
  let fraction := pattern % (1 <<< fieldBits)
  if field = 0 then ⟨fraction, 1 - (bias : Int), false⟩
  else ⟨fraction + (1 <<< fieldBits), (field : Int) - bias, fraction = 0 ∧ 1 < field⟩

/-- The text of a number by its pattern: `signBit` is the weight of the sign and `infinite` the pattern of infinity. -/
def textOfPattern (l : Layout) (fieldBits bias signBit infinite : Nat) (pattern : Nat) : String :=
  let size := pattern % signBit
  if infinite < size then "NaN"
  else
    let sign := if signBit ≤ pattern then "-" else ""
    if size = infinite then sign ++ "inf"
    else if size = 0 then sign ++ "0.0"
    else sign ++ l.write ((ofPattern fieldBits bias size).shortest l.tie)

def textOfSingle (l : Layout) (x : Float32) : String :=
  textOfPattern l 23 150 (1 <<< 31) 0x7f800000 x.toBits.toNat

def textOfDouble (l : Layout) (x : Float) : String :=
  textOfPattern l 52 1075 (1 <<< 63) 0x7ff0000000000000 x.toBits.toNat

/-- A number that is not negative, with `places` digits after the point, ties to even. -/
def fixed (places : Nat) (x : Float) : String :=
  let b := ofPattern 52 1075 (x.toBits.toNat % (1 <<< 63))
  let (num, den) := Binary.scaled b.m b.e (-(places : Int))
  let n := roundDiv .even num den
  let digits := toString (n % Nat.pow 10 places)
  toString (n / Nat.pow 10 places) ++ "." ++ String.ofList (List.replicate (places - digits.length) '0') ++ digits

end SceneAnimation.Numeral
