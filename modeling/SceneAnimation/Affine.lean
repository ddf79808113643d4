import SceneAnimation.Properties
/-!
# The affine map of a node

Six double-precision coefficients.  A node is scaled, then turned, then moved.  Products are evaluated left to right,
one rounding for each operation.
-/
namespace SceneAnimation

/-- The map that takes `(x, y)` to `(a x + c y + e, b x + d y + f)`. -/
structure Affine where
  a : Float
  b : Float
  c : Float
  d : Float
  e : Float
  f : Float

namespace Affine

def offset (x y : Float) : Affine := ⟨1.0, 0.0, 0.0, 1.0, x, y⟩

def turn (angle : Float) : Affine := ⟨angle.cos, angle.sin, -angle.sin, angle.cos, 0.0, 0.0⟩

def scaling (x y : Float) : Affine := ⟨x, 0.0, 0.0, y, 0.0, 0.0⟩

/-- First `n`, then `m`. -/
def after (m n : Affine) : Affine where
  a := m.a * n.a + m.c * n.b
  b := m.b * n.a + m.d * n.b
  c := m.a * n.c + m.c * n.d
  d := m.b * n.c + m.d * n.d
  e := m.a * n.e + m.c * n.f + m.e
  f := m.b * n.e + m.d * n.f + m.f

def toList (m : Affine) : List Float := [m.a, m.b, m.c, m.d, m.e, m.f]

/-- Half a turn in radians, the nearest double-precision number. -/
def halfTurn : Float := Float.ofBits 0x400921fb54442d18

def radians (degrees : Float) : Float := degrees * (halfTurn / 180.0)

end Affine

/-- The map of a node with properties `p`. -/
def Properties.transform (p : Properties) : Affine :=
  ((Affine.offset p.translationX.toFloat p.translationY.toFloat).after
    (Affine.turn (Affine.radians p.rotation.toFloat))).after
    (Affine.scaling p.scaleX.toFloat p.scaleY.toFloat)

end SceneAnimation
