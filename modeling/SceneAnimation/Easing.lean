/-!
# Easing: from the share of time to the share of the way
-/
namespace SceneAnimation

/-- How an animation's progress follows its time. -/
inductive Easing where
  /-- At a constant rate. -/
  | linear
  /-- Slow at both ends and fastest in the middle, along half a cosine wave. -/
  | cosine
deriving DecidableEq, Inhabited

namespace Easing

/-- Half a turn, as the nearest single-precision number. -/
def halfTurn : Float32 := Float32.ofBits 0x40490fdb

def apply (e : Easing) (t : Float32) : Float32 :=
  match e with
  | .linear => t
  | .cosine => ((t + 1.0) * halfTurn).cos / 2.0 + 0.5

end Easing

end SceneAnimation
