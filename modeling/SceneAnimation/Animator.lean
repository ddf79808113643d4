import SceneAnimation.Fraction
import SceneAnimation.Easing
import SceneAnimation.Properties
/-!
# Animators

An animator drives one property toward a final value.  The first frame that runs it fixes its start time and the value
it starts from.  The frame at which its whole duration has passed writes the final value and completes it.
-/
namespace SceneAnimation

/-- Identity of an animator, counted from one. -/
structure AnimatorId where
  index : Nat
deriving DecidableEq, Inhabited

/-- Identity of a listener for completions. -/
structure ListenerId where
  index : Nat
deriving DecidableEq, Inhabited

/-- How far an animator has come. -/
inductive PlayState where
  /-- No frame has run it. -/
  | notStarted
  /-- Its way leads from the value `fromValue`, and begins at `start`. -/
  | running (start : Instant) (fromValue : Float32)
  /-- It has written its final value. -/
  | finished
deriving DecidableEq, Inhabited

def PlayState.name : PlayState → String
  | .notStarted => "NotStarted"
  | .running .. => "Running"
  | .finished => "Finished"

structure Animator where
  property : Property
  finalValue : Float32
  duration : Span
  delay : Span := Span.zero
  easing : Easing := .linear
  listener : Option ListenerId := none
  state : PlayState := .notStarted
deriving Inhabited

/-- An animator and the properties it drives, after one call; `completed` on the one call that finishes it. -/
structure Advance where
  animator : Animator
  properties : Properties
  completed : Bool

/-- An animator that finished, and the listener to be told. -/
structure Completion where
  animator : AnimatorId
  listener : ListenerId
deriving DecidableEq

namespace Animator

/-- The value on the way from `fromValue`, when the share `f` of the time has passed. -/
def valueAt (a : Animator) (fromValue : Float32) (f : Fraction) : Float32 :=
  fromValue + (a.finalValue - fromValue) * a.easing.apply f.toFloat32

/-- Writes the value for `now` of a way that begins at `start`, and completes the animator if its whole duration has
passed.  Before `start` nothing is written. -/
def play (a : Animator) (start : Instant) (fromValue : Float32) (p : Properties) (now : Instant) : Advance :=
  if now < start then ⟨{ a with state := .running start fromValue }, p, false⟩
  else
    let f := (now.since start).fractionOf a.duration
    let p := p.set a.property (a.valueAt fromValue f)
    if f.isWhole then ⟨{ a with state := .finished }, p.set a.property a.finalValue, true⟩
    else ⟨{ a with state := .running start fromValue }, p, false⟩

/-- Runs the animator for a frame at `now`.  A finished one does nothing. -/
def advance (a : Animator) (p : Properties) (now : Instant) : Advance :=
  match a.state with
  | .notStarted => a.play (now.plusSaturating a.delay) (p.get a.property) p now
  | .running start fromValue => a.play start fromValue p now
  | .finished => ⟨a, p, false⟩

/-- Jumps to the final value.  A finished one does nothing. -/
def finish (a : Animator) (p : Properties) : Advance :=
  match a.state with
  | .finished => ⟨a, p, false⟩
  | _ => ⟨{ a with state := .finished }, p.set a.property a.finalValue, true⟩

end Animator

end SceneAnimation
