import SceneAnimation.Time
/-!
# The frame clock

The clock holds the time of the frame in production and the display's refresh interval.  Its time only moves forward:
to a vertical sync that is later, or, for a frame the render thread starts by itself, by whole intervals up to now.
-/
namespace SceneAnimation

structure Clock where
  frameTime : Instant := Instant.zero
  interval : Span
deriving DecidableEq, Inhabited

namespace Clock

/-- The clock after a vertical sync at `t`: at `t`, if that is later. -/
def vsync (c : Clock) (t : Instant) : Clock := { c with frameTime := c.frameTime.later t }

/-- Whether a vertical sync at `t` moves the clock. -/
def movedBy (c : Clock) (t : Instant) : Bool := c.frameTime < t

/-- The last whole interval after the frame time that is not after `now`; `none` if no whole interval has passed. -/
def boundary (c : Clock) (now : Instant) : Except Fault (Option Instant) :=
  let passed := now.since c.frameTime
  if Span.zero < c.interval ∧ c.interval ≤ passed then
    (now.minus ⟨passed.nanos % c.interval.nanos⟩).map some
  else .ok none

/-- The clock for a frame that the render thread starts at `now`. -/
def catchUp (c : Clock) (now : Instant) : Clock :=
  match c.boundary now with
  | .ok (some t) => c.vsync t
  | _ => c

end Clock

end SceneAnimation
