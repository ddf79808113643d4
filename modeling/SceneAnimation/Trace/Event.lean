import SceneAnimation.Time
/-!
# Trace events of the frame loop

What a frame tells whoever traces it.  Indices and times are 64-bit words and counts are 32-bit words.  A frame's
summary is built from the times at which its phases began and ended.
-/
namespace SceneAnimation.Trace

/-- A part of a frame. -/
inductive Phase where
  | startFrame
  | prepareTree
  | runAnimations
deriving DecidableEq, Inhabited

def Phase.name : Phase → String
  | .startFrame => "StartFrame"
  | .prepareTree => "PrepareTree"
  | .runAnimations => "RunAnimations"

/-- What a whole frame did, and how long its phases took. -/
structure Summary where
  frameIndex : UInt64
  frameTime : Instant
  preparedNodes : UInt32
  errors : UInt32
  startTook : Span
  prepareTook : Span
  animateTook : Span
  animating : Bool
deriving DecidableEq

inductive Event where
  | frameStart (frameIndex : UInt64) (frameTime : Instant) (attached active : UInt32)
  | phaseBegin (frameIndex : UInt64) (phase : Phase) (time : Instant)
  | phaseEnd (frameIndex : UInt64) (phase : Phase) (time : Instant)
  | batchScheduled (frameIndex : UInt64) (events : UInt32) (accepted : Bool)
  | errorsReported (frameIndex : UInt64) (errors skipped : UInt32)
  | frameSummary (summary : Summary)
deriving DecidableEq

/-- The index of the frame that an event belongs to. -/
def Event.frameIndex : Event → UInt64
  | .frameStart i .. | .phaseBegin i .. | .phaseEnd i .. | .batchScheduled i .. | .errorsReported i .. => i
  | .frameSummary s => s.frameIndex

/-- The time of a phase event. -/
def Event.phaseTime? : Event → Option Instant
  | .phaseBegin _ _ t | .phaseEnd _ _ t => some t
  | _ => none

/-- `n` as a count, or the largest count where `n` does not fit. -/
def count (n : Nat) : UInt32 := UInt32.ofNat (min n (UInt32.size - 1))

/-- A summary in the making. -/
structure Draft where
  frameIndex : UInt64
  frameTime : Instant
  begun : Phase → Option Instant := fun _ => none
  ended : Phase → Option Instant := fun _ => none
  preparedNodes : UInt32 := 0
  errors : UInt32 := 0
  animating : Bool := false

namespace Draft

/-- Notes that `phase` began at `t`; a later note replaces an earlier one. -/
def phaseBegin (d : Draft) (phase : Phase) (t : Instant) : Draft :=
  { d with begun := fun q => if q = phase then some t else d.begun q }

/-- Notes that `phase` ended at `t`; a later note replaces an earlier one. -/
def phaseEnd (d : Draft) (phase : Phase) (t : Instant) : Draft :=
  { d with ended := fun q => if q = phase then some t else d.ended q }

def outcome (d : Draft) (preparedNodes errors : UInt32) (animating : Bool) : Draft :=
  { d with preparedNodes, errors, animating }

/-- How long `phase` took: nothing unless both ends are known and in order. -/
def took (d : Draft) (phase : Phase) : Span :=
  match d.begun phase, d.ended phase with
  | some b, some e => e.since b
  | _, _ => Span.zero

def finish (d : Draft) : Summary where
  frameIndex := d.frameIndex
  frameTime := d.frameTime
  preparedNodes := d.preparedNodes
  errors := d.errors
  startTook := d.took .startFrame
  prepareTook := d.took .prepareTree
  animateTook := d.took .runAnimations
  animating := d.animating

end Draft

end SceneAnimation.Trace
