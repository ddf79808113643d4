import SceneAnimation.Pipeline
/-!
# Answers of a session
-/
namespace SceneAnimation.Session

structure AnimatorView where
  id : AnimatorId
  property : Property
  finalValue : Float32
  duration : Span
  hasListener : Bool
  state : PlayState

structure NodeView where
  id : NodeId
  title : String
  properties : Properties
  animatorCount : Nat
  hasAnimators : Bool
  destroyed : Bool
  /-- By name, where the child has one. -/
  children : List (Option String)

structure DriverView where
  frameTime : Instant
  frameIndex : Nat
  active : Bool
  /-- Nodes by name, unless the driver is concealed. -/
  current : Option (List (Option String))
  next : Option (List (Option String))
  held : Option Nat

/-- A word that answers a command. -/
inductive Status where
  /-- A mailbox was opened. -/
  | opened
  /-- There is no mailbox on this thread. -/
  | noMailbox
  /-- There were no messages to report. -/
  | noReport
  /-- The task was posted. -/
  | queued
  /-- All earlier tasks have been run. -/
  | fenced
deriving DecidableEq

/-- A driver call's answer: its value, where it has one, and what is left of the driver and of the pass. -/
structure DriverResult where
  value : Option Nat
  driver : DriverView
  tally : Tally
  sinkPresent : Bool
  collected : List String

inductive Answer where
  | nothing
  | truth (b : Bool)
  | count (n : Nat)
  | instant (t : Instant)
  | status (s : Status)
  | description (text : String)
  | clock (c : Clock)
  | node (v : NodeView)
  | dump (nodes : List (String × NodeView)) (animators : List (String × PlayState))
  | animator (v : AnimatorView)
  | raised (r : Report)
  | refused (r : Refusal)
  | batch (size : Nat) (animators : List (Option String)) (description : String)
  | driver (v : DriverView)
  | driverResult (r : DriverResult)
  /-- The time of the driver's clock, and the root its completions go to; neither of a concealed driver. -/
  | driverParts (clockTime : Option Instant) (root : Option String)
  | outcome (o : Outcome)
  | pipeline (frameTime : Instant) (frameIndex : Nat) (active : Bool) (clockTime : Instant)
  | thread (pending : Nat) (interval : Span)
  | trace (events : List Trace.Event)
  /-- The command names an object that is not there. -/
  | unknown (name : String)

/-- What a session notes when the owner's listeners are told something. -/
inductive Note where
  /-- A listener was told of an animator, then in `state`, on the thread called `thread`. -/
  | told (listener : String) (animator : Option String) (state : PlayState) (thread : String)
  /-- The listener's script has run. -/
  | scriptRan (listener : String) (answers : List Answer)

end SceneAnimation.Session
