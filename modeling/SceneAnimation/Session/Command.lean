import SceneAnimation.World
import SceneAnimation.Config
/-!
# Commands of a session

A session works on objects that have names, one table of names for each kind of object.  An action is a command that
the owner's code may also give from inside a listener.
-/
namespace SceneAnimation.Session

/-- Where a delivery is sent. -/
inductive Target where
  | root (name : String)
  | handle (name : String)

/-- What a new animator is made of. -/
structure AnimatorPlan where
  property : Property
  finalValue : Float32
  duration : Span
  delay : Option Span
  easing : Option Easing
  listener : Option String

inductive Action where
  | node (name title : String)
  | addChild (parent child : String)
  | removeChild (parent child : String)
  | set (node : String) (property : Property) (value : Float32)
  | destroyNode (node : String)
  | nodeInfo (node : String)
  | dump
  | animator (name : String) (plan : AnimatorPlan)
  | addAnimator (node animator : String)
  /-- Attaches an animator, and registers its node if that was the first one. -/
  | start (node animator root : String)
  | register (root node : String)
  | vsync (clock : String) (t : Instant)
  | catchUp (clock : String) (now : Instant)
  | setInterval (clock : String) (interval : Span)
  | clockInfo (clock : String)
  | poll
  | waitAndPoll
  | queueLength
  | hasMailbox
  | reportError (root message : String)
  | sendReport (messages : List String) (target : Target)

/-- What the error sink of a pass is. -/
inductive SinkChoice where
  | absent
  | collector
  | root (name : String)

inductive DriverCall where
  | info
  | addNode (node : String)
  | startFrame
  | animateNode (node : String)
  | runRemaining
  | reportFinished (animator listener : String)
  | destroy
  | drain (root : String)
  | prepareNode (node : String)
  | prepareRoot (root : String)
  | reportError (message : String)

/-- How a driver of the session is made. -/
structure DriverPlan where
  /-- The root to whose owner completions go; none where listeners are told at once. -/
  root : Option String
  /-- Whether the driver's schedule is not shown. -/
  concealed : Bool

inductive PipelineCall where
  | draw (t : Instant)
  | tick (now : Instant)
  | reset
  | destroy
  | trace (on : Bool)
  | info

inductive ThreadCall where
  | draw (t : Instant)
  | tick (now : Instant)
  | setInterval (interval : Span)
  | reset
  | trace (on : Bool)
  | fence
  | register (node : String)
  | destroy
  | drop

/-- What an object's description is asked of. -/
inductive Described where
  | node (name : String)
  | animator (name : String)
  | root (name : String)
  | handle (name : String)
  | clock (name : String)
  | driver (name : String)
  | pipeline (name : String)
  | thread (name : String)
  | mailbox
  | pass
  | tracer
  | transcript
  | factory (root : String)

inductive Command where
  | act (a : Action)
  | openMailbox
  | closeMailbox
  | handle (name : String)
  | listener (name : String) (script : List Action)
  | tell (animator listener : String)
  | batch (name : String)
  | batchPush (batch animator listener : String)
  | batchInfo (batch : String)
  | batchDeliver (batch : String)
  | batchRun (batch : String)
  | batchSend (batch : String) (target : Target)
  | clock (name : String) (interval : Span)
  | root (name : String) (handle : Option String)
  | driver (name clock : String) (plan : DriverPlan)
  | driverParts (driver : String)
  | callDriver (driver : String) (sink : SinkChoice) (call : DriverCall)
  | resetPass (frameTime : Instant)
  | tracing (on : Bool)
  | traceDump
  /-- Completions go to the owner of the root `deferredTo`, or are told at once. -/
  | pipeline (name root clock : String) (deferredTo : Option String)
  | callPipeline (pipeline : String) (call : PipelineCall)
  | thread (name root : String) (deferredTo : Option String) (config : DisplayConfig)
  | callThread (thread : String) (call : ThreadCall)
  | describe (what : Described)

end SceneAnimation.Session
