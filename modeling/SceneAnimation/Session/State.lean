import SceneAnimation.Session.Action
import SceneAnimation.RenderThread
/-!
# The state of a session

A session owns drivers, pipelines, render threads and batches by name, beside the stage that listeners can reach.  It
passes one trace sink to all of them.  The sink replaces times read from the wall clock: the n-th phase event of the
session is stamped with n times 1500 nanoseconds, and a summary's phases take no time.
-/
namespace SceneAnimation.Session

/-- A driver of the session.  A concealed one is known by what every driver tells, and shows no schedule. -/
structure NamedDriver where
  driver : Driver
  concealed : Bool

structure State where
  stage : Stage := { client := {} }
  drivers : Table String NamedDriver := ∅
  pipelines : Table String Pipeline := ∅
  threads : Table String RenderThread := ∅
  batches : Table String (List Completion) := ∅
  /-- Frame time and tally of the pass that driver calls go on with. -/
  frameTime : Instant := Instant.zero
  tally : Tally := {}
  /-- Whether driver calls are traced. -/
  tracing : Bool := false
  /-- Everything traced so far. -/
  traced : List Trace.Event := []
  /-- How many phase events have been traced. -/
  phases : Nat := 0

/-! ## The trace sink -/

/-- The stamp of the n-th phase event. -/
def stamp (n : Nat) : Instant := ⟨UInt64.ofNat (n * 1500)⟩

/-- An event as the sink passes it on, after `phases` phase events, and the number of phase events then. -/
def sinkEvent (phases : Nat) : Trace.Event → Trace.Event × Nat
  | .phaseBegin i phase _ => (.phaseBegin i phase (stamp (phases + 1)), phases + 1)
  | .phaseEnd i phase _ => (.phaseEnd i phase (stamp (phases + 1)), phases + 1)
  | .frameSummary s =>
    (.frameSummary { s with startTook := Span.zero, prepareTook := Span.zero, animateTook := Span.zero }, phases)
  | e => (e, phases)

namespace State

/-- Hands one event to the sink. -/
def sink (s : State) (e : Trace.Event) : State :=
  let (e, phases) := sinkEvent s.phases e
  { s with traced := s.traced ++ [e], phases }

def sinkAll (s : State) (events : List Trace.Event) : State := events.foldl sink s

/-! ## Names -/

/-- Goes on with the root that a name stands for, where a name is given. -/
def lookUpRoot (s : State) (name : Option String) (go : Option RootId → Answer × State) : Answer × State :=
  match name with
  | none => go none
  | some name =>
    match s.stage.client.roots.get? name with
    | some r => go (some r)
    | none => (.unknown name, s)

/-- Goes on with what `name` stands for, if it stands for anything. -/
def lookUp {α : Type} (s : State) (t : Table String α) (name : String) (go : α → Answer × State) : Answer × State :=
  match t.get? name with
  | some x => go x
  | none => (.unknown name, s)

/-- The kind of driver whose completions go to the owner of `root`, or are told at once. -/
def kindOf (root : Option RootId) : DriverKind :=
  match root with
  | some r => .deferred r
  | none => .inline

end State

end SceneAnimation.Session
