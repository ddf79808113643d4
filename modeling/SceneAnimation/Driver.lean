import SceneAnimation.Schedule
import SceneAnimation.Outlet
import SceneAnimation.Pass
import SceneAnimation.Trace.Event
/-!
# Animation drivers

A driver keeps the set of nodes that are animating and runs them once a frame.  It is a schedule and an outlet.  A
driver whose outlet holds completions for the owner of a root also attaches, whenever a frame starts, the nodes
registered on that root.
-/
namespace SceneAnimation

structure Driver where
  clock : ClockId
  schedule : Schedule := {}
  outlet : Outlet := .inline

/-- What the render thread holds in the middle of a frame. -/
structure RenderState (κ : Type) where
  driver : Driver
  pass : Pass
  world : World κ

namespace Driver

variable {κ : Type}

def frameTime (d : Driver) : Instant := d.schedule.frameTime

def frameIndex (d : Driver) : Nat := d.schedule.frameIndex

/-- Whether any node is scheduled. -/
def isActive (d : Driver) : Bool := d.schedule.isActive

/-- Schedules `n` for the next frame. -/
def add (d : Driver) (n : NodeId) : Driver := { d with schedule := d.schedule.add n }

/-- Schedules nodes for the next frame, in order. -/
def addAll (d : Driver) (ns : List NodeId) : Driver := { d with schedule := ns.foldl Schedule.add d.schedule }

/-- Moves the nodes registered on root `r` into the driver, and counts them. -/
def drain (d : Driver) (r : RootId) (w : World κ) : Nat × Driver × World κ :=
  let (pending, w) := w.takePending r
  (pending.length, d.addAll pending, w)

/-- Starts a frame at the clock's time. -/
def beginFrame (d : Driver) (w : World κ) : Driver :=
  { d with schedule := d.schedule.begin (w.clock d.clock).frameTime }

/-- Starts a frame, with the nodes registered on the root of a deferred outlet, and counts those. -/
def startFrame (d : Driver) (w : World κ) : Nat × Driver × World κ :=
  match d.outlet with
  | .inline => (0, d.beginFrame w, w)
  | .deferred r _ =>
    let (attached, d, w) := d.drain r w
    (attached, d.beginFrame w, w)

/-- The trace event of a frame just started, with `attached` nodes newly registered. -/
def frameStartEvent (d : Driver) (attached : Nat) : Trace.Event :=
  .frameStart (UInt64.ofNat d.frameIndex) d.frameTime (Trace.count attached) (Trace.count d.schedule.current.length)

/-- The trace event of a batch sent in the present frame. -/
def postingEvent (d : Driver) (p : Posting) : Trace.Event :=
  .batchScheduled (UInt64.ofNat d.frameIndex) (Trace.count p.size) p.accepted

/-- Takes completions into the outlet. -/
def report (react : Reaction κ) (batch : List Completion) (d : Driver) (w : World κ) : Driver × World κ :=
  let (outlet, w) := d.outlet.report react batch w
  ({ d with outlet }, w)

/-- Runs node `n` at the frame's time.  The first answer says whether it keeps animators, before listeners are told. -/
def runNode (react : Reaction κ) (n : NodeId) (d : Driver) (w : World κ) : Bool × Driver × World κ :=
  let (batch, scene) := w.scene.animate n d.frameTime
  let (d, w) := d.report react batch { w with scene }
  (scene.hasAnimators n, d, w)

/-- Runs a node that has not run in this frame and that no traversal reached.  A destroyed node loses its animators
without a word. -/
def runLeftover (react : Reaction κ) (s : Driver × World κ) (n : NodeId) : Driver × World κ :=
  let (d, w) := s
  if (w.scene.node n).destroyed then (d, w.mapScene fun scene => scene.discard n)
  else
    let (remains, d, w) := d.runNode react n w
    (if remains then d.add n else d, w)

/-- Runs all nodes that have not run in this frame. -/
def runLeftovers (react : Reaction κ) (d : Driver) (w : World κ) : Driver × World κ :=
  let (nodes, schedule) := d.schedule.takeCurrent
  nodes.foldl (runLeftover react) ({ d with schedule }, w)

/-- Sends held completions to the owner. -/
def post (d : Driver) (w : World κ) : Option Posting × Driver × World κ :=
  let (posting, outlet, w) := d.outlet.post w
  (posting, { d with outlet }, w)

/-- Ends the animators of one node, and reports those that this finished. -/
def finishNode (react : Reaction κ) (s : Driver × World κ) (n : NodeId) : Driver × World κ :=
  let (d, w) := s
  let (batch, scene) := w.scene.finishAll n
  d.report react batch { w with scene }

/-- Ends all animators of all scheduled nodes, reports them, and schedules nothing. -/
def destroy (react : Reaction κ) (d : Driver) (w : World κ) : Driver × World κ :=
  let (nodes, schedule) := d.schedule.takeAll
  let (d, w) := nodes.foldl (finishNode react) ({ d with schedule }, w)
  let (_, d, w) := d.post w
  (d, w)

end Driver

namespace RenderState

variable {κ : Type}

/-- Runs node `n`, which a traversal reached, and schedules it again if it keeps animators. -/
def animateNode (react : Reaction κ) (n : NodeId) (s : RenderState κ) : RenderState κ :=
  let d := { s.driver with schedule := s.driver.schedule.visit n }
  let (remains, d, w) := d.runNode react n s.world
  if remains then
    { driver := d.add n, pass := { s.pass with tally := { s.pass.tally with animating := true } }, world := w }
  else { s with driver := d, world := w }

/-- Runs every node that no traversal reached, and sends held completions to the owner. -/
def runRemaining (react : Reaction κ) (s : RenderState κ) : Option Posting × RenderState κ :=
  let (d, w) := s.driver.runLeftovers react s.world
  let animating := s.pass.tally.animating || !d.schedule.next.isEmpty
  let (posting, d, w) := d.post w
  (posting, { driver := d, pass := { s.pass with tally := { s.pass.tally with animating } }, world := w })

end RenderState

end SceneAnimation
