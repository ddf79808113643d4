import SceneAnimation.Walk
/-!
# Pipelines: one frame after the other

A frame starts its driver, prepares the scene graph unless it is an animation tick, and runs the nodes that the walk did
not reach.  A pipeline owns the driver, and replaces it by a new one of the same kind when it is reset.
-/
namespace SceneAnimation

/-- The kind of driver that a pipeline makes for itself. -/
inductive DriverKind where
  /-- Completions are told at once. -/
  | inline
  /-- Completions go to the owner of the root, whose registrations join at each frame start. -/
  | deferred (root : RootId)
deriving DecidableEq

/-- A new driver, idle, that reads `clock`. -/
def DriverKind.create (k : DriverKind) (clock : ClockId) : Driver where
  clock
  outlet := match k with
    | .inline => .inline
    | .deferred r => .deferred r []

/-- The wall-clock readings of a frame, at the two ends of each phase. -/
structure Readings where
  startBegin : Instant := Instant.zero
  startEnd : Instant := Instant.zero
  prepareBegin : Instant := Instant.zero
  prepareEnd : Instant := Instant.zero
  animateBegin : Instant := Instant.zero
  animateEnd : Instant := Instant.zero

/-- What one frame did. -/
structure Outcome where
  frameIndex : Nat
  frameTime : Instant
  prepared : Nat
  errors : Nat
  /-- Whether animations remain for a later frame. -/
  animating : Bool
deriving DecidableEq

/-- A frame that has been run. -/
structure Frame (κ : Type) where
  driver : Driver
  world : World κ
  outcome : Outcome
  /-- What the frame tells a trace, in order. -/
  events : List Trace.Event

/-- Whether a frame walks the scene graph. -/
inductive FrameKind where
  | draw
  | tick
deriving DecidableEq

namespace Frame

variable {κ : Type}

/-- The two trace events of one phase. -/
def phaseEvents (index : UInt64) (phase : Trace.Phase) (b e : Instant) : List Trace.Event :=
  [.phaseBegin index phase b, .phaseEnd index phase e]

/-- The event of a walk that met errors. -/
def errorEvents (index : UInt64) (t : Tally) : List Trace.Event :=
  if 0 < t.errors then [.errorsReported index (UInt32.ofNat t.errors) (UInt32.ofNat t.skipped)] else []

/-- The summary that closes a frame's trace. -/
def summary (kind : FrameKind) (r : Readings) (o : Outcome) : Trace.Summary :=
  let draft : Trace.Draft := { frameIndex := UInt64.ofNat o.frameIndex, frameTime := o.frameTime }
  let draft := (draft.phaseBegin .startFrame r.startBegin).phaseEnd .startFrame r.startEnd
  let draft := match kind with
    | .draw => (draft.phaseBegin .prepareTree r.prepareBegin).phaseEnd .prepareTree r.prepareEnd
    | .tick => draft
  let draft := (draft.phaseBegin .runAnimations r.animateBegin).phaseEnd .runAnimations r.animateEnd
  (draft.outcome (UInt32.ofNat o.prepared) (UInt32.ofNat o.errors) o.animating).finish

/-- Runs one frame of driver `d` over the graph of `root`. -/
def run (react : Reaction κ) (root : RootId) (kind : FrameKind) (r : Readings) (d : Driver) (w : World κ) :
    Frame κ :=
  let (attached, d, w) := d.startFrame w
  let index := UInt64.ofNat d.frameIndex
  let started := d.frameStartEvent attached :: phaseEvents index .startFrame r.startBegin r.startEnd
  let s : RenderState κ := { driver := d, pass := { frameTime := d.frameTime }, world := w }
  let s := match kind with
    | .draw => s.prepareRoot react root
    | .tick => s
  let prepared := match kind with
    | .draw => phaseEvents index .prepareTree r.prepareBegin r.prepareEnd ++ errorEvents index s.pass.tally
    | .tick => []
  let (posting, s) := s.runRemaining react
  let posted := posting.toList.map s.driver.postingEvent
  let outcome : Outcome :=
    { frameIndex := d.frameIndex, frameTime := d.frameTime, prepared := s.pass.tally.prepared,
      errors := s.pass.tally.errors, animating := s.driver.isActive }
  { driver := s.driver
    world := s.world
    outcome
    events := started ++ prepared ++ posted ++ phaseEvents index .runAnimations r.animateBegin r.animateEnd ++
      [.frameSummary (summary kind r outcome)] }

end Frame

/-- What the render thread keeps from frame to frame. -/
structure Pipeline where
  root : RootId
  kind : DriverKind
  clock : ClockId
  driver : Driver
  /-- Whether frames are traced. -/
  traced : Bool := false

/-- A pipeline after a frame, with the frame's trace if the pipeline is traced. -/
structure Drawn (κ : Type) where
  pipeline : Pipeline
  world : World κ
  outcome : Outcome
  events : List Trace.Event

namespace Pipeline

variable {κ : Type}

def new (root : RootId) (kind : DriverKind) (clock : ClockId) : Pipeline :=
  { root, kind, clock, driver := kind.create clock }

/-- Runs a frame at the clock's present time. -/
def runFrame (react : Reaction κ) (kind : FrameKind) (r : Readings) (p : Pipeline) (w : World κ) : Drawn κ :=
  let f := Frame.run react p.root kind r p.driver w
  { pipeline := { p with driver := f.driver }, world := f.world, outcome := f.outcome
    events := if p.traced then f.events else [] }

/-- Draws the frame of a vertical sync at `t`. -/
def draw (react : Reaction κ) (r : Readings) (t : Instant) (p : Pipeline) (w : World κ) : Drawn κ :=
  p.runFrame react .draw r (w.setClock p.clock ((w.clock p.clock).vsync t))

/-- Runs a frame that the render thread starts by itself at `now`, without walking the graph. -/
def tick (react : Reaction κ) (r : Readings) (now : Instant) (p : Pipeline) (w : World κ) : Drawn κ :=
  p.runFrame react .tick r (w.setClock p.clock ((w.clock p.clock).catchUp now))

/-- Ends every active animation. -/
def destroy (react : Reaction κ) (p : Pipeline) (w : World κ) : Pipeline × World κ :=
  let (driver, w) := p.driver.destroy react w
  ({ p with driver }, w)

/-- Ends every active animation, and goes on with a new driver. -/
def reset (react : Reaction κ) (p : Pipeline) (w : World κ) : Pipeline × World κ :=
  let (p, w) := p.destroy react w
  ({ p with driver := p.kind.create p.clock }, w)

end Pipeline

end SceneAnimation
