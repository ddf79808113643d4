import SceneAnimation.Pipeline
import SceneAnimation.Config
/-!
# The render thread

The owner posts tasks to the render thread, which runs them one after the other, in order.  A task to shut down is the
last one it runs: it then destroys its pipeline and stops.  Once the owner has shut the thread down, every further task
is refused.
-/
namespace SceneAnimation

inductive Task where
  | draw (t : Instant)
  | tick (now : Instant)
  | setInterval (d : Span)
  | reset
  | trace (on : Bool)
  /-- Does nothing; its answer tells that all earlier tasks have been run. -/
  | fence
  | shutdown
deriving DecidableEq

structure RenderThread where
  name : String
  pipeline : Pipeline
  /-- Tasks that have been posted and not run yet. -/
  tasks : List Task := []
  /-- Whether the owner has not shut the thread down. -/
  running : Bool := true

/-- A render thread and the world, after some tasks. -/
structure Rendered (κ : Type) where
  thread : RenderThread
  world : World κ
  /-- The outcomes of the frames drawn, in order. -/
  outcomes : List Outcome := []
  /-- What the frames told the trace. -/
  events : List Trace.Event := []

namespace RenderThread

variable {κ : Type}

/-- A thread with an idle pipeline, and the clock it reads. -/
def start (root : RootId) (kind : DriverKind) (config : DisplayConfig) (w : World κ) : RenderThread × World κ :=
  let (clock, w) := w.addClock config.interval
  ({ name := config.threadName, pipeline := .new root kind clock }, w)

/-- Appends a task, unless the thread has been shut down. -/
def post (t : Task) (r : RenderThread) : Except Refusal RenderThread :=
  if r.running then .ok { r with tasks := r.tasks ++ [t] } else .error .renderThreadGone

def ofDrawn (r : RenderThread) (d : Drawn κ) : Rendered κ :=
  { thread := { r with pipeline := d.pipeline }, world := d.world, outcomes := [d.outcome], events := d.events }

/-- Runs one task.  The answer of an animation tick is not kept: nobody waits for it. -/
def perform (react : Reaction κ) (readings : Readings) (t : Task) (r : RenderThread) (w : World κ) : Rendered κ :=
  match t with
  | .draw t => r.ofDrawn (r.pipeline.draw react readings t w)
  | .tick now => { r.ofDrawn (r.pipeline.tick react readings now w) with outcomes := [] }
  | .setInterval d =>
    let c := r.pipeline.clock
    { thread := r, world := w.setClock c { w.clock c with interval := d } }
  | .reset =>
    let (pipeline, world) := r.pipeline.reset react w
    { thread := { r with pipeline }, world }
  | .trace on => { thread := { r with pipeline := { r.pipeline with traced := on } }, world := w }
  | .fence => { thread := r, world := w }
  | .shutdown =>
    let (pipeline, world) := r.pipeline.destroy react w
    { thread := { r with pipeline }, world }

/-- Runs the first task that is waiting, if there is one.  None is taken after a shutdown. -/
def step? (react : Reaction κ) (readings : Readings) (r : RenderThread) (w : World κ) : Option (Rendered κ) :=
  match r.tasks with
  | [] => none
  | .shutdown :: _ => some (perform react readings .shutdown { r with tasks := [] } w)
  | t :: rest => some (perform react readings t { r with tasks := rest } w)

/-- Takes at most `n` steps. -/
def runUpTo (react : Reaction κ) (readings : Readings) : Nat → RenderThread → World κ → Rendered κ
  | 0, r, w => { thread := r, world := w }
  | n + 1, r, w =>
    match r.step? react readings w with
    | none => { thread := r, world := w }
    | some x =>
      let y := runUpTo react readings n x.thread x.world
      { y with outcomes := x.outcomes ++ y.outcomes, events := x.events ++ y.events }

/-- Runs all tasks that are waiting. -/
def settle (react : Reaction κ) (readings : Readings) (r : RenderThread) (w : World κ) : Rendered κ :=
  r.runUpTo react readings r.tasks.length w

/-- Posts a task and waits until it has been run. -/
def call (react : Reaction κ) (readings : Readings) (t : Task) (r : RenderThread) (w : World κ) :
    Except Refusal (Rendered κ) :=
  (r.post t).map fun r => r.settle react readings w

/-- Shuts the thread down and waits until it has stopped.  Does nothing the second time. -/
def shutDown (react : Reaction κ) (readings : Readings) (r : RenderThread) (w : World κ) : Rendered κ :=
  if r.running then settle react readings { r with tasks := r.tasks ++ [.shutdown], running := false } w
  else { thread := r, world := w }

end RenderThread

end SceneAnimation
