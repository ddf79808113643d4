import SceneAnimation.RenderThread
/-!
# Jobs: the render thread's work, one step at a time

A task of the render thread is a list of jobs.  A job does one thing that other threads can see or disturb, such as
one look at a flag, one hold of a lock or one push to a queue, and may put further jobs in its place.  Run without a
pause, the jobs of a frame do what `Frame.run` does, and those of a teardown what `Driver.destroy` does
(`Proofs/Threads/Whole`).
-/
namespace SceneAnimation

inductive Job where
  | vsync (c : ClockId) (t : Instant)
  | catchUp (c : ClockId) (now : Instant)
  | setInterval (c : ClockId) (interval : Span)
  | startFrame
  /-- The nodes registered on `r` are taken. -/
  | takePending (r : RootId)
  /-- A node that was registered is scheduled. -/
  | schedule (n : NodeId)
  | beginFrame
  | newPass
  | openPass (r : RootId)
  /-- The walk comes to node `n`, and asks whether it is destroyed. -/
  | prepare (depth : Nat) (n : NodeId)
  /-- The walk asks whether node `n` has animators. -/
  | enter (n : NodeId)
  /-- The walk checks the properties of node `n`. -/
  | check (depth : Nat) (n : NodeId)
  | descend (depth : Nat) (n : NodeId)
  | skip (n : NodeId) (problem : String)
  /-- The pass of root `r` ends and its report is sent, as by `World.endPass`; from now on `sink` takes the errors. -/
  | closePass (r : RootId) (sink : ErrorSink)
  /-- Node `n`, which the walk reached, is taken off the nodes that have not run. -/
  | visit (n : NodeId)
  /-- The animators of node `n` are run. -/
  | run (n : NodeId) (walked : Bool)
  | report (batch : List Completion)
  | tell (c : Completion)
  /-- A node that has run and keeps animators is scheduled again. -/
  | keep (n : NodeId) (walked : Bool)
  /-- The nodes that no traversal reached are taken. -/
  | takeLeftovers
  /-- It is asked of a node that no traversal reached whether it is destroyed. -/
  | leftover (n : NodeId)
  | discard (n : NodeId)
  /-- The pass notes whether anything goes on animating. -/
  | noteActive
  /-- Held completions are sent to the owner. -/
  | post
  /-- All scheduled nodes are taken, to be ended. -/
  | takeAll
  | finish (n : NodeId)
  | renew (d : Driver)

namespace Job

variable {κ : Type}

/-- What a job leaves to be done in its place, and the state after it. -/
def perform (j : Job) (s : RenderState κ) : List Job × RenderState κ :=
  let w := s.world
  match j with
  | .vsync c t => ([], { s with world := w.setClock c ((w.clock c).vsync t) })
  | .catchUp c now => ([], { s with world := w.setClock c ((w.clock c).catchUp now) })
  | .setInterval c interval => ([], { s with world := w.setClock c { w.clock c with interval } })
  | .startFrame =>
    match s.driver.outlet with
    | .inline => ([.beginFrame], s)
    | .deferred r _ => ([.takePending r, .beginFrame], s)
  | .takePending r => ((w.takePending r).1.map .schedule, { s with world := (w.takePending r).2 })
  | .schedule n => ([], { s with driver := s.driver.add n })
  | .beginFrame => ([], { s with driver := s.driver.beginFrame w })
  | .newPass => ([], { s with pass := { frameTime := s.driver.frameTime } })
  | .openPass r =>
    ([.prepare (RenderState.walkReserve + w.scene.nodes.size) (w.root r).node, .closePass r s.pass.sink],
      { s with pass := { s.pass with sink := .root r }, world := w.beginPass r })
  | .prepare 0 _ => ([], s)
  | .prepare (depth + 1) n =>
    (if (w.scene.node n).destroyed then [.skip n "prepared after destroy"] else [.enter n, .check depth n], s)
  | .enter n =>
    (if w.scene.hasAnimators n then [.visit n] else [],
      { s with pass := { s.pass with tally := { s.pass.tally with prepared := s.pass.tally.prepared + 1 } } })
  | .check depth n =>
    match (w.scene.node n).properties.problem? with
    | some problem => ([.skip n problem], s)
    | none => ([.descend depth n], s)
  | .descend depth n => ((w.scene.node n).children.map (.prepare depth), s)
  | .skip n problem => ([], s.skip n problem)
  | .closePass r sink => ([], { s with pass := { s.pass with sink }, world := w.endPass r })
  | .visit n => ([.run n true], { s with driver := { s.driver with schedule := s.driver.schedule.visit n } })
  | .run n walked =>
    let (batch, scene) := w.scene.animate n s.driver.frameTime
    (.report batch :: if scene.hasAnimators n then [.keep n walked] else [], { s with world := { w with scene } })
  | .report batch =>
    match s.driver.outlet with
    | .inline => (batch.map .tell, s)
    | .deferred r held => ([], { s with driver := { s.driver with outlet := .deferred r (held ++ batch) } })
  | .tell _ => ([], s)
  | .keep n walked =>
    ([], { s with
      driver := s.driver.add n
      pass := if walked then { s.pass with tally := { s.pass.tally with animating := true } } else s.pass })
  | .takeLeftovers =>
    (s.driver.schedule.takeCurrent.1.map .leftover,
      { s with driver := { s.driver with schedule := s.driver.schedule.takeCurrent.2 } })
  | .leftover n => (if (w.scene.node n).destroyed then [.discard n] else [.run n false], s)
  | .discard n => ([], { s with world := w.mapScene fun scene => scene.discard n })
  | .noteActive =>
    let animating := s.pass.tally.animating || !s.driver.schedule.next.isEmpty
    ([], { s with pass := { s.pass with tally := { s.pass.tally with animating } } })
  | .post => ([], { s with driver := (s.driver.post w).2.1, world := (s.driver.post w).2.2 })
  | .takeAll =>
    (s.driver.schedule.takeAll.1.map .finish ++ [.post],
      { s with driver := { s.driver with schedule := s.driver.schedule.takeAll.2 } })
  | .finish n =>
    let (batch, scene) := w.scene.finishAll n
    ([.report batch], { s with world := { w with scene } })
  | .renew d => ([], { s with driver := d })

/-- Whether a job only asks what is to be done next. -/
def Asks : Job → Prop
  | .startFrame | .prepare .. | .check .. | .descend .. | .leftover _ | .tell _ => True
  | _ => False

theorem state_of_asks {j : Job} (h : j.Asks) (s : RenderState κ) : (j.perform s).2 = s := by
  cases j with
  | startFrame | check depth n => simp only [perform]; split <;> rfl
  | prepare depth n => cases depth <;> rfl
  | descend depth n | leftover n | tell c => rfl
  | _ => exact absurd h id

end Job

namespace Task

def frameJobs (root : RootId) : FrameKind → List Job
  | .draw => [.startFrame, .newPass, .openPass root, .takeLeftovers, .noteActive, .post]
  | .tick => [.startFrame, .newPass, .takeLeftovers, .noteActive, .post]

/-- The jobs of a task, for a pipeline over the graph of `root` that makes drivers of kind `k` on `clock`. -/
def jobs (root : RootId) (k : DriverKind) (clock : ClockId) : Task → List Job
  | .draw t => .vsync clock t :: frameJobs root .draw
  | .tick now => .catchUp clock now :: frameJobs root .tick
  | .setInterval interval => [.setInterval clock interval]
  | .reset => [.takeAll, .renew (k.create clock)]
  | .trace _ | .fence => []
  | .shutdown => [.takeAll]

end Task

end SceneAnimation
