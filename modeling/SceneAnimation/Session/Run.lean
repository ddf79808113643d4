import SceneAnimation.Session.Drivers
import SceneAnimation.Session.Threads
import SceneAnimation.Description
/-!
# Sessions: commands on named objects

Each command gives one answer.  With it a session tells what listeners noted and what was traced meanwhile, and how many
deliveries and registrations wait afterwards.
-/
namespace SceneAnimation.Session

open Stage

namespace State

/-! ## Batches -/

/-- Goes on with a batch, which is left empty. -/
def useBatch (s : State) (name : String) (go : List Completion → State → Answer × State) : Answer × State :=
  s.lookUp s.batches name fun batch => go batch { s with batches := s.batches.set name [] }

/-- Takes up what an action leaves on the stage. -/
def onStage (s : State) (go : Stage → Answer × Stage) : Answer × State :=
  let (answer, stage) := go s.stage
  (answer, { s with stage })

/-! ## Descriptions -/

def describe (s : State) (what : Described) : Answer × State :=
  let b := s.stage.client
  let named {α : Type} (t : Table String α) (name : String) (text : α → String) : Answer × State :=
    s.lookUp t name fun x => (.description (text x), s)
  match what with
  | .node name => named b.nodes name fun n => s.stage.scene.describeNode n
  | .animator name => named b.animators name fun a => s.stage.scene.describeAnimator a
  | .root name => named b.roots name fun r => (s.stage.root r).describe
  | .handle name => named b.handles name fun m => (s.stage.mailbox m).describeSender
  | .clock name => named b.clocks name fun c => (s.stage.clock c).describe
  | .driver name => named s.drivers name fun d => d.driver.describe
  | .pipeline name =>
    (.description (Describe.optional ((s.pipelines.get? name).map fun p => p.describe s.stage)), s)
  | .thread name => (.description (Describe.optional ((s.threads.get? name).map fun r => r.describe s.stage)), s)
  | .mailbox => (.description (Describe.optional (s.stage.ownerMailbox.map fun m => (s.stage.mailbox m).describe)), s)
  | .pass => (.description { frameTime := s.frameTime, tally := s.tally : Pass }.describe, s)
  | .tracer => (.description (Describe.entry "Tracer" [] true), s)
  | .transcript => (.description (Describe.entry "PrettyPrintSink" [] true), s)
  | .factory root => named b.roots root fun r => (s.stage.root r).describeFactory

/-! ## Commands -/

def run (s : State) (command : Command) : Answer × State :=
  let b := s.stage.client
  match command with
  | .act action => s.onStage fun w => action.run tell w
  | .openMailbox =>
    match s.stage.openMailbox with
    | .ok stage => (.status .opened, { s with stage })
    | .error refusal => (.refused refusal, s)
  | .closeMailbox => (.truth s.stage.ownerMailbox.isSome, { s with stage := s.stage.closeMailbox })
  | .handle name =>
    match s.stage.ownerMailbox with
    | some m => (.truth true, { s with stage := mapBook s.stage fun b => { b with handles := b.handles.set name m } })
    | none => (.truth false, s)
  | .listener name script => (.nothing, { s with stage := mapBook s.stage fun b => b.addListener name script })
  | .tell animator listener =>
    s.lookUp b.animators animator fun a => s.lookUp b.listeners listener fun l =>
      (.nothing, { s with stage := tell l a s.stage })
  | .batch name => (.nothing, { s with batches := s.batches.set name [] })
  | .batchPush batch animator listener =>
    s.lookUp s.batches batch fun held => s.lookUp b.animators animator fun a => s.lookUp b.listeners listener fun l =>
      let held := held ++ [⟨a, l⟩]
      (.count held.length, { s with batches := s.batches.set batch held })
  | .batchInfo batch =>
    s.lookUp s.batches batch fun held =>
      (.batch held.length (held.map fun c => nameOf b.animators c.animator) (describeBatch held), s)
  | .batchDeliver batch =>
    s.useBatch batch fun held s => (.nothing, { s with stage := s.stage.notify tell held })
  | .batchRun batch =>
    s.useBatch batch fun held s =>
      (.count 0, { s with stage := (s.stage.runDelivery tell (.completions held)).2 })
  | .batchSend batch target =>
    s.useBatch batch fun held s => s.onStage fun w => sendTo target (.completions held) w
  | .clock name interval =>
    let (c, stage) := s.stage.addClock interval
    (.nothing, { s with stage := mapBook stage fun b => { b with clocks := b.clocks.set name c } })
  | .root name handle =>
    let make (owner : MailboxId) : Answer × State :=
      let (r, stage) := s.stage.addRoot owner
      let n := (stage.root r).node
      let stage := mapBook stage fun b =>
        { b with roots := b.roots.set name r, nodes := b.nodes.set (name ++ ".node") n }
      (.count n.index, { s with stage })
    match handle with
    | some h => s.lookUp b.handles h make
    | none =>
      match s.stage.ownerMailbox with
      | some m => make m
      | none => (.refused .noMailbox, s)
  | .driver name clock plan =>
    s.lookUp b.clocks clock fun c => s.lookUpRoot plan.root fun r =>
      let d : NamedDriver := ⟨(kindOf r).create c, plan.concealed⟩
      let s := { s with drivers := s.drivers.set name d }
      (.driver (s.driverView d), s)
  | .driverParts driver =>
    s.lookUp s.drivers driver fun d =>
      if d.concealed then (.driverParts none none, s)
      else
        let clock := s.stage.clock d.driver.clock
        (.driverParts (some clock.frameTime) (d.driver.outlet.root?.bind (nameOf b.roots)), s)
  | .callDriver driver sink call => s.callDriver driver sink call
  | .resetPass frameTime => (.nothing, { s with frameTime, tally := {} })
  | .tracing on => (.nothing, { s with tracing := on })
  | .traceDump => (.trace s.traced, s)
  | .pipeline name root clock deferredTo =>
    s.lookUp b.roots root fun r => s.lookUp b.clocks clock fun c => s.lookUpRoot deferredTo fun owner =>
      (.nothing, { s with pipelines := s.pipelines.set name (.new r (kindOf owner) c) })
  | .callPipeline pipeline call => s.callPipeline pipeline call
  | .thread name root deferredTo config =>
    s.lookUp b.roots root fun r => s.lookUpRoot deferredTo fun owner => s.startThread name r (kindOf owner) config
  | .callThread thread call => s.callThread thread call
  | .describe what => s.describe what

/-- What a session tells about one command. -/
structure Told where
  answer : Answer
  notes : List Note
  events : List Trace.Event
  /-- How many deliveries wait, while the owner has a mailbox. -/
  waiting : Option Nat
  /-- For each root by name, how many nodes are registered on it. -/
  pending : List (String × Nat)

/-- Runs one command, and tells what happened. -/
def step (s : State) (command : Command) : Told × State :=
  let (answer, after) := s.run command
  let notes := after.stage.client.notes
  let after := { after with stage := mapBook after.stage fun b => { b with notes := [] } }
  let stage := after.stage
  ({ answer, notes
     events := after.traced.drop s.traced.length
     waiting := stage.ownerMailbox.map fun m => (stage.mailbox m).queue.length
     pending := stage.client.roots.entries.map fun (name, r) => (name, (stage.root r).pending.length) }, after)

/-- Runs commands in order. -/
def runAll : State → List Command → List Told
  | _, [] => []
  | s, command :: rest =>
    let (told, s) := s.step command
    told :: runAll s rest

end State

/-- Runs a session from its start, with nothing made yet and no mailbox. -/
def run (commands : List Command) : List State.Told := State.runAll {} commands

end SceneAnimation.Session
