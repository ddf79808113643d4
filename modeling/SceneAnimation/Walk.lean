import SceneAnimation.Driver
/-!
# Walks: preparing the scene graph for a frame

A walk visits a node and then its children, in order.  Each visited node runs its animators and has its properties
checked.  A node that is destroyed, or that is left with a property that is not finite, is an error: it is reported, its
descendants are skipped, and the walk goes on with its siblings.
-/
namespace SceneAnimation

namespace RenderState

variable {κ : Type}

/-- Counts an error and hands its message to the pass's sink. -/
def reportError (message : String) (s : RenderState κ) : RenderState κ :=
  let pass := { s.pass with tally := { s.pass.tally with errors := s.pass.tally.errors + 1 } }
  match pass.sink with
  | .absent => { s with pass }
  | .collector messages => { s with pass := { pass with sink := .collector (messages ++ [message]) } }
  | .root r => { s with pass, world := s.world.reportError r message }

/-- Reports an error of node `n` and leaves out its descendants. -/
def skip (n : NodeId) (problem : String) (s : RenderState κ) : RenderState κ :=
  let s := s.reportError ((s.world.scene.node n).name ++ ": " ++ problem)
  { s with pass := { s.pass with tally := { s.pass.tally with skipped := s.pass.tally.skipped + 1 } } }

/-- Counts node `n` and runs its animators, if it has any. -/
def enter (react : Reaction κ) (n : NodeId) (s : RenderState κ) : RenderState κ :=
  let s := { s with pass := { s.pass with tally := { s.pass.tally with prepared := s.pass.tally.prepared + 1 } } }
  if s.world.scene.hasAnimators n then s.animateNode react n else s

/-- Prepares node `n` and what is below it, at most `depth` levels down. -/
def prepareWithin (react : Reaction κ) : (depth : Nat) → NodeId → RenderState κ → RenderState κ
  | 0, _, s => s
  | depth + 1, n, s =>
    if (s.world.scene.node n).destroyed then s.skip n "prepared after destroy"
    else
      let s := s.enter react n
      let x := s.world.scene.node n
      match x.properties.problem? with
      | some problem => s.skip n problem
      | none => x.children.foldl (fun s child => prepareWithin react depth child s) s

/-- Levels beyond the number of nodes that a walk may go down: more than the stack of a thread holds. -/
def walkReserve : Nat := 0x100000

/-- Prepares node `n` and what is below it.  A path in a graph without cycles passes each node once, so it is no longer
than there are nodes.  The reserve is for nodes that listeners add on the way, and for a walk around a cycle, which goes
on until a listener breaks the cycle. -/
def prepare (react : Reaction κ) (n : NodeId) (s : RenderState κ) : RenderState κ :=
  s.prepareWithin react (walkReserve + s.world.scene.nodes.size) n

/-- Prepares the graph of root `r`.  The root takes the errors, and sends them as one report when the walk has ended;
the pass then has the sink it had before. -/
def prepareRoot (react : Reaction κ) (r : RootId) (s : RenderState κ) : RenderState κ :=
  let sink := s.pass.sink
  let s := { s with pass := { s.pass with sink := .root r }, world := s.world.beginPass r }
  let s := s.prepare react (s.world.root r).node
  { s with pass := { s.pass with sink }, world := s.world.endPass r }

end RenderState

end SceneAnimation
