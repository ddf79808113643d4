import SceneAnimation.Animator
import SceneAnimation.Table
/-!
# The scene: nodes and the animators attached to them

Nodes form a graph through their lists of children; one node may be a child of several.  An animator may be attached to
several nodes, or several times to one.  Running a node advances its attached animators in order and detaches those
that the run completes.
-/
namespace SceneAnimation

/-- Identity of a node, counted from one. -/
structure NodeId where
  index : Nat
deriving DecidableEq, Inhabited

structure Node where
  name : String := ""
  properties : Properties := {}
  animators : List AnimatorId := []
  children : List NodeId := []
  destroyed : Bool := false
deriving Inhabited

structure Scene where
  nodes : Table NodeId Node := ∅
  animators : Table AnimatorId Animator := ∅
deriving Inhabited

/-- What is left after a list of animators has been run over the properties of one node. -/
structure Progress where
  animators : Table AnimatorId Animator
  properties : Properties
  /-- Animators that stay attached, in order. -/
  kept : List AnimatorId
  /-- Animators that this run completed, in order. -/
  completed : List AnimatorId

/-- Runs the listed animators one after the other with `run`. -/
def Progress.ofList (run : Animator → Properties → Advance) :
    List AnimatorId → Table AnimatorId Animator → Properties → Progress
  | [], as, p => ⟨as, p, [], []⟩
  | i :: rest, as, p =>
    let a := run (as.get i) p
    let r := ofList run rest (as.set i a.animator) a.properties
    if a.completed then { r with completed := i :: r.completed } else { r with kept := i :: r.kept }

namespace Scene

def node (s : Scene) (n : NodeId) : Node := s.nodes.get n

def animator (s : Scene) (a : AnimatorId) : Animator := s.animators.get a

def setNode (s : Scene) (n : NodeId) (x : Node) : Scene := { s with nodes := s.nodes.set n x }

def updateNode (s : Scene) (n : NodeId) (f : Node → Node) : Scene := s.setNode n (f (s.node n))

/-! ## What the owner does to the scene -/

def addNode (s : Scene) (name : String) : NodeId × Scene :=
  let n : NodeId := ⟨s.nodes.size + 1⟩
  (n, s.setNode n { name })

def addAnimator (s : Scene) (a : Animator) : AnimatorId × Scene :=
  let i : AnimatorId := ⟨s.animators.size + 1⟩
  (i, { s with animators := s.animators.set i a })

def addChild (s : Scene) (parent child : NodeId) : Scene :=
  s.updateNode parent fun x => { x with children := x.children ++ [child] }

/-- Removes every occurrence of `child` below `parent`. -/
def removeChild (s : Scene) (parent child : NodeId) : Scene :=
  s.updateNode parent fun x => { x with children := x.children.filter (· ≠ child) }

def hasChild (s : Scene) (parent child : NodeId) : Bool := (s.node parent).children.contains child

def setProperty (s : Scene) (n : NodeId) (q : Property) (x : Float32) : Scene :=
  s.updateNode n fun y => { y with properties := y.properties.set q x }

def destroyNode (s : Scene) (n : NodeId) : Scene := s.updateNode n fun x => { x with destroyed := true }

def attach (s : Scene) (n : NodeId) (a : AnimatorId) : Scene :=
  s.updateNode n fun x => { x with animators := x.animators ++ [a] }

def hasAnimators (s : Scene) (n : NodeId) : Bool := !(s.node n).animators.isEmpty

/-! ## What a frame does to one node -/

/-- The completions of those of the animators that have a listener, in order. -/
def completions (s : Scene) (finished : List AnimatorId) : List Completion :=
  finished.filterMap fun a => (s.animator a).listener.map fun l => ⟨a, l⟩

/-- Writes back what a run over the animators of `n` left. -/
def store (s : Scene) (n : NodeId) (p : Progress) : Scene :=
  ({ s with animators := p.animators } : Scene).updateNode n fun x =>
    { x with properties := p.properties, animators := p.kept }

/-- The run of `n` for a frame at `now`. -/
def progressAt (s : Scene) (n : NodeId) (now : Instant) : Progress :=
  Progress.ofList (fun a p => a.advance p now) (s.node n).animators s.animators (s.node n).properties

/-- Advances the animators of `n` to `now`, and reports those it completed. -/
def animate (s : Scene) (n : NodeId) (now : Instant) : List Completion × Scene :=
  let p := s.progressAt n now
  (s.completions p.completed, s.store n p)

/-- Brings every animator of `n` to its end and detaches them all, and reports those that this finished. -/
def finishAll (s : Scene) (n : NodeId) : List Completion × Scene :=
  let p := Progress.ofList Animator.finish (s.node n).animators s.animators (s.node n).properties
  (s.completions p.completed, s.store n { p with kept := [] })

/-- Detaches all animators of `n` without running them. -/
def discard (s : Scene) (n : NodeId) : Scene := s.updateNode n fun x => { x with animators := [] }

@[simp] theorem node_setNode (s : Scene) (n : NodeId) (x : Node) (m : NodeId) :
    (s.setNode n x).node m = if m = n then x else s.node m :=
  Table.get_set ..

@[simp] theorem node_updateNode (s : Scene) (n : NodeId) (f : Node → Node) (m : NodeId) :
    (s.updateNode n f).node m = if m = n then f (s.node n) else s.node m :=
  node_setNode ..

end Scene

end SceneAnimation
