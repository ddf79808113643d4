import SceneAnimation.World
/-!
# Passes: what one traversal of the scene is told, and what it finds
-/
namespace SceneAnimation

/-- Where the errors of a pass go. -/
inductive ErrorSink where
  /-- Nowhere: they are counted only. -/
  | absent
  /-- Into a list of messages. -/
  | collector (messages : List String)
  /-- To the owner of a root. -/
  | root (r : RootId)
deriving DecidableEq

def ErrorSink.isPresent : ErrorSink → Bool
  | .absent => false
  | _ => true

structure Tally where
  /-- Nodes that were prepared. -/
  prepared : Nat := 0
  errors : Nat := 0
  /-- Nodes whose descendants were left out because of an error. -/
  skipped : Nat := 0
  /-- Whether a node goes on animating. -/
  animating : Bool := false
deriving Inhabited, DecidableEq

structure Pass where
  frameTime : Instant
  sink : ErrorSink := .absent
  tally : Tally := {}
deriving DecidableEq

end SceneAnimation
