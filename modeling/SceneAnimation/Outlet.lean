import SceneAnimation.Polling
/-!
# Outlets: how completions reach their listeners

At once, on the thread that runs the frame; or held until the frame ends and then sent to the owner of a root as one
batch.
-/
namespace SceneAnimation

/-- How completions reach their listeners. -/
inductive Outlet where
  /-- The listeners are told at once. -/
  | inline
  /-- Completions are held for the owner of `root`. -/
  | deferred (root : RootId) (held : List Completion)
deriving DecidableEq

/-- A batch that was sent to the owner: its size, and whether it was accepted. -/
structure Posting where
  size : Nat
  accepted : Bool
deriving DecidableEq

namespace Outlet

variable {κ : Type}

/-- Takes completions in, in order. -/
def report (react : Reaction κ) (batch : List Completion) (o : Outlet) (w : World κ) : Outlet × World κ :=
  match o with
  | .inline => (.inline, w.notify react batch)
  | .deferred r held => (.deferred r (held ++ batch), w)

/-- Sends what is held, if anything, to the owner as one batch. -/
def post (o : Outlet) (w : World κ) : Option Posting × Outlet × World κ :=
  match o with
  | .inline => (none, .inline, w)
  | .deferred r [] => (none, .deferred r [], w)
  | .deferred r held =>
    (some ⟨held.length, w.ownerAccepts r⟩, .deferred r [], w.sendToOwner r (.completions held))

/-- How many completions are held, if they are deferred. -/
def held? : Outlet → Option Nat
  | .inline => none
  | .deferred _ held => some held.length

/-- The root to whose owner completions go, if they are deferred. -/
def root? : Outlet → Option RootId
  | .inline => none
  | .deferred r _ => some r

end Outlet

end SceneAnimation
