import SceneAnimation.Session.Command
import SceneAnimation.Session.Answer
/-!
# The owner's book: names, listeners and notes

What the owner's code keeps beside the shared world.  A name written again stands for the new object; the old one lives
on where other objects refer to it.
-/
namespace SceneAnimation.Session

/-- What a listener does when it is told: it is noted by its name, and runs its script. -/
structure Listener where
  name : String
  script : List Action
deriving Inhabited

structure Book where
  nodes : Table String NodeId := ∅
  animators : Table String AnimatorId := ∅
  listeners : Table String ListenerId := ∅
  clocks : Table String ClockId := ∅
  roots : Table String RootId := ∅
  handles : Table String MailboxId := ∅
  /-- Every listener ever made. -/
  behaviours : Table ListenerId Listener := ∅
  /-- The render thread on which code runs, unless it runs on the owner's. -/
  renderThread : Option String := none
  /-- Notes of the present command. -/
  notes : List Note := []

/-- The world as a session's owner sees it. -/
abbrev Stage := World Book

/-- The first in alphabetical order of the names that stand for `x`. -/
def nameOf {α : Type} [DecidableEq α] (t : Table String α) (x : α) : Option String :=
  t.entries.foldl (fun best (name, y) =>
    if y = x then
      match best with
      | some b => if name < b then some name else best
      | none => some name
    else best) none

namespace Book

def note (b : Book) (n : Note) : Book := { b with notes := b.notes ++ [n] }

def threadName (b : Book) : String := b.renderThread.getD "owner"

def addListener (b : Book) (name : String) (script : List Action) : Book :=
  let l : ListenerId := ⟨b.behaviours.size⟩
  { b with listeners := b.listeners.set name l, behaviours := b.behaviours.set l ⟨name, script⟩ }

end Book

namespace Stage

def mapBook (w : Stage) (f : Book → Book) : Stage := { w with client := f w.client }

/-- The mailbox of the thread on which code runs: the owner's, or none. -/
def threadMailbox (w : Stage) : Option MailboxId :=
  match w.client.renderThread with
  | none => w.ownerMailbox
  | some _ => none

def nodeView (w : Stage) (n : NodeId) : NodeView :=
  let x := w.scene.node n
  { id := n, title := x.name, properties := x.properties, animatorCount := x.animators.length,
    hasAnimators := w.scene.hasAnimators n, destroyed := x.destroyed, children := x.children.map (nameOf w.client.nodes) }

def animatorView (w : Stage) (a : AnimatorId) : AnimatorView :=
  let x := w.scene.animator a
  { id := a, property := x.property, finalValue := x.finalValue, duration := x.duration,
    hasListener := x.listener.isSome, state := x.state }

/-- How many deliveries wait for the owner. -/
def waiting (w : Stage) : Nat :=
  match w.ownerMailbox with
  | some m => (w.mailbox m).queue.length
  | none => 0

end Stage

end SceneAnimation.Session
