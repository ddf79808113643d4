import SceneAnimation.Pipeline
/-!
# Calls: what the owner's code can do to the world

One call of the library from the owner's code, inside a listener or outside.  What an owner or a listener does, as far
as the world can tell, is a list of calls.  A call can only name what has been made, so one that names anything else
does nothing.
-/
namespace SceneAnimation

/-- A call that the owner's code makes, other than to poll. -/
inductive Call (κ : Type) where
  | addNode (name : String)
  /-- A new animator like `a`, which no frame has run. -/
  | addAnimator (a : Animator)
  | addChild (parent child : NodeId)
  | removeChild (parent child : NodeId)
  | setProperty (n : NodeId) (q : Property) (x : Float32)
  | destroyNode (n : NodeId)
  | attach (n : NodeId) (a : AnimatorId)
  | register (r : RootId) (n : NodeId)
  | addClock (interval : Span)
  | vsync (c : ClockId) (t : Instant)
  | catchUp (c : ClockId) (now : Instant)
  | setInterval (c : ClockId) (interval : Span)
  | openMailbox
  | closeMailbox
  | addRoot (owner : MailboxId)
  | reportError (r : RootId) (message : String)
  | sendReport (m : MailboxId) (report : Report)
  /-- The owner's code notes something for itself. -/
  | remember (client : κ)

namespace Call

variable {κ : Type}

/-- Whether everything that the call names has been made. -/
def named (w : World κ) : Call κ → Bool
  | .addChild parent child | .removeChild parent child =>
    decide (parent ∈ w.scene.nodes) && decide (child ∈ w.scene.nodes)
  | .setProperty n _ _ | .destroyNode n => decide (n ∈ w.scene.nodes)
  | .attach n a => decide (n ∈ w.scene.nodes) && decide (a ∈ w.scene.animators)
  | .register r n => decide (r ∈ w.roots) && decide (n ∈ w.scene.nodes)
  | .vsync c _ | .catchUp c _ | .setInterval c _ => decide (c ∈ w.clocks)
  | .addRoot m | .sendReport m _ => decide (m ∈ w.mailboxes)
  | .reportError r _ => decide (r ∈ w.roots)
  | .addNode _ | .addAnimator _ | .addClock _ | .openMailbox | .closeMailbox | .remember _ => true

/-- The world after a call that names only what has been made. -/
def effect (w : World κ) : Call κ → World κ
  | .addNode name => { w with scene := (w.scene.addNode name).2 }
  | .addAnimator a => { w with scene := (w.scene.addAnimator { a with state := .notStarted }).2 }
  | .addChild parent child => w.mapScene fun s => s.addChild parent child
  | .removeChild parent child => w.mapScene fun s => s.removeChild parent child
  | .setProperty n q x => w.mapScene fun s => s.setProperty n q x
  | .destroyNode n => w.mapScene fun s => s.destroyNode n
  | .attach n a => (w.attach n a).2
  | .register r n => w.register r n
  | .addClock interval => (w.addClock interval).2
  | .vsync c t => w.setClock c ((w.clock c).vsync t)
  | .catchUp c now => w.setClock c ((w.clock c).catchUp now)
  | .setInterval c interval => w.setClock c { w.clock c with interval }
  | .openMailbox => w.openMailbox.toOption.getD w
  | .closeMailbox => w.closeMailbox
  | .addRoot owner => (w.addRoot owner).2
  | .reportError r message => w.reportError r message
  | .sendReport m report => w.send m (.report report)
  | .remember client => { w with client }

end Call

namespace World

variable {κ : Type}

def call (w : World κ) (c : Call κ) : World κ := if c.named w then c.effect w else w

def calls (w : World κ) (cs : List (Call κ)) : World κ := cs.foldl call w

end World

end SceneAnimation
