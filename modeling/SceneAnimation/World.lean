import SceneAnimation.Scene
import SceneAnimation.Clock
import SceneAnimation.Mailbox
/-!
# The world that the owner's thread and the render thread share

Everything both threads can reach: the scene, frame clocks, mailboxes, and roots.  A root ties one scene graph to one
mailbox: it queues nodes for the next frame start, and carries errors to the owner.  `client` is whatever the owner's
own code keeps.
-/
namespace SceneAnimation

structure ClockId where
  index : Nat
deriving DecidableEq, Inhabited

structure RootId where
  index : Nat
deriving DecidableEq, Inhabited

structure Root where
  node : NodeId
  owner : MailboxId
  /-- Nodes that join the active set at the next frame start, in order of registration. -/
  pending : List NodeId := []
  /-- The messages of the preparation pass under way, if there is one. -/
  openPass : Option (List String) := none
deriving Inhabited, DecidableEq

structure World (κ : Type) where
  scene : Scene := {}
  clocks : Table ClockId Clock := ∅
  mailboxes : Table MailboxId Mailbox := ∅
  roots : Table RootId Root := ∅
  /-- The mailbox prepared for the owner's thread, if there is one. -/
  ownerMailbox : Option MailboxId := none
  client : κ

/-- Why the owner's request was refused. -/
inductive Refusal where
  | noMailbox
  | mailboxExists
  | renderThreadGone
deriving DecidableEq

def Refusal.message : Refusal → String
  | .noMailbox => "SyncRoot must be created on a thread with a looper"
  | .mailboxExists => "a looper is already prepared for this thread"
  | .renderThreadGone => "render thread is no longer running"

namespace World

variable {κ : Type}

def mapScene (w : World κ) (f : Scene → Scene) : World κ := { w with scene := f w.scene }

/-- Attaches an animator, and answers whether it is the node's only one. -/
def attach (w : World κ) (n : NodeId) (a : AnimatorId) : Bool × World κ :=
  let scene := w.scene.attach n a
  ((scene.node n).animators.length = 1, { w with scene })

/-! ## Clocks -/

def clock (w : World κ) (c : ClockId) : Clock := w.clocks.get c

def setClock (w : World κ) (c : ClockId) (x : Clock) : World κ := { w with clocks := w.clocks.set c x }

def addClock (w : World κ) (interval : Span) : ClockId × World κ :=
  let c : ClockId := ⟨w.clocks.size⟩
  (c, w.setClock c { interval })

/-! ## Mailboxes -/

def mailbox (w : World κ) (m : MailboxId) : Mailbox := w.mailboxes.get m

def setMailbox (w : World κ) (m : MailboxId) (x : Mailbox) : World κ := { w with mailboxes := w.mailboxes.set m x }

/-- Opens a mailbox for the owner's thread, which may have one only. -/
def openMailbox (w : World κ) : Except Refusal (World κ) :=
  match w.ownerMailbox with
  | some _ => .error .mailboxExists
  | none =>
    let m : MailboxId := ⟨w.mailboxes.size⟩
    .ok { w.setMailbox m .empty with ownerMailbox := some m }

/-- Closes the mailbox of the owner's thread.  What is queued in it is lost. -/
def closeMailbox (w : World κ) : World κ :=
  match w.ownerMailbox with
  | none => w
  | some m => { w.setMailbox m .closed with ownerMailbox := none }

/-- Whether a delivery sent to `m` is accepted. -/
def accepts (w : World κ) (m : MailboxId) : Bool := (w.mailbox m).isAccepting

/-- Queues `d` at the end of mailbox `m`, if `m` is open. -/
def send (w : World κ) (m : MailboxId) (d : Delivery) : World κ := w.setMailbox m ((w.mailbox m).send d)

/-- Takes the first delivery out of mailbox `m`. -/
def receive? (w : World κ) (m : MailboxId) : Option (Delivery × World κ) :=
  match (w.mailbox m).queue with
  | [] => none
  | d :: rest => some (d, w.setMailbox m (.accepting rest))

@[simp] theorem clock_setClock (w : World κ) (c : ClockId) (x : Clock) (d : ClockId) :
    (w.setClock c x).clock d = if d = c then x else w.clock d :=
  Table.get_set ..

@[simp] theorem mailbox_setMailbox (w : World κ) (m : MailboxId) (x : Mailbox) (n : MailboxId) :
    (w.setMailbox m x).mailbox n = if n = m then x else w.mailbox n :=
  Table.get_set ..

/-- **Sending appends**, to the mailbox it is sent to and to no other. -/
theorem mailbox_send (w : World κ) (m : MailboxId) (d : Delivery) (n : MailboxId) :
    (w.send m d).mailbox n = if n = m then (w.mailbox m).send d else w.mailbox n :=
  mailbox_setMailbox ..

/-! ## Roots -/

def root (w : World κ) (r : RootId) : Root := w.roots.get r

def setRoot (w : World κ) (r : RootId) (x : Root) : World κ := { w with roots := w.roots.set r x }

@[simp] theorem root_setRoot (w : World κ) (r : RootId) (x : Root) (q : RootId) :
    (w.setRoot r x).root q = if q = r then x else w.root q :=
  Table.get_set ..

/-- A new root that reports to mailbox `owner`, with a scene node of its own. -/
def addRoot (w : World κ) (owner : MailboxId) : RootId × World κ :=
  let (node, scene) := w.scene.addNode "RootRenderNode"
  let r : RootId := ⟨w.roots.size⟩
  (r, { w with scene }.setRoot r { node, owner })

/-- Queues node `n` on root `r` for the next frame start. -/
def register (w : World κ) (r : RootId) (n : NodeId) : World κ :=
  let x := w.root r
  w.setRoot r { x with pending := x.pending ++ [n] }

/-- Empties the registration queue of root `r`. -/
def takePending (w : World κ) (r : RootId) : List NodeId × World κ :=
  let x := w.root r
  (x.pending, w.setRoot r { x with pending := [] })

/-- Whether the owner of root `r` still accepts deliveries. -/
def ownerAccepts (w : World κ) (r : RootId) : Bool := w.accepts (w.root r).owner

/-- Sends `d` to the owner of root `r`. -/
def sendToOwner (w : World κ) (r : RootId) (d : Delivery) : World κ := w.send (w.root r).owner d

/-- An error on root `r`.  During a pass its message is kept for the pass's report; otherwise it is sent at once. -/
def reportError (w : World κ) (r : RootId) (message : String) : World κ :=
  let x := w.root r
  match x.openPass with
  | some messages => w.setRoot r { x with openPass := some (messages ++ [message]) }
  | none => w.sendToOwner r (.report (.single message))

/-- Starts to collect the errors of root `r`. -/
def beginPass (w : World κ) (r : RootId) : World κ := w.setRoot r { w.root r with openPass := some [] }

/-- Ends the pass, and sends the messages it collected, if any, as one report.  The lock of the pass is given back before
the report is sent.  The two are one step here: whatever other threads do in between, as registering a node, or sending
to the mailbox, receiving from it or closing it, does not touch the pass, and so it is as if they had done it before.
Errors of the root are reported by the thread that walks, and its walk is over. -/
def endPass (w : World κ) (r : RootId) : World κ :=
  let x := w.root r
  let w := w.setRoot r { x with openPass := none }
  match Report.ofMessages? (x.openPass.getD []) with
  | some report => w.sendToOwner r (.report report)
  | none => w

end World

end SceneAnimation
