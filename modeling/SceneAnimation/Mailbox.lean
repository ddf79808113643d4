import SceneAnimation.Animator
import SceneAnimation.Report
/-!
# Mailboxes: work handed to the owner's thread

A mailbox is a first-in first-out queue of deliveries.  Once closed it holds nothing and takes nothing.
-/
namespace SceneAnimation

/-- Identity of a mailbox; mailboxes opened one after the other for one thread are different. -/
structure MailboxId where
  index : Nat
deriving DecidableEq, Inhabited

/-- Work handed to the owner's thread. -/
inductive Delivery where
  /-- Tell every listener, in order. -/
  | completions (batch : List Completion)
  /-- Raise an error. -/
  | report (r : Report)
deriving DecidableEq

inductive Mailbox where
  /-- Deliveries wait in `queue`, the first one first. -/
  | accepting (queue : List Delivery)
  | closed
deriving DecidableEq

namespace Mailbox

def empty : Mailbox := .accepting []

instance : Inhabited Mailbox := ⟨empty⟩

def isAccepting : Mailbox → Bool
  | .accepting _ => true
  | .closed => false

/-- The deliveries that wait. -/
def queue : Mailbox → List Delivery
  | .accepting queue => queue
  | .closed => []

/-- The mailbox after `d` was sent to it. -/
def send (d : Delivery) : Mailbox → Mailbox
  | .accepting queue => .accepting (queue ++ [d])
  | .closed => .closed

theorem queue_send (d : Delivery) (m : Mailbox) : (m.send d).queue = m.queue ++ if m.isAccepting then [d] else [] := by
  cases m <;> simp [send, queue, isAccepting]

@[simp] theorem isAccepting_send (d : Delivery) (m : Mailbox) : (m.send d).isAccepting = m.isAccepting := by
  cases m <;> rfl

end Mailbox

end SceneAnimation
