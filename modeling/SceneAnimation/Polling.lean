import SceneAnimation.World
/-!
# Polling: the owner runs what was delivered

A poll runs the deliveries that were queued when it began, in order, and stops at the first that raises an error; the
rest stay queued.  What listeners do is a parameter, a `Reaction`: they may send, register, change the scene, or poll
again from inside.
-/
namespace SceneAnimation

/-- What the owner's code does when a listener is told that an animator finished. -/
abbrev Reaction (κ : Type) := ListenerId → AnimatorId → World κ → World κ

namespace World

variable {κ : Type}

/-- Tells the listeners of a batch, in order. -/
def notify (react : Reaction κ) (batch : List Completion) (w : World κ) : World κ :=
  batch.foldl (fun w c => react c.listener c.animator w) w

/-- Runs one delivery; a report is what it raises. -/
def runDelivery (react : Reaction κ) (d : Delivery) (w : World κ) : Option Report × World κ :=
  match d with
  | .completions batch => (none, w.notify react batch)
  | .report r => (some r, w)

/-- Runs at most `n` deliveries from mailbox `m`, and counts them. -/
def runUpTo (react : Reaction κ) (m : MailboxId) : Nat → World κ → Except Report Nat × World κ
  | 0, w => (.ok 0, w)
  | n + 1, w =>
    match w.receive? m with
    | none => (.ok 0, w)
    | some (d, w) =>
      match w.runDelivery react d with
      | (some r, w) => (.error r, w)
      | (none, w) =>
        let (ran, w) := runUpTo react m n w
        (ran.map (· + 1), w)

/-- Runs every delivery that is queued in `m` at the time of the call. -/
def poll (react : Reaction κ) (m : MailboxId) (w : World κ) : Except Report Nat × World κ :=
  w.runUpTo react m (w.mailbox m).queue.length

/-- Waits for a first delivery, runs it, and then polls.  With an empty mailbox the wait ends with nothing to run. -/
def waitAndPoll (react : Reaction κ) (m : MailboxId) (w : World κ) : Except Report Nat × World κ :=
  match w.receive? m with
  | none => (.ok 0, w)
  | some (d, w) =>
    match w.runDelivery react d with
    | (some r, w) => (.error r, w)
    | (none, w) =>
      let (ran, w) := w.poll react m
      (ran.map (· + 1), w)

end World

end SceneAnimation
