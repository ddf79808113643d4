import SceneAnimation.Session.Book
import SceneAnimation.Polling
/-!
# Actions, and what listeners do

A listener that is told of an animator is noted, and then runs its script.  A script may poll, so that further listeners
are told from inside.  Each such poll takes a delivery out of the owner's mailbox first, and no action puts completions
in, so the nesting is no deeper than the deliveries that wait.
-/
namespace SceneAnimation.Session

open Stage

/-- Goes on with what `name` stands for, if it stands for anything. -/
def lookUp {α : Type} (t : Table String α) (name : String) (w : Stage) (go : α → Answer × Stage) : Answer × Stage :=
  match t.get? name with
  | some x => go x
  | none => (.unknown name, w)

/-- Sends a delivery, and answers whether it was accepted. -/
def sendTo (target : Target) (d : Delivery) (w : Stage) : Answer × Stage :=
  match target with
  | .root name => lookUp w.client.roots name w fun r => (.truth (w.ownerAccepts r), w.sendToOwner r d)
  | .handle name => lookUp w.client.handles name w fun m => (.truth (w.accepts m), w.send m d)

/-- The answer of a poll. -/
def pollAnswer : Except Report Nat → Answer
  | .ok n => .count n
  | .error r => .raised r

/-- A new animator after `plan`; what the plan leaves out is not set. -/
def AnimatorPlan.build (plan : AnimatorPlan) (listener : Option ListenerId) : Animator where
  property := plan.property
  finalValue := plan.finalValue
  duration := plan.duration
  delay := plan.delay.getD Span.zero
  easing := plan.easing.getD .linear
  listener

/-- Runs an action, for listeners that do as `react` says. -/
def Action.run (react : Reaction Book) (action : Action) (w : Stage) : Answer × Stage :=
  let b := w.client
  match action with
  | .node name title =>
    let (n, scene) := w.scene.addNode title
    (.count n.index, mapBook { w with scene } fun b => { b with nodes := b.nodes.set name n })
  | .addChild parent child =>
    lookUp b.nodes parent w fun p => lookUp b.nodes child w fun c =>
      (.nothing, w.mapScene fun s => s.addChild p c)
  | .removeChild parent child =>
    lookUp b.nodes parent w fun p => lookUp b.nodes child w fun c =>
      (.truth (w.scene.hasChild p c), w.mapScene fun s => s.removeChild p c)
  | .set nodeName property value =>
    lookUp b.nodes nodeName w fun n => (.nothing, w.mapScene fun s => s.setProperty n property value)
  | .destroyNode nodeName => lookUp b.nodes nodeName w fun n => (.nothing, w.mapScene fun s => s.destroyNode n)
  | .nodeInfo nodeName => lookUp b.nodes nodeName w fun n => (.node (nodeView w n), w)
  | .dump =>
    (.dump (b.nodes.entries.map fun (name, n) => (name, nodeView w n))
      (b.animators.entries.map fun (name, a) => (name, (w.scene.animator a).state)), w)
  | .animator name plan =>
    let make (listener : Option ListenerId) : Answer × Stage :=
      let (a, scene) := w.scene.addAnimator (plan.build listener)
      let w := mapBook { w with scene } fun b => { b with animators := b.animators.set name a }
      (.animator (animatorView w a), w)
    match plan.listener with
    | some l => lookUp b.listeners l w fun l => make (some l)
    | none => make none
  | .addAnimator nodeName animatorName =>
    lookUp b.nodes nodeName w fun n => lookUp b.animators animatorName w fun a =>
      let (first, w) := w.attach n a
      (.truth first, w)
  | .start nodeName animatorName root =>
    lookUp b.nodes nodeName w fun n => lookUp b.animators animatorName w fun a => lookUp b.roots root w fun r =>
      let (first, w) := w.attach n a
      (.truth first, if first then w.register r n else w)
  | .register root nodeName =>
    lookUp b.roots root w fun r => lookUp b.nodes nodeName w fun n => (.nothing, w.register r n)
  | .vsync clock t =>
    lookUp b.clocks clock w fun c => (.truth ((w.clock c).movedBy t), w.setClock c ((w.clock c).vsync t))
  | .catchUp clock now =>
    lookUp b.clocks clock w fun c =>
      let x := (w.clock c).catchUp now
      (.instant x.frameTime, w.setClock c x)
  | .setInterval clock interval =>
    lookUp b.clocks clock w fun c => (.nothing, w.setClock c { w.clock c with interval })
  | .clockInfo clock => lookUp b.clocks clock w fun c => (.clock (w.clock c), w)
  | .poll =>
    match threadMailbox w with
    | some m =>
      let (ran, w) := w.poll react m
      (pollAnswer ran, w)
    | none => (.status .noMailbox, w)
  | .waitAndPoll =>
    match threadMailbox w with
    | some m =>
      let (ran, w) := w.waitAndPoll react m
      (pollAnswer ran, w)
    | none => (.status .noMailbox, w)
  | .queueLength =>
    match threadMailbox w with
    | some m => (.count (w.mailbox m).queue.length, w)
    | none => (.status .noMailbox, w)
  | .hasMailbox => (.truth (threadMailbox w).isSome, w)
  | .reportError root message => lookUp b.roots root w fun r => (.nothing, w.reportError r message)
  | .sendReport messages target =>
    match Report.ofMessages? messages with
    | some report => sendTo target (.report report) w
    | none => (.status .noReport, w)

/-- Runs a script, and lists the answers. -/
def runScript (react : Reaction Book) : List Action → Stage → List Answer × Stage
  | [], w => ([], w)
  | action :: rest, w =>
    let (answer, w) := action.run react w
    let (answers, w) := runScript react rest w
    (answer :: answers, w)

/-- Tells a listener of an animator, with at most `depth` listeners told from inside each other. -/
def tellWithin : (depth : Nat) → Reaction Book
  | 0, _, _, w => w
  | depth + 1, l, a, w =>
    let listener := w.client.behaviours.get l
    let w := mapBook w fun b =>
      b.note (.told listener.name (nameOf b.animators a) (w.scene.animator a).state b.threadName)
    match listener.script with
    | [] => w
    | script =>
      let (answers, w) := runScript (tellWithin depth) script w
      mapBook w fun b => b.note (.scriptRan listener.name answers)

/-- Tells a listener of an animator. -/
def tell : Reaction Book := fun l a w => tellWithin (waiting w + 1) l a w

end SceneAnimation.Session
