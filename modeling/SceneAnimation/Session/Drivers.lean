import SceneAnimation.Session.State
/-!
# Driver calls of a session

Each call goes on with the frame time and the tally that the state keeps, and leaves its tally there.
-/
namespace SceneAnimation.Session

namespace State

def driverView (s : State) (d : NamedDriver) : DriverView :=
  let names (ns : List NodeId) : List (Option String) := ns.map (nameOf s.stage.client.nodes)
  let x := d.driver
  { frameTime := x.frameTime, frameIndex := x.frameIndex, active := x.isActive
    current := if d.concealed then none else some (names x.schedule.current)
    next := if d.concealed then none else some (names x.schedule.next)
    held := if d.concealed then none else x.outlet.held? }

/-- The state after a call of a driver, with the call's value and the events it traces. -/
structure Called where
  state : RenderState Book
  value : Option Nat := none
  events : List Trace.Event := []

/-- A call of a driver, as far as it needs no names. -/
inductive ResolvedCall where
  | info
  | addNode (n : NodeId)
  | startFrame
  | animateNode (n : NodeId)
  | runRemaining
  | reportFinished (c : Completion)
  | destroy
  | drain (r : RootId)
  | prepareNode (n : NodeId)
  | prepareRoot (r : RootId)
  | reportError (message : String)

def ResolvedCall.run (call : ResolvedCall) (s : RenderState Book) : Called :=
  match call with
  | .info => { state := s }
  | .addNode n => { state := { s with driver := s.driver.add n } }
  | .startFrame =>
    let (attached, driver, world) := s.driver.startFrame s.world
    { state := { s with driver, world }, events := [driver.frameStartEvent attached] }
  | .animateNode n => { state := s.animateNode tell n }
  | .runRemaining =>
    let (posting, s) := s.runRemaining tell
    { state := s, events := posting.toList.map s.driver.postingEvent }
  | .reportFinished c =>
    let (driver, world) := s.driver.report tell [c] s.world
    { state := { s with driver, world } }
  | .destroy =>
    let (driver, world) := s.driver.destroy tell s.world
    { state := { s with driver, world } }
  | .drain r =>
    let (count, driver, world) := s.driver.drain r s.world
    { state := { s with driver, world }, value := some count }
  | .prepareNode n => { state := s.prepare tell n }
  | .prepareRoot r => { state := s.prepareRoot tell r }
  | .reportError message => { state := s.reportError message }

/-- Finds what the names of a call stand for. -/
def resolve (b : Book) : DriverCall → Except String ResolvedCall
  | .info => .ok .info
  | .addNode n => find b.nodes n .addNode
  | .startFrame => .ok .startFrame
  | .animateNode n => find b.nodes n .animateNode
  | .runRemaining => .ok .runRemaining
  | .reportFinished a l =>
    match b.animators.get? a, b.listeners.get? l with
    | some animator, some listener => .ok (.reportFinished ⟨animator, listener⟩)
    | none, _ => .error a
    | _, none => .error l
  | .destroy => .ok .destroy
  | .drain r => find b.roots r .drain
  | .prepareNode n => find b.nodes n .prepareNode
  | .prepareRoot r => find b.roots r .prepareRoot
  | .reportError message => .ok (.reportError message)
where
  find {α : Type} (t : Table String α) (name : String) (make : α → ResolvedCall) : Except String ResolvedCall :=
    match t.get? name with
    | some x => .ok (make x)
    | none => .error name

/-- The error sink that a choice names. -/
def sinkOf (b : Book) : SinkChoice → Except String ErrorSink
  | .absent => .ok .absent
  | .collector => .ok (.collector [])
  | .root name =>
    match b.roots.get? name with
    | some r => .ok (.root r)
    | none => .error name

/-- Calls a driver with a pass that goes on from the state's frame time and tally. -/
def callDriver (s : State) (name : String) (choice : SinkChoice) (call : DriverCall) : Answer × State :=
  s.lookUp s.drivers name fun d =>
    match sinkOf s.stage.client choice, resolve s.stage.client call with
    | .error missing, _ => (.unknown missing, s)
    | _, .error missing => (.unknown missing, s)
    | .ok sink, .ok call =>
      let called := call.run
        { driver := d.driver, pass := { frameTime := s.frameTime, sink, tally := s.tally }, world := s.stage }
      let after := called.state
      let d := { d with driver := after.driver }
      let s := { s with stage := after.world, drivers := s.drivers.set name d, tally := after.pass.tally }
      let s := if s.tracing then s.sinkAll called.events else s
      let collected := match after.pass.sink with
        | .collector messages => messages
        | _ => []
      (.driverResult
        { value := called.value, driver := s.driverView d, tally := s.tally,
          sinkPresent := after.pass.sink.isPresent, collected }, s)

end State

end SceneAnimation.Session
