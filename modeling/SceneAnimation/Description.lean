import SceneAnimation.RenderThread
import SceneAnimation.Numeral.Decimal
import SceneAnimation.Text.Quoted
/-!
# Descriptions: one line about an object, for diagnostics

A description names the kind of the object and lists fields of it; two dots stand for fields that are left out.
-/
namespace SceneAnimation

namespace Describe

/-- A named record; with two dots at the end if `isPartial`. -/
def entry (kind : String) (fields : List (String × String)) (isPartial : Bool) : String :=
  let shown := fields.map fun (name, value) => name ++ ": " ++ value
  let shown := if isPartial then shown ++ [".."] else shown
  kind ++ " \x7b " ++ String.intercalate ", " shown ++ " \x7d"

def truth (b : Bool) : String := if b then "true" else "false"

/-- Single-precision numbers have the fewest digits that read back, of two equally near ones the larger, and at least
one place; below one in ten thousand and from ten to the sixteenth on they have an exponent. -/
def singleLayout : Numeral.Layout := ⟨-4, 15, "", .up⟩

def single (x : Float32) : String := Numeral.textOfSingle singleLayout x

def optional : Option String → String
  | none => "None"
  | some s => "Some(" ++ s ++ ")"

end Describe

open Describe

def Instant.describe (t : Instant) : String := "FrameTime(" ++ toString t.nanos ++ "ns)"

def Span.describe (d : Span) : String := "Duration(" ++ toString d.nanos ++ "ns)"

def NodeId.describe (n : NodeId) : String := "NodeId(" ++ toString n.index ++ ")"

def AnimatorId.describe (a : AnimatorId) : String := "AnimatorId(" ++ toString a.index ++ ")"

def Scene.describeAnimator (s : Scene) (a : AnimatorId) : String :=
  let x := s.animator a
  entry "Animator"
    [("id", a.describe), ("property", x.property.name), ("final_value", single x.finalValue),
      ("duration", x.duration.describe), ("state", x.state.name)] true

def Scene.describeNode (s : Scene) (n : NodeId) : String :=
  let x := s.node n
  entry "RenderNode"
    [("id", n.describe), ("name", Text.quoted x.name), ("animators", toString x.animators.length),
      ("destroyed", truth x.destroyed)] true

def Clock.describe (c : Clock) : String :=
  entry "FrameClock" [("frame_time", toString c.frameTime.nanos), ("frame_interval", toString c.interval.nanos)] false

def Root.describe (r : Root) : String :=
  entry "SyncRoot" [("node", r.node.describe), ("pending", toString r.pending.length)] true

/-- Of the sending end of a mailbox. -/
def Mailbox.describeSender (m : Mailbox) : String :=
  entry "LooperHandle" [("queued", toString m.queue.length)] false

/-- Of the receiving end of a mailbox. -/
def Mailbox.describe (m : Mailbox) : String := entry "Looper" [("pending", toString m.queue.length)] true

def Completion.describe (c : Completion) : String :=
  entry "FinishedAnimationEvent" [("animator", c.animator.describe)] true

def describeBatch (batch : List Completion) : String :=
  entry "FinishedEventBatch" [("events", "[" ++ String.intercalate ", " (batch.map Completion.describe) ++ "]")] false

def Schedule.describe (s : Schedule) : String :=
  entry "AnimationContext"
    [("frame_time", s.frameTime.describe), ("frame_index", toString s.frameIndex),
      ("current_frame", toString s.current.length), ("next_frame", toString s.next.length)] true

def Driver.describe (d : Driver) : String :=
  match d.outlet.held? with
  | none => d.schedule.describe
  | some held => entry "AnimationBridge" [("context", d.schedule.describe), ("finished", toString held)] true

def Tally.describe (t : Tally) : String :=
  entry "TreeInfoOut"
    [("prepared_nodes", toString t.prepared), ("errors", toString t.errors), ("skipped_subtrees", toString t.skipped),
      ("has_animations", truth t.animating)] false

def Pass.describe (p : Pass) : String :=
  entry "TreeInfo"
    [("frame_time", p.frameTime.describe), ("has_error_handler", truth p.sink.isPresent), ("out", p.tally.describe)]
    false

def Pipeline.describe {κ : Type} (p : Pipeline) (w : World κ) : String :=
  entry "RenderPipeline"
    [("root", (w.root p.root).describe), ("driver", p.driver.describe), ("tracing", truth p.traced)] true

def RenderThread.describe {κ : Type} (r : RenderThread) (w : World κ) : String :=
  entry "RenderProxy" [("root", (w.root r.pipeline.root).describe), ("running", truth r.running)] true

/-- Of what makes drivers for the owner of a root. -/
def Root.describeFactory (r : Root) : String := entry "BridgeFactory" [("root", r.describe)] false

def Trace.Summary.describe (s : Trace.Summary) : String :=
  entry "FrameSummary"
    [("frame_index", toString s.frameIndex), ("frame_time", s.frameTime.describe),
      ("prepared_nodes", toString s.preparedNodes), ("errors", toString s.errors),
      ("start_nanos", toString s.startTook.nanos), ("prepare_nanos", toString s.prepareTook.nanos),
      ("animate_nanos", toString s.animateTook.nanos), ("animating", truth s.animating)] false

end SceneAnimation
