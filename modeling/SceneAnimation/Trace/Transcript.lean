import SceneAnimation.Trace.Event
import SceneAnimation.Numeral.Decimal
/-!
# Transcripts: trace events as lines of text

One line for each event.  Times are in milliseconds with three places.
-/
namespace SceneAnimation.Trace

/-- `n` nanoseconds in milliseconds, with three places; a half goes to the even neighbour. -/
def millisText (n : UInt64) : String := Numeral.fixed 3 (n.toFloat / 1000000.0)

/-- The line of one event, without its end. -/
def Event.line (e : Event) : String :=
  "[frame " ++ toString e.frameIndex ++ "] " ++
  match e with
  | .frameStart _ t attached active =>
    "start t=" ++ millisText t.nanos ++ "ms attached=" ++ toString attached ++ " active=" ++ toString active
  | .phaseBegin _ phase t => "  begin " ++ phase.name ++ " @" ++ millisText t.nanos ++ "ms"
  | .phaseEnd _ phase t => "  end   " ++ phase.name ++ " @" ++ millisText t.nanos ++ "ms"
  | .batchScheduled _ events accepted =>
    "finished batch of " ++ toString events ++ " (" ++ (if accepted then "posted" else "dropped, owner gone") ++ ")"
  | .errorsReported _ errors skipped =>
    toString errors ++ " error(s), " ++ toString skipped ++ " subtree(s) skipped"
  | .frameSummary s =>
    "summary nodes=" ++ toString s.preparedNodes ++ " errors=" ++ toString s.errors ++
      " start=" ++ toString s.startTook.nanos ++ "ns prepare=" ++ toString s.prepareTook.nanos ++
      "ns animate=" ++ toString s.animateTook.nanos ++ "ns" ++ (if s.animating then " animating" else "")

/-- The transcript of a list of events. -/
def transcript (events : List Event) : String := String.join (events.map fun e => e.line ++ "\n")

end SceneAnimation.Trace
