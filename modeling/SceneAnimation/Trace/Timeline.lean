import SceneAnimation.Trace.Recording
import SceneAnimation.Numeral.Decimal
/-!
# Timelines: trace events as marks on a time axis

A timeline is a JSON array of objects, as viewers of trace events read them.  A phase begins and ends with marks at its
own times, in microseconds.  All other events carry no time of their own, and are marked at the time of the last phase
event before them, or at zero if there is none.
-/
namespace SceneAnimation.Trace

/-- The value of one field of a mark. -/
inductive Field where
  | whole (n : Nat)
  | real (x : Float)
  | text (s : String)
  | truth (b : Bool)

/-- One object of a timeline. -/
structure Mark where
  /-- `B` where a phase begins, `E` where it ends, `i` for an instant. -/
  kind : String
  name : String
  category : String
  /-- In microseconds. -/
  time : Float
  /-- How far an instant reaches: `t` for its thread, `g` for the whole timeline. -/
  scope : Option String
  /-- Sorted by name. -/
  args : List (String × Field)

/-- `n` nanoseconds in microseconds. -/
def micros (n : UInt64) : Float := n.toFloat / 1000.0

/-- The mark of an event, for a last phase event at `last`. -/
def Event.mark (last : Float) : Event → Mark
  | .frameStart i t attached active =>
    ⟨"i", "FrameStart", "Animation", last, some "t",
      [("active", .whole active.toNat), ("attached", .whole attached.toNat), ("frame_index", .whole i.toNat),
        ("frame_time_us", .real (micros t.nanos))]⟩
  | .phaseBegin i phase t => ⟨"B", phase.name, "Frame", micros t.nanos, none, [("frame_index", .whole i.toNat)]⟩
  | .phaseEnd i phase t => ⟨"E", phase.name, "Frame", micros t.nanos, none, [("frame_index", .whole i.toNat)]⟩
  | .batchScheduled i events accepted =>
    ⟨"i", "BatchScheduled", "Handoff", last, some "t",
      [("accepted", .truth accepted), ("events", .whole events.toNat), ("frame_index", .whole i.toNat)]⟩
  | .errorsReported i errors skipped =>
    ⟨"i", "ErrorsReported", "Handoff", last, some "t",
      [("errors", .whole errors.toNat), ("frame_index", .whole i.toNat),
        ("skipped_subtrees", .whole skipped.toNat)]⟩
  | .frameSummary s =>
    ⟨"i", "FrameSummary", "Summary", last, some "g",
      [("animate_us", .real (micros s.animateTook.nanos)), ("animating", .truth s.animating),
        ("errors", .whole s.errors.toNat), ("frame_index", .whole s.frameIndex.toNat),
        ("prepare_us", .real (micros s.prepareTook.nanos)), ("prepared_nodes", .whole s.preparedNodes.toNat),
        ("start_us", .real (micros s.startTook.nanos))]⟩

/-- The marks of a list of events that follow a phase event at `last`. -/
def marksFrom (last : Float) : List Event → List Mark
  | [] => []
  | e :: rest =>
    let next := match e.phaseTime? with
      | some t => micros t.nanos
      | none => last
    e.mark last :: marksFrom next rest

/-- The marks of a list of events. -/
def marks (events : List Event) : List Mark := marksFrom 0.0 events

/-! ## The text of a timeline -/

/-- Reals have the fewest digits that read back, of two equally near ones the even, and at least one place; from ten to
the sixteenth on they have an exponent. -/
def realLayout : Numeral.Layout := ⟨-5, 15, "+", .even⟩

def Field.render : Field → String
  | .whole n => toString n
  | .real x => Numeral.textOfDouble realLayout x
  | .text s => "\"" ++ s ++ "\""
  | .truth b => if b then "true" else "false"

/-- Lines that stand between brackets, indented by `depth` blanks more than the brackets' `depth - 2`. -/
def enclosed (opening closing : String) (depth : Nat) (items : List String) : String :=
  let blanks (n : Nat) : String := String.ofList (List.replicate n ' ')
  opening ++ "\n" ++ String.intercalate ",\n" (items.map fun item => blanks depth ++ item) ++ "\n" ++
    blanks (depth - 2) ++ closing

def named (name value : String) : String := "\"" ++ name ++ "\": " ++ value

/-- An object of a timeline, its fields sorted by name. -/
def Mark.render (m : Mark) : String :=
  let args := enclosed "\x7b" "\x7d" 6 (m.args.map fun (name, value) => named name value.render)
  let scope := match m.scope with
    | some s => [named "s" (Field.text s).render]
    | none => []
  enclosed "\x7b" "\x7d" 4 <|
    [named "args" args, named "cat" (Field.text m.category).render, named "name" (Field.text m.name).render,
      named "ph" (Field.text m.kind).render, named "pid" "0"] ++ scope ++
    [named "tid" "0", named "ts" (Field.real m.time).render]

def renderMarks (ms : List Mark) : String :=
  if ms.isEmpty then "[]" else enclosed "[" "]" 2 (ms.map Mark.render)

/-- The timeline of a recording. -/
def timeline (bytes : List UInt8) : String := renderMarks (marks (decode bytes))

end SceneAnimation.Trace
