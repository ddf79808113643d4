import SceneAnimation.Proofs.Objects
import SceneAnimation.Proofs.Quotients
import SceneAnimation.Proofs.Recordings
/-!
# Timelines: what a timeline shows of a recording

A timeline is the text of one list of objects and of no other value; the objects are those of the events that are read
from the recording, in their order.  A phase event has a time of its own; every other event is shown at the time of the
last phase event before it, however far back that is (`timeAfter`).  The number that stands for a time is read back as
the double nearest to a thousandth of its nanoseconds (`ShowsMicros`).  So the timeline of two recordings, one after the
other, is made of their timelines: only events of the second before its first phase event are moved
(`timeline_exact`).
-/
namespace SceneAnimation

namespace Json

/-- The member `name` of an object. -/
def member? : Json → String → Option Json
  | .object members, name => members.lookup name
  | _, _ => none

/-- An object with `v` for its member `name`. -/
def replace : Json → String → Json → Json
  | .object members, name, v => .object (members.map fun m => if m.1 = name then (name, v) else m)
  | j, _, _ => j

end Json

namespace Trace

/-! ## Times -/

/-- The time of the last phase event of a list. -/
def lastPhase? (es : List Event) : Option Instant := (es.filterMap Event.phaseTime?).getLast?

/-- The time of the last phase event of a list, in microseconds, or `last` where there is none. -/
def timeAfter (last : Float) (es : List Event) : Float := (lastPhase? es).elim last fun t => micros t.nanos

/-- How many events of a list come before its first phase event. -/
def untimed (es : List Event) : Nat := (es.takeWhile (·.phaseTime?.isNone)).length

theorem timeAfter_cons (last : Float) (e : Event) (es : List Event) :
    timeAfter last (e :: es) = timeAfter (timeAfter last [e]) es := by
  unfold timeAfter lastPhase?
  rw [← List.singleton_append, List.filterMap_append, List.getLast?_append]
  cases (es.filterMap Event.phaseTime?).getLast? <;> rfl

theorem marksFrom_cons (last : Float) (e : Event) (es : List Event) :
    marksFrom last (e :: es) = e.mark last :: marksFrom (timeAfter last [e]) es := by
  cases h : e.phaseTime? <;> simp [marksFrom, timeAfter, lastPhase?, h]

/-- **Every event is marked for the last phase event before it.** -/
theorem getElem?_marksFrom (es : List Event) (last : Float) (i : Nat) :
    (marksFrom last es)[i]? = es[i]?.map (Event.mark (timeAfter last (es.take i))) := by
  induction es generalizing last i with
  | nil => simp [marksFrom]
  | cons e es ih =>
    cases i with
    | zero => rfl
    | succ i =>
      rw [marksFrom_cons, List.take_succ_cons, timeAfter_cons last e (es.take i)]
      exact ih _ i

theorem length_marksFrom (es : List Event) (last : Float) : (marksFrom last es).length = es.length := by
  induction es generalizing last with
  | nil => rfl
  | cons e es ih => exact congrArg (· + 1) (ih _)

theorem marksFrom_append (xs ys : List Event) (last : Float) :
    marksFrom last (xs ++ ys) = marksFrom last xs ++ marksFrom (timeAfter last xs) ys := by
  induction xs generalizing last with
  | nil => rfl
  | cons e xs ih =>
    rw [List.cons_append, marksFrom_cons, ih, marksFrom_cons, ← timeAfter_cons]
    rfl

/-- An event without a time is marked where it is told to be, and a phase event is not. -/
theorem Event.mark_eq (e : Event) (last last' : Float) :
    e.mark last' = if e.phaseTime?.isNone then { e.mark last with time := last' } else e.mark last := by
  cases e <;> rfl

/-- **Another start moves the marks before the first phase event**, and no others. -/
theorem marksFrom_moved (es : List Event) (last last' : Float) :
    marksFrom last' es = ((marksFrom last es).take (untimed es)).map (fun m => { m with time := last' }) ++
      (marksFrom last es).drop (untimed es) := by
  induction es with
  | nil => rfl
  | cons e es ih =>
    rw [marksFrom_cons, marksFrom_cons, e.mark_eq last last']
    cases h : e.phaseTime? with
    | some t =>
      have huntimed : untimed (e :: es) = 0 := by simp [untimed, h]
      have htime : ∀ x, timeAfter x [e] = micros t.nanos := by simp [timeAfter, lastPhase?, h]
      rw [huntimed, htime, htime]
      rfl
    | none =>
      have huntimed : untimed (e :: es) = untimed es + 1 := by simp [untimed, h]
      have htime : ∀ x, timeAfter x [e] = x := by simp [timeAfter, lastPhase?, h]
      rw [huntimed, htime, htime, ih]
      rfl

/-! ## Objects -/

/-- The number `q` shows `n` nanoseconds in microseconds: it is read back as the double that is nearest to a thousandth
of the double that is nearest to `n`. -/
def ShowsMicros (n : UInt64) (q : ℚ) : Prop :=
  ∃ v x : Float, Numeral.Nearest v n.toNat ∧ Numeral.Nearest x (Numeral.valueOf v / 1000) ∧ Numeral.Nearest x q

theorem showsMicros (n : UInt64) : ShowsMicros n (Numeral.shown realLayout.tie (micros n)) := by
  obtain ⟨hwhole, hquotient⟩ := Numeral.thousandth_spec n
  exact ⟨_, _, hwhole, hquotient, Numeral.nearest_shown hquotient.1 _⟩

/-- The number `q` shows a time, and is zero where there is none. -/
def ShowsTime (t : Option Instant) (q : ℚ) : Prop := t.elim (q = 0) fun t => ShowsMicros t.nanos q

theorem showsTime (es : List Event) : ShowsTime (lastPhase? es) (Numeral.shown realLayout.tie (timeAfter 0.0 es)) := by
  unfold timeAfter
  cases lastPhase? es with
  | none =>
    have hsize : Numeral.size 0.0 = 0 := rfl
    simp [ShowsTime, Numeral.shown, Numeral.magnitudeShown, hsize]
  | some t => exact showsMicros t.nanos

theorem isFinite_micros (n : UInt64) : (micros n).isFinite = true := (Numeral.thousandth_spec n).2.1

theorem isFinite_timeAfter (es : List Event) : (timeAfter 0.0 es).isFinite = true := by
  unfold timeAfter
  cases lastPhase? es with
  | none => rfl
  | some t => exact isFinite_micros t.nanos

theorem Mark.json_moved (m : Mark) (x : Float) :
    Mark.json { m with time := x } = m.json.replace "ts" (Field.real x).json := by
  obtain ⟨kind, name, category, time, scope, args⟩ := m
  cases scope <;> simp [json, members, Json.replace]

theorem map_json_moved (es : List Event) (last last' : Float) :
    (marksFrom last' es).map Mark.json =
      (((marksFrom last es).map Mark.json).take (untimed es)).map (·.replace "ts" (Field.real last').json) ++
        ((marksFrom last es).map Mark.json).drop (untimed es) := by
  rw [marksFrom_moved es last last', List.map_append, List.map_drop, ← List.map_take]
  congr 1
  rw [List.map_map, List.map_map]
  exact List.map_congr_left fun m _ => m.json_moved last'

/-- The objects of the timeline of a recording. -/
def objects (bytes : List UInt8) : List Json := (marks (decode bytes)).map Mark.json

namespace Event

/-- Whether a phase begins or ends with an event; otherwise it is an instant. -/
def kind : Event → String
  | .phaseBegin .. => "B"
  | .phaseEnd .. => "E"
  | _ => "i"

def label : Event → String
  | .phaseBegin _ phase _ | .phaseEnd _ phase _ => phase.name
  | .frameStart .. => "FrameStart"
  | .batchScheduled .. => "BatchScheduled"
  | .errorsReported .. => "ErrorsReported"
  | .frameSummary _ => "FrameSummary"

/-- The whole numbers of an event. -/
def wholes : Event → List (String × Nat)
  | .frameStart i _ attached active =>
    [("frame_index", i.toNat), ("attached", attached.toNat), ("active", active.toNat)]
  | .phaseBegin i _ _ | .phaseEnd i _ _ => [("frame_index", i.toNat)]
  | .batchScheduled i events _ => [("frame_index", i.toNat), ("events", events.toNat)]
  | .errorsReported i errors skipped =>
    [("frame_index", i.toNat), ("errors", errors.toNat), ("skipped_subtrees", skipped.toNat)]
  | .frameSummary s =>
    [("frame_index", s.frameIndex.toNat), ("prepared_nodes", s.preparedNodes.toNat), ("errors", s.errors.toNat)]

/-- What an event tells in nanoseconds, but for the time of a phase event. -/
def nanos : Event → List (String × UInt64)
  | .frameStart _ t _ _ => [("frame_time_us", t.nanos)]
  | .frameSummary s =>
    [("start_us", s.startTook.nanos), ("prepare_us", s.prepareTook.nanos), ("animate_us", s.animateTook.nanos)]
  | _ => []

def truths : Event → List (String × Bool)
  | .batchScheduled _ _ accepted => [("accepted", accepted)]
  | .frameSummary s => [("animating", s.animating)]
  | _ => []

/-- **The object `o` shows an event**, for a last phase event at `last`. -/
structure ShownBy (e : Event) (last : Option Instant) (o : Json) : Prop where
  kind : o.member? "ph" = some (.text e.kind)
  name : o.member? "name" = some (.text e.label)
  /-- A phase event has a time of its own. -/
  time : ∃ q, o.member? "ts" = some (.number q) ∧ ShowsTime (e.phaseTime?.or last) q
  /-- The values of the event are there, and nothing else. -/
  args : ∃ values, o.member? "args" = some (.object values) ∧
    ∃ shown : UInt64 → ℚ, (∀ n, ShowsMicros n (shown n)) ∧
      values.Perm (e.wholes.map (fun a => (a.1, .number a.2)) ++ e.nanos.map (fun a => (a.1, .number (shown a.2))) ++
        e.truths.map (fun a => (a.1, .truth a.2)))

theorem shownBy_mark (e : Event) (es : List Event) : e.ShownBy (lastPhase? es) (e.mark (timeAfter 0.0 es)).json := by
  refine ⟨?_, ?_, ⟨Numeral.shown realLayout.tie (e.mark (timeAfter 0.0 es)).time, ?_, ?_⟩,
    (e.mark (timeAfter 0.0 es)).args.map fun a => (a.1, a.2.json), ?_, _, showsMicros, ?_⟩
  case refine_4 =>
    cases e with
    | phaseBegin _ _ t | phaseEnd _ _ t => exact showsMicros t.nanos
    | _ => exact showsTime es
  case refine_6 =>
    cases e
    case phaseBegin | phaseEnd => exact .refl _
    all_goals
      -- an object has its members in another order, and each of them once
      classical
      refine List.perm_iff_count.2 fun a => ?_
      simp only [mark, wholes, nanos, truths, Field.json, List.map_cons, List.map_nil, List.cons_append,
        List.nil_append, List.count_cons, List.count_nil]
      omega
  all_goals cases e <;> rfl

theorem isPlain_mark (e : Event) {last : Float} (h : last.isFinite = true) : (e.mark last).IsPlain := by
  have hphase : ∀ phase : Phase, Plain phase.name := by
    intro phase
    cases phase <;> decide
  have hargs : ∀ a ∈ (e.mark last).args, Plain a.1 ∧ a.2.IsPlain := by
    cases e <;> simp only [mark, Field.IsPlain, List.forall_mem_cons, List.not_mem_nil, false_imp_iff, implies_true,
      and_true, isFinite_micros] <;> decide
  have htime : (e.mark last).time.isFinite = true := by
    cases e with
    | phaseBegin _ _ t | phaseEnd _ _ t => exact isFinite_micros t.nanos
    | _ => exact h
  refine ⟨?_, ?_, ?_, htime, ?_, hargs⟩
  case refine_2 =>
    cases e with
    | phaseBegin _ phase _ | phaseEnd _ phase _ => exact hphase phase
    | _ => simp only [mark]; decide
  all_goals cases e <;> simp only [mark] <;> decide

end Event

/-- **The text of a timeline is that of one list of objects**, and of no other value. -/
theorem speltBy_timeline_iff (bytes : List UInt8) (v : Json) :
    v.SpeltBy (timeline bytes) ↔ v = .list (objects bytes) := by
  have hspelt : (Json.list (objects bytes)).SpeltBy (timeline bytes) := by
    refine (writes_renderMarks fun m hm => ?_).speltBy
    obtain ⟨i, hi⟩ := List.mem_iff_getElem?.1 hm
    rw [marks, getElem?_marksFrom] at hi
    obtain ⟨e, -, rfl⟩ := Option.map_eq_some_iff.1 hi
    exact e.isPlain_mark (isFinite_timeAfter _)
  exact ⟨fun h => h.unique hspelt, fun h => h ▸ hspelt⟩

/-- **A timeline shows the events of its recording, and nothing else.**  For every recording, whatever its bytes:
`(1)` the timeline is the text of one list of objects and of no other value, `(2)` there are as many objects as events
are read, `(3)` each object shows the event in its place, a phase event at its own time and every other at the time of
the last phase event before it, or at zero, where what is counted is there exactly and a time is a number that is read
back as the double nearest to a thousandth of its nanoseconds; and `(4)` if other events `xs` are recorded before, their
objects come first, and then those of `bytes`, of which the ones before the first phase event are moved to the time of
the last phase event of `xs`, if there is one, and the others are as they were. -/
theorem timeline_exact (bytes : List UInt8) :
    (∀ v : Json, v.SpeltBy (timeline bytes) ↔ v = .list (objects bytes)) ∧
    (objects bytes).length = (decode bytes).length ∧
    (∀ i (e : Event), (decode bytes)[i]? = some e →
      ∃ o, (objects bytes)[i]? = some o ∧ e.ShownBy (lastPhase? ((decode bytes).take i)) o) ∧
    ∀ xs : List Event, decode (record xs ++ bytes) = xs ++ decode bytes ∧
      match lastPhase? xs with
      | some t => ∃ q, ShowsMicros t.nanos q ∧ objects (record xs ++ bytes) = objects (record xs) ++
          (((objects bytes).take (untimed (decode bytes))).map (·.replace "ts" (.number q)) ++
            (objects bytes).drop (untimed (decode bytes)))
      | none => objects (record xs ++ bytes) = objects (record xs) ++ objects bytes := by
  refine ⟨speltBy_timeline_iff bytes, ?_, fun i e he => ?_, fun xs => ?_⟩
  · rw [objects, List.length_map, marks, length_marksFrom]
  · refine ⟨_, ?_, e.shownBy_mark ((decode bytes).take i)⟩
    rw [objects, List.getElem?_map, marks, getElem?_marksFrom, he]
    rfl
  · refine ⟨decode_record_append xs bytes, ?_⟩
    have happend : objects (record xs ++ bytes) =
        objects (record xs) ++ (marksFrom (timeAfter 0.0 xs) (decode bytes)).map Mark.json := by
      rw [objects, decode_record_append, marks, marksFrom_append, List.map_append, objects, decode_record, marks]
    rw [happend, timeAfter]
    cases lastPhase? xs with
    | none => rfl
    | some t =>
      exact ⟨_, showsMicros t.nanos,
        congrArg (objects (record xs) ++ ·) (map_json_moved (decode bytes) 0.0 (micros t.nanos))⟩

/-- A batch, the beginning of a phase, errors, and a byte that is no tag: the batch is shown at zero and the errors at
the time of the phase.  Behind the end of another phase only the batch is moved. -/
theorem timeline_phase :
    let batch : Event := .batchScheduled 3 1 true
    let begun : Event := .phaseBegin 3 .runAnimations ⟨2500⟩
    let errors : Event := .errorsReported 3 2 2
    let bytes := record [batch, begun, errors] ++ [9]
    let ended : Event := .phaseEnd 3 .prepareTree ⟨1500⟩
    (decode bytes)[0]? = some batch ∧ (decode bytes)[2]? = some errors ∧
    (∃ o, (objects bytes)[0]? = some o ∧ batch.ShownBy none o) ∧
    (∃ o, (objects bytes)[2]? = some o ∧ errors.ShownBy (some ⟨2500⟩) o) ∧
    ∃ q, ShowsMicros 1500 q ∧ objects (record [ended] ++ bytes) = objects (record [ended]) ++
      (((objects bytes).take 1).map (·.replace "ts" (.number q)) ++ (objects bytes).drop 1) := by
  intro batch begun errors bytes ended
  have hread : decode bytes = [batch, begun, errors] := by decide +kernel
  obtain ⟨-, -, hshown, hbehind⟩ := timeline_exact bytes
  rw [hread] at hshown hbehind ⊢
  exact ⟨rfl, rfl, hshown 0 batch rfl, hshown 2 errors rfl, (hbehind [ended]).2⟩

end Trace

end SceneAnimation
