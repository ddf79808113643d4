import SceneAnimation.Trace.Event
/-!
# Recordings: trace events as bytes

A record is a tag byte from one to six and then the event's fields, numbers in little-endian order, a phase and a truth
value as one byte each.  A reader takes fields one after the other.  A field that does not fit what is left takes
nothing; a phase byte that names no phase is taken all the same; and bytes taken before a failure stay taken.
-/
namespace SceneAnimation.Trace

/-! ## Writing -/

/-- The `width` low bytes of `n`, lowest first. -/
def littleEndian : (width : Nat) → Nat → List UInt8
  | 0, _ => []
  | width + 1, n => UInt8.ofNat (n % 256) :: littleEndian width (n / 256)

def word64 (n : UInt64) : List UInt8 := littleEndian 8 n.toNat

def word32 (n : UInt32) : List UInt8 := littleEndian 4 n.toNat

def flag (b : Bool) : UInt8 := if b then 1 else 0

def Phase.code : Phase → UInt8
  | .startFrame => 0
  | .prepareTree => 1
  | .runAnimations => 2

/-- The tag of an event's record. -/
def Event.tag : Event → UInt8
  | .frameStart .. => 1
  | .phaseBegin .. => 2
  | .phaseEnd .. => 3
  | .batchScheduled .. => 4
  | .errorsReported .. => 5
  | .frameSummary _ => 6

/-- The fields of an event's record, after the tag. -/
def Event.body : Event → List UInt8
  | .frameStart i t attached active => word64 i ++ word64 t.nanos ++ word32 attached ++ word32 active
  | .phaseBegin i phase t => word64 i ++ [phase.code] ++ word64 t.nanos
  | .phaseEnd i phase t => word64 i ++ [phase.code] ++ word64 t.nanos
  | .batchScheduled i events accepted => word64 i ++ word32 events ++ [flag accepted]
  | .errorsReported i errors skipped => word64 i ++ word32 errors ++ word32 skipped
  | .frameSummary s =>
    word64 s.frameIndex ++ word64 s.frameTime.nanos ++ word32 s.preparedNodes ++ word32 s.errors ++
      word64 s.startTook.nanos ++ word64 s.prepareTook.nanos ++ word64 s.animateTook.nanos ++ [flag s.animating]

def Event.record (e : Event) : List UInt8 := e.tag :: e.body

/-- The recording of a list of events. -/
def record (events : List Event) : List UInt8 := events.flatMap Event.record

/-! ## Reading -/

/-- The number whose bytes are listed, lowest first. -/
def ofLittleEndian : List UInt8 → Nat
  | [] => 0
  | b :: rest => b.toNat + 256 * ofLittleEndian rest

/-- Reads from a list of bytes: the value, if there is one, and what is left in either case. -/
abbrev Reader (α : Type) := List UInt8 → Option α × List UInt8

namespace Reader

def pure {α : Type} (a : α) : Reader α := fun bytes => (some a, bytes)

/-- First `r`, then what depends on its value.  A failure of `r` is the failure of the whole. -/
def andThen {α β : Type} (r : Reader α) (f : α → Reader β) : Reader β := fun bytes =>
  match r bytes with
  | (some a, rest) => f a rest
  | (none, rest) => (none, rest)

/-- `width` bytes as one number; takes nothing if fewer are left. -/
def number (width : Nat) : Reader Nat := fun bytes =>
  if width ≤ bytes.length then (some (ofLittleEndian (bytes.take width)), bytes.drop width) else (none, bytes)

def word64 : Reader UInt64 := andThen (number 8) fun n => pure (UInt64.ofNat n)

def word32 : Reader UInt32 := andThen (number 4) fun n => pure (UInt32.ofNat n)

def instant : Reader Instant := andThen word64 fun n => pure ⟨n⟩

def span : Reader Span := andThen word64 fun n => pure ⟨n⟩

/-- Any byte but zero is true. -/
def flag : Reader Bool := andThen (number 1) fun n => pure (n ≠ 0)

def phase : Reader Phase := andThen (number 1) fun
  | 0 => pure .startFrame
  | 1 => pure .prepareTree
  | 2 => pure .runAnimations
  | _ => fun rest => (none, rest)

/-- The fields after a tag; nothing for a byte that is no tag. -/
def body (tag : Nat) : Reader Event :=
  match tag with
  | 1 => andThen word64 fun i => andThen instant fun t => andThen word32 fun attached =>
      andThen word32 fun active => pure (.frameStart i t attached active)
  | 2 => andThen word64 fun i => andThen phase fun q => andThen instant fun t => pure (.phaseBegin i q t)
  | 3 => andThen word64 fun i => andThen phase fun q => andThen instant fun t => pure (.phaseEnd i q t)
  | 4 => andThen word64 fun i => andThen word32 fun n => andThen flag fun accepted =>
      pure (.batchScheduled i n accepted)
  | 5 => andThen word64 fun i => andThen word32 fun errors => andThen word32 fun skipped =>
      pure (.errorsReported i errors skipped)
  | 6 => andThen word64 fun i => andThen instant fun t => andThen word32 fun prepared => andThen word32 fun errors =>
      andThen span fun s => andThen span fun p => andThen span fun a => andThen flag fun animating =>
      pure (.frameSummary ⟨i, t, prepared, errors, s, p, a, animating⟩)
  | _ => fun rest => (none, rest)

/-- The next event. -/
def event : Reader Event := andThen (number 1) body

end Reader

/-- Reads at most `n` events, up to the first failure, and what is left then. -/
def readUpTo : Nat → List UInt8 → List Event × List UInt8
  | 0, bytes => ([], bytes)
  | n + 1, bytes =>
    match Reader.event bytes with
    | (none, rest) => ([], rest)
    | (some e, rest) =>
      let (events, rest) := readUpTo n rest
      (e :: events, rest)

/-- Reads events up to the first failure, and what is left then.  Every event takes a byte at least, so one reading for
each byte and one that fails are enough. -/
def read (bytes : List UInt8) : List Event × List UInt8 := readUpTo (bytes.length + 1) bytes

/-- The events of a recording, up to the first that cannot be read. -/
def decode (bytes : List UInt8) : List Event := (read bytes).1

end SceneAnimation.Trace
