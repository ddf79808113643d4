import SceneAnimation.Proofs.Nesting
/-!
# Operations: a pipeline in use

A pipeline draws frames and ticks, is reset, is destroyed, and gets or loses a trace sink, in any order.  Between any two
operations the owner's code, or any other code that shares the world, may take any step of its own.  A frame is one
operation, but listeners that it tells may do what they like in the middle of it.
-/
namespace SceneAnimation

theorem trail_self {σ ι : Type} {step : σ → ι → σ} : ∀ (s : σ) (xs : List ι), trail step (fun _ x => [x]) s xs = xs
  | _, [] => rfl
  | s, x :: xs => congrArg (x :: ·) (trail_self (step s x) xs)

/-- Identity of a trace sink. -/
structure SinkId where
  index : Nat
deriving DecidableEq

/-- What is done next, with the pipeline or beside it. -/
inductive Operation (κ : Type) where
  /-- A frame, drawn for a vertical sync at `t` or ticked at `t`. -/
  | frame (kind : FrameKind) (readings : Readings) (t : Instant)
  | reset
  | destroy
  /-- Frames are told to `sink` from now on, or to nobody. -/
  | install (sink : Option SinkId)
  | owner (x : Owner.Step κ)

/-- A pipeline, its trace sink, and the owner's thread. -/
structure Operated (κ : Type) where
  pipeline : Pipeline
  sink : Option SinkId := none
  owner : Owner κ

/-- How a frame of some kind at `t` moves the clock. -/
def FrameKind.move (kind : FrameKind) (t : Instant) (c : Clock) : Clock :=
  match kind with
  | .draw => c.vsync t
  | .tick => c.catchUp t

namespace Pipeline

variable {κ : Type}

/-- The world after the clock has been moved for a frame. -/
def moved (kind : FrameKind) (t : Instant) (p : Pipeline) (w : World κ) : World κ :=
  w.setClock p.clock (kind.move t (w.clock p.clock))

/-- A frame of either kind. -/
def frame (react : Reaction κ) (kind : FrameKind) (readings : Readings) (t : Instant) (p : Pipeline) (w : World κ) :
    Drawn κ :=
  match kind with
  | .draw => p.draw react readings t w
  | .tick => p.tick react readings t w

theorem frame_eq (react : Reaction κ) (kind : FrameKind) (readings : Readings) (t : Instant) (p : Pipeline)
    (w : World κ) : p.frame react kind readings t w = p.runFrame react kind readings (p.moved kind t w) := by
  cases kind <;> rfl

/-- The driver of a frame at `t` that has been started, with the world then. -/
def started (p : Pipeline) (kind : FrameKind) (t : Instant) (w : World κ) : Driver × World κ :=
  (p.driver.startFrame (p.moved kind t w)).2

/-- The jobs of a frame that has been started. -/
def remaining (p : Pipeline) (kind : FrameKind) : List Job := (Task.frameJobs p.root kind).tail

end Pipeline

namespace Operated

variable {κ : Type}

/-- A new pipeline, which no sink traces. -/
def start (root : RootId) (kind : DriverKind) (clock : ClockId) (w : World κ) : Operated κ :=
  { pipeline := .new root kind clock, owner := { world := w } }

def world (x : Operated κ) : World κ := x.owner.world

/-- The frame of an operation, if it is one. -/
def drawn? (react : Reaction κ) (x : Operated κ) : Operation κ → Option (Drawn κ)
  | .frame kind readings t => some (x.pipeline.frame react kind readings t x.world)
  | _ => none

def step (react : Reaction κ) (x : Operated κ) : Operation κ → Operated κ
  | .frame kind readings t =>
    let d := x.pipeline.frame react kind readings t x.world
    { x with pipeline := d.pipeline, owner := x.owner.inWorld d.world }
  | .reset =>
    let (pipeline, w) := x.pipeline.reset react x.world
    { x with pipeline, owner := x.owner.inWorld w }
  | .destroy =>
    let (pipeline, w) := x.pipeline.destroy react x.world
    { x with pipeline, owner := x.owner.inWorld w }
  | .install sink => { x with sink, pipeline := { x.pipeline with traced := sink.isSome } }
  | .owner y => { x with owner := x.owner.step y }

def run (react : Reaction κ) (x : Operated κ) (ops : List (Operation κ)) : Operated κ := ops.foldl (step react) x

/-- What an operation answers, if it is a frame. -/
def answers (react : Reaction κ) (x : Operated κ) (op : Operation κ) : List Outcome :=
  (x.drawn? react op).toList.map (·.outcome)

/-- The outcomes of the frames of a run, in order. -/
def outcomes (react : Reaction κ) (x : Operated κ) (ops : List (Operation κ)) : List Outcome :=
  trail (step react) (answers react) x ops

/-- What an operation tells sink `k`. -/
def tells (react : Reaction κ) (k : SinkId) (x : Operated κ) (op : Operation κ) : List Trace.Event :=
  if x.sink = some k then (x.drawn? react op).toList.flatMap (·.events) else []

/-- What a run tells sink `k`, in order. -/
def told (react : Reaction κ) (k : SinkId) (x : Operated κ) (ops : List (Operation κ)) : List Trace.Event :=
  trail (step react) (tells react k) x ops

/-- **What one operation keeps, a whole run keeps.** -/
theorem run_keeps {react : Reaction κ} {P : Operated κ → Prop} (h : ∀ x op, P x → P (x.step react op)) :
    ∀ (ops : List (Operation κ)) (x : Operated κ), P x → P (x.run react ops)
  | [], _, hx => hx
  | op :: ops, x, hx => run_keeps h ops (x.step react op) (h x op hx)

end Operated

/-- How many frames there were since the last reset, or from the beginning. -/
def framesSinceReset {κ : Type} (ops : List (Operation κ)) : Nat :=
  ops.foldl (fun n op => match op with
    | .frame .. => n + 1
    | .reset => 0
    | _ => n) 0

end SceneAnimation
