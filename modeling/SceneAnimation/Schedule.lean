import SceneAnimation.Scene
/-!
# Schedules: which nodes run when

A schedule holds the nodes that still have to run in this frame, and those that run in the next.  A node may be asked
for many times and is scheduled for the next frame once.
-/
namespace SceneAnimation

structure Schedule where
  frameTime : Instant := Instant.zero
  /-- How many frames have been started. -/
  frameIndex : Nat := 0
  /-- Nodes that have not run in this frame yet. -/
  current : List NodeId := []
  /-- Nodes that run in the next frame. -/
  next : List NodeId := []
  /-- The set of nodes already scheduled for the next frame. -/
  scheduled : List NodeId := []
deriving Inhabited, DecidableEq

namespace Schedule

/-- Schedules `n` for the next frame, unless it is already scheduled. -/
def add (s : Schedule) (n : NodeId) : Schedule :=
  if n ∈ s.scheduled then s else { s with next := s.next ++ [n], scheduled := n :: s.scheduled }

/-- Starts a frame at `t`: the nodes scheduled for it follow those left over. -/
def begin (s : Schedule) (t : Instant) : Schedule where
  frameTime := t
  frameIndex := s.frameIndex + 1
  current := s.current ++ s.next
  next := []
  scheduled := []

/-- Takes `n` off the nodes that have not run yet. -/
def visit (s : Schedule) (n : NodeId) : Schedule := { s with current := s.current.filter (· ≠ n) }

/-- Takes all nodes that have not run yet. -/
def takeCurrent (s : Schedule) : List NodeId × Schedule := (s.current, { s with current := [] })

/-- Takes all nodes. -/
def takeAll (s : Schedule) : List NodeId × Schedule :=
  (s.current ++ s.next, { s with current := [], next := [], scheduled := [] })

def isActive (s : Schedule) : Bool := !s.current.isEmpty || !s.next.isEmpty

@[simp] theorem current_add (s : Schedule) (n : NodeId) : (s.add n).current = s.current := by
  unfold add
  split <;> rfl

@[simp] theorem frameTime_add (s : Schedule) (n : NodeId) : (s.add n).frameTime = s.frameTime := by
  unfold add
  split <;> rfl

/-- Scheduling a node schedules no other. -/
theorem mem_next_of_add {s : Schedule} {n m : NodeId} (h : m ∈ (s.add n).next) : m ∈ s.next ∨ m = n := by
  unfold add at h
  split at h
  · exact .inl h
  · exact (List.mem_append.1 h).imp_right List.mem_singleton.1

@[simp] theorem mem_current_visit (s : Schedule) (n m : NodeId) :
    m ∈ (s.visit n).current ↔ m ∈ s.current ∧ m ≠ n := by
  simp [visit]

end Schedule

end SceneAnimation
