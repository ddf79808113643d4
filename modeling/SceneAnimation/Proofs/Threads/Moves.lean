import SceneAnimation.Proofs.Threads.Known
/-!
# Moves: drivers by hand, and more than one driver

A driver need not belong to a pipeline: its client may schedule nodes, start frames and run nodes by hand, in any order.
Nor is it alone: other drivers, with clocks of their own, may run nodes of the same scene at any time.  A move is a step
of the threads, a request to the driver, or what another driver does to a node.
-/
namespace SceneAnimation

/-- What a driver can do to a node. -/
inductive Deed where
  /-- The animators of node `n` are run for a frame at `now`. -/
  | run (n : NodeId) (now : Instant)
  /-- The animators of node `n` are ended. -/
  | finish (n : NodeId)
  | discard (n : NodeId)
deriving DecidableEq

/-- What the client of a driver asks of it. -/
inductive Request where
  | add (n : NodeId)
  | drain (r : RootId)
  | startFrame
  | prepareNode (n : NodeId)
  | prepareRoot (r : RootId)
  | animateNode (n : NodeId)
  | runRemaining
  | reportFinished (c : Completion)
  | destroy

/-- A step of the threads, a request to the driver, or a deed of another driver. -/
inductive Move (κ : Type) where
  | step (x : Step κ)
  | ask (q : Request)
  | elsewhere (d : Deed)

namespace Deed

def node : Deed → NodeId
  | .run n _ | .finish n | .discard n => n

def effect (s : Scene) : Deed → Scene
  | .run n now => (s.animate n now).2
  | .finish n => (s.finishAll n).2
  | .discard n => s.discard n

end Deed

/-- What a job does to a node. -/
def Job.deed? {κ : Type} (s : RenderState κ) : Job → Option Deed
  | .run n _ => some (.run n s.driver.frameTime)
  | .finish n => some (.finish n)
  | .discard n => some (.discard n)
  | _ => none

/-- **A job changes the scene by its deed only.** -/
theorem Job.scene_deed {κ : Type} (j : Job) (s : RenderState κ) :
    (j.perform s).2.world.scene = ((j.deed? s).elim s.world.scene (·.effect s.world.scene)) := by
  rw [Job.scene_perform]
  cases j <;> rfl

namespace Request

variable {κ : Type}

def named (w : World κ) : Request → Bool
  | .add n | .animateNode n => decide (n ∈ w.scene.nodes)
  | .drain r | .prepareRoot r => decide (r ∈ w.roots)
  | _ => true

def jobs (w : World κ) : Request → List Job
  | .add n => [.schedule n]
  | .drain r => [.takePending r]
  | .startFrame => [.startFrame]
  | .prepareNode n => [.prepare (RenderState.walkReserve + w.scene.nodes.size) n]
  | .prepareRoot r => [.openPass r]
  | .animateNode n => [.visit n]
  | .runRemaining => [.takeLeftovers, .noteActive, .post]
  | .reportFinished c => [.report [c]]
  | .destroy => [.takeAll]

theorem known_of_jobs {s : RenderState κ} {q : Request} (hq : q.named s.world = true) :
    ∀ j ∈ q.jobs s.world, j.Known s := by
  intro j hj
  cases q with
  | add n | animateNode n =>
    rw [List.mem_singleton.1 hj]
    exact (of_decide_eq_true hq : n ∈ s.world.scene.nodes)
  | drain r | prepareRoot r =>
    rw [List.mem_singleton.1 hj]
    exact (of_decide_eq_true hq : r ∈ s.world.roots)
  | runRemaining =>
    simp only [jobs, List.mem_cons, List.not_mem_nil, or_false] at hj
    rcases hj with rfl | rfl | rfl <;> trivial
  | startFrame | prepareNode n | reportFinished c | destroy =>
    rw [List.mem_singleton.1 hj]
    trivial

end Request

namespace Threads

variable {κ : Type} {t : Threads κ}

/-- The driver takes up a request, if it has nothing else to do. -/
def ask (t : Threads κ) (q : Request) : Threads κ :=
  if t.jobs.isEmpty && t.equipped && q.named t.world then { t with jobs := q.jobs t.world } else t

/-- Another driver does something to a node. -/
def undergo (t : Threads κ) (d : Deed) : Threads κ :=
  if d.node ∈ t.scene.nodes then t.inWorld (t.world.mapScene fun s => d.effect s) else t

def move (t : Threads κ) : Move κ → Threads κ
  | .step x => t.step x
  | .ask q => t.ask q
  | .elsewhere d => t.undergo d

def moves (t : Threads κ) (xs : List (Move κ)) : Threads κ := xs.foldl move t

@[simp] theorem moves_cons (t : Threads κ) (x : Move κ) (xs : List (Move κ)) :
    t.moves (x :: xs) = (t.move x).moves xs := rfl

theorem moves_append (t : Threads κ) (xs ys : List (Move κ)) : t.moves (xs ++ ys) = (t.moves xs).moves ys :=
  List.foldl_append

theorem move_job {j : Job} {rest : List Job} (hj : t.jobs = j :: rest) : t.move (.step .job) =
    { t with jobs := (j.perform t.state).1 ++ rest, state := (j.perform t.state).2 } := by
  rw [move, step, doJob, hj]

theorem jobs_moves_ask {xs : List (Move κ)} {q : Request}
    (h : ((t.moves xs).jobs.isEmpty && (t.moves xs).equipped && q.named (t.moves xs).world) = true) :
    (t.moves (xs ++ [.ask q])).jobs = q.jobs (t.moves xs).world := by
  rw [moves_append, moves_cons, move, ask, if_pos h]
  rfl

theorem moves_map : ∀ (xs : List (Step κ)) (t : Threads κ), t.moves (xs.map .step) = t.run xs
  | [], _ => rfl
  | x :: xs, t => moves_map xs (t.step x)

def isJob : Move κ → Bool
  | .step .job => true
  | _ => false

theorem eq_of_isJob {x : Move κ} (h : isJob x = true) : x = .step .job := by
  unfold isJob at h
  split at h
  · rfl
  · cases h

/-- **Only a step of the render thread changes what it has to do and what it holds**, once it is at work. -/
theorem idle_move (hj : t.jobs ≠ []) {x : Move κ} (hx : isJob x = false) :
    (t.move x).jobs = t.jobs ∧ (t.move x).driver = t.driver ∧ (t.move x).state.pass = t.state.pass := by
  have hne : t.jobs.isEmpty = false := by simpa using hj
  cases x with
  | ask q => simp [move, ask, hne]
  | elsewhere d =>
    simp only [move, undergo]
    split <;> exact ⟨rfl, rfl, rfl⟩
  | step x =>
    cases x with
    | job => cases hx
    | call c =>
      simp only [move, step, make]
      split <;> exact ⟨rfl, rfl, rfl⟩
    | errand =>
      simp only [move, step, doErrand]
      split <;> exact ⟨rfl, rfl, rfl⟩
    | start task => simp [move, step, begin, hne]
    | poll | waitAndPoll =>
      simp only [move, step, beginPoll]
      split <;> exact ⟨rfl, rfl, rfl⟩

def deed? (t : Threads κ) : Move κ → Option Deed
  | .step .job => t.jobs.head?.bind (·.deed? t.state)
  | .elsewhere d => if d.node ∈ t.scene.nodes then some d else none
  | _ => none

/-- **A move changes the scene by a deed or by a call**, or not at all. -/
theorem scene_move (t : Threads κ) (x : Move κ) :
    (∃ d, t.deed? x = some d ∧ (t.move x).scene = d.effect t.scene) ∨
    t.deed? x = none ∧
      ((∃ c, x = .step (.call c) ∧ c.named t.world = true ∧ (t.move x).scene = (c.effect t.world).scene) ∨
        (∀ c, x = .step (.call c) → c.named t.world = false) ∧ (t.move x).scene = t.scene) := by
  cases x with
  | elsewhere d =>
    simp only [deed?, move, undergo]
    split
    · exact .inl ⟨d, rfl, rfl⟩
    · exact .inr ⟨rfl, .inr ⟨by simp, rfl⟩⟩
  | ask q =>
    refine .inr ⟨rfl, .inr ⟨by simp, ?_⟩⟩
    simp only [move, ask]
    split <;> rfl
  | step x =>
    cases x with
    | job =>
      simp only [deed?, move, step, doJob]
      split
      · exact .inr ⟨by simp [*], .inr ⟨by simp, rfl⟩⟩
      · rename_i j rest hj
        rw [hj, List.head?_cons, Option.bind_some]
        show (∃ d, j.deed? t.state = some d ∧ (j.perform t.state).2.world.scene = _) ∨
          j.deed? t.state = none ∧ (_ ∨ _ ∧ (j.perform t.state).2.world.scene = _)
        rw [Job.scene_deed]
        cases j.deed? t.state with
        | some d => exact .inl ⟨d, rfl, rfl⟩
        | none => exact .inr ⟨rfl, .inr ⟨by simp, rfl⟩⟩
    | call c =>
      refine .inr ⟨rfl, ?_⟩
      simp only [move, step, make]
      split
      · exact .inl ⟨c, rfl, by assumption, rfl⟩
      · refine .inr ⟨fun c' hc => ?_, rfl⟩
        cases hc
        exact Bool.not_eq_true _ ▸ ‹_›
    | errand =>
      refine .inr ⟨rfl, .inr ⟨by simp, ?_⟩⟩
      simp only [move, step, doErrand]
      split
      · rfl
      · exact Errand.scene_perform ..
    | start task =>
      refine .inr ⟨rfl, .inr ⟨by simp, ?_⟩⟩
      simp only [move, step, begin]
      split <;> rfl
    | poll =>
      refine .inr ⟨rfl, .inr ⟨by simp, ?_⟩⟩
      simp only [move, step, beginPoll]
      split <;> rfl
    | waitAndPoll =>
      refine .inr ⟨rfl, .inr ⟨by simp, ?_⟩⟩
      simp only [move, step, beginPoll]
      split <;> rfl

theorem Numbered.undergo (h : t.Numbered) (d : Deed) : (t.undergo d).Numbered := by
  unfold Threads.undergo
  split
  · rename_i hd
    refine h.inWorld ?_
    cases d with
    | run n now => exact h.world.store hd (Progress.kept_sublist ..)
    | finish n => exact h.world.store hd (List.nil_sublist _)
    | discard n =>
      have hempty : ∀ a ∈ ([] : List AnimatorId), a ∈ t.world.scene.animators := fun _ ha => absurd ha List.not_mem_nil
      exact h.world.updateNode (f := fun x => { x with animators := [] }) hd hempty
  · exact h

/-- **Every move keeps the threads to what has been made.** -/
theorem Numbered.move (h : t.Numbered) : ∀ x : Move κ, (t.move x).Numbered
  | .step x => h.step x
  | .elsewhere d => h.undergo d
  | .ask q => by
    simp only [Threads.move, ask]
    split
    · rename_i hq
      simp only [Bool.and_eq_true] at hq
      exact ⟨h.known, h.root?, fun _ => hq.1.2, Request.known_of_jobs hq.2⟩
    · exact h

theorem Numbered.moves (h : t.Numbered) (xs : List (Move κ)) : (t.moves xs).Numbered := by
  induction xs generalizing t with
  | nil => exact h
  | cons x xs ih => exact ih (h.move x)

end Threads

end SceneAnimation
