import SceneAnimation.Proofs.Threads.Calls
import SceneAnimation.Proofs.Threads.Jobs
/-!
# Threads: the owner's code and the render thread, step by step

The render thread works through jobs, and the owner's thread through the errands of a poll.  Between any two of their
steps, and inside a listener, the owner's code may make any call.  A schedule is a list of steps in the order in which
they happen; a step that is not possible does nothing, so every list of steps is a schedule (`Threads.run`).
-/
namespace SceneAnimation

section Trails

variable {σ ι α β : Type} {step : σ → ι → σ}

/-- What `f` tells of the turns of a run, in order. -/
def trail (step : σ → ι → σ) (f : σ → ι → List α) : σ → List ι → List α
  | _, [] => []
  | s, x :: xs => f s x ++ trail step f (step s x) xs

theorem trail_append (f : σ → ι → List α) :
    ∀ (s : σ) (xs ys : List ι), trail step f s (xs ++ ys) = trail step f s xs ++ trail step f (xs.foldl step s) ys
  | _, [], _ => rfl
  | s, x :: xs, ys => by
    rw [List.cons_append, trail, trail, trail_append f (step s x) xs ys, List.append_assoc]
    rfl

/-- **What one turn keeps of the state and of two accounts of the turns so far, a whole run keeps.** -/
theorem foldl_keeps_trail {f : σ → ι → List α} {g : σ → ι → List β} {P : List α → List β → σ → Prop}
    (h : ∀ l m s x, P l m s → P (l ++ f s x) (m ++ g s x) (step s x)) :
    ∀ (xs : List ι) (l : List α) (m : List β) (s : σ), P l m s →
      P (l ++ trail step f s xs) (m ++ trail step g s xs) (xs.foldl step s)
  | [], l, m, s, hs => by rw [trail, trail, List.append_nil, List.append_nil]; exact hs
  | x :: xs, l, m, s, hs => by
    rw [trail, trail, ← List.append_assoc, ← List.append_assoc]
    exact foldl_keeps_trail h xs _ _ _ (h l m s x hs)

end Trails

/-- What is left to do of a poll. -/
inductive Errand where
  | tell (c : Completion)
  /-- At most `n` deliveries are taken out of mailbox `m` and run. -/
  | receive (m : MailboxId) (n : Nat)
  /-- All deliveries are run that wait in `m` by then. -/
  | poll (m : MailboxId)
  /-- A first delivery is taken out of `m` and run, and all others after it. -/
  | wait (m : MailboxId)

/-- The owner's thread and the render thread, and the world that they share. -/
structure Threads (κ : Type) where
  /-- The root whose graph the pipeline walks. -/
  root : RootId
  kind : DriverKind
  clock : ClockId
  state : RenderState κ
  /-- What the render thread has still to do of its task, the first job first. -/
  jobs : List Job := []
  /-- What the owner's thread has still to do of a poll. -/
  errands : List Errand := []
  /-- Nodes that got their first animator, and that the owner's code has not registered yet. -/
  due : List NodeId := []

inductive Step (κ : Type) where
  | call (c : Call κ)
  /-- The owner's thread begins to poll its mailbox. -/
  | poll
  /-- The owner's thread waits for a first delivery, and then polls. -/
  | waitAndPoll
  /-- The owner's thread goes on with its poll. -/
  | errand
  /-- The render thread, done with its last task, takes up the next. -/
  | start (task : Task)
  | job

namespace Errand

variable {κ : Type}

/-- What a delivery leaves to be done before `rest`.  A report ends the poll. -/
def ofDelivery (rest : List Errand) : Delivery → List Errand
  | .completions batch => batch.map .tell ++ rest
  | .report _ => []

/-- What an errand leaves to be done, with `rest` after it, and the world after it. -/
def perform (e : Errand) (rest : List Errand) (w : World κ) : List Errand × World κ :=
  match e with
  | .tell _ | .receive _ 0 => (rest, w)
  | .receive m (n + 1) =>
    match w.receive? m with
    | none => (rest, w)
    | some (d, w) => (ofDelivery (.receive m n :: rest) d, w)
  | .poll m => (.receive m (w.mailbox m).queue.length :: rest, w)
  | .wait m =>
    match w.receive? m with
    | none => (rest, w)
    | some (d, w) => (ofDelivery (.poll m :: rest) d, w)

end Errand

namespace Threads

variable {κ : Type}

def world (t : Threads κ) : World κ := t.state.world

def driver (t : Threads κ) : Driver := t.state.driver

def scene (t : Threads κ) : Scene := t.state.world.scene

def inWorld (t : Threads κ) (w : World κ) : Threads κ := { t with state := { t.state with world := w } }

/-- Nothing made yet, both threads idle, and a pipeline that waits for its root and its clock to be made. -/
def blank (root : RootId) (kind : DriverKind) (clock : ClockId) (client : κ) : Threads κ :=
  { root, kind, clock,
    state := { driver := kind.create clock, pass := { frameTime := Instant.zero }, world := { client } } }

/-- Whether both threads are between two operations. -/
def idle (t : Threads κ) : Bool := t.jobs.isEmpty && t.errands.isEmpty

/-- The root to whose owner the pipeline's completions go, if they are deferred. -/
def target? (t : Threads κ) : Option RootId :=
  match t.kind with
  | .inline => none
  | .deferred r => some r

/-- Whether what the driver needs has been made: its clock, and the root to whose owner its completions go. -/
def equipped (t : Threads κ) : Bool :=
  decide (t.clock ∈ t.world.clocks) &&
    match t.target? with
    | none => true
    | some r => decide (r ∈ t.world.roots)

/-- Whether what the pipeline needs has been made: what its driver needs, and its root. -/
def ready (t : Threads κ) : Bool := t.equipped && decide (t.root ∈ t.world.roots)

/-- The registrations that are due after a call.  The first animator of a node makes one due at the pipeline's root,
and a registration there settles it. -/
def dueAfter (t : Threads κ) : Call κ → List NodeId
  | .attach n a => if (t.world.attach n a).1 then t.due ++ [n] else t.due
  | .register r n => if some r = t.target? then t.due.erase n else t.due
  | _ => t.due

def make (t : Threads κ) (c : Call κ) : Threads κ :=
  if c.named t.world then { t.inWorld (c.effect t.world) with due := t.dueAfter c } else t

/-- The owner's thread begins a poll of its mailbox, unless it is in the middle of one. -/
def beginPoll (t : Threads κ) (e : MailboxId → Errand) : Threads κ :=
  match t.errands, t.world.ownerMailbox with
  | [], some m => { t with errands := [e m] }
  | _, _ => t

def doErrand (t : Threads κ) : Threads κ :=
  match t.errands with
  | [] => t
  | e :: rest => { t.inWorld (e.perform rest t.world).2 with errands := (e.perform rest t.world).1 }

def doJob (t : Threads κ) : Threads κ :=
  match t.jobs with
  | [] => t
  | j :: rest => { t with jobs := (j.perform t.state).1 ++ rest, state := (j.perform t.state).2 }

/-- The render thread takes up a task, if it has nothing else to do. -/
def begin (t : Threads κ) (task : Task) : Threads κ :=
  if t.jobs.isEmpty && t.ready then { t with jobs := task.jobs t.root t.kind t.clock } else t

def step (t : Threads κ) : Step κ → Threads κ
  | .call c => t.make c
  | .poll => t.beginPoll .poll
  | .waitAndPoll => t.beginPoll .wait
  | .errand => t.doErrand
  | .start task => t.begin task
  | .job => t.doJob

def run (t : Threads κ) (xs : List (Step κ)) : Threads κ := xs.foldl step t

/-- What `f` tells of the steps of a schedule, in order. -/
def along {α : Type} (f : Threads κ → Step κ → List α) : Threads κ → List (Step κ) → List α
  | _, [] => []
  | t, x :: xs => f t x ++ along f (t.step x) xs

@[simp] theorem run_nil (t : Threads κ) : t.run [] = t := rfl

@[simp] theorem run_cons (t : Threads κ) (x : Step κ) (xs : List (Step κ)) : t.run (x :: xs) = (t.step x).run xs := rfl

theorem run_append (t : Threads κ) (xs ys : List (Step κ)) : t.run (xs ++ ys) = (t.run xs).run ys :=
  List.foldl_append

theorem along_eq_trail {α : Type} (f : Threads κ → Step κ → List α) :
    ∀ (t : Threads κ) (xs : List (Step κ)), along f t xs = trail step f t xs
  | _, [] => rfl
  | t, x :: xs => by rw [along, trail, along_eq_trail f (t.step x) xs]

theorem along_append {α : Type} (f : Threads κ → Step κ → List α) (t : Threads κ) (xs ys : List (Step κ)) :
    along f t (xs ++ ys) = along f t xs ++ along f (t.run xs) ys := by
  rw [along_eq_trail, along_eq_trail, along_eq_trail, trail_append]
  rfl

theorem mem_along {α : Type} {f : Threads κ → Step κ → List α} {c : α} : ∀ {xs : List (Step κ)} {t : Threads κ},
    c ∈ along f t xs ↔ ∃ ys x zs, xs = ys ++ x :: zs ∧ c ∈ f (t.run ys) x
  | [], t => by
    constructor
    · exact fun h => nomatch h
    · rintro ⟨ys, x, zs, h, -⟩
      cases ys <;> cases h
  | x :: xs, t => by
    rw [along, List.mem_append, mem_along]
    constructor
    · rintro (h | ⟨ys, y, zs, rfl, h⟩)
      · exact ⟨[], x, xs, rfl, h⟩
      · exact ⟨x :: ys, y, zs, rfl, h⟩
    · rintro ⟨ys, y, zs, he, h⟩
      cases ys with
      | nil =>
        cases he
        exact .inl h
      | cons _ ys =>
        cases he
        exact .inr ⟨ys, y, zs, rfl, h⟩

/-- **What one step keeps, a whole run keeps.** -/
theorem run_keeps {P : Threads κ → Prop} (h : ∀ t x, P t → P (t.step x)) :
    ∀ (xs : List (Step κ)) (t : Threads κ), P t → P (t.run xs)
  | [], _, ht => ht
  | x :: xs, t, ht => run_keeps h xs (t.step x) (h t x ht)

/-- **What one step keeps of the threads and of two accounts of the steps so far, a whole run keeps.** -/
theorem run_keeps_along {α β : Type} {f : Threads κ → Step κ → List α} {g : Threads κ → Step κ → List β}
    {P : List α → List β → Threads κ → Prop} (h : ∀ l m t x, P l m t → P (l ++ f t x) (m ++ g t x) (t.step x)) :
    ∀ (xs : List (Step κ)) (l : List α) (m : List β) (t : Threads κ), P l m t →
      P (l ++ along f t xs) (m ++ along g t xs) (t.run xs) := fun xs l m t ht => by
  rw [along_eq_trail, along_eq_trail]
  exact foldl_keeps_trail h xs l m t ht

/-- **What a step can be.**  To show `P` of every step and the threads after it, show it for each kind of step that is
possible, and for steps that do nothing. -/
theorem step_rule {P : Step κ → Threads κ → Prop} {t : Threads κ}
    (stay : ∀ x, (x = .errand → t.errands = []) → (x = .job → t.jobs = []) → P x t)
    (call : ∀ c, c.named t.world = true → P (.call c) { t.inWorld (c.effect t.world) with due := t.dueAfter c })
    (poll : ∀ m, t.errands = [] → P .poll { t with errands := [.poll m] })
    (wait : ∀ m, t.errands = [] → P .waitAndPoll { t with errands := [.wait m] })
    (errand : ∀ e rest, t.errands = e :: rest →
      P .errand { t.inWorld (e.perform rest t.world).2 with errands := (e.perform rest t.world).1 })
    (start : ∀ task : Task, t.jobs = [] → t.ready = true →
      P (.start task) { t with jobs := task.jobs t.root t.kind t.clock })
    (job : ∀ j rest, t.jobs = j :: rest →
      P .job { t with jobs := (j.perform t.state).1 ++ rest, state := (j.perform t.state).2 }) :
    ∀ x, P x (t.step x)
  | .call c => by
    simp only [step, make]
    split
    · exact call c (by assumption)
    · exact stay _ (by simp) (by simp)
  | .poll => by
    simp only [step, beginPoll]
    split
    · exact poll _ (by assumption)
    · exact stay _ (by simp) (by simp)
  | .waitAndPoll => by
    simp only [step, beginPoll]
    split
    · exact wait _ (by assumption)
    · exact stay _ (by simp) (by simp)
  | .errand => by
    simp only [step, doErrand]
    split
    · exact stay _ (fun _ => by assumption) (by simp)
    · exact errand _ _ (by assumption)
  | .start task => by
    simp only [step, begin]
    split
    · rename_i h
      rw [Bool.and_eq_true, List.isEmpty_iff] at h
      exact start task h.1 h.2
    · exact stay _ (by simp) (by simp)
  | .job => by
    simp only [step, doJob]
    split
    · exact stay _ (by simp) fun _ => by assumption
    · exact job _ _ (by assumption)

/-- The shortest way to an animation: a mailbox, a root, a clock and a node are made, and an animator with a listener is
attached to the node and the node registered. -/
def opening (duration : Span) : List (Step Unit) :=
  [.call .openMailbox, .call (.addRoot ⟨0⟩), .call (.addClock ⟨16000000⟩), .call (.addNode "card"),
    .call (.addAnimator { property := .translationX, finalValue := 10, duration, listener := some ⟨0⟩ }),
    .call (.attach ⟨2⟩ ⟨1⟩), .call (.register ⟨0⟩ ⟨2⟩)]

/-- One task of the render thread, with `n` jobs. -/
def work (task : Task) (n : Nat) : List (Step Unit) := .start task :: List.replicate n .job

end Threads

end SceneAnimation
