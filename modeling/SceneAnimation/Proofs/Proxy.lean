import SceneAnimation.Proofs.Registration
import SceneAnimation.Proofs.Threads.Whole
/-!
# Proxies: the owner posts tasks, and the render thread runs them

The owner's thread posts tasks to the render thread, and waits for some of them to be answered.  While it does not wait
it may go on with anything, polls and calls of its own code included, between any two jobs of the render thread.  A node
is registered without a task, past all that wait.  This is the step relation: what each thread can do next, what is
posted and executed (`Proxy.queue_run`), and what holds whatever they do (`Proxy.Sound`).
-/
namespace SceneAnimation

/-- What listeners do when they are told: they make calls. -/
abbrev Listening (κ : Type) := ListenerId → AnimatorId → World κ → List (Call κ)

def Listening.react {κ : Type} (listen : Listening κ) : Reaction κ := fun l a w => w.calls (listen l a w)

namespace Task

/-- Whether the owner waits until the task has been run. -/
def awaited : Task → Bool
  | .draw _ | .fence | .shutdown => true
  | _ => false

/-- Whether the task starts a frame. -/
def isFrame : Task → Bool
  | .draw _ | .tick _ => true
  | _ => false

/-- What the task is answered with, when it ends in the state `s`. -/
def answer {κ : Type} (s : RenderState κ) : Task → Option Outcome
  | .draw _ => some s.outcome
  | _ => none

end Task

/-- Whether a step is one of the owner's thread. -/
def Step.isOwner {κ : Type} : Step κ → Bool
  | .start _ | .job => false
  | _ => true

/-- What the render thread goes on with after the jobs done so far: the next, with what a listener does who is told by
it. -/
def Threads.workTurn {κ : Type} (listen : Listening κ) (t : Threads κ) : List (Step κ) :=
  match t.jobs with
  | [] => []
  | .tell c :: _ => .job :: (listen c.listener c.animator t.world).map .call
  | _ :: _ => [.job]

/-- What the render thread is at. -/
inductive Loop where
  /-- It waits for a task. -/
  | waiting
  | busy (task : Task)
  | stopped
deriving DecidableEq

/-- What the owner's thread is at, as a caller of the render thread. -/
inductive Caller where
  | free
  | waits (task : Task)
  /-- The answer is there, and the call that waited for it has not returned. -/
  | told (task : Task) (answer : Option Outcome)
deriving DecidableEq

/-- The owner's thread and the render thread, with the tasks between them. -/
structure Proxy (κ : Type) where
  threads : Threads κ
  name : String
  traced : Bool := false
  tasks : List Task := []
  running : Bool := true
  loop : Loop := .waiting
  owner : Caller := .free

namespace Proxy

inductive Step (κ : Type) where
  /-- The owner's own code makes a call, or goes on with a poll. -/
  | own (x : SceneAnimation.Step κ)
  /-- The owner posts a task.  To shut down is one of them, after which it posts no more. -/
  | post (task : Task)
  /-- The owner's call returns, which waited for an answer. -/
  | resume
  /-- The render thread takes a task, or does a job of it, or answers it. -/
  | work

variable {κ : Type}

def pipeline (p : Proxy κ) : Pipeline where
  root := p.threads.root
  kind := p.threads.kind
  clock := p.threads.clock
  driver := p.threads.driver
  traced := p.traced

/-- The render thread, as the owner's calls see it. -/
def thread (p : Proxy κ) : RenderThread :=
  { name := p.name, pipeline := p.pipeline, tasks := p.tasks, running := p.running }

/-- A render thread that waits for its next task, and a free owner. -/
def ofThread (r : RenderThread) (w : World κ) : Proxy κ where
  threads :=
    { root := r.pipeline.root, kind := r.pipeline.kind, clock := r.pipeline.clock,
      state := { driver := r.pipeline.driver, pass := { frameTime := Instant.zero }, world := w } }
  name := r.name
  traced := r.pipeline.traced
  tasks := r.tasks
  running := r.running

def post (p : Proxy κ) (task : Task) : Proxy κ :=
  match p.owner, p.thread.post task with
  | .free, .ok r =>
    { p with
      tasks := r.tasks
      running := decide (task ≠ .shutdown)
      owner := if task.awaited then .waits task else .free }
  | _, _ => p

def resume (p : Proxy κ) : Proxy κ :=
  match p.owner with
  | .told _ _ => { p with owner := .free }
  | _ => p

/-- The render thread is done with `task`. -/
def finish (p : Proxy κ) (task : Task) : Proxy κ :=
  { p with
    traced := match task with
      | .trace on => on
      | _ => p.traced
    loop := if task = .shutdown then .stopped else .waiting
    owner := if task.awaited then .told task (task.answer p.threads.state) else p.owner }

def work (listen : Listening κ) (p : Proxy κ) : Proxy κ :=
  match p.loop, p.tasks with
  | .waiting, task :: rest =>
    { p with threads := p.threads.step (.start task), tasks := rest, loop := .busy task }
  | .busy task, _ =>
    if p.threads.jobs.isEmpty then p.finish task
    else { p with threads := p.threads.run (p.threads.workTurn listen) }
  | _, _ => p

def step (listen : Listening κ) (p : Proxy κ) : Step κ → Proxy κ
  | .own x => if p.owner = .free ∧ x.isOwner = true then { p with threads := p.threads.step x } else p
  | .post task => p.post task
  | .resume => p.resume
  | .work => p.work listen

def run (listen : Listening κ) (p : Proxy κ) (xs : List (Step κ)) : Proxy κ := xs.foldl (step listen) p

/-- The task under way and those that wait, the first one first. -/
def left (p : Proxy κ) : List Task :=
  match p.loop with
  | .busy task => task :: p.tasks
  | _ => p.tasks

/-- What a step posts. -/
def posts (p : Proxy κ) : Step κ → List Task
  | .post task => if p.owner = .free ∧ p.running = true then [task] else []
  | _ => []

/-- What a step brings to an end. -/
def executes (p : Proxy κ) : Step κ → List Task
  | .work =>
    match p.loop with
    | .busy task => if p.threads.jobs.isEmpty then [task] else []
    | _ => []
  | _ => []

/-- What a step is to the threads. -/
def turns (listen : Listening κ) (p : Proxy κ) : Step κ → List (SceneAnimation.Step κ)
  | .own x => if p.owner = .free ∧ x.isOwner = true then [x] else []
  | .work =>
    match p.loop, p.tasks with
    | .waiting, task :: _ => [.start task]
    | .busy _, _ => p.threads.workTurn listen
    | _, _ => []
  | _ => []

/-- The tasks that are posted in a run, in order. -/
def posted (listen : Listening κ) (p : Proxy κ) (xs : List (Step κ)) : List Task := trail (step listen) posts p xs

/-- The tasks that the render thread is done with, in order. -/
def executed (listen : Listening κ) (p : Proxy κ) (xs : List (Step κ)) : List Task := trail (step listen) executes p xs

/-- What the threads do in a run. -/
def schedule (listen : Listening κ) (p : Proxy κ) (xs : List (Step κ)) : List (SceneAnimation.Step κ) :=
  trail (step listen) (turns listen) p xs

variable (listen : Listening κ) {p : Proxy κ}

@[simp] theorem run_nil : p.run listen [] = p := rfl

@[simp] theorem run_cons (x : Step κ) (xs : List (Step κ)) : p.run listen (x :: xs) = (p.step listen x).run listen xs :=
  rfl

theorem run_append (xs ys : List (Step κ)) : p.run listen (xs ++ ys) = (p.run listen xs).run listen ys :=
  List.foldl_append

theorem posted_append (xs ys : List (Step κ)) :
    p.posted listen (xs ++ ys) = p.posted listen xs ++ (p.run listen xs).posted listen ys :=
  trail_append ..

theorem executed_append (xs ys : List (Step κ)) :
    p.executed listen (xs ++ ys) = p.executed listen xs ++ (p.run listen xs).executed listen ys :=
  trail_append ..

theorem schedule_append (xs ys : List (Step κ)) :
    p.schedule listen (xs ++ ys) = p.schedule listen xs ++ (p.run listen xs).schedule listen ys :=
  trail_append ..

theorem executed_concat (xs : List (Step κ)) (x : Step κ) :
    p.executed listen (xs ++ [x]) = p.executed listen xs ++ (p.run listen xs).executes x := by
  rw [executed_append]
  exact congrArg (p.executed listen xs ++ ·) (List.append_nil _)

/-! ## One step -/

section Work

variable {task : Task} {rest : List Task}

theorem left_of_waiting (hl : p.loop = .waiting) : p.left = p.tasks := by simp only [left, hl]

theorem left_of_busy (hl : p.loop = .busy task) : p.left = task :: p.tasks := by simp only [left, hl]

theorem left_finish (p : Proxy κ) (task : Task) : (p.finish task).left = p.tasks := by
  simp only [left, finish]
  split
  · rename_i h
    split at h <;> cases h
  · rfl

theorem executes_of_waiting (hl : p.loop = .waiting) : p.executes .work = [] := by simp only [executes, hl]

theorem executes_of_jobs (hj : p.threads.jobs ≠ []) : p.executes .work = [] := by
  simp only [executes]
  split
  · exact if_neg fun h => hj (List.isEmpty_iff.1 h)
  · rfl

theorem executes_finish (hl : p.loop = .busy task) (hj : p.threads.jobs = []) : p.executes .work = [task] := by
  simp only [executes, hl, hj]
  rfl

theorem work_take (hl : p.loop = .waiting) (ht : p.tasks = task :: rest) : p.work listen =
    { p with threads := p.threads.step (.start task), tasks := rest, loop := .busy task } := by
  simp only [work, hl, ht]

theorem work_job (hl : p.loop = .busy task) (hj : p.threads.jobs ≠ []) : p.work listen =
    { p with threads := p.threads.run (p.threads.workTurn listen) } := by
  simp only [work, hl]
  exact if_neg fun h => hj (List.isEmpty_iff.1 h)

theorem work_finish (hl : p.loop = .busy task) (hj : p.threads.jobs = []) : p.work listen = p.finish task := by
  simp only [work, hl, hj]
  rfl

end Work

theorem post_ok (hr : p.running = true) (task : Task) :
    p.thread.post task = .ok { p.thread with tasks := p.tasks ++ [task] } :=
  if_pos hr

/-- **After the owner has shut the render thread down, every task is refused.** -/
theorem post_refused (hr : p.running = false) (task : Task) : p.thread.post task = .error .renderThreadGone :=
  if_neg fun h : p.running = true => by rw [hr] at h; cases h

/-- **What a step can be.**  To show `P` of every step and the proxy after it, show it for each kind of step that is
possible, and for steps that do nothing. -/
theorem step_rule {P : Step κ → Proxy κ → Prop}
    (stay : ∀ x, p.posts x = [] → p.executes x = [] → p.turns listen x = [] → P x p)
    (own : ∀ x : SceneAnimation.Step κ, p.owner = .free → x.isOwner = true →
      P (.own x) { p with threads := p.threads.step x })
    (post : ∀ task, p.owner = .free → p.running = true →
      P (.post task) { p with
        tasks := p.tasks ++ [task]
        running := decide (task ≠ .shutdown)
        owner := if task.awaited then .waits task else .free })
    (resume : ∀ task answer, p.owner = .told task answer → P .resume { p with owner := .free })
    (take : ∀ task rest, p.loop = .waiting → p.tasks = task :: rest →
      P .work { p with threads := p.threads.step (.start task), tasks := rest, loop := .busy task })
    (job : ∀ task, p.loop = .busy task → p.threads.jobs ≠ [] →
      P .work { p with threads := p.threads.run (p.threads.workTurn listen) })
    (finish : ∀ task, p.loop = .busy task → p.threads.jobs = [] → P .work (p.finish task)) :
    ∀ x, P x (p.step listen x)
  | .own x => by
    simp only [step]
    split
    · rename_i h
      exact own x h.1 h.2
    · rename_i h
      exact stay _ rfl rfl (if_neg h)
  | .post task => by
    simp only [step, Proxy.post]
    cases hr : p.running with
    | true =>
      rw [post_ok hr]
      split
      · rename_i r hfree hok
        rw [← Except.ok.inj hok]
        exact post task hfree hr
      · rename_i h
        exact stay _ (if_neg fun hboth => h _ hboth.1 rfl) rfl rfl
    | false =>
      rw [post_refused hr]
      have hnone : p.posts (.post task) = [] := if_neg fun hboth => by
        rw [hr] at hboth
        cases hboth.2
      split
      · rename_i h
        cases h
      · exact stay _ hnone rfl rfl
  | .resume => by
    simp only [step, Proxy.resume]
    split
    · exact resume _ _ (by assumption)
    · exact stay _ rfl rfl rfl
  | .work => by
    simp only [step, work]
    split
    · exact take _ _ (by assumption) (by assumption)
    · rename_i task hbusy
      split
      · rename_i hj
        exact finish task hbusy (List.isEmpty_iff.1 hj)
      · rename_i hj
        exact job task hbusy fun h => hj (List.isEmpty_iff.2 h)
    · exact stay _ rfl (by simp only [executes]) (by simp only [turns])

/-! ## The threads below -/

theorem threads_step (x : Step κ) : (p.step listen x).threads = p.threads.run (p.turns listen x) := by
  refine step_rule listen (P := fun x p' => p'.threads = p.threads.run (p.turns listen x)) ?_ ?_ ?_ ?_ ?_ ?_ ?_ x
  · intro x _ _ h
    rw [h]
    rfl
  · intro x hfree hx
    rw [turns, if_pos ⟨hfree, hx⟩]
    rfl
  · exact fun _ _ _ => rfl
  · exact fun _ _ _ => rfl
  · intro task rest hl ht
    simp only [turns, hl, ht]
    rfl
  · intro task hl _
    simp only [turns, hl]
  · intro task hl hj
    simp only [turns, hl, Threads.workTurn, hj]
    rfl

/-- **What the threads do is one of their schedules.** -/
theorem threads_run : ∀ (xs : List (Step κ)) (p : Proxy κ),
    (p.run listen xs).threads = p.threads.run (p.schedule listen xs)
  | [], _ => rfl
  | x :: xs, p => by
    rw [run_cons, threads_run xs, threads_step, schedule, schedule, trail, Threads.run_append]

/-! ## The queue of tasks -/

/-- **What a step does to the queue**: a task is posted at the end, or the first is done with. -/
theorem queue_step (x : Step κ) : p.executes x ++ (p.step listen x).left = p.left ++ p.posts x := by
  refine step_rule listen (P := fun x p' => p.executes x ++ p'.left = p.left ++ p.posts x) ?_ ?_ ?_ ?_ ?_ ?_ ?_ x
  · intro x hp he _
    rw [hp, he, List.append_nil]
    rfl
  · exact fun x _ _ => (List.append_nil _).symm
  · intro task hfree hr
    have hposted : p.posts (.post task) = [task] := if_pos ⟨hfree, hr⟩
    rw [hposted]
    simp only [left, executes]
    cases p.loop <;> rfl
  · exact fun _ _ _ => (List.append_nil _).symm
  · intro task rest hl ht
    rw [executes_of_waiting hl, left_of_waiting hl, ht]
    exact (List.append_nil _).symm
  · intro task hl hj
    rw [executes_of_jobs hj]
    exact (List.append_nil _).symm
  · intro task hl hj
    rw [executes_finish hl hj, left_finish, left_of_busy hl]
    exact (List.append_nil _).symm

/-- **Tasks are executed in the order in which they are posted**, each once: those done with, and those left, are those
left before and those posted since. -/
theorem queue_run (p : Proxy κ) (xs : List (Step κ)) :
    p.executed listen xs ++ (p.run listen xs).left = p.left ++ p.posted listen xs := by
  refine foldl_keeps_trail (P := fun out within q => out ++ q.left = p.left ++ within) ?_ xs [] [] p
    (List.append_nil _).symm
  intro out within q x h
  rw [List.append_assoc, queue_step, ← List.append_assoc, h, List.append_assoc]

/-! ## What holds at any time -/

/-- **Whatever the two threads do**, the owner waits for the last task posted, and no other that is left is waited for;
nothing is left when the owner has been told, or when the render thread has stopped; and that is idle between tasks. -/
structure Sound (p : Proxy κ) : Prop where
  free : p.owner = .free → ∀ task ∈ p.left, task.awaited = false
  waits : ∀ task, p.owner = .waits task → task.awaited = true ∧
    ∃ before, p.left = before ++ [task] ∧ ∀ earlier ∈ before, earlier.awaited = false
  told : ∀ task answer, p.owner = .told task answer → p.left = [] ∧ (task = .shutdown → p.loop = .stopped)
  running : p.running = true → .shutdown ∉ p.left ∧ p.loop ≠ .stopped
  stopped : p.loop = .stopped → p.left = []
  idle : (∀ task, p.loop ≠ .busy task) → p.threads.jobs = []
  ready : p.threads.Numbered ∧ p.threads.ready = true

namespace Sound

variable {task : Task}

/-- Nothing is left when the owner has been told. -/
theorem not_told (h : p.Sound) {rest : List Task} (hleft : p.left = task :: rest) {t : Task} {answer : Option Outcome}
    (ho : p.owner = .told t answer) : False :=
  List.cons_ne_nil task rest (hleft.symm.trans (h.told t answer ho).1)

/-- **A task that is waited for is the last**, when the render thread comes to it. -/
theorem last (h : p.Sound) (hl : p.loop = .busy task) (ha : task.awaited = true) :
    p.owner = .waits task ∧ p.tasks = [] := by
  have hleft : p.left = task :: p.tasks := left_of_busy hl
  cases ho : p.owner with
  | free =>
    have := h.free ho task (hleft ▸ List.mem_cons_self)
    rw [ha] at this
    cases this
  | told t answer => exact (h.not_told hleft ho).elim
  | waits task' =>
    obtain ⟨-, before, hbefore, hnone⟩ := h.waits task' ho
    rw [hleft] at hbefore
    cases before with
    | nil =>
      obtain ⟨rfl, hnil⟩ := List.cons.inj (hbefore : task :: p.tasks = [task'])
      exact ⟨rfl, hnil⟩
    | cons first before =>
      obtain ⟨rfl, -⟩ := List.cons.inj (hbefore : task :: p.tasks = first :: (before ++ [task']))
      have := hnone task List.mem_cons_self
      rw [ha] at this
      cases this

/-- **A task that is taken is begun.** -/
theorem begin_take (h : p.Sound) (hl : p.loop = .waiting) (task : Task) : p.threads.step (.start task) =
    { p.threads with jobs := task.jobs p.threads.root p.threads.kind p.threads.clock } := by
  have hjobs : p.threads.jobs = [] := h.idle fun t ht => by
    rw [hl] at ht
    cases ht
  rw [Threads.step, Threads.begin, hjobs, h.ready.2]
  rfl

theorem ready_run {t : Threads κ} (h : t.Numbered ∧ t.ready = true) (ss : List (SceneAnimation.Step κ)) :
    (t.run ss).Numbered ∧ (t.run ss).ready = true :=
  Threads.run_keeps (P := fun t => t.Numbered ∧ t.ready = true) (fun _ x h => ⟨h.1.step x, h.1.ready_step h.2 x⟩) ss t h

end Sound

/-- The owner's thread does nothing that the render thread has to do. -/
theorem jobs_owner (t : Threads κ) {x : SceneAnimation.Step κ} (hx : x.isOwner = true) : (t.step x).jobs = t.jobs := by
  refine Threads.step_rule (P := fun x t' => x.isOwner = true → t'.jobs = t.jobs) ?_ ?_ ?_ ?_ ?_ ?_ ?_ x hx
  · exact fun _ _ _ _ => rfl
  · exact fun _ _ _ => rfl
  · exact fun _ _ _ => rfl
  · exact fun _ _ _ => rfl
  · exact fun _ _ _ _ => rfl
  · exact fun _ _ _ h => nomatch h
  · exact fun _ _ _ h => nomatch h

theorem Sound.finish (h : p.Sound) {task : Task} (hl : p.loop = .busy task) (hj : p.threads.jobs = []) :
    (p.finish task).Sound := by
  have hleft : p.left = task :: p.tasks := left_of_busy hl
  have hafter : (p.finish task).left = p.tasks := left_finish p task
  have hstopped : (p.finish task).loop = .stopped → task = .shutdown := fun hs => by
    simp only [Proxy.finish] at hs
    split at hs
    · assumption
    · cases hs
  cases ha : task.awaited with
  | true =>
    -- it was the last, and the owner is told
    have howner : (p.finish task).owner = .told task (task.answer p.threads.state) := if_pos ha
    have hnone : (p.finish task).left = [] := hafter.trans (h.last hl ha).2
    refine ⟨fun ho => ?_, fun t ho => ?_, fun t a ho => ⟨hnone, fun ht => ?_⟩, fun hr => ⟨?_, fun hs => ?_⟩,
      fun _ => hnone, fun _ => hj, h.ready⟩
    · rw [howner] at ho
      cases ho
    · rw [howner] at ho
      cases ho
    · rw [howner] at ho
      cases ho
      exact if_pos ht
    · rw [hnone]
      exact List.not_mem_nil
    · exact (h.running hr).1 (hleft ▸ hstopped hs ▸ List.mem_cons_self)
  | false =>
    have howner : (p.finish task).owner = p.owner := if_neg (by rw [ha]; simp)
    have hnot : task ≠ .shutdown := fun he => by
      rw [he] at ha
      cases ha
    have hloop : (p.finish task).loop = .waiting := if_neg hnot
    refine ⟨fun ho t ht => ?_, fun t ho => ?_, fun t a ho => ?_, fun hr => ⟨fun hm => ?_, fun hs => hnot (hstopped hs)⟩,
      fun hs => absurd (hstopped hs) hnot, fun _ => hj, h.ready⟩
    · rw [hafter] at ht
      exact h.free (howner ▸ ho) t (hleft ▸ List.mem_cons_of_mem task ht)
    · obtain ⟨hawaited, before, hbefore, hnone⟩ := h.waits t (howner ▸ ho)
      rw [hleft] at hbefore
      refine ⟨hawaited, ?_⟩
      cases before with
      | nil =>
        obtain ⟨rfl, -⟩ := List.cons.inj (hbefore : task :: p.tasks = [t])
        rw [ha] at hawaited
        cases hawaited
      | cons first before =>
        obtain ⟨-, hrest⟩ := List.cons.inj (hbefore : task :: p.tasks = first :: (before ++ [t]))
        exact ⟨before, hafter.trans hrest, fun e he => hnone e (List.mem_cons_of_mem first he)⟩
    · exact (h.not_told hleft (howner ▸ ho)).elim
    · rw [hafter] at hm
      exact (h.running hr).1 (hleft ▸ List.mem_cons_of_mem task hm)

/-- **Every step keeps a proxy sound.** -/
theorem Sound.step (h : p.Sound) (x : Step κ) : (p.step listen x).Sound := by
  refine step_rule listen (P := fun _ p' => p'.Sound) ?_ ?_ ?_ ?_ ?_ ?_ ?_ x
  · exact fun _ _ _ _ => h
  · intro x _ hx
    exact ⟨h.free, h.waits, h.told, h.running, h.stopped, fun hl => (jobs_owner p.threads hx).trans (h.idle hl),
      h.ready.1.step x, h.ready.1.ready_step h.ready.2 x⟩
  · intro task hfree hr
    obtain ⟨hopen, hloop⟩ := h.running hr
    have hleft : ∀ q : Proxy κ, q.tasks = p.tasks ++ [task] → q.loop = p.loop → q.left = p.left ++ [task] := by
      intro q hq hl
      simp only [left, hq, hl]
      cases p.loop <;> rfl
    have hafter := hleft { p with
      tasks := p.tasks ++ [task], running := decide (task ≠ .shutdown)
      owner := if task.awaited then .waits task else .free } rfl rfl
    refine ⟨fun ho t ht => ?_, fun t ho => ?_, fun t a ho => ?_, fun hrun => ⟨fun hm => ?_, hloop⟩,
      fun hs => absurd hs hloop, h.idle, h.ready⟩
    · rw [hafter] at ht
      rcases List.mem_append.1 ht with ht | ht
      · exact h.free hfree t ht
      · rw [List.mem_singleton.1 ht]
        dsimp only at ho
        split at ho
        · cases ho
        · exact Bool.not_eq_true _ ▸ ‹_›
    · dsimp only at ho
      split at ho
      · cases ho
        exact ⟨by assumption, p.left, hafter, h.free hfree⟩
      · cases ho
    · dsimp only at ho
      split at ho <;> cases ho
    · rw [hafter] at hm
      rcases List.mem_append.1 hm with hm | hm
      · exact hopen hm
      · exact of_decide_eq_true hrun (List.mem_singleton.1 hm).symm
  · intro task answer ho
    have hnone : p.left = [] := (h.told task answer ho).1
    refine ⟨fun _ t ht => ?_, fun t ho' => (nomatch ho'), fun t a ho' => (nomatch ho'), h.running, h.stopped, h.idle,
      h.ready⟩
    have ht : t ∈ p.left := ht
    rw [hnone] at ht
    cases ht
  · intro task rest hl ht
    have hsame : ∀ q : Proxy κ, q.loop = .busy task → q.tasks = rest → q.left = p.left := fun q hq hr => by
      simp only [left, hq, hr, hl, ht]
    have hleft := hsame { p with
      threads := p.threads.step (.start task), tasks := rest, loop := .busy task } rfl rfl
    have hready : (p.threads.step (.start task)).Numbered ∧ (p.threads.step (.start task)).ready = true :=
      ⟨h.ready.1.step _, h.ready.1.ready_step h.ready.2 _⟩
    exact ⟨fun ho => hleft ▸ h.free ho, fun t ho => hleft ▸ h.waits t ho,
      fun t a ho => (h.not_told ((left_of_waiting hl).trans ht) ho).elim,
      fun hr => ⟨hleft ▸ (h.running hr).1, fun hs => (nomatch hs)⟩, fun hs => (nomatch hs),
      fun hi => absurd rfl (hi task), hready⟩
  · intro task hl _
    exact ⟨h.free, h.waits, h.told, h.running, h.stopped, fun hi => absurd hl (hi task),
      Sound.ready_run h.ready _⟩
  · exact fun task hl hj => h.finish hl hj

theorem Sound.run (h : p.Sound) : ∀ xs : List (Step κ), (p.run listen xs).Sound := by
  intro xs
  induction xs generalizing p with
  | nil => exact h
  | cons x xs ih => exact ih (h.step listen x)

end Proxy

end SceneAnimation
