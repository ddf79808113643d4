import SceneAnimation.Proofs.Proxy
import Mathlib.Data.List.Induction
/-!
# Refinement: a proxy is a pipeline

For every interleaving of the owner's thread and the render thread, what the owner is told is what the pipeline does,
run after all that had been posted before (`Proxy.served_run`); the owner is told, however the threads take turns
(`Proxy.answered_of_waits`); a node that was registered before a frame was posted is drained by the time that this frame
begins (`Proxy.draining_run`); and after the render thread has been shut down nothing is done any more.  All this is
said at once of a proxy from its start (`Proxy.refines_run`).
-/
namespace SceneAnimation

namespace Threads

variable {κ : Type} (listen : Listening κ) {t : Threads κ} {rest : List Job}

theorem workTurn_tell {c : Completion} (hj : t.jobs = .tell c :: rest) : ∃ due, t.run (t.workTurn listen) =
    { t.inWorld (listen.react c.listener c.animator t.world) with jobs := rest, due } := by
  obtain ⟨due, hcalls⟩ := run_calls (listen c.listener c.animator t.world) t.doJob
  have hdone : t.doJob = { t with jobs := rest } := by rw [doJob, hj]; rfl
  refine ⟨due, ?_⟩
  rw [workTurn, hj]
  show t.doJob.run _ = _
  rw [hcalls, hdone]
  rfl

theorem workTurn_perform {j : Job} (hj : t.jobs = j :: rest) (hne : ∀ c, j ≠ .tell c) : t.run (t.workTurn listen) =
    { t with jobs := (j.perform t.state).1 ++ rest, state := (j.perform t.state).2 } := by
  have hturn : t.workTurn listen = [.job] := by
    rw [workTurn, hj]
    cases j with
    | tell c => exact absurd rfl (hne c)
    | _ => rfl
  rw [hturn]
  show t.doJob = _
  rw [doJob, hj]

/-- **What the render thread has still to do, it has still to do after its turn.** -/
theorem does_workTurn {s' : RenderState κ} (hj : t.jobs ≠ []) (h : Does listen.react t.jobs t.state s') :
    Does listen.react (t.run (t.workTurn listen)).jobs (t.run (t.workTurn listen)).state s' := by
  generalize hjobs : t.jobs = js at h hj
  cases h with
  | nil => exact absurd rfl hj
  | tell h =>
    obtain ⟨due, hturn⟩ := workTurn_tell listen hjobs
    rw [hturn]
    exact h
  | perform hne h =>
    rw [workTurn_perform listen hjobs hne]
    exact h

end Threads

namespace Proxy

variable {κ : Type} (listen : Listening κ) {p d : Proxy κ} {task : Task}

/-! ## What the owner is told -/

/-- What the pipeline of `d` makes of a task. -/
def outcomeOf (listen : Listening κ) (readings : Readings) (task : Task) (d : Proxy κ) : Rendered κ :=
  RenderThread.perform listen.react readings task d.thread d.threads.world

/-- A task that is waited for leaves the pipeline its driver, changed. -/
theorem pipeline_outcomeOf (readings : Readings) (ha : task.awaited = true) (d : Proxy κ) :
    (d.outcomeOf listen readings task).thread.pipeline =
      { d.pipeline with driver := (d.outcomeOf listen readings task).thread.pipeline.driver } := by
  cases task with
  | draw t | fence | shutdown => rfl
  | _ => cases ha

/-- **`p` has come from `d` undisturbed**, in the middle of `task`: what is left to do leads to what the pipeline of `d`
makes of the task. -/
structure Serves (listen : Listening κ) (readings : Readings) (task : Task) (d p : Proxy κ) : Prop where
  pipeline : p.pipeline = { d.pipeline with driver := p.threads.driver }
  does : ∃ pass, Does listen.react p.threads.jobs p.threads.state
      ⟨(d.outcomeOf listen readings task).thread.pipeline.driver, pass, (d.outcomeOf listen readings task).world⟩ ∧
    ∀ outcome ∈ (d.outcomeOf listen readings task).outcomes, RenderState.outcome
      ⟨(d.outcomeOf listen readings task).thread.pipeline.driver, pass, (d.outcomeOf listen readings task).world⟩ =
        outcome

/-- **The answer is what the pipeline of `d` makes of the task.** -/
structure Answers (listen : Listening κ) (readings : Readings) (task : Task) (answer : Option Outcome)
    (d p : Proxy κ) : Prop where
  pipeline : p.pipeline = (d.outcomeOf listen readings task).thread.pipeline
  world : p.threads.world = (d.outcomeOf listen readings task).world
  answer : answer = (d.outcomeOf listen readings task).outcomes.head?

theorem serves_take (readings : Readings) (h : d.Sound) (hl : d.loop = .waiting) (rest : List Task) :
    Serves listen readings task d
      { d with threads := d.threads.step (.start task), tasks := rest, loop := .busy task } := by
  rw [h.begin_take hl]
  exact ⟨rfl, Task.does listen.react readings task d.thread d.threads.state.pass d.threads.world⟩

theorem Serves.work {readings : Readings} (h : Serves listen readings task d p) (hj : p.threads.jobs ≠ []) :
    Serves listen readings task d { p with threads := p.threads.run (p.threads.workTurn listen) } := by
  obtain ⟨pass, hdoes, houtcome⟩ := h.does
  obtain ⟨hroot, hkind, hclock⟩ := p.threads.fixed_run (p.threads.workTurn listen)
  refine ⟨?_, pass, Threads.does_workTurn listen hj hdoes, houtcome⟩
  have hsame := h.pipeline
  simp only [Proxy.pipeline, Pipeline.mk.injEq] at hsame ⊢
  exact ⟨hroot.trans hsame.1, hkind.trans hsame.2.1, hclock.trans hsame.2.2.1, trivial, hsame.2.2.2.2⟩

theorem Serves.finish {readings : Readings} (h : Serves listen readings task d p) (ha : task.awaited = true)
    (hj : p.threads.jobs = []) :
    Answers listen readings task (task.answer p.threads.state) d (p.finish task) := by
  obtain ⟨pass, hdoes, houtcome⟩ := h.does
  rw [hj] at hdoes
  have hstate := hdoes.eq_of_nil
  refine ⟨?_, congrArg RenderState.world hstate.symm, ?_⟩
  · have htraced : (p.finish task).pipeline = p.pipeline := by
      cases task with
      | trace on => cases ha
      | _ => rfl
    rw [htraced, h.pipeline, pipeline_outcomeOf listen readings ha]
    exact congrArg (fun s : RenderState κ => { d.pipeline with driver := s.driver }) hstate.symm
  · cases task with
    | draw time =>
      have hdrawn := houtcome _ List.mem_cons_self
      rw [hstate] at hdrawn
      exact congrArg some hdrawn
    | fence | shutdown => rfl
    | _ => cases ha

/-- **What the owner waits for is under way undisturbed, and what it has been told is what the pipeline makes of it**: a
pipeline that was reached when the tasks before had been executed. -/
structure Served (listen : Listening κ) (readings : Readings) (reached : Proxy κ → List Task → Prop) (out : List Task)
    (p : Proxy κ) : Prop where
  waits : ∀ task, p.owner = .waits task → p.loop = .busy task →
    ∃ d, reached d out ∧ d.owner = .waits task ∧ d.loop = .waiting ∧ Serves listen readings task d p
  told : ∀ task answer, p.owner = .told task answer →
    ∃ d before, reached d before ∧ d.owner = .waits task ∧ d.loop = .waiting ∧ before ++ [task] = out ∧
      Answers listen readings task answer d p

/-- **Every step of a sound proxy serves the owner.**  While this waits, nobody else comes between the jobs. -/
theorem Served.step {readings : Readings} {reached : Proxy κ → List Task → Prop} {out : List Task}
    (h : Served listen readings reached out p) (hp : p.Sound) (hr : reached p out) (x : Step κ) :
    Served listen readings reached (out ++ p.executes x) (p.step listen x) := by
  refine step_rule listen (P := fun x p' => Served listen readings reached (out ++ p.executes x) p')
    ?_ ?_ ?_ ?_ ?_ ?_ ?_ x
  · intro x _ he _
    rw [he, List.append_nil]
    exact h
  · intro x hfree _
    refine ⟨fun t ho => ?_, fun t a ho => ?_⟩
    all_goals
      have ho : p.owner = _ := ho
      rw [hfree] at ho
      cases ho
  · intro task hfree _
    refine ⟨fun t ho hl => ?_, fun t a ho => ?_⟩
    · -- what is posted waits its turn, and none that is left was waited for
      dsimp only at ho hl
      split at ho
      · rename_i ha
        cases ho
        have := hp.free hfree task (left_of_busy hl ▸ List.mem_cons_self)
        rw [ha] at this
        cases this
      · cases ho
    · dsimp only at ho
      split at ho <;> cases ho
  · exact fun _ _ _ => ⟨fun _ ho => (nomatch ho), fun _ _ ho => (nomatch ho)⟩
  · intro task rest hl ht
    refine ⟨fun t ho hbusy => ?_, fun t a ho => ?_⟩
    · cases hbusy
      rw [executes_of_waiting hl, List.append_nil]
      exact ⟨p, hr, ho, hl, serves_take listen readings hp hl rest⟩
    · exact (hp.not_told ((left_of_waiting hl).trans ht) ho).elim
  · intro task hl hj
    refine ⟨fun t ho hbusy => ?_, fun t a ho => (hp.not_told (left_of_busy hl) ho).elim⟩
    obtain ⟨d, hd, hw, hi, hserves⟩ := h.waits t ho hbusy
    rw [executes_of_jobs hj, List.append_nil]
    exact ⟨d, hd, hw, hi, hserves.work listen hj⟩
  · intro task hl hj
    refine ⟨fun t _ hbusy => ?_, fun t a ho => ?_⟩
    · dsimp only [Proxy.finish] at hbusy
      split at hbusy <;> cases hbusy
    · cases ha : task.awaited with
      | true =>
        have howner := (hp.last hl ha).1
        have htold : (p.finish task).owner = .told task (task.answer p.threads.state) := if_pos ha
        rw [htold] at ho
        cases ho
        obtain ⟨d, hd, hw, hi, hserves⟩ := h.waits task howner hl
        exact ⟨d, out, hd, hw, hi, by rw [executes_finish hl hj], hserves.finish listen ha hj⟩
      | false =>
        have hkept : (p.finish task).owner = p.owner := if_neg (by rw [ha]; simp)
        exact (hp.not_told (left_of_busy hl) (hkept ▸ ho)).elim

theorem Served.mono {readings : Readings} {reached reached' : Proxy κ → List Task → Prop} {out : List Task}
    (h : Served listen readings reached out p) (hr : ∀ d l, reached d l → reached' d l) :
    Served listen readings reached' out p where
  waits task ho hl := by
    obtain ⟨d, hd, hrest⟩ := h.waits task ho hl
    exact ⟨d, hr d out hd, hrest⟩
  told task answer ho := by
    obtain ⟨d, before, hd, hrest⟩ := h.told task answer ho
    exact ⟨d, before, hr d before hd, hrest⟩

/-- **What the owner is told in a run** is what the pipeline makes of it, after all that was posted before. -/
theorem served_run {start : Proxy κ} (h : start.Sound) (hfree : start.owner = .free) (readings : Readings)
    (xs : List (Step κ)) :
    Served listen readings (fun d l => ∃ ys, ys <+: xs ∧ d = start.run listen ys ∧ l = start.executed listen ys)
      (start.executed listen xs) (start.run listen xs) := by
  induction xs using List.reverseRecOn with
  | nil =>
    refine ⟨fun t ho => ?_, fun t a ho => ?_⟩
    all_goals
      rw [run_nil, hfree] at ho
      cases ho
  | append_singleton xs x ih =>
    let reached (d : Proxy κ) (l : List Task) : Prop :=
      ∃ ys, ys <+: xs ++ [x] ∧ d = start.run listen ys ∧ l = start.executed listen ys
    have hbefore : Served listen readings reached (start.executed listen xs) (start.run listen xs) :=
      ih.mono listen fun d l ⟨ys, hy, hd, hl⟩ => ⟨ys, hy.trans (List.prefix_append xs [x]), hd, hl⟩
    have hstep := hbefore.step listen (h.run listen xs) ⟨xs, List.prefix_append xs [x], rfl, rfl⟩ x
    rw [executed_concat, run_append]
    exact hstep

/-! ## The owner is told -/

def Step.isWork : Step κ → Bool
  | .work => true
  | _ => false

/-- **The owner waits for the answer to `task`**, and is told after some turns of the render thread. -/
inductive Answered (listen : Listening κ) (task : Task) : Proxy κ → Prop where
  | now {q : Proxy κ} {answer : Option Outcome} (h : q.owner = .told task answer) : Answered listen task q
  | later {q : Proxy κ} (h : q.owner = .waits task) (hw : Answered listen task (q.step listen .work)) :
    Answered listen task q

/-- A task under way comes to an end, and if it is not the one that is waited for, the next is taken. -/
theorem answered_of_does {js : List Job} {s s' : RenderState κ} (hdoes : Does listen.react js s s') :
    ∀ {p : Proxy κ} {t : Task}, p.Sound → p.owner = .waits task → p.loop = .busy t → p.threads.jobs = js →
      p.threads.state = s →
      (∀ q : Proxy κ, q.Sound → q.owner = .waits task → q.tasks = p.tasks → q.loop = .waiting →
        Answered listen task q) → Answered listen task p := by
  induction hdoes with
  | nil s =>
    intro p t hp ho hl hj _ hnext
    have hfinish : p.step listen .work = p.finish t := work_finish listen hl hj
    refine .later ho ?_
    rw [hfinish]
    cases ha : t.awaited with
    | true =>
      have howner := (hp.last hl ha).1
      rw [ho] at howner
      cases howner
      exact .now (if_pos ha)
    | false =>
      have hnot : t ≠ .shutdown := fun he => by
        rw [he] at ha
        cases ha
      have hkept : (p.finish t).owner = p.owner := if_neg (by rw [ha]; simp)
      exact hnext (p.finish t) (hp.finish hl hj) (hkept.trans ho) rfl (if_neg hnot)
  | tell _ ih =>
    intro p t hp ho hl hj hs hnext
    have hstep : p.step listen .work = _ := work_job listen hl (by rw [hj]; exact List.cons_ne_nil _ _)
    obtain ⟨due, hturn⟩ := Threads.workTurn_tell listen hj
    refine .later ho ?_
    have hsound := hp.step listen .work
    rw [hstep, hturn] at hsound ⊢
    exact ih hsound ho hl rfl (by rw [← hs]; rfl) hnext
  | perform hne _ ih =>
    intro p t hp ho hl hj hs hnext
    have hstep : p.step listen .work = _ := work_job listen hl (by rw [hj]; exact List.cons_ne_nil _ _)
    have hturn := Threads.workTurn_perform listen hj hne
    refine .later ho ?_
    have hsound := hp.step listen .work
    rw [hstep, hturn] at hsound ⊢
    exact ih hsound ho hl (by rw [← hs]) (by rw [← hs]) hnext

/-- **Whoever waits is told**: the render thread comes to an end with every task that is left. -/
theorem answered_of_waits : ∀ (tasks : List Task) {p : Proxy κ}, p.Sound → p.owner = .waits task → p.tasks = tasks →
    Answered listen task p := by
  -- what is left is never nothing, so it is enough that the render thread goes on once it waits for a task
  have hgoes : ∀ {p : Proxy κ}, p.Sound → p.owner = .waits task →
      (∀ q : Proxy κ, q.Sound → q.owner = .waits task → q.tasks = p.tasks → q.loop = .waiting →
        Answered listen task q) → Answered listen task p := fun {p} hp ho hnext => by
    cases hl : p.loop with
    | waiting => exact hnext p hp ho rfl hl
    | busy t =>
      obtain ⟨s', hdoes⟩ := Does.ends listen.react p.threads.jobs p.threads.state
      exact answered_of_does listen hdoes hp ho hl rfl rfl hnext
    | stopped =>
      obtain ⟨-, before, hleft, -⟩ := hp.waits task ho
      rw [hp.stopped hl] at hleft
      exact absurd hleft.symm (by simp)
  intro tasks
  induction tasks with
  | nil =>
    intro p hp ho ht
    refine hgoes hp ho fun q hq hw hqt hl => ?_
    obtain ⟨-, before, hleft, -⟩ := hq.waits task hw
    rw [left_of_waiting hl, hqt, ht] at hleft
    exact absurd hleft.symm (by simp)
  | cons t rest ih =>
    intro p hp ho ht
    refine hgoes hp ho fun q hq hw hqt hl => ?_
    have htake : q.step listen .work = _ := work_take listen hl (hqt.trans ht)
    refine .later hw ?_
    have hsound := hq.step listen .work
    rw [htake] at hsound ⊢
    exact ih hsound hw rfl

/-- While the owner waits, only the render thread does anything. -/
theorem step_of_waits (h : p.owner = .waits task) {x : Step κ} (hx : x.isWork = false) : p.step listen x = p := by
  cases x with
  | own x =>
    refine if_neg fun ⟨hfree, _⟩ => ?_
    rw [h] at hfree
    cases hfree
  | post t => simp only [Proxy.step, Proxy.post, h]
  | resume => simp only [Proxy.step, Proxy.resume, h]
  | work => cases hx

/-- **The owner is told after so many turns of the render thread**, whatever else the threads attempt. -/
theorem Answered.within (h : Answered listen task p) : ∃ n, ∀ ys : List (Step κ), n ≤ ys.countP Step.isWork →
    ∃ zs answer, zs <+: ys ∧ (p.run listen zs).owner = .told task answer := by
  induction h with
  | now h => exact ⟨0, fun ys _ => ⟨[], _, List.nil_prefix, h⟩⟩
  | @later p h _ ih =>
    obtain ⟨n, hn⟩ := ih
    refine ⟨n + 1, fun ys => ?_⟩
    induction ys with
    | nil => exact fun hle => absurd hle (Nat.not_succ_le_zero n)
    | cons x ys ihys =>
      intro hle
      cases hx : x.isWork with
      | true =>
        cases x with
        | work =>
          rw [List.countP_cons_of_pos rfl] at hle
          obtain ⟨zs, answer, hz, htold⟩ := hn ys (Nat.le_of_succ_le_succ hle)
          exact ⟨.work :: zs, answer, (List.prefix_cons_inj _).2 hz, htold⟩
        | _ => cases hx
      | false =>
        rw [List.countP_cons_of_neg (by rw [hx]; simp)] at hle
        obtain ⟨zs, answer, hz, htold⟩ := ihys hle
        refine ⟨x :: zs, answer, (List.prefix_cons_inj _).2 hz, ?_⟩
        rw [run_cons, step_of_waits listen h hx]
        exact htold

/-! ## Registrations -/

section Registrations

variable {r : RootId}

/-- The nodes that are registered on root `r` in a run, in order. -/
def registered (listen : Listening κ) (r : RootId) (p : Proxy κ) (xs : List (Step κ)) : List NodeId :=
  Threads.registered r p.threads ((p.schedule listen xs).map .step)

/-- The nodes that frame starts take from root `r` in a run, in order. -/
def drained (listen : Listening κ) (r : RootId) (p : Proxy κ) (xs : List (Step κ)) : List NodeId :=
  (Threads.taken r p.threads ((p.schedule listen xs).map .step)).flatten

theorem trail_schedule {α : Type} (f : Threads κ → Move κ → List α) (p : Proxy κ) (xs ys : List (Step κ)) :
    trail Threads.move f p.threads ((p.schedule listen (xs ++ ys)).map .step) =
      trail Threads.move f p.threads ((p.schedule listen xs).map .step) ++
        trail Threads.move f (p.run listen xs).threads (((p.run listen xs).schedule listen ys).map .step) := by
  rw [schedule_append, List.map_append, trail_append, threads_run, ← Threads.moves_map]
  rfl

theorem registered_append (p : Proxy κ) (xs ys : List (Step κ)) :
    p.registered listen r (xs ++ ys) = p.registered listen r xs ++ (p.run listen xs).registered listen r ys :=
  trail_schedule ..

theorem drained_append (p : Proxy κ) (xs ys : List (Step κ)) :
    p.drained listen r (xs ++ ys) = p.drained listen r xs ++ (p.run listen xs).drained listen r ys := by
  simp only [drained, Threads.taken, trail_schedule, List.flatten_append]

/-- **No registration is lost, doubled or overtaken.** -/
theorem queue_nodes (h : p.threads.Numbered) (xs : List (Step κ)) :
    p.drained listen r xs ++ (p.run listen xs).threads.pending r =
      p.threads.pending r ++ p.registered listen r xs := by
  rw [threads_run, ← Threads.moves_map]
  exact Threads.queue_moves h _

/-- What is to be done before a frame takes the nodes registered on root `r`. -/
inductive Undrained (r : RootId) : List Job → Prop where
  | vsync {c t rest} : Undrained r (.vsync c t :: .startFrame :: rest)
  | catchUp {c now rest} : Undrained r (.catchUp c now :: .startFrame :: rest)
  | startFrame {rest} : Undrained r (.startFrame :: rest)
  | takePending {rest} : Undrained r (.takePending r :: .beginFrame :: rest)

theorem Undrained.of_isFrame (h : task.isFrame = true) (root : RootId) (kind : DriverKind) (clock : ClockId) :
    Undrained r (task.jobs root kind clock) := by
  cases task with
  | draw t => exact .vsync
  | tick now => exact .catchUp
  | _ => cases h

/-- **A frame takes all nodes that are registered by then**, when the render thread comes to it. -/
theorem Undrained.turn {t : Threads κ} (h : Undrained r t.jobs) (ho : t.driver.outlet.root? = some r) :
    Undrained r (t.run (t.workTurn listen)).jobs ∨
      Threads.taken r t ((t.workTurn listen).map .step) = [t.pending r] := by
  generalize hj : t.jobs = js at h
  cases h with
  | vsync | catchUp =>
    rw [Threads.workTurn_perform listen hj (by simp)]
    exact .inl .startFrame
  | startFrame =>
    rw [Threads.workTurn_perform listen hj (by simp)]
    cases hout : t.state.driver.outlet with
    | inline =>
      rw [Threads.driver, hout] at ho
      cases ho
    | deferred q held =>
      rw [Threads.driver, hout] at ho
      cases ho
      simp only [Job.perform, hout]
      exact .inl .takePending
  | takePending =>
    have hturn : t.workTurn listen = [.job] := by rw [Threads.workTurn, hj]
    have htakes : Threads.takes r t (.step .job) = [t.pending r] := by
      simp only [Threads.takes, hj, if_true]
      rfl
    rw [hturn]
    exact .inr (htakes ▸ List.append_nil _)

/-- **How far a frame has come** that was posted as the `place`-th task, when the nodes `nodes` had been registered: it
is not its turn, or it is to be taken, or it has not drained the nodes that wait, or `nodes` have been drained. -/
inductive Draining (r : RootId) (place : Nat) (nodes : List NodeId) (out : List Task) (drained : List NodeId)
    (p : Proxy κ) : Prop where
  | early (h : out.length < place)
  | next (h : out.length = place) (hl : ∀ t, p.loop ≠ .busy t)
  | starting {t : Task} (h : out.length = place) (hl : p.loop = .busy t) (hj : Undrained r p.threads.jobs)
  | done (h : place ≤ out.length) (hnodes : nodes <+: drained)

variable {place : Nat} {nodes drained : List NodeId} {out : List Task}

theorem executes_step (p : Proxy κ) (x : Step κ) : p.executes x = [] ∨
    (∃ t, p.executes x = [t]) ∧ ∀ t, (p.step listen x).loop ≠ .busy t := by
  refine step_rule listen (P := fun x p' => p.executes x = [] ∨ (∃ t, p.executes x = [t]) ∧ ∀ t, p'.loop ≠ .busy t)
    ?_ ?_ ?_ ?_ ?_ ?_ ?_ x
  · exact fun _ _ he _ => .inl he
  · exact fun _ _ _ => .inl rfl
  · exact fun _ _ _ => .inl rfl
  · exact fun _ _ _ => .inl rfl
  · exact fun _ _ hl _ => .inl (executes_of_waiting hl)
  · exact fun _ _ hj => .inl (executes_of_jobs hj)
  · intro task hl hj
    refine .inr ⟨⟨task, executes_finish hl hj⟩, fun t ht => ?_⟩
    dsimp only [Proxy.finish] at ht
    split at ht <;> cases ht

/-- A render thread that waits takes the next task, and the others come no further by it. -/
theorem next_step (hp : p.Sound) (hl : ∀ t, p.loop ≠ .busy t) (hnext : ∀ t rest, p.left = t :: rest → t.isFrame = true)
    (x : Step κ) : p.executes x = [] ∧ ((∀ t, (p.step listen x).loop ≠ .busy t) ∨
      ∃ t, (p.step listen x).loop = .busy t ∧ Undrained r (p.step listen x).threads.jobs) := by
  refine step_rule listen (P := fun x p' => p.executes x = [] ∧ ((∀ t, p'.loop ≠ .busy t) ∨
    ∃ t, p'.loop = .busy t ∧ Undrained r p'.threads.jobs)) ?_ ?_ ?_ ?_ ?_ ?_ ?_ x
  · exact fun _ _ he _ => ⟨he, .inl hl⟩
  · exact fun _ _ _ => ⟨rfl, .inl hl⟩
  · exact fun _ _ _ => ⟨rfl, .inl hl⟩
  · exact fun _ _ _ => ⟨rfl, .inl hl⟩
  · intro t rest hw ht
    refine ⟨executes_of_waiting hw, .inr ⟨t, rfl, ?_⟩⟩
    have hframe := hnext t rest ((left_of_waiting hw).trans ht)
    show Undrained r (p.threads.step (.start t)).jobs
    rw [hp.begin_take hw]
    exact .of_isFrame hframe ..
  · exact fun t hb _ => absurd hb (hl t)
  · exact fun t hb _ => absurd hb (hl t)

/-- Only the render thread brings a frame any further. -/
theorem starting_step {t : Task} (hl : p.loop = .busy t) (hj : Undrained r p.threads.jobs)
    (ho : p.threads.driver.outlet.root? = some r) (x : Step κ) :
    p.executes x = [] ∧ (p.step listen x).loop = .busy t ∧ (Undrained r (p.step listen x).threads.jobs ∨
      Threads.taken r p.threads ((p.turns listen x).map .step) = [p.threads.pending r]) := by
  have hne : p.threads.jobs ≠ [] := fun he => by
    rw [he] at hj
    cases hj
  refine step_rule listen (P := fun x p' => p.executes x = [] ∧ p'.loop = .busy t ∧ (Undrained r p'.threads.jobs ∨
    Threads.taken r p.threads ((p.turns listen x).map .step) = [p.threads.pending r])) ?_ ?_ ?_ ?_ ?_ ?_ ?_ x
  · exact fun _ _ he _ => ⟨he, hl, .inl hj⟩
  · exact fun x _ hx => ⟨rfl, hl, .inl ((jobs_owner p.threads hx).symm ▸ hj)⟩
  · exact fun _ _ _ => ⟨rfl, hl, .inl hj⟩
  · exact fun _ _ _ => ⟨rfl, hl, .inl hj⟩
  · intro _ _ hw _
    rw [hl] at hw
    cases hw
  · intro _ _ _
    refine ⟨executes_of_jobs hne, hl, ?_⟩
    simp only [turns, hl]
    exact hj.turn listen ho
  · exact fun _ _ he => absurd he hne

/-- **A frame drains the nodes that were registered when it was posted**, in its turn. -/
theorem Draining.step (h : Draining r place nodes out drained p) (hp : p.Sound)
    (ho : p.threads.driver.outlet.root? = some r)
    (hnext : out.length = place → ∀ t rest, p.left = t :: rest → t.isFrame = true)
    (hnodes : nodes <+: drained ++ p.threads.pending r) (x : Step κ) :
    Draining r place nodes (out ++ p.executes x)
      (drained ++ (Threads.taken r p.threads ((p.turns listen x).map .step)).flatten) (p.step listen x) := by
  cases h with
  | early h =>
    rcases executes_step listen p x with he | ⟨⟨t, he⟩, hl⟩
    · rw [he, List.append_nil]
      exact .early h
    · have hlength : (out ++ p.executes x).length = out.length + 1 := by rw [he, List.length_append]; rfl
      by_cases hlt : out.length + 1 < place
      · exact .early (hlength ▸ hlt)
      · exact .next (by omega) hl
  | next h hl =>
    obtain ⟨he, hl' | ⟨t, hl', hj⟩⟩ := next_step listen (r := r) hp hl (hnext h) x
    · exact .next (by rw [he, List.append_nil]; exact h) hl'
    · exact .starting (by rw [he, List.append_nil]; exact h) hl' hj
  | starting h hl hj =>
    obtain ⟨he, hl', hj' | htaken⟩ := starting_step listen hl hj ho x
    · exact .starting (by rw [he, List.append_nil]; exact h) hl' hj'
    · refine .done (by rw [he, List.append_nil]; exact Nat.le_of_eq h.symm) ?_
      rw [htaken, List.flatten_singleton]
      exact hnodes
  | done h hr =>
    refine .done ?_ (hr.trans (List.prefix_append ..))
    rw [List.length_append]
    omega

/-- **In a run, every frame drains the nodes that were registered when it was posted**: they have been drained once it
has been executed, and by the time that it begins. -/
theorem draining_run {start : Proxy κ} (h : start.Sound) (hleft : start.left = [])
    (hkind : start.threads.kind = .deferred r) (ys : List (Step κ)) {task : Task} (hframe : task.isFrame = true)
    (hposts : (start.run listen ys).posts (.post task) = [task]) (zs : List (Step κ)) :
    Draining r (start.posted listen ys).length (start.threads.pending r ++ start.registered listen r ys)
      (start.executed listen (ys ++ .post task :: zs)) (start.drained listen r (ys ++ .post task :: zs))
      (start.run listen (ys ++ .post task :: zs)) := by
  have hqueue : ∀ xs, start.executed listen xs ++ (start.run listen xs).left = start.posted listen xs := fun xs => by
    rw [queue_run, hleft]
    rfl
  induction zs using List.reverseRecOn with
  | nil =>
    have hloop : ((start.run listen ys).step listen (.post task)).loop = (start.run listen ys).loop := by
      simp only [Proxy.step, Proxy.post]
      split <;> rfl
    have hout : start.executed listen (ys ++ [.post task]) = start.executed listen ys := by
      rw [executed_concat]
      exact List.append_nil _
    have hlength := congrArg List.length (hqueue ys)
    rw [List.length_append] at hlength
    rw [run_append, hout]
    by_cases hlt : (start.executed listen ys).length < (start.posted listen ys).length
    · exact .early hlt
    · -- nothing is left, so the frame is the next task
      refine .next (by omega) fun t ht => ?_
      have hbusy : (start.run listen ys).loop = .busy t := hloop.symm.trans ht
      have hnone : (start.run listen ys).left = [] := List.length_eq_zero_iff.1 (by omega)
      rw [left_of_busy hbusy] at hnone
      cases hnone
  | append_singleton zs x ih =>
    have hassoc : ys ++ .post task :: (zs ++ [x]) = (ys ++ .post task :: zs) ++ [x] := by simp
    generalize hxs : ys ++ .post task :: zs = xs at ih hassoc
    have hp := h.run listen xs
    have hthreads := threads_run listen xs start
    have hroot : (start.run listen xs).threads.driver.outlet.root? = some r := by
      rw [hp.ready.1.root?, Threads.target?, hthreads, (start.threads.fixed_run _).2.1, hkind]
    have hposted : start.posted listen xs = start.posted listen ys ++ task ::
        ((start.run listen ys).step listen (.post task)).posted listen zs := by
      have hfirst : (start.run listen ys).posted listen (.post task :: zs) =
          (start.run listen ys).posts (.post task) ++
            ((start.run listen ys).step listen (.post task)).posted listen zs := rfl
      rw [← hxs, posted_append, hfirst, hposts]
      rfl
    have hnext : (start.executed listen xs).length = (start.posted listen ys).length →
        ∀ t rest, (start.run listen xs).left = t :: rest → t.isFrame = true := fun hlen t rest ht => by
      have hboth := (hqueue xs).trans hposted
      rw [ht] at hboth
      obtain ⟨-, htail⟩ := List.append_inj hboth hlen
      rw [(List.cons.inj htail).1]
      exact hframe
    have hnodes : start.threads.pending r ++ start.registered listen r ys <+:
        start.drained listen r xs ++ (start.run listen xs).threads.pending r := by
      rw [queue_nodes listen h.ready.1, ← hxs, registered_append, ← List.append_assoc]
      exact List.prefix_append _ _
    have hstep := ih.step listen hp hroot hnext hnodes x
    have hdrained : start.drained listen r (xs ++ [x]) = start.drained listen r xs ++
        (Threads.taken r (start.run listen xs).threads (((start.run listen xs).turns listen x).map .step)).flatten := by
      have hone : (start.run listen xs).schedule listen [x] = (start.run listen xs).turns listen x := List.append_nil _
      rw [drained_append, ← hone]
      rfl
    rw [hassoc, executed_concat, hdrained, run_append]
    exact hstep

/-- What has begun, or has been executed, has drained what it was to drain. -/
theorem Draining.all (h : Draining r place nodes out drained p) (hp : p.Sound)
    (hbegun : place < out.length ∨ place = out.length ∧ p.threads.jobs.head? = some .beginFrame) :
    nodes <+: drained := by
  cases h with
  | early h => omega
  | next h hl =>
    obtain hlt | ⟨-, hj⟩ := hbegun
    · omega
    · rw [hp.idle hl] at hj
      cases hj
  | starting h _ hj =>
    obtain hlt | ⟨-, hhead⟩ := hbegun
    · omega
    · generalize p.threads.jobs = js at hj hhead
      cases hj <;> cases hhead
  | done _ hr => exact hr

end Registrations

/-! ## The whole life of a proxy -/

/-- **A proxy that has just been made is sound**, if there is a root for it. -/
theorem sound_start {w : World κ} (hw : w.Numbered) (config : DisplayConfig) {root : RootId} {kind : DriverKind}
    (hroot : root ∈ w.roots) (hkind : ∀ r, kind = .deferred r → r ∈ w.roots) :
    (ofThread (RenderThread.start root kind config w).1 (RenderThread.start root kind config w).2).Sound where
  free _ _ ht := absurd ht List.not_mem_nil
  waits _ h := nomatch h
  told _ _ h := nomatch h
  running _ := ⟨List.not_mem_nil, fun h => nomatch h⟩
  stopped h := nomatch h
  idle _ := rfl
  ready := by
    have hl : w.Leads (w.addClock config.interval).2 := hw.setClock (.inr rfl) _
    have htarget : ∀ r, (ofThread (RenderThread.start root kind config w).1
        (RenderThread.start root kind config w).2).threads.target? = some r → kind = .deferred r := fun r hr => by
      cases kind with
      | inline => cases hr
      | deferred q => cases hr; rfl
    refine ⟨⟨⟨hl.numbered, fun _ h => absurd h List.not_mem_nil, fun _ h => absurd h List.not_mem_nil,
      fun _ h => nomatch h⟩, by cases kind <;> rfl, fun h => absurd rfl h, fun _ h => absurd h List.not_mem_nil⟩, ?_⟩
    exact Threads.ready_iff.2 ⟨Threads.equipped_iff.2 ⟨(Table.mem_set ..).2 (.inl rfl), fun r hr =>
      hl.roots r (hkind r (htarget r hr))⟩, hl.roots root hroot⟩

/-- **A shutdown is posted once, and after everything else.** -/
theorem shutdown_run (start : Proxy κ) (hr : start.running = true) (xs : List (Step κ)) :
    ((start.run listen xs).running = true → .shutdown ∉ start.posted listen xs) ∧
    ((start.run listen xs).running = false →
      ∃ before, start.posted listen xs = before ++ [.shutdown] ∧ .shutdown ∉ before) := by
  refine foldl_keeps_trail (f := posts) (g := posts) (P := fun out _ p => (p.running = true → .shutdown ∉ out) ∧
    (p.running = false → ∃ before, out = before ++ [.shutdown] ∧ .shutdown ∉ before)) ?_ xs [] [] start
    ⟨fun _ => List.not_mem_nil, fun h => ?_⟩
  · intro out within p x h
    refine step_rule listen (P := fun x p' => (p'.running = true → .shutdown ∉ out ++ p.posts x) ∧
      (p'.running = false → ∃ before, out ++ p.posts x = before ++ [.shutdown] ∧ .shutdown ∉ before))
      ?_ ?_ ?_ ?_ ?_ ?_ ?_ x
    · intro x hx _ _
      rw [hx, List.append_nil]
      exact h
    · exact fun _ _ _ => (List.append_nil out).symm ▸ h
    · intro task hfree hrun
      have hposted : p.posts (.post task) = [task] := if_pos ⟨hfree, hrun⟩
      rw [hposted]
      refine ⟨fun hne hm => ?_, fun he => ⟨out, ?_, h.1 hrun⟩⟩
      · rcases List.mem_append.1 hm with hm | hm
        · exact h.1 hrun hm
        · exact of_decide_eq_true hne (List.mem_singleton.1 hm).symm
      · rw [Classical.not_not.1 (of_decide_eq_false he)]
    · exact fun _ _ _ => (List.append_nil out).symm ▸ h
    · exact fun _ _ _ _ => (List.append_nil out).symm ▸ h
    · exact fun _ _ _ => (List.append_nil out).symm ▸ h
    · exact fun _ _ _ => (List.append_nil out).symm ▸ h
  · rw [hr] at h
    cases h

/-- **Once it has been shut down, a render thread runs no more**, and what is posted to it changes nothing. -/
theorem refused_run (hr : p.running = false) (xs : List (Step κ)) :
    (p.run listen xs).running = false ∧ ∀ task,
      (p.run listen xs).thread.post task = .error .renderThreadGone ∧
      (p.run listen xs).step listen (.post task) = p.run listen xs := by
  have hkeeps : (p.run listen xs).running = false := by
    induction xs generalizing p with
    | nil => exact hr
    | cons x xs ih =>
      refine ih (step_rule listen (P := fun _ p' => p'.running = false) ?_ ?_ ?_ ?_ ?_ ?_ ?_ x)
      · exact fun _ _ _ _ => hr
      · exact fun _ _ _ => hr
      · intro _ _ hrun
        rw [hr] at hrun
        cases hrun
      · exact fun _ _ _ => hr
      · exact fun _ _ _ _ => hr
      · exact fun _ _ _ => hr
      · exact fun _ _ _ => hr
  refine ⟨hkeeps, fun task => ⟨post_refused hkeeps task, ?_⟩⟩
  simp only [step, Proxy.post, post_refused hkeeps task]
  split
  · rename_i h
    cases h
  · rfl

/-- **A proxy is its pipeline.**  A render thread is started in the world `w` that any moves have left.  For every
interleaving `xs` of the owner's thread with the render thread: the tasks executed, the one under way and those that
wait are those posted, in order, and a task that is taken is begun.  When the owner is told, everything that was posted
has been executed, and the answer, the pipeline and the world are what the render thread's pipeline makes of the task:
of a draw, the outcome of that frame, and of a shutdown, its destruction, which comes last and once.  Whoever waits is
told after so many turns of the render thread.  If completions go to the owner of the pipeline's root, the nodes that
were registered there before a frame was posted have been drained when this frame begins.  And after a shutdown every
task is refused and changes nothing. -/
theorem refines_run (listen : Listening κ) (readings : Readings) (config : DisplayConfig) (root : RootId)
    (kind : DriverKind) (q : RootId) (k : DriverKind) (c : ClockId) (client : κ) (ws : List (Move κ))
    (xs : List (Step κ)) :
    let w := ((Threads.blank q k c client).moves ws).world
    let made := RenderThread.start root kind config w
    let start := ofThread made.1 made.2
    let p := start.run listen xs
    root ∈ w.roots → (∀ r, kind = .deferred r → r ∈ w.roots) →
    start.executed listen xs ++ p.left = start.posted listen xs ∧
    (∀ task rest, p.loop = .waiting → p.tasks = task :: rest →
      (p.step listen .work).threads.jobs = task.jobs root kind made.1.pipeline.clock) ∧
    (∀ task answer, p.owner = .told task answer → start.executed listen xs = start.posted listen xs ∧
      ∃ ys, ys <+: xs ∧ start.executed listen ys ++ [task] = start.posted listen xs ∧
        let d := start.run listen ys
        let done := RenderThread.perform listen.react readings task d.thread d.threads.world
        d.owner = .waits task ∧ d.loop = .waiting ∧ answer = done.outcomes.head? ∧
        p.pipeline = done.thread.pipeline ∧ p.threads.world = done.world ∧
        (∀ time, task = .draw time →
          answer = some (d.pipeline.draw listen.react readings time d.threads.world).outcome) ∧
        (task = .shutdown → (p.pipeline, p.threads.world) = d.pipeline.destroy listen.react d.threads.world ∧
          .shutdown ∉ start.executed listen ys ∧ p.loop = .stopped ∧ p.running = false)) ∧
    (∀ task, p.owner = .waits task → ∃ n, ∀ ys : List (Step κ), n ≤ ys.countP Step.isWork →
      ∃ zs answer, zs <+: ys ∧ (p.run listen zs).owner = .told task answer) ∧
    (kind = .deferred root → ∀ ys task zs, xs = ys ++ .post task :: zs → task.isFrame = true →
      (start.run listen ys).posts (.post task) = [task] →
      let place := (start.posted listen ys).length
      place < (start.executed listen xs).length ∨
        place = (start.executed listen xs).length ∧ p.threads.jobs.head? = some .beginFrame →
      (w.root root).pending ++ start.registered listen root ys <+: start.drained listen root xs) ∧
    (p.running = false → ∀ ys, (p.run listen ys).running = false ∧ ∀ task,
      (p.run listen ys).thread.post task = .error .renderThreadGone ∧
      (p.run listen ys).step listen (.post task) = p.run listen ys) := by
  intro w made start p hroot hkind
  have hw : w.Numbered := ((Threads.numbered_blank q k c client).moves ws).world
  have hstart : start.Sound := sound_start hw config hroot hkind
  have hp : p.Sound := hstart.run listen xs
  have hqueue : start.executed listen xs ++ p.left = start.posted listen xs := queue_run listen start xs
  refine ⟨hqueue, fun task rest hl ht => ?_, fun task answer htold => ?_,
    fun task hwaits => (answered_of_waits listen p.tasks hp hwaits rfl).within,
    fun hdeferred ys task zs hxs hframe hposts hbegun => ?_, fun hr ys => refused_run listen hr ys⟩
  · obtain ⟨hroot', hkind', hclock'⟩ := start.threads.fixed_run (start.schedule listen xs)
    have htake : p.step listen .work = _ := work_take listen hl ht
    rw [htake]
    show (p.threads.step (.start task)).jobs = _
    rw [hp.begin_take hl]
    show task.jobs p.threads.root p.threads.kind p.threads.clock = _
    rw [show p.threads = _ from threads_run listen xs start, hroot', hkind', hclock']
    rfl
  · obtain ⟨hnone, hstopped⟩ := hp.told task answer htold
    have hall : start.executed listen xs = start.posted listen xs := by
      rw [← hqueue, hnone, List.append_nil]
    obtain ⟨d, out, ⟨ys, hys, rfl, rfl⟩, howner, hloop, hout, hanswer⟩ :=
      (served_run listen hstart rfl readings xs).told task answer htold
    refine ⟨hall, ys, hys, hout.trans hall, howner, hloop, hanswer.answer, hanswer.pipeline, hanswer.world, ?_, ?_⟩
    · rintro time rfl
      exact hanswer.answer
    · rintro rfl
      obtain ⟨hopen, honce⟩ := shutdown_run listen start rfl xs
      have hmem : .shutdown ∈ start.posted listen xs := by
        rw [← hall, ← hout]
        exact List.mem_append.2 (.inr List.mem_cons_self)
      have hclosed : p.running = false := Bool.eq_false_iff.2 fun hr => hopen hr hmem
      obtain ⟨earlier, hearlier, hnot⟩ := honce hclosed
      have hsame : start.executed listen ys = earlier := List.append_cancel_right (hout.trans (hall.trans hearlier))
      exact ⟨Prod.ext hanswer.pipeline hanswer.world, hsame ▸ hnot, hstopped rfl, hclosed⟩
  · have hdraining := draining_run listen hstart rfl hdeferred ys hframe hposts zs
    rw [← hxs] at hdraining
    exact hdraining.all hp hbegun

/-- The owner registers a node, posts an animation tick, registers the node again while that is under way, and draws. -/
def posting : List (Step Unit) :=
  [.own (.call (.register ⟨0⟩ ⟨2⟩)), .post (.tick ⟨3⟩), .work, .work, .own (.call (.register ⟨0⟩ ⟨2⟩)),
    .post (.draw ⟨5⟩)]

/-- It waits, and is told when the tick has been executed, which drained what was registered before, and then the frame.
Then it shuts the render thread down. -/
theorem refines_opening :
    let listen : Listening Unit := fun _ _ _ => []
    let w := ((Threads.blank ⟨0⟩ (.deferred ⟨0⟩) ⟨0⟩ ()).moves ((Threads.opening ⟨16⟩).map .step)).world
    let made := RenderThread.start ⟨0⟩ (.deferred ⟨0⟩) .hz60 w
    let start := ofThread made.1 made.2
    let drawing := posting ++ List.replicate 35 .work
    let closing := drawing ++ [.resume, .post .shutdown] ++ List.replicate 6 .work
    (⟨0⟩ ∈ w.roots ∧ (start.run listen posting).owner = .waits (.draw ⟨5⟩) ∧
      ∃ n, ∀ ys : List (Step Unit), n ≤ ys.countP Step.isWork → ∃ zs answer, zs <+: ys ∧
        ((start.run listen posting).run listen zs).owner = .told (.draw ⟨5⟩) answer) ∧
    ((start.run listen drawing).owner = .told (.draw ⟨5⟩) (some ⟨2, ⟨5⟩, 1, 0, true⟩) ∧
      start.executed listen drawing = [.tick ⟨3⟩, .draw ⟨5⟩] ∧
      start.posted listen drawing = [.tick ⟨3⟩, .draw ⟨5⟩] ∧
      [⟨2⟩, ⟨2⟩] <+: start.drained listen ⟨0⟩ drawing) ∧
    (start.run listen closing).owner = .told .shutdown none ∧ (start.run listen closing).loop = .stopped ∧
      start.executed listen closing = start.posted listen closing ∧
      (start.run listen closing).thread.post .fence = .error .renderThreadGone := by
  intro listen w made start drawing closing
  have hroot : (⟨0⟩ : RootId) ∈ w.roots := by decide +kernel
  have hkind : ∀ r, DriverKind.deferred ⟨0⟩ = .deferred r → r ∈ w.roots := fun r hr => by
    cases hr
    exact hroot
  have hwaits : (start.run listen posting).owner = .waits (.draw ⟨5⟩) := by decide +kernel
  have htold : (start.run listen drawing).owner = .told (.draw ⟨5⟩) (some ⟨2, ⟨5⟩, 1, 0, true⟩) := by decide +kernel
  have hposted : start.posted listen drawing = [.tick ⟨3⟩, .draw ⟨5⟩] := by decide +kernel
  have hposts : (start.run listen (posting.take 1)).posts (.post (.tick ⟨3⟩)) = [.tick ⟨3⟩] := by decide +kernel
  have hplace : (start.posted listen (posting.take 1)).length < (start.executed listen drawing).length := by
    decide +kernel
  have hregistered : (w.root ⟨0⟩).pending ++ start.registered listen ⟨0⟩ (posting.take 1) = [⟨2⟩, ⟨2⟩] := by
    decide +kernel
  have hsplit : drawing = posting.take 1 ++ .post (.tick ⟨3⟩) :: (posting.drop 2 ++ List.replicate 35 .work) := rfl
  have hclosing : (start.run listen closing).owner = .told .shutdown none := by decide +kernel
  have hclosed : (start.run listen closing).running = false := by decide +kernel
  simp only [start, made, w] at hroot hkind hwaits htold hposted hposts hplace hregistered hclosing hclosed ⊢
  obtain ⟨-, -, -, hanswered, -⟩ := refines_run listen {} .hz60 ⟨0⟩ (.deferred ⟨0⟩) ⟨0⟩ (.deferred ⟨0⟩) ⟨0⟩ ()
    ((Threads.opening ⟨16⟩).map .step) posting hroot hkind
  obtain ⟨-, -, hdone, -, hdrained, -⟩ := refines_run listen {} .hz60 ⟨0⟩ (.deferred ⟨0⟩) ⟨0⟩ (.deferred ⟨0⟩) ⟨0⟩ ()
    ((Threads.opening ⟨16⟩).map .step) drawing hroot hkind
  obtain ⟨-, -, hlast, -, -, hrefused⟩ := refines_run listen {} .hz60 ⟨0⟩ (.deferred ⟨0⟩) ⟨0⟩ (.deferred ⟨0⟩) ⟨0⟩ ()
    ((Threads.opening ⟨16⟩).map .step) closing hroot hkind
  obtain ⟨hall, -⟩ := hdone _ _ htold
  obtain ⟨hend, ys, -, -, -, -, -, -, -, -, hshutdown⟩ := hlast _ _ hclosing
  have hprefix := hdrained rfl (posting.take 1) (.tick ⟨3⟩) (posting.drop 2 ++ List.replicate 35 .work) hsplit rfl
    hposts (.inl hplace)
  have hgone := ((hrefused hclosed []).2 .fence).1
  rw [hregistered] at hprefix
  rw [run_nil] at hgone
  exact ⟨⟨hroot, hwaits, hanswered _ hwaits⟩, ⟨htold, hall.trans hposted, hposted, hprefix⟩, hclosing,
    (hshutdown rfl).2.2.1, hend, hgone⟩

end Proxy

end SceneAnimation
