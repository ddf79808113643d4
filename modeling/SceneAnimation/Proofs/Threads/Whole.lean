import SceneAnimation.Proofs.Threads.Moves
/-!
# Whole operations: jobs and errands done without a pause

Done one after the other, with nothing in between but what listeners do, the jobs of a task have the outcome that the
library gives the task as a whole (`Task.does`), and the errands of a poll that of the poll.  So what every schedule
keeps is kept by the library's own operations: each of them is one of the schedules (`Threads.run_task`,
`Threads.run_poll`).
-/
namespace SceneAnimation

/-- What a frame did that ends in the state `s`. -/
def RenderState.outcome {κ : Type} (s : RenderState κ) : Outcome where
  frameIndex := s.driver.frameIndex
  frameTime := s.driver.frameTime
  prepared := s.pass.tally.prepared
  errors := s.pass.tally.errors
  animating := s.driver.isActive

/-- Whether a job is done inside a frame that has been started. -/
def Job.Inside (j : Job) : Prop := j ≠ .startFrame ∧ j ≠ .beginFrame ∧ ∀ d, j ≠ .renew d

/-- What is done inside a frame leaves nothing that is not. -/
theorem Job.Inside.perform {κ : Type} {j : Job} {rest : List Job} (s : RenderState κ)
    (h : ∀ k ∈ j :: rest, k.Inside) : ∀ k ∈ (j.perform s).1 ++ rest, k.Inside := fun k hk => by
  rcases List.mem_append.1 hk with hk | hk
  · -- only the start of a frame leaves it to be begun
    refine ⟨?_, ?_, fun d hd => renew_not_mem_perform j s d (hd ▸ hk)⟩
    · rintro rfl
      cases leaves_of_mem hk
    · rintro rfl
      cases leaves_of_mem hk
      exact (h _ List.mem_cons_self).1 rfl
  · exact h k (List.mem_cons_of_mem j hk)

/-- **Jobs done without a pause**, for listeners that do as `react` says. -/
inductive Does {κ : Type} (react : Reaction κ) : List Job → RenderState κ → RenderState κ → Prop where
  | nil (s) : Does react [] s s
  | tell {c rest s s'} (h : Does react rest { s with world := react c.listener c.animator s.world } s') :
    Does react (.tell c :: rest) s s'
  | perform {j rest s s'} (hj : ∀ c, j ≠ .tell c) (h : Does react ((j.perform s).1 ++ rest) (j.perform s).2 s') :
    Does react (j :: rest) s s'

namespace Does

variable {κ : Type} {react : Reaction κ}

theorem append {js ks : List Job} {s s' s'' : RenderState κ} (h : Does react js s s') (hk : Does react ks s' s'') :
    Does react (js ++ ks) s s'' := by
  induction h with
  | nil s => exact hk
  | tell _ ih => exact .tell (ih hk)
  | perform hj _ ih =>
    have hrest := ih hk
    rw [List.append_assoc] at hrest
    exact .perform hj hrest

theorem eq_of_nil {s s' : RenderState κ} (h : Does react [] s s') : s' = s := by
  cases h
  rfl

theorem single {j : Job} {s : RenderState κ} (hj : ∀ c, j ≠ .tell c) (hleft : (j.perform s).1 = []) :
    Does react [j] s (j.perform s).2 := by
  refine .perform hj ?_
  rw [hleft]
  exact .nil _

theorem leave {j : Job} {s s' : RenderState κ} (hj : ∀ c, j ≠ .tell c)
    (h : Does react (j.perform s).1 (j.perform s).2 s') : Does react [j] s s' := by
  refine .perform hj ?_
  rw [List.append_nil]
  exact h

theorem map {α : Type} (f : α → Job) (g : RenderState κ → α → RenderState κ) (h : ∀ s a, Does react [f a] s (g s a)) :
    ∀ (l : List α) (s : RenderState κ), Does react (l.map f) s (l.foldl g s)
  | [], s => .nil s
  | a :: l, s => (h s a).append (map f g h l (g s a))

/-- **No job after the start of a frame changes its time or its number.** -/
theorem frame_kept {js : List Job} {s s' : RenderState κ} (h : Does react js s s') (hjs : ∀ j ∈ js, j.Inside) :
    s'.driver.frameTime = s.driver.frameTime ∧ s'.driver.frameIndex = s.driver.frameIndex := by
  induction h with
  | nil s => exact ⟨rfl, rfl⟩
  | tell _ ih => exact ih fun j hj => hjs j (List.mem_cons_of_mem _ hj)
  | @perform j rest s s' _ _ ih =>
    have hj := hjs j List.mem_cons_self
    obtain ⟨htime, hindex⟩ := Job.frame_perform (s := s) hj.2.1 hj.2.2
    obtain ⟨htime', hindex'⟩ := ih (Job.Inside.perform s hjs)
    exact ⟨htime'.trans htime, hindex'.trans hindex⟩

/-! ## The start of a frame -/

variable (react)

theorem schedule (s : RenderState κ) (n : NodeId) : Does react [.schedule n] s { s with driver := s.driver.add n } :=
  single (by simp) rfl

theorem foldl_add : ∀ (ns : List NodeId) (s : RenderState κ),
    ns.foldl (fun s n => { s with driver := s.driver.add n }) s = { s with driver := s.driver.addAll ns }
  | [], _ => rfl
  | n :: ns, s => foldl_add ns { s with driver := s.driver.add n }

theorem takePending (s : RenderState κ) (r : RootId) :
    Does react [.takePending r] s
      { s with driver := (s.driver.drain r s.world).2.1, world := (s.driver.drain r s.world).2.2 } := by
  refine leave (by simp) ?_
  have h := map Job.schedule _ (schedule react) (s.world.takePending r).1
    { s with world := (s.world.takePending r).2 }
  rwa [foldl_add] at h

theorem startFrame (s : RenderState κ) :
    Does react [.startFrame] s
      { s with driver := (s.driver.startFrame s.world).2.1, world := (s.driver.startFrame s.world).2.2 } := by
  refine leave (by simp) ?_
  cases ho : s.driver.outlet with
  | inline =>
    simp only [Job.perform, Driver.startFrame, ho]
    exact single (by simp) rfl
  | deferred r held =>
    simp only [Job.perform, Driver.startFrame, ho]
    exact (takePending react s r).append (single (by simp) rfl)

/-! ## Running a node -/

theorem tells (batch : List Completion) (s : RenderState κ) :
    Does react (batch.map .tell) s { s with world := s.world.notify react batch } := by
  induction batch generalizing s with
  | nil => exact .nil s
  | cons c batch ih => exact .tell (ih { s with world := react c.listener c.animator s.world })

theorem report (s : RenderState κ) (batch : List Completion) :
    Does react [.report batch] s
      { s with
        driver := (s.driver.report react batch s.world).1
        world := (s.driver.report react batch s.world).2 } := by
  refine leave (by simp) ?_
  cases ho : s.driver.outlet with
  | inline =>
    simp only [Job.perform, Driver.report, Outlet.report, ho]
    have h := tells react batch s
    rw [← ho]
    exact h
  | deferred r held =>
    simp only [Job.perform, Driver.report, Outlet.report, ho]
    exact .nil _

theorem run (s : RenderState κ) (n : NodeId) (walked : Bool) :
    let ran := s.driver.runNode react n s.world
    let after : RenderState κ := { s with driver := ran.2.1, world := ran.2.2 }
    Does react [.run n walked] s (if ran.1 then ((Job.keep n walked).perform after).2 else after) := by
  intro ran after
  refine leave (by simp) ?_
  have hreport := report react { s with world := { s.world with
    scene := (s.world.scene.animate n s.driver.frameTime).2 } } (s.world.scene.animate n s.driver.frameTime).1
  show Does react (.report _ :: if (s.world.scene.animate n s.driver.frameTime).2.hasAnimators n then _ else _) _
    (if (s.world.scene.animate n s.driver.frameTime).2.hasAnimators n then _ else _)
  split
  · exact hreport.append (single (by simp) rfl)
  · exact hreport

theorem visit (s : RenderState κ) (n : NodeId) : Does react [.visit n] s (s.animateNode react n) := by
  refine leave (by simp) ?_
  have h := run react
    { s with driver := { s.driver with schedule := s.driver.schedule.visit n } } n true
  unfold RenderState.animateNode
  dsimp only at h ⊢
  split at h
  · rw [if_pos (by assumption)]
    exact h
  · rw [if_neg (by assumption)]
    exact h

theorem foldl_inside {α : Type} (f : Driver × World κ → α → Driver × World κ) : ∀ (l : List α) (s : RenderState κ),
    l.foldl (fun s a => { s with driver := (f (s.driver, s.world) a).1, world := (f (s.driver, s.world) a).2 }) s =
      { s with driver := (l.foldl f (s.driver, s.world)).1, world := (l.foldl f (s.driver, s.world)).2 }
  | [], _ => rfl
  | a :: l, s => foldl_inside f l { s with driver := (f (s.driver, s.world) a).1, world := (f (s.driver, s.world) a).2 }

theorem leftover (s : RenderState κ) (n : NodeId) :
    Does react [.leftover n] s { s with
      driver := (Driver.runLeftover react (s.driver, s.world) n).1
      world := (Driver.runLeftover react (s.driver, s.world) n).2 } := by
  refine leave (by simp) ?_
  simp only [Job.perform, Driver.runLeftover]
  split
  · exact single (by simp) rfl
  · have h := run react s n false
    dsimp only at h
    split at h
    · rw [if_pos (by assumption)]
      exact h
    · rw [if_neg (by assumption)]
      exact h

theorem post (s : RenderState κ) :
    Does react [.post] s
      { s with driver := (s.driver.post s.world).2.1, world := (s.driver.post s.world).2.2 } :=
  single (by simp) rfl

theorem takeLeftovers (s : RenderState κ) : Does react [.takeLeftovers] s { s with
    driver := (s.driver.runLeftovers react s.world).1, world := (s.driver.runLeftovers react s.world).2 } := by
  refine leave (by simp) ?_
  have h := map Job.leftover _ (leftover react) s.driver.schedule.takeCurrent.1
    { s with driver := { s.driver with schedule := s.driver.schedule.takeCurrent.2 } }
  rwa [foldl_inside] at h

theorem runRemaining (s : RenderState κ) :
    Does react [.takeLeftovers, .noteActive, .post] s (s.runRemaining react).2 :=
  (takeLeftovers react s).append ((single (by simp) rfl : Does react [.noteActive] _ _).append (post react _))

theorem takeAll (s : RenderState κ) :
    Does react [.takeAll] s
      { s with driver := (s.driver.destroy react s.world).1, world := (s.driver.destroy react s.world).2 } := by
  refine leave (by simp) ?_
  have hfinish : ∀ (s : RenderState κ) (n : NodeId), Does react [.finish n] s { s with
      driver := (Driver.finishNode react (s.driver, s.world) n).1
      world := (Driver.finishNode react (s.driver, s.world) n).2 } := fun s n =>
    leave (by simp) (report react { s with world := { s.world with scene := (s.world.scene.finishAll n).2 } } _)
  have h := map Job.finish _ hfinish s.driver.schedule.takeAll.1
    { s with driver := { s.driver with schedule := s.driver.schedule.takeAll.2 } }
  rw [foldl_inside] at h
  exact h.append (post react _)

/-! ## The walk -/

theorem enter (s : RenderState κ) (n : NodeId) : Does react [.enter n] s (s.enter react n) := by
  refine leave (by simp) ?_
  simp only [Job.perform, RenderState.enter]
  split
  · exact visit react _ n
  · exact .nil _

theorem prepareWithin : ∀ (depth : Nat) (n : NodeId) (s : RenderState κ),
    Does react [.prepare depth n] s (s.prepareWithin react depth n)
  | 0, _, _ => single (by simp) rfl
  | depth + 1, n, s => by
    refine leave (by simp) ?_
    simp only [Job.perform, RenderState.prepareWithin]
    split
    · exact single (by simp) rfl
    · refine (enter react s n).append (leave (by simp) ?_)
      simp only [Job.perform]
      cases ((s.enter react n).world.scene.node n).properties.problem? with
      | some problem => exact single (by simp) rfl
      | none =>
        refine leave (by simp) ?_
        exact map (Job.prepare depth) (fun s child => s.prepareWithin react depth child)
          (fun s child => prepareWithin depth child s) ((s.enter react n).world.scene.node n).children (s.enter react n)

theorem openPass (s : RenderState κ) (r : RootId) : Does react [.openPass r] s (s.prepareRoot react r) := by
  refine leave (by simp) ?_
  have hnode : ((s.world.beginPass r).root r).node = (s.world.root r).node := by
    rw [World.beginPass, World.root_setRoot, if_pos rfl]
  have hwalk := prepareWithin react (RenderState.walkReserve + s.world.scene.nodes.size) (s.world.root r).node
    { s with pass := { s.pass with sink := .root r }, world := s.world.beginPass r }
  refine hwalk.append ?_
  unfold RenderState.prepareRoot
  dsimp only
  rw [hnode]
  exact single (by simp) rfl

/-! ## The end of every job -/

theorem ends_of_each (js : List Job) (h : ∀ j ∈ js, ∀ s : RenderState κ, ∃ s', Does react [j] s s')
    (s : RenderState κ) : ∃ s', Does react js s s' := by
  induction js generalizing s with
  | nil => exact ⟨s, .nil s⟩
  | cons j js ih =>
    obtain ⟨s₁, h₁⟩ := h j List.mem_cons_self s
    obtain ⟨s₂, h₂⟩ := ih (fun k hk => h k (List.mem_cons_of_mem j hk)) s₁
    exact ⟨s₂, h₁.append h₂⟩

theorem descend (s : RenderState κ) (depth : Nat) (n : NodeId) : ∃ s', Does react [.descend depth n] s s' := by
  obtain ⟨s', h⟩ := ends_of_each react ((s.world.scene.node n).children.map (.prepare depth)) (fun j hj s => by
    obtain ⟨m, -, rfl⟩ := List.mem_map.1 hj
    exact ⟨_, prepareWithin react depth m s⟩) s
  exact ⟨s', leave (by simp) h⟩

/-- **Every job comes to an end**, with all that it leaves to be done. -/
theorem ends_single (j : Job) (s : RenderState κ) : ∃ s', Does react [j] s s' := by
  cases j with
  | tell c => exact ⟨_, .tell (.nil _)⟩
  | startFrame => exact ⟨_, startFrame react s⟩
  | takePending r => exact ⟨_, takePending react s r⟩
  | openPass r => exact ⟨_, openPass react s r⟩
  | prepare depth n => exact ⟨_, prepareWithin react depth n s⟩
  | enter n => exact ⟨_, enter react s n⟩
  | descend depth n => exact descend react s depth n
  | check depth n =>
    cases hp : (s.world.scene.node n).properties.problem? with
    | some problem =>
      refine ⟨s.skip n problem, leave (by simp) ?_⟩
      simp only [Job.perform, hp]
      exact single (by simp) rfl
    | none =>
      obtain ⟨s', h⟩ := descend react s depth n
      refine ⟨s', leave (by simp) ?_⟩
      simp only [Job.perform, hp]
      exact h
  | visit n => exact ⟨_, visit react s n⟩
  | run n walked => exact ⟨_, run react s n walked⟩
  | report batch => exact ⟨_, report react s batch⟩
  | takeLeftovers =>
    obtain ⟨s', h⟩ := ends_of_each react (s.driver.schedule.takeCurrent.1.map .leftover) (fun j hj s => by
      obtain ⟨n, -, rfl⟩ := List.mem_map.1 hj
      exact ⟨_, leftover react s n⟩) (Job.takeLeftovers.perform s).2
    exact ⟨s', leave (by simp) h⟩
  | leftover n => exact ⟨_, leftover react s n⟩
  | takeAll => exact ⟨_, takeAll react s⟩
  | finish n => exact ⟨_, leave (by simp) (report react _ _)⟩
  | _ => exact ⟨_, single (by simp) rfl⟩

theorem ends (js : List Job) (s : RenderState κ) : ∃ s', Does react js s s' :=
  ends_of_each react js (fun j _ => ends_single react j) s

/-! ## Whole operations -/

theorem frame (root : RootId) (kind : FrameKind) (r : Readings) (s : RenderState κ) :
    let ran := Frame.run react root kind r s.driver s.world
    ∃ pass, Does react (Task.frameJobs root kind) s ⟨ran.driver, pass, ran.world⟩ ∧
      RenderState.outcome ⟨ran.driver, pass, ran.world⟩ = ran.outcome := by
  let s₁ : RenderState κ :=
    { driver := (s.driver.startFrame s.world).2.1
      pass := { frameTime := (s.driver.startFrame s.world).2.1.frameTime }
      world := (s.driver.startFrame s.world).2.2 }
  have hopen : Does react [.startFrame, .newPass] s s₁ := (startFrame react s).append (single (by simp) rfl)
  cases kind with
  | draw =>
    have hrest := (openPass react s₁ root).append (runRemaining react (s₁.prepareRoot react root))
    obtain ⟨htime, hindex⟩ := hrest.frame_kept (by simp [Job.Inside])
    refine ⟨_, hopen.append hrest, ?_⟩
    simp only [RenderState.outcome, Frame.run]
    rw [Outcome.mk.injEq]
    exact ⟨hindex, htime, rfl, rfl, rfl⟩
  | tick =>
    have hrest := runRemaining react s₁
    obtain ⟨htime, hindex⟩ := hrest.frame_kept (by simp [Job.Inside])
    refine ⟨_, hopen.append hrest, ?_⟩
    simp only [RenderState.outcome, Frame.run]
    rw [Outcome.mk.injEq]
    exact ⟨hindex, htime, rfl, rfl, rfl⟩

end Does

/-- **A task**, as a render thread with that pipeline performs it.  The frame that it draws ends in the state that tells
its outcome. -/
theorem Task.does {κ : Type} (react : Reaction κ) (readings : Readings) (task : Task) (r : RenderThread) (pass : Pass)
    (w : World κ) :
    let done := RenderThread.perform react readings task r w
    ∃ pass', Does react (task.jobs r.pipeline.root r.pipeline.kind r.pipeline.clock) ⟨r.pipeline.driver, pass, w⟩
      ⟨done.thread.pipeline.driver, pass', done.world⟩ ∧
      ∀ outcome ∈ done.outcomes,
        RenderState.outcome ⟨done.thread.pipeline.driver, pass', done.world⟩ = outcome := by
  cases task with
  | draw t =>
    obtain ⟨pass', h, houtcome⟩ := Does.frame react r.pipeline.root .draw readings
      ⟨r.pipeline.driver, pass, w.setClock r.pipeline.clock ((w.clock r.pipeline.clock).vsync t)⟩
    have hclock : Does react [.vsync r.pipeline.clock t] ⟨r.pipeline.driver, pass, w⟩ _ := .single (by simp) rfl
    exact ⟨pass', hclock.append h, fun outcome ho => houtcome.trans (List.mem_singleton.1 ho).symm⟩
  | tick now =>
    obtain ⟨pass', h, -⟩ := Does.frame react r.pipeline.root .tick readings
      ⟨r.pipeline.driver, pass, w.setClock r.pipeline.clock ((w.clock r.pipeline.clock).catchUp now)⟩
    have hclock : Does react [.catchUp r.pipeline.clock now] ⟨r.pipeline.driver, pass, w⟩ _ := .single (by simp) rfl
    exact ⟨pass', hclock.append h, fun _ ho => nomatch ho⟩
  | setInterval d => exact ⟨pass, .single (by simp) rfl, fun _ ho => nomatch ho⟩
  | reset =>
    have h := Does.takeAll react ⟨r.pipeline.driver, pass, w⟩
    exact ⟨pass, h.append (.single (by simp) rfl), fun _ ho => nomatch ho⟩
  | trace on => exact ⟨pass, .nil _, fun _ ho => nomatch ho⟩
  | fence => exact ⟨pass, .nil _, fun _ ho => nomatch ho⟩
  | shutdown => exact ⟨pass, Does.takeAll react ⟨r.pipeline.driver, pass, w⟩, fun _ ho => nomatch ho⟩

namespace Request

variable {κ : Type} {react : Reaction κ}

/-- What the library makes of a request. -/
def outcome (react : Reaction κ) (s : RenderState κ) : Request → RenderState κ
  | .add n => { s with driver := s.driver.add n }
  | .drain r => { s with driver := (s.driver.drain r s.world).2.1, world := (s.driver.drain r s.world).2.2 }
  | .startFrame => { s with driver := (s.driver.startFrame s.world).2.1, world := (s.driver.startFrame s.world).2.2 }
  | .prepareNode n => s.prepare react n
  | .prepareRoot r => s.prepareRoot react r
  | .animateNode n => s.animateNode react n
  | .runRemaining => (s.runRemaining react).2
  | .reportFinished c =>
    { s with driver := (s.driver.report react [c] s.world).1, world := (s.driver.report react [c] s.world).2 }
  | .destroy => { s with driver := (s.driver.destroy react s.world).1, world := (s.driver.destroy react s.world).2 }

theorem does (s : RenderState κ) : ∀ q : Request, Does react (q.jobs s.world) s (q.outcome react s)
  | .add n => Does.schedule react s n
  | .drain r => Does.takePending react s r
  | .startFrame => Does.startFrame react s
  | .prepareNode n => Does.prepareWithin react (RenderState.walkReserve + s.world.scene.nodes.size) n s
  | .prepareRoot r => Does.openPass react s r
  | .animateNode n => Does.visit react s n
  | .runRemaining => Does.runRemaining react s
  | .reportFinished c => Does.report react s [c]
  | .destroy => Does.takeAll react s

end Request

namespace Threads

variable {κ : Type} {react : Reaction κ}

/-- Listeners do nothing but make calls. -/
def Calling (react : Reaction κ) : Prop := ∀ l a w, ∃ cs, react l a w = w.calls cs

/-- A step of the render thread, or a call from a listener. -/
def InFrame (x : Step κ) : Prop := x = .job ∨ ∃ c, x = .call c

/-- A step of a poll, or a call from a listener. -/
def InPoll (x : Step κ) : Prop := x = .errand ∨ ∃ c, x = .call c

theorem run_calls : ∀ (cs : List (Call κ)) (t : Threads κ), ∃ due,
    t.run (cs.map .call) = { t.inWorld (t.world.calls cs) with due }
  | [], t => ⟨t.due, rfl⟩
  | c :: cs, t => by
    obtain ⟨due, h⟩ := run_calls cs (t.make c)
    refine ⟨due, ?_⟩
    rw [List.map_cons, run_cons, step, h]
    unfold make World.calls World.call
    rw [List.foldl_cons]
    split <;> rfl

/-- **Done without a pause, jobs are a schedule.** -/
theorem run_does (hreact : Calling react) {js : List Job} {s s' : RenderState κ} (h : Does react js s s') :
    ∀ t : Threads κ, t.jobs = js → t.state = s → ∃ xs due, (∀ x ∈ xs, InFrame x) ∧
      t.run xs = { t with jobs := [], state := s', due } := by
  induction h with
  | nil s =>
    rintro t hj rfl
    refine ⟨[], t.due, fun _ hx => absurd hx List.not_mem_nil, ?_⟩
    rw [run_nil, ← hj]
  | @tell c rest s s' _ ih =>
    rintro t hj rfl
    obtain ⟨cs, hcs⟩ := hreact c.listener c.animator t.state.world
    obtain ⟨due, hcalls⟩ := run_calls cs t.doJob
    have hdone : t.doJob = { t with jobs := rest } := by rw [doJob, hj]; rfl
    obtain ⟨xs, due', hxs, hrun⟩ := ih { t.inWorld (react c.listener c.animator t.state.world) with jobs := rest, due }
      rfl rfl
    -- what the listener calls comes between this job and the next
    refine ⟨.job :: (cs.map .call ++ xs), due', ?_, ?_⟩
    · have hcall : ∀ x ∈ cs.map (Step.call (κ := κ)), InFrame x := List.forall_mem_map.2 fun c' _ => .inr ⟨c', rfl⟩
      exact List.forall_mem_cons.2 ⟨.inl rfl, List.forall_mem_append.2 ⟨hcall, hxs⟩⟩
    · rw [run_cons, run_append]
      show ((t.doJob).run (cs.map .call)).run xs = _
      rw [hcalls, hdone]
      rw [hcs] at hrun
      exact hrun
  | @perform j rest s s' hj' _ ih =>
    rintro t hj rfl
    have hdone : t.doJob = { t with jobs := (j.perform t.state).1 ++ rest, state := (j.perform t.state).2 } := by
      rw [doJob, hj]
    obtain ⟨xs, due, hxs, hrun⟩ := ih t.doJob (by rw [hdone]) (by rw [hdone])
    refine ⟨.job :: xs, due, List.forall_mem_cons.2 ⟨.inl rfl, hxs⟩, ?_⟩
    rw [run_cons]
    show t.doJob.run xs = _
    rw [hrun, hdone]

/-- **What the render thread makes of a task is one of the schedules.** -/
theorem run_task (hreact : Calling react) (readings : Readings) (task : Task) (r : RenderThread) (t : Threads κ)
    (hj : t.jobs = []) (hready : t.ready = true) (hroot : r.pipeline.root = t.root) (hkind : r.pipeline.kind = t.kind)
    (hclock : r.pipeline.clock = t.clock) (hdriver : r.pipeline.driver = t.driver) :
    let done := RenderThread.perform react readings task r t.world
    ∃ xs due pass, (∀ x ∈ xs, InFrame x) ∧ t.run (.start task :: xs) =
      { t with jobs := [], state := ⟨done.thread.pipeline.driver, pass, done.world⟩, due } := by
  intro done
  obtain ⟨pass, h, -⟩ := Task.does react readings task r t.state.pass t.world
  rw [hroot, hkind, hclock, hdriver] at h
  have hbegin : t.begin task = { t with jobs := task.jobs t.root t.kind t.clock } := by
    rw [begin, hj, hready]
    rfl
  obtain ⟨xs, due, hxs, hrun⟩ := run_does hreact h (t.begin task) (by rw [hbegin]) (by rw [hbegin]; rfl)
  refine ⟨xs, due, pass, hxs, ?_⟩
  rw [run_cons]
  show (t.begin task).run xs = _
  rw [hrun, hbegin]

/-- **What a driver makes of a request is a move and steps.** -/
theorem moves_ask (hreact : Calling react) (q : Request) (t : Threads κ) (hj : t.jobs = []) (he : t.equipped = true)
    (hq : q.named t.world = true) : ∃ (xs : List (Step κ)) (due : List NodeId), (∀ x ∈ xs, InFrame x) ∧
      t.moves (.ask q :: xs.map .step) = { t with jobs := [], state := q.outcome react t.state, due } := by
  have hask : t.ask q = { t with jobs := q.jobs t.world } := by
    rw [ask, hj, he, hq]
    rfl
  obtain ⟨xs, due, hxs, hrun⟩ := run_does hreact (q.does t.state) (t.ask q) (by rw [hask]; rfl) (by rw [hask])
  refine ⟨xs, due, hxs, ?_⟩
  rw [moves_cons, moves_map]
  show (t.ask q).run xs = _
  rw [hrun, hask]

/-! ## Polls -/

theorem run_tells (hreact : Calling react) (rest : List Errand) : ∀ (batch : List Completion) (t : Threads κ),
    t.errands = batch.map .tell ++ rest → ∃ xs due, (∀ x ∈ xs, InPoll x) ∧
      t.run xs = { t.inWorld (t.world.notify react batch) with errands := rest, due }
  | [], t, he => by
    refine ⟨[], t.due, fun _ hx => absurd hx List.not_mem_nil, ?_⟩
    have he : t.errands = rest := he
    rw [run_nil, ← he]
    rfl
  | c :: batch, t, he => by
    obtain ⟨cs, hcs⟩ := hreact c.listener c.animator t.world
    obtain ⟨due, hcalls⟩ := run_calls cs t.doErrand
    have hdone : t.doErrand = { t with errands := batch.map .tell ++ rest } := by rw [doErrand, he]; rfl
    obtain ⟨xs, due', hxs, hrun⟩ := run_tells hreact rest batch
      { t.inWorld (react c.listener c.animator t.world) with errands := batch.map .tell ++ rest, due } rfl
    refine ⟨.errand :: (cs.map .call ++ xs), due', ?_, ?_⟩
    · have hcall : ∀ x ∈ cs.map (Step.call (κ := κ)), InPoll x := List.forall_mem_map.2 fun c' _ => .inr ⟨c', rfl⟩
      exact List.forall_mem_cons.2 ⟨.inl rfl, List.forall_mem_append.2 ⟨hcall, hxs⟩⟩
    · have hnotify : t.world.notify react (c :: batch) = (t.world.calls cs).notify react batch := by rw [← hcs]; rfl
      rw [run_cons, run_append]
      show ((t.doErrand).run (cs.map .call)).run xs = _
      rw [hcalls, hdone, hnotify]
      rw [hcs] at hrun
      exact hrun

/-- **At most `n` deliveries are run**, as the library runs them. -/
theorem run_receive (hreact : Calling react) (m : MailboxId) : ∀ (n : Nat) (t : Threads κ),
    t.errands = [.receive m n] → ∃ xs due, (∀ x ∈ xs, InPoll x) ∧
      t.run xs = { t.inWorld (t.world.runUpTo react m n).2 with errands := [], due }
  | 0, t, he => by
    refine ⟨[.errand], t.due, fun x hx => .inl (List.mem_singleton.1 hx), ?_⟩
    show t.doErrand = _
    rw [doErrand, he]
    rfl
  | n + 1, t, he => by
    have hdone : t.doErrand = { t.inWorld ((Errand.receive m (n + 1)).perform [] t.world).2 with
        errands := ((Errand.receive m (n + 1)).perform [] t.world).1 } := by rw [doErrand, he]
    cases hr : t.world.receive? m with
    | none =>
      refine ⟨[.errand], t.due, fun x hx => .inl (List.mem_singleton.1 hx), ?_⟩
      show t.doErrand = _
      rw [hdone]
      simp only [Errand.perform, World.runUpTo, hr]
      rfl
    | some x =>
      obtain ⟨d, w⟩ := x
      cases d with
      | report report =>
        -- a report is raised, and the poll ends with it
        refine ⟨[.errand], t.due, fun x hx => .inl (List.mem_singleton.1 hx), ?_⟩
        show t.doErrand = _
        rw [hdone]
        simp only [Errand.perform, Errand.ofDelivery, World.runUpTo, World.runDelivery, hr]
        rfl
      | completions batch =>
        have htells : t.doErrand = { t.inWorld w with errands := batch.map .tell ++ [.receive m n] } := by
          rw [hdone]
          simp only [Errand.perform, Errand.ofDelivery, hr]
        obtain ⟨xs, due, hxs, hrun⟩ := run_tells hreact [.receive m n] batch t.doErrand (by rw [htells])
        obtain ⟨ys, due', hys, hrest⟩ := run_receive hreact m n (t.doErrand.run xs) (by rw [hrun])
        refine ⟨.errand :: (xs ++ ys), due',
          List.forall_mem_cons.2 ⟨.inl rfl, List.forall_mem_append.2 ⟨hxs, hys⟩⟩, ?_⟩
        rw [run_cons, run_append]
        show (t.doErrand.run xs).run ys = _
        rw [hrest, hrun, htells]
        simp only [World.runUpTo, World.runDelivery, hr]
        rfl

theorem run_pollErrand (hreact : Calling react) (t : Threads κ) {m : MailboxId} (he : t.errands = [.poll m]) :
    ∃ xs due, (∀ x ∈ xs, InPoll x) ∧
      t.run xs = { t.inWorld (t.world.poll react m).2 with errands := [], due } := by
  have hfirst : t.doErrand = { t with errands := [.receive m (t.world.mailbox m).queue.length] } := by
    rw [doErrand, he]
    rfl
  obtain ⟨xs, due, hxs, hrun⟩ := run_receive hreact m _ t.doErrand (by rw [hfirst])
  refine ⟨.errand :: xs, due, List.forall_mem_cons.2 ⟨.inl rfl, hxs⟩, ?_⟩
  show t.doErrand.run xs = _
  rw [hrun, hfirst]
  rfl

/-- **What the owner makes of a poll is one of the schedules**, if no listener polls again. -/
theorem run_poll (hreact : Calling react) (t : Threads κ) {m : MailboxId} (he : t.errands = [])
    (hm : t.world.ownerMailbox = some m) : ∃ xs due, (∀ x ∈ xs, InPoll x) ∧
      t.run (.poll :: xs) = { t.inWorld (t.world.poll react m).2 with errands := [], due } := by
  have hbegin : t.beginPoll .poll = { t with errands := [.poll m] } := by rw [beginPoll, he, hm]
  obtain ⟨xs, due, hxs, hrun⟩ := run_pollErrand hreact (t.beginPoll .poll) (by rw [hbegin])
  refine ⟨xs, due, hxs, ?_⟩
  show (t.beginPoll .poll).run xs = _
  rw [hrun, hbegin]
  rfl

/-- **So is what the owner makes of a wait.** -/
theorem run_waitAndPoll (hreact : Calling react) (t : Threads κ) {m : MailboxId} (he : t.errands = [])
    (hm : t.world.ownerMailbox = some m) : ∃ xs due, (∀ x ∈ xs, InPoll x) ∧
      t.run (.waitAndPoll :: xs) = { t.inWorld (t.world.waitAndPoll react m).2 with errands := [], due } := by
  have hbegin : t.beginPoll .wait = { t with errands := [.wait m] } := by rw [beginPoll, he, hm]
  have hdone : (t.beginPoll .wait).doErrand = { t.inWorld ((Errand.wait m).perform [] t.world).2 with
      errands := ((Errand.wait m).perform [] t.world).1 } := by rw [hbegin]; rfl
  cases hr : t.world.receive? m with
  | none =>
    refine ⟨[.errand], t.due, fun x hx => .inl (List.mem_singleton.1 hx), ?_⟩
    show (t.beginPoll .wait).doErrand = _
    rw [hdone]
    simp only [Errand.perform, World.waitAndPoll, hr]
    rfl
  | some x =>
    obtain ⟨d, w⟩ := x
    cases d with
    | report report =>
      refine ⟨[.errand], t.due, fun x hx => .inl (List.mem_singleton.1 hx), ?_⟩
      show (t.beginPoll .wait).doErrand = _
      rw [hdone]
      simp only [Errand.perform, Errand.ofDelivery, World.waitAndPoll, World.runDelivery, hr]
      rfl
    | completions batch =>
      have htells : (t.beginPoll .wait).doErrand =
          { t.inWorld w with errands := batch.map .tell ++ [.poll m] } := by
        rw [hdone]
        simp only [Errand.perform, Errand.ofDelivery, hr]
      obtain ⟨xs, due, hxs, hrun⟩ := run_tells hreact [.poll m] batch (t.beginPoll .wait).doErrand (by rw [htells])
      obtain ⟨ys, due', hys, hrest⟩ := run_pollErrand hreact ((t.beginPoll .wait).doErrand.run xs) (by rw [hrun])
      refine ⟨.errand :: (xs ++ ys), due',
        List.forall_mem_cons.2 ⟨.inl rfl, List.forall_mem_append.2 ⟨hxs, hys⟩⟩, ?_⟩
      rw [run_cons, run_cons, run_append]
      show ((t.beginPoll .wait).doErrand.run xs).run ys = _
      rw [hrest, hrun, htells]
      simp only [World.waitAndPoll, World.runDelivery, hr]
      rfl

end Threads

end SceneAnimation
