import SceneAnimation.Proofs.Threads.Numbering
import SceneAnimation.Proofs.Threads.Steps
/-!
# Effects: what each call, job and errand can change

One theorem for each part of the state: it says which calls, jobs or errands change that part, and how.  Everything that
is proved of runs is proved from these.
-/
namespace SceneAnimation

/-! ## Calls -/

namespace Call

variable {κ : Type} {w : World κ}

theorem scene_effect (w : World κ) (c : Call κ) : (c.effect w).scene =
    match c with
    | .addNode name => (w.scene.addNode name).2
    | .addRoot _ => (w.scene.addNode "RootRenderNode").2
    | .addAnimator a => (w.scene.addAnimator { a with state := .notStarted }).2
    | .addChild p m => w.scene.addChild p m
    | .removeChild p m => w.scene.removeChild p m
    | .setProperty n q x => w.scene.setProperty n q x
    | .destroyNode n => w.scene.destroyNode n
    | .attach n a => w.scene.attach n a
    | _ => w.scene := by
  cases c with
  | openMailbox =>
    simp only [effect, World.openMailbox]
    cases w.ownerMailbox <;> rfl
  | closeMailbox =>
    simp only [effect, World.closeMailbox]
    cases w.ownerMailbox <;> rfl
  | reportError r message =>
    simp only [effect, World.reportError]
    split <;> rfl
  | _ => rfl

/-- A node that has just been made is like one that has not. -/
theorem node_addNode {s : Scene} (h : s.Numbered) (name : String) (n : NodeId) :
    ((s.addNode name).2.node n).animators = (s.node n).animators ∧
    ((s.addNode name).2.node n).destroyed = (s.node n).destroyed := by
  rw [Scene.addNode, Scene.node_setNode]
  split
  · subst n
    have hnew : ¬ (⟨s.nodes.size + 1⟩ : NodeId) ∈ s.nodes := h.nodes.not_mem rfl
    rw [Scene.node, Table.get_of_not_mem hnew]
    exact ⟨rfl, rfl⟩
  · exact ⟨rfl, rfl⟩

/-- **Only attaching changes which animators a node has.** -/
theorem animators_effect (h : w.scene.Numbered) (c : Call κ) (n : NodeId) :
    ((c.effect w).scene.node n).animators =
      match c with
      | .attach m a => if n = m then (w.scene.node n).animators ++ [a] else (w.scene.node n).animators
      | _ => (w.scene.node n).animators := by
  rw [scene_effect]
  cases c with
  | addNode name => exact (node_addNode h name n).1
  | addRoot m => exact (node_addNode h _ n).1
  | attach m a =>
    simp only [Scene.attach, Scene.node_updateNode]
    split
    · subst n; rfl
    · rfl
  | addChild p m | removeChild p m | destroyNode p | setProperty p q x =>
    simp only [Scene.addChild, Scene.removeChild, Scene.destroyNode, Scene.setProperty, Scene.node_updateNode]
    split
    · subst n; rfl
    · rfl
  | _ => rfl

theorem mem_animators_effect (h : w.scene.Numbered) (c : Call κ) (n : NodeId) (a : AnimatorId) :
    a ∈ ((c.effect w).scene.node n).animators ↔ a ∈ (w.scene.node n).animators ∨ c = .attach n a := by
  rw [animators_effect h]
  cases c with
  | attach m b =>
    dsimp only
    split
    · subst n
      simp [eq_comm]
    · rename_i hn
      have hne : ¬ m = n := fun e => hn e.symm
      simp [hne]
  | _ => simp

/-- **Only destroying a node changes whether it is destroyed.** -/
theorem destroyed_effect (h : w.scene.Numbered) (c : Call κ) (n : NodeId) :
    ((c.effect w).scene.node n).destroyed =
      match c with
      | .destroyNode m => if n = m then true else (w.scene.node n).destroyed
      | _ => (w.scene.node n).destroyed := by
  rw [scene_effect]
  cases c with
  | addNode name => exact (node_addNode h name n).2
  | addRoot m => exact (node_addNode h _ n).2
  | addChild p m | removeChild p m | destroyNode p | setProperty p q x | attach p a =>
    simp only [Scene.attach, Scene.addChild, Scene.removeChild, Scene.destroyNode, Scene.setProperty,
      Scene.node_updateNode]
    split
    · subst n; rfl
    · rfl
  | _ => rfl

/-- **No call changes an animator that has been made, or finishes one.** -/
theorem animator_effect (h : w.scene.Numbered) (c : Call κ) (a : AnimatorId) :
    (c.effect w).scene.animator a = w.scene.animator a ∨ ¬ a ∈ w.scene.animators ∧
      (w.scene.animator a).state = .notStarted ∧ ((c.effect w).scene.animator a).state = .notStarted := by
  rw [scene_effect]
  cases c with
  | addAnimator x =>
    have hnew : ¬ (⟨w.scene.animators.size + 1⟩ : AnimatorId) ∈ w.scene.animators := h.animators.not_mem rfl
    simp only [Scene.addAnimator, Scene.animator, Table.get_set]
    split
    · subst a
      rw [Table.get_of_not_mem hnew]
      exact .inr ⟨hnew, rfl, rfl⟩
    · exact .inl rfl
  | _ => exact .inl rfl

/-- **Only registering changes which nodes wait at a root.** -/
theorem pending_effect (h : w.Numbered) (c : Call κ) (r : RootId) :
    ((c.effect w).root r).pending =
      match c with
      | .register q n => if r = q then (w.root r).pending ++ [n] else (w.root r).pending
      | _ => (w.root r).pending := by
  cases c with
  | register q n =>
    simp only [effect, World.register, World.root_setRoot]
    split
    · subst r; rfl
    · rfl
  | addRoot m =>
    simp only [effect, World.addRoot, World.root_setRoot]
    split
    · subst r
      have hnew : ¬ (⟨w.roots.size⟩ : RootId) ∈ w.roots := h.roots.not_mem rfl
      rw [World.root, Table.get_of_not_mem hnew]
      rfl
    · rfl
  | openMailbox =>
    simp only [effect, World.openMailbox]
    cases w.ownerMailbox <;> rfl
  | closeMailbox =>
    simp only [effect, World.closeMailbox]
    cases w.ownerMailbox <;> rfl
  | reportError q message =>
    simp only [effect, World.reportError]
    split
    · rw [World.root_setRoot]
      split
      · subst r; rfl
      · rfl
    · rfl
  | _ => rfl

end Call

/-! ## Jobs -/

namespace Job

variable {κ : Type}

/-- **What a job can leave to be done**, and when. -/
inductive Leaves (s : RenderState κ) : Job → Job → Prop where
  | takePending {r held} (h : s.driver.outlet = .deferred r held) : Leaves s .startFrame (.takePending r)
  | beginFrame : Leaves s .startFrame .beginFrame
  | schedule {r n} (h : n ∈ (s.world.root r).pending) : Leaves s (.takePending r) (.schedule n)
  | prepareRoot {r depth} : Leaves s (.openPass r) (.prepare depth (s.world.root r).node)
  | closePass {r} : Leaves s (.openPass r) (.closePass r s.pass.sink)
  | skipDestroyed {depth n problem} : Leaves s (.prepare (depth + 1) n) (.skip n problem)
  | enter {depth n} (h : (s.world.scene.node n).destroyed = false) : Leaves s (.prepare (depth + 1) n) (.enter n)
  | check {depth n} : Leaves s (.prepare (depth + 1) n) (.check depth n)
  | visit {n} (h : s.world.scene.hasAnimators n = true) : Leaves s (.enter n) (.visit n)
  | skipInvalid {depth n problem} : Leaves s (.check depth n) (.skip n problem)
  | descend {depth n} : Leaves s (.check depth n) (.descend depth n)
  | prepareChild {depth n m} : Leaves s (.descend depth n) (.prepare depth m)
  | runVisited {n} : Leaves s (.visit n) (.run n true)
  | reportRun {n walked batch} : Leaves s (.run n walked) (.report batch)
  | keep {n walked} (h : (s.world.scene.animate n s.driver.frameTime).2.hasAnimators n = true) :
    Leaves s (.run n walked) (.keep n walked)
  | tell {batch c} (h : s.driver.outlet = .inline) : Leaves s (.report batch) (.tell c)
  | leftover {n} (h : n ∈ s.driver.schedule.current) : Leaves s .takeLeftovers (.leftover n)
  | discard {n} (h : (s.world.scene.node n).destroyed = true) : Leaves s (.leftover n) (.discard n)
  | runLeftover {n} (h : (s.world.scene.node n).destroyed = false) : Leaves s (.leftover n) (.run n false)
  | finish {n} (h : n ∈ s.driver.schedule.current ++ s.driver.schedule.next) : Leaves s .takeAll (.finish n)
  | post : Leaves s .takeAll .post
  | reportFinish {n batch} : Leaves s (.finish n) (.report batch)

theorem leaves_of_mem {j k : Job} {s : RenderState κ} (h : k ∈ (j.perform s).1) : Leaves s j k := by
  cases j with
  | startFrame =>
    simp only [perform] at h
    split at h
    · rw [List.mem_singleton.1 h]
      exact .beginFrame
    · rename_i ho
      rcases List.mem_cons.1 h with rfl | h
      · exact .takePending ho
      · rw [List.mem_singleton.1 h]
        exact .beginFrame
  | takePending r =>
    obtain ⟨n, hn, rfl⟩ := List.mem_map.1 h
    exact .schedule hn
  | openPass r =>
    rcases List.mem_cons.1 h with rfl | h
    · exact .prepareRoot
    · rw [List.mem_singleton.1 h]
      exact .closePass
  | prepare depth n =>
    cases depth with
    | zero => cases h
    | succ depth =>
      simp only [perform] at h
      split at h
      · rw [List.mem_singleton.1 h]
        exact .skipDestroyed
      · rename_i hd
        rcases List.mem_cons.1 h with rfl | h
        · exact .enter (Bool.not_eq_true _ ▸ hd)
        · rw [List.mem_singleton.1 h]
          exact .check
  | enter n =>
    simp only [perform] at h
    split at h
    · rename_i hn
      rw [List.mem_singleton.1 h]
      exact .visit hn
    · cases h
  | check depth n =>
    simp only [perform] at h
    split at h
    · rw [List.mem_singleton.1 h]
      exact .skipInvalid
    · rw [List.mem_singleton.1 h]
      exact .descend
  | descend depth n =>
    obtain ⟨m, -, rfl⟩ := List.mem_map.1 h
    exact .prepareChild
  | visit n =>
    rw [List.mem_singleton.1 h]
    exact .runVisited
  | run n walked =>
    simp only [perform] at h
    rcases List.mem_cons.1 h with rfl | h
    · exact .reportRun
    · split at h
      · rename_i hn
        rw [List.mem_singleton.1 h]
        exact .keep hn
      · cases h
  | report batch =>
    simp only [perform] at h
    split at h
    · rename_i ho
      obtain ⟨c, -, rfl⟩ := List.mem_map.1 h
      exact .tell ho
    · cases h
  | takeLeftovers =>
    obtain ⟨n, hn, rfl⟩ := List.mem_map.1 h
    exact .leftover hn
  | leftover n =>
    simp only [perform] at h
    split at h
    · rename_i hd
      rw [List.mem_singleton.1 h]
      exact .discard hd
    · rename_i hd
      rw [List.mem_singleton.1 h]
      exact .runLeftover (Bool.not_eq_true _ ▸ hd)
  | takeAll =>
    rcases List.mem_append.1 h with h | h
    · obtain ⟨n, hn, rfl⟩ := List.mem_map.1 h
      exact .finish hn
    · rw [List.mem_singleton.1 h]
      exact .post
  | finish n =>
    rw [List.mem_singleton.1 h]
    exact .reportFinish
  | _ => cases h

/-- A report changes what the outlet holds. -/
theorem report_spec (batch : List Completion) (s : RenderState κ) : ∃ outlet,
    outlet.root? = s.driver.outlet.root? ∧
      ((report batch).perform s).2 = { s with driver := { s.driver with outlet } } := by
  cases ho : s.driver.outlet with
  | inline =>
    refine ⟨.inline, rfl, ?_⟩
    simp only [perform, ho]
    rw [← ho]
  | deferred r held =>
    refine ⟨.deferred r (held ++ batch), rfl, ?_⟩
    simp only [perform, ho]

/-- A skip counts an error, and hands it to the pass's sink. -/
theorem skip_spec (n : NodeId) (problem : String) (s : RenderState κ) :
    ((skip n problem).perform s).2.driver = s.driver ∧
    (((skip n problem).perform s).2.world = s.world ∨ ∃ r message, s.pass.sink = .root r ∧
      ((skip n problem).perform s).2.world = s.world.reportError r message) := by
  simp only [perform, RenderState.skip, RenderState.reportError]
  cases hs : s.pass.sink with
  | absent | collector messages => exact ⟨rfl, .inl rfl⟩
  | root q => exact ⟨rfl, .inr ⟨q, _, rfl, rfl⟩⟩

/-- A post empties the outlet, and sends what was held to the owner. -/
theorem post_spec (s : RenderState κ) : ∃ outlet, outlet.root? = s.driver.outlet.root? ∧
    ((post.perform s).2 = { s with driver := { s.driver with outlet } } ∨
      ∃ r batch, s.driver.outlet.root? = some r ∧ (post.perform s).2 =
        { s with driver := { s.driver with outlet }, world := s.world.sendToOwner r (.completions batch) }) := by
  cases ho : s.driver.outlet with
  | inline =>
    refine ⟨.inline, rfl, .inl ?_⟩
    simp only [perform, Driver.post, Outlet.post, ho]
  | deferred r held =>
    refine ⟨.deferred r [], rfl, ?_⟩
    cases held with
    | nil =>
      refine .inl ?_
      simp only [perform, Driver.post, Outlet.post, ho]
    | cons c held =>
      refine .inr ⟨r, c :: held, rfl, ?_⟩
      simp only [perform, Driver.post, Outlet.post, ho]

theorem scene_perform (j : Job) (s : RenderState κ) : (j.perform s).2.world.scene =
    match j with
    | .run n _ => (s.world.scene.animate n s.driver.frameTime).2
    | .finish n => (s.world.scene.finishAll n).2
    | .discard n => s.world.scene.discard n
    | _ => s.world.scene := by
  cases j with
  | startFrame | prepare depth n | check depth n => rw [state_of_asks (by trivial)]
  | report batch =>
    obtain ⟨outlet, -, h⟩ := report_spec batch s
    rw [h]
  | skip n problem =>
    obtain ⟨-, h | ⟨r, message, -, h⟩⟩ := skip_spec n problem s
    · rw [h]
    · rw [h]
      unfold World.reportError
      dsimp only
      split <;> rfl
  | closePass r sink => simp only [perform, World.endPass]; split <;> rfl
  | post =>
    obtain ⟨outlet, -, h | ⟨r, batch, -, h⟩⟩ := post_spec s
    · rw [h]
    · rw [h]
      rfl
  | _ => rfl

/-- **Only the two ends of a pass, and a new pass, change which root takes its errors.** -/
theorem sink_perform (j : Job) (s : RenderState κ) (r : RootId) : (j.perform s).2.pass.sink = .root r ↔
    match j with
    | .newPass => False
    | .openPass q => q = r
    | .closePass _ sink => sink = .root r
    | _ => s.pass.sink = .root r := by
  cases j with
  | newPass => simp [perform]
  | openPass q => simp [perform]
  | keep n walked => cases walked <;> exact Iff.rfl
  | skip n problem =>
    simp only [perform, RenderState.skip, RenderState.reportError]
    cases s.pass.sink <;> simp
  | startFrame | prepare depth n | check depth n => rw [state_of_asks (by trivial)]
  | report batch =>
    obtain ⟨outlet, -, h⟩ := report_spec batch s
    rw [h]
  | _ => exact Iff.rfl

theorem schedule_perform (j : Job) (s : RenderState κ) : (j.perform s).2.driver.schedule =
    match j with
    | .schedule n | .keep n _ => s.driver.schedule.add n
    | .beginFrame => s.driver.schedule.begin (s.world.clock s.driver.clock).frameTime
    | .visit n => s.driver.schedule.visit n
    | .takeLeftovers => s.driver.schedule.takeCurrent.2
    | .takeAll => s.driver.schedule.takeAll.2
    | .renew d => d.schedule
    | _ => s.driver.schedule := by
  cases j with
  | startFrame | prepare depth n | check depth n => rw [state_of_asks (by trivial)]
  | report batch =>
    obtain ⟨outlet, -, h⟩ := report_spec batch s
    rw [h]
  | skip n problem => rw [(skip_spec n problem s).1]
  | _ => rfl

/-- Only the start of a frame and a new driver change the time and the number of a frame. -/
theorem frame_perform {j : Job} {s : RenderState κ} (hb : j ≠ .beginFrame) (hr : ∀ d, j ≠ .renew d) :
    (j.perform s).2.driver.frameTime = s.driver.frameTime ∧
      (j.perform s).2.driver.frameIndex = s.driver.frameIndex := by
  have hadd : ∀ n, (s.driver.schedule.add n).frameTime = s.driver.schedule.frameTime ∧
      (s.driver.schedule.add n).frameIndex = s.driver.schedule.frameIndex := by
    intro n
    unfold Schedule.add
    split <;> exact ⟨rfl, rfl⟩
  simp only [Driver.frameTime, Driver.frameIndex, Job.schedule_perform]
  cases j with
  | schedule n => exact hadd n
  | keep n walked => exact hadd n
  | beginFrame => exact absurd rfl hb
  | renew d => exact absurd rfl (hr d)
  | _ => exact ⟨rfl, rfl⟩

/-- **What a job does to a root.**  Only a frame's start takes the waiting nodes, and the mailbox stays the owner's. -/
theorem root_perform (j : Job) (s : RenderState κ) (r : RootId) : ∃ openPass, (j.perform s).2.world.root r =
    { s.world.root r with
      pending := match j with
        | .takePending q => if r = q then [] else (s.world.root r).pending
        | _ => (s.world.root r).pending
      openPass } := by
  have hset : ∀ q openPass, ∃ o, (s.world.setRoot q { s.world.root q with openPass }).root r =
      { s.world.root r with openPass := o } := by
    intro q openPass
    rw [World.root_setRoot]
    split
    · subst r; exact ⟨_, rfl⟩
    · exact ⟨_, rfl⟩
  cases j with
  | takePending q =>
    simp only [perform, World.takePending, World.root_setRoot]
    split
    · subst r; exact ⟨_, rfl⟩
    · exact ⟨_, rfl⟩
  | openPass q => exact hset q _
  | closePass q sink =>
    simp only [perform, World.endPass]
    split
    · exact hset q _
    · exact hset q _
  | skip n problem =>
    obtain ⟨-, h | ⟨q, message, -, h⟩⟩ := skip_spec n problem s
    · rw [h]
      exact ⟨_, rfl⟩
    · rw [h]
      unfold World.reportError
      dsimp only
      split
      · exact hset q _
      · exact ⟨_, rfl⟩
  | startFrame | prepare depth n | check depth n =>
    rw [state_of_asks (by trivial)]
    exact ⟨_, rfl⟩
  | report batch =>
    obtain ⟨outlet, -, h⟩ := report_spec batch s
    rw [h]
    exact ⟨_, rfl⟩
  | post =>
    obtain ⟨outlet, -, h | ⟨q, batch, -, h⟩⟩ := post_spec s
    · rw [h]
      exact ⟨_, rfl⟩
    · rw [h]
      exact ⟨_, rfl⟩
  | _ => exact ⟨_, rfl⟩

theorem pending_perform (j : Job) (s : RenderState κ) (r : RootId) : ((j.perform s).2.world.root r).pending =
    match j with
    | .takePending q => if r = q then [] else (s.world.root r).pending
    | _ => (s.world.root r).pending := by
  obtain ⟨o, h⟩ := root_perform j s r
  rw [h]

theorem owner_perform (j : Job) (s : RenderState κ) (r : RootId) :
    ((j.perform s).2.world.root r).owner = (s.world.root r).owner := by
  obtain ⟨o, h⟩ := root_perform j s r
  rw [h]

theorem animators_perform (j : Job) (s : RenderState κ) (n : NodeId) :
    ((j.perform s).2.world.scene.node n).animators.Sublist (s.world.scene.node n).animators := by
  rw [scene_perform]
  cases j with
  | run m walked => exact (Scene.ran_animate ..).animators_sublist n
  | finish m => exact (Scene.ran_finishAll ..).animators_sublist n
  | discard m =>
    rw [Scene.animators_discard]
    split
    · exact List.nil_sublist _
    · exact List.Sublist.refl _
  | _ => exact List.Sublist.refl _

/-- **No job changes whether a node is destroyed.** -/
theorem destroyed_perform (j : Job) (s : RenderState κ) (n : NodeId) :
    ((j.perform s).2.world.scene.node n).destroyed = (s.world.scene.node n).destroyed := by
  rw [scene_perform]
  cases j with
  | run m walked => exact (Scene.ran_animate ..).destroyed_eq n
  | finish m => exact (Scene.ran_finishAll ..).destroyed_eq n
  | discard m =>
    simp only [Scene.discard, Scene.node_updateNode]
    split
    · subst n; rfl
    · rfl
  | _ => rfl

theorem renew_not_mem_perform (j : Job) (s : RenderState κ) (d : Driver) : ¬ .renew d ∈ (j.perform s).1 :=
  fun h => nomatch leaves_of_mem h

/-- What a job leaves to be done does not replace the driver, so a replacement still to come was to come before. -/
theorem split_perform {j : Job} {s : RenderState κ} {rest before after : List Job} {d : Driver}
    (h : (j.perform s).1 ++ rest = before ++ .renew d :: after) :
    ∃ bs, before = (j.perform s).1 ++ bs ∧ rest = bs ++ .renew d :: after := by
  rcases List.append_eq_append_iff.1 h with ⟨bs, hb, hr⟩ | ⟨bs, hb, hr⟩
  · exact ⟨bs, hb, hr⟩
  · cases bs with
    | nil => exact ⟨[], by simpa using hb.symm, by simpa using hr.symm⟩
    | cons k bs =>
      rw [List.cons_append, List.cons.injEq] at hr
      have hm : Job.renew d ∈ (j.perform s).1 := by
        rw [hb, hr.1]
        exact List.mem_append.2 (.inr List.mem_cons_self)
      exact absurd hm (renew_not_mem_perform j s d)

end Job

/-! ## Tasks -/

/-- **Only a reset replaces the driver**, by a new one, and it takes all nodes before. -/
theorem Task.renew_jobs {root : RootId} {k : DriverKind} {clock : ClockId} {task : Task} {before after : List Job}
    {d : Driver} (h : task.jobs root k clock = before ++ .renew d :: after) :
    before = [.takeAll] ∧ d = k.create clock := by
  have hmem : Job.renew d ∈ task.jobs root k clock := h ▸ List.mem_append.2 (.inr List.mem_cons_self)
  cases task with
  | reset =>
    cases before with
    | nil => cases h
    | cons i before =>
      simp only [jobs, List.cons_append, List.cons.injEq] at h
      obtain ⟨rfl, h⟩ := h
      cases before with
      | nil =>
        simp only [List.nil_append, List.cons.injEq, Job.renew.injEq] at h
        exact ⟨rfl, h.1.symm⟩
      | cons i before =>
        simp only [List.cons_append, List.cons.injEq] at h
        exact absurd (congrArg List.length h.2) (by simp)
  | draw time | tick now | setInterval i | trace on | fence | shutdown => simp [jobs, frameJobs] at hmem

/-! ## Errands -/

namespace Errand

variable {κ : Type}

/-- **An errand changes the world only by taking a delivery out.** -/
theorem world_perform (e : Errand) (rest : List Errand) (w : World κ) :
    (e.perform rest w).2 = w ∨ ∃ m d, w.receive? m = some (d, (e.perform rest w).2) := by
  cases e with
  | tell c => exact .inl rfl
  | poll m => exact .inl rfl
  | receive m n =>
    cases n with
    | zero => exact .inl rfl
    | succ n =>
      cases h : w.receive? m with
      | none => simp only [perform, h, true_or]
      | some x => exact .inr ⟨m, x.1, by simp only [perform, h]⟩
  | wait m =>
    cases h : w.receive? m with
    | none => simp only [perform, h, true_or]
    | some x => exact .inr ⟨m, x.1, by simp only [perform, h]⟩

theorem scene_perform (e : Errand) (rest : List Errand) (w : World κ) : (e.perform rest w).2.scene = w.scene := by
  rcases world_perform e rest w with h | ⟨m, d, h⟩
  · rw [h]
  · obtain ⟨queue, -, hw⟩ := World.receive?_eq_some.1 h
    rw [hw]
    rfl

theorem roots_perform (e : Errand) (rest : List Errand) (w : World κ) : (e.perform rest w).2.roots = w.roots := by
  rcases world_perform e rest w with h | ⟨m, d, h⟩
  · rw [h]
  · obtain ⟨queue, -, hw⟩ := World.receive?_eq_some.1 h
    rw [hw]
    rfl

end Errand

end SceneAnimation
