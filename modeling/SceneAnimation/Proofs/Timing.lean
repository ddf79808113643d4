import SceneAnimation.Proofs.Operations
import SceneAnimation.Proofs.Threads.Works
/-!
# Timing: frame time never runs backwards

A clock is only ever moved on, by whomever (`World.Onward`).  A frame reads its clock once, when it starts, and runs
every node at the time it read, whatever happens to the clock meanwhile.  So the times of a pipeline's frames never run
backwards, across resets too (`Operated.time_run`).
-/
namespace SceneAnimation

/-! ## Instants and clocks -/

namespace Instant

variable {a b c : Instant}

theorem le_refl (a : Instant) : a ≤ a := UInt64.le_refl a.nanos

theorem le_trans (h : a ≤ b) (h' : b ≤ c) : a ≤ c := UInt64.le_trans h h'

theorem le_later_left (a b : Instant) : a ≤ a.later b := by
  unfold later
  split
  · rename_i h
    exact UInt64.le_of_lt h
  · exact le_refl a

theorem later_le (ha : a ≤ c) (hb : b ≤ c) : a.later b ≤ c := by
  unfold later
  split
  · exact hb
  · exact ha

theorem le_later_right (a b : Instant) : b ≤ a.later b := by
  unfold later
  split
  · exact le_refl b
  · rename_i h
    exact UInt64.not_lt.1 h

end Instant

namespace Clock

theorem le_vsync (c : Clock) (t : Instant) : c.frameTime ≤ (c.vsync t).frameTime := Instant.le_later_left ..

/-- A vertical sync that is not later moves nothing. -/
theorem vsync_of_le {c : Clock} {t : Instant} (h : t ≤ c.frameTime) : c.vsync t = c := by
  have hlater : c.frameTime.later t = c.frameTime := if_neg (UInt64.not_lt.2 h)
  rw [vsync, hlater]

/-- A boundary is not after the time that it is asked for. -/
theorem le_of_boundary {c : Clock} {now t : Instant} (h : c.boundary now = .ok (some t)) : t ≤ now := by
  unfold boundary Instant.minus at h
  dsimp only at h
  split at h
  · split at h
    · rename_i hle
      cases h
      exact UInt64.sub_le hle
    · cases h
  · cases h

theorem le_catchUp (c : Clock) (now : Instant) : c.frameTime ≤ (c.catchUp now).frameTime := by
  unfold catchUp
  split
  · exact c.le_vsync _
  · exact Instant.le_refl _

theorem catchUp_le (c : Clock) (now : Instant) : (c.catchUp now).frameTime ≤ c.frameTime.later now := by
  unfold catchUp
  split
  · rename_i h
    exact Instant.later_le (Instant.le_later_left ..)
      (Instant.le_trans (le_of_boundary h) (Instant.le_later_right ..))
  · exact Instant.le_later_left ..

end Clock

theorem FrameKind.le_move (kind : FrameKind) (t : Instant) (c : Clock) : c.frameTime ≤ (kind.move t c).frameTime := by
  cases kind with
  | draw => exact c.le_vsync t
  | tick => exact c.le_catchUp t

/-! ## Clocks are only moved on -/

/-- **All clocks go on**: each that was there is still there, at the same time or a later one. -/
structure World.Onward {κ : Type} (w w' : World κ) : Prop where
  numbered : w'.clocks.Below (·.index)
  known : ∀ c ∈ w.clocks, c ∈ w'.clocks
  later : ∀ c ∈ w.clocks, (w.clock c).frameTime ≤ (w'.clock c).frameTime

namespace World

variable {κ : Type} {w w' w'' : World κ}

theorem Onward.of_clocks (h : w.clocks.Below (·.index)) (he : w'.clocks = w.clocks) : w.Onward w' where
  numbered := he ▸ h
  known _ hc := he ▸ hc
  later c _ := by
    rw [clock, clock, he]
    exact Instant.le_refl _

theorem Onward.trans (h : w.Onward w') (h' : w'.Onward w'') : w.Onward w'' where
  numbered := h'.numbered
  known c hc := h'.known c (h.known c hc)
  later c hc := Instant.le_trans (h.later c hc) (h'.later c (h.known c hc))

theorem onward_setClock (h : w.clocks.Below (·.index)) {c : ClockId} (hc : c ∈ w.clocks) {x : Clock}
    (hx : (w.clock c).frameTime ≤ x.frameTime) : w.Onward (w.setClock c x) where
  numbered := h.set (.inl hc) x
  known _ hd := (Table.mem_set ..).2 (.inr hd)
  later d _ := by
    rw [clock_setClock]
    split
    · rename_i he
      exact he ▸ hx
    · exact Instant.le_refl _

theorem onward_addClock (h : w.clocks.Below (·.index)) (interval : Span) : w.Onward (w.addClock interval).2 where
  numbered := h.set (.inr rfl) _
  known _ hd := (Table.mem_set ..).2 (.inr hd)
  later d hd := by
    have hne : d ≠ ⟨w.clocks.size⟩ := fun he => h.not_mem (congrArg ClockId.index he) hd
    rw [addClock, clock_setClock, if_neg hne]
    exact Instant.le_refl _

theorem clocks_endPass (w : World κ) (r : RootId) : (w.endPass r).clocks = w.clocks := by
  unfold endPass
  dsimp only
  split <;> rfl

theorem clocks_reportError (w : World κ) (r : RootId) (message : String) :
    (w.reportError r message).clocks = w.clocks := by
  unfold reportError
  dsimp only
  split <;> rfl

end World

/-- Calls on clocks move them on, and all other calls leave them alone. -/
theorem Call.onward_effect {κ : Type} {w : World κ} (h : w.clocks.Below (·.index)) (c : Call κ)
    (hc : c.named w = true) : w.Onward (c.effect w) := by
  cases c with
  | addClock interval => exact World.onward_addClock h interval
  | vsync c t => exact World.onward_setClock h (of_decide_eq_true hc) (Clock.le_vsync ..)
  | catchUp c now => exact World.onward_setClock h (of_decide_eq_true hc) (Clock.le_catchUp ..)
  | setInterval c interval => exact World.onward_setClock h (of_decide_eq_true hc) (Instant.le_refl _)
  | reportError r message => exact .of_clocks h (World.clocks_reportError ..)
  | openMailbox =>
    refine .of_clocks h ?_
    simp only [effect, World.openMailbox]
    split <;> rfl
  | closeMailbox =>
    refine .of_clocks h ?_
    simp only [effect, World.closeMailbox]
    split <;> rfl
  | _ => exact .of_clocks h rfl

namespace Owner

variable {κ : Type} {o o' : Owner κ}

theorem onward_step (h : o.world.clocks.Below (·.index)) (x : Step κ) : o.world.Onward (o.step x).world := by
  cases x with
  | send q d | sendToOwner r d =>
    simp only [step]
    split <;> exact .of_clocks h rfl
  | call c =>
    simp only [step, inWorld, World.call]
    split
    · exact Call.onward_effect h c (by assumption)
    · exact .of_clocks h rfl
  | poll | waitAndPoll =>
    simp only [step, beginPoll]
    split <;> exact .of_clocks h rfl
  | errand =>
    simp only [step, doErrand]
    split
    · exact .of_clocks h rfl
    · exact .of_clocks h rfl
    · rename_i e rest outer _
      rcases Errand.world_perform e rest o.world with he | ⟨m, d, he⟩
      · exact .of_clocks h (congrArg World.clocks he)
      · obtain ⟨queue, -, hw⟩ := World.receive?_eq_some.1 he
        exact .of_clocks h (by rw [hw]; rfl)

theorem onward_run (xs : List (Step κ)) (h : o.world.clocks.Below (·.index)) : o.world.Onward (o.run xs).world :=
  run_keeps (P := fun u => o.world.Onward u.world) (fun _ x hu => hu.trans (onward_step hu.numbered x)) xs o
    (.of_clocks h rfl)

/-- **Listeners only move clocks on.** -/
theorem Follows.onward {react : Reaction κ} (hreact : Follows react) (l : ListenerId) (a : AnimatorId) {w : World κ}
    (h : w.clocks.Below (·.index)) : w.Onward (react l a w) := by
  obtain ⟨xs, hxs⟩ := hreact l a { world := w }
  have hrun := onward_run (o := { world := w }) xs h
  rw [hxs] at hrun
  exact hrun

end Owner

/-! ## The jobs of a frame -/

namespace Job

variable {κ : Type} {s : RenderState κ}

/-- Whether a job leaves all clocks alone. -/
def Timeless : Job → Prop
  | .vsync .. | .catchUp .. | .setInterval .. => False
  | _ => True

theorem clocks_perform {j : Job} (hj : j.Timeless) (s : RenderState κ) :
    (j.perform s).2.world.clocks = s.world.clocks := by
  cases j with
  | vsync c t | catchUp c now | setInterval c interval => exact hj.elim
  | startFrame | prepare depth n | check depth n => rw [state_of_asks (by trivial)]
  | closePass r sink => exact World.clocks_endPass ..
  | skip n problem =>
    obtain ⟨-, h | ⟨r, message, -, h⟩⟩ := skip_spec n problem s
    · rw [h]
    · rw [h]
      exact World.clocks_reportError ..
  | report batch =>
    obtain ⟨outlet, -, h⟩ := report_spec batch s
    rw [h]
  | post =>
    obtain ⟨outlet, -, h | ⟨r, batch, -, h⟩⟩ := post_spec s
    · rw [h]
    · rw [h]
      rfl
  | _ => rfl

/-- Only a new driver can read another clock. -/
theorem clock_perform {j : Job} (hj : ∀ d, j ≠ .renew d) (s : RenderState κ) :
    (j.perform s).2.driver.clock = s.driver.clock := by
  cases j with
  | renew d => exact absurd rfl (hj d)
  | startFrame | prepare depth n | check depth n => rw [state_of_asks (by trivial)]
  | skip n problem => rw [(skip_spec n problem s).1]
  | report batch =>
    obtain ⟨outlet, -, h⟩ := report_spec batch s
    rw [h]
  | post =>
    obtain ⟨outlet, -, h | ⟨r, batch, -, h⟩⟩ := post_spec s
    · rw [h]
    · rw [h]
  | _ => rfl

theorem timeless_left {j k : Job} (h : k ∈ (j.perform s).1) : k.Timeless := by
  cases leaves_of_mem h <;> trivial

end Job

namespace Does

variable {κ : Type} {react : Reaction κ} {js : List Job} {s s' : RenderState κ}

/-- **What a driver does moves clocks on only**, and the driver stays with its clock. -/
theorem onward (hreact : Owner.Follows react) (h : Does react js s s') (hn : s.world.clocks.Below (·.index))
    (hjs : ∀ j ∈ js, j.Timeless ∧ ∀ d, j ≠ .renew d) :
    s.world.Onward s'.world ∧ s'.driver.clock = s.driver.clock := by
  induction h with
  | nil s => exact ⟨.of_clocks hn rfl, rfl⟩
  | @tell c rest s s' _ ih =>
    have htold := hreact.onward c.listener c.animator hn
    obtain ⟨hw, hc⟩ := ih htold.numbered fun j hj => hjs j (List.mem_cons_of_mem _ hj)
    exact ⟨htold.trans hw, hc⟩
  | @perform j rest s s' _ _ ih =>
    obtain ⟨htime, hrenew⟩ := hjs j List.mem_cons_self
    have hclocks := World.Onward.of_clocks hn (Job.clocks_perform htime s)
    obtain ⟨hw, hc⟩ := ih hclocks.numbered fun k hk => (List.mem_append.1 hk).elim
      (fun hk => ⟨Job.timeless_left hk, fun d hd => Job.renew_not_mem_perform j s d (hd ▸ hk)⟩)
      fun hk => hjs k (List.mem_cons_of_mem j hk)
    exact ⟨hclocks.trans hw, hc.trans (Job.clock_perform hrenew s)⟩

end Does

/-! ## A frame runs at one time -/

/-- **Jobs done without a pause, and what they do to nodes**, in order, for listeners that do as `react` says.  What a
job does to the scene is the effect of its deed, and without one it does nothing to it. -/
inductive Acts {κ : Type} (react : Reaction κ) : List Job → RenderState κ → List Deed → RenderState κ → Prop where
  | nil (s) : Acts react [] s [] s
  | tell {c rest s ds s'} (h : Acts react rest { s with world := react c.listener c.animator s.world } ds s') :
    Acts react (.tell c :: rest) s ds s'
  | perform {j rest s ds s'} (hj : ∀ c, j ≠ .tell c)
    (hscene : (j.perform s).2.world.scene = (j.deed? s).elim s.world.scene (·.effect s.world.scene))
    (h : Acts react ((j.perform s).1 ++ rest) (j.perform s).2 ds s') :
    Acts react (j :: rest) s ((j.deed? s).toList ++ ds) s'

theorem Job.time_of_deed {κ : Type} {s : RenderState κ} {j : Job} {n : NodeId} {now : Instant}
    (h : .run n now ∈ (j.deed? s).toList) : now = s.driver.frameTime := by
  cases j with
  | run m walked => cases List.mem_singleton.1 h; rfl
  | finish m | discard m => cases List.mem_singleton.1 h
  | _ => cases h

section Inside

variable {κ : Type} {react : Reaction κ}

theorem Does.acts {js : List Job} {s s' : RenderState κ} (h : Does react js s s') : ∃ ds, Acts react js s ds s' := by
  induction h with
  | nil s => exact ⟨[], .nil s⟩
  | tell _ ih =>
    obtain ⟨ds, h⟩ := ih
    exact ⟨ds, .tell h⟩
  | perform hj _ ih =>
    obtain ⟨ds, h⟩ := ih
    exact ⟨_, .perform hj (Job.scene_deed ..) h⟩

/-- **Whatever listeners do**, all nodes are run at the frame's time. -/
theorem Acts.time {js : List Job} {s s' : RenderState κ} {ds : List Deed} (h : Acts react js s ds s')
    (hjs : ∀ j ∈ js, j.Inside) {n : NodeId} {now : Instant} (hrun : .run n now ∈ ds) : now = s.driver.frameTime := by
  induction h with
  | nil s => cases hrun
  | tell _ ih => exact ih (fun j hj => hjs j (List.mem_cons_of_mem _ hj)) hrun
  | @perform j rest s ds s' _ _ _ ih =>
    have hj := hjs j List.mem_cons_self
    rcases List.mem_append.1 hrun with hrun | hrun
    · exact Job.time_of_deed hrun
    · exact (ih (Job.Inside.perform s hjs) hrun).trans (Job.frame_perform hj.2.1 hj.2.2).1

theorem Threads.inside_step {t : Threads κ} (hjs : ∀ j ∈ t.jobs, j.Inside) {x : Step κ} (hx : ∀ task, x ≠ .start task) :
    (∀ j ∈ (t.step x).jobs, j.Inside) ∧ (t.step x).driver.frameTime = t.driver.frameTime := by
  cases x with
  | start task => exact absurd rfl (hx task)
  | call c =>
    simp only [step, make]
    split <;> exact ⟨hjs, rfl⟩
  | poll | waitAndPoll =>
    simp only [step, beginPoll]
    split <;> exact ⟨hjs, rfl⟩
  | errand =>
    simp only [step, doErrand]
    split <;> exact ⟨hjs, rfl⟩
  | job =>
    simp only [step, doJob]
    split
    · exact ⟨hjs, rfl⟩
    · rename_i j rest he
      rw [he] at hjs
      have hj := hjs j List.mem_cons_self
      exact ⟨Job.Inside.perform t.state hjs, (Job.frame_perform hj.2.1 hj.2.2).1⟩

/-- What a job does to the scene is its deed, whatever the owner's thread did before it. -/
theorem Threads.scene_job (t : Threads κ) (before : List (Step κ)) : (t.run (before ++ [.job])).scene =
    ((t.run before).deed? (.step .job)).elim (t.run before).scene (·.effect (t.run before).scene) := by
  rw [run_append]
  rcases (t.run before).scene_move (.step .job) with ⟨d, hd, hscene⟩ | ⟨hd, ⟨c, hc, -⟩ | ⟨-, hscene⟩⟩
  · rw [hd]
    exact hscene
  · cases hc
  · rw [hd]
    exact hscene

/-- **Whatever the owner's thread does meanwhile**, all nodes are run at the frame's time. -/
theorem Threads.time_done : ∀ {zs : List (Step κ)} {t : Threads κ}, (∀ j ∈ t.jobs, j.Inside) →
    (∀ task, .start task ∉ zs) → ∀ {n : NodeId} {now : Instant}, .run n now ∈ t.done zs → now = t.driver.frameTime
  | [], _, _, _, _, _, h => nomatch h
  | x :: zs, t, hjs, hstart, n, now, h => by
    obtain ⟨hjs', htime⟩ := inside_step hjs fun task hx => hstart task (hx ▸ List.mem_cons_self)
    rcases List.mem_append.1 h with h | h
    · cases x with
      | job =>
        cases hj : t.jobs with
        | nil =>
          rw [deeds, deed?, hj] at h
          cases h
        | cons j rest =>
          rw [deeds, deed?, hj] at h
          exact Job.time_of_deed h
      | _ => cases h
    · exact (time_done hjs' (fun task hx => hstart task (List.mem_cons_of_mem x hx)) h).trans htime

end Inside

/-! ## Frames -/

theorem Schedule.frame_add (s : Schedule) (n : NodeId) :
    (s.add n).frameTime = s.frameTime ∧ (s.add n).frameIndex = s.frameIndex := by
  unfold add
  split <;> exact ⟨rfl, rfl⟩

theorem Driver.frame_addAll : ∀ (ns : List NodeId) (d : Driver),
    (d.addAll ns).frameTime = d.frameTime ∧ (d.addAll ns).frameIndex = d.frameIndex
  | [], _ => ⟨rfl, rfl⟩
  | n :: ns, d => by
    obtain ⟨htime, hindex⟩ := frame_addAll ns (d.add n)
    obtain ⟨htime', hindex'⟩ := d.schedule.frame_add n
    exact ⟨htime.trans htime', hindex.trans hindex'⟩

/-- **A frame starts at the clock's time**, and is the next in number. -/
theorem Driver.frame_startFrame {κ : Type} (d : Driver) (w : World κ) :
    (d.startFrame w).2.1.frameTime = (w.clock d.clock).frameTime ∧
      (d.startFrame w).2.1.frameIndex = d.frameIndex + 1 := by
  unfold startFrame
  split
  · exact ⟨rfl, rfl⟩
  · rename_i r held _
    exact ⟨rfl, congrArg (· + 1) (frame_addAll (w.takePending r).1 d).2⟩

namespace Pipeline

variable {κ : Type} {react : Reaction κ} {p : Pipeline} {w : World κ}

theorem inside_remaining (p : Pipeline) (kind : FrameKind) : ∀ j ∈ p.remaining kind, j.Inside := by
  cases kind <;> simp [remaining, Task.frameJobs, Job.Inside]

theorem time_started (hd : p.driver.clock = p.clock) (kind : FrameKind) (v : Instant) :
    (p.started kind v w).1.frameTime = (kind.move v (w.clock p.clock)).frameTime := by
  rw [started, (Driver.frame_startFrame ..).1, moved, hd, World.clock_setClock, if_pos rfl]

variable (react)

theorem frameTime_frame (kind : FrameKind) (readings : Readings) (v : Instant) :
    (p.frame react kind readings v w).outcome.frameTime = (p.started kind v w).1.frameTime := by
  rw [frame_eq]
  rfl

theorem clock_frame (kind : FrameKind) (readings : Readings) (v : Instant) :
    (p.frame react kind readings v w).pipeline.clock = p.clock := by
  rw [frame_eq]
  rfl

theorem frameIndex_frame (kind : FrameKind) (readings : Readings) (v : Instant) :
    (p.frame react kind readings v w).outcome.frameIndex = p.driver.frameIndex + 1 := by
  rw [frame_eq]
  exact (p.driver.frame_startFrame (p.moved kind v w)).2

/-- **What happens in a frame that has been started**: its jobs, one after the other. -/
theorem does_remaining (kind : FrameKind) (readings : Readings) (v : Instant) (pass : Pass) :
    let d := p.frame react kind readings v w
    ∃ pass', Does react (p.remaining kind) ⟨(p.started kind v w).1, pass, (p.started kind v w).2⟩
      ⟨d.pipeline.driver, pass', d.world⟩ := by
  intro d
  let began := p.started kind v w
  let s : RenderState κ := ⟨began.1, { frameTime := began.1.frameTime }, began.2⟩
  have hpass : Does react [.newPass] ⟨began.1, pass, began.2⟩ s := .single (by simp) rfl
  cases kind with
  | draw => exact ⟨_, hpass.append ((Does.openPass react s p.root).append (Does.runRemaining react _))⟩
  | tick => exact ⟨_, hpass.append (Does.runRemaining react s)⟩

variable {react}

theorem onward_frame (hreact : Owner.Follows react) (hn : w.clocks.Below (·.index)) (hc : p.clock ∈ w.clocks)
    (kind : FrameKind) (readings : Readings) (v : Instant) :
    let d := p.frame react kind readings v w
    w.Onward (p.moved kind v w) ∧ (p.moved kind v w).Onward d.world ∧ d.pipeline.driver.clock = p.driver.clock ∧
      d.pipeline.driver.frameIndex = p.driver.frameIndex + 1 := by
  intro d
  have hmoved : w.Onward (p.moved kind v w) := World.onward_setClock hn hc (kind.le_move v _)
  obtain ⟨pass, hdoes, houtcome⟩ := Does.frame react p.root kind readings
    ⟨p.driver, { frameTime := Instant.zero }, p.moved kind v w⟩
  obtain ⟨hworld, hclock⟩ := hdoes.onward hreact hmoved.numbered
    (by cases kind <;> simp [Task.frameJobs, Job.Timeless])
  have hindex := @frameIndex_frame _ react p w kind readings v
  simp only [d]
  rw [frame_eq] at hindex ⊢
  exact ⟨hmoved, hworld, hclock, (congrArg Outcome.frameIndex houtcome).trans hindex⟩

theorem onward_destroy (hreact : Owner.Follows react) (hn : w.clocks.Below (·.index)) :
    w.Onward (p.destroy react w).2 ∧ (p.destroy react w).1.driver.clock = p.driver.clock ∧
      (p.destroy react w).1.driver.frameIndex = p.driver.frameIndex := by
  have hdoes := Does.takeAll react ⟨p.driver, { frameTime := Instant.zero }, w⟩
  obtain ⟨hworld, hclock⟩ := hdoes.onward hreact hn (by simp [Job.Timeless])
  exact ⟨hworld, hclock, (hdoes.frame_kept (by simp [Job.Inside])).2⟩

end Pipeline

namespace Operated

variable {κ : Type} {react : Reaction κ}

/-- **What a frame at `v` does**, for a pipeline in the state `x`: it is drawn at `v` or the clock's time, whichever is
later, or ticked between the two, and it runs nodes at its own time only, both as listeners do what `react` says and
whatever the owner's thread does meanwhile. -/
structure OnTime (react : Reaction κ) (kind : FrameKind) (v : Instant) (x : Operated κ) (d : Drawn κ) : Prop where
  drawn : kind = .draw → d.outcome.frameTime = (x.world.clock x.pipeline.clock).frameTime.later v
  ticked : kind = .tick → d.outcome.frameTime ≤ (x.world.clock x.pipeline.clock).frameTime.later v
  onward : (x.world.clock x.pipeline.clock).frameTime ≤ d.outcome.frameTime
  /-- What the frame does once it has been started, for listeners that do as `react` says. -/
  runs : ∀ pass, ∃ ds pass', Acts react (x.pipeline.remaining kind)
    ⟨(x.pipeline.started kind v x.world).1, pass, (x.pipeline.started kind v x.world).2⟩ ds
    ⟨d.pipeline.driver, pass', d.world⟩ ∧ ∀ n now, .run n now ∈ ds → now = d.outcome.frameTime
  /-- The jobs of the frame, with any steps of the owner's thread and of listeners in between. -/
  meanwhile : ∀ t : Threads κ, t.driver = (x.pipeline.started kind v x.world).1 → t.jobs = x.pipeline.remaining kind →
    ∀ zs, (∀ task, .start task ∉ zs) →
      (∀ n now, .run n now ∈ t.done zs → now = d.outcome.frameTime) ∧
      ∀ before after, zs = before ++ .job :: after → (t.run (before ++ [.job])).scene =
        ((t.run before).deed? (.step .job)).elim (t.run before).scene (·.effect (t.run before).scene)

/-- **The state of a pipeline that reads `clock`**, after frames with the outcomes `past`, the last `n` of them since it
was made or reset. -/
structure Timed (clock : ClockId) (past : List Outcome) (n : Nat) (x : Operated κ) : Prop where
  numbered : x.world.clocks.Below (·.index)
  known : clock ∈ x.world.clocks
  clock_eq : x.pipeline.clock = clock
  driver : x.pipeline.driver.clock = clock
  index : x.pipeline.driver.frameIndex = n
  ordered : past.Pairwise fun o o' => o.frameTime ≤ o'.frameTime
  before : ∀ o ∈ past, o.frameTime ≤ (x.world.clock clock).frameTime

variable {clock : ClockId} {past : List Outcome} {n : Nat} {x : Operated κ}

theorem Timed.onTime (h : x.Timed clock past n) (react : Reaction κ) (kind : FrameKind) (readings : Readings)
    (v : Instant) :
    x.OnTime react kind v (x.pipeline.frame react kind readings v x.world) := by
  have hstart := Pipeline.time_started (w := x.world) (h.driver.trans h.clock_eq.symm) kind v
  have htime := @Pipeline.frameTime_frame _ react x.pipeline x.world kind readings v
  have hinside := x.pipeline.inside_remaining kind
  refine ⟨?_, ?_, ?_, fun pass => ?_, fun t hdriver hjobs zs hstart => ⟨fun n now hrun => ?_, fun before _ _ => ?_⟩⟩
  · rintro rfl
    exact htime.trans hstart
  · rintro rfl
    rw [htime, hstart]
    exact Clock.catchUp_le ..
  · rw [htime, hstart]
    exact kind.le_move v _
  · obtain ⟨pass', hdoes⟩ := @Pipeline.does_remaining _ react x.pipeline x.world kind readings v pass
    obtain ⟨ds, hacts⟩ := hdoes.acts
    exact ⟨ds, pass', hacts, fun n now hrun => (hacts.time hinside hrun).trans htime.symm⟩
  · rw [htime, ← hdriver]
    exact Threads.time_done (hjobs ▸ hinside) hstart hrun
  · exact t.scene_job before

/-- The answer of a frame is not before those of the frames before it. -/
theorem Timed.frame (hreact : Owner.Follows react) (h : x.Timed clock past n) (kind : FrameKind) (readings : Readings)
    (v : Instant) : (x.step react (.frame kind readings v)).Timed clock
      (past ++ [(x.pipeline.frame react kind readings v x.world).outcome]) (n + 1) := by
  let d := x.pipeline.frame react kind readings v x.world
  obtain ⟨hmoved, hworld, hclock, hindex⟩ :=
    Pipeline.onward_frame hreact h.numbered (h.clock_eq ▸ h.known) kind readings v
  have hpast := (h.onTime react kind readings v).onward
  rw [h.clock_eq] at hpast
  have hlast : d.outcome.frameTime ≤ (d.world.clock clock).frameTime := by
    -- the frame reads the clock at its start, and from there listeners only move it on
    have hstart := Pipeline.time_started (w := x.world) (h.driver.trans h.clock_eq.symm) kind v
    have hnow : ((x.pipeline.moved kind v x.world).clock clock).frameTime = d.outcome.frameTime := by
      rw [Pipeline.frameTime_frame, hstart, Pipeline.moved, h.clock_eq, World.clock_setClock, if_pos rfl]
    exact hnow ▸ hworld.later clock (hmoved.known clock h.known)
  exact {
    numbered := hworld.numbered
    known := hworld.known clock (hmoved.known clock h.known)
    clock_eq := (Pipeline.clock_frame react kind readings v).trans h.clock_eq
    driver := hclock.trans h.driver
    index := by rw [← h.index]; exact hindex
    ordered := List.pairwise_append.2 ⟨h.ordered, List.pairwise_singleton .., fun o ho o' ho' =>
      List.mem_singleton.1 ho' ▸ Instant.le_trans (h.before o ho) hpast⟩
    before := fun o ho => by
      rcases List.mem_append.1 ho with ho | ho
      · exact Instant.le_trans (h.before o ho) (Instant.le_trans hpast hlast)
      · exact List.mem_singleton.1 ho ▸ hlast }

/-- What moves clocks on only keeps the past. -/
theorem Timed.onward (h : x.Timed clock past n) {y : Operated κ} {m : Nat} (hw : x.world.Onward y.world)
    (hc : y.pipeline.clock = clock) (hd : y.pipeline.driver.clock = clock) (hm : y.pipeline.driver.frameIndex = m) :
    y.Timed clock past m where
  numbered := hw.numbered
  known := hw.known clock h.known
  clock_eq := hc
  driver := hd
  index := hm
  ordered := h.ordered
  before o ho := Instant.le_trans (h.before o ho) (hw.later clock h.known)

theorem Timed.step (hreact : Owner.Follows react) {ops : List (Operation κ)}
    (h : x.Timed clock past (framesSinceReset ops)) (op : Operation κ) :
    (x.step react op).Timed clock (past ++ answers react x op) (framesSinceReset (ops ++ [op])) := by
  rw [framesSinceReset, List.foldl_append]
  cases op with
  | frame kind readings v => exact h.frame hreact kind readings v
  | reset =>
    obtain ⟨hw, -⟩ := Pipeline.onward_destroy (p := x.pipeline) hreact h.numbered
    rw [show answers react x .reset = [] from rfl, List.append_nil]
    exact h.onward hw h.clock_eq h.clock_eq rfl
  | destroy =>
    obtain ⟨hw, hclock, hindex⟩ := Pipeline.onward_destroy (p := x.pipeline) hreact h.numbered
    rw [show answers react x .destroy = [] from rfl, List.append_nil]
    exact h.onward hw h.clock_eq (hclock.trans h.driver) (hindex.trans h.index)
  | install sink =>
    rw [show answers react x (.install sink) = [] from rfl, List.append_nil]
    exact { h with }
  | owner y =>
    rw [show answers react x (.owner y) = [] from rfl, List.append_nil]
    exact h.onward (Owner.onward_step h.numbered y) h.clock_eq h.driver h.index

theorem timed_run (hreact : Owner.Follows react) (root : RootId) (kind : DriverKind) {w : World κ} (hn : w.Numbered)
    (hc : clock ∈ w.clocks) (ops : List (Operation κ)) :
    ((start root kind clock w).run react ops).Timed clock (outcomes react (start root kind clock w) ops)
      (framesSinceReset ops) := by
  have hstart : (start root kind clock w).Timed clock [] (framesSinceReset ([] : List (Operation κ))) :=
    { numbered := hn.clocks, known := hc, clock_eq := rfl, driver := rfl, index := rfl, ordered := .nil
      before := fun _ ho => nomatch ho }
  have h := foldl_keeps_trail (g := fun _ op => [op]) (P := fun past ops x => Timed clock past (framesSinceReset ops) x)
    (fun _ _ _ op hx => hx.step hreact op) ops [] [] (start root kind clock w) hstart
  rwa [List.nil_append, List.nil_append, trail_self] at h

/-- **Frame time never runs backwards.**  A pipeline that reads a clock draws and ticks frames, is reset and destroyed,
and between any two of these the owner's code does what it likes: it may move the clock to a vertical sync, give it
another interval, or anything else.  The times of the frames are in order, across resets too.  A frame for a vertical
sync is at that time, or at the clock's if that is later, and a tick is never later than that; no node is run at any
other time, even if the clock is moved on in the middle of the frame, by a listener or by the owner's thread.  Frames
are numbered from one, and so again after each reset. -/
theorem time_run (react : Reaction κ) (hreact : Owner.Follows react) (root : RootId) (driver : DriverKind)
    (clock : ClockId) (w : World κ) (hn : w.Numbered) (hc : clock ∈ w.clocks) (ops : List (Operation κ)) :
    let new := start root driver clock w
    let x := new.run react ops
    ((outcomes react new ops).Pairwise fun o o' => o.frameTime ≤ o'.frameTime) ∧
    ∀ kind readings v,
      let d := x.pipeline.frame react kind readings v x.world
      x.pipeline.clock = clock ∧ x.OnTime react kind v d ∧
        d.outcome.frameIndex = framesSinceReset (ops ++ [.frame kind readings v]) := by
  intro new x
  have h : x.Timed clock (outcomes react new ops) (framesSinceReset ops) := timed_run hreact root driver hn hc ops
  refine ⟨h.ordered, fun kind readings v => ⟨h.clock_eq, h.onTime react kind readings v, ?_⟩⟩
  rw [framesSinceReset, List.foldl_append, Pipeline.frameIndex_frame, h.index]
  rfl

/-- A listener moves the clock on in the frame of a vertical sync at 5.  The next tick is at the clock's time, as the
interval is zero then, and the one after a reset at a whole interval after it. -/
theorem time_opening :
    let react : Reaction Unit := fun _ _ w => w.calls [.vsync ⟨0⟩ ⟨100⟩]
    let w := ((Threads.blank ⟨0⟩ .inline ⟨0⟩ ()).run (Threads.opening ⟨0⟩ ++ [.call (.addChild ⟨1⟩ ⟨2⟩)])).world
    let ops : List (Operation Unit) :=
      [.frame .draw {} ⟨5⟩, .owner (.call (.setInterval ⟨0⟩ ⟨0⟩)), .frame .tick {} ⟨250⟩, .reset,
        .owner (.call (.setInterval ⟨0⟩ ⟨16⟩)), .frame .tick {} ⟨150⟩]
    let new := start ⟨0⟩ .inline ⟨0⟩ w
    let x := new.run react ops
    (Owner.Follows react ∧ w.Numbered ∧ (⟨0⟩ : ClockId) ∈ w.clocks) ∧
    (outcomes react new ops).map (fun o => (o.frameTime.nanos, o.frameIndex)) = [(5, 1), (100, 2), (148, 1)] ∧
    ((outcomes react new ops).Pairwise fun o o' => o.frameTime ≤ o'.frameTime) ∧
    x.OnTime react .draw ⟨7⟩ (x.pipeline.frame react .draw {} ⟨7⟩ x.world) := by
  intro react w ops new x
  have hreact : Owner.Follows react := Owner.follows_calls fun _ _ _ => [.vsync ⟨0⟩ ⟨100⟩]
  have hn : w.Numbered := (Threads.numbered_run ..).world
  have hc : (⟨0⟩ : ClockId) ∈ w.clocks := by decide +kernel
  obtain ⟨hordered, hframe⟩ := time_run react hreact ⟨0⟩ .inline ⟨0⟩ w hn hc ops
  exact ⟨⟨hreact, hn, hc⟩, by decide +kernel, hordered, (hframe .draw {} ⟨7⟩).2.1⟩

end Operated

end SceneAnimation
