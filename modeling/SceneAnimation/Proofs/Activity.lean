import SceneAnimation.Proofs.Threads.Stages
/-!
# Activity: between two tasks, what is scheduled animates

While a frame opens, nodes are scheduled because they were registered.  From its start on they are scheduled because
they have run and kept an animator, and nothing takes that animator from them before the next frame: a second run at
the same time leaves it where it is, only nodes that are not scheduled are discarded, and a teardown empties the
schedule first. So between two tasks a pipeline is active exactly when a node with an animator is scheduled
(`Threads.active_run`).
-/
namespace SceneAnimation

/-- Whether node `n` has an animator that runs at `now` leave attached. -/
def Scene.Animates (s : Scene) (now : Instant) (n : NodeId) : Prop :=
  ∃ a ∈ (s.node n).animators, (s.animator a).Settled now

namespace Scene.Animates

variable {κ : Type} {s : Scene} {now : Instant} {n : NodeId}

theorem ne_nil (h : s.Animates now n) : (s.node n).animators ≠ [] := by
  obtain ⟨a, ha, -⟩ := h
  exact List.ne_nil_of_mem ha

theorem animate (h : s.Animates now n) (m : NodeId) : (s.animate m now).2.Animates now n := by
  obtain ⟨a, ha, hs⟩ := h
  obtain ⟨hsame, hkeeps⟩ := animate_of_settled hs m
  exact ⟨a, hkeeps n ha, hsame ▸ hs⟩

theorem discard (h : s.Animates now n) {m : NodeId} (hm : n ≠ m) : (s.discard m).Animates now n := by
  obtain ⟨a, ha, hs⟩ := h
  refine ⟨a, ?_, hs⟩
  rw [animators_discard, if_neg hm]
  exact ha

theorem effect {w : World κ} (hw : w.scene.Numbered) (h : w.scene.Animates now n) (c : Call κ) :
    (c.effect w).scene.Animates now n := by
  obtain ⟨a, ha, hs⟩ := h
  have hmade := hw.attached n a ha
  have hsame : (c.effect w).scene.animator a = w.scene.animator a :=
    (Call.animator_effect hw c a).resolve_right fun hx => hx.1 hmade
  exact ⟨a, (Call.mem_animators_effect hw c n a).2 (.inl ha), hsame ▸ hs⟩

end Scene.Animates

/-- A node that keeps an animator after its run animates. -/
theorem Scene.animates_of_run {s : Scene} {now : Instant} {n : NodeId} (h : (s.animate n now).2.hasAnimators n = true) :
    (s.animate n now).2.Animates now n := by
  obtain ⟨a, ha⟩ : ∃ a, a ∈ ((s.animate n now).2.node n).animators := by
    refine List.exists_mem_of_ne_nil _ fun he => ?_
    rw [hasAnimators, he] at h
    cases h
  exact ⟨a, ha, s.settled_animate n now ha⟩

namespace Threads

variable {κ : Type} {t : Threads κ}

def Animates (t : Threads κ) (n : NodeId) : Prop := t.scene.Animates t.driver.frameTime n

/-- **What is scheduled animates**, once a frame has been started. -/
structure Active (t : Threads κ) : Prop where
  stages : Stages t.driver.schedule t.jobs
  kept : ∀ n walked, .keep n walked ∈ t.jobs → t.Animates n
  next : (∃ j ∈ t.jobs, j.Opens) ∨ ∀ n ∈ t.driver.schedule.next, t.Animates n

theorem Active.kept_perform (h : t.Active) {j : Job} {rest : List Job} (hj : t.jobs = j :: rest) {n : NodeId}
    {walked : Bool} (hn : .keep n walked ∈ (j.perform t.state).1 ++ rest) :
    (j.perform t.state).2.world.scene.Animates (j.perform t.state).2.driver.frameTime n := by
  have hstages : Stages t.state.driver.schedule (j :: rest) := hj ▸ h.stages
  rcases List.mem_append.1 hn with hk | hk
  · cases Job.leaves_of_mem hk with
    | keep hkept =>
      rw [(Job.frame_perform (j := .run n walked) (by simp) (by simp)).1, Job.scene_perform]
      exact Scene.animates_of_run hkept
  · -- only a report or the like can stand before it
    have hfirst := hstages.first_of_atOnce hk trivial
    have hold : t.Animates n := h.kept n walked (hj ▸ List.mem_cons_of_mem j hk)
    have hscene : (j.perform t.state).2.world.scene = t.scene := by
      rw [Job.scene_perform]
      cases j with
      | run m walked => cases walked <;> cases hfirst
      | finish m | discard m => cases hfirst
      | _ => rfl
    rw [hscene, Driver.frameTime, Stages.schedule_of_first hfirst]
    exact hold

theorem Active.next_perform (hn : t.Numbered) (h : t.Active) {j : Job} {rest : List Job} (hj : t.jobs = j :: rest)
    (hopens : ¬ ∃ k ∈ (j.perform t.state).1 ++ rest, k.Opens) {n : NodeId}
    (hm : n ∈ (j.perform t.state).2.driver.schedule.next) :
    (j.perform t.state).2.world.scene.Animates (j.perform t.state).2.driver.frameTime n := by
  have hstages : Stages t.state.driver.schedule (j :: rest) := hj ▸ h.stages
  have hempty : j = .beginFrame ∨ j = .takeAll ∨ (∃ d, j = .renew d) →
      (j.perform t.state).2.driver.schedule.next = [] := by
    rw [Job.schedule_perform]
    rintro (rfl | rfl | ⟨d, rfl⟩)
    · rfl
    · rfl
    · simp only [hn.renew hj d rfl]
  -- a frame that stops opening starts now, with nothing scheduled yet
  have hstarted : ¬ ∃ k ∈ j :: rest, k.Opens := fun ho => by
    rw [hempty (.inl (hstages.begins_perform ho hopens))] at hm
    cases hm
  have hold : ∀ m ∈ t.driver.schedule.next, t.Animates m := h.next.resolve_left (hj ▸ hstarted)
  by_cases hb : j = .beginFrame
  · rw [hempty (.inl hb)] at hm
    cases hm
  by_cases hr : ∃ d, j = .renew d
  · rw [hempty (.inr (.inr hr))] at hm
    cases hm
  rw [(Job.frame_perform hb fun d hd => hr ⟨d, hd⟩).1, Job.scene_perform]
  rw [Job.schedule_perform] at hm
  cases j with
  | schedule m => exact absurd ⟨_, List.mem_cons_self, by simp [Job.Opens, Job.first]⟩ hstarted
  | keep m walked =>
    rcases Schedule.mem_next_of_add hm with hm | rfl
    · exact hold n hm
    · exact h.kept n walked (hj ▸ List.mem_cons_self)
  | run m walked => exact (hold n hm).animate m
  | discard m =>
    refine (hold n hm).discard ?_
    rintro rfl
    exact hstages.discarding n List.mem_cons_self hm
  | finish m =>
    rw [hstages.ended m List.mem_cons_self] at hm
    cases hm
  | beginFrame | takeAll => cases hm
  | renew d => exact absurd ⟨d, rfl⟩ hr
  | _ => exact hold n hm

theorem Active.inWorld (h : t.Active) {w : World κ}
    (hw : ∀ n, t.Animates n → w.scene.Animates t.driver.frameTime n) : (t.inWorld w).Active where
  stages := h.stages
  kept n walked hn := hw n (h.kept n walked hn)
  next := h.next.imp_right fun hx n hn => hw n (hx n hn)

theorem Active.step (hn : t.Numbered) (h : t.Active) (x : Step κ) : (t.step x).Active := by
  refine step_rule (P := fun _ t' => t'.Active) ?_ ?_ ?_ ?_ ?_ ?_ ?_ x
  · exact fun _ _ _ => h
  · intro c _
    have hx := h.inWorld fun n hm => Scene.Animates.effect hn.world.scene hm c
    exact ⟨hx.stages, hx.kept, hx.next⟩
  · exact fun _ _ => ⟨h.stages, h.kept, h.next⟩
  · exact fun _ _ => ⟨h.stages, h.kept, h.next⟩
  · intro e rest _
    have hx : (t.inWorld (e.perform rest t.world).2).Active := h.inWorld fun n hm => by
      rw [Errand.scene_perform]
      exact hm
    exact ⟨hx.stages, hx.kept, hx.next⟩
  · intro task hj _
    have hnext : ∀ n ∈ t.driver.schedule.next, t.Animates n := h.next.resolve_left (by simp [hj])
    refine ⟨(hj ▸ h.stages).jobs .., fun n walked hk => ?_, .inr hnext⟩
    have hk : .keep n walked ∈ task.jobs t.root t.kind t.clock := hk
    cases task <;> simp [Task.jobs, Task.frameJobs] at hk
  · intro j rest hj
    refine ⟨(hj ▸ h.stages).perform (hn.renew hj), fun n walked hk => h.kept_perform hj hk, ?_⟩
    by_cases hopens : ∃ k ∈ (j.perform t.state).1 ++ rest, k.Opens
    · exact .inl hopens
    · exact .inr fun n hm => h.next_perform hn hj hopens hm

theorem active_blank (root : RootId) (kind : DriverKind) (clock : ClockId) (client : κ) :
    (blank root kind clock client).Active where
  stages := Stages.blank
  kept _ _ hn := absurd hn List.not_mem_nil
  next := .inr fun _ hn => absurd hn List.not_mem_nil

/-- **Between two tasks, what is scheduled animates**, and nothing is left over. -/
theorem active_run (root : RootId) (kind : DriverKind) (clock : ClockId) (client : κ) (xs : List (Step κ)) :
    let t := (blank root kind clock client).run xs
    t.jobs = [] → t.driver.schedule.current = [] ∧ ∀ n ∈ t.driver.schedule.next, t.Animates n := by
  intro t hj
  have h : t.Numbered ∧ t.Active :=
    run_keeps (P := fun t => t.Numbered ∧ t.Active) (fun _ x h => ⟨h.1.step x, h.2.step h.1 x⟩) xs _
      ⟨numbered_blank .., active_blank ..⟩
  exact ⟨(hj ▸ h.2.stages).current_of_idle, h.2.next.resolve_left (by simp [hj])⟩

end Threads

end SceneAnimation
