import SceneAnimation.Proofs.Tracking
import SceneAnimation.Proofs.Registration
import SceneAnimation.Proofs.Threads.Whole
/-!
# Departure: how a node leaves the active set

The nodes that a driver has scheduled, for this frame or the next, are its active set.  What is noted as scheduled for
the next frame is what is scheduled for it, each node once, whatever is asked of the driver and however that is
interrupted (`Schedule.Exact`); a note without its node would shut the node out.  And a node does not leave the active
set unless the driver has done with it (`Job.Departs`): its animators have run and none is left, it is destroyed and
they are discarded, or they are all ended (`Threads.departure_run`).
-/
namespace SceneAnimation

namespace Threads

variable {κ : Type} {t : Threads κ} {n : NodeId}

/-- **A node that is destroyed stays destroyed**, whatever the owner, this driver and others do. -/
theorem destroyed_move (hn : t.Numbered) (hd : (t.scene.node n).destroyed = true) (x : Move κ) :
    ((t.move x).scene.node n).destroyed = true := by
  obtain ⟨d, -, hscene⟩ | ⟨-, ⟨c, -, -, hscene⟩ | ⟨-, hscene⟩⟩ := t.scene_move x <;> rw [hscene]
  · cases d with
    | run m now => exact ((t.scene.ran_animate m now).destroyed_eq n).trans hd
    | finish m => exact ((t.scene.ran_finishAll m).destroyed_eq n).trans hd
    | discard m =>
      rw [Deed.effect, Scene.discard, Scene.node_updateNode]
      split
      · subst n
        exact hd
      · exact hd
  · rw [Call.destroyed_effect hn.world.scene]
    split
    · split
      · rfl
      · exact hd
    · exact hd
  · exact hd

/-- What holds of the driver at any time. -/
structure Scheduling (t : Threads κ) : Prop where
  numbered : t.Numbered
  exact : t.driver.schedule.Exact
  clears : Clears t.driver.schedule t.jobs
  discards : ∀ n, .discard n ∈ t.jobs → (t.scene.node n).destroyed = true

theorem scheduling_blank (root : RootId) (kind : DriverKind) (clock : ClockId) (client : κ) :
    (blank root kind clock client).Scheduling where
  numbered := numbered_blank ..
  exact := by cases kind <;> exact Schedule.exact_empty rfl rfl
  clears before d after h := by cases before <;> cases h
  discards n h := absurd h List.not_mem_nil

/-- A request does not replace the driver, and discards no node before it has looked at it. -/
theorem jobs_ask {q : Request} {w : World κ} {j : Job} (hj : j ∈ q.jobs w) :
    (∀ d, j ≠ .renew d) ∧ ∀ n, j ≠ .discard n := by
  cases q <;> simp only [Request.jobs, List.mem_cons, List.not_mem_nil, or_false] at hj
  case runRemaining => rcases hj with rfl | rfl | rfl <;> simp
  all_goals
    subst hj
    simp

theorem Scheduling.step (h : t.Scheduling) (x : Step κ) :
    Clears (t.step x).driver.schedule (t.step x).jobs ∧
      ∀ n, .discard n ∈ (t.step x).jobs → .discard n ∈ t.jobs ∨ (t.scene.node n).destroyed = true := by
  refine step_rule (P := fun _ t' => Clears t'.driver.schedule t'.jobs ∧
    ∀ n, .discard n ∈ t'.jobs → .discard n ∈ t.jobs ∨ (t.scene.node n).destroyed = true) ?_ ?_ ?_ ?_ ?_ ?_ ?_ x
  · exact fun _ _ _ => ⟨h.clears, fun _ => .inl⟩
  · exact fun _ _ => ⟨h.clears, fun _ => .inl⟩
  · exact fun _ _ => ⟨h.clears, fun _ => .inl⟩
  · exact fun _ _ => ⟨h.clears, fun _ => .inl⟩
  · exact fun _ _ _ => ⟨h.clears, fun _ => .inl⟩
  · intro task _ _
    refine ⟨clears_jobs _ _ _ _ task, fun n hn => ?_⟩
    have hn : .discard n ∈ task.jobs t.root t.kind t.clock := hn
    cases task <;> simp [Task.jobs, Task.frameJobs] at hn
  · intro j rest hj
    refine ⟨(hj ▸ h.clears).perform, fun n hn => ?_⟩
    rcases List.mem_append.1 hn with hn | hn
    · exact .inr (Job.destroyed_of_discard hn)
    · exact .inl (hj ▸ List.mem_cons_of_mem j hn)

theorem Scheduling.move (h : t.Scheduling) (x : Move κ) : (t.move x).Scheduling := by
  have hkept : Clears (t.move x).driver.schedule (t.move x).jobs ∧
      ∀ n, .discard n ∈ (t.move x).jobs → .discard n ∈ t.jobs ∨ (t.scene.node n).destroyed = true := by
    cases x with
    | step x => exact h.step x
    | elsewhere d =>
      simp only [Threads.move, undergo]
      split <;> exact ⟨h.clears, fun _ => .inl⟩
    | ask q =>
      simp only [Threads.move, ask]
      split
      · refine ⟨fun before d after he => ?_, fun n hn => absurd rfl ((jobs_ask hn).2 n)⟩
        have hmem : .renew d ∈ q.jobs t.world := by
          rw [show q.jobs t.world = before ++ .renew d :: after from he]
          exact List.mem_append.2 (.inr List.mem_cons_self)
        exact absurd rfl ((jobs_ask hmem).1 d)
      · exact ⟨h.clears, fun _ => .inl⟩
  refine ⟨h.numbered.move x, exact_move h.numbered h.exact x, hkept.1, fun n hn => ?_⟩
  exact destroyed_move h.numbered ((hkept.2 n hn).elim (h.discards n) id) x

theorem Scheduling.moves (h : t.Scheduling) (xs : List (Move κ)) : (t.moves xs).Scheduling := by
  induction xs generalizing t with
  | nil => exact h
  | cons x xs ih => exact ih (h.move x)

/-! ## Nodes that stay, and nodes that depart -/

/-- Only a step of the driver changes its schedule. -/
theorem schedule_idle {x : Move κ} (hx : isJob x = false) : (t.move x).driver.schedule = t.driver.schedule := by
  cases x with
  | ask q =>
    simp only [move, ask]
    split <;> rfl
  | elsewhere d =>
    simp only [move, undergo]
    split <;> rfl
  | step x =>
    refine step_rule (P := fun x t' => isJob (.step x) = false → t'.driver.schedule = t.driver.schedule)
      ?_ ?_ ?_ ?_ ?_ ?_ ?_ x hx
    case refine_7 =>
      intro _ _ _ hjob
      cases hjob
    all_goals
      intros
      rfl

/-- Whether node `n` is in the active set, or has been taken out of it by a call that has not done with it yet. -/
def Retains (t : Threads κ) (n : NodeId) : Prop :=
  n ∈ t.driver.schedule.members ∨ n ∈ t.jobs.filterMap Job.carried?

/-- The next step of the driver has done with node `n`. -/
def Departs (t : Threads κ) (n : NodeId) : Prop := ∃ j rest, t.jobs = j :: rest ∧ j.Departs t.state n

/-- **One move**: a node that the driver holds stays, or the move is a step of the driver that has done with it. -/
theorem retains_move (h : t.Scheduling) (hc : t.Retains n) (x : Move κ) :
    (t.move x).Retains n ∨ x = .step .job ∧ t.Departs n := by
  by_cases hx : isJob x = true
  · obtain rfl := eq_of_isJob hx
    cases hj : t.jobs with
    | nil =>
      left
      rw [Threads.move, step, doJob, hj]
      exact hc
    | cons j rest =>
      have hagrees : t.state.driver.schedule.Agrees := fun m hm => (h.exact.mem m).1 hm
      have hdiscard : j = .discard n → (t.state.world.scene.node n).destroyed = true := by
        rintro rfl
        exact h.discards n (hj ▸ List.mem_cons_self)
      rw [move_job hj]
      have hhold : (n ∈ t.state.driver.schedule.members ∨ j.carried? = some n) ∨ n ∈ rest.filterMap Job.carried? := by
        rcases hc with hc | hc
        · exact .inl (.inl hc)
        · have hhand : j.carried? = some n ∨ n ∈ rest.filterMap Job.carried? := by simpa [hj] using hc
          exact hhand.imp_left .inr
      rcases hhold with hhold | hrest
      · rcases j.stays_perform t.state hagrees (Clears.emptied (hj ▸ h.clears)) hdiscard hhold with hd | hm | hm
        · exact .inr ⟨rfl, j, rest, hj, hd⟩
        · exact .inl (.inl hm)
        · refine .inl (.inr ?_)
          rw [List.filterMap_append]
          exact List.mem_append.2 (.inl hm)
      · refine .inl (.inr ?_)
        rw [List.filterMap_append]
        exact List.mem_append.2 (.inr hrest)
  · left
    by_cases hj : t.jobs = []
    · -- nothing is in hand between two calls, and only a step of the driver takes a node off the schedule
      rw [Retains, hj] at hc
      refine .inl ?_
      rw [schedule_idle (Bool.not_eq_true _ ▸ hx)]
      exact hc.resolve_right (by simp)
    · obtain ⟨hjobs, hdriver, -⟩ := idle_move hj (Bool.not_eq_true _ ▸ hx)
      rw [Retains, hjobs, hdriver]
      exact hc

/-- **A run**: a node that the driver holds no more departed at one of the driver's steps. -/
theorem exists_departs (h : t.Scheduling) (hc : t.Retains n) (ys : List (Move κ)) (hgone : ¬(t.moves ys).Retains n) :
    ∃ before after, ys = before ++ .step .job :: after ∧ (t.moves before).Departs n := by
  induction ys generalizing t with
  | nil => exact absurd hc hgone
  | cons y ys ih =>
    rcases retains_move h hc y with hstay | ⟨rfl, hd⟩
    · obtain ⟨before, after, rfl, hd⟩ := ih (h.move y) hstay hgone
      exact ⟨y :: before, after, rfl, hd⟩
    · exact ⟨[], ys, rfl, hd⟩

/-- **What is noted as scheduled is what is scheduled, each node once, and no node leaves the active set unless the
driver has done with it.**  In whatever way the driver is used by hand, with the owner and other drivers in between,
and at any point of it, within a call too: `(1)` the nodes noted as scheduled are exactly those scheduled for the next
frame, `(2)` none of them is scheduled twice, and `(3)` if a node is active before some calls and not after them, the
driver has done with it at a step of one of them: its animators ran and none was attached then, before any listener
heard of it, or it was destroyed and they were discarded, or they were all ended, so that each of them is finished then
and none is attached.  `(4)` So it is of each call by itself, with what the library gives as its outcome. -/
theorem departure_run (root : RootId) (kind : DriverKind) (clock : ClockId) (client : κ) (xs : List (Move κ)) :
    let t := (blank root kind clock client).moves xs
    (∀ n, n ∈ t.driver.schedule.scheduled ↔ n ∈ t.driver.schedule.next) ∧
    t.driver.schedule.next.Nodup ∧
    (t.jobs = [] → ∀ ys, (t.moves ys).jobs = [] →
      ∀ n ∈ t.driver.schedule.members, n ∉ (t.moves ys).driver.schedule.members →
        ∃ before after, ys = before ++ .step .job :: after ∧ (t.moves before).Departs n) ∧
    (t.jobs = [] → t.equipped = true → ∀ react : Reaction κ, Calling react → ∀ q : Request, q.named t.world = true →
      ∃ zs : List (Step κ), (∀ z ∈ zs, InFrame z) ∧
        (t.moves (.ask q :: zs.map .step)).state = q.outcome react t.state ∧
        ∀ n ∈ t.driver.schedule.members, n ∉ (q.outcome react t.state).driver.schedule.members →
          ∃ before after, zs = before ++ .job :: after ∧ (t.moves (.ask q :: before.map .step)).Departs n) := by
  intro t
  have h : t.Scheduling := (scheduling_blank root kind clock client).moves xs
  have hleft : ∀ {u : Threads κ} {n}, u.jobs = [] → n ∉ u.driver.schedule.members → ¬u.Retains n := by
    intro u n hu hn hc
    rw [Retains, hu] at hc
    exact hc.elim hn (by simp)
  refine ⟨h.exact.mem, h.exact.nodup, fun _ ys hys n hn hgone => ?_, fun hj he react hreact q hq => ?_⟩
  · exact exists_departs h (.inl hn) ys (hleft hys hgone)
  · obtain ⟨zs, due, hzs, hmoves⟩ := moves_ask hreact q t hj he hq
    have hstate : (t.moves (.ask q :: zs.map .step)).state = q.outcome react t.state := by rw [hmoves]
    refine ⟨zs, hzs, hstate, fun n hn hgone => ?_⟩
    have hgone : ¬(t.moves (.ask q :: zs.map .step)).Retains n := by
      refine hleft (by rw [hmoves]) ?_
      rw [driver, hstate]
      exact hgone
    obtain ⟨before, after, heq, hd⟩ := exists_departs h (.inl hn) _ hgone
    -- the request itself is not a step of the driver
    cases before with
    | nil => cases heq
    | cons y before =>
      obtain ⟨rfl, htail⟩ := List.cons.inj heq
      obtain ⟨zs₁, zs₂, rfl, rfl, hzs₂⟩ := List.map_eq_append_iff.1 htail
      obtain ⟨z, zs₃, rfl, hz, -⟩ := List.map_eq_cons_iff.1 hzs₂
      cases hz
      exact ⟨zs₁, zs₃, rfl, hd⟩

/-- Three nodes are active: the first one's animator is over at once, the third is destroyed.  What is left over of a
frame is run by hand; then only the second is active, and the others are gone because the driver has done with them. -/
theorem departure_opening :
    let call (c : Call Unit) : Move Unit := .step (.call c)
    let fade : Animator := { property := .alpha, finalValue := 0, duration := ⟨100⟩ }
    let xs := (opening ⟨0⟩).map .step ++ [call (.addNode "leaf"), call (.addNode "gone"), call (.addAnimator fade),
      call (.attach ⟨3⟩ ⟨2⟩), call (.register ⟨0⟩ ⟨3⟩), call (.attach ⟨4⟩ ⟨2⟩), call (.register ⟨0⟩ ⟨4⟩),
      call (.destroyNode ⟨4⟩), .ask .startFrame] ++ List.replicate 6 (.step .job)
    let ys : List (Move Unit) := .ask .runRemaining :: List.replicate 12 (.step .job)
    let idle : Reaction Unit := fun _ _ w => w
    let t := (blank ⟨0⟩ (.deferred ⟨0⟩) ⟨0⟩ ()).moves xs
    (t.jobs = [] ∧ (t.moves ys).jobs = [] ∧ t.equipped = true ∧ Calling idle) ∧
    t.driver.schedule.members = [⟨2⟩, ⟨3⟩, ⟨4⟩] ∧ (t.moves ys).driver.schedule.members = [⟨3⟩] ∧
    (∃ before after, ys = before ++ .step .job :: after ∧ (t.moves before).Departs ⟨2⟩) ∧
    (∃ before after, ys = before ++ .step .job :: after ∧ (t.moves before).Departs ⟨4⟩) ∧
    (Request.runRemaining.outcome idle t.state).driver.schedule.members = [⟨3⟩] ∧
    ∃ zs : List (Step Unit), (t.moves (.ask .runRemaining :: zs.map .step)).state =
        Request.runRemaining.outcome idle t.state ∧
      ∃ before after, zs = before ++ .job :: after ∧
        (t.moves (.ask .runRemaining :: before.map .step)).Departs ⟨2⟩ := by
  intro call fade xs ys idle t
  have hj : t.jobs = [] := by decide +kernel
  have hys : (t.moves ys).jobs = [] := by decide +kernel
  have he : t.equipped = true := by decide +kernel
  have hidle : Calling idle := fun _ _ _ => ⟨[], rfl⟩
  have hmembers : t.driver.schedule.members = [⟨2⟩, ⟨3⟩, ⟨4⟩] := by decide +kernel
  have hleft : (t.moves ys).driver.schedule.members = [⟨3⟩] := by decide +kernel
  have hcall : (Request.runRemaining.outcome idle t.state).driver.schedule.members = [⟨3⟩] := by decide +kernel
  obtain ⟨-, -, hgone, hlibrary⟩ := departure_run ⟨0⟩ (.deferred ⟨0⟩) ⟨0⟩ () xs
  refine ⟨⟨hj, hys, he, hidle⟩, hmembers, hleft, ?_, ?_, hcall, ?_⟩
  · exact hgone hj ys hys ⟨2⟩ (by rw [hmembers]; decide) (by rw [hleft]; decide)
  · exact hgone hj ys hys ⟨4⟩ (by rw [hmembers]; decide) (by rw [hleft]; decide)
  · obtain ⟨zs, -, hstate, hdone⟩ := hlibrary hj he idle hidle .runRemaining rfl
    exact ⟨zs, hstate, hdone ⟨2⟩ (by rw [hmembers]; decide) (by rw [hcall]; decide)⟩

end Threads

end SceneAnimation
