import SceneAnimation.Proofs.Activity
/-!
# Boundaries: between two tasks nothing is left over and nothing is held

A pipeline is given one task after the other.  Whatever a task makes it hold for the owner, a later job of the same task
sends; so between two tasks it holds nothing, and no node is left to be run (`Threads.boundary_run`).  A driver that is
used by hand may be asked for something else in the middle of a frame, and then this need not be so.
-/
namespace SceneAnimation

def Outlet.Empty (o : Outlet) : Prop := ∀ r held, o = .deferred r held → held = []

theorem Outlet.empty_post {κ : Type} (o : Outlet) (w : World κ) : (o.post w).2.1.Empty := by
  rcases o with _ | ⟨r, _ | ⟨c, held⟩⟩
  · exact fun _ _ h => nomatch h
  · rintro _ _ ⟨⟩
    rfl
  · rintro _ _ ⟨⟩
    rfl

theorem DriverKind.empty_create (k : DriverKind) (clock : ClockId) : (k.create clock).outlet.Empty := by
  cases k with
  | inline => exact fun _ _ h => nomatch h
  | deferred r =>
    rintro _ _ ⟨⟩
    rfl

namespace Job

/-- Whether the job makes nothing be held. -/
def Quiet : Job → Prop
  | .setInterval .. => True
  | .renew d => d.outlet.Empty
  | _ => False

/-- Whether the job has everything sent that is held: a teardown does so in the end. -/
def Sends : Job → Prop
  | .post | .takeAll => True
  | _ => False

end Job

namespace Threads

variable {κ : Type} {t : Threads κ}

/-- **What is held will be sent**: nothing is held and there is nothing to do that would change this, or a job that is
ahead sends it, and what follows that job is quiet. -/
def WillPost (t : Threads κ) : Prop :=
  (t.driver.outlet.Empty ∧ ∀ j ∈ t.jobs, j.Quiet) ∨
    ∃ before j after, t.jobs = before ++ j :: after ∧ j.Sends ∧ ∀ k ∈ after, k.Quiet

theorem WillPost.of_idle (h : t.WillPost) (hj : t.jobs = []) : t.driver.outlet.Empty := by
  rcases h with ⟨he, -⟩ | ⟨before, j, after, hjobs, -⟩
  · exact he
  · rw [hj] at hjobs
    exact absurd hjobs.symm (by simp)

/-- **Every task has sent in the end what it makes be held**, if nothing is held when it is taken up. -/
theorem WillPost.start (he : t.driver.outlet.Empty) (task : Task) :
    WillPost { t with jobs := task.jobs t.root t.kind t.clock } := by
  cases task with
  | draw time =>
    exact .inr ⟨[.vsync t.clock time, .startFrame, .newPass, .openPass t.root, .takeLeftovers, .noteActive], .post, [],
      rfl, trivial, fun _ h => nomatch h⟩
  | tick now =>
    exact .inr ⟨[.catchUp t.clock now, .startFrame, .newPass, .takeLeftovers, .noteActive], .post, [], rfl, trivial,
      fun _ h => nomatch h⟩
  | setInterval interval =>
    refine .inl ⟨he, fun j hj => ?_⟩
    rw [List.mem_singleton.1 hj]
    trivial
  | reset =>
    refine .inr ⟨[], .takeAll, [.renew (t.kind.create t.clock)], rfl, trivial, fun j hj => ?_⟩
    rw [List.mem_singleton.1 hj]
    exact t.kind.empty_create t.clock
  | trace on | fence => exact .inl ⟨he, fun _ h => nomatch h⟩
  | shutdown => exact .inr ⟨[], .takeAll, [], rfl, trivial, fun _ h => nomatch h⟩

/-- **A job leaves what is held to be sent**, or sends it. -/
theorem WillPost.job (h : t.WillPost) {j : Job} {rest : List Job} (hj : t.jobs = j :: rest) :
    WillPost { t with jobs := (j.perform t.state).1 ++ rest, state := (j.perform t.state).2 } := by
  rcases h with ⟨he, hquiet⟩ | ⟨before, k, after, hjobs, hsends, hquiet⟩
  · rw [hj] at hquiet
    obtain ⟨hj, hrest⟩ := List.forall_mem_cons.1 hquiet
    cases j with
    | setInterval c interval => exact .inl ⟨he, hrest⟩
    | renew d => exact .inl ⟨hj, hrest⟩
    | _ => exact hj.elim
  · rw [hj] at hjobs
    cases before with
    | cons first before =>
      obtain ⟨rfl, rfl⟩ := List.cons.inj (hjobs : j :: rest = first :: (before ++ k :: after))
      exact .inr ⟨(j.perform t.state).1 ++ before, k, after, (List.append_assoc ..).symm, hsends, hquiet⟩
    | nil =>
      obtain ⟨rfl, rfl⟩ := List.cons.inj (hjobs : j :: rest = k :: after)
      cases j with
      | post => exact .inl ⟨t.driver.outlet.empty_post t.world, hquiet⟩
      | takeAll =>
        exact .inr ⟨t.driver.schedule.takeAll.1.map .finish, .post, rest, List.append_assoc .., trivial, hquiet⟩
      | _ => exact hsends.elim

theorem WillPost.step (h : t.WillPost) (x : Step κ) : (t.step x).WillPost := by
  refine step_rule (P := fun _ t' => t'.WillPost) ?_ ?_ ?_ ?_ ?_ ?_ ?_ x
  · exact fun _ _ _ => h
  · exact fun _ _ => h
  · exact fun _ _ => h
  · exact fun _ _ => h
  · exact fun _ _ _ => h
  · exact fun task hj _ => .start (h.of_idle hj) task
  · exact fun j rest hj => h.job hj

/-- **Between two tasks a pipeline is at the boundary of a frame**: no node is left to be run, and if it defers
completions, it holds none. -/
theorem boundary_run (root r : RootId) (clock : ClockId) (client : κ) (xs : List (Step κ)) :
    let t := (blank root (.deferred r) clock client).run xs
    t.jobs = [] → t.driver.schedule.current = [] ∧ t.driver.outlet = .deferred r [] := by
  intro t hj
  have h : t.Numbered ∧ t.WillPost :=
    run_keeps (P := fun t => t.Numbered ∧ t.WillPost) (fun _ x h => ⟨h.1.step x, h.2.step x⟩) xs _
      ⟨numbered_blank .., .inl ⟨DriverKind.empty_create (.deferred r) clock, fun _ h => nomatch h⟩⟩
  refine ⟨(active_run root (.deferred r) clock client xs hj).1, ?_⟩
  have hempty : t.driver.outlet.Empty := h.2.of_idle hj
  have hroot : t.driver.outlet.root? = some r := by
    rw [h.1.root?, target?, (fixed_run (blank root (.deferred r) clock client) xs).2.1]
    rfl
  cases ho : t.driver.outlet with
  | inline =>
    rw [ho] at hroot
    cases hroot
  | deferred q held =>
    rw [ho] at hroot
    cases hroot
    rw [hempty r held ho]

end Threads

end SceneAnimation
