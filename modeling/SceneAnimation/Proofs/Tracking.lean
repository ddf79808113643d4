import SceneAnimation.Proofs.Threads.Known
/-!
# Tracking: a node that animates is never lost

Attaching answers whether the node has to be registered, and answers no whenever the node has animators already.  So a
node that has animators and that nobody holds would never run again.  This does not happen: in every schedule each such
node waits at the root, is scheduled, is in the hands of the render thread or is still to be registered, unless it is
destroyed (`Threads.tracks_run`).  For a job leaves an active node where it is or hands it on, unless it has done with
the node (`Job.stays_perform`), and it has done with none that keeps animators.
-/
namespace SceneAnimation

namespace Schedule

/-- The active set: the nodes scheduled for this frame or the next. -/
def members (s : Schedule) : List NodeId := s.current ++ s.next

/-- A node that the set knows is in the list. -/
def Agrees (s : Schedule) : Prop := ∀ n ∈ s.scheduled, n ∈ s.next

theorem Agrees.mem_add {s : Schedule} (h : s.Agrees) (n : NodeId) {m : NodeId} (hm : m ∈ s.next ∨ m = n) :
    m ∈ (s.add n).next := by
  unfold add
  split
  · rename_i hn
    rcases hm with hm | rfl
    · exact hm
    · exact h m hn
  · exact List.mem_append.2 (hm.imp_right List.mem_singleton.2)

theorem Agrees.add {s : Schedule} (h : s.Agrees) (n : NodeId) : (s.add n).Agrees := by
  intro m hm
  refine h.mem_add n ?_
  unfold Schedule.add at hm
  split at hm
  · exact .inl (h m hm)
  · rcases List.mem_cons.1 hm with rfl | hm
    · exact .inr rfl
    · exact .inl (h m hm)

end Schedule

namespace Job

variable {κ : Type}

/-- The node that a job has in hand, taken out of a queue and not put into one or dropped yet. -/
def inHand? : Job → Option NodeId
  | .schedule n | .run n _ | .keep n _ | .leftover n | .finish n => some n
  | _ => none

/-- Whether a job belongs to the end of all animations. -/
def isEnding : Job → Bool
  | .takeAll | .finish _ | .report _ | .tell _ | .post => true
  | _ => false

/-- The node of the active set that a job has in hand. -/
def carried? : Job → Option NodeId
  | .run n _ | .keep n _ | .leftover n | .discard n | .finish n => some n
  | _ => none

/-- The scene as a job leaves it. -/
def sceneAfter (j : Job) (s : RenderState κ) : Scene := (j.perform s).2.world.scene

/-- **How a driver has done with node `n`**, and how it leaves the animators that were attached. -/
inductive Departs (s : RenderState κ) (n : NodeId) : Job → Prop where
  /-- Its animators run, and none remains attached, before any listener is told. -/
  | ran {walked} (h : ((s.world.scene.animate n s.driver.frameTime).2.node n).animators = [])
    (hscene : sceneAfter (.run n walked) s = (s.world.scene.animate n s.driver.frameTime).2) :
    Departs s n (.run n walked)
  /-- It is destroyed, and its animators are discarded as they are. -/
  | discarded (h : (s.world.scene.node n).destroyed = true)
    (hnone : ((sceneAfter (.discard n) s).node n).animators = [])
    (hsame : ∀ a, (sceneAfter (.discard n) s).animator a = s.world.scene.animator a) : Departs s n (.discard n)
  /-- Its animators are all ended. -/
  | ended (hnone : ((sceneAfter (.finish n) s).node n).animators = [])
    (hall : ∀ a ∈ (s.world.scene.node n).animators, ((sceneAfter (.finish n) s).animator a).state = .finished) :
    Departs s n (.finish n)

/-- **A job that has not done with a node leaves it active**, or in the hands of the jobs that it leaves. -/
theorem stays_perform (j : Job) (s : RenderState κ) {n : NodeId} (hs : s.driver.schedule.Agrees)
    (hrenew : ∀ d, j = .renew d → s.driver.schedule.current = [] ∧ s.driver.schedule.next = [])
    (hdiscard : j = .discard n → (s.world.scene.node n).destroyed = true)
    (h : n ∈ s.driver.schedule.members ∨ j.carried? = some n) :
    j.Departs s n ∨ n ∈ (j.perform s).2.driver.schedule.members ∨ n ∈ (j.perform s).1.filterMap carried? := by
  rw [schedule_perform]
  -- what a job has in hand it schedules, or puts into the hands of another
  have hadd : ∀ m walked, j = .schedule m ∨ j = .keep m walked → n ∈ (s.driver.schedule.add m).members := by
    intro m walked hj
    have hm : n = m → n ∈ (s.driver.schedule.add m).next := fun hm => hs.mem_add m (.inr hm)
    rw [Schedule.members, Schedule.current_add, List.mem_append]
    rcases h with h | h
    · exact (List.mem_append.1 h).imp_right fun hnext => hs.mem_add m (.inl hnext)
    · rcases hj with rfl | rfl
      · cases h
      · exact .inr (hm (Option.some.inj h).symm)
  have hhand : ∀ {k : Job}, k.carried? = some n → k ∈ (j.perform s).1 → n ∈ (j.perform s).1.filterMap carried? :=
    fun hk hmem => List.mem_filterMap.2 ⟨_, hmem, hk⟩
  have hstay : j.carried? = none → n ∈ s.driver.schedule.members := fun hj => h.resolve_right (by rw [hj]; simp)
  cases j with
  | schedule m => exact .inr (.inl (hadd m true (.inl rfl)))
  | keep m walked => exact .inr (.inl (hadd m walked (.inr rfl)))
  | beginFrame => exact .inr (.inl (List.mem_append.2 (.inl (hstay rfl))))
  | visit m =>
    by_cases hm : n = m
    · exact .inr (.inr (hhand (k := .run m true) (congrArg some hm.symm) (List.mem_singleton.2 rfl)))
    · refine .inr (.inl (List.mem_append.2 ((List.mem_append.1 (hstay rfl)).imp_left fun hc => ?_)))
      exact (Schedule.mem_current_visit ..).2 ⟨hc, hm⟩
  | run m walked =>
    rcases h with h | h
    · exact .inr (.inl h)
    · cases h
      by_cases hleft : ((s.world.scene.animate n s.driver.frameTime).2.node n).animators = []
      · exact .inl (.ran hleft rfl)
      · have hkeeps : (s.world.scene.animate n s.driver.frameTime).2.hasAnimators n = true := by
          simpa [Scene.hasAnimators] using hleft
        exact .inr (.inr (hhand (k := .keep n walked) rfl (by simp [perform, hkeeps])))
  | takeLeftovers =>
    rcases List.mem_append.1 (hstay rfl) with hc | hn
    · exact .inr (.inr (hhand (k := .leftover n) rfl (List.mem_map.2 ⟨n, hc, rfl⟩)))
    · exact .inr (.inl (List.mem_append.2 (.inr hn)))
  | leftover m =>
    rcases h with h | h
    · exact .inr (.inl h)
    · cases h
      by_cases hd : (s.world.scene.node n).destroyed = true
      · exact .inr (.inr (hhand (k := .discard n) rfl (by simp [perform, hd])))
      · exact .inr (.inr (hhand (k := .run n false) rfl (by simp [perform, hd])))
  | discard m =>
    rcases h with h | h
    · exact .inr (.inl h)
    · cases h
      exact .inl (.discarded (hdiscard rfl) ((Scene.animators_discard ..).trans (if_pos rfl)) fun _ => rfl)
  | takeAll =>
    exact .inr (.inr (hhand (k := .finish n) rfl (List.mem_append.2 (.inl (List.mem_map.2 ⟨n, hstay rfl, rfl⟩)))))
  | finish m =>
    rcases h with h | h
    · exact .inr (.inl h)
    · cases h
      exact .inl (.ended (Scene.animators_finishAll ..) fun a ha => Progress.finished_of_mem _ _ _ a ha)
  | renew d =>
    obtain ⟨hc, hn⟩ := hrenew d rfl
    have hmem := hstay rfl
    rw [Schedule.members, hc, hn] at hmem
    cases hmem
  | _ => exact .inr (.inl (hstay rfl))

/-- Only a node that is destroyed is discarded. -/
theorem destroyed_of_discard {j : Job} {s : RenderState κ} {n : NodeId} (h : .discard n ∈ (j.perform s).1) :
    (s.world.scene.node n).destroyed = true := by
  cases leaves_of_mem h with
  | discard hd => exact hd

/-- **No job loses a node that keeps animators**, unless the node is destroyed. -/
theorem holds_perform (j : Job) (s : RenderState κ) {r : RootId} {n : NodeId} (hs : s.driver.schedule.Agrees)
    (hrenew : ∀ d, j = .renew d → s.driver.schedule.current = [] ∧ s.driver.schedule.next = [])
    (hd : (s.world.scene.node n).destroyed = false) (ha : ((j.perform s).2.world.scene.node n).animators ≠ [])
    (h : n ∈ (s.world.root r).pending ∨ n ∈ s.driver.schedule.current ∨ n ∈ s.driver.schedule.next ∨
      j.inHand? = some n) :
    n ∈ ((j.perform s).2.world.root r).pending ∨ n ∈ (j.perform s).2.driver.schedule.current ∨
      n ∈ (j.perform s).2.driver.schedule.next ∨ n ∈ (j.perform s).1.filterMap inHand? := by
  have hdiscard : j = .discard n → (s.world.scene.node n).destroyed = true := by
    rintro rfl
    rw [scene_perform, Scene.animators_discard, if_pos rfl] at ha
    exact absurd rfl ha
  -- a node that keeps animators and is not destroyed does not depart
  have hactive : n ∈ s.driver.schedule.members ∨ j.carried? = some n →
      n ∈ (j.perform s).2.driver.schedule.current ∨ n ∈ (j.perform s).2.driver.schedule.next ∨
        n ∈ (j.perform s).1.filterMap inHand? := by
    intro hn
    rcases j.stays_perform s hs hrenew hdiscard hn with hdeparts | hn | hn
    · cases hdeparts with
      | ran hnone hscene =>
        rw [← hscene] at hnone
        exact absurd hnone ha
      | discarded hdestroyed => rw [hd] at hdestroyed; cases hdestroyed
      | ended hnone => exact absurd hnone ha
    · exact (List.mem_append.1 hn).imp_right .inl
    · obtain ⟨k, hk, hkn⟩ := List.mem_filterMap.1 hn
      refine .inr (.inr (List.mem_filterMap.2 ⟨k, hk, ?_⟩))
      cases k with
      | discard m =>
        cases hkn
        rw [destroyed_of_discard hk] at hd
        cases hd
      | run | keep | leftover | finish => exact hkn
      | _ => cases hkn
  rcases h with hp | hc | hn | hh
  · rw [pending_perform]
    cases j with
    | takePending q =>
      by_cases hr : r = q
      · refine .inr (.inr (.inr (List.mem_filterMap.2 ⟨.schedule n, List.mem_map.2 ⟨n, ?_, rfl⟩, rfl⟩)))
        exact hr ▸ hp
      · simp only [if_neg hr]
        exact .inl hp
    | _ => exact .inl hp
  · exact .inr (hactive (.inl (List.mem_append.2 (.inl hc))))
  · exact .inr (hactive (.inl (List.mem_append.2 (.inr hn))))
  · cases j with
    | schedule m =>
      cases hh
      exact .inr (.inr (.inl (hs.mem_add n (.inr rfl))))
    | discard m => cases hh
    | _ => exact .inr (hactive (.inr hh))

end Job

namespace Job

variable {κ : Type} {s : RenderState κ}

theorem isEnding_of_perform {j : Job} (hj : j.isEnding = true) : ∀ k ∈ (j.perform s).1, k.isEnding = true := by
  intro k hk
  cases leaves_of_mem hk with
  | finish _ | post | reportFinish | tell _ => rfl
  | _ => cases hj

/-- An ending job either takes all nodes off the schedule, or leaves it as it is. -/
theorem schedule_of_isEnding {j : Job} (hj : j.isEnding = true) :
    (j = .takeAll ∧ (j.perform s).2.driver.schedule = s.driver.schedule.takeAll.2) ∨
    (j ≠ .takeAll ∧ (j.perform s).2.driver.schedule = s.driver.schedule) := by
  cases j with
  | takeAll => exact .inl ⟨rfl, rfl⟩
  | finish n | report batch | tell c | post => exact .inr ⟨by simp, by rw [schedule_perform]⟩
  | _ => cases hj

end Job

namespace Threads

variable {κ : Type} {t : Threads κ} {r : RootId}

def inHand (t : Threads κ) : List NodeId := t.jobs.filterMap Job.inHand?

/-- Whether node `n` waits at root `r`, is scheduled, is in hand or is due to be registered. -/
def Tracks (t : Threads κ) (r : RootId) (n : NodeId) : Prop :=
  n ∈ (t.world.root r).pending ∨ n ∈ t.driver.schedule.current ∨ n ∈ t.driver.schedule.next ∨ n ∈ t.inHand ∨ n ∈ t.due

/-- **Before the driver is replaced, it is emptied**: only ending jobs come before, and the first of them takes all
nodes. -/
def Clears (s : Schedule) (jobs : List Job) : Prop :=
  ∀ before d after, jobs = before ++ .renew d :: after →
    (∀ k ∈ before, k.isEnding = true) ∧ (.takeAll ∈ before ∨ s.current = [] ∧ s.next = [])

structure Tracking (r : RootId) (t : Threads κ) : Prop where
  kind : t.kind = .deferred r
  agrees : t.driver.schedule.Agrees
  clears : Clears t.driver.schedule t.jobs
  tracks : ∀ n, (t.scene.node n).destroyed = false → (t.scene.node n).animators ≠ [] → t.Tracks r n

theorem Clears.emptied {s : Schedule} {j : Job} {rest : List Job} (h : Clears s (j :: rest)) :
    ∀ d, j = .renew d → s.current = [] ∧ s.next = [] := by
  rintro d rfl
  exact (h [] d rest rfl).2.resolve_left List.not_mem_nil

theorem Clears.perform {s : RenderState κ} {j : Job} {rest : List Job} (h : Clears s.driver.schedule (j :: rest)) :
    Clears (j.perform s).2.driver.schedule ((j.perform s).1 ++ rest) := by
  intro before d after he
  obtain ⟨before, rfl, hrest⟩ := Job.split_perform he
  obtain ⟨hend, hempty⟩ := h (j :: before) d after (by rw [hrest]; rfl)
  have hj := hend j List.mem_cons_self
  refine ⟨fun k hk => ?_, ?_⟩
  · rcases List.mem_append.1 hk with hk | hk
    · exact Job.isEnding_of_perform hj k hk
    · exact hend k (List.mem_cons_of_mem j hk)
  · rcases Job.schedule_of_isEnding (s := s) hj with ⟨-, hs⟩ | ⟨hne, hs⟩
    · rw [hs]
      exact .inr ⟨rfl, rfl⟩
    · rw [hs]
      refine hempty.imp_left fun h => ?_
      rcases List.mem_cons.1 h with h | h
      · exact absurd h.symm hne
      · exact List.mem_append.2 (.inr h)

theorem clears_jobs (s : Schedule) (root : RootId) (k : DriverKind) (clock : ClockId) (task : Task) :
    Clears s (task.jobs root k clock) := by
  intro before d after he
  obtain ⟨rfl, -⟩ := Task.renew_jobs he
  refine ⟨fun j hj => ?_, .inl List.mem_cons_self⟩
  rw [List.mem_singleton.1 hj]
  rfl

theorem Tracking.call (hn : t.Numbered) (h : t.Tracking r) (c : Call κ) (n : NodeId)
    (hd : ((c.effect t.world).scene.node n).destroyed = false)
    (ha : ((c.effect t.world).scene.node n).animators ≠ []) :
    n ∈ ((c.effect t.world).root r).pending ∨ n ∈ t.driver.schedule.current ∨ n ∈ t.driver.schedule.next ∨
      n ∈ t.inHand ∨ n ∈ t.dueAfter c := by
  have htarget : t.target? = some r := by rw [target?, h.kind]
  have hd' : (t.scene.node n).destroyed = false := by
    rw [Call.destroyed_effect hn.world.scene] at hd
    cases c with
    | destroyNode m =>
      simp only at hd
      split at hd
      · cases hd
      · exact hd
    | _ => exact hd
  rw [Call.animators_effect hn.world.scene] at ha
  rw [Call.pending_effect hn.world]
  have hold := h.tracks n hd'
  cases c with
  | attach m a =>
    by_cases he : (t.scene.node n).animators = []
    · by_cases hm : n = m
      · -- the first animator of the node makes its registration due
        subst hm
        have hfirst : (t.world.attach n a).1 = true := by
          simp only [World.attach, Scene.attach, Scene.node_updateNode, if_true]
          simp [show (t.world.scene.node n).animators = [] from he]
        simp [dueAfter, hfirst]
      · simp only [if_neg hm] at ha
        exact absurd he ha
    · refine (hold he).imp_right (·.imp_right (·.imp_right (·.imp_right fun hdue => ?_)))
      simp only [dueAfter]
      split
      · exact List.mem_append.2 (.inl hdue)
      · exact hdue
  | register q m =>
    simp only [dueAfter, htarget, Option.some.injEq]
    rcases hold ha with hp | hc | hx | hh | hdue
    · left
      split
      · exact List.mem_append.2 (.inl hp)
      · exact hp
    · exact .inr (.inl hc)
    · exact .inr (.inr (.inl hx))
    · exact .inr (.inr (.inr (.inl hh)))
    · by_cases hq : r = q
      · by_cases hm : n = m
        · -- this is the registration that was due
          left
          rw [if_pos hq, hm]
          exact List.mem_append.2 (.inr (List.mem_singleton.2 rfl))
        · rw [if_pos hq.symm]
          exact .inr (.inr (.inr (.inr ((List.mem_erase_of_ne hm).2 hdue))))
      · rw [if_neg (Ne.symm hq)]
        exact .inr (.inr (.inr (.inr hdue)))
  | _ => exact hold ha

theorem Tracking.job (h : t.Tracking r) {j : Job} {rest : List Job} (hj : t.jobs = j :: rest) (n : NodeId)
    (hd : ((j.perform t.state).2.world.scene.node n).destroyed = false)
    (ha : ((j.perform t.state).2.world.scene.node n).animators ≠ []) :
    Tracks { t with jobs := (j.perform t.state).1 ++ rest, state := (j.perform t.state).2 } r n := by
  rw [Job.destroyed_perform] at hd
  have hne : (t.state.world.scene.node n).animators ≠ [] :=
    fun he => ha (List.eq_nil_of_sublist_nil (he ▸ Job.animators_perform j t.state n))
  have hperform := j.holds_perform t.state (r := r) h.agrees (Clears.emptied (hj ▸ h.clears)) hd ha
  have hhand : n ∈ t.inHand → j.inHand? = some n ∨ n ∈ rest.filterMap Job.inHand? := by simp [inHand, hj]
  have hafter : n ∈ ((j.perform t.state).2.world.root r).pending ∨ n ∈ (j.perform t.state).2.driver.schedule.current ∨
      n ∈ (j.perform t.state).2.driver.schedule.next ∨ n ∈ (j.perform t.state).1.filterMap Job.inHand? →
      Tracks { t with jobs := (j.perform t.state).1 ++ rest, state := (j.perform t.state).2 } r n := by
    intro hx
    refine hx.imp_right (·.imp_right (·.imp_right fun hx => .inl ?_))
    rw [inHand, List.filterMap_append]
    exact List.mem_append.2 (.inl hx)
  rcases h.tracks n hd hne with hp | hc | hx | hh | hdue
  · exact hafter (hperform (.inl hp))
  · exact hafter (hperform (.inr (.inl hc)))
  · exact hafter (hperform (.inr (.inr (.inl hx))))
  · rcases hhand hh with hh | hh
    · exact hafter (hperform (.inr (.inr (.inr hh))))
    · refine .inr (.inr (.inr (.inl ?_)))
      rw [inHand, List.filterMap_append]
      exact List.mem_append.2 (.inr hh)
  · exact .inr (.inr (.inr (.inr hdue)))

theorem Tracking.step (hn : t.Numbered) (h : t.Tracking r) (x : Step κ) : (t.step x).Tracking r := by
  refine step_rule (P := fun _ t' => t'.Tracking r) ?_ ?_ ?_ ?_ ?_ ?_ ?_ x
  · exact fun _ _ _ => h
  · intro c hc
    exact ⟨h.kind, h.agrees, h.clears, fun n hd ha => h.call hn c n hd ha⟩
  · exact fun _ _ => ⟨h.kind, h.agrees, h.clears, h.tracks⟩
  · exact fun _ _ => ⟨h.kind, h.agrees, h.clears, h.tracks⟩
  · intro e rest _
    refine ⟨h.kind, h.agrees, h.clears, fun n hd ha => ?_⟩
    have hscene := Errand.scene_perform e rest t.world
    have hd : ((e.perform rest t.world).2.scene.node n).destroyed = false := hd
    have ha : ((e.perform rest t.world).2.scene.node n).animators ≠ [] := ha
    rw [hscene] at hd ha
    refine (h.tracks n hd ha).imp_left fun hp => ?_
    show n ∈ ((e.perform rest t.world).2.root r).pending
    rw [World.root, Errand.roots_perform]
    exact hp
  · intro task hj _
    refine ⟨h.kind, h.agrees, clears_jobs _ _ _ _ task, fun n hd ha => ?_⟩
    refine (h.tracks n hd ha).imp_right (·.imp_right (·.imp_right (·.imp_left fun hh => ?_)))
    rw [inHand, hj] at hh
    cases hh
  · intro j rest hj
    refine ⟨h.kind, ?_, (hj ▸ h.clears).perform, fun n hd ha => h.job hj n hd ha⟩
    show Schedule.Agrees (j.perform t.state).2.driver.schedule
    rw [Job.schedule_perform]
    cases j with
    | schedule n => exact h.agrees.add n
    | keep n walked => exact h.agrees.add n
    | beginFrame | takeAll => exact fun _ hn => absurd hn List.not_mem_nil
    | renew d =>
      simp only [hn.renew hj d rfl]
      exact fun _ hn => absurd hn List.not_mem_nil
    | _ => exact h.agrees

theorem tracking_blank (r root : RootId) (clock : ClockId) (client : κ) :
    (blank root (.deferred r) clock client).Tracking r where
  kind := rfl
  agrees _ hn := absurd hn List.not_mem_nil
  clears before d after he := by cases before <;> cases he
  tracks _ _ ha := absurd rfl ha

/-- **No node that animates is ever lost.**  In every schedule, a node that is not destroyed and has animators waits at
the pipeline's root, is scheduled for this frame or the next, is in the hands of the render thread, or has got its first
animator and is still to be registered. -/
theorem tracks_run (r root : RootId) (clock : ClockId) (client : κ) (xs : List (Step κ)) (n : NodeId) :
    let t := (blank root (.deferred r) clock client).run xs
    (t.scene.node n).destroyed = false → (t.scene.node n).animators ≠ [] →
      n ∈ (t.world.root r).pending ∨ n ∈ t.driver.schedule.current ∨ n ∈ t.driver.schedule.next ∨ n ∈ t.inHand ∨
        n ∈ t.due := by
  intro t
  have h : t.Numbered ∧ t.Tracking r :=
    run_keeps (P := fun t => t.Numbered ∧ t.Tracking r) (fun _ x h => ⟨h.1.step x, h.2.step h.1 x⟩) xs _
      ⟨numbered_blank .., tracking_blank ..⟩
  exact h.2.tracks n

/-- In the middle of a tick, the node that is being run is in nobody's queue but in hand. -/
theorem tracks_opening :
    let xs := opening ⟨100⟩ ++ work (.tick ⟨5⟩) 9
    let t := (blank ⟨0⟩ (.deferred ⟨0⟩) ⟨0⟩ ()).run xs
    ((t.scene.node ⟨2⟩).destroyed = false ∧ (t.scene.node ⟨2⟩).animators ≠ []) ∧ t.inHand = [⟨2⟩] ∧
      (⟨2⟩ ∈ (t.world.root ⟨0⟩).pending ∨ ⟨2⟩ ∈ t.driver.schedule.current ∨ ⟨2⟩ ∈ t.driver.schedule.next ∨
        ⟨2⟩ ∈ t.inHand ∨ ⟨2⟩ ∈ t.due) := by
  intro xs t
  have hd : (t.scene.node ⟨2⟩).destroyed = false := by decide +kernel
  have ha : (t.scene.node ⟨2⟩).animators ≠ [] := by decide +kernel
  exact ⟨⟨hd, ha⟩, by decide +kernel, tracks_run ⟨0⟩ ⟨0⟩ ⟨0⟩ () xs ⟨2⟩ hd ha⟩

end Threads

end SceneAnimation
