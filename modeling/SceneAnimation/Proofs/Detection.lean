import SceneAnimation.Proofs.Threads.Known
/-!
# Detection: each animator with a listener is found finished once

A frame and a teardown find animators that they bring to their end, and pass on those that have a listener.  Over a
whole run, however often an animator is attached and wherever, it is found at most once, and it has been found exactly
when it is finished (`Threads.detection_run`).  What becomes of it afterwards is another matter (`Proofs/Delivery`).
-/
namespace SceneAnimation

/-- What a job finds finished, in order, of the animators that have a listener. -/
def Job.detects {κ : Type} (j : Job) (s : RenderState κ) : List Completion :=
  match j with
  | .run n _ => s.world.scene.completions (s.world.scene.completedOn n s.driver.frameTime)
  | .finish n => s.world.scene.completions (s.world.scene.endedOn n)
  | _ => []

namespace Threads

variable {κ : Type} {t : Threads κ}

def detects (t : Threads κ) : Step κ → List Completion
  | .job => t.jobs.head?.toList.flatMap (·.detects t.state)
  | _ => []

/-- What the steps of a schedule find finished, in order. -/
def detected (t : Threads κ) (xs : List (Step κ)) : List Completion := along detects t xs

/-- **What has been found is right**: each animator once, and those with a listener exactly when they are finished. -/
structure Detection (detected : List Completion) (s : Scene) : Prop where
  once : (detected.map (·.animator)).Nodup
  finished : ∀ c, c ∈ detected ↔
    (s.animator c.animator).listener = some c.listener ∧ (s.animator c.animator).state = .finished

/-- **A run of a node finds what it completes.** -/
theorem Detection.ran {detected : List Completion} {s s' : Scene} {n : NodeId} {done : List AnimatorId}
    (h : Detection detected s) (hr : s.Ran n done s') : Detection (detected ++ s.completions done) s' where
  once := by
    rw [List.map_append, List.nodup_append]
    refine ⟨h.once, (s.completions_sublist done).nodup hr.done_nodup, fun a ha b hb he => ?_⟩
    subst he
    obtain ⟨c, hc, rfl⟩ := List.mem_map.1 ha
    have hdone := (s.completions_sublist done).subset hb
    exact ((hr.mem_done c.animator).1 hdone).1 ((h.finished c).1 hc).2
  finished c := by
    rw [List.mem_append, h.finished, Scene.mem_completions, hr.mem_done, hr.listener]
    constructor
    · rintro (⟨hl, hf⟩ | ⟨⟨-, hf⟩, hl⟩)
      · exact ⟨hl, hr.finished _ hf⟩
      · exact ⟨hl, hf⟩
    · rintro ⟨hl, hf⟩
      by_cases hold : (s.animator c.animator).state = .finished
      · exact .inl ⟨hl, hold⟩
      · exact .inr ⟨⟨hold, hf⟩, hl⟩

theorem Detection.effect {detected : List Completion} {w : World κ} (hw : w.scene.Numbered)
    (h : Detection detected w.scene) (c : Call κ) : Detection detected (c.effect w).scene where
  once := h.once
  finished d := by
    rw [h.finished]
    rcases Call.animator_effect hw c d.animator with he | ⟨-, hbefore, hafter⟩
    · rw [he]
    · rw [hbefore, hafter]
      simp

theorem Detection.perform {detected : List Completion} {s : RenderState κ} (h : Detection detected s.world.scene)
    (j : Job) : Detection (detected ++ j.detects s) (j.perform s).2.world.scene := by
  rw [Job.scene_perform]
  cases j with
  | run n walked => exact h.ran (Scene.ran_animate ..)
  | finish n => exact h.ran (Scene.ran_finishAll ..)
  | discard n =>
    show Detection (detected ++ []) _
    rw [List.append_nil]
    exact ⟨h.once, h.finished⟩
  | _ =>
    show Detection (detected ++ []) _
    rw [List.append_nil]
    exact h

@[simp] theorem detects_job {j : Job} {rest : List Job} (hj : t.jobs = j :: rest) :
    t.detects .job = j.detects t.state := by
  simp [detects, hj]

theorem Detection.step {detected : List Completion} (hn : t.Numbered) (h : Detection detected t.scene) (x : Step κ) :
    Detection (detected ++ t.detects x) (t.step x).scene := by
  have hnone : Detection (detected ++ []) t.scene := (List.append_nil detected).symm ▸ h
  refine step_rule (P := fun x t' => Detection (detected ++ t.detects x) t'.scene) ?_ ?_ ?_ ?_ ?_ ?_ ?_ x
  · intro x _ hx
    cases x with
    | job =>
      rw [detects, hx rfl]
      exact hnone
    | _ => exact hnone
  · exact fun c _ => hnone.effect hn.world.scene c
  · exact fun _ _ => hnone
  · exact fun _ _ => hnone
  · intro e rest _
    show Detection (detected ++ []) (e.perform rest t.world).2.scene
    rw [Errand.scene_perform]
    exact hnone
  · exact fun _ _ _ => hnone
  · intro j rest hj
    rw [detects_job hj]
    exact h.perform j

theorem detection_blank : Detection [] ({} : Scene) where
  once := List.nodup_nil
  finished c := by
    constructor
    · intro h
      cases h
    · intro h
      cases h.2

theorem Detection.run {past : List Completion} (hn : t.Numbered) (h : Detection past t.scene) (xs : List (Step κ)) :
    Detection (past ++ t.detected xs) (t.run xs).scene :=
  (run_keeps_along (g := fun _ _ => ([] : List Unit)) (P := fun l _ t => t.Numbered ∧ Detection l t.scene)
    (fun _ _ _ x h => ⟨h.1.step x, h.2.step h.1 x⟩) xs past [] t ⟨hn, h⟩).2

/-- **In every schedule, each animator with a listener is found finished once**: never twice, and as soon as it is
finished. -/
theorem detection_run (root : RootId) (kind : DriverKind) (clock : ClockId) (client : κ) (xs : List (Step κ)) :
    Detection ((blank root kind clock client).detected xs) ((blank root kind clock client).run xs).scene :=
  detection_blank.run (numbered_blank ..) xs

end Threads

end SceneAnimation
