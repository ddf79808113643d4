import SceneAnimation.Proofs.Threads.Known
/-!
# Order: the stages of the render thread's work

A frame goes through stages: it opens, is started, walks, takes the leftovers, runs them, and ends; a teardown has two
stages of its own.  A job belongs to the stages from `Job.first` to `Job.last`, its own and those of the jobs that it
leaves.  The jobs of a task are in the order of their stages, and doing one keeps them so (`Job.ordered_perform`).
-/
namespace SceneAnimation

namespace Job

variable {κ : Type}

/-- The stage to which a job belongs.  Stage 0 changes neither the schedule nor the scene, and may stand before any. -/
def first : Job → Nat
  | .vsync .. | .catchUp .. | .setInterval .. | .report _ | .tell _ => 0
  | .startFrame | .takePending _ => 1
  | .schedule _ => 2
  | .beginFrame => 3
  | .newPass => 4
  | .openPass _ | .prepare .. | .enter _ | .check .. | .descend .. | .skip .. | .closePass .. | .visit _ => 5
  | .run _ walked | .keep _ walked => if walked then 5 else 7
  | .takeLeftovers => 6
  | .leftover _ | .discard _ => 7
  | .noteActive => 8
  | .post | .takeAll | .finish _ => 9
  | .renew _ => 10

/-- The last stage of the jobs that a job leaves, and of those that these leave. -/
def last : Job → Nat
  | .startFrame | .beginFrame => 4
  | .takePending _ => 2
  | .takeLeftovers => 7
  | j => j.first

/-- **One job stands before another**: nothing that it leaves belongs to a later stage than the other. -/
def Before (j k : Job) : Prop := j.last ≤ k.first

theorem last_of_leaves {s : RenderState κ} {j k : Job} (h : Leaves s j k) : k.last ≤ j.last := by
  cases h with
  | reportRun => exact Nat.zero_le _
  | reportFinish => exact Nat.zero_le _
  | _ => simp [last, first]

/-- A job leaves nothing that belongs to an earlier stage, but for what is reported and told. -/
theorem first_of_leaves {s : RenderState κ} {j k : Job} (h : Leaves s j k) : k.first = 0 ∨ j.first ≤ k.first := by
  cases h with
  | reportRun | reportFinish | tell _ => exact .inl rfl
  | _ => exact .inr (by simp [first])

theorem ordered_left (j : Job) (s : RenderState κ) : (j.perform s).1.Pairwise Before := by
  have hmap : ∀ {α : Type} (f : α → Job) (l : List α), (∀ a b, (f a).Before (f b)) → (l.map f).Pairwise Before :=
    fun f l hf => List.pairwise_map.2 (List.pairwise_of_forall fun a b => hf a b)
  cases j with
  | takePending r => exact hmap _ _ fun _ _ => Nat.le_refl _
  | descend depth n => exact hmap _ _ fun _ _ => Nat.le_refl _
  | takeLeftovers => exact hmap _ _ fun _ _ => Nat.le_refl _
  | takeAll =>
    refine List.pairwise_append.2 ⟨hmap _ _ fun _ _ => Nat.le_refl _, List.pairwise_singleton .., fun k hk m hm => ?_⟩
    obtain ⟨n, -, rfl⟩ := List.mem_map.1 hk
    rw [List.mem_singleton.1 hm]
    exact Nat.le_refl _
  | report batch =>
    simp only [perform]
    split
    · exact hmap _ _ fun _ _ => Nat.le_refl _
    · exact List.Pairwise.nil
  | prepare depth n =>
    cases depth with
    | zero => exact List.Pairwise.nil
    | succ depth => simp only [perform]; split <;> simp [Before, last, first]
  | startFrame | enter n | check depth n | leftover n => simp only [perform]; split <;> simp [Before, last, first]
  | run n walked => simp only [perform]; split <;> simp [Before, last, first]
  | _ => simp [perform, Before, last, first]

/-- **The stages stay in order** when a job is done. -/
theorem ordered_perform {j : Job} {s : RenderState κ} {rest : List Job} (h : (j :: rest).Pairwise Before) :
    ((j.perform s).1 ++ rest).Pairwise Before := by
  obtain ⟨hj, hrest⟩ := List.pairwise_cons.1 h
  refine List.pairwise_append.2 ⟨ordered_left j s, hrest, fun k hk m hm => ?_⟩
  exact Nat.le_trans (last_of_leaves (leaves_of_mem hk)) (hj m hm)

end Job

theorem Task.ordered_jobs (root : RootId) (k : DriverKind) (clock : ClockId) (task : Task) :
    (task.jobs root k clock).Pairwise Job.Before := by
  cases task <;> simp [jobs, frameJobs, Job.Before, Job.last, Job.first]

end SceneAnimation
