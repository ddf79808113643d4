import SceneAnimation.Proofs.Delivery
/-!
# Destruction: when a destroyed node still notifies

A destroyed node is to lose its animators without a word.  Frames keep to this: neither the walk nor the run of the
nodes that it did not reach runs a destroyed node.  A teardown does not ask: it ends the animators of a destroyed node
that is still scheduled, and their listeners are told.  So an animator that is attached to a destroyed node only is
found finished exactly when a teardown ends the node (`Threads.destroyed_run`).
-/
namespace SceneAnimation

namespace Job

variable {κ : Type}

/-- Whether a job is on the way to run node `n` in a frame, past the question whether the node is destroyed. -/
def Runs (n : NodeId) : Job → Prop
  | .enter m | .visit m | .run m _ => m = n
  | _ => False

/-- **No job sets out to run a destroyed node.** -/
theorem not_runs_perform {j : Job} {s : RenderState κ} {n : NodeId} (hd : (s.world.scene.node n).destroyed = true)
    (hj : ¬ j.Runs n) : ∀ k ∈ (j.perform s).1, ¬ k.Runs n := by
  intro k hk hr
  cases leaves_of_mem hk with
  | enter h =>
    rw [show _ = n from hr, hd] at h
    cases h
  | runLeftover h =>
    rw [show _ = n from hr, hd] at h
    cases h
  | visit _ => exact hj hr
  | runVisited => exact hj hr
  | _ => exact hr

end Job

namespace Threads

variable {κ : Type} {t : Threads κ} {n : NodeId} {a : AnimatorId}

/-- **No step changes the listener of an animator.** -/
theorem listener_step (hn : t.Numbered) (ha : a ∈ t.scene.animators) (x : Step κ) :
    ((t.step x).scene.animator a).listener = (t.scene.animator a).listener := by
  refine step_rule (P := fun _ t' => (t'.scene.animator a).listener = (t.scene.animator a).listener)
    ?_ ?_ ?_ ?_ ?_ ?_ ?_ x
  · exact fun _ _ _ => rfl
  · intro c _
    rcases Call.animator_effect hn.world.scene c a with he | ⟨hnot, -, -⟩
    · exact congrArg Animator.listener he
    · exact absurd ha hnot
  · exact fun _ _ => rfl
  · exact fun _ _ => rfl
  · intro e rest _
    show ((e.perform rest t.world).2.scene.animator a).listener = _
    rw [Errand.scene_perform]
    rfl
  · exact fun _ _ _ => rfl
  · intro j rest _
    show ((j.perform t.state).2.world.scene.animator a).listener = _
    rw [Job.scene_perform]
    cases j with
    | run m walked => exact (Scene.ran_animate ..).listener a
    | finish m => exact (Scene.ran_finishAll ..).listener a
    | _ => rfl

theorem listener_run : ∀ (ys : List (Step κ)) {t : Threads κ}, t.Numbered → a ∈ t.scene.animators →
    ((t.run ys).scene.animator a).listener = (t.scene.animator a).listener
  | [], _, _, _ => rfl
  | y :: ys, t, hn, ha => by
    rw [run_cons, listener_run ys (hn.step y) ((hn.leads_step y).animators a ha), listener_step hn ha]

/-- **The animator is attached to no node but the destroyed one**, which no frame is about to run. -/
structure Doomed (n : NodeId) (a : AnimatorId) (t : Threads κ) : Prop where
  destroyed : (t.scene.node n).destroyed = true
  only : ∀ m, a ∈ (t.scene.node m).animators → m = n
  spared : ∀ j ∈ t.jobs, ¬ j.Runs n

theorem Doomed.step (hn : t.Numbered) (h : t.Doomed n a) (x : Step κ) :
    (∀ m, x = .call (.attach m a) → m = n) → (t.step x).Doomed n a := by
  refine step_rule (P := fun x t' => (∀ m, x = .call (.attach m a) → m = n) → t'.Doomed n a) ?_ ?_ ?_ ?_ ?_ ?_ ?_ x
  · exact fun _ _ _ _ => h
  · intro c _ hx
    refine ⟨?_, fun m hm => ?_, h.spared⟩
    · show ((c.effect t.world).scene.node n).destroyed = true
      rw [Call.destroyed_effect hn.world.scene]
      cases c with
      | destroyNode m => dsimp only; split <;> first | rfl | exact h.destroyed
      | _ => exact h.destroyed
    · rcases (Call.mem_animators_effect hn.world.scene c m a).1 hm with hm | rfl
      · exact h.only m hm
      · exact hx m rfl
  · exact fun _ _ _ => ⟨h.destroyed, h.only, h.spared⟩
  · exact fun _ _ _ => ⟨h.destroyed, h.only, h.spared⟩
  · intro e rest _ _
    have hscene := Errand.scene_perform e rest t.world
    refine ⟨?_, fun m hm => h.only m ?_, h.spared⟩
    · show ((e.perform rest t.world).2.scene.node n).destroyed = true
      rw [hscene]
      exact h.destroyed
    · have hm : a ∈ ((e.perform rest t.world).2.scene.node m).animators := hm
      rwa [hscene] at hm
  · intro task _ _ _
    refine ⟨h.destroyed, h.only, fun j hj hr => ?_⟩
    have hj : j ∈ task.jobs t.root t.kind t.clock := hj
    cases task <;> cases j <;> simp [Task.jobs, Task.frameJobs, Job.Runs] at hj hr
  · intro j rest hj _
    refine ⟨?_, fun m hm => h.only m ((j.animators_perform t.state m).subset hm), fun k hk => ?_⟩
    · show ((j.perform t.state).2.world.scene.node n).destroyed = true
      rw [Job.destroyed_perform]
      exact h.destroyed
    · rcases List.mem_append.1 hk with hk | hk
      · exact Job.not_runs_perform h.destroyed (h.spared j (hj ▸ List.mem_cons_self)) k hk
      · exact h.spared k (hj ▸ List.mem_cons_of_mem j hk)

theorem Doomed.run : ∀ (ys : List (Step κ)) {t : Threads κ}, t.Numbered → t.Doomed n a →
    (∀ m, .call (.attach m a) ∈ ys → m = n) → (t.run ys).Doomed n a
  | [], _, _, h, _ => h
  | y :: ys, t, hn, h, hx => by
    have hstep := h.step hn y fun m hm => hx m (hm ▸ List.mem_cons_self)
    exact Doomed.run ys (hn.step y) hstep fun m hm => hx m (List.mem_cons_of_mem y hm)

/-- **Only a teardown finds an animator of a destroyed node finished.** -/
theorem Doomed.detects (h : t.Doomed n a) {x : Step κ} {c : Completion} (hc : c ∈ t.detects x) (ha : c.animator = a) :
    x = .job ∧ t.jobs.head? = some (.finish n) ∧ a ∈ (t.scene.node n).animators := by
  subst ha
  cases x with
  | job =>
    cases hj : t.jobs with
    | nil => rw [Threads.detects, hj] at hc; cases hc
    | cons j rest =>
      rw [detects_job hj] at hc
      cases j with
      | run m walked =>
        have hm := h.only m ((Scene.ran_animate ..).done_sublist.subset ((Scene.mem_completions ..).1 hc).1)
        exact absurd hm (h.spared (.run m walked) (hj ▸ List.mem_cons_self))
      | finish m =>
        have hm := ((Scene.mem_endedOn ..).1 ((Scene.mem_completions ..).1 hc).1).1
        obtain rfl := h.only m hm
        exact ⟨rfl, rfl, hm⟩
      | _ => cases hc
  | _ => cases hc

/-- **An animator of a destroyed node is found finished exactly if a teardown ends the node.** -/
theorem Doomed.detected_iff {past : List Completion} (hn : t.Numbered) (hp : Detection past t.scene)
    (h : t.Doomed n a) (ha : a ∈ (t.scene.node n).animators) (hf : (t.scene.animator a).state ≠ .finished)
    {ys : List (Step κ)} (hattach : ∀ m, .call (.attach m a) ∈ ys → m = n) :
    (∃ c ∈ t.detected ys, c.animator = a) ↔
      (t.scene.animator a).listener.isSome ∧ ∃ zs zs', ys = zs ++ .job :: zs' ∧
        (t.run zs).jobs.head? = some (.finish n) ∧ a ∈ ((t.run zs).scene.node n).animators := by
  have hmade : a ∈ t.scene.animators := hn.world.scene.attached n a ha
  constructor
  · rintro ⟨c, hc, rfl⟩
    have hlistener := (((hp.run hn ys).finished c).1 (List.mem_append.2 (.inr hc))).1
    rw [listener_run ys hn hmade] at hlistener
    obtain ⟨zs, y, zs', rfl, hy⟩ := mem_along.1 hc
    have hdoomed := h.run zs hn fun m hm => hattach m (List.mem_append.2 (.inl hm))
    obtain ⟨rfl, hhead, hlist⟩ := hdoomed.detects hy rfl
    exact ⟨by rw [hlistener]; rfl, zs, zs', rfl, hhead, hlist⟩
  · rintro ⟨hl, zs, zs', rfl, hhead, hlist⟩
    obtain ⟨l, hl⟩ := Option.isSome_iff_exists.1 hl
    have hrun : t.run (zs ++ [.job]) = (t.run zs).doJob := by rw [run_append]; rfl
    have hfinished : ((t.run (zs ++ [.job])).scene.animator a).state = .finished := by
      rw [hrun]
      cases hj : (t.run zs).jobs with
      | nil => rw [hj] at hhead; cases hhead
      | cons j rest =>
        rw [hj] at hhead
        cases hhead
        rw [doJob, hj]
        exact Progress.finished_of_mem _ _ _ a hlist
    -- what is finished has been found, and it had not been found before
    have hlistener := (listener_run (zs ++ [.job]) hn hmade).trans hl
    have hfound := (hp.run hn (zs ++ [.job])).finished ⟨a, l⟩
    dsimp only at hfound
    rcases List.mem_append.1 (hfound.2 ⟨hlistener, hfinished⟩) with hc | hc
    · exact absurd ((hp.finished ⟨a, l⟩).1 hc).2 hf
    · refine ⟨⟨a, l⟩, ?_, rfl⟩
      have hsplit : zs ++ Step.job :: zs' = (zs ++ [.job]) ++ zs' := by simp
      rw [hsplit, detected, along_append]
      exact List.mem_append.2 (.inl hc)

/-- A listener is told only of what has been found since, if the animator was not finished before. -/
theorem detected_of_told {r : RootId} {past told : List Completion} (hn : t.Numbered) (hp : Detection past t.scene)
    (h : t.Accounts r past told) (hf : (t.scene.animator a).state ≠ .finished) {ys : List (Step κ)} {c : Completion}
    (hc : c ∈ t.told ys) (ha : c.animator = a) : c ∈ t.detected ys := by
  have hbegun := (List.prefix_append _ _).trans (h.run hn ys).begun
  rcases List.mem_append.1 (hbegun.subset (List.mem_append.2 (.inr hc))) with hpast | hc
  · exact absurd (ha ▸ ((hp.finished c).1 hpast).2) hf
  · exact hc

/-- **When a destroyed node still notifies.**  Let a node be destroyed, and an unfinished animator be attached to it
and to no other node, then or later, while no frame is about to run the node.  Whatever happens from then on, the
animator is found finished exactly if it has a listener and a teardown ends the node while the animator is attached;
if it is not found, its listener is not told. -/
theorem destroyed_run (r root : RootId) (clock : ClockId) (client : κ) (xs ys : List (Step κ)) (n : NodeId)
    (a : AnimatorId) :
    let t := (blank root (.deferred r) clock client).run xs
    (t.scene.node n).destroyed = true → (∀ m, a ∈ (t.scene.node m).animators ↔ m = n) →
    (t.scene.animator a).state ≠ .finished → (∀ j ∈ t.jobs, ¬ j.Runs n) →
    (∀ m, .call (.attach m a) ∈ ys → m = n) →
      ((∃ c ∈ t.detected ys, c.animator = a) ↔
        (t.scene.animator a).listener.isSome ∧ ∃ zs zs', ys = zs ++ .job :: zs' ∧
          (t.run zs).jobs.head? = some (.finish n) ∧ a ∈ ((t.run zs).scene.node n).animators) ∧
      ∀ c ∈ t.told ys, c.animator = a → c ∈ t.detected ys := by
  intro t hd honly hf hspared hattach
  have hn : t.Numbered := numbered_run ..
  have hp := detection_run root (.deferred r) clock client xs
  have hdoomed : t.Doomed n a := ⟨hd, fun m => (honly m).1, hspared⟩
  refine ⟨hdoomed.detected_iff hn hp ((honly n).2 rfl) hf hattach, fun c hc ha => ?_⟩
  exact detected_of_told hn hp (accounts_run r root clock client xs) hf hc ha

/-- A node is destroyed with its only animator on the way, and a reset makes the listener hear of it all the same. -/
theorem destroyed_opening :
    let xs := opening ⟨100⟩ ++ work (.tick ⟨5⟩) 13 ++ [.call (.destroyNode ⟨2⟩)]
    let ys := work .reset 5 ++ [.poll, .errand, .errand, .errand]
    let t := (blank ⟨0⟩ (.deferred ⟨0⟩) ⟨0⟩ ()).run xs
    t.idle = true ∧ (t.scene.node ⟨2⟩).destroyed = true ∧ (∀ m, ⟨1⟩ ∈ (t.scene.node m).animators ↔ m = ⟨2⟩) ∧
      (t.scene.animator ⟨1⟩).state ≠ .finished ∧ t.told ys = [⟨⟨1⟩, ⟨0⟩⟩] ∧
      ∃ zs zs', ys = zs ++ .job :: zs' ∧ (t.run zs).jobs.head? = some (.finish ⟨2⟩) ∧
        ⟨1⟩ ∈ ((t.run zs).scene.node ⟨2⟩).animators := by
  intro xs ys t
  have hd : (t.scene.node ⟨2⟩).destroyed = true := by decide +kernel
  have honly : ∀ m, ⟨1⟩ ∈ (t.scene.node m).animators ↔ m = ⟨2⟩ := by
    have hkeys : t.scene.nodes.entries.map (·.1) = [⟨1⟩, ⟨2⟩] := by decide +kernel
    refine fun m => ⟨fun hm => ?_, by rintro rfl; decide +kernel⟩
    have hmade : m ∈ t.scene.nodes := Scene.mem_nodes_of_animators (List.ne_nil_of_mem hm)
    rw [Table.mem_iff_listed, hkeys] at hmade
    rcases List.mem_cons.1 hmade with rfl | hmade
    · revert hm
      decide +kernel
    · exact List.mem_singleton.1 hmade
  have hf : (t.scene.animator ⟨1⟩).state ≠ .finished := by decide +kernel
  have hjobs : t.jobs = [] := by decide +kernel
  have htold : t.told ys = [⟨⟨1⟩, ⟨0⟩⟩] := by decide +kernel
  have hspared : ∀ j ∈ t.jobs, ¬ j.Runs ⟨2⟩ := by
    rw [hjobs]
    exact fun _ hj => absurd hj List.not_mem_nil
  have hattach : ∀ m, .call (.attach m ⟨1⟩) ∈ ys → m = ⟨2⟩ := fun m hm => by simp [ys, work] at hm
  have h := destroyed_run ⟨0⟩ ⟨0⟩ ⟨0⟩ () xs ys ⟨2⟩ ⟨1⟩ hd honly hf hspared hattach
  have hc : ⟨⟨1⟩, ⟨0⟩⟩ ∈ t.told ys := htold ▸ List.mem_singleton.2 rfl
  exact ⟨by decide +kernel, hd, honly, hf, htold, (h.1.1 ⟨_, h.2 _ hc rfl, rfl⟩).2⟩

end Threads

end SceneAnimation
