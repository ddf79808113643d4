import SceneAnimation.Proofs.Threads.Whole
/-!
# Works: jobs done with nothing in between

With nothing in between, not even a listener, jobs do certain deeds and leave one state (`Works.unique`), and this is
one of the schedules (`Works.run`).  Where completions are deferred it is also what the library makes of these jobs
(`Does.works`).
-/
namespace SceneAnimation

/-- **Jobs done with nothing in between**: what they do to nodes, in order, and the state that they leave. -/
inductive Works {κ : Type} : List Job → RenderState κ → List Deed → RenderState κ → Prop where
  | nil (s) : Works [] s [] s
  | cons {j rest s ds s'} (h : Works ((j.perform s).1 ++ rest) (j.perform s).2 ds s') :
    Works (j :: rest) s ((j.deed? s).toList ++ ds) s'

namespace Threads

variable {κ : Type}

/-- What a step does to a node, if it does anything to one. -/
def deeds (t : Threads κ) (x : Step κ) : List Deed := (t.deed? (.step x)).toList

/-- What a schedule does to nodes, in order. -/
def done (t : Threads κ) (xs : List (Step κ)) : List Deed := along deeds t xs

end Threads

namespace Works

variable {κ : Type} {js ks : List Job} {j : Job} {s s' s'' : RenderState κ} {ds ds' : List Deed}

theorem append (h : Works js s ds s') (hk : Works ks s' ds' s'') : Works (js ++ ks) s (ds ++ ds') s'' := by
  induction h with
  | nil s => exact hk
  | cons _ ih =>
    have hrest := ih hk
    rw [List.append_assoc] at hrest
    rw [List.append_assoc]
    exact .cons hrest

theorem leave (h : Works (j.perform s).1 (j.perform s).2 ds s') : Works [j] s ((j.deed? s).toList ++ ds) s' :=
  .cons (by rwa [List.append_nil])

theorem single (hleft : (j.perform s).1 = []) : Works [j] s (j.deed? s).toList (j.perform s).2 := by
  have h : Works (j.perform s).1 (j.perform s).2 [] (j.perform s).2 := hleft ▸ .nil _
  simpa using leave h

theorem through (hd : j.deed? s = none) (h : Works (j.perform s).1 (j.perform s).2 ds s') : Works [j] s ds s' := by
  have hleave := leave h
  rw [hd] at hleave
  exact hleave

theorem unique (h : Works js s ds s') (h' : Works js s ds' s'') : ds = ds' ∧ s' = s'' := by
  induction h generalizing ds' s'' with
  | nil s =>
    cases h'
    exact ⟨rfl, rfl⟩
  | cons _ ih =>
    cases h' with
    | cons h' =>
      obtain ⟨hd, hs⟩ := ih h'
      exact ⟨congrArg _ hd, hs⟩

/-- **Steps of the render thread alone are a schedule.** -/
theorem run (h : Works js s ds s') : ∀ t : Threads κ, t.jobs = js → t.state = s →
    ∃ k, t.run (List.replicate k .job) = { t with jobs := [], state := s' } ∧
      t.done (List.replicate k .job) = ds := by
  induction h with
  | nil s =>
    rintro t hj rfl
    exact ⟨0, by rw [← hj]; rfl, rfl⟩
  | @cons j rest s ds s' _ ih =>
    rintro t hj rfl
    have hstep : t.step .job = { t with jobs := (j.perform t.state).1 ++ rest, state := (j.perform t.state).2 } := by
      rw [Threads.step, Threads.doJob, hj]
    obtain ⟨k, hrun, hdone⟩ := ih (t.step .job) (by rw [hstep]) (by rw [hstep])
    refine ⟨k + 1, ?_, ?_⟩
    · rw [List.replicate_succ, Threads.run_cons, hrun, hstep]
    · rw [List.replicate_succ, Threads.done, Threads.along, Threads.deeds, Threads.deed?, hj]
      exact congrArg _ hdone

end Works

/-- **What the library makes of jobs is what they do with nothing in between**, where completions are deferred: no
listener is told of any. -/
theorem Does.works {κ : Type} {react : Reaction κ} {js : List Job} {s s' : RenderState κ} (h : Does react js s s')
    (ho : s.driver.outlet ≠ .inline) (htell : ∀ c, .tell c ∉ js) (hrenew : ∀ d, .renew d ∉ js) :
    ∃ ds, Works js s ds s' := by
  induction h with
  | nil s => exact ⟨[], .nil s⟩
  | tell _ _ => exact absurd List.mem_cons_self (htell _)
  | @perform j rest s s' _ _ ih =>
    have hroot : (j.perform s).2.driver.outlet.root? = s.driver.outlet.root? :=
      Job.root?_of_not_renew fun d hd => hrenew d (hd ▸ List.mem_cons_self)
    have ho' : (j.perform s).2.driver.outlet ≠ .inline := fun hi => ho <| by
      rw [hi] at hroot
      cases hs : s.driver.outlet with
      | inline => rfl
      | deferred r held => rw [hs] at hroot; cases hroot
    have htell' : ∀ c, .tell c ∉ (j.perform s).1 ++ rest := fun c hc => by
      rcases List.mem_append.1 hc with hc | hc
      · cases Job.leaves_of_mem hc with
        | tell hi => exact ho hi
      · exact htell c (List.mem_cons_of_mem j hc)
    have hrenew' : ∀ d, .renew d ∉ (j.perform s).1 ++ rest := fun d hd => by
      rcases List.mem_append.1 hd with hd | hd
      · exact Job.renew_not_mem_perform j s d hd
      · exact hrenew d (List.mem_cons_of_mem j hd)
    obtain ⟨ds, hrest⟩ := ih ho' htell' hrenew'
    exact ⟨_, .cons hrest⟩

end SceneAnimation
