import SceneAnimation.Proofs.Threads.Effects
/-!
# Known: both threads use only what has been made

The jobs of the render thread, its schedule and its outlet name only nodes, roots and clocks that have been made.  Every
step keeps to this, so it holds in every schedule (`Threads.numbered_run`), and nothing that a new object could replace
is ever in use.
-/
namespace SceneAnimation

/-! ## The render thread -/

/-- Whether everything that the job is about has been made, and the job leaves the outlet to the same root.  A walk may
come to a node that has not been made: it then finds no animators and no children there. -/
def Job.Known {κ : Type} (s : RenderState κ) : Job → Prop
  | .vsync c _ | .catchUp c _ | .setInterval c _ => c ∈ s.world.clocks
  | .takePending r | .openPass r => r ∈ s.world.roots
  | .closePass r sink => r ∈ s.world.roots ∧ ∀ q, sink = .root q → q ∈ s.world.roots
  | .schedule n | .visit n | .run n _ | .keep n _ | .leftover n | .discard n | .finish n => n ∈ s.world.scene.nodes
  | .renew d => d.schedule = {} ∧ d.outlet.root? = s.driver.outlet.root?
  | _ => True

/-- What the render thread holds has been made. -/
structure RenderState.Known {κ : Type} (s : RenderState κ) : Prop where
  numbered : s.world.Numbered
  current : ∀ n ∈ s.driver.schedule.current, n ∈ s.world.scene.nodes
  next : ∀ n ∈ s.driver.schedule.next, n ∈ s.world.scene.nodes
  sink : ∀ r, s.pass.sink = .root r → r ∈ s.world.roots

namespace Job

variable {κ : Type} {s : RenderState κ}

theorem Known.leads {s' : RenderState κ} (h : s.world.Leads s'.world)
    (ho : s'.driver.outlet.root? = s.driver.outlet.root?) {j : Job} (hj : j.Known s) : j.Known s' := by
  cases j with
  | vsync c t => exact h.clocks c hj
  | catchUp c now => exact h.clocks c hj
  | setInterval c interval => exact h.clocks c hj
  | takePending r => exact h.roots r hj
  | openPass r => exact h.roots r hj
  | closePass r sink => exact ⟨h.roots r hj.1, fun q hq => h.roots q (hj.2 q hq)⟩
  | renew d => exact ⟨hj.1, hj.2.trans ho.symm⟩
  | schedule n | visit n | run n | keep n | leftover n | discard n | finish n => exact h.nodes n hj
  | _ => trivial

theorem leads_perform (hs : s.Known) {j : Job} (hj : j.Known s)
    (ho : ∀ r, s.driver.outlet.root? = some r → r ∈ s.world.roots) : s.world.Leads (j.perform s).2.world := by
  have hw := hs.numbered
  cases j with
  | vsync c t => exact hw.setClock (.inl hj) _
  | catchUp c now => exact hw.setClock (.inl hj) _
  | setInterval c interval => exact hw.setClock (.inl hj) _
  | takePending r => exact hw.takePending hj
  | openPass r => exact hw.beginPass hj
  | closePass r sink => exact hw.endPass hj.1
  | skip n problem =>
    obtain ⟨-, h | ⟨r, message, hr, h⟩⟩ := skip_spec n problem s
    · rw [h]
      exact hw.refl
    · rw [h]
      exact hw.reportError (hs.sink r hr) message
  | run n walked => exact hw.store hj (Progress.kept_sublist ..)
  | finish n => exact hw.store hj (List.nil_sublist _)
  | discard n => exact hw.updateNode hj fun _ ha => absurd ha List.not_mem_nil
  | post =>
    obtain ⟨outlet, -, h | ⟨r, batch, hr, h⟩⟩ := post_spec s
    · rw [h]
      exact hw.refl
    · rw [h]
      exact hw.sendToOwner (ho r hr) _
  | report batch =>
    obtain ⟨outlet, -, h⟩ := report_spec batch s
    rw [h]
    exact hw.refl
  | startFrame | prepare depth n | check depth n =>
    rw [state_of_asks (by trivial)]
    exact hw.refl
  | _ => exact hw.refl

/-- **Only a new driver can have an outlet to another root.** -/
theorem root?_of_not_renew {j : Job} (hj : ∀ d, j ≠ .renew d) :
    (j.perform s).2.driver.outlet.root? = s.driver.outlet.root? := by
  cases j with
  | renew d => exact absurd rfl (hj d)
  | report batch =>
    obtain ⟨outlet, ho, h⟩ := report_spec batch s
    rw [h]
    exact ho
  | post =>
    obtain ⟨outlet, ho, h | ⟨r, batch, -, h⟩⟩ := post_spec s
    · rw [h]
      exact ho
    · rw [h]
      exact ho
  | startFrame | prepare depth n | check depth n => rw [state_of_asks (by trivial)]
  | skip n problem => rw [(skip_spec n problem s).1]
  | _ => rfl

theorem root?_perform {j : Job} (hj : j.Known s) :
    (j.perform s).2.driver.outlet.root? = s.driver.outlet.root? := by
  cases j with
  | renew d => exact hj.2
  | _ => exact root?_of_not_renew fun d hd => nomatch hd

theorem scheduled_perform (hs : s.Known) {j : Job} (hj : j.Known s) :
    (∀ n ∈ (j.perform s).2.driver.schedule.current, n ∈ s.world.scene.nodes) ∧
    ∀ n ∈ (j.perform s).2.driver.schedule.next, n ∈ s.world.scene.nodes := by
  have hadd : ∀ m ∈ s.world.scene.nodes,
      (∀ n ∈ (s.driver.schedule.add m).current, n ∈ s.world.scene.nodes) ∧
      ∀ n ∈ (s.driver.schedule.add m).next, n ∈ s.world.scene.nodes := fun m hm =>
    ⟨fun n hn => hs.current n (Schedule.current_add .. ▸ hn),
      fun n hn => (Schedule.mem_next_of_add hn).elim (hs.next n) fun e => e ▸ hm⟩
  rw [schedule_perform]
  cases j with
  | schedule m => exact hadd m hj
  | keep m walked => exact hadd m hj
  | beginFrame =>
    exact ⟨fun n hn => (List.mem_append.1 hn).elim (hs.current n) (hs.next n), fun _ hn => absurd hn List.not_mem_nil⟩
  | visit m => exact ⟨fun n hn => hs.current n ((Schedule.mem_current_visit ..).1 hn).1, hs.next⟩
  | takeLeftovers => exact ⟨fun _ hn => absurd hn List.not_mem_nil, hs.next⟩
  | takeAll => exact ⟨fun _ hn => absurd hn List.not_mem_nil, fun _ hn => absurd hn List.not_mem_nil⟩
  | renew d =>
    simp only [hj.1]
    exact ⟨fun _ hn => absurd hn List.not_mem_nil, fun _ hn => absurd hn List.not_mem_nil⟩
  | _ => exact ⟨hs.current, hs.next⟩

theorem sink_known (hs : s.Known) {j : Job} (hj : j.Known s) {r : RootId}
    (hr : (j.perform s).2.pass.sink = .root r) : r ∈ s.world.roots := by
  have hr := (sink_perform j s r).1 hr
  cases j with
  | newPass => exact hr.elim
  | openPass q => exact hr ▸ hj
  | closePass q sink => exact hj.2 r hr
  | _ => exact hs.sink r hr

theorem known_perform (hs : s.Known) {j : Job} (hj : j.Known s)
    (ho : ∀ r, s.driver.outlet.root? = some r → r ∈ s.world.roots) : (j.perform s).2.Known := by
  have hl := leads_perform hs hj ho
  obtain ⟨hc, hn⟩ := scheduled_perform hs hj
  exact ⟨hl.numbered, fun n h => hl.nodes n (hc n h), fun n h => hl.nodes n (hn n h),
    fun r h => hl.roots r (sink_known hs hj h)⟩

theorem known_of_perform (hs : s.Known) {j : Job} (hj : j.Known s)
    (ho : ∀ r, s.driver.outlet.root? = some r → r ∈ s.world.roots) : ∀ k ∈ (j.perform s).1, k.Known s := by
  intro k hk
  cases leaves_of_mem hk with
  | takePending h => exact ho _ (by rw [h]; rfl)
  | schedule h => exact hs.numbered.pending _ _ h
  | closePass => exact ⟨hj, hs.sink⟩
  | visit h => exact Scene.mem_nodes_of_animators fun he => by simp [Scene.hasAnimators, he] at h
  | runVisited | keep _ | discard _ | runLeftover _ => exact hj
  | leftover h => exact hs.current _ h
  | finish h => exact (List.mem_append.1 h).elim (hs.current _) (hs.next _)
  | _ => trivial

end Job

/-! ## Both threads -/

theorem Errand.leads_perform {κ : Type} {w : World κ} (h : w.Numbered) (e : Errand) (rest : List Errand) :
    w.Leads (e.perform rest w).2 := by
  rcases world_perform e rest w with he | ⟨m, d, he⟩
  · rw [he]; exact h.refl
  · exact h.receive? he

namespace Threads

variable {κ : Type} {t : Threads κ}

/-- **The threads use only what has been made**, in the world and in the work of the render thread. -/
structure Numbered (t : Threads κ) : Prop where
  known : t.state.Known
  root? : t.driver.outlet.root? = t.target?
  equipped : t.jobs ≠ [] → t.equipped = true
  jobs : ∀ j ∈ t.jobs, j.Known t.state

theorem Numbered.world (h : t.Numbered) : t.world.Numbered := h.known.numbered

theorem equipped_iff : t.equipped = true ↔
    t.clock ∈ t.world.clocks ∧ ∀ r, t.target? = some r → r ∈ t.world.roots := by
  unfold equipped
  cases h : t.target? with
  | none => simp
  | some r => simp

theorem ready_iff : t.ready = true ↔ t.equipped = true ∧ t.root ∈ t.world.roots := by
  rw [ready, Bool.and_eq_true, decide_eq_true_iff]

theorem equipped_of_leads {t' : Threads κ} (h : t.equipped = true) (hw : t.world.Leads t'.world)
    (hc : t'.clock = t.clock) (hk : t'.kind = t.kind) : t'.equipped = true := by
  obtain ⟨h1, h2⟩ := equipped_iff.1 h
  refine equipped_iff.2 ⟨hc ▸ hw.clocks _ h1, fun r hr => hw.roots r (h2 r ?_)⟩
  rwa [target?, hk] at hr

theorem Numbered.outlet (h : t.Numbered) (hj : t.jobs ≠ []) :
    ∀ r, t.state.driver.outlet.root? = some r → r ∈ t.state.world.roots :=
  fun r hr => (equipped_iff.1 (h.equipped hj)).2 r (h.root? ▸ hr)

theorem Numbered.renew (h : t.Numbered) {j : Job} {rest : List Job} (hj : t.jobs = j :: rest) :
    ∀ d, j = .renew d → d.schedule = {} := by
  rintro d rfl
  exact (h.jobs (.renew d) (hj ▸ List.mem_cons_self)).1

theorem Numbered.inWorld (h : t.Numbered) {w : World κ} (hw : t.world.Leads w) : (t.inWorld w).Numbered where
  known := ⟨hw.numbered, fun n hn => hw.nodes n (h.known.current n hn), fun n hn => hw.nodes n (h.known.next n hn),
    fun r hr => hw.roots r (h.known.sink r hr)⟩
  root? := h.root?
  equipped hj := equipped_of_leads (h.equipped hj) hw rfl rfl
  jobs j hj := (h.jobs j hj).leads (show t.state.world.Leads (t.inWorld w).state.world from hw) rfl

theorem known_of_jobs (hr : t.ready = true) (ho : t.driver.outlet.root? = t.target?) (task : Task) :
    ∀ j ∈ task.jobs t.root t.kind t.clock, j.Known t.state := by
  obtain ⟨he, hroot⟩ := ready_iff.1 hr
  obtain ⟨hc, -⟩ := equipped_iff.1 he
  intro j hj
  cases task with
  | draw time =>
    simp only [Task.jobs, Task.frameJobs, List.mem_cons, List.not_mem_nil, or_false] at hj
    rcases hj with rfl | rfl | rfl | rfl | rfl | rfl | rfl
    · exact hc
    · trivial
    · trivial
    · exact hroot
    · trivial
    · trivial
    · trivial
  | tick now =>
    simp only [Task.jobs, Task.frameJobs, List.mem_cons, List.not_mem_nil, or_false] at hj
    rcases hj with rfl | rfl | rfl | rfl | rfl | rfl
    · exact hc
    all_goals trivial
  | setInterval interval =>
    rw [List.mem_singleton.1 hj]
    exact hc
  | reset =>
    simp only [Task.jobs, List.mem_cons, List.not_mem_nil, or_false] at hj
    rcases hj with rfl | rfl
    · trivial
    · refine ⟨rfl, Eq.trans ?_ ho.symm⟩
      rw [target?]
      cases t.kind <;> rfl
  | shutdown =>
    rw [List.mem_singleton.1 hj]
    trivial
  | trace on => cases hj
  | fence => cases hj

/-- **Every step leads the world on, and keeps the threads to what has been made.** -/
theorem Numbered.step_leads (h : t.Numbered) (x : Step κ) : (t.step x).Numbered ∧ t.world.Leads (t.step x).world := by
  have hw := h.world
  refine step_rule (P := fun _ t' => t'.Numbered ∧ t.world.Leads t'.world) ?_ ?_ ?_ ?_ ?_ ?_ ?_ x
  · intro _ _ _
    exact ⟨h, hw.refl⟩
  · intro c hc
    have hl := hw.effect c hc
    have hn := h.inWorld hl
    exact ⟨⟨hn.known, hn.root?, hn.equipped, hn.jobs⟩, hl⟩
  · exact fun _ _ => ⟨⟨h.known, h.root?, h.equipped, h.jobs⟩, hw.refl⟩
  · exact fun _ _ => ⟨⟨h.known, h.root?, h.equipped, h.jobs⟩, hw.refl⟩
  · intro e rest _
    have hl := Errand.leads_perform hw e rest
    have hn := h.inWorld hl
    exact ⟨⟨hn.known, hn.root?, hn.equipped, hn.jobs⟩, hl⟩
  · intro task _ hr
    exact ⟨⟨h.known, h.root?, fun _ => (ready_iff.1 hr).1, known_of_jobs hr h.root? task⟩, hw.refl⟩
  · intro j rest hj
    have hne : t.jobs ≠ [] := by simp [hj]
    have hknown := h.jobs j (hj ▸ List.mem_cons_self)
    have hroot := Job.root?_perform hknown
    have hl := Job.leads_perform h.known hknown (h.outlet hne)
    -- what is left to be done was known before the job, and the job leads the world on
    refine ⟨⟨Job.known_perform h.known hknown (h.outlet hne), hroot.trans h.root?,
      fun _ => equipped_of_leads (h.equipped hne) hl rfl rfl, fun k hk => Job.Known.leads hl hroot ?_⟩, hl⟩
    rcases List.mem_append.1 hk with hk | hk
    · exact Job.known_of_perform h.known hknown (h.outlet hne) k hk
    · exact h.jobs k (hj ▸ List.mem_cons_of_mem j hk)

theorem Numbered.step (h : t.Numbered) (x : Step κ) : (t.step x).Numbered := (h.step_leads x).1

theorem Numbered.leads_step (h : t.Numbered) (x : Step κ) : t.world.Leads (t.step x).world := (h.step_leads x).2

/-- No step changes which pipeline it is. -/
theorem fixed_step (t : Threads κ) (x : Step κ) :
    (t.step x).root = t.root ∧ (t.step x).kind = t.kind ∧ (t.step x).clock = t.clock := by
  refine step_rule (P := fun _ t' => t'.root = t.root ∧ t'.kind = t.kind ∧ t'.clock = t.clock) ?_ ?_ ?_ ?_ ?_ ?_ ?_ x
  · exact fun _ _ _ => ⟨rfl, rfl, rfl⟩
  · exact fun _ _ => ⟨rfl, rfl, rfl⟩
  · exact fun _ _ => ⟨rfl, rfl, rfl⟩
  · exact fun _ _ => ⟨rfl, rfl, rfl⟩
  · exact fun _ _ _ => ⟨rfl, rfl, rfl⟩
  · exact fun _ _ _ => ⟨rfl, rfl, rfl⟩
  · exact fun _ _ _ => ⟨rfl, rfl, rfl⟩

theorem fixed_run (t : Threads κ) (xs : List (Step κ)) :
    (t.run xs).root = t.root ∧ (t.run xs).kind = t.kind ∧ (t.run xs).clock = t.clock :=
  run_keeps (P := fun u => u.root = t.root ∧ u.kind = t.kind ∧ u.clock = t.clock)
    (fun u x h => by
      obtain ⟨hroot, hkind, hclock⟩ := fixed_step u x
      exact ⟨hroot.trans h.1, hkind.trans h.2.1, hclock.trans h.2.2⟩) xs t ⟨rfl, rfl, rfl⟩

/-- **What a pipeline needs stays there.** -/
theorem Numbered.ready_step (h : t.Numbered) (hr : t.ready = true) (x : Step κ) : (t.step x).ready = true := by
  obtain ⟨hroot, hkind, hclock⟩ := fixed_step t x
  obtain ⟨he, hmade⟩ := ready_iff.1 hr
  have hl := h.leads_step x
  exact ready_iff.2 ⟨equipped_of_leads he hl hclock hkind, hroot ▸ hl.roots t.root hmade⟩

theorem numbered_blank (root : RootId) (kind : DriverKind) (clock : ClockId) (client : κ) :
    (blank root kind clock client).Numbered where
  known := {
    numbered := {
      scene := ⟨Table.below_empty, Table.below_empty, fun _ _ ha => absurd ha List.not_mem_nil⟩
      clocks := Table.below_empty
      mailboxes := Table.below_empty
      roots := Table.below_empty
      pending := fun _ _ hn => absurd hn List.not_mem_nil
      owner := fun r hr => absurd hr (Table.not_mem_empty r)
      ownerMailbox := fun _ hm => by cases hm }
    current := fun _ hn => absurd hn List.not_mem_nil
    next := fun _ hn => absurd hn List.not_mem_nil
    sink := fun _ hr => by cases hr }
  root? := by cases kind <;> rfl
  equipped h := absurd rfl h
  jobs _ hj := absurd hj List.not_mem_nil

/-- **In every schedule the threads use only what has been made.** -/
theorem numbered_run (root : RootId) (kind : DriverKind) (clock : ClockId) (client : κ) (xs : List (Step κ)) :
    ((blank root kind clock client).run xs).Numbered :=
  run_keeps (fun _ x h => h.step x) xs _ (numbered_blank ..)

end Threads

end SceneAnimation
