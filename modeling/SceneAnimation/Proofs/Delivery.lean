import SceneAnimation.Proofs.Detection
import SceneAnimation.Proofs.Threads.Mail
/-!
# Delivery: what was found finished is told, once and in order

A completion passes through four hands: the run that finds it, the driver's outlet, the mailbox of the root's owner
and the owner's poll.  Nothing is lost, doubled or overtaken on the way: as long as that mailbox is open, what has
been told and what is still on its way make up what was found, in order (`Threads.delivery_run`).  Once it is closed,
what was told is still the beginning of what was found.
-/
namespace SceneAnimation

/-! ## What is on its way -/

namespace Outlet

def held : Outlet → List Completion
  | .inline => []
  | .deferred _ held => held

theorem deferred_of_root? {o : Outlet} {r : RootId} (h : o.root? = some r) : ∃ held, o = .deferred r held := by
  cases o with
  | inline => cases h
  | deferred q held =>
    cases h
    exact ⟨held, rfl⟩

end Outlet

namespace Job

/-- The completions that a run has just found, and that the outlet does not hold yet. -/
def raised : List Job → List Completion
  | .report batch :: _ => batch
  | _ => []

def told? : Job → Option Completion
  | .tell c => some c
  | _ => none

/-- What a job sends: only a post does, and all that is held. -/
def posts {κ : Type} (s : RenderState κ) : Job → List Completion
  | .post => s.driver.outlet.held
  | _ => []

end Job

namespace Errand

def told? : Errand → Option Completion
  | .tell c => some c
  | _ => none

/-- **A poll tells first what it has taken out**: an errand that is not to tell is the last one. -/
def Tidy : List Errand → Prop
  | [] => True
  | .tell _ :: rest => Tidy rest
  | _ :: rest => rest = []

theorem tidy_tells (batch : List Completion) {rest : List Errand} (h : Tidy rest) : Tidy (batch.map tell ++ rest) := by
  induction batch with
  | nil => exact h
  | cons c batch ih => exact ih

theorem told_tells (batch : List Completion) (rest : List Errand) :
    (batch.map tell ++ rest).filterMap told? = batch ++ rest.filterMap told? := by
  induction batch with
  | nil => rfl
  | cons c batch ih =>
    simp only [List.map_cons, List.cons_append, List.filterMap_cons, told?]
    rw [← ih]

/-- **What a tidy errand does**: it tells a completion, or does nothing with any, or takes a delivery out. -/
theorem perform_cases {κ : Type} {e : Errand} {rest : List Errand} (w : World κ) (h : Tidy (e :: rest)) :
    (∃ c, e = .tell c ∧ Tidy rest ∧ e.perform rest w = (rest, w)) ∨
    e.told? = none ∧ rest = [] ∧ Tidy (e.perform rest w).1 ∧
      ((e.perform rest w).2 = w ∧ (e.perform rest w).1.filterMap told? = [] ∨
        ∃ m d, w.receive? m = some (d, (e.perform rest w).2) ∧ (e.perform rest w).1.filterMap told? = d.batch) := by
  have hof : ∀ (d : Delivery) (k : Errand), k.told? = none → Tidy [k] →
      Tidy (ofDelivery [k] d) ∧ (ofDelivery [k] d).filterMap told? = d.batch := by
    intro d k hk ht
    cases d with
    | completions batch =>
      refine ⟨tidy_tells batch ht, ?_⟩
      rw [ofDelivery, told_tells, List.filterMap_cons, hk]
      exact List.append_nil batch
    | report r => exact ⟨trivial, rfl⟩
  cases e with
  | tell c => exact .inl ⟨c, rfl, h, rfl⟩
  | poll m =>
    cases (h : rest = [])
    exact .inr ⟨rfl, rfl, rfl, .inl ⟨rfl, rfl⟩⟩
  | receive m n =>
    cases (h : rest = [])
    refine .inr ⟨rfl, rfl, ?_⟩
    cases n with
    | zero => exact ⟨trivial, .inl ⟨rfl, rfl⟩⟩
    | succ n =>
      cases hr : w.receive? m with
      | none =>
        simp only [perform, hr]
        exact ⟨trivial, .inl ⟨trivial, rfl⟩⟩
      | some x =>
        obtain ⟨ht, hb⟩ := hof x.1 (.receive m n) rfl rfl
        simp only [perform, hr]
        exact ⟨ht, .inr ⟨m, x.1, hr, hb⟩⟩
  | wait m =>
    cases (h : rest = [])
    refine .inr ⟨rfl, rfl, ?_⟩
    cases hr : w.receive? m with
    | none =>
      simp only [perform, hr]
      exact ⟨trivial, .inl ⟨trivial, rfl⟩⟩
    | some x =>
      obtain ⟨ht, hb⟩ := hof x.1 (.poll m) rfl rfl
      simp only [perform, hr]
      exact ⟨ht, .inr ⟨m, x.1, hr, hb⟩⟩

end Errand

namespace Job

variable {κ : Type} {s : RenderState κ}

theorem raised_append {ks rest : List Job} (h : ∀ batch, ¬ .report batch ∈ rest) : raised (ks ++ rest) = raised ks := by
  cases ks with
  | cons k ks => cases k <;> rfl
  | nil =>
    cases rest with
    | nil => rfl
    | cons k rest =>
      cases k with
      | report batch => exact absurd List.mem_cons_self (h batch)
      | _ => rfl

/-- **What a job leaves, with a deferred outlet**: nothing to tell at once, and nothing to report but what it has just
found, first of all. -/
theorem left_perform (j : Job) {r : RootId} (ho : s.driver.outlet.root? = some r) :
    (∀ c, ¬ .tell c ∈ (j.perform s).1) ∧ (∀ batch, ¬ .report batch ∈ (j.perform s).1.tail) ∧
      raised (j.perform s).1 = j.detects s := by
  cases j with
  | run n walked =>
    simp only [perform]
    split <;> simp [raised, detects, Scene.animate, Scene.completedOn]
  | finish n => simp [perform, raised, detects, Scene.finishAll, Scene.endedOn]
  | report batch =>
    obtain ⟨held, h⟩ := Outlet.deferred_of_root? ho
    simp only [perform, h]
    exact ⟨by simp, by simp, rfl⟩
  | takePending q =>
    simp only [perform, detects]
    cases (s.world.takePending q).1 <;> simp [raised]
  | descend depth n =>
    simp only [perform, detects]
    cases (s.world.scene.node n).children <;> simp [raised]
  | takeLeftovers =>
    simp only [perform, detects]
    cases s.driver.schedule.takeCurrent.1 <;> simp [raised]
  | takeAll =>
    simp only [perform, detects]
    cases s.driver.schedule.takeAll.1 <;> simp [raised]
  | prepare depth n =>
    cases depth with
    | zero => simp [perform, raised, detects]
    | succ depth => simp only [perform]; split <;> simp [raised, detects]
  | startFrame | enter n | check depth n | leftover n =>
    simp only [perform]; split <;> simp [raised, detects]
  | _ => simp [perform, raised, detects]

/-- **What the outlet holds after a job.** -/
theorem held_perform (j : Job) {r : RootId} (ho : s.driver.outlet.root? = some r) :
    (j.perform s).2.driver.outlet.held =
      match j with
      | .report batch => s.driver.outlet.held ++ batch
      | .post => []
      | .renew d => d.outlet.held
      | _ => s.driver.outlet.held := by
  obtain ⟨held, h⟩ := Outlet.deferred_of_root? ho
  cases j with
  | report batch =>
    simp only [perform, h]
    rfl
  | post =>
    simp only [perform, Driver.post, h]
    cases held <;> rfl
  | startFrame | prepare depth n | check depth n => rw [state_of_asks (by trivial)]
  | skip n problem => rw [(skip_spec n problem s).1]
  | _ => rfl

/-- **A post sends what is held** to the owner of the outlet's root, and nothing to anyone else. -/
theorem queued_post {r : RootId} (ho : s.driver.outlet.root? = some r) (m : MailboxId) :
    (post.perform s).2.world.accepts m = s.world.accepts m ∧
    (post.perform s).2.world.queued m = s.world.queued m ++
      if m = (s.world.root r).owner ∧ s.world.accepts (s.world.root r).owner = true then s.driver.outlet.held
      else [] := by
  obtain ⟨held, h⟩ := Outlet.deferred_of_root? ho
  simp only [perform, Driver.post, h]
  cases held with
  | nil => exact ⟨rfl, by simp [Outlet.post, Outlet.held]⟩
  | cons c held => exact ⟨World.accepts_send .., World.queued_send ..⟩

end Job

namespace Threads

variable {κ : Type} {t : Threads κ} {r : RootId}

/-! ## The jobs of a deferred outlet -/

/-- **The jobs keep the order of what is found**: none tells a listener at once, only the first reports, and before the
driver is replaced its outlet is emptied. -/
structure Orderly (o : Outlet) (jobs : List Job) : Prop where
  told : ∀ c, ¬ .tell c ∈ jobs
  reported : ∀ batch, ¬ .report batch ∈ jobs.tail
  renewed : ∀ before d after, jobs = before ++ .renew d :: after → d.outlet.held = [] ∧
    (before = [.takeAll] ∨ (∃ bs, before = bs ++ [.post]) ∨ before = [] ∧ o.held = [])

theorem Orderly.perform {s : RenderState κ} {j : Job} {rest : List Job} (ho : s.driver.outlet.root? = some r)
    (h : Orderly s.driver.outlet (j :: rest)) :
    Orderly (j.perform s).2.driver.outlet ((j.perform s).1 ++ rest) := by
  obtain ⟨htell, hreport, -⟩ := j.left_perform ho
  refine ⟨fun c hc => ?_, fun batch hb => ?_, fun before d after he => ?_⟩
  · rcases List.mem_append.1 hc with hc | hc
    · exact htell c hc
    · exact h.told c (List.mem_cons_of_mem j hc)
  · cases hks : (j.perform s).1 with
    | nil =>
      rw [hks, List.nil_append] at hb
      exact h.reported batch (List.mem_of_mem_tail hb)
    | cons k ks =>
      rw [hks] at hb hreport
      rcases List.mem_append.1 hb with hb | hb
      · exact hreport batch hb
      · exact h.reported batch hb
  · obtain ⟨bs, rfl, rfl⟩ := Job.split_perform he
    obtain ⟨hd, hcase⟩ := h.renewed (j :: bs) d after rfl
    refine ⟨hd, ?_⟩
    rcases hcase with hcase | ⟨cs, hcase⟩ | ⟨hcase, -⟩
    · rw [List.cons.injEq] at hcase
      obtain ⟨rfl, rfl⟩ := hcase
      rw [List.append_nil]
      exact .inr (.inl ⟨_, rfl⟩)
    · cases cs with
      | nil =>
        rw [List.nil_append, List.cons.injEq] at hcase
        obtain ⟨rfl, rfl⟩ := hcase
        exact .inr (.inr ⟨rfl, Job.held_perform .post ho⟩)
      | cons k cs =>
        rw [List.cons_append, List.cons.injEq] at hcase
        obtain ⟨rfl, rfl⟩ := hcase
        exact .inr (.inl ⟨(j.perform s).1 ++ cs, (List.append_assoc ..).symm⟩)
    · cases hcase

/-- Before the driver is replaced, neither its outlet nor the new one holds anything. -/
theorem Orderly.held_renew {o : Outlet} {d : Driver} {rest : List Job} (h : Orderly o (.renew d :: rest)) :
    d.outlet.held = [] ∧ o.held = [] := by
  obtain ⟨hd, hcase⟩ := h.renewed [] d rest rfl
  refine ⟨hd, ?_⟩
  rcases hcase with he | ⟨bs, he⟩ | ⟨-, he⟩
  · cases he
  · exact absurd (congrArg List.length he) (by simp)
  · exact he

/-- **The account of one job**: what it sends, and what is held and has just been found after it, make up what was held
and had just been found before it and what it finds, in order. -/
theorem Orderly.balance_perform {s : RenderState κ} {j : Job} {rest : List Job}
    (ho : s.driver.outlet.root? = some r) (h : Orderly s.driver.outlet (j :: rest)) :
    j.posts s ++ (j.perform s).2.driver.outlet.held ++ Job.raised ((j.perform s).1 ++ rest) =
      s.driver.outlet.held ++ Job.raised (j :: rest) ++ j.detects s := by
  have hraised : Job.raised ((j.perform s).1 ++ rest) = j.detects s :=
    (Job.raised_append h.reported).trans (j.left_perform ho).2.2
  rw [hraised, Job.held_perform j ho]
  cases j with
  | renew d =>
    obtain ⟨hd, hheld⟩ := h.held_renew
    simp [hd, hheld, Job.posts, Job.raised]
  | post | report batch => simp [Job.posts, Job.raised, Job.detects]
  | _ => simp [Job.posts, Job.raised]

theorem orderly_jobs (o : Outlet) (root : RootId) (k : DriverKind) (clock : ClockId) (task : Task) :
    Orderly o (task.jobs root k clock) where
  told c hc := by cases task <;> simp [Task.jobs, Task.frameJobs] at hc
  reported batch hb := by cases task <;> simp [Task.jobs, Task.frameJobs] at hb
  renewed before d after he := by
    obtain ⟨rfl, rfl⟩ := Task.renew_jobs he
    exact ⟨by cases k <;> rfl, .inl rfl⟩

/-! ## The account of a run -/

/-- The completions that the present poll has taken out and not told yet. -/
def handed (t : Threads κ) : List Completion := t.errands.filterMap Errand.told?

def held (t : Threads κ) : List Completion := t.driver.outlet.held

/-- The completions of the node that is being run. -/
def raised (t : Threads κ) : List Completion := Job.raised t.jobs

def owner (t : Threads κ) (r : RootId) : MailboxId := (t.world.root r).owner

def tells (t : Threads κ) : Step κ → List Completion
  | .errand => (t.errands.head?.bind Errand.told?).toList
  | .job => (t.jobs.head?.bind Job.told?).toList
  | _ => []

def told (t : Threads κ) (xs : List (Step κ)) : List Completion := along tells t xs

/-- **The invariant of delivery.**  What was found is in one of five places, in order; once the owner's mailbox is
closed, only the first two places are sure. -/
structure Accounts (r : RootId) (detected told : List Completion) (t : Threads κ) : Prop where
  kind : t.kind = .deferred r
  orderly : Orderly t.driver.outlet t.jobs
  tidy : Errand.Tidy t.errands
  unmade : ¬ r ∈ t.world.roots → detected = [] ∧ told = [] ∧ t.handed = [] ∧ t.held = [] ∧ t.jobs = []
  others : ∀ m, (r ∈ t.world.roots → m ≠ t.owner r) → t.world.queued m = []
  begun : told ++ t.handed <+: detected
  balance : t.world.accepts (t.owner r) = true →
    told ++ t.handed ++ t.world.queued (t.owner r) ++ t.held ++ t.raised = detected

variable {detected told : List Completion}

theorem Accounts.call (hn : t.Numbered) (h : t.Accounts r detected told) {c : Call κ} (hc : c.named t.world = true) :
    Accounts r detected told { t.inWorld (c.effect t.world) with due := t.dueAfter c } := by
  have hl := hn.world.effect c hc
  have hquiet := World.quiet_effect hn.world c
  by_cases hr : r ∈ t.world.roots
  · have howner : ((c.effect t.world).root r).owner = t.owner r := Call.owner_effect hn.world c hr
    refine ⟨h.kind, h.orderly, h.tidy, fun hr' => absurd (hl.roots r hr) hr', fun m hm => ?_, h.begun, fun ha => ?_⟩
    · have hm : m ≠ t.owner r := howner ▸ hm (hl.roots r hr)
      rcases (hquiet m).queued with hq | hq
      · exact hq
      · exact hq.trans (h.others m fun _ => hm)
    · have ha : (c.effect t.world).accepts (t.owner r) = true := howner ▸ ha
      show told ++ t.handed ++ (c.effect t.world).queued ((c.effect t.world).root r).owner ++ t.held ++ t.raised =
        detected
      rw [howner, (hquiet _ ha).2]
      exact h.balance (hquiet _ ha).1
  · obtain ⟨hdetected, htold, hhanded, hheld, hjobs⟩ := h.unmade hr
    have hqueued : ∀ m, (c.effect t.world).queued m = [] := by
      intro m
      rcases (hquiet m).queued with hq | hq
      · exact hq
      · exact hq.trans (h.others m fun hr' => absurd hr' hr)
    refine ⟨h.kind, h.orderly, h.tidy, fun _ => h.unmade hr, fun m _ => hqueued m, h.begun, fun _ => ?_⟩
    show told ++ t.handed ++ (c.effect t.world).queued _ ++ t.held ++ Job.raised t.jobs = detected
    rw [hqueued, hdetected, htold, hhanded, hheld, hjobs]
    rfl

theorem Accounts.errand (h : t.Accounts r detected told) {e : Errand} {rest : List Errand}
    (he : t.errands = e :: rest) :
    Accounts r (detected ++ t.detects .errand) (told ++ t.tells .errand)
      { t.inWorld (e.perform rest t.world).2 with errands := (e.perform rest t.world).1 } := by
  have hroots := Errand.roots_perform e rest t.world
  have hdetects : t.detects .errand = [] := rfl
  have htells : t.tells .errand = e.told?.toList := by rw [tells, he]; rfl
  have hhanded : t.handed = e.told?.toList ++ rest.filterMap Errand.told? := by
    rw [handed, he, List.filterMap_cons]
    cases e.told? <;> rfl
  rw [hdetects, List.append_nil, htells]
  rcases Errand.perform_cases t.world (he ▸ h.tidy) with ⟨c, rfl, htidy, hp⟩ | ⟨hnone, rfl, htidy, hp⟩
  · -- the completion moves from the poll to what has been told
    have hmove : told ++ t.handed = told ++ [c] ++ rest.filterMap Errand.told? := by
      rw [hhanded, List.append_assoc]; rfl
    rw [hp]
    refine ⟨h.kind, h.orderly, htidy, fun hr => ?_, h.others, hmove ▸ h.begun, fun ha => ?_⟩
    · have := (h.unmade hr).2.2.1
      rw [hhanded] at this
      cases this
    · have := h.balance ha
      rw [hmove] at this
      exact this
  · have hempty : t.handed = [] := by rw [hhanded, hnone]; rfl
    rw [hnone]
    show Accounts r detected (told ++ []) _
    rw [List.append_nil]
    have hbegun := h.begun
    have hbalance := h.balance
    rw [hempty, List.append_nil] at hbegun hbalance
    have hunmade : ¬ r ∈ t.world.roots → (e.perform [] t.world).1.filterMap Errand.told? = [] →
        detected = [] ∧ told = [] ∧ (e.perform [] t.world).1.filterMap Errand.told? = [] ∧ t.held = [] ∧ t.jobs = [] :=
      fun hr hx => ⟨(h.unmade hr).1, (h.unmade hr).2.1, hx, (h.unmade hr).2.2.2⟩
    revert hroots htidy hp hunmade
    generalize e.perform [] t.world = after
    obtain ⟨es, w⟩ := after
    rintro (hroots : w.roots = t.world.roots) (htidy : Errand.Tidy es) hp hunmade
    have howner : ∀ q, (w.root q).owner = t.owner q := fun q => by rw [World.root, hroots]; rfl
    rcases hp with ⟨rfl, hrest : es.filterMap Errand.told? = []⟩ |
      ⟨m, d, hd, hrest : es.filterMap Errand.told? = d.batch⟩
    · refine ⟨h.kind, h.orderly, htidy, fun hr => hunmade hr hrest, h.others, ?_, fun ha => ?_⟩
      · show told ++ es.filterMap Errand.told? <+: detected
        rw [hrest, List.append_nil]
        exact hbegun
      · show told ++ es.filterMap Errand.told? ++ t.world.queued (t.owner r) ++ t.held ++ t.raised = detected
        rw [hrest, List.append_nil]
        exact hbalance ha
    · -- the delivery moves from its mailbox to the poll
      obtain ⟨hopen, hqueued, haccepts, hothers⟩ := World.queued_receive hd
      by_cases hm : r ∈ t.world.roots ∧ m = t.owner r
      · obtain ⟨hr, rfl⟩ := hm
        have hsum := hbalance hopen
        rw [hqueued] at hsum
        refine ⟨h.kind, h.orderly, htidy, fun hr' => absurd (hroots ▸ hr) hr', fun n hn => ?_, ?_, fun _ => ?_⟩
        · have hn : n ≠ t.owner r := howner r ▸ hn (hroots ▸ hr)
          exact (hothers n hn).trans (h.others n fun _ => hn)
        · show told ++ es.filterMap Errand.told? <+: detected
          rw [hrest, ← hsum]
          simp only [← List.append_assoc]
          exact (List.prefix_append _ _).trans ((List.prefix_append _ _).trans (List.prefix_append _ _))
        · show told ++ es.filterMap Errand.told? ++ w.queued (w.root r).owner ++ t.held ++ t.raised = detected
          rw [howner, hrest, ← hsum]
          simp only [List.append_assoc]
      · -- no completions wait in another mailbox
        have hnone : d.batch = [] ∧ w.queued m = [] := by
          have := h.others m fun hr hm' => hm ⟨hr, hm'⟩
          rw [hqueued] at this
          exact List.append_eq_nil_iff.1 this
        have hsame : ∀ n, w.queued n = t.world.queued n := by
          intro n
          by_cases hn : n = m
          · rw [hn, hnone.2, hqueued, hnone.1, hnone.2]; rfl
          · exact hothers n hn
        rw [hnone.1] at hrest
        refine ⟨h.kind, h.orderly, htidy, fun hr => hunmade (hroots ▸ hr) hrest, fun n hn => ?_, ?_, fun ha => ?_⟩
        · exact (hsame n).trans (h.others n fun hr => howner r ▸ hn (hroots ▸ hr))
        · show told ++ es.filterMap Errand.told? <+: detected
          rw [hrest, List.append_nil]
          exact hbegun
        · have ha : w.accepts (t.owner r) = true := howner r ▸ ha
          show told ++ es.filterMap Errand.told? ++ w.queued (w.root r).owner ++ t.held ++ t.raised = detected
          rw [howner, hsame, hrest, List.append_nil]
          exact hbalance (haccepts _ ▸ ha)

theorem Accounts.job (hn : t.Numbered) (h : t.Accounts r detected told) {j : Job} {rest : List Job}
    (hj : t.jobs = j :: rest) :
    Accounts r (detected ++ t.detects .job) (told ++ t.tells .job)
      { t with jobs := (j.perform t.state).1 ++ rest, state := (j.perform t.state).2 } := by
  have ho : t.state.driver.outlet.root? = some r := hn.root?.trans (by rw [target?, h.kind])
  have hr : r ∈ t.world.roots := hn.outlet (by simp [hj]) r ho
  have hr' : r ∈ (j.perform t.state).2.world.roots :=
    (Job.leads_perform hn.known (hn.jobs j (hj ▸ List.mem_cons_self)) (hn.outlet (by simp [hj]))).roots r hr
  have horderly : Orderly t.state.driver.outlet (j :: rest) := hj ▸ h.orderly
  have hdetects : t.detects .job = j.detects t.state := detects_job hj
  have htells : t.tells .job = [] := by
    cases j with
    | tell c => exact absurd List.mem_cons_self (horderly.told c)
    | _ => rw [tells, hj]; rfl
  have howner : ((j.perform t.state).2.world.root r).owner = t.owner r := Job.owner_perform ..
  rw [htells, hdetects, List.append_nil]
  refine ⟨h.kind, horderly.perform ho, h.tidy, fun hn => absurd hr' hn, fun m hm => ?_, ?_, fun ha => ?_⟩
  · have hne : m ≠ t.owner r := fun e => hm hr' (e.trans howner.symm)
    have hold : t.state.world.queued m = [] := h.others m fun _ => hne
    show (j.perform t.state).2.world.queued m = []
    by_cases hpost : j = .post
    · subst hpost
      rw [(Job.queued_post ho m).2, hold, if_neg fun hx => hne hx.1]
      rfl
    · rcases (j.quiet_perform t.state hpost m).queued with hq | hq
      · exact hq
      · exact hq.trans hold
  · exact h.begun.trans (List.prefix_append _ _)
  · have ha : (j.perform t.state).2.world.accepts (t.owner r) = true := howner ▸ ha
    have hsent : t.world.accepts (t.owner r) = true ∧
        (j.perform t.state).2.world.queued (t.owner r) = t.world.queued (t.owner r) ++ j.posts t.state := by
      by_cases hpost : j = .post
      · subst hpost
        obtain ⟨haccepts, hqueued⟩ := Job.queued_post ho (t.owner r)
        have hopen : t.world.accepts (t.owner r) = true := haccepts ▸ ha
        exact ⟨hopen, hqueued.trans (by rw [if_pos ⟨rfl, hopen⟩]; rfl)⟩
      · obtain ⟨hopen, hqueued⟩ := j.quiet_perform t.state hpost _ ha
        have hnone : j.posts t.state = [] := by
          cases j with
          | post => exact absurd rfl hpost
          | _ => rfl
        exact ⟨hopen, by rw [hqueued, hnone, List.append_nil]; rfl⟩
    have hsum : told ++ t.handed ++ t.world.queued (t.owner r) ++ t.state.driver.outlet.held ++ Job.raised (j :: rest) =
        detected :=
      hj ▸ h.balance hsent.1
    calc told ++ t.handed ++ (j.perform t.state).2.world.queued ((j.perform t.state).2.world.root r).owner ++
          (j.perform t.state).2.driver.outlet.held ++ Job.raised ((j.perform t.state).1 ++ rest)
        = told ++ t.handed ++ t.world.queued (t.owner r) ++ (j.posts t.state ++
            (j.perform t.state).2.driver.outlet.held ++ Job.raised ((j.perform t.state).1 ++ rest)) := by
          rw [howner, hsent.2]
          simp only [List.append_assoc]
      _ = detected ++ j.detects t.state := by
          rw [horderly.balance_perform ho, ← hsum]
          simp only [List.append_assoc]

theorem Accounts.step (hn : t.Numbered) (h : t.Accounts r detected told) (x : Step κ) :
    Accounts r (detected ++ t.detects x) (told ++ t.tells x) (t.step x) := by
  have hnone : Accounts r (detected ++ []) (told ++ []) t := by
    rw [List.append_nil, List.append_nil]
    exact h
  have hpoll : ∀ e : Errand, e.told? = none → Errand.Tidy [e] → t.errands = [] →
      Accounts r (detected ++ []) (told ++ []) { t with errands := [e] } := by
    intro e hnot htidy he
    have hhanded : handed { t with errands := [e] } = t.handed := by
      rw [handed, handed, he, List.filterMap_cons, hnot]
    refine ⟨h.kind, h.orderly, htidy, fun hr => ?_, h.others, ?_, fun ha => ?_⟩
    · rw [hhanded]; exact hnone.unmade hr
    · rw [hhanded]; exact hnone.begun
    · rw [hhanded]; exact hnone.balance ha
  refine step_rule (P := fun x t' => Accounts r (detected ++ t.detects x) (told ++ t.tells x) t') ?_ ?_ ?_ ?_ ?_ ?_ ?_ x
  · intro x herrand hjob
    cases x with
    | errand =>
      rw [tells, herrand rfl]
      exact hnone
    | job =>
      rw [detects, tells, hjob rfl]
      exact hnone
    | _ => exact hnone
  · exact fun c hc => hnone.call hn hc
  · exact fun m he => hpoll (.poll m) rfl rfl he
  · exact fun m he => hpoll (.wait m) rfl rfl he
  · exact fun e rest he => h.errand he
  · intro task hj hready
    have hr : r ∈ t.world.roots := (equipped_iff.1 (ready_iff.1 hready).1).2 r (by rw [target?, h.kind])
    have hraised : Job.raised (task.jobs t.root t.kind t.clock) = t.raised := by
      rw [raised, hj]
      cases task <;> rfl
    refine ⟨h.kind, orderly_jobs _ _ _ _ task, h.tidy, fun hn => absurd hr hn, h.others, hnone.begun, fun ha => ?_⟩
    show told ++ [] ++ t.handed ++ t.world.queued (t.owner r) ++ t.held ++ Job.raised (task.jobs _ _ _) = detected ++ []
    rw [hraised]
    exact hnone.balance ha
  · exact fun j rest hj => h.job hn hj

theorem accounts_blank (r root : RootId) (clock : ClockId) (client : κ) :
    Accounts r [] [] (blank root (.deferred r) clock client) where
  kind := rfl
  orderly := ⟨fun _ hc => absurd hc List.not_mem_nil, fun _ hb => absurd hb List.not_mem_nil, fun before _ _ he => by
    cases before <;> cases he⟩
  tidy := trivial
  unmade _ := ⟨rfl, rfl, rfl, rfl, rfl⟩
  others _ _ := rfl
  begun := List.prefix_rfl
  balance _ := rfl

theorem Accounts.run (hn : t.Numbered) (h : t.Accounts r detected told) (xs : List (Step κ)) :
    Accounts r (detected ++ t.detected xs) (told ++ t.told xs) (t.run xs) :=
  (run_keeps_along (P := fun l m t => t.Numbered ∧ Accounts r l m t)
    (fun _ _ _ x h => ⟨h.1.step x, h.2.step h.1 x⟩) xs detected told t ⟨hn, h⟩).2

theorem accounts_run (r root : RootId) (clock : ClockId) (client : κ) (xs : List (Step κ)) :
    Accounts r ((blank root (.deferred r) clock client).detected xs) ((blank root (.deferred r) clock client).told xs)
      ((blank root (.deferred r) clock client).run xs) :=
  (accounts_blank r root clock client).run (numbered_blank ..) xs

/-- Between two operations no completion is in the middle of a run or a poll. -/
theorem idle_spec (h : t.idle = true) : t.handed = [] ∧ t.raised = [] := by
  rw [idle, Bool.and_eq_true, List.isEmpty_iff, List.isEmpty_iff] at h
  rw [handed, raised, h.1, h.2]
  exact ⟨rfl, rfl⟩

/-- **What was found finished is told once, and in order.**  In every schedule, with any calls between and inside the
listeners: each animator is found at most once, and those found are those with a listener that are finished; what has
been told is the beginning of what was found; and while the mailbox of the root's owner is open, what has been told,
what waits in the mailbox and what the driver holds make up what was found, but for what a run or a poll under way has
in hand. -/
theorem delivery_run (r root : RootId) (clock : ClockId) (client : κ) (xs : List (Step κ)) :
    let start := blank root (.deferred r) clock client
    let t := start.run xs
    ((start.detected xs).map (·.animator)).Nodup ∧
    (∀ c, c ∈ start.detected xs ↔
      (t.scene.animator c.animator).listener = some c.listener ∧ (t.scene.animator c.animator).state = .finished) ∧
    start.told xs <+: start.detected xs ∧
    (t.world.accepts (t.owner r) = true →
      start.told xs ++ t.handed ++ t.world.queued (t.owner r) ++ t.held ++ t.raised = start.detected xs) ∧
    (t.world.accepts (t.owner r) = true → t.idle = true →
      start.told xs ++ t.world.queued (t.owner r) ++ t.held = start.detected xs) := by
  intro start t
  have hdetection : Detection (start.detected xs) t.scene := detection_run root (.deferred r) clock client xs
  have h : Accounts r (start.detected xs) (start.told xs) t := accounts_run r root clock client xs
  refine ⟨hdetection.once, hdetection.finished, (List.prefix_append _ _).trans h.begun, h.balance, fun ha hi => ?_⟩
  have hsum := h.balance ha
  rw [(idle_spec hi).1, (idle_spec hi).2, List.append_nil, List.append_nil] at hsum
  exact hsum

/-- An animator is found by a tick, posted, polled and told. -/
theorem delivery_opening :
    let xs := opening ⟨0⟩ ++ work (.tick ⟨5⟩) 12 ++ [.poll, .errand, .errand, .errand, .errand]
    let start := blank ⟨0⟩ (.deferred ⟨0⟩) ⟨0⟩ ()
    let t := start.run xs
    start.told xs = [⟨⟨1⟩, ⟨0⟩⟩] ∧ t.world.accepts (t.owner ⟨0⟩) = true ∧ t.idle = true ∧
      start.told xs ++ t.world.queued (t.owner ⟨0⟩) ++ t.held = start.detected xs := by
  intro xs start t
  have ha : t.world.accepts (t.owner ⟨0⟩) = true := by decide +kernel
  have hi : t.idle = true := by decide +kernel
  exact ⟨by decide +kernel, ha, hi, (delivery_run ⟨0⟩ ⟨0⟩ ⟨0⟩ () xs).2.2.2.2 ha hi⟩

end Threads

end SceneAnimation
