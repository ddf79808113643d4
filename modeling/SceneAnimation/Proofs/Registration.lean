import SceneAnimation.Proofs.Threads.Moves
/-!
# Registration: nodes join the active set once, in the order in which they were registered

Any thread may register nodes on a root, at any time; the render thread takes all that wait when a frame starts.  No
registration is lost, doubled or overtaken (`Threads.queue_moves`).  What a frame start takes it schedules node by node:
a node that is scheduled already, or that came before in the same batch, is left out (`Schedule.next_foldl_add`).  So
the active set of the frame is known whatever is registered in the meantime (`Threads.registration_run`).
-/
namespace SceneAnimation

/-- The first occurrences in a part of a list are those of the list that are in the part. -/
theorem eraseDups_filter {α : Type} [BEq α] [LawfulBEq α] (p : α → Bool) :
    ∀ l : List α, (l.filter p).eraseDups = l.eraseDups.filter p
  | [] => rfl
  | a :: l => by
    have hlt : (l.filter fun b => !b == a).length < l.length + 1 := Nat.lt_succ_of_le (List.length_filter_le ..)
    have ih := eraseDups_filter p (l.filter fun b => !b == a)
    rw [List.eraseDups_cons]
    by_cases ha : p a = true
    · rw [List.filter_cons_of_pos ha, List.filter_cons_of_pos ha, List.eraseDups_cons, ← ih, List.filter_filter,
        List.filter_filter]
      simp only [Bool.and_comm]
    · have hne : l.filter p = (l.filter fun b => !b == a).filter p := by
        rw [List.filter_filter]
        refine List.filter_congr fun b _ => ?_
        by_cases hb : b = a
        · subst hb; simp [ha]
        · simp [hb]
      rw [List.filter_cons_of_neg ha, List.filter_cons_of_neg ha, ← ih, ← hne]
termination_by l => l.length

namespace Schedule

/-- **What is noted as scheduled is what is scheduled**, each node once. -/
structure Exact (s : Schedule) : Prop where
  mem : ∀ n, n ∈ s.scheduled ↔ n ∈ s.next
  nodup : s.next.Nodup

theorem exact_empty {s : Schedule} (hn : s.next = []) (hs : s.scheduled = []) : s.Exact where
  mem n := by rw [hn, hs]
  nodup := hn ▸ List.nodup_nil

namespace Exact

variable {s : Schedule}

theorem next_add (h : s.Exact) (n : NodeId) : (s.add n).next = if n ∈ s.next then s.next else s.next ++ [n] := by
  unfold Schedule.add
  simp only [h.mem]
  split <;> rfl

theorem add (h : s.Exact) (n : NodeId) : (s.add n).Exact := by
  unfold Schedule.add
  split
  · exact h
  · rename_i hn
    refine ⟨fun m => ?_, ?_⟩
    · rw [List.mem_cons, List.mem_append, List.mem_singleton, h.mem, or_comm]
    · refine List.nodup_append.2 ⟨h.nodup, List.pairwise_singleton _ n, fun a ha b hb he => hn ?_⟩
      rw [List.mem_singleton.1 hb] at he
      exact (h.mem n).2 (he ▸ ha)

theorem foldl_add (h : s.Exact) (ns : List NodeId) : (ns.foldl Schedule.add s).Exact := by
  induction ns generalizing s with
  | nil => exact h
  | cons n ns ih => exact ih (h.add n)

/-- **Nodes scheduled one after the other**: each comes once, at its first turn, unless it was scheduled before. -/
theorem next_foldl_add (h : s.Exact) (ns : List NodeId) :
    (ns.foldl Schedule.add s).next = s.next ++ ns.eraseDups.filter (· ∉ s.next) := by
  induction ns generalizing s with
  | nil => simp
  | cons n ns ih =>
    have hrest : (ns.filter fun m => !m == n).eraseDups = ns.eraseDups.filter fun m => !m == n :=
      eraseDups_filter _ ns
    rw [List.foldl_cons, ih (h.add n), h.next_add, List.eraseDups_cons, hrest]
    by_cases hn : n ∈ s.next
    · rw [if_pos hn, List.filter_cons_of_neg (by simp [hn]), List.filter_filter]
      refine congrArg (s.next ++ ·) (List.filter_congr fun m _ => ?_)
      by_cases hm : m = n
      · subst hm; simp [hn]
      · simp [hm]
    · rw [if_neg hn, List.filter_cons_of_pos (by simp [hn]), List.filter_filter, List.append_assoc]
      refine congrArg (fun l => s.next ++ (n :: l)) (List.filter_congr fun m _ => ?_)
      by_cases hm : m = n <;> simp [hm]

end Exact

theorem current_foldl_add (s : Schedule) (ns : List NodeId) : (ns.foldl add s).current = s.current := by
  induction ns generalizing s with
  | nil => rfl
  | cons n ns ih => rw [List.foldl_cons, ih, current_add]

end Schedule

/-- **Every job keeps the notes of a schedule right.** -/
theorem Job.exact_perform {κ : Type} (j : Job) {s : RenderState κ} (h : s.driver.schedule.Exact)
    (hr : ∀ d, j = .renew d → d.schedule = {}) : (j.perform s).2.driver.schedule.Exact := by
  rw [schedule_perform]
  cases j with
  | schedule n => exact h.add n
  | keep n walked => exact h.add n
  | beginFrame | takeAll => exact Schedule.exact_empty rfl rfl
  | renew d =>
    simp only [hr d rfl]
    exact Schedule.exact_empty rfl rfl
  | visit n => exact ⟨h.mem, h.nodup⟩
  | takeLeftovers => exact ⟨h.mem, h.nodup⟩
  | _ => exact h

namespace Threads

variable {κ : Type} {t : Threads κ} {r : RootId}

/-! ## The queue of a root -/

def registers (r : RootId) (t : Threads κ) : Move κ → List NodeId
  | .step (.call (.register q n)) => if q = r ∧ (Call.register q n).named t.world = true then [n] else []
  | _ => []

/-- The batch that a move takes out of the queue of root `r`. -/
def takes (r : RootId) (t : Threads κ) : Move κ → List (List NodeId)
  | .step .job =>
    match t.jobs with
    | .takePending q :: _ => if q = r then [(t.world.root r).pending] else []
    | _ => []
  | _ => []

def registered (r : RootId) (t : Threads κ) (xs : List (Move κ)) : List NodeId := trail move (registers r) t xs

/-- The batches that frame starts take from root `r`, in order. -/
def taken (r : RootId) (t : Threads κ) (xs : List (Move κ)) : List (List NodeId) := trail move (takes r) t xs

def pending (t : Threads κ) (r : RootId) : List NodeId := (t.world.root r).pending

theorem queue_call (hn : t.Numbered) (c : Call κ) :
    (t.make c).pending r = t.pending r ++ registers r t (.step (.call c)) := by
  unfold make
  split
  · rename_i hc
    show ((c.effect t.world).root r).pending = (t.world.root r).pending ++ _
    rw [Call.pending_effect hn.world]
    cases c with
    | register q n =>
      simp only [registers, hc, and_true, eq_comm]
      split <;> simp
    | _ => exact (List.append_nil _).symm
  · rename_i hc
    cases c with
    | register q n => simp [registers, hc]
    | _ => exact (List.append_nil _).symm

theorem queue_job (t : Threads κ) (r : RootId) :
    (takes r t (.step .job)).flatten ++ t.doJob.pending r = t.pending r := by
  cases hj : t.jobs with
  | nil =>
    simp only [takes, doJob, hj]
    rfl
  | cons j rest =>
    have hpending : t.doJob.pending r = _ :=
      (congrArg (fun u : Threads κ => u.pending r) (move_job hj)).trans (Job.pending_perform j t.state r)
    simp only [hpending, takes, hj]
    cases j with
    | takePending q =>
      dsimp only
      by_cases hq : q = r
      · subst hq; simp [pending, world]
      · rw [if_neg hq, if_neg (Ne.symm hq)]
        rfl
    | _ => rfl

/-- **What waits at a root**: a move takes all of it or nothing, and a registration joins at the end. -/
theorem queue_move (hn : t.Numbered) (x : Move κ) :
    (takes r t x).flatten ++ (t.move x).pending r = t.pending r ++ registers r t x := by
  have hstay : ∀ t' : Threads κ, t'.pending r = t.pending r → [].flatten ++ t'.pending r = t.pending r ++ [] := by
    intro t' h
    rw [h, List.append_nil]
    rfl
  cases x with
  | ask q =>
    refine hstay _ ?_
    simp only [move, ask]
    split <;> rfl
  | elsewhere d =>
    refine hstay _ ?_
    simp only [move, undergo]
    split <;> rfl
  | step x =>
    cases x with
    | call c => exact queue_call hn c
    | job => exact (queue_job t r).trans (List.append_nil _).symm
    | errand =>
      refine hstay _ (congrArg Root.pending ?_)
      simp only [move, step, doErrand]
      split
      · rfl
      · rename_i e rest _
        show (e.perform rest t.world).2.root r = t.world.root r
        rw [World.root, Errand.roots_perform]
        rfl
    | start task =>
      refine hstay _ ?_
      simp only [move, step, begin]
      split <;> rfl
    | poll | waitAndPoll =>
      refine hstay _ ?_
      simp only [move, step, beginPoll]
      split <;> rfl

/-- **No registration is lost, doubled or overtaken**: what is taken, and what waits then, is what waited before and
what was registered since. -/
theorem queue_moves (hn : t.Numbered) (xs : List (Move κ)) :
    (taken r t xs).flatten ++ (t.moves xs).pending r = t.pending r ++ registered r t xs := by
  have h := foldl_keeps_trail (f := takes r) (g := registers r)
    (P := fun out within u => u.Numbered ∧ out.flatten ++ u.pending r = t.pending r ++ within)
    (fun out within u x h => ⟨h.1.move x, by
      rw [List.flatten_append, List.append_assoc, queue_move h.1, ← List.append_assoc, h.2, List.append_assoc]⟩)
    xs [] [] t ⟨hn, (List.append_nil _).symm⟩
  exact h.2

theorem exact_move (hn : t.Numbered) (h : t.driver.schedule.Exact) (x : Move κ) :
    (t.move x).driver.schedule.Exact := by
  cases x with
  | ask q =>
    simp only [move, ask]
    split <;> exact h
  | elsewhere d =>
    simp only [move, undergo]
    split <;> exact h
  | step x =>
    refine step_rule (P := fun _ t' => t'.driver.schedule.Exact) ?_ ?_ ?_ ?_ ?_ ?_ ?_ x
    · exact fun _ _ _ => h
    · exact fun _ _ => h
    · exact fun _ _ => h
    · exact fun _ _ => h
    · exact fun _ _ _ => h
    · exact fun _ _ _ => h
    · exact fun j rest hj => j.exact_perform h (hn.renew hj)

theorem exact_moves (root : RootId) (kind : DriverKind) (clock : ClockId) (client : κ) (xs : List (Move κ)) :
    ((blank root kind clock client).moves xs).driver.schedule.Exact := by
  have hkeeps : ∀ (xs : List (Move κ)) (t : Threads κ), t.Numbered → t.driver.schedule.Exact →
      (t.moves xs).driver.schedule.Exact := by
    intro xs
    induction xs with
    | nil => exact fun _ _ h => h
    | cons x xs ih => exact fun t hn h => ih (t.move x) (hn.move x) (exact_move hn h x)
  refine hkeeps xs _ (numbered_blank ..) ?_
  cases kind <;> exact Schedule.exact_empty rfl rfl

/-! ## The start of a frame -/

def jobSteps (xs : List (Move κ)) : Nat := xs.countP isJob

theorem idle_moves : ∀ {xs : List (Move κ)} {t : Threads κ}, jobSteps xs = 0 → t.jobs ≠ [] →
    (t.moves xs).jobs = t.jobs ∧ (t.moves xs).driver = t.driver
  | [], _, _, _ => ⟨rfl, rfl⟩
  | x :: xs, t, h, hj => by
    have hx : ¬ isJob x = true := List.countP_eq_zero.1 h x List.mem_cons_self
    rw [jobSteps, List.countP_cons_of_neg hx] at h
    obtain ⟨hjobs, hdriver, -⟩ := idle_move hj (Bool.not_eq_true _ ▸ hx)
    obtain ⟨h1, h2⟩ := idle_moves (t := t.move x) h (hjobs ▸ hj)
    exact ⟨h1.trans hjobs, h2.trans hdriver⟩

/-- A run of moves with a given number of steps of the render thread begins with such a step, after some others. -/
theorem jobs_of_jobSteps {k : Nat} : ∀ {xs : List (Move κ)} {t : Threads κ}, jobSteps xs = k + 1 → t.jobs ≠ [] →
    ∃ (u : Threads κ) (ys : List (Move κ)), t.moves xs = (u.move (.step .job)).moves ys ∧ u.jobs = t.jobs ∧
      u.driver = t.driver ∧ jobSteps ys = k
  | [], _, h, _ => nomatch h
  | x :: xs, t, h, hj => by
    by_cases hx : isJob x = true
    · rw [jobSteps, List.countP_cons_of_pos hx] at h
      exact ⟨t, xs, by rw [eq_of_isJob hx]; rfl, rfl, rfl, Nat.succ.inj h⟩
    · rw [jobSteps, List.countP_cons_of_neg hx] at h
      obtain ⟨hjobs, hdriver, -⟩ := idle_move hj (Bool.not_eq_true _ ▸ hx)
      obtain ⟨u, ys, hm, hu, hd, hk⟩ := jobs_of_jobSteps (t := t.move x) h (hjobs ▸ hj)
      exact ⟨u, ys, hm, hu.trans hjobs, hd.trans hdriver, hk⟩

/-- Nodes are scheduled one by one, whatever happens in between. -/
theorem schedule_moves {rest : List Job} (hrest : rest ≠ []) : ∀ (ns : List NodeId) (zs : List (Move κ))
    {t : Threads κ}, t.jobs = ns.map .schedule ++ rest → jobSteps zs = ns.length →
      (t.moves zs).jobs = rest ∧ (t.moves zs).driver = t.driver.addAll ns
  | [], zs, t, hj, hz => by
    have hj : t.jobs = rest := hj
    obtain ⟨hjobs, hdriver⟩ := idle_moves hz (hj ▸ hrest)
    exact ⟨hjobs.trans hj, hdriver⟩
  | n :: ns, zs, t, hj, hz => by
    obtain ⟨u, ys, hm, hu, hd, hk⟩ := jobs_of_jobSteps (t := t) hz (by rw [hj]; simp)
    have hjob : u.move (.step .job) =
        { u with jobs := ns.map .schedule ++ rest, state := { u.state with driver := u.driver.add n } } := by
      simp only [move, step, doJob, hu, hj]
      rfl
    obtain ⟨h1, h2⟩ := schedule_moves hrest ns ys (t := u.move (.step .job)) (by rw [hjob]) hk
    rw [hm]
    refine ⟨h1, h2.trans ?_⟩
    rw [hjob]
    show (u.driver.add n).addAll ns = _
    rw [hd]
    rfl

/-- **The active set of a frame**: what was left over, what was scheduled, and then what the start took, in the order of
registration and without what had been scheduled by then. -/
theorem current_of_start {rest : List Job} {ys zs : List (Move κ)} (hx : t.driver.schedule.Exact)
    (hj : t.jobs = .startFrame :: rest) (hr : t.driver.outlet.root? = some r) (hy : jobSteps ys = 1)
    (hz : jobSteps zs = ((t.moves ys).pending r).length) :
    let u := t.moves ys
    let v := u.moves (.step .job :: (zs ++ [.step .job]))
    takes r u (.step .job) = [u.pending r] ∧ v.jobs = rest ∧
    v.driver.schedule.current = t.driver.schedule.current ++ t.driver.schedule.next ++
      (u.pending r).eraseDups.filter (· ∉ t.driver.schedule.next) ∧
    v.driver.schedule.next = [] := by
  intro u v
  obtain ⟨t₁, ys', hm, hj₁, hd₁, hy'⟩ := jobs_of_jobSteps hy (by rw [hj]; simp)
  obtain ⟨held, ho⟩ : ∃ held, t₁.state.driver.outlet = .deferred r held := by
    rw [← hd₁] at hr
    cases ho : t₁.state.driver.outlet with
    | inline => rw [driver, ho] at hr; cases hr
    | deferred q held =>
      rw [driver, ho] at hr
      cases hr
      exact ⟨held, rfl⟩
  -- the first step only looks at the outlet, and the queue is taken by the second, after the moves `ys'`
  have hstart : t₁.move (.step .job) = { t₁ with jobs := .takePending r :: .beginFrame :: rest } := by
    rw [move_job (hj₁.trans hj)]
    simp only [Job.perform, ho]
    rfl
  obtain ⟨hju, hdu⟩ := idle_moves (t := t₁.move (.step .job)) hy' (by rw [hstart]; simp)
  have hu : u = (t₁.move (.step .job)).moves ys' := hm
  rw [← hu, hstart] at hju hdu
  have hdu : u.driver = t.driver := hdu.trans hd₁
  have hju : u.jobs = .takePending r :: .beginFrame :: rest := hju
  have htake := move_job hju
  -- nobody else touches the driver until all that was taken has been scheduled and the frame begins
  obtain ⟨hjw, hdw⟩ := schedule_moves (List.cons_ne_nil .beginFrame rest) (u.pending r) zs
    (t := u.move (.step .job)) (by rw [htake]; rfl) hz
  have hdw : ((u.move (.step .job)).moves zs).driver = t.driver.addAll (u.pending r) := by
    rw [hdw, ← hdu, htake]
    rfl
  have hv : v = ((u.move (.step .job)).moves zs).move (.step .job) := by
    show (u.move (.step .job)).moves (zs ++ [.step .job]) = _
    rw [moves_append]
    rfl
  rw [move_job hjw] at hv
  have hschedule : v.driver.schedule = (t.driver.addAll (u.pending r)).schedule.begin
      (((u.move (.step .job)).moves zs).world.clock (t.driver.addAll (u.pending r)).clock).frameTime := by
    rw [hv, ← hdw]
    rfl
  refine ⟨by simp only [takes, hju, if_true]; rfl, by rw [hv]; rfl, ?_, by rw [hschedule]; rfl⟩
  rw [hschedule]
  show ((u.pending r).foldl Schedule.add t.driver.schedule).current ++
    ((u.pending r).foldl Schedule.add t.driver.schedule).next = _
  rw [Schedule.current_foldl_add, hx.next_foldl_add, List.append_assoc]

/-- **Registrations are neither lost, doubled nor overtaken, and reach the active set once.**  Whatever the threads do,
the batches taken so far and the queue make up the registrations, in order.  A frame start that is interrupted by any
other moves takes what waits at its turn, and leaves as the active set what was current, what was scheduled, and the
first occurrences of what it took that were not scheduled; nothing is scheduled then.  What is taken after that, with no
registration in between, is nothing. -/
theorem registration_run (r root : RootId) (kind : DriverKind) (clock : ClockId) (client : κ) (xs : List (Move κ)) :
    let start := blank root kind clock client
    let t := start.moves xs
    (taken r start xs).flatten ++ t.pending r = registered r start xs ∧
    (∀ rest ys zs, t.jobs = .startFrame :: rest → t.driver.outlet.root? = some r → jobSteps ys = 1 →
      jobSteps zs = ((t.moves ys).pending r).length →
      let u := t.moves ys
      let v := u.moves (.step .job :: (zs ++ [.step .job]))
      takes r u (.step .job) = [u.pending r] ∧ v.jobs = rest ∧
      v.driver.schedule.current = t.driver.schedule.current ++ t.driver.schedule.next ++
        (u.pending r).eraseDups.filter (· ∉ t.driver.schedule.next) ∧
      v.driver.schedule.next = []) ∧
    (∀ zs, takes r t (.step .job) ≠ [] → registered r (t.move (.step .job)) zs = [] →
      ∀ batch ∈ taken r (t.move (.step .job)) zs, batch = []) := by
  intro start t
  have hn : t.Numbered := (numbered_blank ..).moves xs
  refine ⟨queue_moves (numbered_blank ..) xs, ?_, fun zs ht hz batch hb => ?_⟩
  · intro rest ys zs hj hr hy hz
    exact current_of_start (exact_moves ..) hj hr hy hz
  · -- what was taken leaves the queue empty, and nothing has joined it since
    have hempty : (t.move (.step .job)).pending r = [] := by
      simp only [takes] at ht
      split at ht
      · rename_i q rest hj
        split at ht
        · rename_i hq
          rw [move_job hj]
          show (((Job.takePending q).perform t.state).2.world.root r).pending = []
          rw [Job.pending_perform]
          exact if_pos hq.symm
        · exact absurd rfl ht
      · exact absurd rfl ht
    have hsum := queue_moves (r := r) (hn.move (.step .job)) zs
    rw [hempty, hz] at hsum
    exact List.flatten_eq_nil_iff.1 (List.append_eq_nil_iff.1 hsum).1 batch hb

/-- A node is scheduled by hand; two nodes are registered, one of them three times, before and while a frame starts.
The node that was scheduled comes first, the other after it, and what came too late waits. -/
theorem registration_opening :
    let reg (n : Nat) : Move Unit := .step (.call (.register ⟨0⟩ ⟨n⟩))
    let xs := (opening ⟨0⟩).map .step ++ [.step (.call (.addNode "tile")), reg 3, reg 2, .ask (.add ⟨3⟩), .step .job]
    let ys : List (Move Unit) := [.step .job, reg 2]
    let zs : List (Move Unit) := [.step .job, reg 3, .step .job, .step .job, .step .job]
    let t := (blank ⟨0⟩ (.deferred ⟨0⟩) ⟨0⟩ ()).moves (xs ++ [.ask .startFrame])
    let v := (t.moves ys).moves (.step .job :: (zs ++ [.step .job]))
    t.jobs = [.startFrame] ∧ t.driver.outlet.root? = some ⟨0⟩ ∧ jobSteps ys = 1 ∧
    jobSteps zs = ((t.moves ys).pending ⟨0⟩).length ∧ t.driver.schedule.next = [⟨3⟩] ∧
    (t.moves ys).pending ⟨0⟩ = [⟨2⟩, ⟨3⟩, ⟨2⟩, ⟨2⟩] ∧ v.driver.schedule.current = [⟨3⟩, ⟨2⟩] ∧
    v.pending ⟨0⟩ = [⟨3⟩] := by
  intro reg xs ys zs t v
  let start := blank ⟨0⟩ (.deferred ⟨0⟩) ⟨0⟩ ()
  have hidle : ((start.moves xs).jobs.isEmpty && (start.moves xs).equipped &&
    Request.startFrame.named (start.moves xs).world) = true := by decide +kernel
  have hj : t.jobs = [.startFrame] := jobs_moves_ask hidle
  have hr : t.driver.outlet.root? = some ⟨0⟩ := by decide +kernel
  have hz : jobSteps zs = ((t.moves ys).pending ⟨0⟩).length := by decide +kernel
  obtain ⟨-, hstart, -⟩ := registration_run ⟨0⟩ ⟨0⟩ (.deferred ⟨0⟩) ⟨0⟩ () (xs ++ [.ask .startFrame])
  have h := hstart [] ys zs hj hr (by decide) hz
  refine ⟨hj, hr, by decide, hz, by decide +kernel, by decide +kernel, ?_, by decide +kernel⟩
  simp only [v, t]
  exact h.2.2.1.trans (by decide +kernel)

end Threads

end SceneAnimation
