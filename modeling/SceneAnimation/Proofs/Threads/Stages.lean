import SceneAnimation.Proofs.Threads.Order
/-!
# Stages: what is scheduled at each stage of a frame

The nodes that a frame has still to run without the walk are on the schedule's current list until the leftovers are
taken, and are jobs then.  They are few at a time: each node once, none of them scheduled again already, and none
while a frame opens or between two tasks (`Stages.perform`).
-/
namespace SceneAnimation

namespace Job

variable {κ : Type}

def leftover? : Job → Option NodeId
  | .leftover n => some n
  | _ => none

def Opens (j : Job) : Prop := 1 ≤ j.first ∧ j.first ≤ 3

/-- Whether a job is done at once, with nothing done in between but reports. -/
def AtOnce : Job → Prop
  | .run .. | .keep .. | .discard _ => True
  | _ => False

def leftovers (jobs : List Job) : List NodeId := jobs.filterMap leftover?

theorem mem_leftovers {jobs : List Job} {n : NodeId} : n ∈ leftovers jobs ↔ .leftover n ∈ jobs := by
  unfold leftovers
  rw [List.mem_filterMap]
  constructor
  · rintro ⟨j, hj, hn⟩
    cases j with
    | leftover m => cases hn; exact hj
    | _ => cases hn
  · exact fun h => ⟨.leftover n, h, rfl⟩

theorem leftovers_append (js ks : List Job) : leftovers (js ++ ks) = leftovers js ++ leftovers ks :=
  List.filterMap_append

theorem leftovers_perform (j : Job) (s : RenderState κ) (hj : j ≠ .takeLeftovers) : leftovers (j.perform s).1 = [] := by
  refine List.eq_nil_iff_forall_not_mem.2 fun n hn => ?_
  cases leaves_of_mem (mem_leftovers.1 hn) with
  | leftover _ => exact hj rfl

theorem leftovers_takeLeftovers (s : RenderState κ) :
    leftovers (takeLeftovers.perform s).1 = s.driver.schedule.current := by
  show leftovers (s.driver.schedule.current.map .leftover) = _
  induction s.driver.schedule.current with
  | nil => rfl
  | cons n ns ih => exact congrArg (n :: ·) ih

end Job

/-- The nodes that a frame has still to run, or to discard, without the walk. -/
def Schedule.ahead (s : Schedule) (jobs : List Job) : List NodeId := Job.leftovers jobs ++ s.current

/-- **What is scheduled agrees with the stage of the work.** -/
structure Stages (s : Schedule) (jobs : List Job) : Prop where
  ordered : jobs.Pairwise Job.Before
  /-- While a frame opens it is not started yet, and nothing is ahead. -/
  starting : ∀ j ∈ jobs, j.Opens → .beginFrame ∈ jobs ∨ j = .startFrame
  opening : ∀ j ∈ jobs, j.Opens → .takeLeftovers ∈ jobs ∧ s.ahead jobs = []
  current : s.current ≠ [] → .takeLeftovers ∈ jobs
  early : ∀ j ∈ jobs, 1 ≤ j.first → j.first ≤ 6 → Job.leftovers jobs = []
  nodup : (s.ahead jobs).Nodup
  next : s.next.Nodup
  scheduled : ∀ n ∈ s.next, n ∈ s.scheduled
  apart : (∃ j ∈ jobs, j.Opens) ∨ ∀ n ∈ s.next, ¬ n ∈ s.ahead jobs
  atOnce : ∀ before j after, jobs = before ++ j :: after → j.AtOnce → ∀ k ∈ before, k.first = 0
  running : ∀ n walked, .run n walked ∈ jobs ∨ .keep n walked ∈ jobs → ¬ n ∈ s.ahead jobs
  discarding : ∀ n, .discard n ∈ jobs → ¬ n ∈ s.next
  /-- A teardown does nothing else, and has emptied the schedule when it ends the nodes. -/
  ending : ∀ j ∈ jobs, j.first = 9 → j ≠ .post → ∀ k ∈ jobs, k.first = 0 ∨ 9 ≤ k.first
  ended : ∀ n, .finish n ∈ jobs → s.next = []

namespace Stages

variable {κ : Type} {s : RenderState κ} {j : Job} {rest : List Job}

theorem opens_perform (h : Stages s.driver.schedule (j :: rest)) {k : Job} (hk : k ∈ (j.perform s).1 ++ rest)
    (ho : k.Opens) : j.first = 0 ∨ j.Opens ∧ j ≠ .beginFrame := by
  rcases List.mem_append.1 hk with hk | hk
  · cases Job.leaves_of_mem hk with
    | takePending _ | beginFrame | schedule _ => exact .inr ⟨by simp [Job.Opens, Job.first], by simp⟩
    | @keep _ walked _ => cases walked <;> simp [Job.Opens, Job.first] at ho
    | _ => exact absurd ho (by simp [Job.Opens, Job.first])
  · -- nothing that comes before can belong to a later stage
    have hle : j.last ≤ k.first := (List.pairwise_cons.1 h.ordered).1 k hk
    have hlast : j.last ≤ 3 := Nat.le_trans hle ho.2
    cases j with
    | takePending r | schedule n => exact .inr ⟨by simp [Job.Opens, Job.first], by simp⟩
    | vsync c t | catchUp c now | setInterval c i | report batch | tell c => exact .inl rfl
    | run n walked | keep n walked => cases walked <;> simp [Job.last, Job.first] at hlast
    | _ => simp [Job.last, Job.first] at hlast

/-- **A frame stops opening when it is started.** -/
theorem begins_perform (h : Stages s.driver.schedule (j :: rest)) (ho : ∃ k ∈ j :: rest, k.Opens)
    (hn : ¬ ∃ k ∈ (j.perform s).1 ++ rest, k.Opens) : j = .beginFrame := by
  obtain ⟨k, hk, ho⟩ := ho
  rcases List.mem_cons.1 hk with rfl | hk
  · rcases h.starting k List.mem_cons_self ho with hb | rfl
    · rcases List.mem_cons.1 hb with hb | hb
      · exact hb.symm
      · exact absurd ⟨.beginFrame, List.mem_append.2 (.inr hb), by simp [Job.Opens, Job.first]⟩ hn
    · refine absurd ⟨.beginFrame, List.mem_append.2 (.inl ?_), by simp [Job.Opens, Job.first]⟩ hn
      simp only [Job.perform]
      split <;> simp
  · exact absurd ⟨k, List.mem_append.2 (.inr hk), ho⟩ hn

theorem starting_perform (h : Stages s.driver.schedule (j :: rest)) :
    ∀ k ∈ (j.perform s).1 ++ rest, k.Opens → .beginFrame ∈ (j.perform s).1 ++ rest ∨ k = .startFrame := by
  intro k hk ho
  have hrest : ∀ i ∈ j :: rest, i.Opens → i ≠ .startFrame → j ≠ .beginFrame →
      .beginFrame ∈ (j.perform s).1 ++ rest := by
    intro i hi hio his hb
    rcases h.starting i hi hio with hx | hx
    · rcases List.mem_cons.1 hx with hx | hx
      · exact absurd hx.symm hb
      · exact List.mem_append.2 (.inr hx)
    · exact absurd hx his
  have hb : j ≠ .beginFrame := by
    rintro rfl
    rcases h.opens_perform hk ho with h0 | h0
    · cases h0
    · exact h0.2 rfl
  rcases List.mem_append.1 hk with hk | hk
  · cases Job.leaves_of_mem hk with
    | takePending ho' => exact .inl (List.mem_append.2 (.inl (by simp [Job.perform, ho'])))
    | beginFrame => exact .inl (List.mem_append.2 (.inl hk))
    | schedule _ => exact .inl (hrest _ List.mem_cons_self (by simp [Job.Opens, Job.first]) (by simp) hb)
    | @keep _ walked _ => cases walked <;> simp [Job.Opens, Job.first] at ho
    | _ => exact absurd ho (by simp [Job.Opens, Job.first])
  · by_cases hs : k = .startFrame
    · exact .inr hs
    · exact .inl (hrest k (List.mem_cons_of_mem j hk) ho hs hb)

/-- The current list and the leftovers stay as they are while a frame opens. -/
theorem ahead_of_opens (hj : j.first = 0 ∨ j.Opens ∧ j ≠ .beginFrame) :
    (j.perform s).2.driver.schedule.ahead ((j.perform s).1 ++ rest) = s.driver.schedule.ahead (j :: rest) := by
  have hleft : Job.leftovers (j.perform s).1 = [] := by
    refine Job.leftovers_perform j s ?_
    rintro rfl
    rcases hj with hj | hj
    · cases hj
    · exact absurd hj.1.2 (by simp [Job.first])
  rw [Schedule.ahead, Schedule.ahead, Job.leftovers_append, hleft, List.nil_append, Job.schedule_perform]
  cases j with
  | startFrame | takePending r | vsync c t | catchUp c now | setInterval c i | report batch | tell c => rfl
  | schedule n => rw [Schedule.current_add]; rfl
  | beginFrame => exact absurd rfl (hj.resolve_left (by decide)).2
  | run n walked | keep n walked => cases walked <;> simp [Job.Opens, Job.first] at hj
  | _ => simp [Job.Opens, Job.first] at hj

/-- **Nothing comes to be ahead but at the start of a frame.** -/
theorem mem_ahead_perform (hj : j ≠ .beginFrame) (hr : ∀ d, j = .renew d → d.schedule = {}) {n : NodeId}
    (hn : n ∈ (j.perform s).2.driver.schedule.ahead ((j.perform s).1 ++ rest)) :
    n ∈ s.driver.schedule.ahead (j :: rest) := by
  have hrest : ∀ m ∈ Job.leftovers rest, m ∈ s.driver.schedule.ahead (j :: rest) := fun m hm =>
    List.mem_append.2 (.inl (Job.mem_leftovers.2 (List.mem_cons_of_mem j (Job.mem_leftovers.1 hm))))
  have hcurrent : ∀ m ∈ s.driver.schedule.current, m ∈ s.driver.schedule.ahead (j :: rest) := fun m hm =>
    List.mem_append.2 (.inr hm)
  rw [Schedule.ahead, Job.leftovers_append, Job.schedule_perform] at hn
  rcases List.mem_append.1 hn with hn | hn
  · rcases List.mem_append.1 hn with hn | hn
    · by_cases ht : j = .takeLeftovers
      · subst ht
        exact hcurrent n (Job.leftovers_takeLeftovers s ▸ hn)
      · rw [Job.leftovers_perform j s ht] at hn
        cases hn
    · exact hrest n hn
  · cases j with
    | beginFrame => exact absurd rfl hj
    | schedule m => exact hcurrent n (Schedule.current_add .. ▸ hn)
    | keep m walked => exact hcurrent n (Schedule.current_add .. ▸ hn)
    | visit m => exact hcurrent n ((Schedule.mem_current_visit ..).1 hn).1
    | takeLeftovers => cases hn
    | takeAll => cases hn
    | renew d =>
      simp only [hr d rfl] at hn
      cases hn
    | _ => exact hcurrent n hn

theorem nodup_perform (h : Stages s.driver.schedule (j :: rest)) (hr : ∀ d, j = .renew d → d.schedule = {}) :
    ((j.perform s).2.driver.schedule.ahead ((j.perform s).1 ++ rest)).Nodup := by
  have hold : (Job.leftovers (j :: rest) ++ s.driver.schedule.current).Nodup := h.nodup
  have hleft : j ≠ .takeLeftovers → Job.leftovers ((j.perform s).1 ++ rest) = Job.leftovers rest := fun hj => by
    rw [Job.leftovers_append, Job.leftovers_perform j s hj, List.nil_append]
  have hsub : (Job.leftovers rest ++ s.driver.schedule.current).Nodup := by
    refine hold.sublist (List.Sublist.append_right ?_ _)
    exact (List.sublist_cons_self j rest).filterMap _
  have hrest : (Job.leftovers rest).Nodup := hsub.sublist (List.sublist_append_left _ _)
  rw [Schedule.ahead, Job.schedule_perform]
  cases j with
  | takeLeftovers =>
    rw [Job.leftovers_append, Job.leftovers_takeLeftovers]
    show (s.driver.schedule.current ++ Job.leftovers rest ++ []).Nodup
    rw [List.append_nil]
    exact (List.perm_append_comm.nodup_iff).1 hsub
  | beginFrame =>
    -- nothing was ahead, so the nodes scheduled are all there is
    have hnone : Job.leftovers rest = [] ∧ s.driver.schedule.current = [] := by
      have := (h.opening .beginFrame List.mem_cons_self (by simp [Job.Opens, Job.first])).2
      exact List.append_eq_nil_iff.1 this
    rw [hleft (by simp), hnone.1]
    show (s.driver.schedule.current ++ s.driver.schedule.next).Nodup
    rw [hnone.2]
    exact h.next
  | visit m =>
    rw [hleft (by simp)]
    exact hsub.sublist (List.Sublist.append_left List.filter_sublist _)
  | schedule m => rw [hleft (by simp), Schedule.current_add]; exact hsub
  | keep m walked => rw [hleft (by simp), Schedule.current_add]; exact hsub
  | takeAll =>
    rw [hleft (by simp)]
    show (Job.leftovers rest ++ []).Nodup
    rw [List.append_nil]
    exact hrest
  | renew d =>
    rw [hleft (by simp)]
    simp only [hr d rfl, List.append_nil]
    exact hrest
  | _ => rw [hleft (by simp)]; exact hsub

theorem opening_perform (h : Stages s.driver.schedule (j :: rest)) :
    ∀ k ∈ (j.perform s).1 ++ rest, k.Opens → .takeLeftovers ∈ (j.perform s).1 ++ rest ∧
      (j.perform s).2.driver.schedule.ahead ((j.perform s).1 ++ rest) = [] := by
  intro k hk ho
  have hj := h.opens_perform hk ho
  obtain ⟨i, hi, hio⟩ : ∃ i ∈ j :: rest, i.Opens := by
    rcases hj with hj | hj
    · rcases List.mem_append.1 hk with hk | hk
      · rcases Job.first_of_leaves (Job.leaves_of_mem hk) with h0 | h0
        · exact absurd ho.1 (by omega)
        · cases Job.leaves_of_mem hk with
          | tell _ => exact absurd ho.1 (by simp [Job.first])
          | @keep _ walked _ => cases walked <;> cases hj
          | @reportRun _ walked _ => cases walked <;> cases hj
          | _ => cases hj
      · exact ⟨k, List.mem_cons_of_mem j hk, ho⟩
    · exact ⟨j, List.mem_cons_self, hj.1⟩
  obtain ⟨ht, hahead⟩ := h.opening i hi hio
  refine ⟨?_, (ahead_of_opens hj).trans hahead⟩
  rcases List.mem_cons.1 ht with ht | ht
  · subst ht
    rcases hj with hj | hj
    · cases hj
    · exact absurd hj.1.2 (by simp [Job.first])
  · exact List.mem_append.2 (.inr ht)

theorem current_perform (h : Stages s.driver.schedule (j :: rest)) (hr : ∀ d, j = .renew d → d.schedule = {})
    (hc : (j.perform s).2.driver.schedule.current ≠ []) : .takeLeftovers ∈ (j.perform s).1 ++ rest := by
  rw [Job.schedule_perform] at hc
  have hstay : s.driver.schedule.current ≠ [] → j ≠ .takeLeftovers → .takeLeftovers ∈ (j.perform s).1 ++ rest := by
    intro hc hj
    rcases List.mem_cons.1 (h.current hc) with ht | ht
    · exact absurd ht.symm hj
    · exact List.mem_append.2 (.inr ht)
  cases j with
  | takeLeftovers => exact absurd rfl hc
  | takeAll => exact absurd rfl hc
  | renew d =>
    simp only [hr d rfl] at hc
    exact absurd rfl hc
  | beginFrame =>
    have ht := (h.opening .beginFrame List.mem_cons_self (by simp [Job.Opens, Job.first])).1
    rcases List.mem_cons.1 ht with ht | ht
    · cases ht
    · exact List.mem_append.2 (.inr ht)
  | schedule n => exact hstay (Schedule.current_add .. ▸ hc) (by simp)
  | keep n walked => exact hstay (Schedule.current_add .. ▸ hc) (by simp)
  | visit n =>
    refine hstay (fun he => hc ?_) (by simp)
    simp [Schedule.visit, he]
  | _ => exact hstay hc (by simp)

theorem early_perform (h : Stages s.driver.schedule (j :: rest)) :
    ∀ k ∈ (j.perform s).1 ++ rest, 1 ≤ k.first → k.first ≤ 6 → Job.leftovers ((j.perform s).1 ++ rest) = [] := by
  intro k hk h1 h6
  have hj : j ≠ .takeLeftovers := by
    rintro rfl
    rcases List.mem_append.1 hk with hk | hk
    · cases Job.leaves_of_mem hk with
      | leftover _ => exact absurd h6 (by simp [Job.first])
    · have hle : (7 : Nat) ≤ k.first := (List.pairwise_cons.1 h.ordered).1 k hk
      omega
  have hrest : Job.leftovers (j :: rest) = [] := by
    rcases List.mem_append.1 hk with hk | hk
    · rcases Job.first_of_leaves (Job.leaves_of_mem hk) with h0 | h0
      · omega
      · refine h.early j List.mem_cons_self ?_ (by omega)
        cases Job.leaves_of_mem hk with
        | tell _ | reportRun | reportFinish => exact absurd h1 (by simp [Job.first])
        | @keep _ walked _ => cases walked <;> simp [Job.first]
        | _ => simp [Job.first]
    · exact h.early k (List.mem_cons_of_mem j hk) h1 h6
  rw [Job.leftovers_append, Job.leftovers_perform j s hj, List.nil_append]
  exact List.eq_nil_of_sublist_nil (hrest ▸ (List.sublist_cons_self j rest).filterMap _)

theorem next_perform (h : Stages s.driver.schedule (j :: rest)) (hr : ∀ d, j = .renew d → d.schedule = {}) :
    (j.perform s).2.driver.schedule.next.Nodup ∧
      ∀ n ∈ (j.perform s).2.driver.schedule.next, n ∈ (j.perform s).2.driver.schedule.scheduled := by
  have hadd : ∀ m, (s.driver.schedule.add m).next.Nodup ∧
      ∀ n ∈ (s.driver.schedule.add m).next, n ∈ (s.driver.schedule.add m).scheduled := by
    intro m
    unfold Schedule.add
    split
    · exact ⟨h.next, h.scheduled⟩
    · rename_i hm
      refine ⟨?_, fun n hn => ?_⟩
      · refine List.nodup_append.2 ⟨h.next, List.pairwise_singleton _ m, fun a ha b hb he => ?_⟩
        cases List.mem_singleton.1 hb
        exact hm (he ▸ h.scheduled a ha)
      · rcases List.mem_append.1 hn with hn | hn
        · exact List.mem_cons_of_mem m (h.scheduled n hn)
        · exact List.mem_singleton.1 hn ▸ List.mem_cons_self
  rw [Job.schedule_perform]
  cases j with
  | schedule m => exact hadd m
  | keep m walked => exact hadd m
  | beginFrame | takeAll => exact ⟨List.nodup_nil, fun _ hn => absurd hn List.not_mem_nil⟩
  | renew d =>
    simp only [hr d rfl]
    exact ⟨List.nodup_nil, fun _ hn => absurd hn List.not_mem_nil⟩
  | _ => exact ⟨h.next, h.scheduled⟩

/-- **What is scheduled is not ahead**, once a frame has been started. -/
theorem apart_perform (h : Stages s.driver.schedule (j :: rest)) (hr : ∀ d, j = .renew d → d.schedule = {}) :
    (∃ k ∈ (j.perform s).1 ++ rest, k.Opens) ∨ ∀ n ∈ (j.perform s).2.driver.schedule.next,
      ¬ n ∈ (j.perform s).2.driver.schedule.ahead ((j.perform s).1 ++ rest) := by
  by_cases hopens : ∃ k ∈ (j.perform s).1 ++ rest, k.Opens
  · exact .inl hopens
  · refine .inr fun n hn => ?_
    rcases h.apart with ho | hapart
    · cases h.begins_perform ho hopens
      cases hn
    · have hb : j ≠ .beginFrame := by
        rintro rfl
        cases hn
      refine fun hahead => ?_
      have hold := mem_ahead_perform hb hr hahead
      rw [Job.schedule_perform] at hn
      cases j with
      | schedule m =>
        rcases Schedule.mem_next_of_add hn with hn | rfl
        · exact hapart n hn hold
        · have := (h.opening (.schedule n) List.mem_cons_self (by simp [Job.Opens, Job.first])).2
          rw [this] at hold
          cases hold
      | keep m walked =>
        rcases Schedule.mem_next_of_add hn with hn | rfl
        · exact hapart n hn hold
        · exact h.running n walked (.inr List.mem_cons_self) hold
      | beginFrame | takeAll => cases hn
      | renew d =>
        simp only [hr d rfl] at hn
        cases hn
      | _ => exact hapart n hn hold

theorem atOnce_left (j : Job) (s : RenderState κ) {before after : List Job} {k : Job}
    (he : (j.perform s).1 = before ++ k :: after) (hk : k.AtOnce) : ∀ i ∈ before, i.first = 0 := by
  have hmem : k ∈ (j.perform s).1 := he ▸ List.mem_append.2 (.inr List.mem_cons_self)
  have hone : ∀ i : Job, (j.perform s).1 = [i] → ∀ i ∈ before, i.first = 0 := by
    intro i hi
    rw [hi] at he
    cases before with
    | nil => exact fun _ hn => absurd hn List.not_mem_nil
    | cons _ before => cases before <;> cases he
  cases Job.leaves_of_mem hmem with
  | runVisited => exact hone _ rfl
  | @runLeftover n hd => exact hone (.run n false) (by simp [Job.perform, hd])
  | @discard n hd => exact hone (.discard n) (by simp [Job.perform, hd])
  | keep hn =>
    simp only [Job.perform, hn, if_true] at he
    cases before with
    | nil => exact fun _ hn => absurd hn List.not_mem_nil
    | cons i before =>
      rw [List.cons_append, List.cons.injEq] at he
      obtain ⟨rfl, he⟩ := he
      cases before with
      | nil =>
        intro i hi
        rw [List.mem_singleton.1 hi]
        rfl
      | cons _ before => cases before <;> cases he
  | _ => exact absurd hk id

theorem atOnce_perform (h : Stages s.driver.schedule (j :: rest)) {before after : List Job} {k : Job}
    (he : (j.perform s).1 ++ rest = before ++ k :: after) (hk : k.AtOnce) : ∀ i ∈ before, i.first = 0 := by
  rcases List.append_eq_append_iff.1 he with ⟨bs, rfl, hr⟩ | ⟨bs, hb, hr⟩
  · have hold := h.atOnce (j :: bs) k after (by rw [hr]; rfl) hk
    have hj := hold j List.mem_cons_self
    intro i hi
    rcases List.mem_append.1 hi with hi | hi
    · cases Job.leaves_of_mem hi with
      | tell _ => rfl
      | @keep _ walked _ => cases walked <;> cases hj
      | @reportRun _ walked _ => rfl
      | _ => cases hj
    · exact hold i (List.mem_cons_of_mem j hi)
  · cases bs with
    | nil =>
      rw [List.append_nil] at hb
      rw [List.nil_append] at hr
      have hold := h.atOnce [j] k after (by rw [← hr]; rfl) hk
      have hj := hold j List.mem_cons_self
      intro i hi
      rw [← hb] at hi
      cases Job.leaves_of_mem hi with
      | tell _ => rfl
      | @keep _ walked _ => cases walked <;> cases hj
      | @reportRun _ walked _ => rfl
      | _ => cases hj
    | cons i bs =>
      rw [List.cons_append, List.cons.injEq] at hr
      obtain ⟨rfl, -⟩ := hr
      exact atOnce_left j s hb hk

/-- What is to be done at once comes first, but for reports. -/
theorem first_of_atOnce (h : Stages s.driver.schedule (j :: rest)) {k : Job} (hk : k ∈ rest) (ha : k.AtOnce) :
    j.first = 0 := by
  obtain ⟨bs, after, rfl⟩ := List.append_of_mem hk
  exact h.atOnce (j :: bs) k after rfl ha j List.mem_cons_self

theorem running_perform (h : Stages s.driver.schedule (j :: rest)) {n : NodeId} {walked : Bool}
    (hn : .run n walked ∈ (j.perform s).1 ++ rest ∨ .keep n walked ∈ (j.perform s).1 ++ rest) :
    ¬ n ∈ (j.perform s).2.driver.schedule.ahead ((j.perform s).1 ++ rest) := by
  have hrest : .run n walked ∈ rest ∨ .keep n walked ∈ rest →
      ¬ n ∈ (j.perform s).2.driver.schedule.ahead ((j.perform s).1 ++ rest) := by
    intro hn
    have hj : j.first = 0 := hn.elim (h.first_of_atOnce · trivial) (h.first_of_atOnce · trivial)
    rw [ahead_of_opens (.inl hj)]
    exact h.running n walked (hn.imp (List.mem_cons_of_mem j) (List.mem_cons_of_mem j))
  rcases hn with hn | hn
  · rcases List.mem_append.1 hn with hk | hk
    · cases Job.leaves_of_mem hk with
      | runVisited =>
        -- the visit has taken the node off the current list, and there are no leftovers yet
        have hnone := h.early_perform _ hn (by simp [Job.first]) (by simp [Job.first])
        rw [Schedule.ahead, hnone, List.nil_append, Job.schedule_perform]
        exact fun hc => ((Schedule.mem_current_visit ..).1 hc).2 rfl
      | runLeftover hd =>
        -- the node was the first of the leftovers, and comes once among what is ahead
        have hnodup : (n :: (Job.leftovers rest ++ s.driver.schedule.current)).Nodup := h.nodup
        rw [Schedule.ahead, Job.leftovers_append, Job.leftovers_perform (.leftover n) s (by simp), List.nil_append,
          Job.schedule_perform]
        exact (List.nodup_cons.1 hnodup).1
    · exact hrest (.inl hk)
  · rcases List.mem_append.1 hn with hk | hk
    · cases Job.leaves_of_mem hk with
      | keep _ =>
        exact fun hahead => h.running n walked (.inl List.mem_cons_self)
          (mem_ahead_perform (j := .run n walked) (by simp) (by simp) hahead)
    · exact hrest (.inr hk)

theorem schedule_of_first {j : Job} (hj : j.first = 0) : (j.perform s).2.driver.schedule = s.driver.schedule := by
  rw [Job.schedule_perform]
  cases j with
  | vsync c t | catchUp c now | setInterval c i | report batch | tell c => rfl
  | run n walked | keep n walked => cases walked <;> cases hj
  | _ => cases hj

theorem discarding_perform (h : Stages s.driver.schedule (j :: rest)) {n : NodeId}
    (hn : .discard n ∈ (j.perform s).1 ++ rest) : ¬ n ∈ (j.perform s).2.driver.schedule.next := by
  rcases List.mem_append.1 hn with hk | hk
  · cases Job.leaves_of_mem hk with
    | discard _ =>
      -- the node was ahead, and so it is not scheduled
      have hahead : n ∈ s.driver.schedule.ahead (.leftover n :: rest) := List.mem_append.2 (.inl List.mem_cons_self)
      rw [Job.schedule_perform]
      rcases h.apart with ⟨k, hk, ho⟩ | hapart
      · rw [(h.opening k hk ho).2] at hahead
        cases hahead
      · exact fun hnext => hapart n hnext hahead
  · rw [schedule_of_first (h.first_of_atOnce hk trivial)]
    exact h.discarding n (List.mem_cons_of_mem j hk)

theorem ending_perform (h : Stages s.driver.schedule (j :: rest)) :
    ∀ k ∈ (j.perform s).1 ++ rest, k.first = 9 → k ≠ .post →
      ∀ i ∈ (j.perform s).1 ++ rest, i.first = 0 ∨ 9 ≤ i.first := by
  intro k hk h9 hpost
  have hold : ∀ i ∈ j :: rest, i.first = 0 ∨ 9 ≤ i.first := by
    rcases List.mem_append.1 hk with hk | hk
    · cases Job.leaves_of_mem hk with
      | finish _ => exact h.ending .takeAll List.mem_cons_self rfl (by simp)
      | post => exact absurd rfl hpost
      | @keep _ walked _ => cases walked <;> cases h9
      | _ => cases h9
    · exact h.ending k (List.mem_cons_of_mem j hk) h9 hpost
  intro i hi
  rcases List.mem_append.1 hi with hi | hi
  · have hj := hold j List.mem_cons_self
    cases Job.leaves_of_mem hi with
    | finish _ | post => exact .inr (Nat.le_refl 9)
    | tell _ | reportRun | reportFinish => exact .inl rfl
    | @keep _ walked _ => cases walked <;> simp [Job.first] at hj
    | _ => simp [Job.first] at hj
  · exact hold i (List.mem_cons_of_mem j hi)

theorem ended_perform (h : Stages s.driver.schedule (j :: rest)) (hr : ∀ d, j = .renew d → d.schedule = {})
    {n : NodeId} (hn : .finish n ∈ (j.perform s).1 ++ rest) : (j.perform s).2.driver.schedule.next = [] := by
  rcases List.mem_append.1 hn with hk | hk
  · cases Job.leaves_of_mem hk with
    | finish _ => rfl
  · have hnone := h.ended n (List.mem_cons_of_mem j hk)
    have hj := h.ending _ (List.mem_cons_of_mem j hk) rfl (by simp) j List.mem_cons_self
    rw [Job.schedule_perform]
    cases j with
    | takeAll => rfl
    | renew d =>
      simp only [hr d rfl]
    | keep m walked => cases walked <;> simp [Job.first] at hj
    | schedule m | beginFrame => simp [Job.first] at hj
    | _ => exact hnone

theorem perform (h : Stages s.driver.schedule (j :: rest)) (hr : ∀ d, j = .renew d → d.schedule = {}) :
    Stages (j.perform s).2.driver.schedule ((j.perform s).1 ++ rest) where
  ordered := Job.ordered_perform h.ordered
  starting := h.starting_perform
  opening := h.opening_perform
  current := h.current_perform hr
  early := h.early_perform
  nodup := h.nodup_perform hr
  next := (h.next_perform hr).1
  scheduled := (h.next_perform hr).2
  apart := h.apart_perform hr
  atOnce _ _ _ he hk := h.atOnce_perform he hk
  running _ _ hn := h.running_perform hn
  discarding _ hn := h.discarding_perform hn
  ending := h.ending_perform
  ended _ hn := h.ended_perform hr hn

theorem current_of_idle {s : Schedule} (h : Stages s []) : s.current = [] :=
  Classical.byContradiction fun hc => nomatch h.current hc

theorem blank : Stages {} [] where
  ordered := List.Pairwise.nil
  starting _ hj := absurd hj List.not_mem_nil
  opening _ hj := absurd hj List.not_mem_nil
  current hc := absurd rfl hc
  early _ hj := absurd hj List.not_mem_nil
  nodup := List.nodup_nil
  next := List.nodup_nil
  scheduled _ hn := absurd hn List.not_mem_nil
  apart := .inr fun _ hn => absurd hn List.not_mem_nil
  atOnce before _ _ he := by cases before <;> cases he
  running _ _ hn := hn.elim (fun h => nomatch h) fun h => nomatch h
  discarding _ hn := absurd hn List.not_mem_nil
  ending _ hj := absurd hj List.not_mem_nil
  ended _ hn := absurd hn List.not_mem_nil

theorem jobs {s : Schedule} (h : Stages s []) (root : RootId) (k : DriverKind) (clock : ClockId) (task : Task) :
    Stages s (task.jobs root k clock) := by
  have hcurrent := h.current_of_idle
  have hleft : Job.leftovers (task.jobs root k clock) = [] := by cases task <;> rfl
  have hahead : s.ahead (task.jobs root k clock) = [] := by rw [Schedule.ahead, hleft, hcurrent]; rfl
  have hplain : ∀ j ∈ task.jobs root k clock, ¬ j.AtOnce ∧ (∀ n, j ≠ .finish n) := by
    intro j hj
    cases task <;> cases j <;> simp [Task.jobs, Task.frameJobs, Job.AtOnce] at hj ⊢
  refine ⟨Task.ordered_jobs .., ?_, ?_, fun hc => absurd hcurrent hc, fun _ _ _ _ => hleft, ?_, h.next, h.scheduled,
    ?_, ?_, ?_, ?_, ?_, ?_⟩
  · intro j hj ho
    cases task <;> cases j <;> simp [Task.jobs, Task.frameJobs, Job.Opens, Job.first] at hj ho ⊢
  · intro j hj ho
    refine ⟨?_, hahead⟩
    cases task <;> cases j <;> simp [Task.jobs, Task.frameJobs, Job.Opens, Job.first] at hj ho ⊢
  · rw [hahead]
    exact List.nodup_nil
  · rw [hahead]
    exact .inr fun _ _ hn => absurd hn List.not_mem_nil
  · intro before j after he ha
    exact absurd ha (hplain j (he ▸ List.mem_append.2 (.inr List.mem_cons_self))).1
  · rw [hahead]
    exact fun _ _ _ hn => absurd hn List.not_mem_nil
  · exact fun n hn => absurd trivial (hplain _ hn).1
  · intro j hj h9 hpost k' hk
    cases task <;> cases j <;> simp [Task.jobs, Task.frameJobs, Job.first] at hj h9 hpost hk ⊢
    all_goals rcases hk with rfl | rfl <;> simp
  · exact fun n hn => absurd rfl ((hplain _ hn).2 n)

end Stages

end SceneAnimation
