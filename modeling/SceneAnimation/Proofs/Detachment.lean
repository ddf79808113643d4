import SceneAnimation.Proofs.Activity
import SceneAnimation.Proofs.Threads.Moves
/-!
# Detachment: when a finished animator stays attached

A node is to be active while it has unfinished animators, so what is finished has to be detached.  A run of a node
gives up one place of each animator that it completes, and nothing else; so an animator that is attached once, and not
finished when it is attached, leaves with its completion.  One that has another place, on this node or elsewhere, or
that comes finished, stays attached, and keeps its node active.  These are the only ways (`Threads.detached_run`).
-/
namespace SceneAnimation

namespace Scene

/-- **Which finished animators a frame leaves attached to a node that it runs**: those that were finished before, and
those that it finishes and that were attached more than once. -/
theorem finished_left_iff (s : Scene) (n : NodeId) (now : Instant) (a : AnimatorId) :
    (a ∈ ((s.animate n now).2.node n).animators ∧ ((s.animate n now).2.animator a).state = .finished) ↔
      a ∈ (s.node n).animators ∧ ((s.animator a).state = .finished ∨
        ((s.animate n now).2.animator a).state = .finished ∧ 2 ≤ (s.node n).animators.count a) := by
  have hr := s.ran_animate n now
  have hsum := s.count_animate n now a
  -- a run gives up one place of an animator at most
  have hone : (s.completedOn n now).count a ≤ 1 := List.nodup_iff_count.1 hr.done_nodup a
  constructor
  · rintro ⟨ha, hf⟩
    refine ⟨hr.sublist.subset ha, ?_⟩
    by_cases hold : (s.animator a).state = .finished
    · exact .inl hold
    · have hdone : 0 < (s.completedOn n now).count a := List.count_pos_iff.2 ((hr.mem_done a).2 ⟨hold, hf⟩)
      have hleft := List.count_pos_iff.2 ha
      exact .inr ⟨hf, by omega⟩
  · rintro ⟨ha, hold | ⟨hf, htwo⟩⟩
    · have hdone : ¬ a ∈ s.completedOn n now := fun hd => ((hr.mem_done a).1 hd).1 hold
      have hplace := List.count_pos_iff.2 ha
      rw [List.count_eq_zero_of_not_mem hdone] at hsum
      exact ⟨List.count_pos_iff.1 (by omega), hr.finished a hold⟩
    · exact ⟨List.count_pos_iff.1 (by omega), hf⟩

/-- The places of unfinished animators on node `n`. -/
def unfinishedOn (s : Scene) (n : NodeId) : List AnimatorId :=
  (s.node n).animators.filter fun a => (s.animator a).state ≠ .finished

/-- **No finished animator is attached to a node.** -/
def Clean (s : Scene) : Prop := ∀ n, ∀ a ∈ (s.node n).animators, (s.animator a).state ≠ .finished

theorem Clean.unfinishedOn {s : Scene} (h : s.Clean) (n : NodeId) : s.unfinishedOn n = (s.node n).animators :=
  List.filter_eq_self.2 fun a ha => decide_eq_true (h n a ha)

end Scene

namespace Deed

/-- **What a deed needs so as to leave no finished animator attached**: each animator that it finishes has no place but
the one that it loses. -/
def Careful (s : Scene) : Deed → Prop
  | .run n now => ∀ a ∈ s.completedOn n now,
      (s.node n).animators.count a = 1 ∧ ∀ m, a ∈ (s.node m).animators → m = n
  | .finish n => ∀ a ∈ s.endedOn n, ∀ m, a ∈ (s.node m).animators → m = n
  | .discard _ => True

theorem clean_run_iff {s : Scene} (h : s.Clean) (n : NodeId) (now : Instant) :
    (s.animate n now).2.Clean ↔ (Deed.run n now).Careful s := by
  have hr := s.ran_animate n now
  constructor
  · intro hclean a ha
    have hf := ((hr.mem_done a).1 ha).2
    constructor
    · -- what is finished is not attached any more, so the place that it lost was its only one
      have hgone : ¬ a ∈ ((s.animate n now).2.node n).animators := fun hx => hclean n a hx hf
      have hsum := s.count_animate n now a
      rw [List.count_eq_zero_of_not_mem hgone, Nat.zero_add, hr.done_nodup.count, if_pos ha] at hsum
      exact hsum.symm
    · intro m hm
      refine Classical.byContradiction fun hne => hclean m a ?_ hf
      rw [hr.others m hne]
      exact hm
  · intro hcareful m a ha hf
    have hold : a ∈ (s.node m).animators := (hr.animators_sublist m).subset ha
    have hdone : a ∈ s.completedOn n now := (hr.mem_done a).2 ⟨h m a hold, hf⟩
    obtain ⟨hcount, honly⟩ := hcareful a hdone
    obtain rfl := honly m hold
    have hsum := s.count_animate m now a
    rw [hcount, hr.done_nodup.count, if_pos hdone] at hsum
    have := List.count_pos_iff.2 ha
    omega

theorem clean_finish_iff {s : Scene} (h : s.Clean) (n : NodeId) :
    (s.finishAll n).2.Clean ↔ (Deed.finish n).Careful s := by
  have hr := s.ran_finishAll n
  constructor
  · intro hclean a ha m hm
    refine Classical.byContradiction fun hne => hclean m a ?_ ((hr.mem_done a).1 ha).2
    rw [hr.others m hne]
    exact hm
  · intro hcareful m a ha hf
    by_cases hm : m = n
    · rw [hm, s.animators_finishAll n] at ha
      cases ha
    · rw [hr.others m hm] at ha
      exact hm (hcareful a ((hr.mem_done a).2 ⟨h m a ha, hf⟩) m ha)

theorem clean_discard {s : Scene} (h : s.Clean) (n : NodeId) : (s.discard n).Clean := by
  intro m a ha
  rw [Scene.animators_discard] at ha
  split at ha
  · cases ha
  · exact h m a ha

/-- **A deed leaves no finished animator attached exactly if it is careful.** -/
theorem clean_iff {s : Scene} (h : s.Clean) : ∀ d : Deed, (d.effect s).Clean ↔ d.Careful s
  | .run n now => clean_run_iff h n now
  | .finish n => clean_finish_iff h n
  | .discard n => ⟨fun _ => trivial, fun _ => clean_discard h n⟩

end Deed

/-- A call finishes no animator, and makes none that is finished. -/
theorem Call.finished_effect {κ : Type} {w : World κ} (h : w.scene.Numbered) (c : Call κ) (a : AnimatorId) :
    ((c.effect w).scene.animator a).state = .finished ↔ (w.scene.animator a).state = .finished := by
  rcases Call.animator_effect h c a with he | ⟨-, hbefore, hafter⟩
  · rw [he]
  · rw [hbefore, hafter]

/-- **A call leaves no finished animator attached exactly if it attaches none.** -/
theorem Call.clean_iff {κ : Type} {w : World κ} (hw : w.scene.Numbered) (h : w.scene.Clean) (c : Call κ) :
    (c.effect w).scene.Clean ↔ ∀ n a, c = .attach n a → (w.scene.animator a).state ≠ .finished := by
  constructor
  · rintro hclean n a rfl hf
    have ha := (Call.mem_animators_effect hw (.attach n a) n a).2 (.inr rfl)
    exact hclean n a ha ((Call.finished_effect hw _ a).2 hf)
  · intro hcareful m a ha
    rw [Ne, Call.finished_effect hw]
    rcases (Call.mem_animators_effect hw c m a).1 ha with ha | rfl
    · exact h m a ha
    · exact hcareful m a rfl

namespace Threads

variable {κ : Type} {t : Threads κ}

def Clean (t : Threads κ) : Prop := t.scene.Clean

/-- **What a move needs so as to leave no finished animator attached**: it attaches none, and the animators that it
finishes have no place but the one that they lose. -/
def Careful (t : Threads κ) (x : Move κ) : Prop :=
  (∀ n a, x = .step (.call (.attach n a)) → (Call.attach n a : Call κ).named t.world = true →
    (t.scene.animator a).state ≠ .finished) ∧
  ∀ d, t.deed? x = some d → d.Careful t.scene

/-- **A move leaves no finished animator attached exactly if it is careful.** -/
theorem clean_move_iff (hn : t.Numbered) (h : t.Clean) (x : Move κ) : (t.move x).Clean ↔ t.Careful x := by
  unfold Clean Careful
  rcases scene_move t x with ⟨d, hd, hscene⟩ | ⟨hd, ⟨c, rfl, hc, hscene⟩ | ⟨hc, hscene⟩⟩
  · rw [hscene, Deed.clean_iff h, hd]
    refine ⟨fun hx => ⟨?_, fun d' hd' => Option.some.inj hd' ▸ hx⟩, fun hx => hx.2 d rfl⟩
    rintro n a rfl
    cases hd
  · rw [hscene, Call.clean_iff hn.world.scene h, hd]
    refine ⟨fun hx => ⟨fun n a he _ => ?_, by simp⟩, fun hx n a he => hx.1 n a (by rw [he]) (he ▸ hc)⟩
    cases he
    exact hx n a rfl
  · rw [hscene, hd]
    refine ⟨fun _ => ⟨fun n a he hnamed => ?_, by simp⟩, fun _ => h⟩
    rw [hc _ he] at hnamed
    cases hnamed

/-- **No finished animator is ever attached exactly if every move is careful.** -/
theorem clean_moves_iff (xs : List (Move κ)) : ∀ {t : Threads κ}, t.Numbered → t.Clean →
    ((∀ ys, ys <+: xs → (t.moves ys).Clean) ↔ ∀ ys x zs, xs = ys ++ x :: zs → (t.moves ys).Careful x) := by
  induction xs with
  | nil =>
    intro t _ h
    constructor
    · rintro - ys x zs he
      cases ys <;> cases he
    · intro _ ys hys
      rw [List.prefix_nil.1 hys]
      exact h
  | cons y xs ih =>
    intro t hn h
    have hstep := clean_move_iff hn h y
    constructor
    · intro hall
      have hclean : (t.move y).Clean := hall [y] (by simp)
      have hrest := (ih (hn.move y) hclean).1 fun ys hys => hall (y :: ys) (List.cons_prefix_cons.2 ⟨rfl, hys⟩)
      intro ys x zs he
      cases ys with
      | nil =>
        cases he
        exact hstep.1 hclean
      | cons _ ys =>
        cases he
        exact hrest ys x zs rfl
    · intro hall
      have hclean : (t.move y).Clean := hstep.2 (hall [] y xs rfl)
      have hrest := (ih (hn.move y) hclean).2 fun ys x zs he => hall (y :: ys) x zs (by rw [he]; rfl)
      intro ys hys
      cases ys with
      | nil => exact h
      | cons _ ys =>
        obtain ⟨rfl, hprefix⟩ := List.cons_prefix_cons.1 hys
        exact hrest ys hprefix

/-- A run puts its node down for the next frame exactly if it leaves an unfinished animator there, when nothing finished
stays attached. -/
theorem keep_iff (s : RenderState κ) (n : NodeId) (walked : Bool)
    (h : ((Job.run n walked).perform s).2.world.scene.Clean) :
    .keep n walked ∈ ((Job.run n walked).perform s).1 ↔
      ((Job.run n walked).perform s).2.world.scene.unfinishedOn n ≠ [] := by
  rw [h.unfinishedOn n, Job.scene_perform]
  constructor
  · intro hk
    cases Job.leaves_of_mem hk with
    | keep hkept => simpa [Scene.hasAnimators] using hkept
  · intro hne
    have hkept : (s.world.scene.animate n s.driver.frameTime).2.hasAnimators n = true := by
      simpa [Scene.hasAnimators] using hne
    simp [Job.perform, hkept]

theorem scene_run {n : NodeId} {walked : Bool} {rest : List Job} (hj : t.jobs = .run n walked :: rest) :
    (t.move (.step .job)).scene = (t.scene.animate n t.driver.frameTime).2 := by
  rw [move, step, doJob, hj]
  exact Job.scene_perform ..

theorem clean_blank (root : RootId) (kind : DriverKind) (clock : ClockId) (client : κ) :
    (blank root kind clock client).Clean := fun _ _ ha => absurd ha List.not_mem_nil

/-- **A finished animator stays where it is**, unless its node is torn down or discarded. -/
theorem finished_stays_move (hn : t.Numbered) {n : NodeId} {a : AnimatorId} (ha : a ∈ (t.scene.node n).animators)
    (hf : (t.scene.animator a).state = .finished) {x : Move κ} (hfinish : t.deed? x ≠ some (.finish n))
    (hdiscard : t.deed? x ≠ some (.discard n)) :
    a ∈ ((t.move x).scene.node n).animators ∧ ((t.move x).scene.animator a).state = .finished := by
  rcases scene_move t x with ⟨d, hd, hscene⟩ | ⟨-, ⟨c, -, -, hscene⟩ | ⟨-, hscene⟩⟩
  · rw [hscene]
    cases d with
    | run m now =>
      have hsettled : (t.scene.animator a).Settled now := .inl hf
      obtain ⟨hsame, hplaces⟩ := Scene.animate_of_settled hsettled m
      exact ⟨hplaces n ha, (congrArg Animator.state hsame).trans hf⟩
    | finish m =>
      have hm : n ≠ m := fun e => hfinish (e ▸ hd)
      have hr := t.scene.ran_finishAll m
      refine ⟨?_, hr.finished a hf⟩
      show a ∈ ((t.scene.finishAll m).2.node n).animators
      rw [hr.others n hm]
      exact ha
    | discard m =>
      have hm : n ≠ m := fun e => hdiscard (e ▸ hd)
      refine ⟨?_, hf⟩
      show a ∈ ((t.scene.discard m).node n).animators
      rw [Scene.animators_discard, if_neg hm]
      exact ha
  · rw [hscene]
    exact ⟨(Call.mem_animators_effect hn.world.scene c n a).2 (.inl ha),
      (Call.finished_effect hn.world.scene c a).2 hf⟩
  · rw [hscene]
    exact ⟨ha, hf⟩

/-- **A finished animator that stays attached once stays for good**: only a teardown or a discard of its node detaches
it. -/
theorem finished_stays_moves : ∀ (xs : List (Move κ)) {t : Threads κ}, t.Numbered → ∀ {n : NodeId} {a : AnimatorId},
    a ∈ (t.scene.node n).animators → (t.scene.animator a).state = .finished →
    (∀ ys x zs, xs = ys ++ x :: zs →
      (t.moves ys).deed? x ≠ some (.finish n) ∧ (t.moves ys).deed? x ≠ some (.discard n)) →
    a ∈ ((t.moves xs).scene.node n).animators ∧ ((t.moves xs).scene.animator a).state = .finished
  | [], _, _, _, _, ha, hf, _ => ⟨ha, hf⟩
  | x :: xs, _, hn, _, _, ha, hf, hspared => by
    obtain ⟨hfinish, hdiscard⟩ := hspared [] x xs rfl
    obtain ⟨ha', hf'⟩ := finished_stays_move hn ha hf hfinish hdiscard
    refine finished_stays_moves xs (hn.move x) ha' hf' fun ys y zs he => ?_
    exact hspared (x :: ys) y zs (by rw [he]; rfl)

end Threads

/-! ## Animators that are attached once -/

/-- The animator that a move is to attach. -/
def Move.attached? {κ : Type} : Move κ → Option AnimatorId
  | .step (.call (.attach _ a)) => some a
  | _ => none

/-- **The animators attached so far are `used`, and each has one place at most.** -/
structure Scene.Once (used : List AnimatorId) (s : Scene) : Prop where
  attached : ∀ n, ∀ a ∈ (s.node n).animators, a ∈ used
  finished : ∀ a, (s.animator a).state = .finished → a ∈ used
  nodup : ∀ n, (s.node n).animators.Nodup
  one : ∀ n m a, a ∈ (s.node n).animators → a ∈ (s.node m).animators → n = m

namespace Scene.Once

variable {used : List AnimatorId} {s : Scene}

theorem mono {s' : Scene} (h : s.Once used) (hsub : ∀ m, (s'.node m).animators.Sublist (s.node m).animators)
    (hf : ∀ a, (s'.animator a).state = .finished → a ∈ used) : s'.Once used where
  attached m a ha := h.attached m a ((hsub m).subset ha)
  finished := hf
  nodup m := (h.nodup m).sublist (hsub m)
  one m q a hm hq := h.one m q a ((hsub m).subset hm) ((hsub q).subset hq)

theorem ran {s' : Scene} {n : NodeId} {done : List AnimatorId} (h : s.Once used) (hr : s.Ran n done s') :
    s'.Once used := by
  refine h.mono hr.animators_sublist fun a hf => ?_
  by_cases ha : a ∈ (s.node n).animators
  · exact h.attached n a ha
  · rw [hr.untouched a ha] at hf
    exact h.finished a hf

theorem discard (h : s.Once used) (n : NodeId) : (s.discard n).Once used := by
  refine h.mono (fun m => ?_) h.finished
  rw [animators_discard]
  split
  · exact List.nil_sublist _
  · exact List.Sublist.refl _

theorem deed (h : s.Once used) : ∀ d : Deed, (d.effect s).Once used
  | .run n now => h.ran (s.ran_animate n now)
  | .finish n => h.ran (s.ran_finishAll n)
  | .discard n => h.discard n

theorem careful (h : s.Once used) : ∀ d : Deed, d.Careful s
  | .run n now => fun a ha => by
    have hmem := (s.ran_animate n now).done_sublist.subset ha
    exact ⟨by rw [(h.nodup n).count, if_pos hmem], fun m hm => h.one m n a hm hmem⟩
  | .finish n => fun a ha m hm => h.one m n a hm ((s.ran_finishAll n).done_sublist.subset ha)
  | .discard _ => trivial

theorem effect {κ : Type} {w : World κ} (hw : w.scene.Numbered) (h : w.scene.Once used) (c : Call κ)
    (hnew : ∀ n a, c = .attach n a → ¬ a ∈ used) :
    (c.effect w).scene.Once (used ++ (Move.step (.call c)).attached?.toList) := by
  have hfinished : ∀ a, ((c.effect w).scene.animator a).state = .finished → a ∈ used := fun a hf =>
    h.finished a ((Call.finished_effect hw c a).1 hf)
  have hlist := Call.animators_effect hw c
  cases c with
  | attach n b =>
    have hb := hnew n b rfl
    have hmem : ∀ m a, a ∈ ((Call.effect w (.attach n b)).scene.node m).animators →
        a ∈ (w.scene.node m).animators ∨ m = n ∧ a = b := by
      intro m a ha
      rcases (Call.mem_animators_effect hw _ m a).1 ha with ha | he
      · exact .inl ha
      · cases he
        exact .inr ⟨rfl, rfl⟩
    refine ⟨fun m a ha => ?_, fun a hf => List.mem_append.2 (.inl (hfinished a hf)), fun m => ?_,
      fun m q a hm hq => ?_⟩
    · rcases hmem m a ha with ha | ⟨-, rfl⟩
      · exact List.mem_append.2 (.inl (h.attached m a ha))
      · exact List.mem_append.2 (.inr List.mem_cons_self)
    · rw [hlist]
      dsimp only
      split
      · refine List.nodup_append.2 ⟨h.nodup m, List.pairwise_singleton _ b, fun a ha q hq he => ?_⟩
        rw [List.mem_singleton.1 hq] at he
        exact hb (he ▸ h.attached m a ha)
      · exact h.nodup m
    · rcases hmem m a hm with hm' | ⟨rfl, rfl⟩
      · rcases hmem q a hq with hq' | ⟨-, rfl⟩
        · exact h.one m q a hm' hq'
        · exact absurd (h.attached m a hm') hb
      · rcases hmem q a hq with hq' | ⟨rfl, -⟩
        · exact absurd (h.attached q a hq') hb
        · rfl
  | _ =>
    show Scene.Once (used ++ []) _
    rw [List.append_nil]
    refine h.mono (fun m => ?_) hfinished
    rw [hlist]

end Scene.Once

namespace Threads

variable {κ : Type} {t : Threads κ}

def attached (xs : List (Move κ)) : List AnimatorId := xs.filterMap Move.attached?

theorem once_move {used : List AnimatorId} (hn : t.Numbered) (h : t.scene.Once used) (x : Move κ)
    (hnew : ∀ a, x.attached? = some a → ¬ a ∈ used) :
    t.Careful x ∧ (t.move x).scene.Once (used ++ x.attached?.toList) := by
  have hgrow : ∀ {s : Scene} {more : List AnimatorId}, s.Once used → s.Once (used ++ more) := fun hs =>
    ⟨fun n a ha => List.mem_append.2 (.inl (hs.attached n a ha)),
      fun a hf => List.mem_append.2 (.inl (hs.finished a hf)), hs.nodup, hs.one⟩
  refine ⟨⟨?_, fun d _ => h.careful d⟩, ?_⟩
  · rintro n a rfl - hf
    exact hnew a rfl (h.finished a hf)
  · rcases scene_move t x with ⟨d, -, hscene⟩ | ⟨-, ⟨c, rfl, hc, hscene⟩ | ⟨-, hscene⟩⟩
    · rw [hscene]
      exact hgrow (h.deed d)
    · rw [hscene]
      refine h.effect hn.world.scene c fun n a he => hnew a ?_
      rw [he]; rfl
    · rw [hscene]
      exact hgrow h

/-- **What is attached once is detached when it finishes.** -/
theorem careful_of_once : ∀ (xs : List (Move κ)) {used : List AnimatorId} {t : Threads κ}, t.Numbered →
    t.scene.Once used → (used ++ attached xs).Nodup → ∀ ys x zs, xs = ys ++ x :: zs → (t.moves ys).Careful x
  | [], _, _, _, _, _, ys, _, _, he => by cases ys <;> cases he
  | y :: xs, used, t, hn, h, hnodup, ys, x, zs, he => by
    have hsplit : used ++ attached (y :: xs) = used ++ y.attached?.toList ++ attached xs := by
      rw [attached, List.filterMap_cons, List.append_assoc]
      cases y.attached? <;> rfl
    rw [hsplit] at hnodup
    have hy := once_move hn h y fun a ha hused => by
      rw [ha] at hnodup
      exact (List.nodup_append.1 (List.nodup_append.1 hnodup).1).2.2 a hused a List.mem_cons_self rfl
    cases ys with
    | nil =>
      cases he
      exact hy.1
    | cons _ ys =>
      cases he
      exact careful_of_once (ys ++ x :: zs) (hn.move y) hy.2 hnodup ys x zs rfl

/-- **If no animator is attached twice, no finished animator is ever attached.** -/
theorem clean_of_attached_once (root : RootId) (kind : DriverKind) (clock : ClockId) (client : κ) (xs : List (Move κ))
    (h : (attached xs).Nodup) : ((blank root kind clock client).moves xs).Clean := by
  have honce : (blank root kind clock client).scene.Once [] :=
    ⟨fun _ _ ha => absurd ha List.not_mem_nil, fun _ hf => (by cases hf), fun _ => List.nodup_nil,
      fun _ _ _ ha => absurd ha List.not_mem_nil⟩
  have hcareful := careful_of_once xs (numbered_blank root kind clock client) honce h
  have hclean : (blank root kind clock client).Clean := clean_blank root kind clock client
  exact (clean_moves_iff xs (numbered_blank ..) hclean).2 hcareful xs List.prefix_rfl

/-! ## The result -/

/-- **When finished animators stay attached.**  Whatever is called, asked and done elsewhere: a frame that runs a node
leaves a finished animator attached to it exactly if the animator was finished before, or is finished now and had two
places there; no finished animator is ever attached exactly if every move is careful.  As long as none is, a node's
animators are its unfinished ones, a node goes on into the next frame exactly if it keeps one, and between two tasks
of a pipeline the driver is active exactly if a scheduled node has one. -/
theorem detached_run (root : RootId) (kind : DriverKind) (clock : ClockId) (client : κ) (xs : List (Move κ)) :
    let start := blank root kind clock client
    let t := start.moves xs
    let t' := t.move (.step .job)
    (∀ n walked rest, t.jobs = .run n walked :: rest → ∀ a,
      (a ∈ (t'.scene.node n).animators ∧ (t'.scene.animator a).state = .finished ↔
        a ∈ (t.scene.node n).animators ∧ ((t.scene.animator a).state = .finished ∨
          (t'.scene.animator a).state = .finished ∧ 2 ≤ (t.scene.node n).animators.count a))) ∧
    ((∀ ys, ys <+: xs → (start.moves ys).Clean) ↔
      ∀ ys x zs, xs = ys ++ x :: zs → (start.moves ys).Careful x) ∧
    (t.Clean → ∀ n, (t.scene.node n).animators.length = (t.scene.unfinishedOn n).length ∧
      (t.scene.hasAnimators n = true ↔ t.scene.unfinishedOn n ≠ [])) ∧
    (∀ n walked rest, t.jobs = .run n walked :: rest → t'.Clean →
      (.keep n walked ∈ ((Job.run n walked).perform t.state).1 ↔ t'.scene.unfinishedOn n ≠ [])) ∧
    (∀ steps : List (Step κ), xs = steps.map .step → t.jobs = [] → t.Clean →
      (∀ n ∈ t.driver.schedule.next, t.scene.unfinishedOn n ≠ []) ∧
      (t.driver.isActive = true ↔ ∃ n ∈ t.driver.schedule.next, t.scene.unfinishedOn n ≠ [])) := by
  intro start t t'
  have hclean : start.Clean := clean_blank root kind clock client
  refine ⟨?_, clean_moves_iff xs (numbered_blank ..) hclean, ?_, ?_, ?_⟩
  · intro n walked rest hj a
    have hscene : t'.scene = (t.scene.animate n t.driver.frameTime).2 := scene_run hj
    rw [hscene]
    exact t.scene.finished_left_iff ..
  · intro h n
    rw [Scene.Clean.unfinishedOn h n]
    exact ⟨rfl, by simp [Scene.hasAnimators]⟩
  · intro n walked rest hj h
    have hscene : t'.scene = ((Job.run n walked).perform t.state).2.world.scene := by
      rw [Job.scene_perform]
      exact scene_run hj
    rw [hscene]
    exact keep_iff t.state n walked (hscene ▸ h)
  · intro steps hxs hj h
    have hrun : t = start.run steps := by rw [← moves_map, ← hxs]
    obtain ⟨hcurrent, hnext⟩ := active_run root kind clock client steps (hrun ▸ hj)
    rw [← hrun] at hcurrent hnext
    have hunfinished : ∀ n ∈ t.driver.schedule.next, t.scene.unfinishedOn n ≠ [] := fun n hn => by
      rw [Scene.Clean.unfinishedOn h n]
      exact (hnext n hn).ne_nil
    refine ⟨hunfinished, ?_⟩
    constructor
    · intro ha
      have hne : t.driver.schedule.next ≠ [] := by
        rw [Driver.isActive, Schedule.isActive, hcurrent] at ha
        simpa using ha
      obtain ⟨n, hn⟩ := List.exists_mem_of_ne_nil _ hne
      exact ⟨n, hn, hunfinished n hn⟩
    · rintro ⟨n, hn, -⟩
      rw [Driver.isActive, Schedule.isActive]
      simp [List.ne_nil_of_mem hn]

/-- An animator without duration is attached twice to one node.  A tick finishes it and leaves it attached, and the
pipeline goes on with nothing to animate.  Attached once, an animator keeps the pipeline active while it is
unfinished. -/
theorem detached_opening :
    let after (xs : List (Step Unit)) := (blank ⟨0⟩ (.deferred ⟨0⟩) ⟨0⟩ ()).moves (xs.map .step)
    let twice := opening ⟨0⟩ ++ [.call (.attach ⟨2⟩ ⟨1⟩)]
    let t := (after (twice ++ work (.tick ⟨5⟩) 8)).move (.step .job)
    let u := after (twice ++ work (.tick ⟨5⟩) 13)
    let v := after (opening ⟨100⟩ ++ work (.tick ⟨5⟩) 13)
    (⟨1⟩ ∈ (t.scene.node ⟨2⟩).animators ∧ (t.scene.animator ⟨1⟩).state = .finished) ∧
      u.jobs = [] ∧ u.driver.isActive = true ∧ u.scene.unfinishedOn ⟨2⟩ = [] ∧
      v.jobs = [] ∧ v.Clean ∧ v.driver.isActive = true ∧
      ∃ n ∈ v.driver.schedule.next, v.scene.unfinishedOn n ≠ [] := by
  intro after twice t u v
  obtain ⟨rest, hrun⟩ : ∃ rest, (after (twice ++ work (.tick ⟨5⟩) 8)).jobs = .run ⟨2⟩ false :: rest := ⟨_, rfl⟩
  have hfinished : (t.scene.animator ⟨1⟩).state = .finished := by decide +kernel
  have hstays := (detached_run ⟨0⟩ (.deferred ⟨0⟩) ⟨0⟩ () ((twice ++ work (.tick ⟨5⟩) 8).map .step)).1
    ⟨2⟩ false rest hrun ⟨1⟩
  have hv : v.jobs = [] := by decide +kernel
  have hclean : v.Clean := clean_of_attached_once ⟨0⟩ (.deferred ⟨0⟩) ⟨0⟩ () _ (by decide +kernel)
  have hactive : v.driver.isActive = true := by decide +kernel
  have hscheduled := (detached_run ⟨0⟩ (.deferred ⟨0⟩) ⟨0⟩ ()
    ((opening ⟨100⟩ ++ work (.tick ⟨5⟩) 13).map .step)).2.2.2.2 _ rfl hv hclean
  exact ⟨hstays.2 ⟨by decide +kernel, .inr ⟨hfinished, by decide +kernel⟩⟩, by decide +kernel, by decide +kernel,
    by decide +kernel, hv, hclean, hactive, hscheduled.2.1 hactive⟩

end Threads

end SceneAnimation
