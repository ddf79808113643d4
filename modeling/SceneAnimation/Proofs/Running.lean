import SceneAnimation.Scene
import Mathlib.Data.List.Basic
/-!
# Running: what a run over the animators of a node does

A frame advances the animators of a node, and a teardown finishes them (`advance_plays`, `finish_plays`).  Either way
the run touches that node and its animators only, completes each of them at most once, and completes exactly those that
it brings to their end (`Scene.Ran`).  It detaches one place of each that it completes, and keeps every other place
(`count_kept`): an animator that was finished before stays attached.
-/
namespace SceneAnimation

/-- **A way to run an animator**: it changes nothing of it but the play state, never leaves the finished state, and
completes it on the one run that brings it there. -/
structure Plays (run : Animator → Properties → Advance) : Prop where
  same : ∀ a p, (run a p).animator = { a with state := (run a p).animator.state }
  finished : ∀ a p, a.state = .finished → (run a p).animator.state = .finished
  completed : ∀ a p, (run a p).completed = true ↔ a.state ≠ .finished ∧ (run a p).animator.state = .finished

namespace Animator

theorem play_same (a : Animator) (start : Instant) (x : Float32) (p : Properties) (now : Instant) :
    (a.play start x p now).animator = { a with state := (a.play start x p now).animator.state } := by
  unfold play
  split
  · rfl
  · dsimp only; split <;> rfl

theorem play_completed (a : Animator) (start : Instant) (x : Float32) (p : Properties) (now : Instant) :
    (a.play start x p now).completed = true ↔ (a.play start x p now).animator.state = .finished := by
  unfold play
  split
  · simp
  · dsimp only; split <;> simp

theorem advance_plays (now : Instant) : Plays fun a p => a.advance p now where
  same a p := by
    unfold advance
    cases h : a.state with
    | notStarted => exact play_same ..
    | running start x => exact play_same ..
    | finished => rfl
  finished a p h := by
    unfold advance
    rw [h]
    exact h
  completed a p := by
    unfold advance
    cases h : a.state with
    | notStarted => simp [play_completed]
    | running start x => simp [play_completed]
    | finished => simp [h]

theorem finish_plays : Plays finish where
  same a p := by
    unfold finish
    cases h : a.state with
    | notStarted => rfl
    | running start x => rfl
    | finished => rfl
  finished a p h := by
    unfold finish
    rw [h]
    exact h
  completed a p := by
    unfold finish
    cases h : a.state <;> simp

theorem state_finish (a : Animator) (p : Properties) : (a.finish p).animator.state = .finished := by
  unfold finish
  cases h : a.state with
  | notStarted => rfl
  | running start x => rfl
  | finished => exact h

/-- **A frame at `now` has nothing more to do with the animator**: it is finished, or on its way and not at its end. -/
def Settled (now : Instant) (a : Animator) : Prop :=
  a.state = .finished ∨ ∃ start x, a.state = .running start x ∧
    (now < start ∨ ¬ now < start ∧ ((now.since start).fractionOf a.duration).isWhole = false)

theorem settled_play (a : Animator) (start : Instant) (x : Float32) (p : Properties) (now : Instant) :
    (a.play start x p now).animator.Settled now := by
  unfold play
  split
  · rename_i h
    exact .inr ⟨start, x, rfl, .inl h⟩
  · rename_i h
    dsimp only
    split
    · exact .inl rfl
    · rename_i hw
      exact .inr ⟨start, x, rfl, .inr ⟨h, Bool.not_eq_true _ ▸ hw⟩⟩

theorem settled_advance (a : Animator) (p : Properties) (now : Instant) : (a.advance p now).animator.Settled now := by
  unfold advance
  cases h : a.state with
  | notStarted => exact settled_play ..
  | running start x => exact settled_play ..
  | finished => exact .inl h

/-- **A second run in the same frame changes nothing.** -/
theorem Settled.advance {a : Animator} {now : Instant} (h : a.Settled now) (p : Properties) :
    (a.advance p now).animator = a ∧ (a.advance p now).completed = false := by
  unfold Animator.advance
  rcases h with h | ⟨start, x, h, hnow⟩
  · rw [h]
    exact ⟨rfl, rfl⟩
  · rw [h]
    dsimp only
    unfold play
    rcases hnow with hlt | ⟨hlt, hw⟩
    · rw [if_pos hlt, ← h]
      exact ⟨rfl, rfl⟩
    · rw [if_neg hlt]
      dsimp only
      rw [hw, ← h]
      exact ⟨rfl, rfl⟩

end Animator

/-! ## Lists of animators -/

namespace Progress

variable {run : Animator → Properties → Advance}

theorem ofList_cons (run : Animator → Properties → Advance) (i : AnimatorId) (is : List AnimatorId)
    (as : Table AnimatorId Animator) (p : Properties) :
    ofList run (i :: is) as p =
      let a := run (as.get i) p
      let r := ofList run is (as.set i a.animator) a.properties
      if a.completed then { r with completed := i :: r.completed } else { r with kept := i :: r.kept } := rfl

@[simp] theorem animators_cons (i : AnimatorId) (is : List AnimatorId) (as : Table AnimatorId Animator)
    (p : Properties) : (ofList run (i :: is) as p).animators =
      (ofList run is (as.set i (run (as.get i) p).animator) (run (as.get i) p).properties).animators := by
  rw [ofList_cons]
  dsimp only
  split <;> rfl

@[simp] theorem completed_cons (i : AnimatorId) (is : List AnimatorId) (as : Table AnimatorId Animator)
    (p : Properties) : (ofList run (i :: is) as p).completed = (if (run (as.get i) p).completed then [i] else []) ++
      (ofList run is (as.set i (run (as.get i) p).animator) (run (as.get i) p).properties).completed := by
  rw [ofList_cons]
  dsimp only
  split <;> rfl

@[simp] theorem kept_cons (i : AnimatorId) (is : List AnimatorId) (as : Table AnimatorId Animator)
    (p : Properties) : (ofList run (i :: is) as p).kept = (if (run (as.get i) p).completed then [] else [i]) ++
      (ofList run is (as.set i (run (as.get i) p).animator) (run (as.get i) p).properties).kept := by
  rw [ofList_cons]
  dsimp only
  split <;> rfl

theorem kept_sublist : ∀ (is : List AnimatorId) (as : Table AnimatorId Animator) (p : Properties),
    (ofList run is as p).kept.Sublist is
  | [], _, _ => List.Sublist.refl _
  | i :: is, as, p => by
    rw [kept_cons]
    split
    · exact (kept_sublist is _ _).cons i
    · exact (kept_sublist is _ _).cons_cons i

theorem completed_sublist : ∀ (is : List AnimatorId) (as : Table AnimatorId Animator) (p : Properties),
    (ofList run is as p).completed.Sublist is
  | [], _, _ => List.Sublist.refl _
  | i :: is, as, p => by
    rw [completed_cons]
    split
    · exact (completed_sublist is _ _).cons_cons i
    · exact (completed_sublist is _ _).cons i

theorem mem_animators : ∀ (is : List AnimatorId) (as : Table AnimatorId Animator) (p : Properties),
    (∀ i ∈ is, i ∈ as) → ∀ q, q ∈ (ofList run is as p).animators ↔ q ∈ as
  | [], _, _, _, _ => Iff.rfl
  | i :: is, as, p, h, q => by
    have hrest : ∀ v, ∀ j ∈ is, j ∈ as.set i v := fun v j hj =>
      (Table.mem_set ..).2 (.inr (h j (List.mem_cons_of_mem i hj)))
    rw [animators_cons, mem_animators is _ _ (hrest _), Table.mem_set]
    exact ⟨fun hq => hq.elim (fun e => e ▸ h i List.mem_cons_self) id, .inr⟩

theorem size_animators : ∀ (is : List AnimatorId) (as : Table AnimatorId Animator) (p : Properties),
    (∀ i ∈ is, i ∈ as) → (ofList run is as p).animators.size = as.size
  | [], _, _, _ => rfl
  | i :: is, as, p, h => by
    have hrest : ∀ v, ∀ j ∈ is, j ∈ as.set i v := fun v j hj =>
      (Table.mem_set ..).2 (.inr (h j (List.mem_cons_of_mem i hj)))
    rw [animators_cons, size_animators is _ _ (hrest _), Table.size_set, if_pos (h i List.mem_cons_self)]

theorem get_of_not_mem : ∀ (is : List AnimatorId) (as : Table AnimatorId Animator) (p : Properties) (q : AnimatorId),
    ¬ q ∈ is → (ofList run is as p).animators.get q = as.get q
  | [], _, _, _, _ => rfl
  | i :: is, as, p, q, h => by
    rw [animators_cons, get_of_not_mem is _ _ q (fun hq => h (List.mem_cons_of_mem i hq)), Table.get_set,
      if_neg (fun e : q = i => h (e ▸ List.mem_cons_self))]

theorem listener_get (hr : Plays run) : ∀ (is : List AnimatorId) (as : Table AnimatorId Animator) (p : Properties)
    (q : AnimatorId), ((ofList run is as p).animators.get q).listener = (as.get q).listener
  | [], _, _, _ => rfl
  | i :: is, as, p, q => by
    rw [animators_cons, listener_get hr is, Table.get_set]
    split
    · subst q; rw [hr.same]
    · rfl

theorem finished_get (hr : Plays run) : ∀ (is : List AnimatorId) (as : Table AnimatorId Animator) (p : Properties)
    (q : AnimatorId), (as.get q).state = .finished → ((ofList run is as p).animators.get q).state = .finished
  | [], _, _, _, h => h
  | i :: is, as, p, q, h => by
    rw [animators_cons]
    refine finished_get hr is _ _ q ?_
    rw [Table.get_set]
    split
    · subst q; exact hr.finished _ _ h
    · exact h

/-- **A run completes exactly those that it brings to their end.** -/
theorem mem_completed (hr : Plays run) : ∀ (is : List AnimatorId) (as : Table AnimatorId Animator) (p : Properties)
    (q : AnimatorId), q ∈ (ofList run is as p).completed ↔
      (as.get q).state ≠ .finished ∧ ((ofList run is as p).animators.get q).state = .finished
  | [], as, p, q => by simp [ofList]
  | i :: is, as, p, q => by
    rw [completed_cons, animators_cons, List.mem_append, mem_completed hr is, Table.get_set]
    by_cases hq : q = i
    · subst q
      rw [if_pos rfl]
      have hc := hr.completed (as.get i) p
      have hf := finished_get hr is (as.set i (run (as.get i) p).animator) (run (as.get i) p).properties i
      rw [Table.get_set, if_pos rfl] at hf
      -- `i` may come again, but what is finished by now stays finished and is not completed again
      by_cases h : (run (as.get i) p).completed = true
      · simp [h, (hc.1 h).1, (hc.1 h).2, hf (hc.1 h).2]
      · have hn := mt hc.2 h
        have hk := hr.finished (as.get i) p
        rw [if_neg h]
        simp only [List.not_mem_nil, false_or]
        constructor
        · rintro ⟨h1, h2⟩
          exact ⟨fun h3 => h1 (hk h3), h2⟩
        · rintro ⟨h1, h2⟩
          exact ⟨fun h3 => hn ⟨h1, h3⟩, h2⟩
    · rw [if_neg hq]
      split <;> simp [hq]

theorem finished_of_mem : ∀ (is : List AnimatorId) (as : Table AnimatorId Animator) (p : Properties) (q : AnimatorId),
    q ∈ is → ((ofList Animator.finish is as p).animators.get q).state = .finished
  | i :: is, as, p, q, h => by
    rw [animators_cons]
    by_cases hq : q = i
    · refine finished_get Animator.finish_plays is _ _ q ?_
      rw [Table.get_set, if_pos hq]
      exact Animator.state_finish ..
    · exact finished_of_mem is _ _ q ((List.mem_cons.1 h).resolve_left hq)

theorem nodup_completed (hr : Plays run) : ∀ (is : List AnimatorId) (as : Table AnimatorId Animator) (p : Properties),
    (ofList run is as p).completed.Nodup
  | [], _, _ => List.nodup_nil
  | i :: is, as, p => by
    rw [completed_cons]
    split
    · rename_i h
      rw [List.singleton_append, List.nodup_cons]
      refine ⟨fun hm => ?_, nodup_completed hr is _ _⟩
      rw [mem_completed hr, Table.get_set, if_pos rfl] at hm
      exact hm.1 ((hr.completed _ _).1 h).2
    · exact nodup_completed hr is _ _

theorem get_of_settled {now : Instant} : ∀ (is : List AnimatorId) (as : Table AnimatorId Animator) (p : Properties)
    (q : AnimatorId), (as.get q).Settled now →
      (ofList (fun a p => a.advance p now) is as p).animators.get q = as.get q
  | [], _, _, _, _ => rfl
  | i :: is, as, p, q, h => by
    have hset : (as.set i ((as.get i).advance p now).animator).get q = as.get q := by
      rw [Table.get_set]
      split
      · subst q; exact (h.advance p).1
      · rfl
    rw [animators_cons, get_of_settled is _ _ q (hset ▸ h), hset]

theorem settled_get {now : Instant} : ∀ (is : List AnimatorId) (as : Table AnimatorId Animator) (p : Properties)
    (q : AnimatorId), q ∈ is → ((ofList (fun a p => a.advance p now) is as p).animators.get q).Settled now
  | i :: is, as, p, q, h => by
    rw [animators_cons]
    by_cases hq : q = i
    · have hset : ((as.set i ((as.get i).advance p now).animator).get q).Settled now := by
        rw [Table.get_set, if_pos hq]
        exact Animator.settled_advance ..
      rw [get_of_settled is _ _ q hset]
      exact hset
    · exact settled_get is _ _ q ((List.mem_cons.1 h).resolve_left hq)

/-- **Which places a run keeps**: one place of each animator that it completes is given up, and no other. -/
theorem count_kept (is : List AnimatorId) : ∀ (as : Table AnimatorId Animator) (p : Properties) (q : AnimatorId),
    (ofList run is as p).kept.count q + (ofList run is as p).completed.count q = is.count q := by
  induction is with
  | nil => intro as p q; rfl
  | cons i is ih =>
    intro as p q
    have := ih (as.set i (run (as.get i) p).animator) (run (as.get i) p).properties q
    rw [kept_cons, completed_cons, List.count_cons, List.count_append, List.count_append]
    split <;> simp only [List.count_nil, List.count_cons, beq_iff_eq] at this ⊢ <;> omega

end Progress

/-! ## Nodes -/

namespace Scene

@[simp] theorem node_store (s : Scene) (n : NodeId) (p : Progress) (m : NodeId) :
    (s.store n p).node m =
      if m = n then { s.node n with properties := p.properties, animators := p.kept } else s.node m :=
  node_updateNode ..

/-- The animators that a teardown finds unfinished on node `n`, in order. -/
def endedOn (s : Scene) (n : NodeId) : List AnimatorId :=
  (Progress.ofList Animator.finish (s.node n).animators s.animators (s.node n).properties).completed

/-- The animators that a frame at `now` completes on node `n`, in order. -/
def completedOn (s : Scene) (n : NodeId) (now : Instant) : List AnimatorId := (s.progressAt n now).completed

/-- **What a run of node `n` does to a scene**, if it completes the animators `done`. -/
structure Ran (s : Scene) (n : NodeId) (done : List AnimatorId) (s' : Scene) : Prop where
  others : ∀ m, m ≠ n → s'.node m = s.node m
  destroyed : (s'.node n).destroyed = (s.node n).destroyed
  sublist : (s'.node n).animators.Sublist (s.node n).animators
  done_sublist : done.Sublist (s.node n).animators
  done_nodup : done.Nodup
  listener : ∀ a, (s'.animator a).listener = (s.animator a).listener
  finished : ∀ a, (s.animator a).state = .finished → (s'.animator a).state = .finished
  mem_done : ∀ a, a ∈ done ↔ (s.animator a).state ≠ .finished ∧ (s'.animator a).state = .finished
  untouched : ∀ a, ¬ a ∈ (s.node n).animators → s'.animator a = s.animator a

namespace Ran

variable {s s' : Scene} {n : NodeId} {done : List AnimatorId}

theorem animators_sublist (h : s.Ran n done s') (m : NodeId) :
    (s'.node m).animators.Sublist (s.node m).animators := by
  by_cases hm : m = n
  · rw [hm]
    exact h.sublist
  · rw [h.others m hm]

theorem destroyed_eq (h : s.Ran n done s') (m : NodeId) : (s'.node m).destroyed = (s.node m).destroyed := by
  by_cases hm : m = n
  · rw [hm]
    exact h.destroyed
  · rw [h.others m hm]

end Ran

theorem ran_store {run : Animator → Properties → Advance} (hr : Plays run) (s : Scene) (n : NodeId)
    (kept : List AnimatorId) (hk : kept.Sublist (s.node n).animators) :
    let p := Progress.ofList run (s.node n).animators s.animators (s.node n).properties
    s.Ran n p.completed (s.store n { p with kept }) where
  others m hm := by rw [node_store, if_neg hm]
  destroyed := by rw [node_store, if_pos rfl]
  sublist := by rw [node_store, if_pos rfl]; exact hk
  done_sublist := Progress.completed_sublist ..
  done_nodup := Progress.nodup_completed hr ..
  listener a := Progress.listener_get hr ..
  finished a h := Progress.finished_get hr _ _ _ a h
  mem_done a := Progress.mem_completed hr ..
  untouched a h := Progress.get_of_not_mem _ _ _ a h

theorem ran_animate (s : Scene) (n : NodeId) (now : Instant) : s.Ran n (s.completedOn n now) (s.animate n now).2 :=
  ran_store (Animator.advance_plays now) s n _ (Progress.kept_sublist ..)

theorem ran_finishAll (s : Scene) (n : NodeId) : s.Ran n (s.endedOn n) (s.finishAll n).2 :=
  ran_store Animator.finish_plays s n [] (List.nil_sublist _)

theorem animators_discard (s : Scene) (n m : NodeId) :
    ((s.discard n).node m).animators = if m = n then [] else (s.node m).animators := by
  rw [discard, node_updateNode]
  split <;> rfl

theorem animators_finishAll (s : Scene) (n : NodeId) : ((s.finishAll n).2.node n).animators = [] := by
  rw [finishAll, node_store, if_pos rfl]

/-- **A teardown ends what is attached and not finished.** -/
theorem mem_endedOn (s : Scene) (n : NodeId) (a : AnimatorId) :
    a ∈ s.endedOn n ↔ a ∈ (s.node n).animators ∧ (s.animator a).state ≠ .finished := by
  have hr := s.ran_finishAll n
  constructor
  · intro h
    exact ⟨hr.done_sublist.subset h, ((hr.mem_done a).1 h).1⟩
  · rintro ⟨ha, hf⟩
    have hafter : ((s.finishAll n).2.animator a).state = .finished := Progress.finished_of_mem _ _ _ a ha
    exact (hr.mem_done a).2 ⟨hf, hafter⟩

/-- **A frame gives up one place of each animator that it completes on a node**, and keeps every other place. -/
theorem count_animate (s : Scene) (n : NodeId) (now : Instant) (a : AnimatorId) :
    ((s.animate n now).2.node n).animators.count a + (s.completedOn n now).count a =
      (s.node n).animators.count a := by
  rw [animate, node_store, if_pos rfl]
  exact Progress.count_kept ..

/-- **A settled animator keeps its places and its state** when a node is run again in the same frame. -/
theorem animate_of_settled {s : Scene} {a : AnimatorId} {now : Instant} (h : (s.animator a).Settled now) (n : NodeId) :
    (s.animate n now).2.animator a = s.animator a ∧
      ∀ m, a ∈ (s.node m).animators → a ∈ ((s.animate n now).2.node m).animators := by
  have hsame : (s.animate n now).2.animator a = s.animator a := Progress.get_of_settled _ _ _ a h
  refine ⟨hsame, fun m hm => ?_⟩
  by_cases hn : m = n
  · subst hn
    have hdone : ¬ a ∈ s.completedOn m now := fun hd => by
      obtain ⟨hbefore, hafter⟩ := ((s.ran_animate m now).mem_done a).1 hd
      exact hbefore (hsame ▸ hafter)
    have hcount := s.count_animate m now a
    rw [List.count_eq_zero_of_not_mem hdone, Nat.add_zero] at hcount
    exact List.count_pos_iff.1 (hcount ▸ List.count_pos_iff.2 hm)
  · rw [(s.ran_animate n now).others m hn]
    exact hm

/-- What a frame leaves attached to a node that it ran is settled. -/
theorem settled_animate (s : Scene) (n : NodeId) (now : Instant) {a : AnimatorId}
    (h : a ∈ ((s.animate n now).2.node n).animators) : ((s.animate n now).2.animator a).Settled now :=
  Progress.settled_get _ _ _ a ((s.ran_animate n now).sublist.subset h)

theorem mem_completions (s : Scene) (done : List AnimatorId) (c : Completion) :
    c ∈ s.completions done ↔ c.animator ∈ done ∧ (s.animator c.animator).listener = some c.listener := by
  simp only [completions, List.mem_filterMap, Option.map_eq_some_iff]
  constructor
  · rintro ⟨a, ha, l, hl, rfl⟩
    exact ⟨ha, hl⟩
  · rintro ⟨ha, hl⟩
    exact ⟨c.animator, ha, c.listener, hl, rfl⟩

/-- The completions of a run name its animators in the order of their completion. -/
theorem completions_sublist (s : Scene) : ∀ done : List AnimatorId,
    ((s.completions done).map (·.animator)).Sublist done
  | [] => List.Sublist.refl _
  | a :: done => by
    have ih := completions_sublist s done
    unfold completions at ih ⊢
    rw [List.filterMap_cons]
    cases (s.animator a).listener with
    | none => exact ih.cons a
    | some l => exact ih.cons_cons a

end Scene

end SceneAnimation
