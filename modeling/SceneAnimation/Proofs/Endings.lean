import SceneAnimation.Proofs.Ledgers
import SceneAnimation.Proofs.Apart
/-!
# Endings: what ending the animators of some nodes does to a scene

A teardown ends the animators of one node after the other.  Nodes may come twice, and may share animators; an animator
may be attached twice, and may be finished already.  All in all, each animator that is not finished is ended once, in
the order of the nodes and of its attachment, and writes its final value to the first node that holds it
(`Scene.ended_effects`).
-/
namespace SceneAnimation

/-! ## Lists of animators -/

/-- The animators of a list that are not finished, each at its first place. -/
def unfinished (as : Table AnimatorId Animator) (is : List AnimatorId) : List AnimatorId :=
  (is.filter fun a => (as.get a).state ≠ .finished).eraseDups

/-- **What property `q` is, if it was `x`**, after these animators have written their final values: the last of those
that drive it decides. -/
def lastWrite (as : Table AnimatorId Animator) (is : List AnimatorId) (q : Property) (x : Float32) : Float32 :=
  (is.filter fun a => (as.get a).property = q).getLast?.elim x fun a => Properties.stored q (as.get a).finalValue

section Lists

variable {as as' : Table AnimatorId Animator} {is : List AnimatorId} {i : AnimatorId}

theorem lastWrite_append (is js : List AnimatorId) (q : Property) (x : Float32) :
    lastWrite as (is ++ js) q x = lastWrite as js q (lastWrite as is q x) := by
  unfold lastWrite
  rw [List.filter_append, List.getLast?_append]
  cases (js.filter fun a => (as.get a).property = q).getLast? <;> rfl

theorem lastWrite_singleton (i : AnimatorId) (q : Property) (x : Float32) : lastWrite as [i] q x =
    if (as.get i).property = q then Properties.stored q (as.get i).finalValue else x := by
  unfold lastWrite
  split
  · rw [List.filter_cons_of_pos (by simpa)]
    rfl
  · rw [List.filter_cons_of_neg (by simpa)]
    rfl

/-- What is written does not depend on how far animators have come. -/
theorem lastWrite_congr (h : ∀ a, as'.get a = { as.get a with state := (as'.get a).state }) (is : List AnimatorId)
    (q : Property) (x : Float32) : lastWrite as' is q x = lastWrite as is q x := by
  unfold lastWrite
  have hproperty : ∀ a, (as'.get a).property = (as.get a).property := fun a => by rw [h]
  have hvalue : ∀ a, (as'.get a).finalValue = (as.get a).finalValue := fun a => by rw [h]
  simp only [hproperty, hvalue]

theorem mem_unfinished {a : AnimatorId} : a ∈ unfinished as is ↔ a ∈ is ∧ (as.get a).state ≠ .finished := by
  simp [unfinished, List.mem_eraseDups]

/-- **Once some animators are finished**, those of a list are unfinished that were so and are not among them. -/
theorem unfinished_of_finished {done : List AnimatorId}
    (h : ∀ a, as'.get a = if a ∈ done then { as.get a with state := .finished } else as.get a) (is : List AnimatorId) :
    unfinished as' is = (unfinished as is).filter (· ∉ done) := by
  unfold unfinished
  rw [← eraseDups_filter, List.filter_filter]
  refine congrArg _ (List.filter_congr fun a _ => ?_)
  rw [h]
  split <;> simp [*]

theorem unfinished_append (is js : List AnimatorId) :
    unfinished as (is ++ js) = unfinished as is ++ (unfinished as js).filter (· ∉ is) := by
  have hmem : ∀ a ∈ js.filter fun a => (as.get a).state ≠ .finished,
      (!((is.filter fun a => (as.get a).state ≠ .finished).elem a)) = decide (a ∉ is) := fun a ha => by
    have hstate := (List.mem_filter.1 ha).2
    by_cases hi : a ∈ is
    · simp_all
    · simp_all
  unfold unfinished
  rw [List.filter_append, List.eraseDups_append, ← eraseDups_filter]
  exact congrArg _ (congrArg _ (List.filter_congr hmem))

end Lists

theorem Animator.animator_finish (a : Animator) (p : Properties) :
    (a.finish p).animator = { a with state := .finished } := by
  rw [finish_plays.same, state_finish]

namespace Progress

variable {as : Table AnimatorId Animator} {p : Properties}

theorem get_set_finish (i : AnimatorId) (as : Table AnimatorId Animator) (p : Properties) (a : AnimatorId) :
    (as.set i ((as.get i).finish p).animator).get a =
      if a ∈ [i] then { as.get a with state := .finished } else as.get a := by
  rw [Table.get_set, Animator.animator_finish]
  by_cases ha : a = i
  · subst a
    rw [if_pos rfl, if_pos List.mem_cons_self]
  · rw [if_neg ha, if_neg fun h => ha (List.mem_singleton.1 h)]

/-- A list of animators is ended: those that are not finished after its first one are those of the rest. -/
theorem unfinished_cons (i : AnimatorId) (is : List AnimatorId) (as : Table AnimatorId Animator) (p : Properties) :
    unfinished as (i :: is) = unfinished as [i] ++ unfinished (as.set i ((as.get i).finish p).animator) is := by
  rw [unfinished_of_finished (get_set_finish i as p), ← unfinished_append, List.singleton_append]

theorem unfinished_singleton (i : AnimatorId) (as : Table AnimatorId Animator) (p : Properties) :
    unfinished as [i] = if ((as.get i).finish p).completed then [i] else [] := by
  have hcompleted := Animator.finish_plays.completed (as.get i) p
  rw [Animator.state_finish] at hcompleted
  by_cases h : (as.get i).state = .finished
  · rw [if_neg (mt hcompleted.1 fun hc => hc.1 h), unfinished, List.filter_cons_of_neg (by simpa using h)]
    rfl
  · rw [if_pos (hcompleted.2 ⟨h, rfl⟩), unfinished, List.filter_cons_of_pos (by simpa using h)]
    rfl

theorem completed_finish : ∀ (is : List AnimatorId) (as : Table AnimatorId Animator) (p : Properties),
    (ofList Animator.finish is as p).completed = unfinished as is
  | [], _, _ => rfl
  | i :: is, as, p => by
    rw [completed_cons, completed_finish is, unfinished_cons i is as p, unfinished_singleton i as p]

theorem get_finish : ∀ (is : List AnimatorId) (as : Table AnimatorId Animator) (p : Properties) (a : AnimatorId),
    (ofList Animator.finish is as p).animators.get a =
      if a ∈ is then { as.get a with state := .finished } else as.get a
  | [], _, _, _ => rfl
  | i :: is, as, p, a => by
    rw [animators_cons, get_finish is, get_set_finish]
    by_cases ha : a = i <;> by_cases hm : a ∈ is <;> simp [ha, hm]

theorem get_properties_finish (q : Property) : ∀ (is : List AnimatorId) (as : Table AnimatorId Animator)
    (p : Properties),
    (ofList Animator.finish is as p).properties.get q = lastWrite as (unfinished as is) q (p.get q)
  | [], _, _ => rfl
  | i :: is, as, p => by
    have hfirst : ((as.get i).finish p).properties.get q = lastWrite as (unfinished as [i]) q (p.get q) := by
      rw [unfinished_singleton i as p]
      unfold Animator.finish
      split
      · rfl
      · rw [if_pos rfl, lastWrite_singleton, Properties.get_set]
        by_cases hq : (as.get i).property = q
        · rw [if_pos hq, if_pos hq.symm, hq]
        · rw [if_neg hq, if_neg (Ne.symm hq)]
    have hsame : ∀ a, (as.set i ((as.get i).finish p).animator).get a =
        { as.get a with state := ((as.set i ((as.get i).finish p).animator).get a).state } := fun a => by
      rw [get_set_finish]
      split <;> rfl
    rw [properties_cons, get_properties_finish q is, lastWrite_congr hsame, hfirst, ← lastWrite_append,
      ← unfinished_cons]

end Progress

/-! ## Nodes -/

namespace Scene

/-- The animators of some nodes that are not finished, in the order of the nodes and, on each node, of attachment. -/
def ongoing (s : Scene) (ns : List NodeId) : List AnimatorId :=
  unfinished s.animators (ns.flatMap fun n => (s.node n).animators)

/-- The first of some nodes that holds animator `a`. -/
def holder? (s : Scene) (ns : List NodeId) (a : AnimatorId) : Option NodeId :=
  ns.find? fun n => a ∈ (s.node n).animators

/-- The animators whose ending writes to node `n`. -/
def writersOn (s : Scene) (ns : List NodeId) (n : NodeId) : List AnimatorId :=
  (s.ongoing ns).filter fun a => s.holder? ns a = some n

/-- **The animators of `ns` have been ended**: the nodes hold none any more, and each animator that they held is
finished.  Its final value has been written to the first of them that held it, if it was not finished before. -/
structure Ended (s : Scene) (ns : List NodeId) (s' : Scene) : Prop where
  node : ∀ n, s'.node n = { s.node n with
    properties := (s'.node n).properties, animators := if n ∈ ns then [] else (s.node n).animators }
  written : ∀ n q, (s'.node n).properties.get q =
    lastWrite s.animators (s.writersOn ns n) q ((s.node n).properties.get q)
  others : ∀ n, n ∉ ns → s'.node n = s.node n
  animator : ∀ a, s'.animator a =
    if ∃ n ∈ ns, a ∈ (s.node n).animators then { s.animator a with state := .finished } else s.animator a

section

variable {s : Scene} {n : NodeId} {ns : List NodeId}

theorem node_finishAll (s : Scene) (n m : NodeId) : (s.finishAll n).2.node m = if m = n then
    { s.node n with properties := ((s.finishAll n).2.node n).properties, animators := [] } else s.node m := by
  rw [finishAll, node_store]
  split
  · rw [node_store, if_pos rfl]
  · rfl

theorem animator_finishAll (s : Scene) (n : NodeId) (a : AnimatorId) : (s.finishAll n).2.animator a =
    if a ∈ (s.node n).animators then { s.animator a with state := .finished } else s.animator a :=
  Progress.get_finish ..

theorem properties_finishAll (s : Scene) (n : NodeId) (q : Property) :
    ((s.finishAll n).2.node n).properties.get q =
      lastWrite s.animators (unfinished s.animators (s.node n).animators) q ((s.node n).properties.get q) := by
  rw [finishAll, node_store, if_pos rfl]
  exact Progress.get_properties_finish ..

theorem mem_animators_finishAll {a : AnimatorId} (ha : a ∉ (s.node n).animators) (m : NodeId) :
    a ∈ ((s.finishAll n).2.node m).animators ↔ a ∈ (s.node m).animators := by
  rw [node_finishAll]
  split
  · subst m
    exact iff_of_false List.not_mem_nil ha
  · rfl

/-- **Once a node is ended**, those of further nodes are left that it did not hold. -/
theorem ongoing_finishAll (s : Scene) (n : NodeId) (ns : List NodeId) :
    (s.finishAll n).2.ongoing ns = (s.ongoing ns).filter (· ∉ (s.node n).animators) := by
  have hheld : (ns.flatMap fun m => ((s.finishAll n).2.node m).animators).filter (· ∉ (s.node n).animators) =
      (ns.flatMap fun m => (s.node m).animators).filter (· ∉ (s.node n).animators) := by
    rw [List.filter_flatMap, List.filter_flatMap]
    refine List.flatMap_congr fun m _ => ?_
    rw [node_finishAll]
    split
    · subst m
      simp
    · rfl
  unfold ongoing
  rw [unfinished_of_finished (animator_finishAll s n)]
  unfold unfinished
  rw [← eraseDups_filter, ← eraseDups_filter, List.filter_filter, List.filter_filter]
  simp only [Bool.and_comm (decide (_ ∉ _))]
  rw [← List.filter_filter, hheld, List.filter_filter]

theorem ongoing_cons (s : Scene) (n : NodeId) (ns : List NodeId) : s.ongoing (n :: ns) =
    unfinished s.animators (s.node n).animators ++ (s.finishAll n).2.ongoing ns := by
  rw [ongoing_finishAll]
  exact unfinished_append ..

theorem holder?_finishAll {a : AnimatorId} (ha : a ∉ (s.node n).animators) :
    s.holder? (n :: ns) a = (s.finishAll n).2.holder? ns a := by
  unfold holder?
  rw [List.find?_cons_of_neg (by simpa)]
  simp only [mem_animators_finishAll ha]

theorem writersOn_cons (s : Scene) (n : NodeId) (ns : List NodeId) (m : NodeId) : s.writersOn (n :: ns) m =
    (if m = n then unfinished s.animators (s.node n).animators else []) ++ (s.finishAll n).2.writersOn ns m := by
  unfold writersOn
  rw [ongoing_cons, List.filter_append]
  refine congrArg₂ _ ?_ (List.filter_congr fun a ha => ?_)
  · have hfirst : ∀ a ∈ unfinished s.animators (s.node n).animators, s.holder? (n :: ns) a = some n := fun a ha =>
      List.find?_cons_of_pos (by simpa using (mem_unfinished.1 ha).1)
    split
    · subst m
      exact List.filter_eq_self.2 fun a ha => by simp [hfirst a ha]
    · exact List.filter_eq_nil_iff.2 fun a ha => by simp [hfirst a ha, *, Ne.symm]
  · rw [ongoing_finishAll] at ha
    rw [holder?_finishAll (of_decide_eq_true (List.mem_filter.1 ha).2)]

/-- **One node more, before the others.** -/
theorem Ended.cons {s' : Scene} (h : (s.finishAll n).2.Ended ns s') : s.Ended (n :: ns) s' where
  node m := by
    rw [h.node m, node_finishAll]
    by_cases hm : m = n <;> simp [hm]
  written m q := by
    have hsame : ∀ a, (s.finishAll n).2.animators.get a =
        { s.animators.get a with state := ((s.finishAll n).2.animators.get a).state } := fun a => by
      rw [show (s.finishAll n).2.animators.get a = _ from animator_finishAll s n a]
      split <;> rfl
    rw [h.written, lastWrite_congr hsame, writersOn_cons, lastWrite_append]
    split
    · subst m
      rw [properties_finishAll]
    · rw [node_finishAll, if_neg ‹_›]
      rfl
  others m hm := by
    rw [List.mem_cons, not_or] at hm
    rw [h.others m hm.2, node_finishAll, if_neg hm.1]
  animator a := by
    rw [h.animator, animator_finishAll]
    by_cases ha : a ∈ (s.node n).animators
    · have hheld : ∃ m ∈ n :: ns, a ∈ (s.node m).animators := ⟨n, List.mem_cons_self, ha⟩
      rw [if_pos ha, if_pos hheld]
      split <;> rfl
    · simp only [mem_animators_finishAll ha, List.exists_mem_cons_iff, ha, false_or, if_false]

theorem ended_nil (s : Scene) : s.Ended [] s where
  node _ := rfl
  written _ _ := rfl
  others _ _ := rfl
  animator _ := rfl

/-- **What it does to end the animators of some nodes**, one node after the other. -/
theorem ended_effects : ∀ (ns : List NodeId) (s : Scene), s.Ended ns (Deed.effects s (ns.map .finish))
  | [], s => s.ended_nil
  | n :: ns, s => (ended_effects ns (s.finishAll n).2).cons

/-- **What is found on the way**: those that were not finished and have a listener. -/
theorem findings_finish : ∀ (ns : List NodeId) (s : Scene),
    Deed.findings s (ns.map .finish) = s.completions (s.ongoing ns)
  | [], _ => rfl
  | n :: ns, s => by
    have hlistener : ∀ done, (s.finishAll n).2.completions done = s.completions done := fun done =>
      List.filterMap_congr fun a _ => by rw [(s.ran_finishAll n).listener]
    have hfirst : (s.finishAll n).1 = s.completions (unfinished s.animators (s.node n).animators) :=
      congrArg s.completions (Progress.completed_finish ..)
    have hrest : Deed.findings (s.finishAll n).2 (ns.map .finish) =
        s.completions ((s.finishAll n).2.ongoing ns) := (findings_finish ns _).trans (hlistener _)
    rw [ongoing_cons, completions, List.filterMap_append]
    exact congrArg₂ _ hfirst hrest

end

end Scene

end SceneAnimation
