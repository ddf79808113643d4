import SceneAnimation.Proofs.Ledgers
/-!
# Apart: deeds to nodes that share no animator

Where no animator is attached to two nodes (`Scene.Separate`), a deed to one node finds every other node, and what is
attached to it, as it was.  So deeds to different nodes do what each of them does to the scene at the start
(`Deed.node_effects_of_mem`, `Deed.findings_eq_flatMap`), and their order does not matter (`Deed.effects_perm`).
-/
namespace SceneAnimation

/-! ## Running lists of animators -/

theorem Animator.get_play {a : Animator} {q : Property} (h : a.property ≠ q) (start : Instant) (x : Float32)
    (p : Properties) (now : Instant) : (a.play start x p now).properties.get q = p.get q := by
  unfold play
  split
  · rfl
  · dsimp only
    split
    · rw [Properties.get_set, if_neg (Ne.symm h), Properties.get_set, if_neg (Ne.symm h)]
    · rw [Properties.get_set, if_neg (Ne.symm h)]

theorem Animator.get_advance {a : Animator} {q : Property} (h : a.property ≠ q) (p : Properties) (now : Instant) :
    (a.advance p now).properties.get q = p.get q := by
  unfold advance
  split
  · exact get_play h ..
  · exact get_play h ..
  · rfl

namespace Progress

variable {run : Animator → Properties → Advance}

@[simp] theorem properties_cons (i : AnimatorId) (is : List AnimatorId) (as : Table AnimatorId Animator)
    (p : Properties) : (ofList run (i :: is) as p).properties =
      (ofList run is (as.set i (run (as.get i) p).animator) (run (as.get i) p).properties).properties := by
  rw [ofList_cons]
  dsimp only
  split <;> rfl

/-- **A property that none of the animators drives stays as it is.** -/
theorem get_ofList {now : Instant} {q : Property} : ∀ {is : List AnimatorId} {as : Table AnimatorId Animator}
    {p : Properties}, (∀ i ∈ is, (as.get i).property ≠ q) →
    (ofList (fun a p => a.advance p now) is as p).properties.get q = p.get q
  | [], _, _, _ => rfl
  | i :: is, as, p, h => by
    have hi := h i List.mem_cons_self
    rw [properties_cons, get_ofList fun j hj => ?_, Animator.get_advance hi]
    rw [Table.get_set]
    split
    · rw [(Animator.advance_plays now).same]
      exact hi
    · exact h j (List.mem_cons_of_mem i hj)

/-- **A run looks at the listed animators only.** -/
theorem ofList_congr (run : Animator → Properties → Advance) :
    ∀ {is : List AnimatorId} {as as' : Table AnimatorId Animator} (p : Properties),
    (∀ a ∈ is, as'.get a = as.get a) →
    (ofList run is as' p).properties = (ofList run is as p).properties ∧
      (ofList run is as' p).kept = (ofList run is as p).kept ∧
      (ofList run is as' p).completed = (ofList run is as p).completed ∧
      ∀ a, as'.get a = as.get a → (ofList run is as' p).animators.get a = (ofList run is as p).animators.get a
  | [], _, _, _, _ => ⟨rfl, rfl, rfl, fun _ h => h⟩
  | i :: is, as, as', p, h => by
    have hi : as'.get i = as.get i := h i List.mem_cons_self
    have hset : ∀ a, as'.get a = as.get a →
        (as'.set i (run (as.get i) p).animator).get a = (as.set i (run (as.get i) p).animator).get a := fun a ha => by
      rw [Table.get_set, Table.get_set, ha]
    obtain ⟨hp, hk, hc, ha⟩ := ofList_congr run (run (as.get i) p).properties fun a ha =>
      hset a (h a (List.mem_cons_of_mem i ha))
    rw [properties_cons, properties_cons, kept_cons, kept_cons, completed_cons, completed_cons, animators_cons,
      animators_cons, hi]
    exact ⟨hp, congrArg _ hk, congrArg _ hc, fun a h' => ha a (hset a h')⟩

end Progress

namespace Scene

/-- **No animator is attached to two nodes.** -/
def Separate (s : Scene) : Prop := ∀ n m a, a ∈ (s.node n).animators → a ∈ (s.node m).animators → n = m

/-- **Two scenes are the same at node `n`**, and in the animators that are attached to it. -/
structure SameAt (s s' : Scene) (n : NodeId) : Prop where
  node : s'.node n = s.node n
  animators : ∀ a ∈ (s.node n).animators, s'.animator a = s.animator a

variable {s s' s'' : Scene} {n : NodeId}

theorem separate_iff : s.Separate ↔ ∀ n ∈ s.nodes.entries.map (·.1), ∀ m ∈ s.nodes.entries.map (·.1),
    ∀ a ∈ (s.node n).animators, a ∈ (s.node m).animators → n = m := by
  have hlisted : ∀ {n a}, a ∈ (s.node n).animators → n ∈ s.nodes.entries.map (·.1) := fun {n a} ha => by
    rw [← Table.mem_iff_listed]
    exact Classical.byContradiction fun hn => by
      rw [node, Table.get_of_not_mem hn] at ha
      exact absurd ha List.not_mem_nil
  exact ⟨fun h n _ m _ a ha hb => h n m a ha hb, fun h n m a ha hb => h n (hlisted ha) m (hlisted hb) a ha hb⟩

instance : Decidable s.Separate := decidable_of_iff' _ separate_iff

theorem SameAt.refl (s : Scene) (n : NodeId) : s.SameAt s n := ⟨rfl, fun _ _ => rfl⟩

theorem SameAt.trans (h : s.SameAt s' n) (h' : s'.SameAt s'' n) : s.SameAt s'' n where
  node := h'.node.trans h.node
  animators a ha := (h'.animators a (h.node ▸ ha)).trans (h.animators a ha)

end Scene

/-! ## Deeds to different nodes -/

section Deeds

variable {s s' : Scene} {n : NodeId} {a : AnimatorId} {d : Deed} {ds ds' : List Deed}

namespace Deed

/-- A deed attaches nothing. -/
theorem animators_sublist (s : Scene) (d : Deed) (n : NodeId) :
    ((d.effect s).node n).animators.Sublist (s.node n).animators := by
  cases d with
  | run m now => exact (s.ran_animate m now).animators_sublist n
  | finish m => exact (s.ran_finishAll m).animators_sublist n
  | discard m =>
    rw [effect, Scene.animators_discard]
    split
    · exact List.nil_sublist _
    · exact List.Sublist.refl _

theorem animators_sublist_effects : ∀ (s : Scene) (ds : List Deed) (n : NodeId),
    ((effects s ds).node n).animators.Sublist (s.node n).animators
  | _, [], _ => List.Sublist.refl _
  | s, d :: ds, n => (animators_sublist_effects (d.effect s) ds n).trans (animators_sublist s d n)

theorem animator_effect_of_not_mem (h : a ∉ (s.node d.node).animators) : (d.effect s).animator a = s.animator a := by
  cases d with
  | run m now => exact (s.ran_animate m now).untouched a h
  | finish m => exact (s.ran_finishAll m).untouched a h
  | discard m => rfl

end Deed

theorem Scene.Separate.effect (h : s.Separate) (d : Deed) : (d.effect s).Separate := fun n m a ha hb =>
  h n m a ((Deed.animators_sublist s d n).subset ha) ((Deed.animators_sublist s d m).subset hb)

namespace Deed

/-- **What a deed does depends on its node only**, and on what is attached to that node. -/
theorem effect_congr (h : s.SameAt s' d.node) : (d.effect s').node d.node = (d.effect s).node d.node ∧
    d.finds s' = d.finds s ∧
      ∀ a, s'.animator a = s.animator a → (d.effect s').animator a = (d.effect s).animator a := by
  have hcompletions : ∀ done : List AnimatorId, done.Sublist (s.node d.node).animators →
      s'.completions done = s.completions done := fun done hd =>
    List.filterMap_congr fun a ha => by rw [h.animators a (hd.subset ha)]
  cases d with
  | run n now =>
    change s.SameAt s' n at h
    obtain ⟨hp, hk, hc, ha⟩ :=
      Progress.ofList_congr (fun a p => a.advance p now) (s.node n).properties h.animators
    simp only [effect, finds, node, Scene.animate, Scene.progressAt, Scene.node_store, if_true, h.node]
    exact ⟨by rw [hp, hk], by rw [hc]; exact hcompletions _ (Progress.completed_sublist ..), ha⟩
  | finish n =>
    change s.SameAt s' n at h
    obtain ⟨hp, -, hc, ha⟩ := Progress.ofList_congr Animator.finish (s.node n).properties h.animators
    simp only [effect, finds, node, Scene.finishAll, Scene.node_store, if_true, h.node]
    exact ⟨by rw [hp], by rw [hc]; exact hcompletions _ (Progress.completed_sublist ..), ha⟩
  | discard n =>
    change s.SameAt s' n at h
    simp only [effect, finds, node, Scene.discard, Scene.node_updateNode, if_true, h.node]
    exact ⟨trivial, trivial, fun a ha => ha⟩

/-- **A deed leaves every other node as it is**, and what is attached to that node. -/
theorem sameAt_effect (hs : s.Separate) (h : n ≠ d.node) : s.SameAt (d.effect s) n where
  node := node_effect_of_ne h
  animators a ha := animator_effect_of_not_mem fun hd => h (hs n d.node a ha hd)

theorem animator_effects_of_not_mem : ∀ {ds : List Deed} {s : Scene},
    (∀ d ∈ ds, a ∉ (s.node d.node).animators) → (effects s ds).animator a = s.animator a
  | [], _, _ => rfl
  | d :: ds, s, h => by
    have hrest : (effects (d.effect s) ds).animator a = (d.effect s).animator a :=
      animator_effects_of_not_mem fun d' hd' ha =>
        h d' (List.mem_cons_of_mem d hd') ((animators_sublist s d d'.node).subset ha)
    exact hrest.trans (animator_effect_of_not_mem (h d List.mem_cons_self))

theorem sameAt_effects (hs : s.Separate) (h : n ∉ ds.map node) : s.SameAt (effects s ds) n where
  node := node_effects_of_not_mem h
  animators a ha := animator_effects_of_not_mem fun d hd hb =>
    h (hs n d.node a ha hb ▸ List.mem_map_of_mem hd)

/-- **Each of the deeds to different nodes does what it does to the scene at the start.** -/
theorem effects_of_mem (hs : s.Separate) (hnodup : (ds.map node).Nodup) (hd : d ∈ ds) :
    (effects s ds).node d.node = (d.effect s).node d.node ∧
      ∀ a ∈ (s.node d.node).animators, (effects s ds).animator a = (d.effect s).animator a := by
  obtain ⟨before, after, rfl⟩ := List.append_of_mem hd
  rw [List.map_append, List.map_cons, List.nodup_append, List.nodup_cons] at hnodup
  obtain ⟨-, ⟨hafter, -⟩, hbefore⟩ := hnodup
  have hsame : s.SameAt (effects s before) d.node :=
    sameAt_effects hs fun hm => hbefore _ hm _ List.mem_cons_self rfl
  obtain ⟨hnode, -, hanimators⟩ := effect_congr hsame
  have hall : effects s (before ++ d :: after) = effects (d.effect (effects s before)) after := effects_append ..
  rw [hall]
  refine ⟨(node_effects_of_not_mem hafter).trans hnode, fun a ha => ?_⟩
  refine (animator_effects_of_not_mem fun d' hd' hb => hafter ?_).trans (hanimators a (hsame.animators a ha))
  -- what was attached to another node at the start is attached to no node of a later deed
  have hfirst : ((d.effect (effects s before)).node d'.node).animators.Sublist (s.node d'.node).animators :=
    (animators_sublist ..).trans (animators_sublist_effects ..)
  exact hs d.node d'.node a ha (hfirst.subset hb) ▸ List.mem_map_of_mem hd'

/-- **What is found is what each of the deeds finds in the scene at the start.** -/
theorem findings_eq_flatMap : ∀ {ds : List Deed} {s : Scene}, s.Separate → (ds.map node).Nodup →
    findings s ds = ds.flatMap (finds s)
  | [], _, _, _ => rfl
  | d :: ds, s, hs, hnodup => by
    obtain ⟨hd, hds⟩ := List.nodup_cons.1 hnodup
    have hrest : findings (d.effect s) ds = ds.flatMap (finds (d.effect s)) := findings_eq_flatMap (hs.effect d) hds
    have hsame : ds.flatMap (finds (d.effect s)) = ds.flatMap (finds s) := List.flatMap_congr fun d' hd' =>
      (effect_congr (sameAt_effect hs fun he => hd (he ▸ List.mem_map_of_mem hd'))).2.1
    rw [List.flatMap_cons, ← hsame, ← hrest]
    rfl

/-- **Only the deed to a node matters to it**: two scenes that are the same at node `n` stay the same there, if the same
deed, or none, is done to `n` in both. -/
theorem effects_congr (hs : s.Separate) (hs' : s'.Separate) (hnodup : (ds.map node).Nodup)
    (hnodup' : (ds'.map node).Nodup) (h : s.SameAt s' n) (hsame : ∀ d, d.node = n → (d ∈ ds' ↔ d ∈ ds)) :
    (effects s' ds').node n = (effects s ds).node n ∧
      ∀ a ∈ (s.node n).animators, (effects s' ds').animator a = (effects s ds).animator a := by
  by_cases hn : ∃ d ∈ ds, d.node = n
  · obtain ⟨d, hd, rfl⟩ := hn
    obtain ⟨hnode, hanimators⟩ := effects_of_mem hs hnodup hd
    obtain ⟨hnode', hanimators'⟩ := effects_of_mem hs' hnodup' ((hsame d rfl).2 hd)
    obtain ⟨heffect, -, hanimator⟩ := effect_congr h
    refine ⟨by rw [hnode, hnode', heffect], fun a ha => ?_⟩
    rw [hanimators a ha, hanimators' a (h.node ▸ ha), hanimator a (h.animators a ha)]
  · have hnone : n ∉ ds.map node := fun hm => hn (List.mem_map.1 hm)
    have hnone' : n ∉ ds'.map node := fun hm => by
      obtain ⟨d, hd, he⟩ := List.mem_map.1 hm
      exact hn ⟨d, (hsame d he).1 hd, he⟩
    have hleft := sameAt_effects hs hnone
    have hleft' := sameAt_effects hs' hnone'
    refine ⟨by rw [hleft.node, hleft'.node, h.node], fun a ha => ?_⟩
    rw [hleft.animators a ha, hleft'.animators a (h.node ▸ ha), h.animators a ha]

/-- **The order of deeds to different nodes does not matter.** -/
theorem effects_perm (hs : s.Separate) (hnodup : (ds.map node).Nodup) (h : ds'.Perm ds) :
    (∀ n, (effects s ds').node n = (effects s ds).node n) ∧
      (∀ a, (effects s ds').animator a = (effects s ds).animator a) ∧ (findings s ds').Perm (findings s ds) := by
  have hnodup' : (ds'.map node).Nodup := (h.map node).nodup_iff.2 hnodup
  have hsame := fun n => effects_congr (n := n) hs hs hnodup hnodup' (.refl s n) fun d _ => h.mem_iff
  refine ⟨fun n => (hsame n).1, fun a => ?_, ?_⟩
  · by_cases ha : ∃ d ∈ ds, a ∈ (s.node d.node).animators
    · obtain ⟨d, -, ha⟩ := ha
      exact (hsame d.node).2 a ha
    · rw [animator_effects_of_not_mem fun d hd hb => ha ⟨d, hd, hb⟩,
        animator_effects_of_not_mem fun d hd hb => ha ⟨d, h.mem_iff.1 hd, hb⟩]
  · rw [findings_eq_flatMap hs hnodup, findings_eq_flatMap hs hnodup']
    exact h.flatMap_right _

end Deed

end Deeds

end SceneAnimation
