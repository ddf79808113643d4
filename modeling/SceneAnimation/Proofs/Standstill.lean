import SceneAnimation.Proofs.Skipping
/-!
# Standstill: a node that has had its run stands still for the rest of the frame

A node stands still at `now` if none of its animators has anything more to do at that time: each is settled and would
write what is written already (`Scene.Still`).  Where the animators of a node drive different properties, one run brings
the node to a standstill (`Scene.Distinct.still_animate`), a second run changes nothing (`Scene.Still.animate`), and
nothing that the frame does to other nodes moves it again, though they may share its animators (`Scene.Later`).
-/
namespace SceneAnimation

namespace Animator

variable {a : Animator} {now : Instant}

/-- **What an animator writes at a time, it writes again at that time.** -/
theorem advance_advance (a : Animator) (p : Properties) (now : Instant) :
    ((a.advance p now).animator.advance (a.advance p now).properties now).properties =
      (a.advance p now).properties := by
  have hplay : ∀ start x, ((a.play start x p now).animator.advance (a.play start x p now).properties now).properties =
      (a.play start x p now).properties := fun start x => (play_play (UInt64.le_refl _) a start x p).2
  cases hstate : a.state with
  | notStarted =>
    have hadvance : a.advance p now = a.play (now.plusSaturating a.delay) (p.get a.property) p now := by
      rw [advance, hstate]
    rw [hadvance]
    exact hplay ..
  | running start x =>
    have hadvance : a.advance p now = a.play start x p now := by rw [advance, hstate]
    rw [hadvance]
    exact hplay start x
  | finished =>
    have hadvance : a.advance p now = ⟨a, p, false⟩ := by rw [advance, hstate]
    rw [hadvance, hadvance]

end Animator

namespace Progress

variable {now : Instant}

/-- **Animators that have nothing more to do** leave everything as it is, and stay attached. -/
theorem ofList_of_still : ∀ (is : List AnimatorId) (as : Table AnimatorId Animator) (p : Properties),
    (∀ i ∈ is, (as.get i).Settled now ∧ ((as.get i).advance p now).properties = p) →
    let r := ofList (fun a p => a.advance p now) is as p
    (∀ i, r.animators.get i = as.get i) ∧ r.properties = p ∧ r.kept = is ∧ r.completed = []
  | [], _, _, _ => ⟨fun _ => rfl, rfl, rfl, rfl⟩
  | i :: is, as, p, h => by
    obtain ⟨hsettled, hsame⟩ := h i List.mem_cons_self
    obtain ⟨hanimator, hcompleted⟩ := hsettled.advance p
    have hset : ∀ j, (as.set i ((as.get i).advance p now).animator).get j = as.get j := fun j => by
      rw [Table.get_set, hanimator]
      split
      · subst j
        rfl
      · rfl
    obtain ⟨ha, hp, hk, hc⟩ := ofList_of_still is (as.set i ((as.get i).advance p now).animator) p
      fun j hj => hset j ▸ h j (List.mem_cons_of_mem i hj)
    dsimp only
    rw [animators_cons, properties_cons, kept_cons, completed_cons, hcompleted, hsame]
    exact ⟨fun j => (ha j).trans (hset j), hp, congrArg (i :: ·) hk, hc⟩

theorem property_get {run : Animator → Properties → Advance} (hr : Plays run) : ∀ (is : List AnimatorId)
    (as : Table AnimatorId Animator) (p : Properties) (q : AnimatorId),
    ((ofList run is as p).animators.get q).property = (as.get q).property
  | [], _, _, _ => rfl
  | i :: is, as, p, q => by
    rw [animators_cons, property_get hr is, Table.get_set]
    split
    · subst q
      rw [hr.same]
    · rfl

end Progress

namespace Scene

/-- **Two scenes are the same** in every node and in every animator. -/
structure Same (s s' : Scene) : Prop where
  node : ∀ n, s'.node n = s.node n
  animator : ∀ a, s'.animator a = s.animator a

/-- **The animators attached to each node drive pairwise distinct properties.** -/
def Distinct (s : Scene) : Prop := ∀ n, ((s.node n).animators.map fun a => (s.animator a).property).Nodup

/-- **Nothing is left to do at node `n` in a frame at `now`**: its animators are settled, and what they would write is
written. -/
def Still (s : Scene) (now : Instant) (n : NodeId) : Prop := ∀ a ∈ (s.node n).animators,
  (s.animator a).Settled now ∧ ((s.animator a).advance (s.node n).properties now).properties = (s.node n).properties

/-- **Scene `s'` is later than `s` in one frame at `now`**: the graph is as it was, no two animators of a node have come
to drive one property, and the nodes that stood still still stand as they did, unless they are destroyed. -/
structure Later (now : Instant) (s s' : Scene) : Prop where
  graph : ∀ n, ∃ properties animators, s'.node n = { s.node n with properties, animators }
  distinct : s.Distinct → s'.Distinct
  still : ∀ n, (s.node n).destroyed = false → s.Still now n → s'.node n = s.node n ∧ s'.Still now n

variable {s s' s'' : Scene} {now : Instant} {n m : NodeId}

theorem distinct_iff : s.Distinct ↔
    ∀ n ∈ s.nodes.entries.map (·.1), ((s.node n).animators.map fun a => (s.animator a).property).Nodup := by
  refine ⟨fun h n _ => h n, fun h n => ?_⟩
  by_cases hn : n ∈ s.nodes
  · exact h n ((Table.mem_iff_listed ..).1 hn)
  · rw [node, Table.get_of_not_mem hn]
    exact List.nodup_nil

instance : Decidable s.Distinct := decidable_of_iff' _ distinct_iff

namespace Same

theorem refl (s : Scene) : s.Same s := ⟨fun _ => rfl, fun _ => rfl⟩

theorem trans (h : s.Same s') (h' : s'.Same s'') : s.Same s'' :=
  ⟨fun n => (h'.node n).trans (h.node n), fun a => (h'.animator a).trans (h.animator a)⟩

theorem still (h : s.Same s') (hs : s.Still now n) : s'.Still now n := by
  unfold Still
  simp only [h.node, h.animator]
  exact hs

theorem hasAnimators (h : s.Same s') (n : NodeId) : s'.hasAnimators n = s.hasAnimators n :=
  hasAnimators_of_node (h.node n)

end Same

/-! ## One node -/

/-- **One run brings a node to a standstill.** -/
theorem Distinct.still_animate (h : s.Distinct) (n : NodeId) (now : Instant) : (s.animate n now).2.Still now n := by
  have hproperties : ((s.animate n now).2.node n).properties = (s.progressAt n now).properties := by
    rw [animate, node_store, if_pos rfl]
  intro a ha
  refine ⟨settled_animate s n now ha, ?_⟩
  obtain ⟨hanimator, hvalue⟩ := Progress.ofList_distinct now (s.node n).properties (h n) a
    ((s.ran_animate n now).sublist.subset ha)
  have hrun : (s.animate n now).2.animator a = ((s.animator a).advance (s.node n).properties now).animator := hanimator
  have hsame : ((s.animator a).advance (s.node n).properties now).animator.property = (s.animator a).property := by
    rw [(Animator.advance_plays now).same]
  rw [hproperties, hrun]
  -- the animator writes its own property only, and there what its run has left
  refine Properties.ext_get fun q => ?_
  by_cases hq : (s.animator a).property = q
  · subst q
    rw [← hsame]
    have hread : (s.progressAt n now).properties.get
        ((s.animator a).advance (s.node n).properties now).animator.property =
        ((s.animator a).advance (s.node n).properties now).properties.get
          ((s.animator a).advance (s.node n).properties now).animator.property := by
      rw [hsame]
      exact hvalue
    rw [(Animator.advance_congr hread now).2, Animator.advance_advance, hread]
  · exact Animator.get_advance (hsame.trans_ne hq) ..

/-- **A run of a node that stands still changes nothing**, and completes nothing. -/
theorem Still.animate (h : s.Still now n) : (s.animate n now).1 = [] ∧ s.Same (s.animate n now).2 := by
  obtain ⟨hanimators, hproperties, hkept, hcompleted⟩ := Progress.ofList_of_still _ _ _ h
  refine ⟨?_, fun m => ?_, hanimators⟩
  · show s.completions (s.progressAt n now).completed = []
    rw [show (s.progressAt n now).completed = [] from hcompleted]
    rfl
  · rw [Scene.animate, node_store]
    split
    · subst m
      rw [show (s.progressAt n now).properties = _ from hproperties, show (s.progressAt n now).kept = _ from hkept]
    · rfl

theorem Still.visit (h : s.Still now n) : s.Same (s.visit n now) := by
  unfold Scene.visit
  split
  · exact h.animate.2
  · exact .refl s

theorem Distinct.still_visit (h : s.Distinct) (n : NodeId) (now : Instant) : (s.visit n now).Still now n := by
  unfold Scene.visit
  split
  · exact h.still_animate n now
  · rename_i hnone
    intro a ha
    have hempty : (s.node n).animators = [] := by
      unfold hasAnimators at hnone
      simpa using hnone
    rw [hempty] at ha
    cases ha

/-! ## The rest of the frame -/

namespace Later

theorem name (h : Later now s s') (n : NodeId) : (s'.node n).name = (s.node n).name := by
  obtain ⟨_, _, hn⟩ := h.graph n
  rw [hn]

theorem children (h : Later now s s') (n : NodeId) : (s'.node n).children = (s.node n).children := by
  obtain ⟨_, _, hn⟩ := h.graph n
  rw [hn]

theorem destroyed (h : Later now s s') (n : NodeId) : (s'.node n).destroyed = (s.node n).destroyed := by
  obtain ⟨_, _, hn⟩ := h.graph n
  rw [hn]

theorem refl (now : Instant) (s : Scene) : Later now s s := ⟨fun _ => ⟨_, _, rfl⟩, id, fun _ _ h => ⟨rfl, h⟩⟩

theorem trans (h : Later now s s') (h' : Later now s' s'') : Later now s s'' where
  graph n := by
    obtain ⟨_, _, hn⟩ := h.graph n
    obtain ⟨_, _, hn'⟩ := h'.graph n
    exact ⟨_, _, by rw [hn', hn]⟩
  distinct hs := h'.distinct (h.distinct hs)
  still n halive hs := by
    obtain ⟨hnode, hstill⟩ := h.still n halive hs
    obtain ⟨hnode', hstill'⟩ := h'.still n ((h.destroyed n).trans halive) hstill
    exact ⟨hnode'.trans hnode, hstill'⟩

end Later

/-- **A run of one node moves no node that stands still**, also if they share animators: these are settled. -/
theorem later_animate (s : Scene) (n : NodeId) (now : Instant) : Later now s (s.animate n now).2 := by
  have hnode : ∀ m, (s.animate n now).2.node m = if m = n then { s.node n with
      properties := (s.progressAt n now).properties, animators := (s.progressAt n now).kept } else s.node m :=
    node_store s n (s.progressAt n now)
  have hproperty : ∀ a, ((s.animate n now).2.animator a).property = (s.animator a).property := fun a =>
    Progress.property_get (Animator.advance_plays now) ..
  refine ⟨fun m => ?_, fun h m => ?_, fun m _ h => ?_⟩
  · rw [hnode]
    split
    · subst m
      exact ⟨_, _, rfl⟩
    · exact ⟨_, _, rfl⟩
  · rw [List.map_congr_left fun a _ => hproperty a]
    exact (((s.ran_animate n now).animators_sublist m).map _).nodup (h m)
  · by_cases hm : m = n
    · subst m
      exact ⟨h.animate.2.node n, h.animate.2.still h⟩
    · have hothers := (s.ran_animate n now).others m hm
      refine ⟨hothers, fun a ha => ?_⟩
      rw [hothers] at ha ⊢
      rw [(animate_of_settled (h a ha).1 n).1]
      exact h a ha

theorem later_visit (s : Scene) (n : NodeId) (now : Instant) : Later now s (s.visit n now) := by
  unfold Scene.visit
  split
  · exact later_animate ..
  · exact .refl now s

/-- **Discarding the animators of a destroyed node moves no other node.** -/
theorem later_discard (hd : (s.node n).destroyed = true) (now : Instant) : Later now s (s.discard n) := by
  have hnode : ∀ m, (s.discard n).node m = if m = n then { s.node n with animators := [] } else s.node m := fun m =>
    node_updateNode ..
  refine ⟨fun m => ?_, fun h m => ?_, fun m halive h => ?_⟩
  · rw [hnode]
    split
    · subst m
      exact ⟨_, _, rfl⟩
    · exact ⟨_, _, rfl⟩
  · rw [animators_discard]
    split
    · exact List.nodup_nil
    · exact h m
  · have hothers : (s.discard n).node m = s.node m := (hnode m).trans (if_neg fun he => by
      subst m
      exact Bool.noConfusion (halive.symm.trans hd))
    refine ⟨hothers, fun a ha => ?_⟩
    rw [hothers] at ha ⊢
    exact h a ha

end Scene

end SceneAnimation
