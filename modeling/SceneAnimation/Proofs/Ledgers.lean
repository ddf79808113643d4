import SceneAnimation.Proofs.Detection
import SceneAnimation.Proofs.Registration
import SceneAnimation.Proofs.Threads.Works
import SceneAnimation.Proofs.Trees
/-!
# Ledgers: what a frame has done so far

A ledger lists the deeds of a frame, one for each node that the frame has come to.  The scene, the completions held for
the owner and the nodes scheduled for the next frame are what the ledger says (`Ledger`), and each further node adds one
entry to it (`Ledger.run`, `Ledger.leftover`).
-/
namespace SceneAnimation

/-! ## Deeds, one after the other -/

namespace Deed

def finds (s : Scene) : Deed → List Completion
  | .run n now => (s.animate n now).1
  | .finish n => (s.finishAll n).1
  | .discard _ => []

def effects (s : Scene) (ds : List Deed) : Scene := ds.foldl effect s

def findings (s : Scene) (ds : List Deed) : List Completion := trail effect finds s ds

variable {s : Scene} {n : NodeId} {d : Deed} {ds : List Deed}

theorem effects_append (s : Scene) (ds ds' : List Deed) : effects s (ds ++ ds') = effects (effects s ds) ds' :=
  List.foldl_append

theorem findings_concat (s : Scene) (ds : List Deed) (d : Deed) :
    findings s (ds ++ [d]) = findings s ds ++ d.finds (effects s ds) := by
  rw [findings, trail_append, trail, trail, List.append_nil]
  rfl

/-- **A deed leaves all other nodes as they are.** -/
theorem node_effect_of_ne (h : n ≠ d.node) : (d.effect s).node n = s.node n := by
  cases d with
  | run m now => exact (Scene.node_store ..).trans (if_neg h)
  | finish m => exact (Scene.node_store ..).trans (if_neg h)
  | discard m => exact (Scene.node_updateNode ..).trans (if_neg h)

theorem graph_effect (s : Scene) (d : Deed) (n : NodeId) :
    ((d.effect s).node n).children = (s.node n).children ∧ ((d.effect s).node n).destroyed = (s.node n).destroyed := by
  by_cases h : n = d.node
  · subst h
    cases d with
    | run m now =>
      rw [effect, Scene.animate, node, Scene.node_store, if_pos rfl]
      exact ⟨rfl, rfl⟩
    | finish m =>
      rw [effect, Scene.finishAll, node, Scene.node_store, if_pos rfl]
      exact ⟨rfl, rfl⟩
    | discard m =>
      rw [effect, Scene.discard, node, Scene.node_updateNode, if_pos rfl]
      exact ⟨rfl, rfl⟩
  · rw [node_effect_of_ne h]
    exact ⟨rfl, rfl⟩

theorem node_effects_of_not_mem : ∀ {ds : List Deed} {s : Scene}, n ∉ ds.map node → (effects s ds).node n = s.node n
  | [], _, _ => rfl
  | d :: ds, s, h => by
    rw [List.map_cons, List.mem_cons, not_or] at h
    exact (node_effects_of_not_mem h.2).trans (node_effect_of_ne h.1)

theorem graph_effects : ∀ (s : Scene) (ds : List Deed) (n : NodeId),
    ((effects s ds).node n).children = (s.node n).children ∧
    ((effects s ds).node n).destroyed = (s.node n).destroyed
  | _, [], _ => ⟨rfl, rfl⟩
  | s, d :: ds, n => by
    obtain ⟨hc, hd⟩ := graph_effects (d.effect s) ds n
    obtain ⟨hc', hd'⟩ := graph_effect s d n
    exact ⟨hc.trans hc', hd.trans hd'⟩

/-- **Deeds to different nodes do not meet**: each finds its node as it was, and the node stays as it leaves it. -/
theorem node_effects (h : (ds.map node).Nodup) (hd : d ∈ ds) :
    ∃ s', s'.node d.node = s.node d.node ∧ (effects s ds).node d.node = (d.effect s').node d.node := by
  obtain ⟨before, after, rfl⟩ := List.append_of_mem hd
  rw [List.map_append, List.map_cons, List.nodup_append, List.nodup_cons] at h
  obtain ⟨-, ⟨hafter, -⟩, hbefore⟩ := h
  refine ⟨effects s before, node_effects_of_not_mem fun hm => hbefore _ hm _ List.mem_cons_self rfl, ?_⟩
  rw [effects_append]
  exact node_effects_of_not_mem hafter

end Deed

namespace Threads

variable {s : Scene} {found : List Completion}

theorem Detection.deed (h : Detection found s) (d : Deed) : Detection (found ++ d.finds s) (d.effect s) := by
  cases d with
  | run n now => exact h.ran (s.ran_animate n now)
  | finish n => exact h.ran (s.ran_finishAll n)
  | discard n =>
    show Detection (found ++ []) _
    rw [List.append_nil]
    exact ⟨h.once, h.finished⟩

/-- **What deeds find is right**, if what was found before is. -/
theorem Detection.deeds : ∀ {s : Scene} {found : List Completion}, Detection found s → ∀ ds : List Deed,
    Detection (found ++ Deed.findings s ds) (Deed.effects s ds)
  | _, found, h, [] => (List.append_nil found).symm ▸ h
  | s, found, h, d :: ds => by
    have hrest := (h.deed d).deeds ds
    rwa [List.append_assoc] at hrest

end Threads

theorem Scene.hasAnimators_of_node {s s' : Scene} {n : NodeId} (h : s'.node n = s.node n) :
    s'.hasAnimators n = s.hasAnimators n := by
  rw [hasAnimators, h, hasAnimators]

/-! ## Ledgers -/

/-- **`ds` is all that has been done** in a frame at `now` over `scene`, with completions deferred to the owner of `r`,
and each of it to another node. -/
structure Ledger {κ : Type} (now : Instant) (scene : Scene) (r : RootId) (ds : List Deed) (s : RenderState κ) :
    Prop where
  scene_eq : s.world.scene = Deed.effects scene ds
  outlet : s.driver.outlet = .deferred r (Deed.findings scene ds)
  frameTime : s.driver.frameTime = now
  next : s.driver.schedule.next = (ds.map Deed.node).filter s.world.scene.hasAnimators
  exact : s.driver.schedule.Exact
  nodup : (ds.map Deed.node).Nodup

/-- What is done in a frame at `now` to a node that no walk reaches. -/
def Scene.upkeep (s : Scene) (now : Instant) (n : NodeId) : Deed :=
  if (s.node n).destroyed then .discard n else .run n now

@[simp] theorem Scene.node_upkeep (s : Scene) (now : Instant) (n : NodeId) : (s.upkeep now n).node = n := by
  unfold upkeep
  split <;> rfl

namespace Ledger

variable {κ : Type} {now : Instant} {scene : Scene} {r : RootId} {ds : List Deed} {s s' : RenderState κ} {n : NodeId}

theorem of_eq (h : Ledger now scene r ds s) (hscene : s'.world.scene = s.world.scene) (hd : s'.driver = s.driver) :
    Ledger now scene r ds s' where
  scene_eq := hscene.trans h.scene_eq
  outlet := hd ▸ h.outlet
  frameTime := hd ▸ h.frameTime
  next := by rw [hd, hscene, h.next]
  exact := hd ▸ h.exact
  nodup := h.nodup

theorem node_eq (h : Ledger now scene r ds s) (hn : n ∉ ds.map Deed.node) : s.world.scene.node n = scene.node n := by
  rw [h.scene_eq]
  exact Deed.node_effects_of_not_mem hn

/-- **One more node**, which is scheduled again if it keeps animators. -/
theorem add (h : Ledger now scene r ds s) {d : Deed} (hd : d.node ∉ ds.map Deed.node)
    (hscene : s'.world.scene = d.effect s.world.scene)
    (ho : s'.driver.outlet = .deferred r (Deed.findings scene ds ++ d.finds s.world.scene))
    (hs : s'.driver.schedule = if (d.effect s.world.scene).hasAnimators d.node then s.driver.schedule.add d.node
      else s.driver.schedule) : Ledger now scene r (ds ++ [d]) s' := by
  have hnext : d.node ∉ s.driver.schedule.next := fun hm => hd (List.mem_of_mem_filter (h.next ▸ hm))
  -- the deed is done to another node, so those that had their turn keep animators as they did
  have hsame : (ds.map Deed.node).filter (d.effect s.world.scene).hasAnimators = s.driver.schedule.next := by
    rw [h.next]
    refine List.filter_congr fun m hm => Scene.hasAnimators_of_node (Deed.node_effect_of_ne fun he => hd ?_)
    exact he ▸ hm
  refine ⟨?_, ?_, ?_, ?_, ?_, ?_⟩
  · rw [hscene, h.scene_eq, Deed.effects_append]
    rfl
  · rw [ho, Deed.findings_concat, ← h.scene_eq]
  · rw [← h.frameTime, Driver.frameTime, hs]
    split
    · unfold Schedule.add
      split <;> rfl
    · rfl
  · rw [hs, hscene, List.map_append, List.filter_append, hsame, List.map_singleton]
    split
    · rw [h.exact.next_add, if_neg hnext, List.filter_cons_of_pos (by assumption), List.filter_nil]
    · rw [List.filter_cons_of_neg (by assumption), List.filter_nil, List.append_nil]
  · rw [hs]
    split
    · exact h.exact.add _
    · exact h.exact
  · rw [List.map_append]
    refine List.nodup_append.2 ⟨h.nodup, List.pairwise_singleton _ _, fun a ha b hb he => hd ?_⟩
    rw [List.map_singleton, List.mem_singleton] at hb
    exact hb ▸ he ▸ ha

theorem run (h : Ledger now scene r ds s) (hn : n ∉ ds.map Deed.node) (walked : Bool) : ∃ s',
    Works [.run n walked] s [.run n now] s' ∧ Ledger now scene r (ds ++ [.run n now]) s' ∧
      s'.driver.schedule.current = s.driver.schedule.current := by
  let batch := (s.world.scene.animate n now).1
  let s₁ : RenderState κ := { s with world := { s.world with scene := (s.world.scene.animate n now).2 } }
  let s₂ : RenderState κ :=
    { s₁ with driver := { s₁.driver with outlet := .deferred r (Deed.findings scene ds ++ batch) } }
  have hrun : (Job.run n walked).perform s =
      (.report batch :: if s₁.world.scene.hasAnimators n then [.keep n walked] else [], s₁) := by
    simp only [Job.perform, h.frameTime]
    rfl
  have hreport : (Job.report batch).perform s₁ = ([], s₂) := by
    have ho : s₁.driver.outlet = .deferred r (Deed.findings scene ds) := h.outlet
    simp only [Job.perform, ho]
    rfl
  have hdeed : (Job.run n walked).deed? s = some (.run n now) := by rw [← h.frameTime]; rfl
  have hreported : Works [.report batch] s₁ [] s₂ := by
    have hsingle := Works.single (congrArg Prod.fst hreport)
    rwa [hreport] at hsingle
  have hleave : ∀ {ds' s'}, Works (if s₁.world.scene.hasAnimators n then [.keep n walked] else []) s₂ ds' s' →
      Works [.run n walked] s (.run n now :: ds') s' := fun {ds' s'} hk => by
    have hall : Works ((Job.run n walked).perform s).1 ((Job.run n walked).perform s).2 ds' s' := by
      rw [hrun]
      exact hreported.append hk
    have hjob := Works.leave hall
    rwa [hdeed] at hjob
  by_cases hk : s₁.world.scene.hasAnimators n = true
  · rw [if_pos hk] at hleave
    refine ⟨((Job.keep n walked).perform s₂).2, hleave (.single rfl), ?_, Schedule.current_add ..⟩
    exact h.add (d := .run n now) hn rfl rfl (if_pos hk).symm
  · rw [if_neg hk] at hleave
    exact ⟨s₂, hleave (.nil _), h.add (d := .run n now) hn rfl rfl (if_neg hk).symm, rfl⟩

theorem leftover (h : Ledger now scene r ds s) (hn : n ∉ ds.map Deed.node) : ∃ s',
    Works [.leftover n] s [scene.upkeep now n] s' ∧ Ledger now scene r (ds ++ [scene.upkeep now n]) s' ∧
      s'.driver.schedule.current = s.driver.schedule.current := by
  have hleft : ((Job.leftover n).perform s).1 = if (scene.node n).destroyed then [.discard n] else [.run n false] := by
    rw [← h.node_eq hn]
    rfl
  unfold Scene.upkeep
  split
  · rename_i hd
    rw [if_pos hd] at hleft
    have hnone : (s.world.scene.discard n).hasAnimators n = false := by
      rw [Scene.hasAnimators, Scene.animators_discard, if_pos rfl]
      rfl
    refine ⟨((Job.discard n).perform s).2, ?_, ?_, rfl⟩
    · exact .through rfl (hleft ▸ .single rfl)
    · refine h.add (d := .discard n) hn rfl ?_ ?_
      · rw [Deed.finds, List.append_nil]
        exact h.outlet
      · rw [if_neg]
        · rfl
        · exact fun ht => Bool.noConfusion (hnone.symm.trans ht)
  · rename_i hd
    rw [if_neg hd] at hleft
    obtain ⟨s', hw, hl, hc⟩ := h.run hn false
    exact ⟨s', .through rfl (hleft ▸ hw), hl, hc⟩

theorem leftovers : ∀ {ns : List NodeId} {ds : List Deed} {s : RenderState κ}, Ledger now scene r ds s → ns.Nodup →
    (∀ n ∈ ns, n ∉ ds.map Deed.node) → ∃ s', Works (ns.map .leftover) s (ns.map (scene.upkeep now)) s' ∧
      Ledger now scene r (ds ++ ns.map (scene.upkeep now)) s' ∧
      s'.driver.schedule.current = s.driver.schedule.current
  | [], ds, s, h, _, _ => ⟨s, .nil s, by rwa [List.map_nil, List.append_nil], rfl⟩
  | n :: ns, ds, s, h, hnodup, hnew => by
    obtain ⟨hn, hns⟩ := List.nodup_cons.1 hnodup
    obtain ⟨s₁, hw₁, hl₁, hc₁⟩ := h.leftover (hnew n List.mem_cons_self)
    obtain ⟨s₂, hw₂, hl₂, hc₂⟩ := leftovers hl₁ hns fun m hm => by
      rw [List.map_append, List.mem_append, List.map_singleton, Scene.node_upkeep, List.mem_singleton]
      rintro (hd | rfl)
      · exact hnew m (List.mem_cons_of_mem n hm) hd
      · exact hn hm
    rw [List.append_assoc] at hl₂
    exact ⟨s₂, hw₁.append hw₂, hl₂, hc₂.trans hc₁⟩

end Ledger

end SceneAnimation
