import SceneAnimation.Proofs.Frames
import SceneAnimation.Proofs.Surveys
/-!
# Isolation: a failing node and the rest of the frame

A node that is destroyed, or has a property that is not finite, keeps the walk from what is below it.  To compare a
frame in which a node fails with the frame in which it does not, it is enough to compare what the two walks visit and
report outside the node's subtree (`Scene.reach_outside`): every other node then has the same turn or none in both
frames (`Scene.turns_outside`), and where nodes share no animator only its own turn matters to a node.
-/
namespace SceneAnimation

/-- **A property that is not finite stays so**, if nothing that is attached to the node drives it. -/
theorem Scene.onward_visit {s : Scene} {n : NodeId} {q : Property}
    (hfinite : ((s.node n).properties.get q).isFinite = false)
    (hdriven : ∀ a ∈ (s.node n).animators, (s.animator a).property ≠ q) (now : Instant) :
    (s.visit n now).onward n = [] := by
  have hget : ((s.visit n now).node n).properties.get q = (s.node n).properties.get q := by
    unfold visit
    split
    · rw [animate, node_store, if_pos rfl]
      exact Progress.get_ofList hdriven
    · rfl
  have hfault : ((s.visit n now).node n).properties.nonFinite? ≠ none := fun hnone => by
    have hall := Properties.nonFinite?_eq_none.1 hnone q
    rw [hget, hfinite] at hall
    exact Bool.noConfusion hall
  obtain ⟨fault, hf⟩ := Option.ne_none_iff_exists'.1 hfault
  simp only [onward, Properties.problem?, hf, Option.map_some]

namespace Scene

/-- Node `x` and what is below it, where this is a tree. -/
def subtree (s : Scene) (x : NodeId) : List NodeId := s.preorder (s.nodes.size + 1) x

/-- What is attached to any of the nodes. -/
def attached (s : Scene) (ns : List NodeId) : List AnimatorId := ns.flatMap fun n => (s.node n).animators

/-- The scene in which node `x` has other properties, and is or is not destroyed. -/
def alter (s : Scene) (x : NodeId) (properties : Properties) (destroyed : Bool) : Scene :=
  s.updateNode x fun y => { y with properties, destroyed }

section Subtree

variable {s s' : Scene} {n m x : NodeId}

theorem mem_subtree (h : s.Unshared x) : m ∈ s.subtree x ↔ ∃ path, s.follow x path = some m :=
  ⟨follow_of_mem_preorder _, fun ⟨path, hp⟩ => mem_preorder_of_follow (h.deep (Nat.lt_succ_self _) path m hp) hp⟩

theorem preorder_subset_subtree (h : s.Unshared x) (depth : Nat) (hm : m ∈ s.preorder depth x) : m ∈ s.subtree x :=
  (mem_subtree h).2 (follow_of_mem_preorder depth hm)

theorem Unshared.below (h : s.Unshared n) {path : List Nat} (hp : s.follow n path = some m) : s.Unshared m :=
  fun p q k hk hk' => List.append_cancel_left
    (h (path ++ p) (path ++ q) k ((follow_append path p hp).trans hk) ((follow_append path q hp).trans hk'))

variable {properties : Properties} {destroyed : Bool}

theorem children_alter (s : Scene) (x : NodeId) (properties : Properties) (destroyed : Bool) (n : NodeId) :
    ((s.alter x properties destroyed).node n).children = (s.node n).children := by
  rw [alter, node_updateNode]
  split
  · subst n; rfl
  · rfl

theorem animators_alter (s : Scene) (x : NodeId) (properties : Properties) (destroyed : Bool) (n : NodeId) :
    ((s.alter x properties destroyed).node n).animators = (s.node n).animators := by
  rw [alter, node_updateNode]
  split
  · subst n; rfl
  · rfl

theorem sameAt_alter (h : n ≠ x) : s.SameAt (s.alter x properties destroyed) n where
  node := (node_updateNode ..).trans (if_neg h)
  animators _ _ := rfl

theorem Separate.alter (h : s.Separate) : (s.alter x properties destroyed).Separate := fun n m a ha hb => by
  rw [animators_alter] at ha hb
  exact h n m a ha hb

end Subtree

/-! ## The walk, outside a subtree -/

section Walk

variable {s s' : Scene} {now : Instant} {x : NodeId}

theorem mem_preorder_of_faults : ∀ {depth : Nat} {n : NodeId} {f : NodeId × String}, f ∈ s.faults now depth n →
    f.1 ∈ s.preorder depth n
  | 0, _, _, hf => absurd hf List.not_mem_nil
  | depth + 1, n, f, hf => by
    rw [faults] at hf
    rw [preorder]
    split at hf
    · rw [List.mem_singleton.1 hf]
      exact List.mem_cons_self
    · rcases List.mem_append.1 hf with hf | hf
      · obtain ⟨text, -, rfl⟩ := List.mem_map.1 hf
        exact List.mem_cons_self
      · obtain ⟨c, hc, hf⟩ := List.mem_flatMap.1 hf
        have hchild : c ∈ (s.node n).children := children_visit s n now n ▸ (onward_sublist ..).subset hc
        exact List.mem_cons_of_mem n (List.mem_flatMap.2 ⟨c, hchild, mem_preorder_of_faults hf⟩)

/-- **Outside the subtree of a node, the walk does not depend on that node.** -/
theorem reach_outside (now : Instant) (hx : s.Unshared x) (hsame : ∀ n, n ≠ x → s.SameAt s' n)
    (hgraph : ∀ n, (s'.node n).children = (s.node n).children) : ∀ (depth : Nat) (n : NodeId),
    (s'.reach now depth n).filter (· ∉ s.subtree x) = (s.reach now depth n).filter (· ∉ s.subtree x) ∧
      (s'.faults now depth n).filter (·.1 ∉ s.subtree x) = (s.faults now depth n).filter (·.1 ∉ s.subtree x)
  | 0, _ => ⟨rfl, rfl⟩
  | depth + 1, n => by
    by_cases hn : n = x
    · -- all of it is inside
      subst n
      have hinside : ∀ m, m ∈ s.preorder (depth + 1) x → ¬ decide (m ∉ s.subtree x) = true := fun m hm hd =>
        of_decide_eq_true hd (preorder_subset_subtree hx _ hm)
      have hinside' : ∀ m, m ∈ s'.preorder (depth + 1) x → ¬ decide (m ∉ s.subtree x) = true := fun m hm =>
        hinside m (preorder_congr hgraph (depth + 1) x ▸ hm)
      rw [List.filter_eq_nil_iff.2 fun m hm => hinside' m ((reach_sublist ..).subset hm),
        List.filter_eq_nil_iff.2 fun m hm => hinside m ((reach_sublist ..).subset hm),
        List.filter_eq_nil_iff.2 fun f hf => hinside' f.1 (mem_preorder_of_faults hf),
        List.filter_eq_nil_iff.2 fun f hf => hinside f.1 (mem_preorder_of_faults hf)]
      exact ⟨rfl, rfl⟩
    · have hvisit : (s'.visit n now).node n = (s.visit n now).node n := (hsame n hn).visit now
      have hreach := fun c => (reach_outside now hx hsame hgraph depth c).1
      have hfaults := fun c => (reach_outside now hx hsame hgraph depth c).2
      rw [reach, reach, faults, faults, errorText, errorText, (hsame n hn).node, onward_congr hvisit,
        complaints_congr hvisit]
      split
      · exact ⟨rfl, rfl⟩
      · simp only [List.filter_cons, List.filter_append, List.filter_flatMap, hreach, hfaults]
        exact ⟨trivial, trivial⟩

/-- A node that fails at its visit, or is destroyed, keeps the walk from what is below it. -/
theorem not_mem_reach_below (hfails : (s.node x).destroyed = true ∨ (s.visit x now).onward x = []) :
    ∀ {depth : Nat} {n m : NodeId} {path path' : List Nat}, s.Unshared n → s.follow n path = some x →
      s.follow x path' = some m → m ≠ x → m ∉ s.reach now depth n
  | 0, _, _, _, _, _, _, _, _ => List.not_mem_nil
  | depth + 1, n, m, path, path', htree, hx, hm, hne => fun hmem => by
    have hfollow : s.follow n (path ++ path') = some m := (follow_append path path' hx).trans hm
    rw [reach] at hmem
    split at hmem
    · exact List.not_mem_nil hmem
    rename_i hd
    rcases List.mem_cons.1 hmem with rfl | hmem
    · -- the node would lie above `x` and below it
      have hnil : path ++ path' = [] := htree _ _ _ hfollow rfl
      rw [(List.append_eq_nil_iff.1 hnil).1] at hx
      exact hne (Option.some.inj hx)
    · obtain ⟨c, hc, hmem⟩ := List.mem_flatMap.1 hmem
      cases path with
      | nil =>
        cases hx
        rcases hfails with hfails | hfails
        · exact hd hfails
        · rw [hfails] at hc
          exact List.not_mem_nil hc
      | cons i path =>
        obtain ⟨c', hc', hx'⟩ := exists_child hx
        obtain ⟨j, hj⟩ := List.getElem?_of_mem (children_visit s n now n ▸ (onward_sublist ..).subset hc)
        obtain ⟨way, hway⟩ := follow_of_mem_preorder depth ((reach_sublist ..).subset hmem)
        -- one path leads to `m`, so it is the child on the way to `x` that the walk goes on to
        obtain rfl := htree.apart hc' hj ((follow_append path path' hx').trans hm) hway
        cases hc'.symm.trans hj
        exact not_mem_reach_below hfails (htree.child hc') hx' hm hne hmem

end Walk

/-! ## The turns, outside a subtree -/

section Turns

variable {s s' : Scene} {now : Instant} {active visited visited' below : List NodeId}

theorem upkeep_congr {n : NodeId} (h : s'.node n = s.node n) (now : Instant) : s'.upkeep now n = s.upkeep now n := by
  rw [upkeep, upkeep, h]

/-- **Outside a set of nodes, the turns do not depend on these nodes.** -/
theorem turns_outside (now : Instant) (active : List NodeId) (hsame : ∀ n, n ∉ below → s'.node n = s.node n)
    (hvisited : visited'.filter (· ∉ below) = visited.filter (· ∉ below)) :
    (s'.turns now active visited').filter (·.node ∉ below) = (s.turns now active visited).filter (·.node ∉ below) := by
  have hanimators : ∀ n, n ∉ below → s'.hasAnimators n = s.hasAnimators n := fun n hn =>
    hasAnimators_of_node (hsame n hn)
  have hmem : ∀ n, n ∉ below → (n ∈ visited' ↔ n ∈ visited) := fun n hn => by
    have hiff : n ∈ visited'.filter (· ∉ below) ↔ n ∈ visited.filter (· ∉ below) := by rw [hvisited]
    simpa [hn] using hiff
  have hruns : (s'.runs now visited').filter (·.node ∉ below) = (s.runs now visited).filter (·.node ∉ below) := by
    have hswap : ∀ (scene : Scene) (ns : List NodeId), (scene.runs now ns).filter (·.node ∉ below) =
        ((ns.filter (· ∉ below)).filter scene.hasAnimators).map (Deed.run · now) := fun scene ns => by
      rw [runs, List.filter_map, List.filter_filter, List.filter_filter]
      exact congrArg _ (List.filter_congr fun n _ => Bool.and_comm ..)
    rw [hswap, hswap, hvisited]
    refine congrArg _ (List.filter_congr fun n hn => hanimators n ?_)
    exact of_decide_eq_true (List.mem_filter.1 hn).2
  have hrest : ((active.filter (· ∉ visited'.filter s'.hasAnimators)).map (s'.upkeep now)).filter (·.node ∉ below) =
      ((active.filter (· ∉ visited.filter s.hasAnimators)).map (s.upkeep now)).filter (·.node ∉ below) := by
    simp only [List.filter_map, List.filter_filter, Function.comp_def, node_upkeep]
    have hfilter : active.filter (fun n => decide (n ∉ below) && decide (n ∉ visited'.filter s'.hasAnimators)) =
        active.filter fun n => decide (n ∉ below) && decide (n ∉ visited.filter s.hasAnimators) :=
      List.filter_congr fun n _ => by
        by_cases hn : n ∈ below
        · simp [hn]
        · simp [hn, hmem n hn, hanimators n hn]
    rw [hfilter]
    refine List.map_congr_left fun n hn => upkeep_congr (hsame n ?_) now
    exact of_decide_eq_true (Bool.and_eq_true_iff.1 (List.mem_filter.1 hn).2).1
  rw [turns, turns, List.filter_append, List.filter_append, hruns, hrest]

end Turns

end Scene

namespace Deed

variable {s : Scene} {d : Deed} {ds : List Deed} {below : List NodeId}

/-- A deed finds animators of its node only. -/
theorem animator_of_mem_finds {c : Completion} (h : c ∈ d.finds s) : c.animator ∈ (s.node d.node).animators := by
  cases d with
  | run n now =>
    exact (s.ran_animate n now).done_sublist.subset ((Scene.mem_completions ..).1 h).1
  | finish n =>
    exact (s.ran_finishAll n).done_sublist.subset ((Scene.mem_completions ..).1 h).1
  | discard n => exact absurd h List.not_mem_nil

/-- **What is found outside a set of nodes** is what the deeds to other nodes find. -/
theorem findings_outside (hs : s.Separate) (hnodup : (ds.map node).Nodup) (below : List NodeId) :
    (findings s ds).filter (·.animator ∉ s.attached below) = (ds.filter (·.node ∉ below)).flatMap (finds s) := by
  rw [findings_eq_flatMap hs hnodup, List.filter_flatMap]
  clear hnodup
  induction ds with
  | nil => rfl
  | cons d ds ih =>
    rw [List.flatMap_cons, ih]
    by_cases hd : d.node ∈ below
    · rw [List.filter_cons_of_neg (by simp [hd]), List.filter_eq_nil_iff.2, List.nil_append]
      intro c hc
      simp only [decide_eq_true_eq, not_not]
      exact List.mem_flatMap.2 ⟨d.node, hd, animator_of_mem_finds hc⟩
    · rw [List.filter_cons_of_pos (by simp [hd]), List.flatMap_cons, List.filter_eq_self.2]
      intro c hc
      refine decide_eq_true fun hm => ?_
      obtain ⟨n, hn, ha⟩ := List.mem_flatMap.1 hm
      exact hd (hs d.node n c.animator (animator_of_mem_finds hc) ha ▸ hn)

end Deed

/-! ## Two frames -/

/-- **Two frames do the same outside a set of nodes**, over scenes in which the same is attached to nodes as in `s`:
they leave the same nodes and animators there, and schedule the same of them for the next frame, in the same order. -/
structure Drawn.AgreesOutside {κ : Type} (d d' : Drawn κ) (s : Scene) (below : List NodeId) : Prop where
  node : ∀ n, n ∉ below → d'.world.scene.node n = d.world.scene.node n
  animator : ∀ n, n ∉ below → ∀ a ∈ (s.node n).animators, d'.world.scene.animator a = d.world.scene.animator a
  next : d'.pipeline.driver.schedule.next.filter (· ∉ below) = d.pipeline.driver.schedule.next.filter (· ∉ below)

section Frames

variable {κ : Type} {d d' : Drawn κ} {w w' : World κ} {q r : RootId} {visited visited' : List NodeId}
  {errors errors' : List String} {turns turns' : List Deed} {below : List NodeId} {kind : FrameKind}

theorem Drawn.Films.agreesOutside (h : d.Films kind w q r visited errors turns)
    (h' : d'.Films kind w' q r visited' errors' turns') (hs : w.scene.Separate) (hs' : w'.scene.Separate)
    (hsame : ∀ n, n ∉ below → w.scene.SameAt w'.scene n)
    (hturns : turns'.filter (·.node ∉ below) = turns.filter (·.node ∉ below)) :
    d.AgreesOutside d' w.scene below := by
  have hmem : ∀ n, n ∉ below → ∀ e : Deed, e.node = n → (e ∈ turns' ↔ e ∈ turns) := fun n hn e he => by
    have hiff : e ∈ turns'.filter (·.node ∉ below) ↔ e ∈ turns.filter (·.node ∉ below) := by rw [hturns]
    simpa [he, hn] using hiff
  have hat := fun n (hn : n ∉ below) => Deed.effects_congr hs hs' h.once h'.once (hsame n hn) (hmem n hn)
  rw [← h.scene, ← h'.scene] at hat
  have hswap : ∀ (scene : Scene) (ds : List Deed), ((ds.map Deed.node).filter scene.hasAnimators).filter (· ∉ below) =
      ((ds.filter (·.node ∉ below)).map Deed.node).filter scene.hasAnimators := fun scene ds => by
    simp only [List.filter_map, List.filter_filter, Function.comp_def, Bool.and_comm]
  refine ⟨fun n hn => (hat n hn).1, fun n hn => (hat n hn).2, ?_⟩
  rw [h.next, h'.next, hswap, hswap, hturns]
  refine List.filter_congr fun n hn => ?_
  obtain ⟨e, he, rfl⟩ := List.mem_map.1 hn
  exact Scene.hasAnimators_of_node (hat e.node (of_decide_eq_true (List.mem_filter.1 he).2)).1

end Frames

namespace Threads

variable {κ : Type}

/-- **A failing node disturbs no node outside its subtree.**  A pipeline defers completions to the owner of some root
and stands at the boundary of a frame, as it does between any two tasks (`boundary_run`); the graph that it draws is a
tree, no animator is attached to two nodes, and `x` is a node of the tree.  The frame drawn from this state is compared
with the frame drawn from the state in which `x` is destroyed, or has a property that is not finite and that no animator
of `x` drives.  Outside the subtree of `x` the two frames agree: they leave the same nodes and animators, visit the same
nodes, report the same errors, find the same completions and schedule the same nodes, all in the same order.  So they do
at every node below `x` that was active when the frame started, though the walk of the second frame visits none of
these. -/
theorem isolation_run (react : Reaction κ) (readings readings' : Readings) (traced : Bool) (time : Instant)
    (r root : RootId) (kind : DriverKind) (clock : ClockId) (client : κ) (xs : List (Move κ)) (x : NodeId)
    (properties : Properties) (destroyed : Bool) :
    let t := (blank root kind clock client).moves xs
    let w := t.world
    let w' := w.mapScene fun s => s.alter x properties destroyed
    let p : Pipeline := { root := t.root, kind := t.kind, clock := t.clock, driver := t.driver, traced }
    let d := p.draw react readings time w
    let d' := p.draw react readings' time w'
    let now := d.outcome.frameTime
    let top := (w.root t.root).node
    let depth := w.scene.nodes.size + 1
    let below := w.scene.subtree x
    let visited := w.scene.reach now depth top
    let visited' := w'.scene.reach now depth top
    let faults := w.scene.faults now depth top
    let faults' := w'.scene.faults now depth top
    let turns := w.scene.turns now (t.active time) visited
    let turns' := w'.scene.turns now (t.active time) visited'
    t.driver.outlet = .deferred r [] → t.driver.schedule.current = [] → w.scene.Unshared top → w.scene.Separate →
    x ∈ w.scene.subtree top →
    (destroyed = true ∨ ∃ q, (properties.get q).isFinite = false ∧
      ∀ a ∈ (w.scene.node x).animators, (w.scene.animator a).property ≠ q) →
    d.Films .draw w t.root r visited (faults.map (·.2)) turns ∧
    d'.Films .draw w' t.root r visited' (faults'.map (·.2)) turns' ∧
    d.AgreesOutside d' w.scene below ∧
    visited'.filter (· ∉ below) = visited.filter (· ∉ below) ∧
    faults'.filter (·.1 ∉ below) = faults.filter (·.1 ∉ below) ∧
    (Deed.findings w'.scene turns').filter (·.animator ∉ w.scene.attached below) =
      (Deed.findings w.scene turns).filter (·.animator ∉ w.scene.attached below) ∧
    ∀ n ∈ below, n ≠ x → n ∉ visited' ∧ (n ∈ t.active time → d'.world.scene.node n = d.world.scene.node n ∧
      ∀ a ∈ (w.scene.node n).animators, d'.world.scene.animator a = d.world.scene.animator a) := by
  intro t w w' p d d' now top depth below visited visited' faults faults' turns turns' ho hc htree hs hx hfails
  have hexact : p.driver.schedule.Exact := exact_moves ..
  have hsame : ∀ n, n ≠ x → w.scene.SameAt w'.scene n := fun n hn => Scene.sameAt_alter hn
  have hgraph : ∀ n, (w'.scene.node n).children = (w.scene.node n).children :=
    Scene.children_alter w.scene x properties destroyed
  have hs' : w'.scene.Separate := hs.alter
  have htree' : w'.scene.Unshared top := htree.congr hgraph
  have hdeep : w.scene.Deep depth top := htree.deep (Nat.lt_succ_self _)
  obtain ⟨way, hway⟩ := (Scene.mem_subtree htree).1 hx
  have hbelow : w.scene.Unshared x := htree.below hway
  have hself : x ∈ below := (Scene.mem_subtree hbelow).2 ⟨[], rfl⟩
  have hout : ∀ n, n ∉ below → w.scene.SameAt w'.scene n := fun n hn => hsame n fun he => hn (he ▸ hself)
  have hfilms : d.Films .draw w t.root r visited (faults.map (·.2)) turns :=
    p.draw_films react readings time ho hexact hc htree hs hdeep
  -- the two frames start alike
  have hstarted : (p.driver.startFrame (w'.setClock t.clock ((w.clock t.clock).vsync time))).2.1 =
      (p.driver.startFrame (w.setClock t.clock ((w.clock t.clock).vsync time))).2.1 := by
    simp only [Driver.startFrame, show p.driver.outlet = _ from ho]
    rfl
  have hfilms' : d'.Films .draw w' t.root r visited' (faults'.map (·.2)) turns' := by
    have h := p.draw_films react readings' time (w := w') ho hexact hc htree' hs' (hdeep.congr hgraph)
    rw [show (p.driver.startFrame (w'.setClock p.clock ((w'.clock p.clock).vsync time))).2.1 = _ from hstarted] at h
    exact h
  obtain ⟨hvisited, hfaults⟩ := Scene.reach_outside now hbelow hsame hgraph depth top
  have hturns := Scene.turns_outside now (t.active time) (fun n hn => (hout n hn).node) hvisited
  refine ⟨hfilms, hfilms', hfilms.agreesOutside hfilms' hs hs' hout hturns, hvisited, hfaults, ?_,
    fun n hn hne => ⟨?_, fun ha => ?_⟩⟩
  · have hattached : w'.scene.attached below = w.scene.attached below :=
      List.flatMap_congr fun n _ => Scene.animators_alter ..
    have hfound := Deed.findings_outside hs hfilms.once below
    have hfound' := Deed.findings_outside hs' hfilms'.once below
    rw [hattached] at hfound'
    rw [hfound, hfound', hturns]
    refine List.flatMap_congr fun e he => (Deed.effect_congr (hout e.node ?_)).2.1
    exact of_decide_eq_true (List.mem_filter.1 he).2
  · obtain ⟨path, hp⟩ := (Scene.mem_subtree hbelow).1 hn
    refine Scene.not_mem_reach_below ?_ htree' ((Scene.follow_congr hgraph way top).trans hway)
      ((Scene.follow_congr hgraph path x).trans hp) hne
    have hnode : w'.scene.node x = { w.scene.node x with properties, destroyed } :=
      (Scene.node_updateNode ..).trans (if_pos rfl)
    obtain hgone | ⟨q, hq, hdriven⟩ := hfails
    · exact .inl (by rw [hnode]; exact hgone)
    · exact .inr (Scene.onward_visit (by rw [hnode]; exact hq) (by rw [hnode]; exact hdriven) now)
  · -- an active node has its turn in both frames, whether the walk comes to it or not
    obtain ⟨_, hwalks⟩ := hfilms.survey
    obtain ⟨_, hwalks'⟩ := hfilms'.survey
    rw [hfilms.scene, hfilms'.scene]
    refine Deed.effects_congr hs hs' hfilms.once hfilms'.once (hsame n hne) fun e he => ?_
    rw [Scene.mem_turns hwalks.alive, Scene.mem_turns hwalks'.alive, Scene.upkeep_congr (he ▸ (hsame n hne).node)]
    exact and_congr_right fun _ => iff_of_true (.inl (he ▸ ha)) (.inl (he ▸ ha))

/-- A card with a leaf below it, and another card next to it whose own opacity is not a number.  The first card's
rotation becomes infinite: its leaf is no longer walked, but is active and runs all the same, and of the other card
everything is as it was, its error included. -/
theorem isolation_opening :
    let call (c : Call Unit) : Move Unit := .step (.call c)
    let fade : Animator := { property := .alpha, finalValue := 0, duration := ⟨0⟩, listener := some ⟨1⟩ }
    let turn : Animator := { property := .rotation, finalValue := 1, duration := ⟨100⟩ }
    let xs := (opening ⟨0⟩).map .step ++ [call (.addNode "leaf"), call (.addNode "other"), call (.addAnimator fade),
      call (.addAnimator turn), call (.addChild ⟨1⟩ ⟨2⟩), call (.addChild ⟨2⟩ ⟨3⟩), call (.addChild ⟨1⟩ ⟨4⟩),
      call (.setProperty ⟨4⟩ .alpha (0 / 0)), call (.attach ⟨3⟩ ⟨2⟩), call (.register ⟨0⟩ ⟨3⟩),
      call (.attach ⟨4⟩ ⟨3⟩), call (.register ⟨0⟩ ⟨4⟩)]
    let properties : Properties := { rotation := 1 / 0 }
    let t := (blank ⟨0⟩ (.deferred ⟨0⟩) ⟨0⟩ ()).moves xs
    let w := t.world
    let w' := w.mapScene fun s => s.alter ⟨2⟩ properties false
    let p : Pipeline := { root := t.root, kind := t.kind, clock := t.clock, driver := t.driver, traced := false }
    let d := p.draw (fun _ _ w => w) {} ⟨5⟩ w
    let d' := p.draw (fun _ _ w => w) {} ⟨5⟩ w'
    let now := d.outcome.frameTime
    let top := (w.root t.root).node
    (t.driver.outlet = .deferred ⟨0⟩ [] ∧ t.driver.schedule.current = [] ∧ w.scene.Unshared top ∧ w.scene.Separate ∧
      ⟨2⟩ ∈ w.scene.subtree top ∧ (properties.get .rotation).isFinite = false ∧
      ∀ a ∈ (w.scene.node ⟨2⟩).animators, (w.scene.animator a).property ≠ .rotation) ∧
    w.scene.subtree ⟨2⟩ = [⟨2⟩, ⟨3⟩] ∧ d.AgreesOutside d' w.scene (w.scene.subtree ⟨2⟩) ∧
    d'.world.scene.node ⟨3⟩ = d.world.scene.node ⟨3⟩ ∧
    w.scene.reach now 5 top = [⟨1⟩, ⟨2⟩, ⟨3⟩, ⟨4⟩] ∧ w'.scene.reach now 5 top = [⟨1⟩, ⟨2⟩, ⟨4⟩] ∧
    w.scene.faults now 5 top = [(⟨4⟩, "other: non-finite Alpha value NaN")] ∧
    w'.scene.faults now 5 top =
      [(⟨2⟩, "card: non-finite Rotation value inf"), (⟨4⟩, "other: non-finite Alpha value NaN")] := by
  intro call fade turn xs properties t w w' p d d' now top
  have ho : t.driver.outlet = .deferred ⟨0⟩ [] := by decide +kernel
  have hc : t.driver.schedule.current = [] := by decide +kernel
  have htree : w.scene.Unshared top := by decide +kernel
  have hs : w.scene.Separate := by decide +kernel
  have hx : ⟨2⟩ ∈ w.scene.subtree top := by decide +kernel
  have hq : (properties.get .rotation).isFinite = false := by decide +kernel
  have hdriven : ∀ a ∈ (w.scene.node ⟨2⟩).animators, (w.scene.animator a).property ≠ .rotation := by decide +kernel
  have hbelow : w.scene.subtree ⟨2⟩ = [⟨2⟩, ⟨3⟩] := by decide +kernel
  have hactive : ⟨3⟩ ∈ t.active ⟨5⟩ := by decide +kernel
  have h := isolation_run (fun _ _ w => w) {} {} false ⟨5⟩ ⟨0⟩ ⟨0⟩ (.deferred ⟨0⟩) ⟨0⟩ () xs ⟨2⟩ properties false
  have hreach : w.scene.reach now 5 top = [⟨1⟩, ⟨2⟩, ⟨3⟩, ⟨4⟩] := by decide +kernel
  have hreach' : w'.scene.reach now 5 top = [⟨1⟩, ⟨2⟩, ⟨4⟩] := by decide +kernel
  have hfaults : w.scene.faults now 5 top = [(⟨4⟩, "other: non-finite Alpha value NaN")] := by decide +kernel
  have hfaults' : w'.scene.faults now 5 top =
      [(⟨2⟩, "card: non-finite Rotation value inf"), (⟨4⟩, "other: non-finite Alpha value NaN")] := by decide +kernel
  simp only [t, w, w', p, d, d', now, top] at ho hc htree hs hx hdriven hbelow hactive hreach hreach' hfaults hfaults' ⊢
  obtain ⟨-, -, hagrees, -, -, -, hleaf⟩ := h ho hc htree hs hx (.inr ⟨.rotation, hq, hdriven⟩)
  have hthree := (hleaf ⟨3⟩ (by rw [hbelow]; decide) (by decide)).2 hactive
  exact ⟨⟨ho, hc, htree, hs, hx, hq, hdriven⟩, hbelow, hagrees, hthree.1, hreach, hreach', hfaults, hfaults'⟩

end Threads

end SceneAnimation
