import SceneAnimation.Proofs.Surveys
/-!
# Agreement: the walk changes the order of the work, and not its result

A frame that walks the graph and one that does not, from the same world, give the same nodes their turns, if every
node of the tree that has animators is active anyway.  Where nodes share no animator, the order of the turns does not
matter, so the two frames leave the same scene (`Threads.agreement_run`).
-/
namespace SceneAnimation

/-- **The active set of a frame** is what was registered and what was scheduled. -/
theorem Driver.mem_startFrame {κ : Type} {d : Driver} {w : World κ} {r : RootId} (ho : d.outlet = .deferred r [])
    (hx : d.schedule.Exact) (hc : d.schedule.current = []) (n : NodeId) :
    n ∈ (d.startFrame w).2.1.schedule.current ↔ n ∈ (w.root r).pending ∨ n ∈ d.schedule.next := by
  have hactive : (d.startFrame w).2.1.schedule.current =
      ((w.root r).pending.foldl Schedule.add d.schedule).current ++
        ((w.root r).pending.foldl Schedule.add d.schedule).next := by
    simp only [Driver.startFrame, ho]
    rfl
  rw [hactive, Schedule.current_foldl_add, hc, List.nil_append, hx.next_foldl_add, List.mem_append, List.mem_filter,
    List.mem_eraseDups, decide_eq_true_eq]
  tauto

namespace Scene

/-- **A walk that comes to active nodes only gives no other node a turn.** -/
theorem turns_perm {s : Scene} {now : Instant} {active visited : List NodeId}
    (hwalk : ((s.turns now active visited).map Deed.node).Nodup)
    (hnone : ((s.turns now active []).map Deed.node).Nodup) (halive : ∀ n ∈ visited, (s.node n).destroyed = false)
    (hactive : ∀ n ∈ visited, s.hasAnimators n = true → n ∈ active) :
    (s.turns now active []).Perm (s.turns now active visited) := by
  refine (List.perm_ext_iff_of_nodup (.of_map _ hnone) (.of_map _ hwalk)).2 fun d => ?_
  rw [mem_turns halive, mem_turns fun n hn => absurd hn List.not_mem_nil]
  refine and_congr_right fun _ => ⟨fun h => h.imp_right fun h => absurd h.1 List.not_mem_nil, fun h => ?_⟩
  exact .inl (h.elim id fun h => hactive d.node h.1 h.2)

end Scene

/-- **Two frames have the same result**: they leave the same nodes and animators, schedule the same nodes for the next
frame, and agree whether the animation goes on. -/
structure Drawn.Agrees {κ : Type} (d d' : Drawn κ) : Prop where
  node : ∀ n, d'.world.scene.node n = d.world.scene.node n
  animator : ∀ a, d'.world.scene.animator a = d.world.scene.animator a
  next : ∀ n, n ∈ d'.pipeline.driver.schedule.next ↔ n ∈ d.pipeline.driver.schedule.next
  animating : d'.outcome.animating = d.outcome.animating

theorem Drawn.Films.agrees {κ : Type} {d d' : Drawn κ} {w : World κ} {q r : RootId} {visited visited' : List NodeId}
    {errors errors' : List String} {turns turns' : List Deed} {kind kind' : FrameKind}
    (h : d.Films kind w q r visited errors turns) (h' : d'.Films kind' w q r visited' errors' turns')
    (hs : w.scene.Separate) (hperm : turns'.Perm turns) :
    d.Agrees d' := by
  obtain ⟨hnodes, hanimators, -⟩ := Deed.effects_perm hs h.once hperm
  rw [← h.scene, ← h'.scene] at hnodes hanimators
  have hnext : ∀ n, n ∈ d'.pipeline.driver.schedule.next ↔ n ∈ d.pipeline.driver.schedule.next := fun n => by
    rw [h.next, h'.next, List.mem_filter, List.mem_filter, (hperm.map Deed.node).mem_iff,
      Scene.hasAnimators_of_node (hnodes n)]
  refine ⟨hnodes, hanimators, hnext, ?_⟩
  rw [Bool.eq_iff_iff, h.animating, h'.animating]
  simp only [ne_eq, List.eq_nil_iff_forall_not_mem, hnext]

namespace Threads

variable {κ : Type}

/-- **A frame with a walk and a frame without one have the same result.**  A pipeline defers completions to the owner of
some root and stands at the boundary of a frame, as it does between any two tasks (`boundary_run`); the graph that it
draws is a tree, no animator is attached to two nodes, and every node of the tree that is not destroyed and has
animators is registered or scheduled.  Then the frame that walks the graph and the frame that does not, run from this
state at the clock's time, leave every node and every animator the same, schedule the same nodes for the next frame,
agree whether the animation goes on, and send the owner the same completions, though not in the same order.  Only the
frame with a walk has errors to report. -/
theorem agreement_run (react : Reaction κ) (readings readings' : Readings) (traced : Bool) (r root : RootId)
    (kind : DriverKind) (clock : ClockId) (client : κ) (xs : List (Move κ)) :
    let t := (blank root kind clock client).moves xs
    let p : Pipeline := { root := t.root, kind := t.kind, clock := t.clock, driver := t.driver, traced }
    let drawn := p.runFrame react .draw readings t.world
    let ticked := p.runFrame react .tick readings' t.world
    let top := (t.world.root t.root).node
    t.driver.outlet = .deferred r [] → t.driver.schedule.current = [] → t.scene.Unshared top → t.scene.Separate →
    (∀ n ∈ t.scene.preorder (t.scene.nodes.size + 1) top, (t.scene.node n).destroyed = false →
      t.scene.hasAnimators n = true → n ∈ (t.world.root r).pending ∨ n ∈ t.driver.schedule.next) →
    drawn.Agrees ticked ∧ ∃ errors batch batch', batch'.Perm batch ∧ t.world.Posts t.root r errors batch drawn.world ∧
      t.world.Posts t.root r [] batch' ticked.world := by
  intro t p drawn ticked top ho hc htree hs hactive
  have hx : p.driver.schedule.Exact := exact_moves ..
  obtain ⟨visited, errors, hdrawn⟩ := p.runFrame_films (w := t.world) react readings ho hx hc .draw fun _ => htree
  obtain ⟨_, _, hticked⟩ := p.runFrame_films (w := t.world) react readings' ho hx hc .tick fun h => nomatch h
  obtain ⟨walked, hwalked⟩ := hdrawn.survey
  obtain ⟨rfl, rfl⟩ := hticked.survey
  have hreach := (Scene.walks_reach hs htree (htree.deep (Nat.lt_succ_self _)) hwalked).1
  -- whatever the walk gives a turn is active, so it has a turn without the walk
  have hperm := Scene.turns_perm hdrawn.once hticked.once hwalked.alive fun n hn ha =>
    (Driver.mem_startFrame ho hx hc n).2
      (hactive n ((Scene.reach_sublist ..).subset (hreach ▸ hn)) (hwalked.alive n hn) ha)
  exact ⟨hdrawn.agrees hticked hs hperm, errors, _, _, (Deed.effects_perm hs hdrawn.once hperm).2.2, hdrawn.sent,
    hticked.sent⟩

/-- A card that was registered before the group that it lies in: the walk comes to the group first.  Both animators are
over at once, and the owner learns it in either order. -/
theorem agreement_opening :
    let call (c : Call Unit) : Move Unit := .step (.call c)
    let fade : Animator := { property := .alpha, finalValue := 0, duration := ⟨0⟩, listener := some ⟨1⟩ }
    let xs := (opening ⟨0⟩).map .step ++ [call (.addNode "group"), call (.addAnimator fade),
      call (.addChild ⟨1⟩ ⟨3⟩), call (.addChild ⟨3⟩ ⟨2⟩), call (.attach ⟨3⟩ ⟨2⟩), call (.register ⟨0⟩ ⟨3⟩)]
    let t := (blank ⟨0⟩ (.deferred ⟨0⟩) ⟨0⟩ ()).moves xs
    let p : Pipeline := { root := t.root, kind := t.kind, clock := t.clock, driver := t.driver, traced := false }
    let drawn := p.runFrame (fun _ _ w => w) .draw {} t.world
    let ticked := p.runFrame (fun _ _ w => w) .tick {} t.world
    let top := (t.world.root t.root).node
    (t.driver.outlet = .deferred ⟨0⟩ [] ∧ t.driver.schedule.current = [] ∧ t.scene.Unshared top ∧ t.scene.Separate ∧
      ∀ n ∈ t.scene.preorder (t.scene.nodes.size + 1) top, (t.scene.node n).destroyed = false →
        t.scene.hasAnimators n = true → n ∈ (t.world.root ⟨0⟩).pending ∨ n ∈ t.driver.schedule.next) ∧
    drawn.Agrees ticked ∧ (∃ errors batch batch', batch'.Perm batch ∧
      t.world.Posts t.root ⟨0⟩ errors batch drawn.world ∧ t.world.Posts t.root ⟨0⟩ [] batch' ticked.world) ∧
    drawn.world.queued ⟨0⟩ = [⟨⟨2⟩, ⟨1⟩⟩, ⟨⟨1⟩, ⟨0⟩⟩] ∧ ticked.world.queued ⟨0⟩ = [⟨⟨1⟩, ⟨0⟩⟩, ⟨⟨2⟩, ⟨1⟩⟩] := by
  intro call fade xs t p drawn ticked top
  have ho : t.driver.outlet = .deferred ⟨0⟩ [] := by decide +kernel
  have hc : t.driver.schedule.current = [] := by decide +kernel
  have htree : t.scene.Unshared top := by decide +kernel
  have hs : t.scene.Separate := by decide +kernel
  have hactive : ∀ n ∈ t.scene.preorder (t.scene.nodes.size + 1) top, (t.scene.node n).destroyed = false →
      t.scene.hasAnimators n = true → n ∈ (t.world.root ⟨0⟩).pending ∨ n ∈ t.driver.schedule.next := by
    decide +kernel
  have hdrawn : drawn.world.queued ⟨0⟩ = [⟨⟨2⟩, ⟨1⟩⟩, ⟨⟨1⟩, ⟨0⟩⟩] := by decide +kernel
  have hticked : ticked.world.queued ⟨0⟩ = [⟨⟨1⟩, ⟨0⟩⟩, ⟨⟨2⟩, ⟨1⟩⟩] := by decide +kernel
  have h := agreement_run (fun _ _ w => w) {} {} false ⟨0⟩ ⟨0⟩ (.deferred ⟨0⟩) ⟨0⟩ () xs ho hc htree hs hactive
  exact ⟨⟨ho, hc, htree, hs, hactive⟩, h.1, h.2, hdrawn, hticked⟩

end Threads

end SceneAnimation
