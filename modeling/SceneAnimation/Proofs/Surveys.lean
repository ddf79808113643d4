import SceneAnimation.Proofs.Apart
import SceneAnimation.Proofs.Boundary
import SceneAnimation.Proofs.Passes
import Mathlib.Data.List.Flatten
/-!
# Surveys: what a frame does, told from the scene at its start

Over a tree of nodes that share no animator, the walk finds each node as the frame found it.  So what it visits
(`Scene.reach`) and which errors it meets at which nodes (`Scene.faults`) can be told from the scene at the start of
the frame, and so can all that the frame does (`Frame.run_films`).
-/
namespace SceneAnimation

namespace Scene

/-- The nodes that a walk at `now` visits at and below `n`, to some depth. -/
def reach (s : Scene) (now : Instant) : (depth : Nat) → NodeId → List NodeId
  | 0, _ => []
  | depth + 1, n =>
    if (s.node n).destroyed then [] else n :: ((s.visit n now).onward n).flatMap (s.reach now depth)

/-- The errors that a walk at `now` meets at and below `n`, to some depth: each with the node that it is about. -/
def faults (s : Scene) (now : Instant) : (depth : Nat) → NodeId → List (NodeId × String)
  | 0, _ => []
  | depth + 1, n =>
    if (s.node n).destroyed then [(n, s.errorText n "prepared after destroy")]
    else ((s.visit n now).complaints n).map (n, ·) ++ ((s.visit n now).onward n).flatMap (s.faults now depth)

variable {s s' cur : Scene} {now : Instant} {n m : NodeId}

/-! ## A visit -/

theorem onward_sublist (s : Scene) (n : NodeId) : (s.onward n).Sublist (s.node n).children := by
  unfold onward
  split
  · exact List.nil_sublist _
  · exact List.Sublist.refl _

theorem onward_congr (h : s'.node n = s.node n) : s'.onward n = s.onward n := by
  rw [onward, onward, h]

theorem complaints_congr (h : s'.node n = s.node n) : s'.complaints n = s.complaints n := by
  rw [complaints, complaints, h]
  unfold errorText
  rw [h]

theorem SameAt.visit (h : s.SameAt s' n) (now : Instant) : (s'.visit n now).node n = (s.visit n now).node n := by
  have hsame : s'.hasAnimators n = s.hasAnimators n := hasAnimators_of_node h.node
  unfold Scene.visit
  rw [hsame]
  split
  · exact (Deed.effect_congr (d := .run n now) h).1
  · exact h.node

theorem Separate.visit (h : s.Separate) (n : NodeId) (now : Instant) : (s.visit n now).Separate := by
  unfold Scene.visit
  split
  · exact h.effect (.run n now)
  · exact h

theorem sameAt_visit (h : s.Separate) (hm : m ≠ n) : s.SameAt (s.visit n now) m := by
  unfold Scene.visit
  split
  · exact Deed.sameAt_effect (d := .run n now) h hm
  · exact .refl s m

/-! ## The walk -/

/-- **A walk over `ns` that can be told beforehand**: if the nodes of `below` are still as in `s`, it visits `visited`
and reports `faults`, and it leaves all other nodes alone. -/
def Foretells (s : Scene) (now : Instant) (ns below visited : List NodeId) (faults : List (NodeId × String)) : Prop :=
  ∀ cur : Scene, cur.Separate → (∀ m ∈ below, s.SameAt cur m) →
    ∃ cur', Walks now cur ns visited (faults.map (·.2)) cur' ∧ cur'.Separate ∧
      ∀ m, m ∉ below → s.SameAt cur m → s.SameAt cur' m

theorem foretells_flatMap {below visited : NodeId → List NodeId} {faults : NodeId → List (NodeId × String)} :
    ∀ {ns : List NodeId}, (∀ n ∈ ns, Foretells s now [n] (below n) (visited n) (faults n)) → (ns.flatMap below).Nodup →
    Foretells s now ns (ns.flatMap below) (ns.flatMap visited) (ns.flatMap faults)
  | [], _, _ => fun cur hcur _ => ⟨cur, .done cur, hcur, fun _ _ h => h⟩
  | n :: ns, hwalk, hnodup => fun cur hcur hsame => by
    rw [List.flatMap_cons] at hnodup hsame
    obtain ⟨-, hns, hapart⟩ := List.nodup_append.1 hnodup
    obtain ⟨cur₁, hw₁, hcur₁, hout₁⟩ := hwalk n List.mem_cons_self cur hcur fun m hm =>
      hsame m (List.mem_append.2 (.inl hm))
    obtain ⟨cur₂, hw₂, hcur₂, hout₂⟩ := foretells_flatMap (fun m hm => hwalk m (List.mem_cons_of_mem n hm)) hns cur₁
      hcur₁ fun m hm => hout₁ m (fun hb => hapart m hb m hm rfl) (hsame m (List.mem_append.2 (.inr hm)))
    refine ⟨cur₂, ?_, hcur₂, fun m hm h => ?_⟩
    · rw [List.flatMap_cons, List.flatMap_cons, List.map_append]
      exact hw₁.append hw₂
    · rw [List.flatMap_cons, List.mem_append, not_or] at hm
      exact hout₂ m hm.2 (hout₁ m hm.1 h)

/-- **The walk below a node**, by its depth. -/
theorem foretells_reach : ∀ {depth : Nat} {n : NodeId}, s.Deep depth n → (s.preorder depth n).Nodup →
    Foretells s now [n] (s.preorder depth n) (s.reach now depth n) (s.faults now depth n)
  | 0, _, hdeep, _ => absurd hdeep.pos (Nat.lt_irrefl 0)
  | depth + 1, n, hdeep, hnodup => fun cur hcur hsame => by
    obtain ⟨hbelow, hchildren⟩ := List.nodup_cons.1 hnodup
    have hn : s.SameAt cur n := hsame n List.mem_cons_self
    rw [reach, faults]
    split
    · rename_i hd
      have htext : cur.errorText n "prepared after destroy" = s.errorText n "prepared after destroy" := by
        rw [errorText, errorText, hn.node]
      refine ⟨cur, ?_, hcur, fun _ _ h => h⟩
      rw [List.map_singleton, ← htext]
      exact .destroyed (by rw [hn.node, hd]) (.done cur)
    · rename_i hd
      have hvisit : (cur.visit n now).node n = (s.visit n now).node n := hn.visit now
      -- the walk goes on to children of the node, and to some or all of them
      have honward : ((s.visit n now).onward n).Sublist (s.node n).children :=
        children_visit s n now n ▸ onward_sublist ..
      have hother : ∀ m, m ≠ n → s.SameAt cur m → s.SameAt (cur.visit n now) m := fun m hm h =>
        h.trans (sameAt_visit hcur hm)
      have hrest : (((s.visit n now).onward n).flatMap (s.preorder depth)).Sublist
          ((s.node n).children.flatMap (s.preorder depth)) := honward.flatMap _
      have hwalk := foretells_flatMap (fun c hc => by
        obtain ⟨i, hi⟩ := List.getElem?_of_mem (honward.subset hc)
        exact foretells_reach (hdeep.child hi)
          ((List.nodup_flatMap.1 hchildren).1 c (honward.subset hc))) (hchildren.sublist hrest)
      obtain ⟨cur', hw, hcur', hout⟩ := hwalk (cur.visit n now) (hcur.visit n now) fun m hm =>
        hother m (fun he => hbelow (he ▸ hrest.subset hm)) (hsame m (List.mem_cons_of_mem n (hrest.subset hm)))
      refine ⟨cur', ?_, hcur', fun m hm h => ?_⟩
      · have hpairs : (((s.visit n now).complaints n).map (n, ·)).map (·.2) = (cur.visit n now).complaints n := by
          rw [List.map_map, complaints_congr hvisit]
          exact List.map_id _
        rw [List.map_append, hpairs]
        refine .visited (by rw [hn.node]; exact Bool.not_eq_true _ ▸ hd) ?_
        rw [List.append_nil, onward_congr hvisit]
        exact hw
      · rw [preorder, List.mem_cons, not_or] at hm
        exact hout m (fun hb => hm.2 (hrest.subset hb)) (hother m hm.1 h)

theorem reach_sublist : ∀ (depth : Nat) (n : NodeId), (s.reach now depth n).Sublist (s.preorder depth n)
  | 0, _ => List.Sublist.refl _
  | depth + 1, n => by
    rw [reach, preorder]
    split
    · exact List.nil_sublist _
    · have honward : ((s.visit n now).onward n).Sublist (s.node n).children :=
        children_visit s n now n ▸ onward_sublist ..
      exact ((List.Sublist.flatMap_right _ fun c _ => reach_sublist depth c).trans (honward.flatMap _)).cons_cons n

/-- **What the walk visits and reports** below a node of a tree. -/
theorem walks_reach (hs : s.Separate) (hn : s.Unshared n) {depth : Nat} (hdeep : s.Deep depth n) {visited : List NodeId}
    {errors : List String} (hw : Walks now s [n] visited errors s') : visited = s.reach now depth n ∧
      errors = (s.faults now depth n).map (·.2) := by
  obtain ⟨_, hreach, -⟩ := foretells_reach hdeep (hn.nodup_preorder depth) s hs fun m _ => .refl s m
  obtain ⟨hv, he, -⟩ := hw.unique hreach
  exact ⟨hv, he⟩

end Scene

/-! ## The frame -/

/-- **What a frame sends**: first one report to the owner of root `q`, if there were errors, and then all completions to
the owner of root `r` in one batch, if there are any. -/
def World.Posts {κ : Type} (w : World κ) (q r : RootId) (errors : List String) (batch : List Completion)
    (w' : World κ) : Prop :=
  ∀ m, w'.mailbox m = ((w.mailbox m).sendAll
    (if m = (w.root q).owner then (Report.ofMessages? errors).toList.map .report else [])).sendAll
    (if m = (w.root r).owner then if batch = [] then [] else [.completions batch] else [])

/-- **What a frame of some kind over world `w` has done**, if its turns are `turns`: its walk of the graph of root `q`
visited `visited` and reported `errors`, and it held what it found for the owner of root `r`. -/
structure Drawn.Films {κ : Type} (d : Drawn κ) (kind : FrameKind) (w : World κ) (q r : RootId) (visited : List NodeId)
    (errors : List String) (turns : List Deed) : Prop where
  survey : w.scene.Surveys d.outcome.frameTime kind (w.root q).node visited errors
  scene : d.world.scene = Deed.effects w.scene turns
  /-- No node has its turn twice. -/
  once : (turns.map Deed.node).Nodup
  current : d.pipeline.driver.schedule.current = []
  /-- What keeps animators goes on, in the order of the turns. -/
  next : d.pipeline.driver.schedule.next = (turns.map Deed.node).filter d.world.scene.hasAnimators
  counts : d.outcome.prepared = visited.length ∧ d.outcome.errors = errors.length
  animating : d.outcome.animating = true ↔ d.pipeline.driver.schedule.next ≠ []
  sent : w.Posts q r errors (Deed.findings w.scene turns) d.world

theorem Mailbox.sendAll_ite (m : Mailbox) (P : Prop) [Decidable P] (ds : List Delivery) :
    m.sendAll (if P then ds else []) = if P then m.sendAll ds else m := by
  split <;> rfl

/-- **A frame is told by what its walk visits and reports.** -/
theorem Pipeline.runFrame_films {κ : Type} (react : Reaction κ) (readings : Readings) {p : Pipeline} {w : World κ}
    {r : RootId} (ho : p.driver.outlet = .deferred r []) (hx : p.driver.schedule.Exact)
    (hc : p.driver.schedule.current = []) (kind : FrameKind)
    (htree : kind = .draw → w.scene.Unshared (w.root p.root).node) :
    let started := (p.driver.startFrame w).2.1
    ∃ visited errors, (p.runFrame react kind readings w).Films kind w p.root r visited errors
      (w.scene.turns started.frameTime started.schedule.current visited) := by
  intro started
  let s : RenderState κ := ⟨p.driver, { frameTime := Instant.zero }, w⟩
  obtain ⟨visited, errors, s', hworks, hwalks, hl, hcurrent, hprepared, herrors, howner, hsent⟩ :=
    Works.frame (s := s) ho hx hc p.root kind htree
  -- what the library makes of the frame is what its jobs make of it
  obtain ⟨pass, hdoes, houtcome⟩ := Does.frame react p.root kind readings s
  obtain ⟨_, hlibrary⟩ := hdoes.works (by rw [show s.driver.outlet = _ from ho]; simp)
    (by cases kind <;> simp [Task.frameJobs]) (by cases kind <;> simp [Task.frameJobs])
  have hstate := (hworks.unique hlibrary).2
  let turns := w.scene.turns started.frameTime started.schedule.current visited
  let d := p.runFrame react kind readings w
  have hschedule : d.pipeline.driver.schedule = s'.driver.schedule := congrArg (·.driver.schedule) hstate.symm
  have hpass : pass.tally = s'.pass.tally := congrArg (·.pass.tally) hstate.symm
  have hscene : d.world.scene = s'.world.scene :=
    (congrArg (·.world.scene) hstate.symm).trans (Job.scene_perform .post s')
  have hworld : d.world = ((Outlet.deferred r (Deed.findings w.scene turns)).post s'.world).2.2 := by
    refine (congrArg (·.world) hstate.symm).trans ?_
    simp only [Job.perform, Driver.post, hl.outlet]
    rfl
  refine ⟨visited, errors, hwalks, hscene.trans hl.scene_eq, hl.nodup, hschedule ▸ hcurrent, ?_, ⟨?_, ?_⟩, ?_,
    fun m => ?_⟩
  · rw [hschedule, hscene]
    exact hl.next
  · exact (congrArg Outcome.prepared houtcome).symm.trans ((congrArg Tally.prepared hpass).trans hprepared)
  · exact (congrArg Outcome.errors houtcome).symm.trans ((congrArg Tally.errors hpass).trans herrors)
  · have hactive : d.outcome.animating = d.pipeline.driver.schedule.isActive := rfl
    rw [hactive, hschedule, Schedule.isActive, hcurrent]
    simp
  · rw [hworld]
    refine (Outlet.mailbox_post ..).trans ?_
    have hreported : s'.world.mailbox m = if m = (w.root p.root).owner then
        (w.mailbox m).sendAll ((Report.ofMessages? errors).toList.map .report) else w.mailbox m := hsent m
    rw [Mailbox.sendAll_ite, Mailbox.sendAll_ite, ← hreported, howner]

/-- **A frame that is drawn over a tree of nodes that share no animator** is told from the scene at its start. -/
theorem Pipeline.draw_films {κ : Type} (react : Reaction κ) (readings : Readings) (time : Instant) {p : Pipeline}
    {w : World κ} {r : RootId} (ho : p.driver.outlet = .deferred r []) (hx : p.driver.schedule.Exact)
    (hc : p.driver.schedule.current = []) (htree : w.scene.Unshared (w.root p.root).node) (hs : w.scene.Separate)
    {depth : Nat} (hdeep : w.scene.Deep depth (w.root p.root).node) :
    let started := (p.driver.startFrame (w.setClock p.clock ((w.clock p.clock).vsync time))).2.1
    let visited := w.scene.reach started.frameTime depth (w.root p.root).node
    (p.draw react readings time w).Films .draw w p.root r visited
      ((w.scene.faults started.frameTime depth (w.root p.root).node).map (·.2))
      (w.scene.turns started.frameTime started.schedule.current visited) := by
  intro started visited
  obtain ⟨_, _, h⟩ := p.runFrame_films (w := w.setClock p.clock ((w.clock p.clock).vsync time)) react readings ho hx hc
    .draw fun _ => htree
  obtain ⟨walked, hwalked⟩ := h.survey
  obtain ⟨rfl, rfl⟩ := Scene.walks_reach hs htree hdeep hwalked
  exact ⟨h.survey, h.scene, h.once, h.current, h.next, h.counts, h.animating, h.sent⟩

end SceneAnimation
