import SceneAnimation.Proofs.Passes
/-!
# Frames: what one frame does

A frame walks the graph of its root, runs what the walk did not reach, and sends the owner what it found.  Over a tree,
and with nothing in between, each node that is scheduled, or reached with animators, is run once, at the frame's time
(`Threads.frame_run`).
-/
namespace SceneAnimation

namespace Threads

variable {κ : Type}

/-- The active set of the frame that a vertical sync at `time` starts. -/
def active (t : Threads κ) (time : Instant) : List NodeId :=
  (t.driver.startFrame (t.world.setClock t.clock ((t.world.clock t.clock).vsync time))).2.1.schedule.current

/-- **The frame of a vertical sync at `time`**, drawn by `steps` with nothing in between.  Its time is `now`, and its
walk visits the nodes `visited` and reports the errors `errors`, in that order. -/
structure Draws (t : Threads κ) (time now : Instant) (steps : List (Step κ)) (visited : List NodeId)
    (errors : List String) : Prop where
  walks : ∃ walked, t.scene.Walks now [(t.world.root t.root).node] visited errors walked
  /-- The walk comes first, and then what it left of the active set. -/
  done : t.done steps = t.scene.turns now (t.active time) visited
  /-- No node has its turn twice. -/
  once : ((t.done steps).map Deed.node).Nodup
  /-- Those nodes have a turn that are active, or visited with animators, and it is a run at `now` or, of a destroyed
  node, the loss of its animators. -/
  turn : ∀ d, d ∈ t.done steps ↔ d = t.scene.upkeep now d.node ∧
    (d.node ∈ t.active time ∨ d.node ∈ visited ∧ t.scene.hasAnimators d.node = true)
  scene : (t.run steps).scene = Deed.effects t.scene (t.done steps)
  others : ∀ n, n ∉ (t.done steps).map Deed.node → (t.run steps).scene.node n = t.scene.node n
  destroyed : ∀ n ∈ t.active time, (t.scene.node n).destroyed = true →
    (t.run steps).scene.node n = { t.scene.node n with animators := [] }
  current : (t.run steps).driver.schedule.current = []
  /-- What keeps animators goes on, in the order of the turns. -/
  next : (t.run steps).driver.schedule.next =
    ((t.done steps).map Deed.node).filter (t.run steps).scene.hasAnimators
  /-- The owner gets the report, if there were errors, and then all completions in one batch, if there are any. -/
  sent : ∀ m, (t.run steps).world.mailbox m = if m = (t.world.root t.root).owner then
    ((t.world.mailbox m).sendAll ((Report.ofMessages? errors).toList.map .report)).sendAll
      (if Deed.findings t.scene (t.done steps) = [] then []
      else [.completions (Deed.findings t.scene (t.done steps))]) else t.world.mailbox m
  unposted : (t.run steps).driver.outlet = .deferred t.root []

variable {t : Threads κ} {time now : Instant} {steps : List (Step κ)} {visited : List NodeId} {walked : Scene}
  {errors : List String}

/-- **The jobs of a frame**, up to the last, which posts what the ledger says. -/
theorem works_frame (ho : t.driver.outlet = .deferred t.root []) (hx : t.driver.schedule.Exact)
    (hc : t.driver.schedule.current = []) (htree : t.scene.Unshared (t.world.root t.root).node) (time : Instant) :
    let now := (t.driver.startFrame (t.world.setClock t.clock ((t.world.clock t.clock).vsync time))).2.1.frameTime
    ∃ visited errors walked s,
      Works ((Task.draw time).jobs t.root t.kind t.clock) t.state (t.scene.turns now (t.active time) visited)
        (Job.post.perform s).2 ∧
      t.scene.Walks now [(t.world.root t.root).node] visited errors walked ∧
      Ledger now t.scene t.root (t.scene.turns now (t.active time) visited) s ∧
      s.driver.schedule.current = [] ∧ (s.world.root t.root).owner = (t.world.root t.root).owner ∧
      ∀ m, s.world.mailbox m = if m = (t.world.root t.root).owner then
        (t.world.mailbox m).sendAll ((Report.ofMessages? errors).toList.map .report) else t.world.mailbox m := by
  let s₀ := ((Job.vsync t.clock time).perform t.state).2
  obtain ⟨visited, errors, s, hworks, ⟨walked, hwalks⟩, hl, hcurrent, -, -, howner, hsent⟩ :=
    Works.frame (s := s₀) ho hx hc t.root .draw fun _ => htree
  exact ⟨visited, errors, walked, s, (Works.single (j := .vsync t.clock time) rfl).append hworks, hwalks, hl, hcurrent,
    howner t.root, hsent⟩

theorem Draws.of_ledger {s : RenderState κ} (hdone : t.done steps = t.scene.turns now (t.active time) visited)
    (hrun : (t.run steps).state = (Job.post.perform s).2)
    (hwalks : t.scene.Walks now [(t.world.root t.root).node] visited errors walked)
    (hl : Ledger now t.scene t.root (t.done steps) s) (hc : s.driver.schedule.current = [])
    (howner : (s.world.root t.root).owner = (t.world.root t.root).owner)
    (hsent : ∀ m, s.world.mailbox m = if m = (t.world.root t.root).owner then
      (t.world.mailbox m).sendAll ((Report.ofMessages? errors).toList.map .report) else t.world.mailbox m) :
    t.Draws time now steps visited errors := by
  have hpost : (t.run steps).state = { s with
      driver := { s.driver with outlet := .deferred t.root [] }
      world := ((Outlet.deferred t.root (Deed.findings t.scene (t.done steps))).post s.world).2.2 } := by
    rw [hrun]
    simp only [Job.perform, Driver.post, hl.outlet, Outlet.outlet_post]
  have hscene : (t.run steps).scene = s.world.scene := by
    rw [Threads.scene, hrun]
    exact Job.scene_perform ..
  have heffects : (t.run steps).scene = Deed.effects t.scene (t.done steps) := hscene.trans hl.scene_eq
  have hturn : ∀ d, d ∈ t.done steps ↔ d = t.scene.upkeep now d.node ∧
      (d.node ∈ t.active time ∨ d.node ∈ visited ∧ t.scene.hasAnimators d.node = true) := fun d => by
    rw [hdone]
    exact Scene.mem_turns hwalks.alive
  exact {
    walks := ⟨walked, hwalks⟩
    done := hdone
    once := hl.nodup
    turn := hturn
    scene := heffects
    others := fun n hn => heffects ▸ Deed.node_effects_of_not_mem hn
    destroyed := fun n hn hd => by
      have hgone : t.scene.upkeep now n = .discard n := if_pos hd
      have hmem : .discard n ∈ t.done steps := (hturn (.discard n)).2 ⟨hgone.symm, .inl hn⟩
      obtain ⟨s', hs', hn'⟩ := Deed.node_effects (s := t.scene) hl.nodup hmem
      rw [heffects, show n = (Deed.discard n).node from rfl, hn', ← hs']
      exact (Scene.node_updateNode ..).trans (if_pos rfl)
    current := by rw [driver, hpost]; exact hc
    next := by rw [driver, hpost, hscene]; exact hl.next
    sent := fun m => by
      rw [world, hpost]
      refine (Outlet.mailbox_post ..).trans ?_
      rw [howner, hsent]
      split <;> rfl
    unposted := by rw [driver, hpost] }

/-- **What one frame does.**  A pipeline defers completions to the owner of the root whose graph it walks, stands at the
boundary of a frame, and has a tree below its root.  In a frame drawn with nothing in between, every node that is active
after the start, or visited by the walk with animators, has one turn, and no other node has any: it is run at the time
that the frame tells, or loses its animators if it is destroyed.  The nodes that the walk visits come first, and then
the rest of the active set.  Those that keep animators are scheduled again, in this order, and the frame goes on
animating exactly if there are any.  The owner gets one report of the errors that the walk met, and after it one batch
of all that was found. -/
theorem frame_run (react : Reaction κ) (readings : Readings) (traced : Bool) (time : Instant) (root : RootId)
    (kind : DriverKind) (clock : ClockId) (client : κ) (xs : List (Move κ)) :
    let t := (blank root kind clock client).moves xs
    let d := Pipeline.draw react readings time
      { root := t.root, kind := t.kind, clock := t.clock, driver := t.driver, traced } t.world
    t.jobs = [] → t.ready = true → t.driver.schedule.current = [] → t.driver.outlet = .deferred t.root [] →
    t.scene.Unshared (t.world.root t.root).node →
    ∃ k visited errors,
      let steps := .start (.draw time) :: List.replicate k .job
      t.Draws time d.outcome.frameTime steps visited errors ∧ (t.run steps).jobs = [] ∧
      (t.run steps).driver = d.pipeline.driver ∧ (t.run steps).world = d.world ∧
      (d.outcome.animating = true ↔ (t.run steps).driver.schedule.next ≠ []) := by
  intro t d hj hr hc ho htree
  obtain ⟨visited, errors, walked, s, hworks, hwalks, hl, hcurrent, howner, hsent⟩ :=
    works_frame ho (exact_moves ..) hc htree time
  have hbegin : t.step (.start (.draw time)) = { t with jobs := (Task.draw time).jobs t.root t.kind t.clock } := by
    rw [step, begin, hj, hr]
    rfl
  obtain ⟨k, hrun, hdone⟩ := hworks.run (t.step (.start (.draw time))) (by rw [hbegin]) (by rw [hbegin])
  -- what the library makes of the task is what its jobs make of it
  let p : Pipeline := { root := t.root, kind := t.kind, clock := t.clock, driver := t.driver, traced }
  obtain ⟨pass, hdoes, -⟩ := Task.does react readings (.draw time) { name := "", pipeline := p } t.state.pass t.world
  obtain ⟨ds, hlibrary⟩ := hdoes.works (by rw [show p.driver.outlet = _ from ho]; simp)
    (by simp [Task.jobs, Task.frameJobs]) (by simp [Task.jobs, Task.frameJobs])
  have hstate := (hworks.unique hlibrary).2
  have hafter : t.run (.start (.draw time) :: List.replicate k .job) =
      { t with jobs := [], state := (Job.post.perform s).2 } := by
    rw [run_cons, hrun, hbegin]
  have hdriver : (t.run (.start (.draw time) :: List.replicate k .job)).driver = d.pipeline.driver := by
    rw [hafter, driver, hstate]
    rfl
  have hdraws : t.Draws time d.outcome.frameTime (.start (.draw time) :: List.replicate k .job) visited errors :=
    .of_ledger hdone (by rw [hafter]) hwalks (hdone.symm ▸ hl) hcurrent howner hsent
  refine ⟨k, visited, errors, hdraws, by rw [hafter], hdriver, ?_, ?_⟩
  · rw [hafter, world, hstate]
    rfl
  · have hactive : d.outcome.animating = d.pipeline.driver.schedule.isActive := rfl
    rw [hactive, ← hdriver, Schedule.isActive, hdraws.current]
    simp

/-- A card below the root, whose animator is over at once and one of whose properties is not finite, so that a leaf
below it is not walked; and a node that is destroyed.  All three are active: the walk runs the card, the leaf is run
after it, and the destroyed node loses its animator. -/
theorem frame_opening :
    let call (c : Call Unit) : Move Unit := .step (.call c)
    let fade : Animator := { property := .alpha, finalValue := 0, duration := ⟨100⟩ }
    let xs := (opening ⟨0⟩).map .step ++ [call (.addNode "leaf"), call (.addNode "gone"), call (.addAnimator fade),
      call (.addChild ⟨1⟩ ⟨2⟩), call (.addChild ⟨2⟩ ⟨3⟩), call (.setProperty ⟨2⟩ .alpha (0 / 0)),
      call (.attach ⟨3⟩ ⟨2⟩), call (.register ⟨0⟩ ⟨3⟩), call (.attach ⟨4⟩ ⟨2⟩), call (.register ⟨0⟩ ⟨4⟩),
      call (.destroyNode ⟨4⟩)]
    let t := (blank ⟨0⟩ (.deferred ⟨0⟩) ⟨0⟩ ()).moves xs
    let d := Pipeline.draw (fun _ _ w => w) {} ⟨5⟩
      { root := t.root, kind := t.kind, clock := t.clock, driver := t.driver, traced := false } t.world
    (t.jobs = [] ∧ t.ready = true ∧ t.driver.schedule.current = [] ∧ t.driver.outlet = .deferred t.root [] ∧
      t.scene.Unshared (t.world.root t.root).node) ∧
    t.active ⟨5⟩ = [⟨2⟩, ⟨3⟩, ⟨4⟩] ∧
    ∃ k,
      let steps := .start (.draw ⟨5⟩) :: List.replicate k .job
      t.Draws ⟨5⟩ d.outcome.frameTime steps [⟨1⟩, ⟨2⟩] ["card: non-finite Alpha value NaN"] ∧
      t.done steps = [.run ⟨2⟩ ⟨5⟩, .run ⟨3⟩ ⟨5⟩, .discard ⟨4⟩] ∧ (t.run steps).driver.schedule.next = [⟨3⟩] := by
  intro call fade xs t d
  have hj : t.jobs = [] := by decide +kernel
  have hr : t.ready = true := by decide +kernel
  have hc : t.driver.schedule.current = [] := by decide +kernel
  have ho : t.driver.outlet = .deferred t.root [] := by decide +kernel
  have htree : t.scene.Unshared (t.world.root t.root).node := by decide +kernel
  have hactive : t.active ⟨5⟩ = [⟨2⟩, ⟨3⟩, ⟨4⟩] := by decide +kernel
  have htime : d.outcome.frameTime = ⟨5⟩ := by decide +kernel
  have hroot : (t.world.root t.root).node = ⟨1⟩ := by decide +kernel
  have hnext : d.pipeline.driver.schedule.next = [⟨3⟩] := by decide +kernel
  let s₁ := t.scene.visit ⟨1⟩ ⟨5⟩
  let s₂ := s₁.visit ⟨2⟩ ⟨5⟩
  have hwalks : t.scene.Walks ⟨5⟩ [⟨1⟩] [⟨1⟩, ⟨2⟩] (s₁.complaints ⟨1⟩ ++ (s₂.complaints ⟨2⟩ ++ [])) s₂ := by
    refine .visited (by decide +kernel) ?_
    rw [show s₁.onward ⟨1⟩ ++ [] = [⟨2⟩] by decide +kernel]
    refine .visited (by decide +kernel) ?_
    rw [show s₂.onward ⟨2⟩ ++ [] = [] by decide +kernel]
    exact .done _
  rw [show s₁.complaints ⟨1⟩ ++ (s₂.complaints ⟨2⟩ ++ []) = ["card: non-finite Alpha value NaN"] by decide +kernel]
    at hwalks
  have h := frame_run (fun _ _ w => w) {} false ⟨5⟩ ⟨0⟩ (.deferred ⟨0⟩) ⟨0⟩ () xs
  refine ⟨⟨hj, hr, hc, ho, htree⟩, hactive, ?_⟩
  have hturns : t.scene.turns ⟨5⟩ (t.active ⟨5⟩) [⟨1⟩, ⟨2⟩] = [.run ⟨2⟩ ⟨5⟩, .run ⟨3⟩ ⟨5⟩, .discard ⟨4⟩] := by
    decide +kernel
  simp only [t, d] at hr hc ho htree htime hroot hwalks hnext hturns ⊢
  obtain ⟨k, visited, errors, hdraws, -, hdriver, -⟩ := h hj hr hc ho htree
  obtain ⟨walked, hw⟩ := hdraws.walks
  rw [htime, hroot] at hw
  obtain ⟨rfl, rfl, -⟩ := hw.unique hwalks
  refine ⟨k, hdraws, ?_, ?_⟩
  · have hdone := hdraws.done
    rw [htime] at hdone
    exact hdone.trans hturns
  · exact (congrArg (·.schedule.next) hdriver).trans hnext

end Threads

end SceneAnimation
