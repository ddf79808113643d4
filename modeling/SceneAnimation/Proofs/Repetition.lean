import SceneAnimation.Proofs.Underway
/-!
# Repetition: the same frame again

A frame brings every node that it comes to to a standstill, and schedules those that keep animators.  A second frame at
the same time, with nothing in between, comes to the same nodes in the same order, however often the graph shares them:
its walk keeps step with the first one (`RenderState.Echoes`), and what it leaves of the active set are the nodes that
the first frame scheduled after its walk.  So it changes nothing but the number of the frame, and only the report of the
errors is sent again (`Pipeline.repetition_run`).
-/
namespace SceneAnimation

/-! ## What no walk reached -/

/-- What follows a prefix is all that is not in it, if nothing occurs twice. -/
theorem Schedule.append_filter_of_prefix {ns ms : List NodeId} (h : ns <+: ms) (hnodup : ms.Nodup) :
    ns ++ ms.filter (· ∉ ns) = ms := by
  obtain ⟨rest, rfl⟩ := h
  have hnone : ns.filter (· ∉ ns) = [] := List.filter_eq_nil_iff.2 fun n hn => by simpa using hn
  have hall : rest.filter (· ∉ ns) = rest := List.filter_eq_self.2 fun n hn => by
    simpa using fun hm => (List.nodup_append.1 hnodup).2.2 n hm n hn rfl
  rw [List.filter_append, hnone, hall, List.nil_append]

namespace Driver

variable {κ : Type} {now : Instant} {q : RootId}

/-- **Nodes that stand still with animators** are scheduled again in their order, and nothing else changes. -/
theorem leftovers_still (react : Reaction κ) {scene : Scene} : ∀ (ns : List NodeId) {d : Driver} {w : World κ},
    d.frameTime = now → d.outlet = .deferred q [] → d.schedule.Listed → scene.Same w.scene →
    (∀ n ∈ ns, (scene.node n).destroyed = false ∧ scene.Still now n ∧ scene.hasAnimators n = true) →
    (d.schedule.next ++ ns).Nodup →
    let y := ns.foldl (runLeftover react) (d, w)
    y.1 = { d with schedule := { d.schedule with
      next := d.schedule.next ++ ns, scheduled := (d.schedule.next ++ ns).reverse } } ∧
    scene.Same y.2.scene
  | [], d, w, _, _, hlisted, hsame, _, _ => by
    refine ⟨?_, hsame⟩
    rw [List.foldl_nil, List.append_nil, ← hlisted.scheduled]
  | n :: ns, d, w, htime, ho, hlisted, hsame, hstill, hnodup => by
    obtain ⟨⟨halive, hn, hkeeps⟩, hns⟩ := List.forall_mem_cons.1 hstill
    obtain ⟨hnone, hran⟩ := (hsame.still hn).animate
    have hnew : n ∉ d.schedule.next := fun hm =>
      (List.nodup_append.1 hnodup).2.2 n hm n List.mem_cons_self rfl
    have hkept : (w.scene.animate n now).2.hasAnimators n = true := (hsame.trans hran).hasAnimators n ▸ hkeeps
    -- the node runs without effect, and is scheduled at the end
    have hadd : d.schedule.add n = { d.schedule with
        next := d.schedule.next ++ [n], scheduled := n :: d.schedule.scheduled } :=
      if_neg fun hm => hnew ((hlisted.exact.mem n).1 hm)
    have hstep : runLeftover react (d, w) n =
        ({ d with schedule := d.schedule.add n }, { w with scene := (w.scene.animate n now).2 }) := by
      have hlive : ¬ (w.scene.node n).destroyed = true := by
        rw [hsame.node, halive]
        exact Bool.false_ne_true
      simp only [runLeftover, if_neg hlive, runNode_deferred react ho, htime, hkept, hnone, if_true, List.append_nil,
        Driver.add]
      rw [← ho]
    have hnext : (d.schedule.add n).next = d.schedule.next ++ [n] := congrArg Schedule.next hadd
    obtain ⟨hdriver, hscene⟩ := leftovers_still react ns (d := { d with schedule := d.schedule.add n })
      (w := { w with scene := (w.scene.animate n now).2 }) ((Schedule.frameTime_add ..).trans htime) ho
      (hlisted.add n) (hsame.trans hran) hns (by rwa [hnext, List.append_assoc])
    dsimp only at hdriver ⊢
    rw [List.foldl_cons, hstep]
    refine ⟨hdriver.trans ?_, hscene⟩
    rw [hadd, List.append_assoc]
    rfl

end Driver

/-! ## The walk -/

namespace RenderState

variable {κ : Type} {react : Reaction κ} {now : Instant} {q r : RootId} {s u : RenderState κ} {n : NodeId}

/-- **A walk `u` keeps step with a walk `s`**, that of the frame before at the same time.  It finds the scene as that
frame left it, it takes the nodes that it schedules again off those that frame left it to run, and in all else that
counts it stands where the other stood. -/
structure Echoes (q : RootId) (scene : Scene) (active : List NodeId) (s u : RenderState κ) : Prop where
  scene : scene.Same u.world.scene
  pass : u.pass = s.pass
  next : u.driver.schedule.next = s.driver.schedule.next
  current : u.driver.schedule.current = active.filter (· ∉ u.driver.schedule.next)
  outlet : u.driver.outlet = .deferred q []
  root : ∀ x, u.world.root x = s.world.root x

namespace Echoes

variable {scene : Scene} {active : List NodeId}

theorem skip (h : Echoes q scene active s u) (hs : s.Walking now q r)
    (hlater : Scene.Later now s.world.scene scene) (n : NodeId) (problem : String) :
    Echoes q scene active (s.skip n problem) (u.skip n problem) := by
  obtain ⟨messages, hcollects, -⟩ := hs.collects
  have hcollects' : u.Collects r messages :=
    ⟨(congrArg Pass.sink h.pass).trans hcollects.sink,
      (congrArg Root.openPass (h.root r)).trans hcollects.openPass⟩
  have htext : u.world.scene.errorText n problem = s.world.scene.errorText n problem := by
    rw [Scene.errorText, Scene.errorText, h.scene.node, hlater.name]
  rw [skip_eq hcollects, skip_eq hcollects', htext, h.pass, h.root r]
  refine ⟨h.scene, rfl, h.next, h.current, h.outlet, fun x => ?_⟩
  rw [World.root_setRoot, World.root_setRoot, h.root x]

theorem enter (h : Echoes q scene active s u) (hs : s.Walking now q r) (hu : u.Walking now q r) (react' : Reaction κ)
    (halive : (s.world.scene.node n).destroyed = false)
    (hlater : Scene.Later now (s.enter react n).world.scene scene) :
    Echoes q scene active (s.enter react n) (u.enter react' n) ∧
      scene.node n = (s.enter react n).world.scene.node n := by
  obtain ⟨held, ho⟩ := hs.underway.outlet
  obtain ⟨-, honward, hstill⟩ := hs.enter react halive
  obtain ⟨hnode, hstill'⟩ := hlater.still n ((honward.later.destroyed n).trans halive) hstill
  -- the second walk finds the node as the first has left it
  have hagain : u.world.scene.Still now n := h.scene.still hstill'
  have hsame : scene.Same (u.world.scene.visit n now) := h.scene.trans hagain.visit
  have hkeeps : (s.world.scene.visit n now).hasAnimators n = scene.hasAnimators n := by
    rw [enter_eq react ho, hs.underway.time] at hnode
    exact (Scene.hasAnimators_of_node hnode).symm
  have hkeeps' := hsame.hasAnimators n
  have hsome := h.scene.hasAnimators n
  refine ⟨?_, hnode⟩
  rw [enter_eq react ho, enter_eq react' h.outlet, hs.underway.time, hu.underway.time, hkeeps, hkeeps', hsome, h.pass]
  refine ⟨hsame, rfl, ?_, ?_, ?_, h.root⟩
  · show (u.driver.schedule.turn ..).next = (s.driver.schedule.turn ..).next
    rw [hu.underway.listed.next_turn, hs.underway.listed.next_turn, h.next]
  · show (u.driver.schedule.turn ..).current = active.filter (· ∉ (u.driver.schedule.turn ..).next)
    rw [Schedule.current_turn, h.current]
    simp only [hu.underway.listed.mem_next_turn]
    split
    · rename_i ha
      rw [List.filter_filter]
      refine List.filter_congr fun m _ => ?_
      simp [ha, and_comm]
    · rename_i ha
      refine List.filter_congr fun m _ => ?_
      simp [ha]
  · have hnone : (if scene.hasAnimators n then (u.world.scene.animate n now).1 else []) = [] := by
      rw [hagain.animate.1, ite_self]
    show Outlet.deferred q ([] ++ _) = _
    rw [hnone]
    rfl

theorem foldl {f g : RenderState κ → NodeId → RenderState κ}
    (hf : ∀ {s : RenderState κ} (n : NodeId), s.Walking now q r → (f s n).Walking now q r ∧ Onward now r s (f s n))
    (hg : ∀ {u : RenderState κ} (n : NodeId), u.Walking now q r → (g u n).Walking now q r ∧ Onward now r u (g u n)) :
    ∀ (ns : List NodeId) {s u : RenderState κ},
    (∀ n ∈ ns, ∀ {s u : RenderState κ}, s.Walking now q r → u.Walking now q r → Echoes q scene active s u →
      Scene.Later now (f s n).world.scene scene → Echoes q scene active (f s n) (g u n)) →
    s.Walking now q r → u.Walking now q r → Echoes q scene active s u →
    Scene.Later now (ns.foldl f s).world.scene scene → Echoes q scene active (ns.foldl f s) (ns.foldl g u)
  | [], _, _, _, _, _, h, _ => h
  | n :: ns, s, u, hfg, hs, hu, h, hlater => by
    obtain ⟨hsn, -⟩ := hf n hs
    obtain ⟨hun, -⟩ := hg n hu
    obtain ⟨-, honward⟩ := Walking.foldl hf ns hsn
    exact foldl hf hg ns (fun m hm => hfg m (List.mem_cons_of_mem n hm)) hsn hun
      (hfg n List.mem_cons_self hs hu h (honward.later.trans hlater)) hlater

/-- **A walk keeps step with the one before**, if both may go down far enough. -/
theorem prepareWithin (react react' : Reaction κ) : ∀ {depth depth' : Nat} {n : NodeId} {s u : RenderState κ},
    scene.Deep depth n → scene.Deep depth' n → s.Walking now q r → u.Walking now q r → Echoes q scene active s u →
    Scene.Later now (s.prepareWithin react depth n).world.scene scene →
    Echoes q scene active (s.prepareWithin react depth n) (u.prepareWithin react' depth' n)
  | 0, _, _, _, _, hdeep, _, _, _, _, _ => absurd hdeep.pos (Nat.lt_irrefl 0)
  | _, 0, _, _, _, _, hdeep, _, _, _, _ => absurd hdeep.pos (Nat.lt_irrefl 0)
  | depth + 1, depth' + 1, n, s, u, hdeep, hdeep', hs, hu, h, hlater => by
    have hall : Scene.Later now s.world.scene scene := (hs.prepareWithin react (depth + 1) n).2.later.trans hlater
    have hsame : (u.world.scene.node n).destroyed = (s.world.scene.node n).destroyed := by
      rw [h.scene.node, hall.destroyed]
    rw [RenderState.prepareWithin] at hlater ⊢
    rw [RenderState.prepareWithin, hsame]
    by_cases hd : (s.world.scene.node n).destroyed = true
    · rw [if_pos hd, if_pos hd]
      exact h.skip hs hall n _
    · have halive : (s.world.scene.node n).destroyed = false := Bool.not_eq_true _ ▸ hd
      obtain ⟨hs', -, -⟩ := hs.enter react halive
      obtain ⟨hu', -, -⟩ := hu.enter react' (hsame.trans halive)
      rw [if_neg hd] at hlater
      rw [if_neg hd, if_neg hd]
      dsimp only at hlater ⊢
      have hbelow : ∀ (react : Reaction κ) depth {s : RenderState κ} (c : NodeId), s.Walking now q r →
          (s.prepareWithin react depth c).Walking now q r ∧ Onward now r s (s.prepareWithin react depth c) :=
        fun react depth _ c hs => hs.prepareWithin react depth c
      -- the second walk finds the node as the first one has left it, and so does what that did
      have hentered : Scene.Later now (s.enter react n).world.scene scene := by
        split at hlater
        · rename_i problem _
          exact (hs'.skip n problem).2.later.trans hlater
        · exact (Walking.foldl (fun c hs => hbelow react depth c hs) _ hs').2.later.trans hlater
      obtain ⟨henter, hnode⟩ := h.enter hs hu react' halive hentered
      have hnode' : (u.enter react' n).world.scene.node n = (s.enter react n).world.scene.node n :=
        (henter.scene.node n).trans hnode
      rw [hnode']
      cases hp : ((s.enter react n).world.scene.node n).properties.problem? with
      | some problem => exact henter.skip hs' hentered n problem
      | none =>
        rw [hp] at hlater
        refine foldl (fun c hs => hbelow react depth c hs) (fun c hu => hbelow react' depth' c hu) _ (fun c hc => ?_)
          hs' hu' henter hlater
        obtain ⟨i, hi⟩ := List.getElem?_of_mem hc
        rw [← hnode] at hi
        exact fun hs hu h hlater => prepareWithin react react' (hdeep.child hi) (hdeep'.child hi) hs hu h hlater

end Echoes

end RenderState

/-! ## The frame -/

namespace Pipeline

variable {κ : Type} {react : Reaction κ} {p : Pipeline} {w : World κ} {q : RootId} {held : List Completion}
  {time : Instant}

namespace Left

variable {react' : Reaction κ} {p' : Pipeline} {w' : World κ} {time' : Instant}

theorem outlet (h : p.Left react time w q p' w') : p'.driver.outlet = .deferred q [] :=
  congrArg (·.driver.outlet) h.pipeline

theorem root_eq (h : p.Left react time w q p' w') : p'.root = p.root := congrArg (·.root) h.pipeline

theorem schedule_eq (h : p.Left react time w q p' w') : p'.driver.schedule = (p.tidied react time w).1.schedule :=
  congrArg (·.driver.schedule) h.pipeline

variable (h : p.Left react time w q p' w') (ho : p.driver.outlet = .deferred q held)

include h ho

theorem clock (htime : time' ≤ (p.opened time w).driver.frameTime) :
    ((p'.moved .draw time' w').clock p.driver.clock).frameTime = (p.opened time w).driver.frameTime ∧
      (p.driver.clock = p.clock → ∀ c, (p'.moved .draw time' w').clock c = w'.clock c) := by
  have hclock : p'.clock = p.clock := congrArg (·.clock) h.pipeline
  have hnow : (p.opened time w).driver.frameTime = (w'.clock p.driver.clock).frameTime := by
    rw [World.clock, h.clocks]
    exact congrArg (fun began => began.1.frameTime) (started_deferred ho time w)
  have hmoved : ∀ c, (p'.moved .draw time' w').clock c =
      if c = p.clock then (w'.clock p.clock).vsync time' else w'.clock c := fun c => by
    rw [moved, World.clock_setClock, hclock]
    rfl
  rw [hnow] at htime ⊢
  by_cases hc : p.driver.clock = p.clock
  · have hsame : ∀ c, (p'.moved .draw time' w').clock c = w'.clock c := fun c => by
      rw [hmoved, Clock.vsync_of_le (hc ▸ htime)]
      split
      · subst c
        rfl
      · rfl
    exact ⟨congrArg (·.frameTime) (hsame _), fun _ => hsame⟩
  · refine ⟨?_, fun he => absurd he hc⟩
    rw [hmoved, if_neg hc]

variable (hs : w.scene.Distinct)

include hs

theorem driver_clock : p'.driver.clock = p.driver.clock := by
  obtain ⟨-, honward⟩ := walking_walked ho hs react time
  obtain ⟨-, htidies⟩ := underway_tidied ho hs react time
  have hopened : (p.opened time w).driver.clock = p.driver.clock :=
    congrArg (fun began => began.1.clock) (started_deferred ho time w)
  have hleft : p'.driver.clock = (p.tidied react time w).1.clock := congrArg (·.driver.clock) h.pipeline
  exact (hleft.trans htidies.clock).trans (honward.clock.trans hopened)

variable (htime : time' ≤ (p.opened time w).driver.frameTime)

include htime

theorem frameTime_opened :
    (p'.opened time' w').driver.frameTime = (p.opened time w).driver.frameTime := by
  have hdriver := congrArg (fun began => began.1.frameTime) (started_deferred h.outlet time' w')
  rw [← (h.clock ho htime).1, ← h.driver_clock ho hs]
  exact hdriver

/-- **The frame again begins where the frame began**, in all that counts. -/
theorem echoes_opened :
    RenderState.Echoes q w'.scene (p.tidied react time w).1.schedule.next (p.opened time w) (p'.opened time' w') := by
  obtain ⟨-, honward⟩ := walking_walked ho hs react time
  obtain ⟨-, htidies⟩ := underway_tidied ho hs react time
  have hleft : ∀ x, w'.root x = { w.root x with
      pending := if x = q then [] else (w.root x).pending
      openPass := if x = p.root then none else (w.root x).openPass } := fun x => by
    rw [h.root, honward.root, root_opened ho]
    by_cases hx : x = p.root <;> simp only [hx, if_true, if_false]
  have hdriver := congrArg Prod.fst (started_deferred h.outlet time' w')
  have hnext : (p'.opened time' w').driver.schedule.next = [] := congrArg (·.schedule.next) hdriver
  refine ⟨?_, ?_, ?_, ?_, congrArg (·.outlet) hdriver |>.trans h.outlet, fun x => ?_⟩
  · rw [scene_opened h.outlet]
    exact .refl _
  · show Pass.mk (p'.opened time' w').driver.frameTime (.root p'.root) {} = _
    rw [h.frameTime_opened ho hs htime, h.root_eq]
    rfl
  · rw [hnext]
    exact (congrArg (fun began => began.1.schedule.next) (started_deferred ho time w)).symm
  · -- nothing is registered any more, and nothing has been left over
    have hpending : (w'.root q).pending = [] := by
      rw [hleft]
      exact if_pos rfl
    have hcurrent : (p.tidied react time w).1.schedule.current = [] := htidies.current
    have hbegan := congrArg (·.schedule.current) hdriver
    dsimp only at hbegan
    rw [hpending, List.foldl_nil, h.schedule_eq] at hbegan
    refine hbegan.trans ?_
    show (p.tidied react time w).1.schedule.current ++ (p.tidied react time w).1.schedule.next = _
    rw [hcurrent, hnext]
    simp
  · rw [root_opened h.outlet, root_opened ho, hleft, h.root_eq]
    split <;> split <;> rfl

variable (hacyclic : w.scene.Acyclic (w.root p.root).node) (react' : Reaction κ)

include hacyclic

/-- **Its walk keeps step with the walk of the frame.** -/
theorem echoes_walked :
    RenderState.Echoes q w'.scene (p.tidied react time w).1.schedule.next (p.walked react time w)
      (p'.walked react' time' w') := by
  obtain ⟨-, honward⟩ := walking_walked ho hs react time
  obtain ⟨hunderway, htidies⟩ := underway_tidied ho hs react time
  have hechoes := h.echoes_opened ho hs htime
  have hagain := walking_opened h.outlet (h.scene ▸ hunderway.distinct) time'
  rw [h.frameTime_opened ho hs htime, h.root_eq] at hagain
  have htop : ((p'.opened time' w').world.root p'.root).node = ((p.opened time w).world.root p.root).node := by
    rw [hechoes.root, h.root_eq]
  have hend : Scene.Later (p.opened time w).driver.frameTime (p.walked react time w).world.scene w'.scene := by
    rw [h.scene, ← World.scene_endPass (p.walked react time w).world p.root]
    exact htidies.later
  -- the graph is what it was when the frame began, so it is as deep as it was
  have hgraph := scene_opened ho time w ▸ (honward.later.trans hend).children
  have hnode : ((p.opened time w).world.root p.root).node = (w.root p.root).node := by rw [root_opened ho]
  have hdeep : ∀ {depth}, w.scene.nodes.size < depth → w'.scene.Deep depth (w.root p.root).node := fun hd =>
    (hacyclic.deep hd).congr hgraph
  have hreserve : ∀ size, size < RenderState.walkReserve + size := fun size => Nat.lt_add_of_pos_left (by decide)
  rw [walked, walked, htop, hnode]
  refine hechoes.prepareWithin react react' (hdeep ?_) ((hdeep (hreserve _)).acyclic.deep ?_)
    (walking_opened ho hs time) hagain (hnode ▸ hend)
  · rw [scene_opened ho]
    exact hreserve _
  · rw [scene_opened h.outlet]
    exact hreserve _

/-- **What it leaves of its driver** is the driver that it found, one frame on, and the scene is as it found it. -/
theorem tidied_again :
    (p'.tidied react' time' w').1 = { p'.driver with schedule := { p'.driver.schedule with
      frameIndex := p'.driver.schedule.frameIndex + 1 } } ∧
    w'.scene.Same (p'.tidied react' time' w').2.scene := by
  let u := (p'.walked react' time' w')
  obtain ⟨hunderway, htidies⟩ := underway_tidied ho hs react time
  have hschedule := h.schedule_eq
  have hnow := h.frameTime_opened ho hs htime
  have hechoes := h.echoes_walked ho hs htime hacyclic react'
  obtain ⟨hwalking, honward⟩ := walking_walked h.outlet (h.scene ▸ hunderway.distinct) react' time'
  rw [hnow] at hwalking
  rw [← hschedule] at hechoes
  have hlisted : p'.driver.schedule.Listed := hschedule ▸ hunderway.listed
  have hprefix : u.driver.schedule.next <+: p'.driver.schedule.next := by
    rw [hechoes.next, hschedule]
    exact htidies.next
  have hwhole := Schedule.append_filter_of_prefix hprefix hlisted.nodup
  rw [← hechoes.current] at hwhole
  -- the nodes that the walk leaves to run stand still since the frame, and keep animators
  obtain ⟨hdriver, hscene⟩ := Driver.leftovers_still react' u.driver.schedule.current
    (d := { u.driver with schedule := u.driver.schedule.takeCurrent.2 }) (w := u.world.endPass p'.root)
    hwalking.underway.time hechoes.outlet ⟨hwalking.underway.listed.scheduled, hwalking.underway.listed.nodup⟩
    (World.scene_endPass u.world p'.root ▸ hechoes.scene)
    (fun n hn => h.scene ▸ hunderway.upheld n (hschedule ▸ hwhole ▸ List.mem_append_right _ hn))
    (hwhole ▸ hlisted.nodup)
  refine ⟨hdriver.trans ?_, hscene⟩
  -- so the driver differs in the number of the frame only
  have hclock : u.driver.clock = p'.driver.clock := honward.clock.trans
    (congrArg (fun began => began.1.clock) (started_deferred h.outlet time' w'))
  have hindex : u.driver.schedule.frameIndex = p'.driver.schedule.frameIndex + 1 :=
    honward.frameIndex.trans (Driver.frame_startFrame p'.driver (p'.moved .draw time' w')).2
  have hcurrent : p'.driver.schedule.current = [] := hschedule ▸ htidies.current
  have htime : u.driver.schedule.frameTime = p'.driver.schedule.frameTime :=
    hwalking.underway.time.trans (hunderway.time.symm.trans (congrArg Schedule.frameTime hschedule.symm))
  show Driver.mk u.driver.clock ⟨u.driver.schedule.frameTime, u.driver.schedule.frameIndex, [],
      u.driver.schedule.next ++ u.driver.schedule.current,
      (u.driver.schedule.next ++ u.driver.schedule.current).reverse⟩ u.driver.outlet =
    Driver.mk p'.driver.clock ⟨p'.driver.schedule.frameTime, p'.driver.schedule.frameIndex + 1,
      p'.driver.schedule.current, p'.driver.schedule.next, p'.driver.schedule.scheduled⟩ p'.driver.outlet
  rw [hclock, hindex, htime, hwhole, hcurrent, hlisted.scheduled, hechoes.outlet, h.outlet]

/-- **The frame again changes nothing** but the number of the frame, and sends the same errors and no completion. -/
theorem again (readings' : Readings) {messages : List String}
    (hmessages : ((p.walked react time w).world.root p.root).openPass = some messages) :
    let d := p'.draw react' readings' time' w'
    w'.scene.Same d.world.scene ∧
    d.pipeline = { p' with driver := { p'.driver with schedule := { p'.driver.schedule with
      frameIndex := p'.driver.schedule.frameIndex + 1 } } } ∧
    d.outcome = {
      frameIndex := (p.opened time w).driver.frameIndex + 1
      frameTime := (p.opened time w).driver.frameTime
      prepared := (p.walked react time w).pass.tally.prepared
      errors := (p.walked react time w).pass.tally.errors
      animating := p'.driver.isActive } ∧
    (∀ x, d.world.root x = w'.root x) ∧ (p.driver.clock = p.clock → ∀ c, d.world.clock c = w'.clock c) ∧
    w'.Posts p.root q messages [] d.world := by
  intro d
  obtain ⟨hunderway, htidies⟩ := underway_tidied ho hs react time
  have hechoes := h.echoes_walked ho hs htime hacyclic react'
  obtain ⟨hdriver, hscene⟩ := h.tidied_again ho hs htime hacyclic react'
  obtain ⟨hleft, messages', batch, hmessages', -, hbatch, hposts⟩ :=
    left_draw h.outlet (h.scene ▸ hunderway.distinct) react' readings' time'
  -- the same errors, and no completion
  rw [hechoes.root, h.root_eq, hmessages] at hmessages'
  cases hmessages'
  rw [hdriver] at hbatch
  obtain ⟨-, rfl⟩ := Outlet.deferred.inj (hbatch.symm.trans h.outlet)
  have hpipeline : d.pipeline = { p' with driver := { p'.driver with schedule := { p'.driver.schedule with
      frameIndex := p'.driver.schedule.frameIndex + 1 } } } := by
    rw [show d.pipeline = _ from hleft.pipeline, hdriver, ← h.outlet]
  have hactive : d.pipeline.driver.isActive = p'.driver.isActive := by
    rw [hpipeline]
    rfl
  have hindex : p'.driver.frameIndex = (p.opened time w).driver.frameIndex :=
    (congrArg (·.driver.frameIndex) h.pipeline).trans
      (htidies.frameIndex.trans (walking_walked ho hs react time).2.frameIndex)
  have hnext : (p'.opened time' w').driver.frameIndex = (p.opened time w).driver.frameIndex + 1 :=
    hindex ▸ (Driver.frame_startFrame p'.driver (p'.moved .draw time' w')).2
  have hscene' : d.world.scene = _ := hleft.scene
  have hclocks' : d.world.clocks = _ := hleft.clocks
  refine ⟨hscene' ▸ hscene, hpipeline, ?_, fun x => ?_, fun hc c => ?_, h.root_eq ▸ hposts⟩
  · rw [show d.outcome = _ from (draw_eq react' readings' p' time' w').2.2, hnext, hechoes.pass,
      h.frameTime_opened ho hs htime,
      show (p'.draw react' readings' time' w').pipeline.driver.isActive = _ from hactive]
  · rw [show d.world.root x = _ from hleft.root x, h.root, hechoes.root, h.root_eq]
  · rw [← (h.clock ho htime).2 hc, World.clock, World.clock, hclocks']

end Left

/-- **Repeating a frame at the same time is harmless.**  Let a pipeline that defers completions draw a frame over a
graph without cycles, in which the animators of each node drive different properties.  If it draws another one at a
vertical sync that is not later than the time of the first, and nothing happens in between, then no node, no animator
and no root changes; the driver has counted one frame more, and is otherwise as it was; the answer differs in that
number only.  The errors of the first frame are sent again, and no batch. -/
theorem repetition_run (react react' : Reaction κ) (readings readings' : Readings) {p : Pipeline} {w : World κ}
    {q : RootId} {held : List Completion} (ho : p.driver.outlet = .deferred q held)
    (hacyclic : w.scene.Acyclic (w.root p.root).node) (hdistinct : w.scene.Distinct) (time time' : Instant) :
    let d := p.draw react readings time w
    let d' := d.pipeline.draw react' readings' time' d.world
    time' ≤ d.outcome.frameTime →
    d.world.scene.Same d'.world.scene ∧
    d'.pipeline = { d.pipeline with driver := { d.pipeline.driver with schedule := { d.pipeline.driver.schedule with
      frameIndex := d.pipeline.driver.schedule.frameIndex + 1 } } } ∧
    d'.outcome = { d.outcome with frameIndex := d.outcome.frameIndex + 1 } ∧
    (∀ x, d'.world.root x = d.world.root x) ∧
    (p.driver.clock = p.clock → ∀ c, d'.world.clock c = d.world.clock c) ∧
    ∃ errors batch, d.outcome.errors = errors.length ∧ w.Posts p.root q errors batch d.world ∧
      d.world.Posts p.root q errors [] d'.world := by
  intro d d' htime
  obtain ⟨hleft, messages, batch, hmessages, herrors, -, hposts⟩ := left_draw ho hdistinct react readings time
  have h : p.Left react time w q d.pipeline d.world := hleft
  have hagain := h.again ho hdistinct htime hacyclic react' readings' hmessages
  obtain ⟨hscene, hpipeline, houtcome, hroot, hclock, hsent⟩ := hagain
  have hcounted : d'.outcome = { d.outcome with frameIndex := d.outcome.frameIndex + 1 } := houtcome
  exact ⟨hscene, hpipeline, hcounted, hroot, hclock, messages, batch, herrors, hposts, hsent⟩

/-- A leaf shared by two cards has turned without end: the walk reports it on both paths, in both frames, and the owner
learns once that its animator is over.  A card that fades, and a node that no walk reaches, go on as before. -/
theorem repetition_opening :
    let turn : Animator := { property := .rotation, finalValue := 1 / 0, duration := ⟨0⟩, listener := some ⟨0⟩ }
    let fade : Animator := { property := .alpha, finalValue := 0, duration := ⟨100⟩ }
    let w : World Unit := World.calls { client := () } [.openMailbox, .addRoot ⟨0⟩, .addClock ⟨16000000⟩,
      .addNode "left", .addNode "right", .addNode "leaf", .addNode "aside", .addChild ⟨1⟩ ⟨2⟩, .addChild ⟨1⟩ ⟨3⟩,
      .addChild ⟨2⟩ ⟨4⟩, .addChild ⟨3⟩ ⟨4⟩, .addAnimator turn, .attach ⟨4⟩ ⟨1⟩, .addAnimator fade, .attach ⟨2⟩ ⟨2⟩,
      .addAnimator fade, .attach ⟨5⟩ ⟨3⟩, .register ⟨0⟩ ⟨5⟩]
    let p := Pipeline.new ⟨0⟩ (.deferred ⟨0⟩) ⟨0⟩
    let d := p.draw (fun _ _ w => w) {} ⟨5⟩ w
    let d' := d.pipeline.draw (fun _ _ w => w) {} ⟨3⟩ d.world
    let report : Delivery := .report
      ⟨["leaf: non-finite Rotation value inf", "leaf: non-finite Rotation value inf"], List.cons_ne_nil _ _⟩
    (p.driver.outlet = .deferred ⟨0⟩ [] ∧ w.scene.Acyclic (w.root p.root).node ∧ w.scene.Distinct ∧
      (⟨3⟩ : Instant) ≤ d.outcome.frameTime) ∧
    d.world.scene.Same d'.world.scene ∧ d'.pipeline.driver.schedule.next = [⟨2⟩, ⟨5⟩] ∧
    d.outcome = ⟨1, ⟨5⟩, 5, 2, true⟩ ∧ d'.outcome = ⟨2, ⟨5⟩, 5, 2, true⟩ ∧
    d.world.mailbox ⟨0⟩ = .accepting [report, .completions [⟨⟨1⟩, ⟨0⟩⟩]] ∧
    d'.world.mailbox ⟨0⟩ = .accepting [report, .completions [⟨⟨1⟩, ⟨0⟩⟩], report] := by
  intro turn fade w p d d' report
  have ho : p.driver.outlet = .deferred ⟨0⟩ [] := rfl
  have hacyclic : w.scene.Acyclic (w.root p.root).node := by decide +kernel
  have hdistinct : w.scene.Distinct := by decide +kernel
  have htime : (⟨3⟩ : Instant) ≤ d.outcome.frameTime := by decide +kernel
  have hfirst : d.outcome = ⟨1, ⟨5⟩, 5, 2, true⟩ := by decide +kernel
  have hnext : d.pipeline.driver.schedule.next = [⟨2⟩, ⟨5⟩] := by decide +kernel
  have hmail : d.world.mailbox ⟨0⟩ = .accepting [report, .completions [⟨⟨1⟩, ⟨0⟩⟩]] := by decide +kernel
  have hmail' : d'.world.mailbox ⟨0⟩ = .accepting [report, .completions [⟨⟨1⟩, ⟨0⟩⟩], report] := by decide +kernel
  have hagain := repetition_run (fun _ _ w => w) (fun _ _ w => w) {} {} ho hacyclic hdistinct ⟨5⟩ ⟨3⟩
    (by unfold d at htime; exact htime)
  have hscene := hagain.1
  have hpipeline : d'.pipeline = _ := hagain.2.1
  have houtcome : d'.outcome = _ := hagain.2.2.1
  refine ⟨⟨ho, hacyclic, hdistinct, htime⟩, ?_, ?_, hfirst, ?_, hmail, hmail'⟩
  · unfold d' d
    exact hscene
  · unfold d at hnext
    rw [hpipeline]
    dsimp only
    exact hnext
  · rw [houtcome, show (p.draw (fun _ _ w => w) {} ⟨5⟩ w).outcome = _ from hfirst]

end Pipeline

end SceneAnimation
