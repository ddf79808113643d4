import SceneAnimation.Proofs.Standstill
import SceneAnimation.Proofs.Surveys
import SceneAnimation.Proofs.Teardown
/-!
# Underway: a frame that defers completions

Nothing but the frame itself works on the scene while completions are held.  Where the animators of a node drive
different properties, each node that the frame comes to is brought to a standstill, on the walk or behind it, and stands
still until the frame ends, however often the graph shares it (`RenderState.Walking`, `Driver.Underway`).  What keeps
animators is scheduled again, once and in this order.  So the frame leaves a scene in which all that runs next stands
still (`Pipeline.left_draw`).
-/
namespace SceneAnimation

namespace Schedule

variable {s : Schedule}

/-- **Since the frame began**, each node was scheduled once, and noted in turn. -/
structure Listed (s : Schedule) : Prop where
  scheduled : s.scheduled = s.next.reverse
  nodup : s.next.Nodup

theorem Listed.exact (h : s.Listed) : s.Exact where
  mem n := by rw [h.scheduled, List.mem_reverse]
  nodup := h.nodup

theorem Listed.add (h : s.Listed) (n : NodeId) : (s.add n).Listed where
  scheduled := by
    unfold Schedule.add
    split
    · exact h.scheduled
    · rw [h.scheduled, List.reverse_append]
      rfl
  nodup := (h.exact.add n).nodup

/-- The schedule after the turn of node `n`: the node is taken off those that have still to run, if a walk found it with
animators, and scheduled again, if it keeps some. -/
def turn (s : Schedule) (n : NodeId) (found keeps : Bool) : Schedule :=
  let s := if found then s.visit n else s
  if keeps then s.add n else s

theorem frame_turn (s : Schedule) (n : NodeId) (found keeps : Bool) :
    (s.turn n found keeps).frameTime = s.frameTime ∧ (s.turn n found keeps).frameIndex = s.frameIndex := by
  cases keeps with
  | true => cases found <;> exact frame_add ..
  | false => cases found <;> exact ⟨rfl, rfl⟩

theorem current_turn (s : Schedule) (n : NodeId) (found keeps : Bool) :
    (s.turn n found keeps).current = if found then s.current.filter (· ≠ n) else s.current := by
  cases keeps with
  | true => cases found <;> exact current_add ..
  | false => cases found <;> rfl

namespace Listed

variable {n : NodeId} {found keeps : Bool}

theorem visit (h : s.Listed) (n : NodeId) : (s.visit n).Listed := ⟨h.scheduled, h.nodup⟩

theorem turn (h : s.Listed) (n : NodeId) (found keeps : Bool) : (s.turn n found keeps).Listed := by
  cases keeps with
  | true =>
    cases found with
    | true => exact (h.visit n).add n
    | false => exact h.add n
  | false =>
    cases found with
    | true => exact h.visit n
    | false => exact h

theorem next_turn (h : s.Listed) : (s.turn n found keeps).next =
    if keeps ∧ n ∉ s.next then s.next ++ [n] else s.next := by
  cases keeps with
  | true =>
    have hadd : ∀ t : Schedule, t.Listed → t.next = s.next →
        (t.add n).next = if n ∉ s.next then s.next ++ [n] else s.next := fun t ht hnext => by
      rw [ht.exact.next_add, hnext, ite_not]
    simp only [true_and]
    cases found with
    | true => exact hadd _ (h.visit n) rfl
    | false => exact hadd _ h rfl
  | false => cases found <;> exact (if_neg fun hk => Bool.noConfusion hk.1).symm

theorem mem_next_turn (h : s.Listed) {m : NodeId} :
    m ∈ (s.turn n found keeps).next ↔ m ∈ s.next ∨ keeps = true ∧ m = n := by
  rw [h.next_turn]
  split
  · rename_i hk
    rw [List.mem_append, List.mem_singleton, and_iff_right hk.1]
  · rename_i hk
    refine (or_iff_left_of_imp ?_).symm
    rintro ⟨hkeeps, rfl⟩
    exact Classical.byContradiction fun hm => hk ⟨hkeeps, hm⟩

theorem next_prefix_turn (h : s.Listed) : s.next <+: (s.turn n found keeps).next := by
  rw [h.next_turn]
  split
  · exact List.prefix_append ..
  · exact List.prefix_rfl

end Listed

end Schedule

/-! ## What a driver does in a frame -/

namespace Driver

variable {κ : Type} {now : Instant} {q : RootId} {d : Driver} {w : World κ} {n : NodeId}

/-- **A driver in a frame at `now`**, which defers completions: each node that it has scheduled again stands still, and
keeps animators. -/
structure Underway (now : Instant) (q : RootId) (d : Driver) (w : World κ) : Prop where
  time : d.frameTime = now
  outlet : ∃ held, d.outlet = .deferred q held
  listed : d.schedule.Listed
  distinct : w.scene.Distinct
  upheld : ∀ m ∈ d.schedule.next, (w.scene.node m).destroyed = false ∧ w.scene.Still now m ∧
    w.scene.hasAnimators m = true

theorem runNode_deferred (react : Reaction κ) {held : List Completion} (ho : d.outlet = .deferred q held) (n : NodeId)
    (w : World κ) : d.runNode react n w = ((w.scene.animate n d.frameTime).2.hasAnimators n,
      { d with outlet := .deferred q (held ++ (w.scene.animate n d.frameTime).1) },
      { w with scene := (w.scene.animate n d.frameTime).2 }) := by
  simp only [runNode, report, ho]
  rfl

namespace Underway

theorem upheld_later (h : d.Underway now q w) {scene : Scene} (hlater : Scene.Later now w.scene scene) {m : NodeId}
    (hm : m ∈ d.schedule.next) :
    (scene.node m).destroyed = false ∧ scene.Still now m ∧ scene.hasAnimators m = true := by
  obtain ⟨halive, hstill, hkeeps⟩ := h.upheld m hm
  obtain ⟨hnode, hstill'⟩ := hlater.still m halive hstill
  exact ⟨(hlater.destroyed m).trans halive, hstill', (Scene.hasAnimators_of_node hnode).trans hkeeps⟩

/-- **A node that has been brought to a standstill** is scheduled if it keeps animators. -/
theorem keep (h : d.Underway now q w) {scene : Scene} (hlater : Scene.Later now w.scene scene)
    (halive : (w.scene.node n).destroyed = false) (hstill : scene.Still now n) (found : Bool)
    (held : List Completion) :
    Underway now q { d with
      schedule := d.schedule.turn n found (scene.hasAnimators n)
      outlet := .deferred q held } { w with scene } where
  time := (d.schedule.frame_turn ..).1.trans h.time
  outlet := ⟨held, rfl⟩
  listed := h.listed.turn ..
  distinct := hlater.distinct h.distinct
  upheld m hm := by
    rcases h.listed.mem_next_turn.1 hm with hm | ⟨hkeeps, rfl⟩
    · exact h.upheld_later hlater hm
    · exact ⟨(hlater.destroyed m).trans halive, hstill, hkeeps⟩

end Underway

/-! ## What no walk reached -/

/-- **What running nodes that no walk reached has changed.** -/
structure Tidies (now : Instant) (x y : Driver × World κ) : Prop where
  later : Scene.Later now x.2.scene y.2.scene
  world : y.2 = { x.2 with scene := y.2.scene }
  next : x.1.schedule.next <+: y.1.schedule.next
  current : y.1.schedule.current = x.1.schedule.current
  clock : y.1.clock = x.1.clock
  frameIndex : y.1.frameIndex = x.1.frameIndex

theorem Tidies.refl (now : Instant) (x : Driver × World κ) : Tidies now x x :=
  ⟨.refl now _, rfl, List.prefix_rfl, rfl, rfl, rfl⟩

theorem Tidies.trans {x y z : Driver × World κ} (h : Tidies now x y) (h' : Tidies now y z) : Tidies now x z where
  later := h.later.trans h'.later
  world := by rw [h'.world, h.world]
  next := h.next.trans h'.next
  current := h'.current.trans h.current
  clock := h'.clock.trans h.clock
  frameIndex := h'.frameIndex.trans h.frameIndex

theorem Underway.leftover (h : d.Underway now q w) (react : Reaction κ) (n : NodeId) :
    let y := runLeftover react (d, w) n
    y.1.Underway now q y.2 ∧ Tidies now (d, w) y := by
  obtain ⟨held, ho⟩ := h.outlet
  dsimp only
  unfold runLeftover
  dsimp only
  by_cases hd : (w.scene.node n).destroyed = true
  · rw [if_pos hd]
    have hlater := Scene.later_discard hd now
    exact ⟨⟨h.time, h.outlet, h.listed, hlater.distinct h.distinct, fun m hm => h.upheld_later hlater hm⟩,
      hlater, rfl, List.prefix_rfl, rfl, rfl, rfl⟩
  · have hlater := w.scene.later_animate n now
    have hkeep := h.keep hlater (Bool.not_eq_true _ ▸ hd) (h.distinct.still_animate n now) false
      (held ++ (w.scene.animate n now).1)
    rw [if_neg hd, runNode_deferred react ho, h.time]
    have hturn : (if (w.scene.animate n now).2.hasAnimators n then
          ({ d with outlet := .deferred q (held ++ (w.scene.animate n now).1) } : Driver).add n
        else { d with outlet := .deferred q (held ++ (w.scene.animate n now).1) }) =
        { d with
          schedule := d.schedule.turn n false ((w.scene.animate n now).2.hasAnimators n)
          outlet := .deferred q (held ++ (w.scene.animate n now).1) } := by
      cases (w.scene.animate n now).2.hasAnimators n <;> rfl
    dsimp only
    rw [hturn]
    exact ⟨hkeep, hlater, rfl, h.listed.next_prefix_turn, d.schedule.current_turn .., rfl,
      (d.schedule.frame_turn ..).2⟩

theorem Underway.leftovers (react : Reaction κ) : ∀ (ns : List NodeId) {d : Driver} {w : World κ},
    d.Underway now q w →
    let y := ns.foldl (runLeftover react) (d, w)
    y.1.Underway now q y.2 ∧ Tidies now (d, w) y
  | [], d, w, h => ⟨h, .refl now (d, w)⟩
  | n :: ns, d, w, h => by
    obtain ⟨hn, htidies⟩ := h.leftover react n
    obtain ⟨hns, htidies'⟩ := leftovers react ns hn
    exact ⟨hns, htidies.trans htidies'⟩

end Driver

/-! ## The walk -/

namespace RenderState

variable {κ : Type} {now : Instant} {q r : RootId} {s s' s'' : RenderState κ} {messages : List String}

/-- **A walk in a frame at `now`**, whose errors root `r` collects. -/
structure Walking (now : Instant) (q r : RootId) (s : RenderState κ) : Prop where
  underway : s.driver.Underway now q s.world
  collects : ∃ messages, s.Collects r messages ∧ s.pass.tally.errors = messages.length

/-- **What a walk has changed**: of the world, the scene and what root `r` has collected. -/
structure Onward (now : Instant) (r : RootId) (s s' : RenderState κ) : Prop where
  later : Scene.Later now s.world.scene s'.world.scene
  world : s'.world = { s.world with scene := s'.world.scene, roots := s'.world.roots }
  root : ∀ x, s'.world.root x =
    { s.world.root x with openPass := if x = r then (s'.world.root r).openPass else (s.world.root x).openPass }
  clock : s'.driver.clock = s.driver.clock
  frameIndex : s'.driver.frameIndex = s.driver.frameIndex

theorem Onward.refl (now : Instant) (r : RootId) (s : RenderState κ) : Onward now r s s where
  later := .refl now _
  world := rfl
  root x := by
    split
    · subst x
      rfl
    · rfl
  clock := rfl
  frameIndex := rfl

theorem Onward.trans (h : Onward now r s s') (h' : Onward now r s' s'') : Onward now r s s'' where
  later := h.later.trans h'.later
  world := by rw [h'.world, h.world]
  root x := by
    rw [h'.root x]
    split
    · rw [h.root x]
    · rename_i hx
      rw [h.root x, if_neg hx]
  clock := h'.clock.trans h.clock
  frameIndex := h'.frameIndex.trans h.frameIndex

/-- An error that a root collects. -/
theorem skip_eq (h : s.Collects r messages) (n : NodeId) (problem : String) : s.skip n problem = { s with
    pass := { s.pass with tally := { s.pass.tally with
      errors := s.pass.tally.errors + 1, skipped := s.pass.tally.skipped + 1 } }
    world := s.world.setRoot r { s.world.root r with
      openPass := some (messages ++ [s.world.scene.errorText n problem]) } } := by
  simp only [skip, reportError, h.sink, World.reportError, h.openPass]
  rfl

/-- A node that is not destroyed, and a driver that defers what its animators complete. -/
theorem enter_eq (react : Reaction κ) {held : List Completion} (ho : s.driver.outlet = .deferred q held) (n : NodeId) :
    let scene := s.world.scene.visit n s.driver.frameTime
    s.enter react n = {
      driver := { s.driver with
        schedule := s.driver.schedule.turn n (s.world.scene.hasAnimators n) (scene.hasAnimators n)
        outlet := .deferred q (held ++
          if s.world.scene.hasAnimators n then (s.world.scene.animate n s.driver.frameTime).1 else []) }
      pass := { s.pass with tally := { s.pass.tally with
        prepared := s.pass.tally.prepared + 1
        animating := s.pass.tally.animating || scene.hasAnimators n } }
      world := { s.world with scene } } := by
  intro scene
  unfold enter
  dsimp only
  cases hsome : s.world.scene.hasAnimators n with
  | true =>
    have hvisit : scene = (s.world.scene.animate n s.driver.frameTime).2 := if_pos hsome
    have hvisited : ({ s.driver with schedule := s.driver.schedule.visit n } : Driver).outlet = .deferred q held := ho
    have htime : ({ s.driver with schedule := s.driver.schedule.visit n } : Driver).frameTime =
      s.driver.frameTime := rfl
    simp only [if_true, animateNode, Driver.runNode_deferred react hvisited, hvisit, htime]
    cases (s.world.scene.animate n s.driver.frameTime).2.hasAnimators n with
    | true =>
      rw [Bool.or_true]
      rfl
    | false =>
      rw [Bool.or_false]
      rfl
  | false =>
    have hvisit : scene = s.world.scene := if_neg (by rw [hsome]; exact Bool.false_ne_true)
    simp only [hvisit, hsome, Bool.false_eq_true, if_false, List.append_nil, Bool.or_false, ← ho]
    rfl

namespace Walking

theorem skip (h : s.Walking now q r) (n : NodeId) (problem : String) :
    (s.skip n problem).Walking now q r ∧ Onward now r s (s.skip n problem) := by
  obtain ⟨messages, hcollects, herrors⟩ := h.collects
  rw [skip_eq hcollects]
  refine ⟨⟨⟨h.underway.time, h.underway.outlet, h.underway.listed, h.underway.distinct, h.underway.upheld⟩,
    messages ++ [s.world.scene.errorText n problem], ⟨hcollects.sink, ?_⟩, ?_⟩, .refl now _, rfl, fun x => ?_, rfl, rfl⟩
  · rw [World.root_setRoot, if_pos rfl]
  · rw [List.length_append, ← herrors]
    rfl
  · rw [World.root_setRoot, World.root_setRoot, if_pos rfl]
    split
    · subst x
      rfl
    · rfl

/-- **A node that is entered stands still.** -/
theorem enter (h : s.Walking now q r) (react : Reaction κ) (halive : (s.world.scene.node n).destroyed = false) :
    (s.enter react n).Walking now q r ∧ Onward now r s (s.enter react n) ∧
      (s.enter react n).world.scene.Still now n := by
  obtain ⟨held, ho⟩ := h.underway.outlet
  obtain ⟨messages, hcollects, herrors⟩ := h.collects
  have hlater := s.world.scene.later_visit n now
  have hstill := h.underway.distinct.still_visit n now
  have hkeep := h.underway.keep hlater halive hstill (s.world.scene.hasAnimators n)
    (held ++ if s.world.scene.hasAnimators n then (s.world.scene.animate n now).1 else [])
  rw [enter_eq react ho, h.underway.time]
  exact ⟨⟨hkeep, messages, ⟨hcollects.sink, hcollects.openPass⟩, herrors⟩,
    ⟨hlater, rfl, (Onward.refl now r s).root, rfl, (s.driver.schedule.frame_turn ..).2⟩, hstill⟩

theorem foldl {f : RenderState κ → NodeId → RenderState κ}
    (hf : ∀ {s : RenderState κ} (n : NodeId), s.Walking now q r → (f s n).Walking now q r ∧ Onward now r s (f s n)) :
    ∀ (ns : List NodeId) {s : RenderState κ}, s.Walking now q r →
      (ns.foldl f s).Walking now q r ∧ Onward now r s (ns.foldl f s)
  | [], s, h => ⟨h, .refl now r s⟩
  | n :: ns, s, h => by
    obtain ⟨hn, honward⟩ := hf n h
    obtain ⟨hns, honward'⟩ := foldl hf ns hn
    exact ⟨hns, honward.trans honward'⟩

theorem prepareWithin (react : Reaction κ) : ∀ (depth : Nat) {s : RenderState κ} (n : NodeId), s.Walking now q r →
    (s.prepareWithin react depth n).Walking now q r ∧ Onward now r s (s.prepareWithin react depth n)
  | 0, s, _, h => ⟨h, .refl now r s⟩
  | depth + 1, s, n, h => by
    rw [RenderState.prepareWithin]
    split
    · exact h.skip n _
    · rename_i hd
      obtain ⟨henter, honward, -⟩ := h.enter react (Bool.not_eq_true _ ▸ hd)
      dsimp only
      split
      · rename_i problem _
        obtain ⟨hskip, honward'⟩ := henter.skip n problem
        exact ⟨hskip, honward.trans honward'⟩
      · obtain ⟨hbelow, honward'⟩ := foldl (fun c hs => prepareWithin react depth c hs)
          ((s.enter react n).world.scene.node n).children henter
        exact ⟨hbelow, honward.trans honward'⟩

end Walking

end RenderState

/-! ## The frame -/

/-- The end of a pass closes it, and changes no root in anything else. -/
theorem World.root_endPass {κ : Type} (w : World κ) (r x : RootId) : (w.endPass r).root x =
    { w.root x with openPass := if x = r then none else (w.root x).openPass } := by
  have hroots : (w.endPass r).root x = (w.setRoot r { w.root r with openPass := none }).root x := by
    unfold endPass
    dsimp only
    split <;> rfl
  rw [hroots, root_setRoot]
  split
  · subst x
    rfl
  · rfl

theorem World.scene_endPass {κ : Type} (w : World κ) (r : RootId) : (w.endPass r).scene = w.scene := by
  unfold endPass
  dsimp only
  split <;> rfl

namespace Pipeline

variable {κ : Type} {react : Reaction κ} {p : Pipeline} {w : World κ} {q : RootId} {held : List Completion}
  {time : Instant}

/-- Where the walk of the frame of a vertical sync at `time` begins. -/
def opened (p : Pipeline) (time : Instant) (w : World κ) : RenderState κ :=
  let began := p.started .draw time w
  ⟨began.1, { frameTime := began.1.frameTime, sink := .root p.root }, began.2.beginPass p.root⟩

/-- Where it ends. -/
def walked (react : Reaction κ) (p : Pipeline) (time : Instant) (w : World κ) : RenderState κ :=
  (p.opened time w).prepare react ((p.opened time w).world.root p.root).node

/-- The driver and the world when the nodes that it did not reach have run, too. -/
def tidied (react : Reaction κ) (p : Pipeline) (time : Instant) (w : World κ) : Driver × World κ :=
  (p.walked react time w).driver.runLeftovers react ((p.walked react time w).world.endPass p.root)

/-- **A frame that is drawn, by its stages.** -/
theorem draw_eq (react : Reaction κ) (readings : Readings) (p : Pipeline) (time : Instant) (w : World κ) :
    let s := p.walked react time w
    let y := p.tidied react time w
    let d := p.draw react readings time w
    d.pipeline = { p with driver := (y.1.post y.2).2.1 } ∧ d.world = (y.1.post y.2).2.2 ∧
    d.outcome = { frameIndex := (p.opened time w).driver.frameIndex
                  frameTime := (p.opened time w).driver.frameTime
                  prepared := s.pass.tally.prepared
                  errors := s.pass.tally.errors
                  animating := d.pipeline.driver.isActive } := ⟨rfl, rfl, rfl⟩

theorem started_deferred (ho : p.driver.outlet = .deferred q held) (time : Instant) (w : World κ) :
    p.started .draw time w = (
      { p.driver with
        schedule := ((w.root q).pending.foldl Schedule.add p.driver.schedule).begin
          ((p.moved .draw time w).clock p.driver.clock).frameTime },
      (p.moved .draw time w).setRoot q { w.root q with pending := [] }) := by
  simp only [started, Driver.startFrame, ho]
  rw [← ho]
  rfl

theorem scene_opened (ho : p.driver.outlet = .deferred q held) (time : Instant) (w : World κ) :
    (p.opened time w).world.scene = w.scene := congrArg (fun began => began.2.scene) (started_deferred ho time w)

/-- A frame that has been opened has taken what was registered, and collects errors. -/
theorem root_opened (ho : p.driver.outlet = .deferred q held) (time : Instant) (w : World κ) (x : RootId) :
    (p.opened time w).world.root x = { w.root x with
      pending := if x = q then [] else (w.root x).pending
      openPass := if x = p.root then some [] else (w.root x).openPass } := by
  have hroot : (p.started .draw time w).2.root x =
      { w.root x with pending := if x = q then [] else (w.root x).pending } := by
    rw [started_deferred ho, World.root_setRoot]
    split
    · subst x
      rfl
    · rfl
  show ((p.started .draw time w).2.beginPass p.root).root x = _
  rw [World.beginPass, World.root_setRoot]
  split
  · subst x
    rw [hroot]
  · exact hroot

theorem walking_opened (ho : p.driver.outlet = .deferred q held) (hs : w.scene.Distinct) (time : Instant) :
    (p.opened time w).Walking (p.opened time w).driver.frameTime q p.root := by
  have hstarted := started_deferred ho time w
  have hdriver : (p.opened time w).driver = _ := congrArg Prod.fst hstarted
  have hscene := scene_opened ho time w
  refine ⟨⟨rfl, ⟨held, by rw [hdriver]; exact ho⟩, ?_, hscene ▸ hs, fun m hm => ?_⟩, [], ⟨rfl, ?_⟩, rfl⟩
  · rw [hdriver]
    exact ⟨rfl, List.nodup_nil⟩
  · rw [hdriver] at hm
    cases hm
  · rw [root_opened ho]
    exact if_pos rfl

theorem walking_walked (ho : p.driver.outlet = .deferred q held) (hs : w.scene.Distinct) (react : Reaction κ)
    (time : Instant) :
    let now := (p.opened time w).driver.frameTime
    (p.walked react time w).Walking now q p.root ∧
      RenderState.Onward now p.root (p.opened time w) (p.walked react time w) :=
  (walking_opened ho hs time).prepareWithin react _ _

theorem underway_tidied (ho : p.driver.outlet = .deferred q held) (hs : w.scene.Distinct) (react : Reaction κ)
    (time : Instant) :
    let now := (p.opened time w).driver.frameTime
    let s := p.walked react time w
    let y := p.tidied react time w
    y.1.Underway now q y.2 ∧
      Driver.Tidies now ({ s.driver with schedule := s.driver.schedule.takeCurrent.2 }, s.world.endPass p.root) y := by
  intro now s y
  obtain ⟨hwalked, -⟩ := walking_walked ho hs react time
  have hscene := World.scene_endPass s.world p.root
  have h : ({ s.driver with schedule := s.driver.schedule.takeCurrent.2 } : Driver).Underway now q
      (s.world.endPass p.root) :=
    ⟨hwalked.underway.time, hwalked.underway.outlet,
      ⟨hwalked.underway.listed.scheduled, hwalked.underway.listed.nodup⟩, hscene ▸ hwalked.underway.distinct,
      hscene ▸ hwalked.underway.upheld⟩
  exact h.leftovers react s.driver.schedule.takeCurrent.1

/-- A walk changes neither what is queued, nor clocks, nor owners. -/
theorem world_walked (ho : p.driver.outlet = .deferred q held) (hs : w.scene.Distinct) (react : Reaction κ)
    (time : Instant) :
    let v := (p.walked react time w).world
    (∀ m, v.mailbox m = w.mailbox m) ∧ v.clocks = (p.moved .draw time w).clocks ∧
      ∀ x, (v.root x).owner = (w.root x).owner := by
  obtain ⟨-, honward⟩ := walking_walked ho hs react time
  have hstarted := congrArg Prod.snd (started_deferred ho time w)
  refine ⟨fun m => ?_, ?_, fun x => by rw [honward.root, root_opened ho]⟩
  · have hwalk := congrArg (fun v : World κ => v.mailbox m) honward.world
    have hbegan := congrArg (fun v : World κ => v.mailbox m) hstarted
    exact hwalk.trans hbegan
  · have hwalk := congrArg World.clocks honward.world
    have hbegan := congrArg World.clocks hstarted
    exact hwalk.trans hbegan

/-- **What the frame of a vertical sync at `time` leaves** of the driver, the scene, the roots and the clocks. -/
structure Left (react : Reaction κ) (p : Pipeline) (time : Instant) (w : World κ) (q : RootId) (p' : Pipeline)
    (w' : World κ) : Prop where
  pipeline : p' = { p with driver := { (p.tidied react time w).1 with outlet := .deferred q [] } }
  scene : w'.scene = (p.tidied react time w).2.scene
  root : ∀ x, w'.root x = { (p.walked react time w).world.root x with
    openPass := if x = p.root then none else ((p.walked react time w).world.root x).openPass }
  clocks : w'.clocks = (p.moved .draw time w).clocks

theorem left_draw (ho : p.driver.outlet = .deferred q held) (hs : w.scene.Distinct) (react : Reaction κ)
    (readings : Readings) (time : Instant) :
    let s := p.walked react time w
    let y := p.tidied react time w
    let d := p.draw react readings time w
    p.Left react time w q d.pipeline d.world ∧ ∃ messages batch,
      (s.world.root p.root).openPass = some messages ∧ s.pass.tally.errors = messages.length ∧
      y.1.outlet = .deferred q batch ∧ w.Posts p.root q messages batch d.world := by
  intro s y d
  obtain ⟨hwalked, -⟩ := walking_walked ho hs react time
  obtain ⟨hunderway, htidies⟩ := underway_tidied ho hs react time
  obtain ⟨hqueued, hclocks, howner⟩ := world_walked ho hs react time
  obtain ⟨messages, hcollects, herrors⟩ := hwalked.collects
  obtain ⟨batch, hbatch⟩ := hunderway.outlet
  -- the pass has been closed, and what is held is posted
  have hroot : ∀ x, y.2.root x =
      { s.world.root x with openPass := if x = p.root then none else (s.world.root x).openPass } := fun x => by
    have hsame := congrArg (fun v : World κ => v.root x) htidies.world
    exact hsame.trans (World.root_endPass ..)
  have hreported : ∀ m, y.2.mailbox m = (s.world.endPass p.root).mailbox m := fun m => by
    have hsame := congrArg (fun v : World κ => v.mailbox m) htidies.world
    exact hsame
  have hclosed := (congrArg World.clocks htidies.world).trans (World.clocks_endPass s.world p.root)
  have hpost : y.1.post y.2 = (((Outlet.deferred q batch).post y.2).1, { y.1 with outlet := .deferred q [] },
      ((Outlet.deferred q batch).post y.2).2.2) := by
    have houtlet := Outlet.outlet_post q batch y.2
    rw [Driver.post, show y.1.outlet = _ from hbatch]
    dsimp only
    rw [houtlet]
  obtain ⟨hpipeline, hworld, -⟩ := draw_eq react readings p time w
  have hpipeline : d.pipeline = { p with driver := (y.1.post y.2).2.1 } := hpipeline
  have hworld : d.world = (y.1.post y.2).2.2 := hworld
  rw [hpost] at hpipeline hworld
  obtain ⟨mailboxes, hmailboxes⟩ := Driver.world_post q batch y.2
  refine ⟨⟨hpipeline, ?_, fun x => ?_, ?_⟩, messages, batch, hcollects.openPass, herrors, hbatch, fun m => ?_⟩
  · rw [hworld, hmailboxes]
  · rw [hworld, hmailboxes]
    exact hroot x
  · rw [hworld, hmailboxes]
    exact hclosed.trans hclocks
  · rw [hworld, Mailbox.sendAll_ite, Mailbox.sendAll_ite]
    refine (Outlet.mailbox_post ..).trans ?_
    rw [hreported, World.mailbox_endPass, hqueued, howner, hcollects.openPass, hroot q]
    dsimp only
    rw [howner]
    rfl

end Pipeline

end SceneAnimation
