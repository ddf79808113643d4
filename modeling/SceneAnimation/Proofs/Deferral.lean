import SceneAnimation.Proofs.Threads.Calls
/-!
# Deferral: a driver that defers completions is one that tells them at once, but for when they are told

Two drivers are used alike.  The one defers its completions for the owner of a root, and takes the nodes registered on
the root when a frame starts; the other tells them at once, and gets those nodes from its client just before.  As long
as listeners do no more than take note, the two cannot be told apart by what they schedule, count and do to the scene,
and what the one has told is what the other has sent and still holds (`Twin.perform`, `Cue.deferral_run`).
-/
namespace SceneAnimation

/-- Listeners that only take note of what they are told. -/
def passive {κ : Type} (record : κ → Completion → κ) : Reaction κ :=
  fun l a w => { w with client := record w.client ⟨a, l⟩ }

theorem World.notify_passive {κ : Type} (record : κ → Completion → κ) (batch : List Completion) (w : World κ) :
    w.notify (passive record) batch = { w with client := batch.foldl record w.client } := by
  induction batch generalizing w with
  | nil => rfl
  | cons c batch ih => exact ih _

/-- What a client does with a driver, and what happens to the world in between. -/
inductive Cue where
  /-- The owner's code changes the scene. -/
  | scene (f : Scene → Scene)
  | clock (c : ClockId) (x : Clock)
  | register (r : RootId) (n : NodeId)
  /-- The client goes on with another pass. -/
  | pass (p : Pass)
  | add (n : NodeId)
  | startFrame
  | animateNode (n : NodeId)
  | runRemaining
  | reportFinished (c : Completion)
  | destroy

namespace Cue

variable {κ : Type}

def perform (react : Reaction κ) (s : RenderState κ) : Cue → RenderState κ
  | scene f => { s with world := s.world.mapScene f }
  | clock c x => { s with world := s.world.setClock c x }
  | register r n => { s with world := s.world.register r n }
  | pass p => { s with pass := p }
  | add n => { s with driver := s.driver.add n }
  | startFrame => { s with driver := (s.driver.startFrame s.world).2.1, world := (s.driver.startFrame s.world).2.2 }
  | animateNode n => s.animateNode react n
  | runRemaining => (s.runRemaining react).2
  | reportFinished c =>
    { s with driver := (s.driver.report react [c] s.world).1, world := (s.driver.report react [c] s.world).2 }
  | destroy => { s with driver := (s.driver.destroy react s.world).1, world := (s.driver.destroy react s.world).2 }

/-- The same for a client that schedules the nodes registered on root `r` by itself before it starts a frame. -/
def performFor (r : RootId) (react : Reaction κ) (s : RenderState κ) (x : Cue) : RenderState κ :=
  match x with
  | startFrame =>
    let drained := s.driver.drain r s.world
    perform react { s with driver := drained.2.1, world := drained.2.2 } startFrame
  | x => perform react s x

end Cue

/-- **A driver that defers and one that tells at once, used alike** since the world was `w`.  The one has sent the
batches `posted` and holds `held`; the other has told them.  Nothing else sets them apart. -/
structure Twin {κ : Type} (record : κ → Completion → κ) (r : RootId) (w : World κ) (posted : List (List Completion))
    (held : List Completion) (b c : Driver × World κ) : Prop where
  driver : c.1 = { b.1 with outlet := .inline }
  world : c.2 = { b.2 with mailboxes := w.mailboxes, client := (posted.flatten ++ held).foldl record w.client }
  outlet : b.1.outlet = .deferred r held
  client : b.2.client = w.client
  owner : (b.2.root r).owner = (w.root r).owner
  mail : b.2.mailbox (w.root r).owner =
    .accepting ((w.mailbox (w.root r).owner).queue ++ posted.map Delivery.completions)

namespace Twin

variable {κ : Type} {record : κ → Completion → κ} {r : RootId} {w : World κ} {posted : List (List Completion)}
  {held : List Completion} {b c : Driver × World κ}

theorem inWorld (h : Twin record r w posted held b c) (f : World κ → World κ)
    (hf : ∀ (v : World κ) mailboxes client, f { v with mailboxes, client } = { f v with mailboxes, client })
    (howner : ∀ v : World κ, ((f v).root r).owner = (v.root r).owner) :
    Twin record r w posted held (b.1, f b.2) (c.1, f c.2) where
  driver := h.driver
  world := by
    show f c.2 = _
    rw [h.world]
    exact hf ..
  outlet := h.outlet
  client := by
    have hclient := congrArg World.client (hf b.2 b.2.mailboxes b.2.client)
    exact hclient.trans h.client
  owner := (howner b.2).trans h.owner
  mail := by
    have hmail := congrArg (fun v => World.mailbox v (w.root r).owner) (hf b.2 b.2.mailboxes b.2.client)
    exact hmail.trans h.mail

theorem inSchedule (h : Twin record r w posted held b c) (f : Schedule → Schedule) :
    Twin record r w posted held ({ b.1 with schedule := f b.1.schedule }, b.2)
      ({ c.1 with schedule := f c.1.schedule }, c.2) where
  driver := by rw [h.driver]
  world := h.world
  outlet := h.outlet
  client := h.client
  owner := h.owner
  mail := h.mail

theorem inScene (h : Twin record r w posted held b c) (f : Scene → Scene) :
    Twin record r w posted held (b.1, b.2.mapScene f) (c.1, c.2.mapScene f) :=
  h.inWorld (World.mapScene · f) (fun _ _ _ => rfl) fun _ => rfl

theorem schedule_eq (h : Twin record r w posted held b c) : c.1.schedule = b.1.schedule := by rw [h.driver]

theorem scene_eq (h : Twin record r w posted held b c) : c.2.scene = b.2.scene := by rw [h.world]

theorem report (h : Twin record r w posted held b c) (batch : List Completion) :
    Twin record r w posted (held ++ batch) (b.1.report (passive record) batch b.2)
      (c.1.report (passive record) batch c.2) := by
  have hb : b.1.report (passive record) batch b.2 = ({ b.1 with outlet := .deferred r (held ++ batch) }, b.2) := by
    rw [Driver.report, h.outlet]
    rfl
  have hc : c.1.report (passive record) batch c.2 =
      ({ b.1 with outlet := .inline }, c.2.notify (passive record) batch) := by
    rw [h.driver]
    rfl
  rw [hb, hc, World.notify_passive, h.world, ← List.foldl_append, List.append_assoc]
  exact ⟨rfl, rfl, rfl, h.client, h.owner, h.mail⟩

theorem post (h : Twin record r w posted held b c) :
    ∃ posted' held', Twin record r w posted' held' (b.1.post b.2).2 (c.1.post c.2).2 := by
  have hc : (c.1.post c.2).2 = c := by
    rw [Driver.post, h.driver]
    show ({ b.1 with outlet := .inline }, c.2) = c
    rw [← h.driver]
  cases held with
  | nil =>
    have hb : (b.1.post b.2).2 = b := by
      rw [Driver.post, h.outlet]
      show ({ b.1 with outlet := .deferred r [] }, b.2) = b
      rw [← h.outlet]
    rw [hb, hc]
    exact ⟨posted, [], h⟩
  | cons first held =>
    have hb : (b.1.post b.2).2 =
        ({ b.1 with outlet := .deferred r [] }, b.2.sendToOwner r (.completions (first :: held))) := by
      rw [Driver.post, h.outlet]
      rfl
    rw [hb, hc]
    refine ⟨posted ++ [first :: held], [], ?_, ?_, rfl, h.client, h.owner, ?_⟩
    · exact h.driver
    · rw [h.world]
      simp [World.sendToOwner, World.send, World.setMailbox]
    · show (b.2.sendToOwner r _).mailbox _ = _
      rw [World.sendToOwner, h.owner, World.mailbox_send, if_pos rfl, h.mail, Mailbox.send, List.map_append,
        List.append_assoc]
      rfl

/-! ## Running and ending nodes -/

theorem runNode (h : Twin record r w posted held b c) (n : NodeId) :
    (c.1.runNode (passive record) n c.2).1 = (b.1.runNode (passive record) n b.2).1 ∧
    ∃ held', Twin record r w posted held' (b.1.runNode (passive record) n b.2).2
      (c.1.runNode (passive record) n c.2).2 := by
  have htime : c.1.frameTime = b.1.frameTime := congrArg Schedule.frameTime h.schedule_eq
  have hran : c.2.scene.animate n c.1.frameTime = b.2.scene.animate n b.1.frameTime := by rw [h.scene_eq, htime]
  have hscene := h.inScene fun _ => (b.2.scene.animate n b.1.frameTime).2
  refine ⟨?_, held ++ (b.2.scene.animate n b.1.frameTime).1, ?_⟩
  · show (c.2.scene.animate n c.1.frameTime).2.hasAnimators n = _
    rw [hran]
    rfl
  · simp only [Driver.runNode, hran]
    exact hscene.report _

theorem add (h : Twin record r w posted held b c) (n : NodeId) :
    Twin record r w posted held (b.1.add n, b.2) (c.1.add n, c.2) :=
  h.inSchedule (·.add n)

theorem runLeftover (h : Twin record r w posted held b c) (n : NodeId) :
    ∃ held', Twin record r w posted held' (Driver.runLeftover (passive record) b n)
      (Driver.runLeftover (passive record) c n) := by
  simp only [Driver.runLeftover, h.scene_eq]
  split
  · exact ⟨held, h.inScene (·.discard n)⟩
  · obtain ⟨hkeeps, held', hran⟩ := h.runNode n
    refine ⟨held', ?_⟩
    rw [hkeeps]
    split
    · exact hran.add n
    · exact hran

theorem finishNode (h : Twin record r w posted held b c) (n : NodeId) :
    ∃ held', Twin record r w posted held' (Driver.finishNode (passive record) b n)
      (Driver.finishNode (passive record) c n) := by
  simp only [Driver.finishNode, h.scene_eq]
  exact ⟨_, (h.inScene fun _ => (b.2.scene.finishAll n).2).report _⟩

theorem foldl {f : Driver × World κ → NodeId → Driver × World κ}
    (hf : ∀ {held b c} n, Twin record r w posted held b c → ∃ held', Twin record r w posted held' (f b n) (f c n)) :
    ∀ (ns : List NodeId) {held : List Completion} {b c : Driver × World κ}, Twin record r w posted held b c →
      ∃ held', Twin record r w posted held' (ns.foldl f b) (ns.foldl f c)
  | [], held, _, _, h => ⟨held, h⟩
  | n :: ns, _, _, _, h => by
    obtain ⟨_, h⟩ := hf n h
    exact foldl hf ns h

theorem runLeftovers (h : Twin record r w posted held b c) :
    ∃ held', Twin record r w posted held' (b.1.runLeftovers (passive record) b.2)
      (c.1.runLeftovers (passive record) c.2) := by
  simp only [Driver.runLeftovers, h.schedule_eq]
  have htaken := h.inSchedule fun _ => b.1.schedule.takeCurrent.2
  exact foldl (fun n h => h.runLeftover n) b.1.schedule.takeCurrent.1 htaken

theorem destroy (h : Twin record r w posted held b c) :
    ∃ posted' held', Twin record r w posted' held' (b.1.destroy (passive record) b.2)
      (c.1.destroy (passive record) c.2) := by
  simp only [Driver.destroy, h.schedule_eq]
  have htaken := h.inSchedule fun _ => b.1.schedule.takeAll.2
  obtain ⟨held', hended⟩ := foldl (fun n h => h.finishNode n) b.1.schedule.takeAll.1 htaken
  exact hended.post

/-! ## The start of a frame -/

theorem drain (h : Twin record r w posted held b c) :
    Twin record r w posted held (b.1.drain r b.2).2 (c.1.drain r c.2).2 := by
  have hpending : (c.2.takePending r).1 = (b.2.takePending r).1 := by rw [h.world]; rfl
  have htaken : Twin record r w posted held (b.1, (b.2.takePending r).2) (c.1, (c.2.takePending r).2) := by
    refine h.inWorld (fun v => (v.takePending r).2) (fun _ _ _ => rfl) fun v => ?_
    simp only [World.takePending, World.root_setRoot, if_true]
  have hadded := htaken.inSchedule fun s => (b.2.takePending r).1.foldl Schedule.add s
  simp only [Driver.drain, Driver.addAll, hpending]
  exact hadded

theorem beginFrame (h : Twin record r w posted held b c) :
    Twin record r w posted held (b.1.beginFrame b.2, b.2) (c.1.beginFrame c.2, c.2) := by
  have hclock : c.2.clock c.1.clock = b.2.clock b.1.clock := by rw [h.driver, h.world]; rfl
  have hbegun := h.inSchedule (·.begin (b.2.clock b.1.clock).frameTime)
  simp only [Driver.beginFrame, hclock]
  exact hbegun

theorem startFrame (h : Twin record r w posted held b c) :
    let drained := (c.1.drain r c.2).2
    Twin record r w posted held (b.1.startFrame b.2).2 (drained.1.startFrame drained.2).2 := by
  intro drained
  have hb : (b.1.startFrame b.2).2 =
      ((b.1.drain r b.2).2.1.beginFrame (b.1.drain r b.2).2.2, (b.1.drain r b.2).2.2) := by
    rw [Driver.startFrame, h.outlet]
  have hinline : drained.1.outlet = .inline := by
    show c.1.outlet = .inline
    rw [h.driver]
  have hc : (drained.1.startFrame drained.2).2 = (drained.1.beginFrame drained.2, drained.2) := by
    rw [Driver.startFrame, hinline]
  rw [hb, hc]
  exact h.drain.beginFrame

end Twin

/-! ## Drivers in use -/

namespace Cue

variable {κ : Type} {record : κ → Completion → κ} {r : RootId} {w : World κ} {b c : RenderState κ}

/-- **Two drivers used alike cannot be told apart**, in their passes neither. -/
def Alike (record : κ → Completion → κ) (r : RootId) (w : World κ) (b c : RenderState κ) : Prop :=
  c.pass = b.pass ∧ ∃ posted held, Twin record r w posted held (b.driver, b.world) (c.driver, c.world)

theorem alike_animateNode (h : Alike record r w b c) (n : NodeId) :
    Alike record r w (b.animateNode (passive record) n) (c.animateNode (passive record) n) := by
  obtain ⟨hpass, posted, held, h⟩ := h
  have hvisit := h.inSchedule (·.visit n)
  obtain ⟨hkeeps, held', hran⟩ := hvisit.runNode n
  simp only [RenderState.animateNode, hkeeps, hpass]
  split
  · exact ⟨rfl, posted, held', hran.add n⟩
  · exact ⟨rfl, posted, held', hran⟩

theorem alike_runRemaining (h : Alike record r w b c) :
    Alike record r w (b.runRemaining (passive record)).2 (c.runRemaining (passive record)).2 := by
  obtain ⟨hpass, posted, held, h⟩ := h
  obtain ⟨held', hran⟩ := h.runLeftovers
  obtain ⟨posted', held'', hposted⟩ := hran.post
  refine ⟨?_, posted', held'', hposted⟩
  have hnext := congrArg Schedule.next hran.schedule_eq
  simp only [RenderState.runRemaining, hpass]
  rw [hnext]

/-- **Whatever the client does, the two stay alike.** -/
theorem alike_perform (h : Alike record r w b c) (x : Cue) :
    Alike record r w (x.perform (passive record) b) (x.performFor r (passive record) c) := by
  cases x with
  | scene f =>
    obtain ⟨hpass, posted, held, h⟩ := h
    exact ⟨hpass, posted, held, h.inScene f⟩
  | clock q x =>
    obtain ⟨hpass, posted, held, h⟩ := h
    exact ⟨hpass, posted, held, h.inWorld (World.setClock · q x) (fun _ _ _ => rfl) fun _ => rfl⟩
  | register q n =>
    obtain ⟨hpass, posted, held, h⟩ := h
    refine ⟨hpass, posted, held, h.inWorld (World.register · q n) (fun _ _ _ => rfl) fun v => ?_⟩
    rw [World.register, World.root_setRoot]
    split
    · subst r; rfl
    · rfl
  | pass p =>
    obtain ⟨-, posted, held, h⟩ := h
    exact ⟨rfl, posted, held, h⟩
  | add n =>
    obtain ⟨hpass, posted, held, h⟩ := h
    exact ⟨hpass, posted, held, h.add n⟩
  | startFrame =>
    obtain ⟨hpass, posted, held, h⟩ := h
    exact ⟨hpass, posted, held, h.startFrame⟩
  | animateNode n => exact alike_animateNode h n
  | runRemaining => exact alike_runRemaining h
  | reportFinished e =>
    obtain ⟨hpass, posted, held, h⟩ := h
    exact ⟨hpass, posted, held ++ [e], h.report [e]⟩
  | destroy =>
    obtain ⟨hpass, posted, held, h⟩ := h
    obtain ⟨posted', held', hended⟩ := h.destroy
    exact ⟨hpass, posted', held', hended⟩

theorem alike_foldl (cues : List Cue) : ∀ {b c : RenderState κ}, Alike record r w b c →
    Alike record r w (cues.foldl (perform (passive record)) b) (cues.foldl (performFor r (passive record)) c) := by
  induction cues with
  | nil => exact fun h => h
  | cons x cues ih => exact fun h => ih (alike_perform h x)

theorem alike_create (record : κ → Completion → κ) {r : RootId} {w : World κ} (hw : w.ownerAccepts r = true)
    (clock : ClockId) (pass : Pass) : Alike record r w ⟨(DriverKind.deferred r).create clock, pass, w⟩
      ⟨DriverKind.inline.create clock, pass, w⟩ := by
  refine ⟨rfl, [], [], rfl, rfl, rfl, rfl, rfl, ?_⟩
  have haccepts : (w.mailbox (w.root r).owner).isAccepting = true := hw
  show w.mailbox (w.root r).owner = _
  cases hm : w.mailbox (w.root r).owner with
  | accepting queue => rw [List.map_nil, List.append_nil]; rfl
  | closed =>
    rw [hm] at haccepts
    cases haccepts

/-- **Deferral changes nothing but when completions are told.**  A driver that defers its completions for a root whose
owner accepts deliveries, and one that tells them at once, are used alike: any calls in any order, with the scene and
the clocks changed and nodes registered in between.  Then at every point they agree on their whole schedule, on whether
anything is active, on the pass, and on the scene, the clocks and the roots; and what the one has told, in order, is
what the other has sent to the owner, batch by batch, and what it still holds. -/
theorem deferral_run (record : κ → Completion → κ) (r : RootId) (clock : ClockId) (pass : Pass) (w : World κ)
    (hw : w.ownerAccepts r = true) (cues : List Cue) :
    let b := cues.foldl (perform (passive record)) ⟨(DriverKind.deferred r).create clock, pass, w⟩
    let c := cues.foldl (performFor r (passive record)) ⟨DriverKind.inline.create clock, pass, w⟩
    c.driver.schedule = b.driver.schedule ∧ c.driver.isActive = b.driver.isActive ∧ c.pass = b.pass ∧
    c.world.scene = b.world.scene ∧ c.world.clocks = b.world.clocks ∧ c.world.roots = b.world.roots ∧
    ∃ (posted : List (List Completion)) (held : List Completion), b.driver.outlet = .deferred r held ∧
      (b.world.mailbox (w.root r).owner).queue =
        (w.mailbox (w.root r).owner).queue ++ posted.map Delivery.completions ∧
      c.world.client = (posted.flatten ++ held).foldl record w.client := by
  intro b c
  obtain ⟨hpass, posted, held, h⟩ := alike_foldl cues (alike_create record hw clock pass)
  have hschedule : c.driver.schedule = b.driver.schedule := h.schedule_eq
  have hworld : c.world = _ := h.world
  refine ⟨hschedule, congrArg Schedule.isActive hschedule, hpass, h.scene_eq, by rw [hworld], by rw [hworld],
    posted, held, h.outlet, congrArg Mailbox.queue h.mail, by rw [hworld]⟩

/-- An animator that has a listener is finished by a frame, and another completion is reported by hand after it. -/
theorem deferral_opening :
    let record (told : List Completion) (e : Completion) := told ++ [e]
    let w : World (List Completion) := World.calls { client := [] } [.openMailbox, .addRoot ⟨0⟩, .addClock ⟨16000000⟩,
      .addNode "card", .addAnimator { property := .alpha, finalValue := 1, duration := ⟨0⟩, listener := some ⟨0⟩ },
      .attach ⟨2⟩ ⟨1⟩]
    let cues := [.register ⟨0⟩ ⟨2⟩, .clock ⟨0⟩ ⟨⟨5⟩, ⟨16000000⟩⟩, startFrame, runRemaining, reportFinished ⟨⟨7⟩, ⟨3⟩⟩]
    let pass : Pass := { frameTime := ⟨0⟩ }
    let b := cues.foldl (perform (passive record)) ⟨(DriverKind.deferred ⟨0⟩).create ⟨0⟩, pass, w⟩
    let c := cues.foldl (performFor ⟨0⟩ (passive record)) ⟨DriverKind.inline.create ⟨0⟩, pass, w⟩
    w.ownerAccepts ⟨0⟩ = true ∧ c.driver.schedule = b.driver.schedule ∧
    b.driver.outlet = .deferred ⟨0⟩ [⟨⟨7⟩, ⟨3⟩⟩] ∧ (b.world.mailbox ⟨0⟩).queue = [.completions [⟨⟨1⟩, ⟨0⟩⟩]] ∧
    c.world.client = [⟨⟨1⟩, ⟨0⟩⟩, ⟨⟨7⟩, ⟨3⟩⟩] := by
  intro record w cues pass b c
  have hw : w.ownerAccepts ⟨0⟩ = true := by decide +kernel
  obtain ⟨hschedule, -⟩ := deferral_run record ⟨0⟩ ⟨0⟩ pass w hw cues
  exact ⟨hw, hschedule, by decide +kernel, by decide +kernel, by decide +kernel⟩

end Cue

end SceneAnimation
