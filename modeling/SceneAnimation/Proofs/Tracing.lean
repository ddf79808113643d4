import SceneAnimation.Proofs.Delivery
import SceneAnimation.Proofs.Operations
import SceneAnimation.Proofs.Timelines
/-!
# Tracing: what frames tell a sink, and what a timeline shows of it

A frame that is traced tells its sink what its outcome is, in one fixed order of events (`Shot.events`), and nothing
else is told.  So in the timeline of what a sink was told, the end of each phase follows right on its beginning
(`Operated.trace_run`).
-/
namespace SceneAnimation

/-- **What there is to tell of a frame.** -/
structure Shot where
  kind : FrameKind
  readings : Readings
  outcome : Outcome
  /-- How many nodes joined the active set at the frame's start. -/
  attached : Nat
  /-- How many nodes were active then. -/
  active : Nat
  /-- The batch that the frame sent to the owner, if it sent one. -/
  posted : Option Posting

namespace Shot

variable (s : Shot)

def index : UInt64 := UInt64.ofNat s.outcome.frameIndex

def prepareTook : Span :=
  match s.kind with
  | .draw => s.readings.prepareEnd.since s.readings.prepareBegin
  | .tick => Span.zero

/-- The summary that closes a frame: its outcome, and how long its phases took. -/
def summary : Trace.Summary where
  frameIndex := s.index
  frameTime := s.outcome.frameTime
  preparedNodes := UInt32.ofNat s.outcome.prepared
  errors := UInt32.ofNat s.outcome.errors
  startTook := s.readings.startEnd.since s.readings.startBegin
  prepareTook := s.prepareTook
  animateTook := s.readings.animateEnd.since s.readings.animateBegin
  animating := s.outcome.animating

theorem summary_eq : Frame.summary s.kind s.readings s.outcome = s.summary := by
  unfold Frame.summary summary prepareTook
  cases s.kind <;> rfl

/-- The two events of a phase, with no other between them. -/
def phase (q : Trace.Phase) (b e : Instant) : List Trace.Event := [.phaseBegin s.index q b, .phaseEnd s.index q e]

/-- What a frame tells of its walk, if it walks the graph.  Each error of a walk leaves out one part of the graph. -/
def walked : List Trace.Event :=
  match s.kind with
  | .draw =>
    s.phase .prepareTree s.readings.prepareBegin s.readings.prepareEnd ++
      if 0 < s.outcome.errors then
        [.errorsReported s.index (UInt32.ofNat s.outcome.errors) (UInt32.ofNat s.outcome.errors)]
      else []
  | .tick => []

theorem walked_eq {tally : Tally} (h : s.outcome.errors = tally.errors) (hs : tally.errors = tally.skipped) :
    s.walked = match s.kind with
      | .draw => s.phase .prepareTree s.readings.prepareBegin s.readings.prepareEnd ++ Frame.errorEvents s.index tally
      | .tick => [] := by
  rw [walked, Frame.errorEvents, ← hs, h]

/-- **The events of a frame**, in order. -/
def events : List Trace.Event :=
  .frameStart s.index s.outcome.frameTime (Trace.count s.attached) (Trace.count s.active) ::
    s.phase .startFrame s.readings.startBegin s.readings.startEnd ++
  s.walked ++
  (s.posted.toList.map fun q => .batchScheduled s.index (Trace.count q.size) q.accepted) ++
  s.phase .runAnimations s.readings.animateBegin s.readings.animateEnd ++
  [.frameSummary s.summary]

end Shot

/-- **What a frame sends at its end**: what its driver holds by then, if anything, as one batch to the owner. -/
inductive RenderState.Sends {κ : Type} (s : RenderState κ) : Option Posting → World κ → Prop where
  | nothing (h : s.driver.outlet.held = []) : s.Sends none s.world
  | batch {r held} (ho : s.driver.outlet = .deferred r held) (h : held ≠ []) :
    s.Sends (some ⟨held.length, s.world.ownerAccepts r⟩) (s.world.sendToOwner r (.completions held))

/-- **A shot of the frame at `t`** that pipeline `p` makes in world `w`. -/
structure Shot.Of {κ : Type} (react : Reaction κ) (kind : FrameKind) (readings : Readings) (t : Instant) (p : Pipeline)
    (w : World κ) (s : Shot) : Prop where
  kind_eq : s.kind = kind
  readings_eq : s.readings = readings
  outcome : s.outcome = (p.frame react kind readings t w).outcome
  attached : s.attached = p.driver.outlet.root?.elim 0 fun r => (w.root r).pending.length
  active : s.active = (p.started kind t w).1.schedule.current.length
  /-- What was sent is what the driver held when all other jobs of the frame had been done. -/
  posted : ∀ pass, ∃ before, Does react (p.remaining kind).dropLast
    ⟨(p.started kind t w).1, pass, (p.started kind t w).2⟩ before ∧
    before.Sends s.posted (p.frame react kind readings t w).world

/-! ## One frame -/

section Frames

variable {κ : Type} {react : Reaction κ}

theorem Driver.attached_startFrame (d : Driver) (w : World κ) :
    (d.startFrame w).1 = d.outlet.root?.elim 0 fun r => (w.root r).pending.length := by
  unfold startFrame
  split
  · rename_i h
    rw [h]
    rfl
  · rename_i r held h
    rw [h]
    rfl

theorem RenderState.sends_post (s : RenderState κ) : s.Sends (s.driver.post s.world).1 (s.driver.post s.world).2.2 := by
  unfold Driver.post
  cases ho : s.driver.outlet with
  | inline => exact .nothing (by rw [ho]; rfl)
  | deferred r held =>
    cases held with
    | nil => exact .nothing (by rw [ho]; rfl)
    | cons c held => exact .batch ho (List.cons_ne_nil c held)

/-- **Each error of a walk leaves out one part of the graph.** -/
theorem Job.skipped_perform (j : Job) (s : RenderState κ) (h : s.pass.tally.errors = s.pass.tally.skipped) :
    (j.perform s).2.pass.tally.errors = (j.perform s).2.pass.tally.skipped := by
  cases j with
  | startFrame | prepare depth n | check depth n => rwa [state_of_asks (by trivial)]
  | newPass => rfl
  | skip n problem =>
    simp only [perform, RenderState.skip, RenderState.reportError]
    split <;> exact congrArg (· + 1) h
  | keep n walked =>
    simp only [perform]
    split <;> exact h
  | report batch =>
    obtain ⟨outlet, -, he⟩ := report_spec batch s
    rwa [he]
  | _ => exact h

theorem Does.skipped {js : List Job} {s s' : RenderState κ} (hd : Does react js s s')
    (h : s.pass.tally.errors = s.pass.tally.skipped) : s'.pass.tally.errors = s'.pass.tally.skipped := by
  induction hd with
  | nil s => exact h
  | tell _ ih => exact ih h
  | perform _ _ ih => exact ih (Job.skipped_perform _ _ h)

/-- **The jobs that run what a walk left over**, up to the last, which sends what is held. -/
theorem Does.leftovers (react : Reaction κ) (s : RenderState κ) : ∃ before,
    Does react [.takeLeftovers, .noteActive] s before ∧
    s.runRemaining react = ((before.driver.post before.world).1, (Job.post.perform before).2) :=
  ⟨_, (takeLeftovers react s).append (single (by simp) rfl : Does react [.noteActive] _ _), rfl⟩

/-- The graph is walked, if the frame is one that walks it. -/
def FrameKind.walk (kind : FrameKind) (react : Reaction κ) (root : RootId) (s : RenderState κ) : RenderState κ :=
  match kind with
  | .draw => s.prepareRoot react root
  | .tick => s

/-- **A frame that has been started**, as its jobs up to the last, which sends what is held. -/
theorem Does.beforePost (react : Reaction κ) (kind : FrameKind) (p : Pipeline) (d : Driver) (w : World κ) :
    let s := kind.walk react p.root ⟨d, { frameTime := d.frameTime }, w⟩
    ∃ before, (∀ pass, Does react (p.remaining kind).dropLast ⟨d, pass, w⟩ before) ∧
      s.runRemaining react = ((before.driver.post before.world).1, (Job.post.perform before).2) ∧
      s.pass.tally.errors = s.pass.tally.skipped ∧ before.driver.frameIndex = d.frameIndex := by
  intro s
  have hpass : ∀ pass, Does react [.newPass] ⟨d, pass, w⟩ ⟨d, { frameTime := d.frameTime }, w⟩ := fun pass =>
    .single (by simp) rfl
  obtain ⟨before, hrest, hpost⟩ := leftovers react s
  have hindex := (hrest.frame_kept (by simp [Job.Inside])).2
  cases kind with
  | draw =>
    have hwalk := openPass react ⟨d, { frameTime := d.frameTime }, w⟩ p.root
    exact ⟨before, fun pass => (hpass pass).append (hwalk.append hrest), hpost, hwalk.skipped rfl,
      hindex.trans (hwalk.frame_kept (by simp [Job.Inside])).2⟩
  | tick => exact ⟨before, fun pass => (hpass pass).append hrest, hpost, rfl, hindex⟩

/-- **What a frame tells is one shot.** -/
theorem Pipeline.exists_shot (react : Reaction κ) (kind : FrameKind) (readings : Readings) (t : Instant) (p : Pipeline)
    (w : World κ) : ∃ s : Shot, s.Of react kind readings t p w ∧
      (p.frame react kind readings t w).events = if p.traced then s.events else [] := by
  -- `before` is where the frame stands when all that is left to do is to send what the driver holds
  let began := p.started kind t w
  let walked := kind.walk react p.root ⟨began.1, { frameTime := began.1.frameTime }, began.2⟩
  obtain ⟨before, hbefore, hpost, hskipped, hindex⟩ := Does.beforePost react kind p began.1 began.2
  let f := Frame.run react p.root kind readings p.driver (p.moved kind t w)
  let s : Shot := ⟨kind, readings, f.outcome, (p.driver.startFrame (p.moved kind t w)).1,
    began.1.schedule.current.length, (before.driver.post before.world).1⟩
  have hworld : f.world = (before.driver.post before.world).2.2 := by
    have h : f.world = (walked.runRemaining react).2.world := by cases kind <;> rfl
    rw [h, hpost]
    rfl
  refine ⟨s, ⟨rfl, rfl, by rw [frame_eq]; rfl, Driver.attached_startFrame .., rfl, fun pass => ?_⟩, ?_⟩
  · refine ⟨before, hbefore pass, ?_⟩
    rw [frame_eq]
    show before.Sends _ f.world
    rw [hworld]
    exact before.sends_post
  · rw [frame_eq]
    show (if p.traced then f.events else []) = _
    have hposted : (walked.runRemaining react).1.toList.map (walked.runRemaining react).2.driver.postingEvent =
        s.posted.toList.map fun q => .batchScheduled s.index (Trace.count q.size) q.accepted := by
      rw [hpost]
      refine List.map_congr_left fun q _ => ?_
      have hlast : (Job.post.perform before).2.driver.frameIndex = began.1.frameIndex := hindex
      rw [Driver.postingEvent, hlast]
      rfl
    have herrors : s.outcome.errors = walked.pass.tally.errors := by cases kind <;> rfl
    have hevents : f.events = s.events := by
      rw [Shot.events, s.walked_eq herrors hskipped, ← hposted, ← s.summary_eq]
      cases kind <;> rfl
    rw [hevents]

end Frames

/-! ## Phases -/

namespace Trace

/-- **Whatever begins ends at once**: right after each phase event that begins a phase stands the one that ends it. -/
def Paired (es : List Event) : Prop :=
  ∀ i index phase t, es[i]? = some (.phaseBegin index phase t) → ∃ t', es[i + 1]? = some (.phaseEnd index phase t')

theorem paired_of_not_begin {es : List Event} (h : ∀ index phase t, .phaseBegin index phase t ∉ es) : Paired es :=
  fun _ index phase t hi => absurd (List.mem_of_getElem? hi) (h index phase t)

theorem Paired.append {es fs : List Event} (h : Paired es) (h' : Paired fs) : Paired (es ++ fs) :=
  fun i index phase t hi => by
  by_cases hlt : i < es.length
  · rw [List.getElem?_append_left hlt] at hi
    -- what begins before the seam also ends before it
    obtain ⟨t', ht'⟩ := h i index phase t hi
    obtain ⟨hlt', -⟩ := List.getElem?_eq_some_iff.1 ht'
    exact ⟨t', by rw [List.getElem?_append_left hlt', ht']⟩
  · have hle : es.length ≤ i := Nat.le_of_not_lt hlt
    rw [List.getElem?_append_right hle] at hi
    obtain ⟨t', ht'⟩ := h' _ index phase t hi
    have hnext : i + 1 - es.length = i - es.length + 1 := Nat.succ_sub hle
    rw [← hnext] at ht'
    exact ⟨t', (List.getElem?_append_right (Nat.le_succ_of_le hle)).trans ht'⟩

theorem paired_flatMap {α : Type} {f : α → List Event} (h : ∀ a, Paired (f a)) : ∀ l : List α, Paired (l.flatMap f)
  | [] => paired_of_not_begin fun _ _ _ hi => nomatch hi
  | a :: l => by
    rw [List.flatMap_cons]
    exact (h a).append (paired_flatMap h l)

/-- **The marks of a timeline that begin something are followed by their ends**, of the same name and frame. -/
def Matched (ms : List Mark) : Prop :=
  ∀ i m, ms[i]? = some m → m.kind = "B" → ∃ m' n, ms[i + 1]? = some m' ∧ m'.kind = "E" ∧ m'.name = m.name ∧
    m.args = [("frame_index", .whole n)] ∧ m'.args = [("frame_index", .whole n)]

theorem begins_of_mark {last : Float} {e : Event} (h : (e.mark last).kind = "B") :
    ∃ index phase t, e = .phaseBegin index phase t := by
  cases e with
  | phaseBegin index phase t => exact ⟨index, phase, t, rfl⟩
  | _ => exact absurd h (by simp [Event.mark])

theorem Paired.matched {es : List Event} (h : Paired es) : Matched (marks es) := fun i m hm hkind => by
  have hi := getElem?_marksFrom es 0.0 i
  obtain ⟨e, he, rfl⟩ := Option.map_eq_some_iff.1 (hi.symm.trans hm)
  obtain ⟨index, phase, t, rfl⟩ := begins_of_mark hkind
  obtain ⟨t', ht'⟩ := h i index phase t he
  have hnext := getElem?_marksFrom es 0.0 (i + 1)
  rw [ht'] at hnext
  exact ⟨_, index.toNat, hnext, rfl, rfl, rfl, rfl⟩

end Trace

theorem Shot.paired_phase (s : Shot) (q : Trace.Phase) (b e : Instant) : Trace.Paired (s.phase q b e)
  | 0, _, _, _, h => by
    cases h
    exact ⟨e, rfl⟩
  | 1, _, _, _, h => nomatch h
  | i + 2, _, _, _, h => nomatch h

theorem Shot.paired_events (s : Shot) : Trace.Paired s.events := by
  have hwalked : Trace.Paired s.walked := by
    unfold walked
    split
    · refine (s.paired_phase _ _ _).append (Trace.paired_of_not_begin fun _ _ _ h => ?_)
      split at h
      · cases List.mem_singleton.1 h
      · cases h
    · exact Trace.paired_of_not_begin fun _ _ _ h => nomatch h
  have hposted : Trace.Paired (s.posted.toList.map fun q => .batchScheduled s.index (Trace.count q.size) q.accepted) :=
    Trace.paired_of_not_begin fun _ _ _ h => by
      obtain ⟨_, -, h⟩ := List.mem_map.1 h
      cases h
  have hsingle : ∀ e : Trace.Event, (∀ index phase t, e ≠ .phaseBegin index phase t) → Trace.Paired [e] :=
    fun e he => Trace.paired_of_not_begin fun index phase t h => he index phase t (List.mem_singleton.1 h).symm
  have hstart := (hsingle (.frameStart s.index s.outcome.frameTime (Trace.count s.attached) (Trace.count s.active))
    (by simp)).append (s.paired_phase .startFrame s.readings.startBegin s.readings.startEnd)
  exact (((hstart.append hwalked).append hposted).append (s.paired_phase _ _ _)).append (hsingle _ (by simp))

/-! ## Runs -/

namespace Operated

variable {κ : Type} {react : Reaction κ}

/-- Frames are traced exactly while a sink is installed. -/
theorem traced_step (x : Operated κ) (op : Operation κ) (h : x.pipeline.traced = x.sink.isSome) :
    (x.step react op).pipeline.traced = (x.step react op).sink.isSome := by
  cases op with
  | frame kind readings t => cases kind <;> exact h
  | install sink => rfl
  | _ => exact h

theorem traced_run (root : RootId) (kind : DriverKind) (clock : ClockId) (w : World κ) (ops : List (Operation κ)) :
    let x := (start root kind clock w).run react ops
    x.pipeline.traced = x.sink.isSome :=
  run_keeps (fun x op h => x.traced_step op h) ops _ rfl

/-- The outcomes of the frames that are run while sink `k` is installed, in order. -/
def filmed (react : Reaction κ) (k : SinkId) (x : Operated κ) (ops : List (Operation κ)) : List Outcome :=
  trail (step react) (fun x op => if x.sink = some k then x.answers react op else []) x ops

/-- **Of a frame, a sink is told nothing or one shot.** -/
theorem exists_shot_tells {x : Operated κ} (h : x.pipeline.traced = x.sink.isSome) (k : SinkId) (kind : FrameKind)
    (readings : Readings) (t : Instant) : ∃ s : Shot, s.Of react kind readings t x.pipeline x.world ∧
      x.tells react k (.frame kind readings t) = if x.sink = some k then s.events else [] := by
  obtain ⟨s, hs, hevents⟩ := x.pipeline.exists_shot react kind readings t x.world
  refine ⟨s, hs, ?_⟩
  unfold tells
  split
  · rename_i hk
    rw [h, hk] at hevents
    show (x.pipeline.frame react kind readings t x.world).events ++ [] = _
    rw [List.append_nil, hevents]
    rfl
  · rfl

theorem tells_of_not_frame (x : Operated κ) (k : SinkId) {op : Operation κ}
    (h : ∀ kind readings t, op ≠ .frame kind readings t) : x.tells react k op = [] := by
  unfold tells
  split
  · cases op with
    | frame kind readings t => exact absurd rfl (h kind readings t)
    | _ => rfl
  · rfl

/-- **What a sink was told is a list of shots**, one of each frame that was run while it was installed. -/
theorem exists_shots (k : SinkId) (ops : List (Operation κ)) {x : Operated κ} (h : x.pipeline.traced = x.sink.isSome) :
    ∃ shots : List Shot, x.told react k ops = shots.flatMap Shot.events ∧
      shots.map Shot.outcome = x.filmed react k ops := by
  induction ops generalizing x with
  | nil => exact ⟨[], rfl, rfl⟩
  | cons op ops ih =>
    obtain ⟨shots, htold, hfilmed⟩ := ih (x.traced_step op h)
    rw [told, trail, filmed, trail, ← told, ← filmed, htold, ← hfilmed]
    by_cases hop : ∃ kind readings t, op = .frame kind readings t
    · obtain ⟨kind, readings, t, rfl⟩ := hop
      obtain ⟨s, hs, htells⟩ := @exists_shot_tells _ react x h k kind readings t
      rw [htells]
      split
      · refine ⟨s :: shots, rfl, ?_⟩
        rw [List.map_cons, hs.outcome]
        rfl
      · exact ⟨shots, rfl, rfl⟩
    · have hnone : x.answers react op = [] := by
        cases op with
        | frame kind readings t => exact absurd ⟨kind, readings, t, rfl⟩ hop
        | _ => rfl
      rw [tells_of_not_frame x k fun kind readings t he => hop ⟨kind, readings, t, he⟩, hnone, ite_self]
      exact ⟨shots, rfl, rfl⟩

/-- **The trace of a pipeline agrees with its outcomes.**  A pipeline of either kind draws and ticks frames, is reset
and destroyed, and gets and loses sinks, in any order.  A frame tells the sink that is installed its shot, and no other
sink anything; no other operation tells a sink anything.  So all that a sink is told is the shots of the frames that
were run while it was installed, in order; and when this is recorded, and the recording is made into a timeline, its
text is that of the objects of the marks of these events, and each mark that begins a phase is followed at once by the
mark that ends it, for the same phase of the same frame. -/
theorem trace_run (react : Reaction κ) (root : RootId) (driver : DriverKind) (clock : ClockId) (w : World κ)
    (k : SinkId) (ops : List (Operation κ)) :
    let new := start root driver clock w
    let x := new.run react ops
    (∀ kind readings t, ∃ s : Shot, s.Of react kind readings t x.pipeline x.world ∧
      x.tells react k (.frame kind readings t) = if x.sink = some k then s.events else []) ∧
    (∀ op, (∀ kind readings t, op ≠ .frame kind readings t) → x.tells react k op = []) ∧
    (∃ shots : List Shot, new.told react k ops = shots.flatMap Shot.events ∧
      shots.map Shot.outcome = new.filmed react k ops) ∧
    let marks := Trace.marks (new.told react k ops)
    Trace.timeline (Trace.record (new.told react k ops)) = Trace.renderMarks marks ∧
    (∀ v : Json, v.SpeltBy (Trace.timeline (Trace.record (new.told react k ops))) ↔
      v = .list (marks.map Trace.Mark.json)) ∧
    Trace.Matched marks := by
  intro new x
  obtain ⟨shots, htold, hfilmed⟩ := @exists_shots _ react k ops new rfl
  refine ⟨exists_shot_tells (traced_run root driver clock w ops) k, fun op => x.tells_of_not_frame k,
    ⟨shots, htold, hfilmed⟩, ?_, fun v => ?_, ?_⟩
  · rw [Trace.timeline, Trace.decode_record]
  · rw [Trace.speltBy_timeline_iff, Trace.objects, Trace.decode_record]
  · rw [htold]
    exact (Trace.paired_flatMap Shot.paired_events shots).matched

/-- A node is registered, and its animator is over in the first frame, so that a batch of one completion is sent.  The
sink is removed after the reset that follows. -/
theorem trace_opening :
    let react : Reaction Unit := fun _ _ w => w
    let w := ((Threads.blank ⟨0⟩ (.deferred ⟨0⟩) ⟨0⟩ ()).run (Threads.opening ⟨0⟩)).world
    let ops : List (Operation Unit) :=
      [.install (some ⟨7⟩), .frame .draw {} ⟨5⟩, .reset, .install none, .frame .tick {} ⟨9⟩]
    let new := start ⟨0⟩ (.deferred ⟨0⟩) ⟨0⟩ w
    new.told react ⟨7⟩ ops = [.frameStart 1 ⟨5⟩ 1 1, .phaseBegin 1 .startFrame ⟨0⟩, .phaseEnd 1 .startFrame ⟨0⟩,
      .phaseBegin 1 .prepareTree ⟨0⟩, .phaseEnd 1 .prepareTree ⟨0⟩, .batchScheduled 1 1 true,
      .phaseBegin 1 .runAnimations ⟨0⟩, .phaseEnd 1 .runAnimations ⟨0⟩,
      .frameSummary ⟨1, ⟨5⟩, 1, 0, ⟨0⟩, ⟨0⟩, ⟨0⟩, false⟩] ∧
    (new.run react ops).tells react ⟨7⟩ .reset = [] ∧
    ∃ shots : List Shot, new.told react ⟨7⟩ ops = shots.flatMap Shot.events ∧
      shots.map Shot.outcome = new.filmed react ⟨7⟩ ops := by
  intro react w ops new
  obtain ⟨-, hnone, hshots, -⟩ := trace_run react ⟨0⟩ (.deferred ⟨0⟩) ⟨0⟩ w ⟨7⟩ ops
  exact ⟨by decide +kernel, hnone .reset (by simp), hshots⟩

end Operated

end SceneAnimation
