import SceneAnimation.Proofs.Trees
import SceneAnimation.Proofs.Deferral
import SceneAnimation.Walk
/-!
# Occurrences: a walk over a graph in which nodes are shared

A node that several others have as a child occurs on several paths, and a walk comes to it on each of them.  Told by
paths, a walk (`RenderState.Tours`) comes to exactly those occurrences above which it found all nodes healthy, in the
order of their paths, counts them, and reports those that it did not find healthy (`RenderState.tour_run`).
-/
namespace SceneAnimation

/-! ## Paths -/

/-- **Path `p` turns off before `q`**: where they part, it goes on to an earlier child. -/
def Precedes (p q : List Nat) : Prop := ∃ common i j, i < j ∧ common ++ [i] <+: p ∧ common ++ [j] <+: q

section Paths

variable {p q : List Nat}

theorem Precedes.append (h : Precedes p q) (a b : List Nat) : Precedes (p ++ a) (q ++ b) := by
  obtain ⟨common, i, j, hlt, hp, hq⟩ := h
  exact ⟨common, i, j, hlt, hp.trans (List.prefix_append ..), hq.trans (List.prefix_append ..)⟩

theorem Precedes.lt (h : Precedes p q) : p < q := by
  obtain ⟨common, i, j, hlt, ⟨a, rfl⟩, ⟨b, rfl⟩⟩ := h
  rw [List.append_assoc, List.append_assoc]
  exact List.append_left_lt (List.cons_lt_cons_iff.2 (.inl hlt))

theorem Precedes.append_ne (h : Precedes p q) (a b : List Nat) : p ++ a ≠ q ++ b := fun he =>
  List.lt_irrefl _ (he ▸ (h.append a b).lt)

theorem precedes_child (p : List Nat) {i j : Nat} (h : i < j) : Precedes (p ++ [i]) (p ++ [j]) :=
  ⟨p, i, j, h, List.prefix_rfl, List.prefix_rfl⟩

theorem lt_append_cons (p : List Nat) (i : Nat) (q : List Nat) : p < p ++ i :: q := by
  have h : p ++ [] < p ++ i :: q := List.append_left_lt (List.nil_lt_cons ..)
  rwa [List.append_nil] at h

end Paths

/-! ## Occurrences -/

/-- An occurrence of a node: a path from where the walk started, and the node to which it leads. -/
abbrev Place := List Nat × NodeId

/-- The occurrences of the children `ns` of the node to which `path` leads, from position `i` on. -/
def places (path : List Nat) : (i : Nat) → List NodeId → List Place
  | _, [] => []
  | i, n :: ns => (path ++ [i], n) :: places path (i + 1) ns

theorem mem_places {path : List Nat} {x : Place} : ∀ {ns : List NodeId} {i : Nat},
    x ∈ places path i ns ↔ ∃ k, x.1 = path ++ [i + k] ∧ ns[k]? = some x.2
  | [], i => by simp [places]
  | n :: ns, i => by
    rw [places, List.mem_cons, mem_places]
    constructor
    · rintro (rfl | ⟨k, hx, hn⟩)
      · exact ⟨0, rfl, rfl⟩
      · exact ⟨k + 1, by rw [hx, Nat.add_right_comm, Nat.add_assoc], hn⟩
    · rintro ⟨_ | k, hx, hn⟩
      · exact .inl (Prod.ext hx (Option.some.inj hn).symm)
      · exact .inr ⟨k, by rw [hx, Nat.add_right_comm, Nat.add_assoc], hn⟩

theorem pairwise_places (path : List Nat) : ∀ (ns : List NodeId) (i : Nat),
    (places path i ns).Pairwise fun x y => Precedes x.1 y.1
  | [], _ => .nil
  | n :: ns, i => by
    refine .cons (fun x hx => ?_) (pairwise_places path ns (i + 1))
    obtain ⟨k, hk, -⟩ := mem_places.1 hx
    rw [hk]
    exact precedes_child path (by omega)

/-- **One coming of a walk to a node**: on which path, and the scene when it came and when the node's own animators had
run. -/
structure Stop where
  path : List Nat
  node : NodeId
  before : Scene
  after : Scene

namespace Stop

def destroyed (v : Stop) : Bool := (v.before.node v.node).destroyed

/-- What the walk finds wrong with the node. -/
def problem? (v : Stop) : Option String :=
  if v.destroyed then some "prepared after destroy" else (v.after.node v.node).properties.problem?

/-- What the walk reports, if it finds the node in error: the name of the node, and what is wrong with it. -/
def message? (v : Stop) : Option String := v.problem?.map (v.after.errorText v.node)

/-- **The node is not destroyed, and its animators left all its properties finite.** -/
def Healthy (v : Stop) : Prop :=
  v.destroyed = false ∧ ∀ q, ((v.after.node v.node).properties.get q).isFinite = true

theorem healthy_iff (v : Stop) : v.Healthy ↔ v.problem? = none := by
  unfold Healthy problem?
  cases v.destroyed with
  | true => simp
  | false => simp [Properties.problem?, Properties.nonFinite?_eq_none]

instance (v : Stop) : Decidable v.Healthy := decidable_of_iff' _ v.healthy_iff

/-- **The stops of a walk at `now`, from one scene to another**: the walk comes to each in the scene that the one before
has left, and runs the animators of the node, unless it is destroyed. -/
def Chain (now : Instant) : Scene → List Stop → Scene → Prop
  | scene, [], scene' => scene' = scene
  | scene, v :: stops, scene' => v.before = scene ∧
      v.after = (if v.destroyed then scene else scene.visit v.node now) ∧ Chain now v.after stops scene'

end Stop

/-! ## What a walk tells its handler -/

/-- What a handler that keeps messages has, after these messages. -/
def ErrorSink.heard (messages : List String) : ErrorSink → ErrorSink
  | .collector held => .collector (held ++ messages)
  | sink => sink

/-- What a handler makes of messages: a root is told one after the other. -/
def ErrorSink.tell {κ : Type} (sink : ErrorSink) (messages : List String) (w : World κ) : World κ :=
  match sink with
  | .root r => messages.foldl (fun w message => w.reportError r message) w
  | _ => w

section Tell

variable {κ : Type} (w : World κ) (scene : Scene) (client : κ)

theorem World.reportError_with (r : RootId) (message : String) :
    ({ w with scene, client } : World κ).reportError r message = { w.reportError r message with scene, client } := by
  have hroot : ({ w with scene, client } : World κ).root r = w.root r := rfl
  unfold World.reportError
  rw [hroot]
  dsimp only
  cases (w.root r).openPass <;> rfl

/-- A handler looks neither at the scene nor at the notes of the owner's code. -/
theorem ErrorSink.tell_with (sink : ErrorSink) (messages : List String) :
    sink.tell messages { w with scene, client } = { sink.tell messages w with scene, client } := by
  cases sink with
  | absent | collector held => rfl
  | root r =>
    show messages.foldl _ _ = { messages.foldl _ w with scene, client }
    induction messages generalizing w with
    | nil => rfl
    | cons message messages ih => rw [List.foldl_cons, List.foldl_cons, World.reportError_with, ih]

end Tell

/-- Completions change what a driver holds, or what listeners have noted. -/
theorem Outlet.report_passive {κ : Type} {react : Reaction κ} {o : Outlet}
    (h : o = .inline → ∃ record, react = passive record) (batch : List Completion) (w : World κ) :
    ∃ o' client, o.report react batch w = (o', { w with client }) ∧ (o' = .inline → o = .inline) := by
  cases o with
  | inline =>
    obtain ⟨record, rfl⟩ := h rfl
    exact ⟨.inline, _, congrArg (Prod.mk Outlet.inline) (World.notify_passive record batch w), id⟩
  | deferred r held => exact ⟨.deferred r (held ++ batch), w.client, rfl, nofun⟩

namespace RenderState

variable {κ : Type} {react : Reaction κ} {messages messages' : List String} {s s' s'' : RenderState κ} {n : NodeId}

/-- **The handler of the pass has been given these messages**, and apart from what it makes of them, only the scene and
the notes of the owner's code have changed in the world. -/
structure Hears (messages : List String) (s s' : RenderState κ) : Prop where
  sink : s'.pass.sink = s.pass.sink.heard messages
  world : s'.world = { s.pass.sink.tell messages s.world with scene := s'.world.scene, client := s'.world.client }

theorem hears_nil (hsink : s'.pass.sink = s.pass.sink)
    (hworld : s'.world = { s.world with scene := s'.world.scene, client := s'.world.client }) : s.Hears [] s' where
  sink := by
    rw [hsink]
    cases s.pass.sink with
    | collector held => exact congrArg _ (List.append_nil held).symm
    | absent | root r => rfl
  world := by
    rw [hworld]
    cases s.pass.sink <;> rfl

theorem Hears.trans (h : s.Hears messages s') (h' : s'.Hears messages' s'') : s.Hears (messages ++ messages') s'' where
  sink := by
    rw [h'.sink, h.sink]
    cases s.pass.sink with
    | collector held => exact congrArg _ (List.append_assoc ..)
    | absent | root r => rfl
  world := by
    have hsame : s'.pass.sink.tell messages' = s.pass.sink.tell (κ := κ) messages' := by
      rw [h.sink]
      cases s.pass.sink <;> rfl
    have hmore : ∀ w : World κ, s.pass.sink.tell messages' (s.pass.sink.tell messages w) =
        s.pass.sink.tell (messages ++ messages') w := fun w => by
      cases s.pass.sink with
      | root r => exact List.foldl_append.symm
      | absent | collector held => rfl
    rw [h'.world, hsame, h.world, ErrorSink.tell_with, hmore]

/-- **An error is one message**, with the name of the node before it. -/
theorem hears_skip (n : NodeId) (problem : String) (s : RenderState κ) :
    s.Hears [s.world.scene.errorText n problem] (s.skip n problem) where
  sink := by
    simp only [skip, reportError]
    cases s.pass.sink <;> rfl
  world := by
    simp only [skip, reportError]
    cases s.pass.sink <;> rfl

theorem skip_spec (n : NodeId) (problem : String) (s : RenderState κ) :
    (s.skip n problem).driver = s.driver ∧ (s.skip n problem).world.scene = s.world.scene ∧
      (s.skip n problem).pass.tally =
        { s.pass.tally with errors := s.pass.tally.errors + 1, skipped := s.pass.tally.skipped + 1 } := by
  simp only [skip, reportError]
  cases s.pass.sink with
  | absent | collector held => exact ⟨rfl, rfl, rfl⟩
  | root r =>
    refine ⟨rfl, ?_, rfl⟩
    simp only [World.reportError]
    split <;> rfl

/-! ## One node -/

/-- **Listeners that are told at once only take note.** -/
def Undisturbed (react : Reaction κ) (s : RenderState κ) : Prop :=
  s.driver.outlet = .inline → ∃ record, react = passive record

/-- A driver that runs a node changes what it holds, or has its listeners take note. -/
theorem runNode_spec (h : s.Undisturbed react) (n : NodeId) (schedule : Schedule) :
    let ran := (s.world.scene.animate n schedule.frameTime).2
    ∃ outlet client,
      ({ s.driver with schedule } : Driver).runNode react n s.world =
        (ran.hasAnimators n, { s.driver with schedule, outlet }, { s.world with scene := ran, client }) ∧
      (outlet = .inline → s.driver.outlet = .inline) := by
  intro ran
  obtain ⟨outlet, client, hreport, hinline⟩ := Outlet.report_passive h
    (s.world.scene.animate n schedule.frameTime).1 { s.world with scene := ran }
  refine ⟨outlet, client, ?_, hinline⟩
  simp only [Driver.runNode, Driver.report, Driver.frameTime]
  rw [hreport]

/-- **A node is entered**: it is counted, and its animators run. -/
structure Entered (n : NodeId) (s s' : RenderState κ) : Prop where
  scene : s'.world.scene = s.world.scene.visit n s.driver.frameTime
  time : s'.driver.frameTime = s.driver.frameTime
  inline : s'.driver.outlet = .inline → s.driver.outlet = .inline
  hears : s.Hears [] s'
  prepared : s'.pass.tally.prepared = s.pass.tally.prepared + 1
  errors : s'.pass.tally.errors = s.pass.tally.errors
  skipped : s'.pass.tally.skipped = s.pass.tally.skipped

theorem entered (h : s.Undisturbed react) (n : NodeId) : Entered n s (s.enter react n) := by
  unfold enter
  dsimp only
  by_cases ha : s.world.scene.hasAnimators n = true
  · have hvisit (now : Instant) : s.world.scene.visit n now = (s.world.scene.animate n now).2 := if_pos ha
    obtain ⟨outlet, client, hrun, hinline⟩ := runNode_spec h n (s.driver.schedule.visit n)
    rw [if_pos ha]
    simp only [animateNode, hrun]
    cases (s.world.scene.animate n (s.driver.schedule.visit n).frameTime).2.hasAnimators n with
    | true => exact ⟨(hvisit _).symm, Schedule.frameTime_add .., hinline, hears_nil rfl rfl, rfl, rfl, rfl⟩
    | false => exact ⟨(hvisit _).symm, rfl, hinline, hears_nil rfl rfl, rfl, rfl, rfl⟩
  · rw [if_neg ha]
    exact ⟨(if_neg ha).symm, rfl, id, hears_nil rfl rfl, rfl, rfl, rfl⟩

/-- **One coming of a walk to a node**: what it finds, the occurrences below at which it goes on, and the state after
it. -/
def turn (react : Reaction κ) (path : List Nat) (n : NodeId) (s : RenderState κ) : Stop × List Place × RenderState κ :=
  if (s.world.scene.node n).destroyed then
    (⟨path, n, s.world.scene, s.world.scene⟩, [], s.skip n "prepared after destroy")
  else
    let s' := s.enter react n
    let stop : Stop := ⟨path, n, s.world.scene, s'.world.scene⟩
    match (s'.world.scene.node n).properties.problem? with
    | some problem => (stop, [], s'.skip n problem)
    | none => (stop, places path 0 (s'.world.scene.node n).children, s')

theorem turn_place (react : Reaction κ) (path : List Nat) (n : NodeId) (s : RenderState κ) :
    (s.turn react path n).1.path = path ∧ (s.turn react path n).1.node = n := by
  unfold turn
  split
  · exact ⟨rfl, rfl⟩
  · dsimp only
    split <;> exact ⟨rfl, rfl⟩

/-- **What one coming to a node does**, when it finds `v` there. -/
structure Turned (v : Stop) (onward : List Place) (s s' : RenderState κ) : Prop where
  before : v.before = s.world.scene
  ran : v.after = if v.destroyed then v.before else v.before.visit v.node s.driver.frameTime
  after : s'.world.scene = v.after
  time : s'.driver.frameTime = s.driver.frameTime
  onward : onward = if v.Healthy then places v.path 0 (s.world.scene.node v.node).children else []
  inline : s'.driver.outlet = .inline → s.driver.outlet = .inline
  hears : s.Hears v.message?.toList s'
  prepared : s'.pass.tally.prepared = s.pass.tally.prepared + if v.destroyed then 0 else 1
  errors : s'.pass.tally.errors = s.pass.tally.errors + if v.Healthy then 0 else 1
  skipped : s'.pass.tally.skipped = s.pass.tally.skipped + if v.Healthy then 0 else 1

theorem turned (h : s.Undisturbed react) (path : List Nat) (n : NodeId) :
    Turned (s.turn react path n).1 (s.turn react path n).2.1 s (s.turn react path n).2.2 := by
  unfold turn
  by_cases hd : (s.world.scene.node n).destroyed = true
  · obtain ⟨hdriver, hscene, htally⟩ := skip_spec n "prepared after destroy" s
    rw [if_pos hd]
    let v : Stop := ⟨path, n, s.world.scene, s.world.scene⟩
    have hgone : v.destroyed = true := hd
    have hsick : ¬ v.Healthy := fun hv => Bool.noConfusion (hgone.symm.trans hv.1)
    have hmessage : v.message? = some (s.world.scene.errorText n "prepared after destroy") := by
      rw [Stop.message?, Stop.problem?, if_pos hgone]
      rfl
    exact {
      before := rfl
      ran := (if_pos hgone).symm
      after := hscene
      time := congrArg Driver.frameTime hdriver
      onward := (if_neg hsick).symm
      inline := fun hi => hdriver ▸ hi
      hears := by rw [hmessage]; exact hears_skip ..
      prepared := by rw [htally, if_pos hgone]; rfl
      errors := by rw [htally, if_neg hsick]
      skipped := by rw [htally, if_neg hsick] }
  · have henter := entered h n
    let v : Stop := ⟨path, n, s.world.scene, (s.enter react n).world.scene⟩
    have halive : v.destroyed = false := Bool.not_eq_true _ ▸ hd
    have hran : v.after = if v.destroyed then v.before else v.before.visit v.node s.driver.frameTime := by
      rw [halive]
      exact henter.scene
    have hproblem : v.problem? = ((s.enter react n).world.scene.node n).properties.problem? := by
      rw [Stop.problem?, halive]
      rfl
    have hprepared : (s.enter react n).pass.tally.prepared =
        s.pass.tally.prepared + if v.destroyed then 0 else 1 := by
      rw [henter.prepared, halive]
      rfl
    rw [if_neg hd]
    dsimp only
    cases hp : ((s.enter react n).world.scene.node n).properties.problem? with
    | some problem =>
      show Turned v [] s ((s.enter react n).skip n problem)
      obtain ⟨hdriver, hscene, htally⟩ := skip_spec n problem (s.enter react n)
      have hsick : ¬ v.Healthy := fun hv => by
        rw [v.healthy_iff, hproblem, hp] at hv
        cases hv
      have hmessage : v.message? = some ((s.enter react n).world.scene.errorText n problem) := by
        rw [Stop.message?, hproblem, hp]
        rfl
      exact {
        before := rfl
        ran := hran
        after := hscene
        time := (congrArg Driver.frameTime hdriver).trans henter.time
        onward := (if_neg hsick).symm
        inline := fun hi => henter.inline (hdriver ▸ hi)
        hears := by rw [hmessage]; exact henter.hears.trans (hears_skip ..)
        prepared := by rw [htally]; exact hprepared
        errors := by rw [htally, if_neg hsick, ← henter.errors]
        skipped := by rw [htally, if_neg hsick, ← henter.skipped] }
    | none =>
      show Turned v (places path 0 ((s.enter react n).world.scene.node n).children) s (s.enter react n)
      have hhealthy : v.Healthy := v.healthy_iff.2 (hproblem.trans hp)
      have hmessage : v.message? = none := by
        rw [Stop.message?, hproblem, hp]
        rfl
      exact {
        before := rfl
        ran := hran
        after := rfl
        time := henter.time
        onward := by
          rw [if_pos hhealthy, henter.scene, Scene.children_visit]
        inline := henter.inline
        hears := by rw [hmessage]; exact henter.hears
        prepared := hprepared
        errors := by rw [if_pos hhealthy, henter.errors]; rfl
        skipped := by rw [if_pos hhealthy, henter.skipped]; rfl }

section Turned

variable {v : Stop} {onward : List Place}

theorem Turned.undisturbed (h : Turned v onward s s') (hquiet : s.Undisturbed react) : s'.Undisturbed react :=
  fun hi => hquiet (h.inline hi)

theorem Turned.children (h : Turned v onward s s') (m : NodeId) :
    (s'.world.scene.node m).children = (s.world.scene.node m).children := by
  rw [h.after, h.ran, h.before]
  split
  · rfl
  · exact Scene.children_visit ..

theorem Turned.mem_onward (h : Turned v onward s s') {x : Place} : x ∈ onward ↔
    v.Healthy ∧ ∃ k, x.1 = v.path ++ [k] ∧ (s.world.scene.node v.node).children[k]? = some x.2 := by
  rw [h.onward]
  by_cases hv : v.Healthy
  · simp [hv, mem_places]
  · simp [hv]

end Turned

/-! ## Walks -/

/-- **A walk told by paths**, over occurrences that it has still to come to: it comes to the first of them, and goes on
with those below it, before the others. -/
inductive Tours (react : Reaction κ) : List Place → RenderState κ → List Stop → RenderState κ → Prop where
  | done (s : RenderState κ) : Tours react [] s [] s
  | step {path : List Nat} {n : NodeId} {rest : List Place} {s s' : RenderState κ} {stops : List Stop}
    (hrest : Tours react ((s.turn react path n).2.1 ++ rest) (s.turn react path n).2.2 stops s') :
    Tours react ((path, n) :: rest) s ((s.turn react path n).1 :: stops) s'

section Tours

variable {todo rest : List Place} {stops stops' : List Stop}

theorem Tours.append (h : Tours react todo s stops s') (hrest : Tours react rest s' stops' s'') :
    Tours react (todo ++ rest) s (stops ++ stops') s'' := by
  induction h with
  | done s => exact hrest
  | step _ ih => exact .step (List.append_assoc .. ▸ ih hrest)

theorem Tours.unique (h : Tours react todo s stops s') (h' : Tours react todo s stops' s'') :
    stops = stops' ∧ s' = s'' := by
  induction h generalizing stops' s'' with
  | done s =>
    cases h'
    exact ⟨rfl, rfl⟩
  | step _ ih =>
    cases h' with
    | step h' =>
      obtain ⟨hstops, hs⟩ := ih h'
      exact ⟨congrArg _ hstops, hs⟩

theorem Tours.keeps (h : Tours react todo s stops s') (hquiet : s.Undisturbed react) :
    s'.Undisturbed react ∧ ∀ m, (s'.world.scene.node m).children = (s.world.scene.node m).children := by
  induction h with
  | done s => exact ⟨hquiet, fun _ => rfl⟩
  | @step path n _ s _ _ _ ih =>
    have hturn := turned hquiet path n
    obtain ⟨hquiet', hchildren⟩ := ih (hturn.undisturbed hquiet)
    exact ⟨hquiet', fun m => (hchildren m).trans (hturn.children m)⟩

/-! ## The library's walk -/

theorem map_places (path : List Nat) : ∀ (ns : List NodeId) (i : Nat), (places path i ns).map (·.2) = ns
  | [], _ => rfl
  | n :: ns, i => congrArg (n :: ·) (map_places path ns (i + 1))

/-- **One level of the walk** is one turn, and then the walk below, where the turn goes on. -/
theorem prepareWithin_succ (react : Reaction κ) (depth : Nat) (path : List Nat) (n : NodeId) (s : RenderState κ) :
    s.prepareWithin react (depth + 1) n =
      (s.turn react path n).2.1.foldl (fun s x => s.prepareWithin react depth x.2) (s.turn react path n).2.2 := by
  rw [prepareWithin, turn]
  split
  · rfl
  · dsimp only
    cases ((s.enter react n).world.scene.node n).properties.problem? with
    | some problem => rfl
    | none =>
      have hnodes := map_places path ((s.enter react n).world.scene.node n).children 0
      dsimp only
      rw [← hnodes, List.foldl_map, hnodes]

/-- The walks below several occurrences, one after the other. -/
theorem tours_foldl {depth : Nat}
    (hwalk : ∀ (x : Place) (s : RenderState κ), s.Undisturbed react → s.world.scene.Deep depth x.2 →
      ∃ stops, Tours react [x] s stops (s.prepareWithin react depth x.2)) :
    ∀ (todo : List Place) (s : RenderState κ), s.Undisturbed react → (∀ x ∈ todo, s.world.scene.Deep depth x.2) →
      ∃ stops, Tours react todo s stops (todo.foldl (fun s x => s.prepareWithin react depth x.2) s)
  | [], s, _, _ => ⟨[], .done s⟩
  | x :: todo, s, hquiet, hdeep => by
    obtain ⟨stops, hx⟩ := hwalk x s hquiet (hdeep x List.mem_cons_self)
    obtain ⟨hquiet', hchildren⟩ := hx.keeps hquiet
    obtain ⟨stops', htodo⟩ := tours_foldl hwalk todo _ hquiet' fun y hy =>
      (hdeep y (List.mem_cons_of_mem x hy)).congr hchildren
    exact ⟨stops ++ stops', hx.append htodo⟩

/-- **The library's walk is a walk told by paths**, if it may go down far enough. -/
theorem tours_prepareWithin : ∀ (depth : Nat) (x : Place) (s : RenderState κ), s.Undisturbed react →
    s.world.scene.Deep depth x.2 → ∃ stops, Tours react [x] s stops (s.prepareWithin react depth x.2)
  | 0, _, _, _, hdeep => absurd hdeep.pos (Nat.lt_irrefl 0)
  | depth + 1, (path, n), s, hquiet, hdeep => by
    have hturn := turned hquiet path n
    obtain ⟨stops, hbelow⟩ := tours_foldl (tours_prepareWithin depth) _ _ (hturn.undisturbed hquiet) fun x hx => by
      obtain ⟨-, k, -, hk⟩ := hturn.mem_onward.1 hx
      rw [(turn_place react path n s).2] at hk
      exact (hdeep.child hk).congr hturn.children
    rw [prepareWithin_succ react depth path]
    exact ⟨_, .step (by rwa [List.append_nil])⟩

end Tours

/-! ## Which occurrences a walk comes to -/

/-- **What a walk over the occurrences `todo` and those below them does**, when it makes these stops. -/
structure Tour (todo : List Place) (stops : List Stop) (s s' : RenderState κ) : Prop where
  scenes : Stop.Chain s.driver.frameTime s.world.scene stops s'.world.scene
  /-- Each stop is at one of the occurrences, or below it. -/
  leads : ∀ v ∈ stops, ∃ x ∈ todo, ∃ path, v.path = x.1 ++ path ∧ s.world.scene.follow x.2 path = some v.node
  sorted : (stops.map Stop.path).Pairwise (· < ·)
  /-- The walk comes to an occurrence if it has come to all those above, and found the nodes healthy. -/
  comes : ∀ x ∈ todo, ∀ path m, s.world.scene.follow x.2 path = some m →
    (x.1 ++ path ∈ stops.map Stop.path ↔
      ∀ above, above <+: path → above ≠ path → ∃ v ∈ stops, v.path = x.1 ++ above ∧ v.Healthy)
  hears : s.Hears (stops.filterMap Stop.message?) s'
  prepared : s'.pass.tally.prepared = s.pass.tally.prepared + stops.countP fun v => !v.destroyed
  errors : s'.pass.tally.errors = s.pass.tally.errors + stops.countP fun v => ¬ v.Healthy
  skipped : s'.pass.tally.skipped = s.pass.tally.skipped + stops.countP fun v => ¬ v.Healthy

theorem tour_nil (s : RenderState κ) : Tour [] [] s s where
  scenes := rfl
  leads := nofun
  sorted := .nil
  comes := nofun
  hears := hears_nil rfl rfl
  prepared := rfl
  errors := rfl
  skipped := rfl

section Step

variable {v : Stop} {onward rest : List Place} {stops : List Stop}

/-- Below the present stop, or after it. -/
theorem Tour.later (h : Tour (onward ++ rest) stops s' s'') (hturn : Turned v onward s s')
    (hrest : ∀ x ∈ rest, Precedes v.path x.1) {w : Stop} (hw : w ∈ stops) :
    (v.Healthy ∧ ∃ k path, w.path = v.path ++ k :: path ∧
      s.world.scene.follow v.node (k :: path) = some w.node) ∨
    ∃ x ∈ rest, Precedes v.path x.1 ∧ ∃ path, w.path = x.1 ++ path ∧ s.world.scene.follow x.2 path = some w.node := by
  obtain ⟨x, hx, path, hpath, hfollow⟩ := h.leads w hw
  rw [Scene.follow_congr hturn.children] at hfollow
  rcases List.mem_append.1 hx with hx | hx
  · obtain ⟨hv, k, hk, hchild⟩ := hturn.mem_onward.1 hx
    refine .inl ⟨hv, k, path, ?_, (Scene.follow_child hchild path).trans hfollow⟩
    rw [hpath, hk, List.append_assoc, List.singleton_append]
  · exact .inr ⟨x, hx, hrest x hx, path, hpath, hfollow⟩

theorem Tour.lt (h : Tour (onward ++ rest) stops s' s'') (hturn : Turned v onward s s')
    (hrest : ∀ x ∈ rest, Precedes v.path x.1) {w : Stop} (hw : w ∈ stops) : v.path < w.path := by
  rcases h.later hturn hrest hw with ⟨-, k, path, hpath, -⟩ | ⟨x, -, hx, path, hpath, -⟩
  · rw [hpath]
    exact lt_append_cons ..
  · rw [hpath]
    have h := (hx.append [] path).lt
    rwa [List.append_nil] at h

/-- Elsewhere than at the present stop, what a walk comes to it comes to later. -/
theorem exists_stop_cons {path : List Nat} (hne : path ≠ v.path) :
    (∃ w ∈ v :: stops, w.path = path ∧ w.Healthy) ↔ ∃ w ∈ stops, w.path = path ∧ w.Healthy := by
  rw [List.exists_mem_cons_iff]
  exact or_iff_right fun hv => hne hv.1.symm

theorem mem_paths_cons {path : List Nat} (hne : path ≠ v.path) :
    path ∈ (v :: stops).map Stop.path ↔ path ∈ stops.map Stop.path := by
  rw [List.map_cons, List.mem_cons]
  exact or_iff_right hne

/-- **Below the present stop**, a walk comes to nothing unless the node is healthy. -/
theorem Tour.comes_below (h : Tour (onward ++ rest) stops s' s'') (hturn : Turned v onward s s')
    (hrest : ∀ x ∈ rest, Precedes v.path x.1) {k : Nat} {path : List Nat} {m : NodeId}
    (hfollow : s.world.scene.follow v.node (k :: path) = some m) :
    v.path ++ k :: path ∈ stops.map Stop.path ↔
      ∀ above, above <+: k :: path → above ≠ k :: path → ∃ w ∈ v :: stops, w.path = v.path ++ above ∧ w.Healthy := by
  have hbelow : ∀ above, v.path ++ k :: above ≠ v.path := fun above he =>
    List.lt_irrefl v.path (by simpa only [he] using lt_append_cons v.path k above)
  by_cases hv : v.Healthy
  · -- then the child on the way is one of the occurrences at which the walk goes on
    obtain ⟨c, hc, hpath⟩ := Scene.exists_child hfollow
    have hmem : (v.path ++ [k], c) ∈ onward ++ rest :=
      List.mem_append.2 (.inl (hturn.mem_onward.2 ⟨hv, k, rfl, hc⟩))
    have hcomes := h.comes _ hmem path m ((Scene.follow_congr hturn.children ..).trans hpath)
    simp only [List.append_assoc, List.singleton_append] at hcomes
    rw [hcomes]
    constructor
    · intro hall above hprefix hne
      cases above with
      | nil => exact ⟨v, List.mem_cons_self, (List.append_nil _).symm, hv⟩
      | cons i above =>
        obtain ⟨rfl, habove⟩ := List.cons_prefix_cons.1 hprefix
        exact (exists_stop_cons (hbelow above)).2 (hall above habove fun he => hne (he ▸ rfl))
    · intro hall above hprefix hne
      exact (exists_stop_cons (hbelow above)).1
        (hall (k :: above) (List.cons_prefix_cons.2 ⟨rfl, hprefix⟩) fun he => hne (List.cons.inj he).2)
  · -- nothing that comes later has a path through this stop, so neither side holds
    refine iff_of_false (fun hmem => ?_) fun hall => ?_
    · obtain ⟨w, hw, hpath⟩ := List.mem_map.1 hmem
      rcases h.later hturn hrest hw with ⟨hv', -⟩ | ⟨x, -, hx, path', hpath', -⟩
      · exact hv hv'
      · exact hx.append_ne (k :: path) path' (hpath.symm.trans hpath')
    · obtain ⟨w, hw, hpath, hhealthy⟩ := hall [] List.nil_prefix nofun
      rw [List.append_nil] at hpath
      rcases List.mem_cons.1 hw with rfl | hw
      · exact hv hhealthy
      · have hlt := h.lt hturn hrest hw
        rw [hpath] at hlt
        exact List.lt_irrefl _ hlt

/-- **One turn more at the front of a walk.** -/
theorem Tour.step (hturn : Turned v onward s s') (hrest : ∀ x ∈ rest, Precedes v.path x.1)
    (h : Tour (onward ++ rest) stops s' s'') : Tour ((v.path, v.node) :: rest) (v :: stops) s s'' where
  scenes := by
    refine ⟨hturn.before, hturn.before ▸ hturn.ran, ?_⟩
    rw [← hturn.after, ← hturn.time]
    exact h.scenes
  leads := by
    refine List.forall_mem_cons.2 ⟨⟨_, List.mem_cons_self, [], (List.append_nil _).symm, rfl⟩, fun w hw => ?_⟩
    rcases h.later hturn hrest hw with ⟨-, k, path, hpath, hfollow⟩ | ⟨x, hx, -, path, hpath, hfollow⟩
    · exact ⟨_, List.mem_cons_self, k :: path, hpath, hfollow⟩
    · exact ⟨x, List.mem_cons_of_mem _ hx, path, hpath, hfollow⟩
  sorted := by
    refine .cons (fun path hpath => ?_) h.sorted
    obtain ⟨w, hw, rfl⟩ := List.mem_map.1 hpath
    exact h.lt hturn hrest hw
  comes := by
    intro x hx path m hfollow
    rcases List.mem_cons.1 hx with rfl | hx
    · cases path with
      | nil =>
        refine iff_of_true ?_ fun above hprefix hne => absurd (List.prefix_nil.1 hprefix) hne
        rw [List.append_nil, List.map_cons]
        exact List.mem_cons_self
      | cons k path =>
        rw [mem_paths_cons, h.comes_below hturn hrest hfollow]
        exact fun he => by simp at he
    · -- the present stop is not on the way, so it is as it was for the walk that goes on
      have helse : ∀ path, x.1 ++ path ≠ v.path := fun path he =>
        (hrest x hx).append_ne [] path (by rw [List.append_nil, he])
      rw [mem_paths_cons (helse path), h.comes x (List.mem_append.2 (.inr hx)) path m
        ((Scene.follow_congr hturn.children ..).trans hfollow)]
      simp only [exists_stop_cons (helse _)]
  hears := by
    rw [← List.singleton_append, List.filterMap_append]
    refine Hears.trans ?_ h.hears
    rw [List.filterMap_cons, List.filterMap_nil]
    cases hm : v.message? <;> exact hm ▸ hturn.hears
  prepared := by
    rw [h.prepared, hturn.prepared, List.countP_cons]
    cases v.destroyed with
    | true => simp
    | false => simp; omega
  errors := by
    rw [h.errors, hturn.errors, List.countP_cons]
    by_cases hv : v.Healthy
    · simp [hv]
    · simp [hv]; omega
  skipped := by
    rw [h.skipped, hturn.skipped, List.countP_cons]
    by_cases hv : v.Healthy
    · simp [hv]
    · simp [hv]; omega

end Step

/-- **What a walk does**, by induction on its stops. -/
theorem Tours.tour {todo : List Place} {stops : List Stop} (h : Tours react todo s stops s')
    (hquiet : s.Undisturbed react) (htodo : todo.Pairwise fun x y => Precedes x.1 y.1) : Tour todo stops s s' := by
  induction h with
  | done s => exact tour_nil s
  | @step path n rest s s' stops _ ih =>
    obtain ⟨hrest, hlater⟩ := List.pairwise_cons.1 htodo
    obtain ⟨hpath, hnode⟩ := turn_place react path n s
    have hturn := turned hquiet path n
    have hbefore : ∀ x ∈ rest, Precedes (s.turn react path n).1.path x.1 := fun x hx => hpath.symm ▸ hrest x hx
    -- what lies below the present stop lies before the rest
    have hordered : ((s.turn react path n).2.1 ++ rest).Pairwise fun x y => Precedes x.1 y.1 := by
      refine List.pairwise_append.2 ⟨?_, hlater, fun x hx y hy => ?_⟩
      · rw [hturn.onward]
        split
        · exact pairwise_places ..
        · exact .nil
      · obtain ⟨-, k, hk, -⟩ := hturn.mem_onward.1 hx
        have h := (hbefore y hy).append [k] []
        rwa [List.append_nil, ← hk] at h
    have h := Tour.step hturn hbefore (ih (hturn.undisturbed hquiet) hordered)
    rwa [hpath, hnode] at h

/-- **What preparing a graph does**, if it has no cycles and listeners that are told at once only take note.  It ends:
to go down more levels than there are nodes changes nothing.  It comes to an occurrence of a node if it has come to all
those above on the same path, and found their nodes alive and, when their animators had run, with finite properties.
It comes to each once, in the order of the paths, which is depth first.  It counts those that are not destroyed as
prepared, and those that are not healthy as errors, with what is below them left out.  Of each of these, and of no
other, the handler of the pass is given one message, in this order. -/
theorem tour_run (react : Reaction κ) (n : NodeId) (s : RenderState κ) (hacyclic : s.world.scene.Acyclic n)
    (hquiet : s.Undisturbed react) :
    let s' := s.prepare react n
    (∀ depth, s.world.scene.nodes.size < depth → s.prepareWithin react depth n = s') ∧
    ∃ stops : List Stop,
      Stop.Chain s.driver.frameTime s.world.scene stops s'.world.scene ∧
      (∀ v ∈ stops, s.world.scene.follow n v.path = some v.node) ∧
      (∀ path m, s.world.scene.follow n path = some m →
        (path ∈ stops.map Stop.path ↔
          ∀ above, above <+: path → above ≠ path → ∃ v ∈ stops, v.path = above ∧ v.Healthy)) ∧
      (stops.map Stop.path).Pairwise (· < ·) ∧
      s'.pass.tally.prepared = s.pass.tally.prepared + (stops.countP fun v => !v.destroyed) ∧
      s'.pass.tally.errors = s.pass.tally.errors + (stops.countP fun v => ¬ v.Healthy) ∧
      s'.pass.tally.skipped = s.pass.tally.skipped + (stops.countP fun v => ¬ v.Healthy) ∧
      s.Hears (stops.filterMap Stop.message?) s' := by
  intro s'
  have hwalk : ∀ depth, s.world.scene.nodes.size < depth →
      ∃ stops, Tours react [([], n)] s stops (s.prepareWithin react depth n) := fun depth hd =>
    tours_prepareWithin depth ([], n) s hquiet (hacyclic.deep hd)
  have hreserve : s.world.scene.nodes.size < walkReserve + s.world.scene.nodes.size :=
    Nat.lt_add_of_pos_left (by decide)
  obtain ⟨stops, hstops⟩ := hwalk _ hreserve
  have htour := hstops.tour hquiet (List.pairwise_singleton ..)
  refine ⟨fun depth hd => ?_, stops, htour.scenes, fun v hv => ?_, fun path m hp => ?_, htour.sorted, htour.prepared,
    htour.errors, htour.skipped, htour.hears⟩
  · obtain ⟨_, hother⟩ := hwalk depth hd
    exact (hother.unique hstops).2
  · obtain ⟨x, hx, path, hpath, hfollow⟩ := htour.leads v hv
    cases List.mem_singleton.1 hx
    rwa [hpath]
  · exact htour.comes _ List.mem_cons_self path m hp

/-- A leaf is shared by two cards, and its animator makes its rotation infinite at the first visit.  So the walk comes
to it on two paths and reports it twice, and comes to the destroyed node on its own path only, not below the leaf. -/
theorem tour_shared :
    let record (told : List Completion) (e : Completion) := told ++ [e]
    let turn : Animator := { property := .rotation, finalValue := 1 / 0, duration := ⟨0⟩, listener := some ⟨0⟩ }
    let w : World (List Completion) := World.calls { client := [] } [.addNode "top", .addNode "left", .addNode "right",
      .addNode "leaf", .addNode "gone", .addChild ⟨1⟩ ⟨2⟩, .addChild ⟨1⟩ ⟨3⟩, .addChild ⟨1⟩ ⟨5⟩, .addChild ⟨2⟩ ⟨4⟩,
      .addChild ⟨3⟩ ⟨4⟩, .addChild ⟨4⟩ ⟨5⟩, .destroyNode ⟨5⟩, .addAnimator turn, .attach ⟨4⟩ ⟨1⟩]
    let s : RenderState (List Completion) := ⟨{ clock := ⟨0⟩ }, { frameTime := ⟨0⟩, sink := .collector [] }, w⟩
    let s' := s.prepare (passive record) ⟨1⟩
    (s.world.scene.Acyclic ⟨1⟩ ∧ s.Undisturbed (passive record)) ∧ s.prepareWithin (passive record) 7 ⟨1⟩ = s' ∧
    s'.world.client = [⟨⟨1⟩, ⟨0⟩⟩] ∧
    ∃ stops : List Stop, stops.filterMap Stop.message? =
        ["leaf: non-finite Rotation value inf", "leaf: non-finite Rotation value inf", "gone: prepared after destroy"] ∧
      (stops.countP fun v => !v.destroyed) = 5 ∧ (stops.countP fun v => ¬ v.Healthy) = 3 := by
  intro record turn w s s'
  have hacyclic : s.world.scene.Acyclic ⟨1⟩ := by decide +kernel
  have hquiet : s.Undisturbed (passive record) := fun _ => ⟨record, rfl⟩
  have htally : s'.pass.tally.prepared = 5 ∧ s'.pass.tally.errors = 3 := by decide +kernel
  have hsink : s'.pass.sink = .collector ["leaf: non-finite Rotation value inf", "leaf: non-finite Rotation value inf",
      "gone: prepared after destroy"] := by decide +kernel
  obtain ⟨hdepth, stops, -, -, -, -, hprepared, herrors, -, hhears⟩ :=
    tour_run (passive record) ⟨1⟩ s hacyclic hquiet
  refine ⟨⟨hacyclic, hquiet⟩, hdepth 7 (by decide +kernel), by decide +kernel, stops, ?_, ?_, ?_⟩
  · exact ErrorSink.collector.inj (hhears.sink.symm.trans hsink)
  · exact (Nat.zero_add _).symm.trans (hprepared.symm.trans htally.1)
  · exact (Nat.zero_add _).symm.trans (herrors.symm.trans htally.2)

end RenderState

end SceneAnimation
