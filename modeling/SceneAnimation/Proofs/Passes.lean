import SceneAnimation.Proofs.Ledgers
import SceneAnimation.Proofs.Threads.Reports
/-!
# Passes: the parts of a frame

A frame is opened, walks the graph of its root, and runs what the walk did not reach.  Over a tree, and with nothing in
between, each part adds to the ledger what it does to nodes.  The errors of the walk are counted, and sent to the owner
as one report when the walk has ended (`Ledger.pass`); nothing else is sent before the frame's last job.
-/
namespace SceneAnimation

/-! ## What is sent -/

/-- Whether a job is no end of a pass and sends no completions, nor leaves such things to be done. -/
def Job.Inner : Job → Prop
  | .openPass _ | .closePass .. | .post | .takeAll => False
  | _ => True

/-- **Nothing has been sent since world `w`**, and errors will not be: if a root takes them, it collects them. -/
structure RenderState.Hushed {κ : Type} (w : World κ) (s : RenderState κ) : Prop where
  mailbox : ∀ m, s.world.mailbox m = w.mailbox m
  collects : ∀ r, s.pass.sink = .root r → (s.world.root r).openPass.isSome = true

section Hushed

variable {κ : Type} {w : World κ} {j k : Job} {s : RenderState κ}

theorem Job.inner_of_mem (hj : j.Inner) (hk : k ∈ (j.perform s).1) : k.Inner := by
  cases Job.leaves_of_mem hk <;> trivial

theorem RenderState.Hushed.perform (h : s.Hushed w) (hj : j.Inner) : (j.perform s).2.Hushed w where
  mailbox m := by
    rw [← h.mailbox m]
    cases j with
    | openPass q | closePass q sink | post | takeAll => exact hj.elim
    | skip n problem =>
      rw [Job.world_skip]
      cases hs : s.pass.sink with
      | root q =>
        obtain ⟨messages, hm⟩ := Option.isSome_iff_exists.1 (h.collects q hs)
        simp only [World.reportError, hm]
        rfl
      | absent | collector messages => rfl
    | startFrame | prepare depth n | check depth n => rw [Job.state_of_asks (by trivial)]
    | report batch =>
      obtain ⟨outlet, -, he⟩ := Job.report_spec batch s
      rw [he]
    | _ => rfl
  collects r hr := by
    have hr := (Job.sink_perform j s r).1 hr
    rw [Job.openPass_perform]
    cases j with
    | openPass q | closePass q sink | post | takeAll => exact hj.elim
    | newPass => exact hr.elim
    | skip n problem =>
      dsimp only
      rw [if_pos hr, Option.isSome_map]
      exact h.collects r hr
    | _ => exact h.collects r hr

end Hushed

namespace Works

variable {κ : Type} {js : List Job} {s s' : RenderState κ} {ds : List Deed}

theorem hushed {w : World κ} (h : Works js s ds s') (hjs : ∀ j ∈ js, j.Inner) (hs : s.Hushed w) : s'.Hushed w := by
  induction h with
  | nil s => exact hs
  | cons _ ih =>
    have hj := hjs _ List.mem_cons_self
    refine ih (fun k hk => ?_) (hs.perform hj)
    exact (List.mem_append.1 hk).elim (Job.inner_of_mem hj) fun hk => hjs k (List.mem_cons_of_mem _ hk)

theorem owner (h : Works js s ds s') (r : RootId) : (s'.world.root r).owner = (s.world.root r).owner := by
  induction h with
  | nil s => rfl
  | cons _ ih => exact ih.trans (Job.owner_perform ..)

end Works

/-- **The messages of the pass under way**: root `r` takes its errors, and has collected these. -/
structure RenderState.Collects {κ : Type} (r : RootId) (messages : List String) (s : RenderState κ) : Prop where
  sink : s.pass.sink = .root r
  openPass : (s.world.root r).openPass = some messages

/-- Whether a job is part of the turn of a node that a walk comes to. -/
def Job.OfTurn : Job → Prop
  | .visit _ | .run .. | .report _ | .tell _ | .keep .. => True
  | _ => False

/-- Whether a job, and whatever it leaves, counts neither nodes nor errors. -/
def Job.Uncounted : Job → Prop
  | .newPass | .openPass _ | .prepare .. | .enter _ | .check .. | .descend .. | .skip .. => False
  | _ => True

/-- **What a walk adds to the pass**, when it visits the nodes `visited` and reports the errors `errors`. -/
structure RenderState.Logs {κ : Type} (visited : List NodeId) (errors : List String) (s s' : RenderState κ) :
    Prop where
  /-- Errors are messages of the pass under way, whichever root takes them. -/
  collects : ∀ r messages, s.Collects r messages → s'.Collects r (messages ++ errors)
  prepared : s'.pass.tally.prepared = s.pass.tally.prepared + visited.length
  errors : s'.pass.tally.errors = s.pass.tally.errors + errors.length

section Logs

variable {κ : Type} {r : RootId} {messages : List String} {js : List Job} {s s' s'' : RenderState κ} {ds : List Deed}
  {visited visited' : List NodeId} {errors errors' : List String}

theorem RenderState.Collects.skip (h : s.Collects r messages) (n : NodeId) (problem : String) :
    ((Job.skip n problem).perform s).2.Collects r (messages ++ [s.world.scene.errorText n problem]) where
  sink := (Job.sink_perform (.skip n problem) s r).2 h.sink
  openPass := by
    rw [Job.openPass_perform]
    dsimp only
    rw [if_pos h.sink, h.openPass]
    rfl

theorem RenderState.Collects.perform (h : s.Collects r messages) {j : Job} (hj : j.OfTurn) :
    (j.perform s).2.Collects r messages := by
  refine ⟨(Job.sink_perform j s r).2 ?_, ?_⟩
  · cases j with
    | visit n | run n walked | report batch | tell c | keep n walked => exact h.sink
    | _ => exact hj.elim
  · rw [Job.openPass_perform]
    cases j with
    | visit n | run n walked | report batch | tell c | keep n walked => exact h.openPass
    | _ => exact hj.elim

theorem Job.tally_skip (n : NodeId) (problem : String) (s : RenderState κ) :
    ((Job.skip n problem).perform s).2.pass.tally.prepared = s.pass.tally.prepared ∧
      ((Job.skip n problem).perform s).2.pass.tally.errors = s.pass.tally.errors + 1 := by
  simp only [Job.perform, RenderState.skip, RenderState.reportError]
  cases s.pass.sink <;> exact ⟨rfl, rfl⟩

theorem Job.tally_perform {j : Job} (hj : j.Uncounted) (s : RenderState κ) :
    (j.perform s).2.pass.tally.prepared = s.pass.tally.prepared ∧
      (j.perform s).2.pass.tally.errors = s.pass.tally.errors := by
  cases j with
  | newPass | openPass q | enter n | skip n problem | prepare depth n | check depth n | descend depth n =>
    exact hj.elim
  | startFrame => rw [Job.state_of_asks (by trivial)]; exact ⟨rfl, rfl⟩
  | report batch =>
    obtain ⟨outlet, -, he⟩ := Job.report_spec batch s
    rw [he]
    exact ⟨rfl, rfl⟩
  | keep n walked => cases walked <;> exact ⟨rfl, rfl⟩
  | _ => exact ⟨rfl, rfl⟩

theorem Job.uncounted_of_mem {j k : Job} (hj : j.Uncounted) (hk : k ∈ (j.perform s).1) : k.Uncounted := by
  cases Job.leaves_of_mem hk <;> trivial

theorem Job.OfTurn.uncounted {j : Job} (hj : j.OfTurn) : j.Uncounted := by
  cases j <;> trivial

/-- **Only the jobs of a walk count.** -/
theorem Works.tally (h : Works js s ds s') (hjs : ∀ j ∈ js, j.Uncounted) :
    s'.pass.tally.prepared = s.pass.tally.prepared ∧ s'.pass.tally.errors = s.pass.tally.errors := by
  induction h with
  | nil s => exact ⟨rfl, rfl⟩
  | @cons j rest s ds s' _ ih =>
    have hj := hjs j List.mem_cons_self
    obtain ⟨hprepared, herrors⟩ := ih (List.forall_mem_append.2
      ⟨fun k hk => Job.uncounted_of_mem hj hk, fun k hk => hjs k (List.mem_cons_of_mem j hk)⟩)
    obtain ⟨hp, he⟩ := Job.tally_perform hj s
    exact ⟨hprepared.trans hp, herrors.trans he⟩

theorem Works.collects (h : Works js s ds s') (hjs : ∀ j ∈ js, j.OfTurn) (hs : s.Collects r messages) :
    s'.Collects r messages := by
  induction h with
  | nil s => exact hs
  | @cons j rest s ds s' _ ih =>
    have hj := hjs j List.mem_cons_self
    have hleft : ∀ k ∈ (j.perform s).1, k.OfTurn := fun k hk => by
      cases Job.leaves_of_mem hk with
      | runVisited | reportRun | keep _ | tell _ => trivial
      | _ => exact hj.elim
    exact ih (List.forall_mem_append.2 ⟨hleft, fun k hk => hjs k (List.mem_cons_of_mem j hk)⟩) (hs.perform hj)

namespace RenderState.Logs

theorem refl (s : RenderState κ) : s.Logs [] [] s where
  collects r messages hm := by rwa [List.append_nil]
  prepared := rfl
  errors := rfl

theorem trans (h : s.Logs visited errors s') (h' : s'.Logs visited' errors' s'') :
    s.Logs (visited ++ visited') (errors ++ errors') s'' where
  collects r messages hm := by
    rw [← List.append_assoc]
    exact h'.collects r _ (h.collects r messages hm)
  prepared := by rw [h'.prepared, h.prepared, List.length_append, Nat.add_assoc]
  errors := by rw [h'.errors, h.errors, List.length_append, Nat.add_assoc]

theorem skip (s : RenderState κ) (n : NodeId) (problem : String) :
    s.Logs [] [s.world.scene.errorText n problem] ((Job.skip n problem).perform s).2 where
  collects _ _ hm := hm.skip n problem
  prepared := (Job.tally_skip n problem s).1
  errors := (Job.tally_skip n problem s).2

/-- **A node is counted when it is entered**, and not again while it has its turn. -/
theorem enter {n : NodeId} (h : Works [.enter n] s ds s') : s.Logs [n] [] s' := by
  cases h with
  | cons h =>
    have hjs : ∀ j ∈ ((Job.enter n).perform s).1 ++ [], j.OfTurn := fun j hj => by
      rw [List.append_nil] at hj
      cases Job.leaves_of_mem hj
      trivial
    obtain ⟨hprepared, herrors⟩ := h.tally fun j hj => (hjs j hj).uncounted
    refine ⟨fun _ _ hm => ?_, hprepared, herrors⟩
    rw [List.append_nil]
    exact h.collects hjs ⟨hm.sink, hm.openPass⟩

end RenderState.Logs

end Logs

/-- **The end of a pass sends its messages**, if there are any, as one report. -/
theorem World.mailbox_endPass {κ : Type} (w : World κ) (r : RootId) (m : MailboxId) : (w.endPass r).mailbox m =
    if m = (w.root r).owner then
      (w.mailbox m).sendAll ((Report.ofMessages? ((w.root r).openPass.getD [])).toList.map .report)
    else w.mailbox m := by
  unfold World.endPass
  dsimp only
  cases Report.ofMessages? ((w.root r).openPass.getD []) with
  | none =>
    rw [Option.toList_none, List.map_nil]
    exact (ite_self _).symm
  | some report =>
    show ((w.setRoot r _).send ((w.setRoot r _).root r).owner (.report report)).mailbox m = _
    rw [World.root_setRoot, if_pos rfl, World.mailbox_send]
    split
    · subst m; rfl
    · rfl

/-- **What is held is sent**, if there is anything, as one batch. -/
theorem Outlet.mailbox_post {κ : Type} (r : RootId) (held : List Completion) (w : World κ) (m : MailboxId) :
    ((Outlet.deferred r held).post w).2.2.mailbox m =
      if m = (w.root r).owner then (w.mailbox m).sendAll (if held = [] then [] else [.completions held])
      else w.mailbox m := by
  cases held with
  | nil => exact (ite_self _).symm
  | cons c held =>
    rw [if_neg (List.cons_ne_nil c held)]
    show (w.send (w.root r).owner (.completions (c :: held))).mailbox m = _
    rw [World.mailbox_send]
    split
    · subst m; rfl
    · rfl

theorem Outlet.outlet_post {κ : Type} (r : RootId) (held : List Completion) (w : World κ) :
    ((Outlet.deferred r held).post w).2.1 = .deferred r [] := by
  cases held <;> rfl

/-! ## The walk -/

/-- What a walk at `now` does to the nodes it visits: it runs those that have animators. -/
def Scene.runs (s : Scene) (now : Instant) (visited : List NodeId) : List Deed :=
  (visited.filter s.hasAnimators).map (Deed.run · now)

theorem Scene.nodes_runs (s : Scene) (now : Instant) (visited : List NodeId) :
    (s.runs now visited).map Deed.node = visited.filter s.hasAnimators := by
  rw [runs, List.map_map]
  exact List.map_id _

theorem Scene.runs_append (s : Scene) (now : Instant) (visited visited' : List NodeId) :
    s.runs now (visited ++ visited') = s.runs now visited ++ s.runs now visited' := by
  rw [runs, List.filter_append, List.map_append]
  rfl

/-- **What a frame at `now` does**: its walk runs those of the visited nodes that have animators, and what is left of
the active set has its turn after it. -/
def Scene.turns (s : Scene) (now : Instant) (active visited : List NodeId) : List Deed :=
  s.runs now visited ++ (active.filter (· ∉ visited.filter s.hasAnimators)).map (s.upkeep now)

/-- **Every node that is active, or visited with animators, has its turn**, and no other node. -/
theorem Scene.mem_turns {s : Scene} {now : Instant} {active visited : List NodeId} {d : Deed}
    (halive : ∀ n ∈ visited, (s.node n).destroyed = false) : d ∈ s.turns now active visited ↔
      d = s.upkeep now d.node ∧ (d.node ∈ active ∨ d.node ∈ visited ∧ s.hasAnimators d.node = true) := by
  have hwalked : ∀ n ∈ visited, s.upkeep now n = .run n now := fun n hn => by
    rw [upkeep, if_neg (by rw [halive n hn]; exact Bool.false_ne_true)]
  simp only [turns, runs, List.mem_append, List.mem_map, List.mem_filter, decide_eq_true_eq]
  constructor
  · rintro (⟨n, ⟨hn, ha⟩, rfl⟩ | ⟨n, ⟨hn, -⟩, rfl⟩)
    · exact ⟨(hwalked n hn).symm, .inr ⟨hn, ha⟩⟩
    · rw [node_upkeep]
      exact ⟨rfl, .inl hn⟩
  · rintro ⟨hd, h⟩
    by_cases hv : d.node ∈ visited ∧ s.hasAnimators d.node = true
    · exact .inl ⟨d.node, hv, by rw [hd, node_upkeep, hwalked _ hv.1]⟩
    · exact .inr ⟨d.node, ⟨h.resolve_right hv, hv⟩, hd.symm⟩

theorem filter_filter_not_mem {α : Type} [DecidableEq α] (l a b : List α) :
    (l.filter (· ∉ a)).filter (· ∉ b) = l.filter (· ∉ a ++ b) := by
  rw [List.filter_filter]
  refine List.filter_congr fun x _ => ?_
  simp [not_or, Bool.and_comm]

/-- What a walk visits is not destroyed. -/
theorem Scene.Walks.alive {now : Instant} {s s' : Scene} {todo visited : List NodeId} {errors : List String}
    (h : Walks now s todo visited errors s') : ∀ n ∈ visited, (s.node n).destroyed = false := by
  have hvisit : ∀ (s : Scene) (n m : NodeId), ((s.visit n now).node m).destroyed = (s.node m).destroyed := by
    intro s n m
    unfold visit
    split
    · exact (Deed.graph_effect s (.run n now) m).2
    · rfl
  induction h with
  | done s => exact fun _ hn => absurd hn List.not_mem_nil
  | destroyed _ _ ih => exact ih
  | visited hd _ ih =>
    refine List.forall_mem_cons.2 ⟨hd, fun m hm => ?_⟩
    rw [← hvisit]
    exact ih m hm

/-- **The walk's jobs `js`, over nodes `ns`**, after the deeds `ds` of a frame at `now` over `scene`: what they visit,
what they report, and what they leave. -/
structure Walked {κ : Type} (now : Instant) (scene : Scene) (r : RootId) (js : List Job) (ns : List NodeId)
    (ds : List Deed) (s : RenderState κ) (visited : List NodeId) (errors : List String) (s' : RenderState κ) :
    Prop where
  works : Works js s (scene.runs now visited) s'
  walks : Scene.Walks now s.world.scene ns visited errors s'.world.scene
  ledger : Ledger now scene r (ds ++ scene.runs now visited) s'
  current : s'.driver.schedule.current =
    s.driver.schedule.current.filter (· ∉ visited.filter scene.hasAnimators)
  logs : s.Logs visited errors s'

/-- **Jobs that walk** over nodes `ns`, and visit none but those of `below`, in that order, if the frame has not come to
these yet. -/
def Traverses (κ : Type) (now : Instant) (scene : Scene) (r : RootId) (js : List Job) (ns below : List NodeId) : Prop :=
  ∀ (ds : List Deed) (s : RenderState κ), Ledger now scene r ds s → (∀ m ∈ below, m ∉ ds.map Deed.node) →
    ∃ visited errors s', visited.Sublist below ∧ Walked now scene r js ns ds s visited errors s'

section Walk

variable {κ : Type} {now : Instant} {scene : Scene} {r : RootId} {js ks : List Job} {ns ms : List NodeId}
  {ds : List Deed} {s s' s'' : RenderState κ} {n : NodeId} {visited visited' : List NodeId}
  {errors errors' : List String}

theorem Walked.nil (h : Ledger now scene r ds s) : Walked now scene r [] [] ds s [] [] s where
  works := .nil s
  walks := .done _
  ledger := by rwa [Scene.runs, List.filter_nil, List.map_nil, List.append_nil]
  current := by simp
  logs := .refl s

theorem Walked.append (h : Walked now scene r js ns ds s visited errors s')
    (h' : Walked now scene r ks ms (ds ++ scene.runs now visited) s' visited' errors' s'') :
    Walked now scene r (js ++ ks) (ns ++ ms) ds s (visited ++ visited') (errors ++ errors') s'' where
  works := by
    rw [Scene.runs_append]
    exact h.works.append h'.works
  walks := h.walks.append h'.walks
  ledger := by
    rw [Scene.runs_append, ← List.append_assoc]
    exact h'.ledger
  current := by rw [h'.current, h.current, filter_filter_not_mem, List.filter_append]
  logs := h.logs.trans h'.logs

theorem not_mem_runs {rest : List NodeId} (hrest : ∀ m ∈ rest, m ∉ ds.map Deed.node)
    (hapart : ∀ m ∈ rest, m ∉ visited) : ∀ m ∈ rest, m ∉ (ds ++ scene.runs now visited).map Deed.node := by
  intro m hm hd
  rw [List.map_append, List.mem_append, Scene.nodes_runs] at hd
  rcases hd with hd | hd
  · exact hrest m hm hd
  · exact hapart m hm (List.mem_of_mem_filter hd)

theorem Ledger.enter (h : Ledger now scene r ds s) (hn : n ∉ ds.map Deed.node) : ∃ s',
    Works [.enter n] s (scene.runs now [n]) s' ∧ s'.world.scene = s.world.scene.visit n now ∧
      Ledger now scene r (ds ++ scene.runs now [n]) s' ∧
      s'.driver.schedule.current = s.driver.schedule.current.filter (· ∉ [n].filter scene.hasAnimators) := by
  have hsame : s.world.scene.hasAnimators n = scene.hasAnimators n := Scene.hasAnimators_of_node (h.node_eq hn)
  have hleft : ((Job.enter n).perform s).1 = if scene.hasAnimators n then [.visit n] else [] := by
    rw [← hsame]
    rfl
  by_cases ha : scene.hasAnimators n = true
  · rw [if_pos ha] at hleft
    -- the node is taken off the active set before it is run
    let s₁ := ((Job.visit n).perform ((Job.enter n).perform s).2).2
    have h₁ : Ledger now scene r ds s₁ :=
      ⟨h.scene_eq, h.outlet, h.frameTime, h.next, ⟨h.exact.mem, h.exact.nodup⟩, h.nodup⟩
    obtain ⟨s', hw, hl, hc⟩ := h₁.run hn true
    have hruns : scene.runs now [n] = [.run n now] := by rw [Scene.runs, List.filter_cons_of_pos ha]; rfl
    have hvisit : Works [.visit n] ((Job.enter n).perform s).2 [.run n now] s' := .through rfl hw
    refine ⟨s', ?_, ?_, by rwa [hruns], ?_⟩
    · rw [hruns]
      exact .through rfl (hleft ▸ hvisit)
    · rw [hl.scene_eq, Deed.effects_append, ← h₁.scene_eq, Scene.visit, hsame, if_pos ha]
      rfl
    · rw [hc, List.filter_cons_of_pos ha, List.filter_nil]
      simp only [List.mem_singleton]
      rfl
  · rw [if_neg ha] at hleft
    have hruns : scene.runs now [n] = [] := by rw [Scene.runs, List.filter_cons_of_neg ha]; rfl
    refine ⟨((Job.enter n).perform s).2, ?_, ?_, ?_, ?_⟩
    · rw [hruns]
      exact .single hleft
    · rw [Scene.visit, hsame, if_neg ha]
      rfl
    · rw [hruns, List.append_nil]
      exact h.of_eq rfl rfl
    · rw [List.filter_cons_of_neg ha, List.filter_nil]
      simp [Job.perform]

/-- An error that the walk meets is reported, and nothing is visited. -/
theorem Ledger.skip (h : Ledger now scene r ds s) {j : Job} {problem : String}
    (hj : j.perform s = ([.skip n problem], s)) (hdeed : j.deed? s = none) : ∃ s',
    Works [j] s (scene.runs now []) s' ∧ s'.world.scene = s.world.scene ∧
      Ledger now scene r (ds ++ scene.runs now []) s' ∧
      s'.driver.schedule.current = s.driver.schedule.current.filter (· ∉ [].filter scene.hasAnimators) ∧
      s.Logs [] [s.world.scene.errorText n problem] s' := by
  have hw : Works [.skip n problem] s [] ((Job.skip n problem).perform s).2 := .single rfl
  have hscene : ((Job.skip n problem).perform s).2.world.scene = s.world.scene := Job.scene_perform ..
  have hdriver : ((Job.skip n problem).perform s).2.driver = s.driver := (Job.skip_spec n problem s).1
  refine ⟨_, .through hdeed ?_, hscene, ?_, ?_, .skip s n problem⟩
  · rw [hj]
    exact hw
  · rw [Scene.runs, List.filter_nil, List.map_nil, List.append_nil]
    exact h.of_eq hscene hdriver
  · rw [hdriver]
    simp

theorem traverses_map {depth : Nat} : ∀ {ns : List NodeId},
    (∀ n ∈ ns, Traverses κ now scene r [.prepare depth n] [n] (scene.preorder depth n)) →
    (ns.flatMap (scene.preorder depth)).Nodup →
    Traverses κ now scene r (ns.map (.prepare depth)) ns (ns.flatMap (scene.preorder depth))
  | [], _, _ => fun _ s h _ => ⟨[], [], s, List.Sublist.refl _, .nil h⟩
  | n :: ns, hwalk, hnodup => fun ds s h hnew => by
    rw [List.flatMap_cons] at hnodup hnew
    obtain ⟨hn, hns, hapart⟩ := List.nodup_append.1 hnodup
    obtain ⟨visited, errors, s₁, hsub, hw⟩ := hwalk n List.mem_cons_self ds s h fun m hm =>
      hnew m (List.mem_append.2 (.inl hm))
    -- what has been visited below the first node is not below the others
    obtain ⟨visited', errors', s₂, hsub', hw'⟩ := traverses_map (fun m hm => hwalk m (List.mem_cons_of_mem n hm)) hns
      (ds ++ scene.runs now visited) s₁ hw.ledger
      (not_mem_runs (fun m hm => hnew m (List.mem_append.2 (.inr hm))) fun m hm hv =>
        hapart m (hsub.subset hv) m hm rfl)
    exact ⟨visited ++ visited', errors ++ errors', s₂, hsub.append hsub', hw.append hw'⟩

/-- **Below a node that it has entered**, the walk goes on unless a property of the node is not finite. -/
theorem Ledger.check {depth : Nat} (h : Ledger now scene r ds s)
    (hwalk : Traverses κ now scene r ((scene.node n).children.map (.prepare depth)) (scene.node n).children
      ((scene.node n).children.flatMap (scene.preorder depth)))
    (hnew : ∀ m ∈ (scene.node n).children.flatMap (scene.preorder depth), m ∉ ds.map Deed.node) :
    ∃ visited errors s', visited.Sublist ((scene.node n).children.flatMap (scene.preorder depth)) ∧
      Works [.check depth n] s (scene.runs now visited) s' ∧
      Scene.Walks now s.world.scene (s.world.scene.onward n) visited errors s'.world.scene ∧
      Ledger now scene r (ds ++ scene.runs now visited) s' ∧
      s'.driver.schedule.current = s.driver.schedule.current.filter (· ∉ visited.filter scene.hasAnimators) ∧
      s.Logs visited (s.world.scene.complaints n ++ errors) s' := by
  have hchild : (s.world.scene.node n).children = (scene.node n).children := by
    rw [h.scene_eq]
    exact (Deed.graph_effects ..).1
  cases hp : (s.world.scene.node n).properties.problem? with
  | some problem =>
    have hcheck : (Job.check depth n).perform s = ([.skip n problem], s) := by simp only [Job.perform, hp]
    have honward : s.world.scene.onward n = [] := by simp only [Scene.onward, hp]
    have hcomplaints : s.world.scene.complaints n = [s.world.scene.errorText n problem] := by
      rw [Scene.complaints, hp]
      rfl
    obtain ⟨s', hw, hscene, hl, hc, hm⟩ := h.skip hcheck rfl
    refine ⟨[], [], s', List.nil_sublist _, hw, ?_, hl, hc, ?_⟩
    · rw [honward, hscene]
      exact .done _
    · rw [hcomplaints]
      exact hm
  | none =>
    have hcheck : (Job.check depth n).perform s = ([.descend depth n], s) := by simp only [Job.perform, hp]
    have hdescend : (Job.descend depth n).perform s = ((scene.node n).children.map (.prepare depth), s) := by
      simp only [Job.perform, hchild]
    have honward : s.world.scene.onward n = (scene.node n).children := by simp only [Scene.onward, hp, hchild]
    have hcomplaints : s.world.scene.complaints n = [] := by
      rw [Scene.complaints, hp]
      rfl
    obtain ⟨visited, errors, s', hsub, hw⟩ := hwalk ds s h hnew
    refine ⟨visited, errors, s', hsub, .through rfl ?_, honward ▸ hw.walks, hw.ledger, hw.current, ?_⟩
    · rw [hcheck]
      refine .through rfl ?_
      rw [hdescend]
      exact hw.works
    · rw [hcomplaints]
      exact hw.logs

/-- **The walk below a node**, by its depth. -/
theorem traverses_prepare : ∀ {depth : Nat} {n : NodeId}, scene.Deep depth n → (scene.preorder depth n).Nodup →
    Traverses κ now scene r [.prepare depth n] [n] (scene.preorder depth n)
  | 0, _, hdeep, _ => absurd hdeep.pos (Nat.lt_irrefl 0)
  | depth + 1, n, hdeep, hnodup => fun ds s h hnew => by
    obtain ⟨hbelow, hchildren⟩ := List.nodup_cons.1 hnodup
    have hn : n ∉ ds.map Deed.node := hnew n List.mem_cons_self
    have hleft : (Job.prepare (depth + 1) n).perform s =
        (if (scene.node n).destroyed then [.skip n "prepared after destroy"] else [.enter n, .check depth n], s) := by
      rw [← h.node_eq hn]
      rfl
    have hgone : (s.world.scene.node n).destroyed = (scene.node n).destroyed := congrArg _ (h.node_eq hn)
    by_cases hd : (scene.node n).destroyed = true
    · rw [if_pos hd] at hleft
      obtain ⟨s', hw, hscene, hl, hc, hm⟩ := h.skip hleft rfl
      refine ⟨[], _, s', List.nil_sublist _, hw, ?_, hl, hc, hm⟩
      rw [hscene]
      exact .destroyed (hgone.trans hd) (.done _)
    · rw [if_neg hd] at hleft
      obtain ⟨s₁, hw₁, hscene₁, hl₁, hc₁⟩ := h.enter hn
      have hwalk : Traverses κ now scene r ((scene.node n).children.map (.prepare depth)) (scene.node n).children
          ((scene.node n).children.flatMap (scene.preorder depth)) := traverses_map (fun c hc => by
        obtain ⟨i, hi⟩ := List.getElem?_of_mem hc
        exact traverses_prepare (hdeep.child hi) ((List.nodup_flatMap.1 hchildren).1 c hc)) hchildren
      obtain ⟨visited, errors, s₂, hsub, hw₂, hwalks, hl₂, hc₂, hm₂⟩ := hl₁.check hwalk
        (not_mem_runs (fun m hm => hnew m (List.mem_cons_of_mem n hm)) fun m hm hv =>
          hbelow (List.mem_singleton.1 hv ▸ hm))
      have hboth := hw₁.append hw₂
      rw [List.append_assoc] at hl₂
      rw [← Scene.runs_append] at hboth hl₂
      refine ⟨n :: visited, (s.world.scene.visit n now).complaints n ++ errors, s₂, hsub.cons_cons n, .through rfl ?_,
        .visited ?_ ?_, hl₂, ?_, ?_⟩
      · rw [hleft]
        exact hboth
      · exact hgone.trans (Bool.not_eq_true _ ▸ hd)
      · rw [List.append_nil, ← hscene₁]
        exact hwalks
      · rw [hc₂, hc₁, filter_filter_not_mem, ← List.filter_append]
        rfl
      · rw [← hscene₁]
        exact (RenderState.Logs.enter hw₁).trans hm₂

end Walk

/-! ## The parts of a frame -/

section Parts

variable {κ : Type} {now : Instant} {scene : Scene} {r : RootId} {ds : List Deed} {s : RenderState κ}

theorem Works.schedules : ∀ (ns : List NodeId) (s : RenderState κ),
    Works (ns.map .schedule) s [] { s with driver := s.driver.addAll ns }
  | [], s => .nil s
  | n :: ns, s => (Works.single (j := .schedule n) rfl).append (schedules ns { s with driver := s.driver.add n })

/-- **The opening**: the frame is started, and nothing has been done yet. -/
theorem Works.opening (ho : s.driver.outlet = .deferred r []) :
    let started := s.driver.startFrame s.world
    let s₁ : RenderState κ :=
      { driver := started.2.1, pass := { frameTime := started.2.1.frameTime }, world := started.2.2 }
    Works [.startFrame, .newPass] s [] s₁ ∧ Ledger started.2.1.frameTime s.world.scene r [] s₁ ∧
      s₁.Hushed s.world ∧ ∀ q, (s₁.world.root q).node = (s.world.root q).node := by
  intro started s₁
  let pending := s.world.takePending r
  have hstarted : started = (pending.1.length, (s.driver.addAll pending.1).beginFrame pending.2, pending.2) := by
    simp only [started, Driver.startFrame, ho]
    rfl
  have htake : Works [.takePending r] s [] { s with driver := s.driver.addAll pending.1, world := pending.2 } :=
    .through rfl (.schedules pending.1 { s with world := pending.2 })
  have hstart : Works [.startFrame] s [] { s with driver := started.2.1, world := started.2.2 } := by
    refine .through rfl ?_
    simp only [Job.perform, ho, hstarted]
    exact htake.append (.single (j := .beginFrame) rfl)
  refine ⟨hstart.append (.single rfl), ⟨?_, ?_, rfl, ?_, ?_, List.nodup_nil⟩, ?_, fun q => ?_⟩
  · simp only [s₁, hstarted]
    rfl
  · simp only [s₁, hstarted]
    exact ho
  · simp only [s₁, hstarted]
    rfl
  · simp only [s₁, hstarted]
    exact Schedule.exact_empty rfl rfl
  · refine ⟨fun m => ?_, fun q hq => by cases hq⟩
    simp only [s₁, hstarted]
    rfl
  · simp only [s₁, hstarted]
    show ((s.world.setRoot r { s.world.root r with pending := [] }).root q).node = _
    rw [World.root_setRoot]
    split
    · subst q; rfl
    · rfl

/-- The jobs with which a frame of some kind walks the graph of root `q`. -/
def FrameKind.walkJobs (q : RootId) : FrameKind → List Job
  | .draw => [.openPass q]
  | .tick => []

/-- **What the walk of a frame of some kind comes to**, from node `n`: that of a draw visits nodes and reports errors,
and a tick has no walk. -/
def Scene.Surveys (s : Scene) (now : Instant) (kind : FrameKind) (n : NodeId) (visited : List NodeId)
    (errors : List String) : Prop :=
  match kind with
  | .draw => ∃ walked, s.Walks now [n] visited errors walked
  | .tick => visited = [] ∧ errors = []

/-- **The pass**: the walk of the graph of root `q`, and the report of its errors to the owner of that root. -/
theorem Ledger.pass (h : Ledger now scene r [] s) (hs : s.pass = { frameTime := now }) {q : RootId} (kind : FrameKind)
    (htree : kind = .draw → scene.Unshared (s.world.root q).node) : ∃ visited errors s',
      Works (kind.walkJobs q) s (scene.runs now visited) s' ∧
      scene.Surveys now kind (s.world.root q).node visited errors ∧ Ledger now scene r (scene.runs now visited) s' ∧
      s'.driver.schedule.current = s.driver.schedule.current.filter (· ∉ visited.filter scene.hasAnimators) ∧
      s'.pass.sink = .absent ∧ s'.pass.tally.prepared = visited.length ∧ s'.pass.tally.errors = errors.length ∧
      ∀ m, s'.world.mailbox m = if m = (s.world.root q).owner then
        (s.world.mailbox m).sendAll ((Report.ofMessages? errors).toList.map .report) else s.world.mailbox m := by
  cases kind with
  | tick =>
    refine ⟨[], [], s, .nil s, ⟨rfl, rfl⟩, h, ?_, by rw [hs], by rw [hs]; rfl, by rw [hs]; rfl, fun m => ?_⟩
    · simp
    · exact (ite_self _).symm
  | draw =>
    let depth := RenderState.walkReserve + s.world.scene.nodes.size
    let s₁ := ((Job.openPass q).perform s).2
    have hscene : s.world.scene = scene := h.scene_eq
    -- no path has more nodes than there are, so the walk never ends for want of depth
    have hdeep : scene.Deep depth (s.world.root q).node := (htree rfl).deep <| by
      rw [← hscene]
      exact Nat.lt_add_of_pos_left (by decide)
    obtain ⟨visited, errors, s₂, -, hwalk⟩ := traverses_prepare hdeep ((htree rfl).nodup_preorder depth) [] s₁
      (h.of_eq rfl rfl) fun _ _ hm => absurd hm List.not_mem_nil
    have hopen : s₁.Collects q [] := by
      refine ⟨rfl, ?_⟩
      show ((s.world.setRoot q { s.world.root q with openPass := some [] }).root q).openPass = _
      rw [World.root_setRoot, if_pos rfl]
    -- the pass collects what the walk reports, so nothing is sent before it is closed
    have hhushed : s₂.Hushed s.world := by
      refine hwalk.works.hushed (fun j hj => ?_) ⟨fun m => rfl, fun q hq => ?_⟩
      · rw [List.mem_singleton.1 hj]
        trivial
      · cases hq
        rw [hopen.openPass]
        rfl
    have howner : (s₂.world.root q).owner = (s.world.root q).owner :=
      (hwalk.works.owner q).trans (Job.owner_perform (.openPass q) s q)
    let s₃ := ((Job.closePass q s.pass.sink).perform s₂).2
    have hclose : Works [.closePass q s.pass.sink] s₂ [] s₃ := .single rfl
    have hworks : Works [.openPass q] s (scene.runs now visited) s₃ := by
      have hboth := hwalk.works.append hclose
      rw [List.append_nil] at hboth
      exact .through rfl hboth
    have hwalks := hwalk.walks
    rw [show s₁.world.scene = scene from hscene] at hwalks
    have hprepared : s₃.pass.tally.prepared = s.pass.tally.prepared + visited.length := hwalk.logs.prepared
    have herrors : s₃.pass.tally.errors = s.pass.tally.errors + errors.length := hwalk.logs.errors
    rw [hs] at hprepared herrors
    refine ⟨visited, errors, s₃, hworks, ⟨_, hwalks⟩, ?_, hwalk.current, congrArg Pass.sink hs,
      hprepared.trans (Nat.zero_add _), herrors.trans (Nat.zero_add _), fun m => ?_⟩
    · exact hwalk.ledger.of_eq (Job.scene_perform (.closePass q s.pass.sink) s₂) rfl
    · show (s₂.world.endPass q).mailbox m = _
      rw [World.mailbox_endPass, howner, hhushed.mailbox, (hwalk.logs.collects q [] hopen).openPass]
      rfl

/-- **The rest of the active set**, which the walk did not reach. -/
theorem Ledger.remaining (h : Ledger now scene r ds s) (hs : s.pass.sink = .absent)
    (hnodup : s.driver.schedule.current.Nodup) (hnew : ∀ n ∈ s.driver.schedule.current, n ∉ ds.map Deed.node) :
    let others := s.driver.schedule.current.map (scene.upkeep now)
    ∃ s', Works [.takeLeftovers, .noteActive] s others s' ∧ Ledger now scene r (ds ++ others) s' ∧
      s'.driver.schedule.current = [] ∧ s'.Hushed s.world := by
  intro others
  let s₁ := ((Job.takeLeftovers).perform s).2
  have h₁ : Ledger now scene r ds s₁ :=
    ⟨h.scene_eq, h.outlet, h.frameTime, h.next, ⟨h.exact.mem, h.exact.nodup⟩, h.nodup⟩
  obtain ⟨s₂, hw, hl, hc⟩ := h₁.leftovers hnodup hnew
  have hworks : Works [.takeLeftovers, .noteActive] s others ((Job.noteActive).perform s₂).2 := by
    have hboth := (Works.through (j := .takeLeftovers) rfl hw).append (Works.single (j := .noteActive) (s := s₂) rfl)
    rw [show ((Job.noteActive).deed? s₂).toList = [] from rfl, List.append_nil] at hboth
    exact hboth
  refine ⟨_, hworks, hl.of_eq rfl rfl, hc, ?_⟩
  refine hworks.hushed (fun j hj => ?_) ⟨fun m => rfl, fun q hq => by rw [hs] at hq; cases hq⟩
  simp only [List.mem_cons, List.not_mem_nil, or_false] at hj
  rcases hj with rfl | rfl <;> trivial

/-- The active set of a frame, which is what was scheduled and then what was registered, holds no node twice. -/
theorem Driver.nodup_startFrame {d : Driver} {w : World κ} (ho : d.outlet = .deferred r []) (hx : d.schedule.Exact)
    (hc : d.schedule.current = []) : (d.startFrame w).2.1.schedule.current.Nodup := by
  have hactive : (d.startFrame w).2.1.schedule.current =
      ((w.takePending r).1.foldl Schedule.add d.schedule).current ++
        ((w.takePending r).1.foldl Schedule.add d.schedule).next := by
    simp only [Driver.startFrame, ho]
    rfl
  rw [hactive, Schedule.current_foldl_add, hc, List.nil_append]
  exact (hx.foldl_add _).nodup

/-- **The jobs of a frame** over the graph of root `q`, with completions deferred to the owner of root `r`: up to the
last of them, which posts what the ledger says. -/
theorem Works.frame (ho : s.driver.outlet = .deferred r []) (hx : s.driver.schedule.Exact)
    (hc : s.driver.schedule.current = []) (q : RootId) (kind : FrameKind)
    (htree : kind = .draw → s.world.scene.Unshared (s.world.root q).node) :
    let started := (s.driver.startFrame s.world).2.1
    ∃ visited errors s',
      let turns := s.world.scene.turns started.frameTime started.schedule.current visited
      Works (Task.frameJobs q kind) s turns (Job.post.perform s').2 ∧
      s.world.scene.Surveys started.frameTime kind (s.world.root q).node visited errors ∧
      Ledger started.frameTime s.world.scene r turns s' ∧ s'.driver.schedule.current = [] ∧
      s'.pass.tally.prepared = visited.length ∧ s'.pass.tally.errors = errors.length ∧
      (∀ q, (s'.world.root q).owner = (s.world.root q).owner) ∧
      ∀ m, s'.world.mailbox m = if m = (s.world.root q).owner then
        (s.world.mailbox m).sendAll ((Report.ofMessages? errors).toList.map .report) else s.world.mailbox m := by
  intro started
  obtain ⟨hopen, hl₁, hs₁, hnode⟩ := Works.opening ho
  obtain ⟨visited, errors, s₂, hpass, hwalks, hl₂, hc₂, habsent, hprepared, herrors, hsent⟩ :=
    hl₁.pass rfl (q := q) kind fun hk => hnode q ▸ htree hk
  have hcurrent : s₂.driver.schedule.current =
      started.schedule.current.filter (· ∉ visited.filter s.world.scene.hasAnimators) := hc₂
  -- the walk took off what it ran, so whatever is left of the active set is new to the ledger
  obtain ⟨s₃, hrest, hl₃, hc₃, hs₃⟩ := hl₂.remaining habsent
    (hcurrent ▸ (Driver.nodup_startFrame ho hx hc).filter _) fun n hn hd => by
      rw [hcurrent, List.mem_filter] at hn
      rw [Scene.nodes_runs] at hd
      exact of_decide_eq_true hn.2 hd
  rw [hcurrent] at hrest hl₃
  have hworks := hpass.append hrest
  have hall := hopen.append (hworks.append (Works.single (j := .post) (s := s₃) rfl))
  rw [List.nil_append, show ((Job.post).deed? s₃).toList = [] from rfl, List.append_nil] at hall
  have hjobs : [.startFrame, .newPass] ++ (kind.walkJobs q ++ [.takeLeftovers, .noteActive] ++ [.post]) =
      Task.frameJobs q kind := by
    cases kind <;> rfl
  obtain ⟨hp, he⟩ := hrest.tally fun j hj => by
    simp only [List.mem_cons, List.not_mem_nil, or_false] at hj
    rcases hj with rfl | rfl <;> trivial
  refine ⟨visited, errors, s₃, hjobs ▸ hall, hnode q ▸ hwalks, hl₃, hc₃, hp.trans hprepared, he.trans herrors,
    fun q => (hworks.owner q).trans (hopen.owner q), fun m => ?_⟩
  rw [hs₃.mailbox, hsent, hopen.owner q, hs₁.mailbox]

end Parts

end SceneAnimation
