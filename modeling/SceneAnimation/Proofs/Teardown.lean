import SceneAnimation.Proofs.Delivery
import SceneAnimation.Proofs.Endings
import SceneAnimation.Proofs.Passes
import SceneAnimation.Proofs.Timing
/-!
# Teardown: a driver ends what is active, and says so once

A driver is torn down between any two of its operations, also in the middle of a frame.  It then ends the animators of
all nodes that are scheduled, and posts one batch: what it still held from before, and then what it has ended
(`Driver.tearsDown_destroy`).  In a driver that is used by hand, and beside which other drivers run, nothing of this has
been posted before (`Threads.teardown_run`).
-/
namespace SceneAnimation

/-! ## The driver -/

namespace Driver

variable {κ : Type} {d : Driver} {w : World κ} {r : RootId} {held : List Completion}

/-- All nodes that are scheduled: those that have not run in this frame, and then those of the next. -/
def active (d : Driver) : List NodeId := d.schedule.current ++ d.schedule.next

/-- What a teardown sends: what the driver holds, and then what it ends. -/
def lastBatch (d : Driver) (held : List Completion) (s : Scene) : List Completion :=
  held ++ s.completions (s.ongoing d.active)

/-- **What a teardown of a driver does**, if the driver holds completions for the owner of root `r`.  The animators of
its active nodes are ended, nothing is scheduled any more, and what was held and what has been ended is sent to the
owner as one batch, if it is anything at all. -/
structure TearsDown (d : Driver) (r : RootId) (held : List Completion) (w : World κ) (d' : Driver) (w' : World κ) :
    Prop where
  scene : w.scene.Ended d.active w'.scene
  driver : d' = { d with
    schedule := { d.schedule with current := [], next := [], scheduled := [] }, outlet := .deferred r [] }
  mailbox : ∀ m, w'.mailbox m = if m = (w.root r).owner then
      (w.mailbox m).sendAll
        (if d.lastBatch held w.scene = [] then [] else [.completions (d.lastBatch held w.scene)])
    else w.mailbox m
  roots : w'.roots = w.roots
  clocks : w'.clocks = w.clocks

/-- Nodes are ended one after the other, and what this finds is held. -/
theorem finishNodes (react : Reaction κ) : ∀ (ns : List NodeId) (d : Driver) (w : World κ) (held : List Completion),
    d.outlet = .deferred r held → ns.foldl (finishNode react) (d, w) =
      ({ d with outlet := .deferred r (held ++ Deed.findings w.scene (ns.map .finish)) },
        { w with scene := Deed.effects w.scene (ns.map .finish) })
  | [], d, w, held, ho => by
    have hheld : held ++ Deed.findings w.scene ([].map .finish) = held := List.append_nil held
    rw [hheld, ← ho]
    rfl
  | n :: ns, d, w, held, ho => by
    let batch := (w.scene.finishAll n).1
    have hfirst : finishNode react (d, w) n =
        ({ d with outlet := .deferred r (held ++ batch) }, { w with scene := (w.scene.finishAll n).2 }) := by
      simp only [finishNode, report, ho]
      rfl
    rw [List.foldl_cons, hfirst, finishNodes react ns _ _ (held ++ batch) rfl, List.append_assoc]
    rfl

/-- A post touches mailboxes only. -/
theorem world_post (r : RootId) (held : List Completion) (w : World κ) :
    ∃ mailboxes, ((Outlet.deferred r held).post w).2.2 = { w with mailboxes } := by
  cases held with
  | nil => exact ⟨w.mailboxes, rfl⟩
  | cons c held => exact ⟨_, rfl⟩

/-- **A teardown**, whatever listeners would do. -/
theorem tearsDown_destroy (react : Reaction κ) (w : World κ) (ho : d.outlet = .deferred r held) :
    d.TearsDown r held w (d.destroy react w).1 (d.destroy react w).2 := by
  let scene := Deed.effects w.scene (d.active.map .finish)
  have hfinish := finishNodes react d.active { d with schedule := d.schedule.takeAll.2 } w held ho
  rw [Scene.findings_finish] at hfinish
  let batch := d.lastBatch held w.scene
  have hdestroy : d.destroy react w =
      ({ d with schedule := d.schedule.takeAll.2, outlet := ((Outlet.deferred r batch).post { w with scene }).2.1 },
        ((Outlet.deferred r batch).post { w with scene }).2.2) := by
    simp only [destroy]
    rw [show d.schedule.takeAll.1.foldl (finishNode react) _ = _ from hfinish]
    rfl
  obtain ⟨mailboxes, hworld⟩ := world_post r batch { w with scene }
  rw [hdestroy, Outlet.outlet_post]
  exact {
    scene := by
      rw [hworld]
      exact Scene.ended_effects ..
    driver := rfl
    mailbox := fun m => Outlet.mailbox_post r batch { w with scene } m
    roots := by rw [hworld]
    clocks := by rw [hworld] }

/-- A new driver starts its first frame with what waits at its root. -/
theorem first_frame (r : RootId) (clock : ClockId) (w : World κ) :
    let d := (((DriverKind.deferred r).create clock).startFrame w).2.1
    d.frameIndex = 1 ∧ d.schedule.current = (w.root r).pending.eraseDups := by
  intro d
  refine ⟨(frame_startFrame ..).2, ?_⟩
  have hexact : ({} : Schedule).Exact := Schedule.exact_empty rfl rfl
  show ((w.root r).pending.foldl Schedule.add {}).current ++ ((w.root r).pending.foldl Schedule.add {}).next = _
  rw [Schedule.current_foldl_add, hexact.next_foldl_add]
  simp

end Driver

/-! ## What has been found, and what has been sent -/

namespace Threads

variable {κ : Type} {t : Threads κ} {r : RootId}

/-- What a move finds finished, whichever driver runs or ends the node. -/
def finds (t : Threads κ) (x : Move κ) : List Completion := (t.deed? x).toList.flatMap (·.finds t.scene)

/-- What the client hands to the driver, as if the driver had found it. -/
def offers (t : Threads κ) : Move κ → List Completion
  | .ask (.reportFinished c) => if t.jobs.isEmpty && t.equipped then [c] else []
  | _ => []

/-- What the driver gets to send: it finds it itself, or is handed it. -/
def gains (t : Threads κ) : Move κ → List Completion
  | .step .job => t.detects .job
  | x => t.offers x

/-- What the driver sends. -/
def dispatches (t : Threads κ) : Move κ → List Completion
  | .step .job =>
    match t.jobs with
    | .post :: _ => t.held
    | _ => []
  | _ => []

def found (t : Threads κ) (xs : List (Move κ)) : List Completion := trail move finds t xs

def offered (t : Threads κ) (xs : List (Move κ)) : List Completion := trail move offers t xs

def gained (t : Threads κ) (xs : List (Move κ)) : List Completion := trail move gains t xs

def dispatched (t : Threads κ) (xs : List (Move κ)) : List Completion := trail move dispatches t xs

theorem detects_job_eq (t : Threads κ) : t.detects .job = t.finds (.step .job) := by
  rw [detects, finds, deed?]
  cases t.jobs with
  | nil => rfl
  | cons j rest => cases j <;> rfl

/-- What the driver gets to send has been found, or handed to it. -/
theorem count_gained (c : Completion) : ∀ (xs : List (Move κ)) (t : Threads κ),
    (t.gained xs).count c ≤ (t.found xs).count c + (t.offered xs).count c
  | [], _ => Nat.le_refl 0
  | x :: xs, t => by
    have hstep : (t.gains x).count c ≤ (t.finds x).count c + (t.offers x).count c := by
      unfold gains
      split
      · rw [detects_job_eq]
        exact Nat.le_add_right ..
      · exact Nat.le_add_left ..
    have hrest := count_gained c xs (t.move x)
    simp only [gained, found, offered, trail, List.count_append] at hrest ⊢
    omega

/-! ### Each animator is found once -/

variable {found gained sent : List Completion}

theorem Detection.move (hn : t.Numbered) (h : Detection found t.scene) (x : Move κ) :
    Detection (found ++ t.finds x) (t.move x).scene := by
  rw [finds]
  rcases t.scene_move x with ⟨d, hd, hscene⟩ | ⟨hd, ⟨c, -, -, hscene⟩ | ⟨-, hscene⟩⟩
  · rw [hd, hscene, Option.toList_some, List.flatMap_singleton]
    exact h.deed d
  · rw [hd, hscene, Option.toList_none, List.flatMap_nil, List.append_nil]
    exact h.effect hn.world.scene c
  · rw [hd, hscene, Option.toList_none, List.flatMap_nil, List.append_nil]
    exact h

/-- **Whatever drivers do, each animator with a listener is found once**, and as soon as it is finished. -/
theorem detection_moves (root : RootId) (kind : DriverKind) (clock : ClockId) (client : κ) (xs : List (Move κ)) :
    Detection ((blank root kind clock client).found xs) ((blank root kind clock client).moves xs).scene :=
  (foldl_keeps_trail (f := finds) (g := fun _ _ => ([] : List Unit))
    (P := fun found _ t => t.Numbered ∧ Detection found t.scene)
    (fun _ _ _ x h => ⟨h.1.move x, h.2.move h.1 x⟩) xs [] [] _ ⟨numbered_blank .., detection_blank⟩).2

/-! ### What has been found is sent once -/

theorem orderly_ask (o : Outlet) (w : World κ) (q : Request) : Orderly o (q.jobs w) where
  told c hc := by cases q <;> simp [Request.jobs] at hc
  reported batch hb := by cases q <;> simp [Request.jobs] at hb
  renewed before d after he := by
    have hmem : Job.renew d ∈ q.jobs w := he ▸ List.mem_append.2 (.inr List.mem_cons_self)
    cases q <;> simp [Request.jobs] at hmem

/-- **The account of one driver**: what it has sent, what it holds, and what it is about to hold make up what it got to
send, in order. -/
structure Carries (r : RootId) (gained sent : List Completion) (t : Threads κ) : Prop where
  kind : t.kind = .deferred r
  orderly : Orderly t.driver.outlet t.jobs
  balance : sent ++ t.held ++ t.raised = gained

theorem Carries.job (hn : t.Numbered) (h : t.Carries r gained sent) {j : Job} {rest : List Job}
    (hj : t.jobs = j :: rest) : Carries r (gained ++ t.gains (.step .job)) (sent ++ t.dispatches (.step .job))
      { t with jobs := (j.perform t.state).1 ++ rest, state := (j.perform t.state).2 } := by
  have ho : t.state.driver.outlet.root? = some r := hn.root?.trans (by rw [target?, h.kind])
  have horderly : Orderly t.state.driver.outlet (j :: rest) := hj ▸ h.orderly
  have hbalance : sent ++ t.state.driver.outlet.held ++ Job.raised (j :: rest) = gained := hj ▸ h.balance
  have hsent : t.dispatches (.step .job) = j.posts t.state := by
    rw [dispatches, hj]
    cases j <;> rfl
  refine ⟨h.kind, horderly.perform ho, ?_⟩
  calc sent ++ t.dispatches (.step .job) ++ (j.perform t.state).2.driver.outlet.held ++
        Job.raised ((j.perform t.state).1 ++ rest)
      = sent ++ (j.posts t.state ++ (j.perform t.state).2.driver.outlet.held ++
          Job.raised ((j.perform t.state).1 ++ rest)) := by
        rw [hsent]
        simp only [List.append_assoc]
    _ = gained ++ t.detects .job := by
        rw [horderly.balance_perform ho, detects_job hj, ← hbalance]
        simp only [List.append_assoc]

theorem Carries.move (hn : t.Numbered) (h : t.Carries r gained sent) (x : Move κ) :
    Carries r (gained ++ t.gains x) (sent ++ t.dispatches x) (t.move x) := by
  -- a move that leaves the driver and its jobs alone
  have hstay : ∀ t' : Threads κ, t'.kind = t.kind → t'.driver = t.driver → t'.jobs = t.jobs →
      Carries r (gained ++ []) (sent ++ []) t' := fun t' hkind hdriver hjobs => by
    rw [List.append_nil, List.append_nil]
    refine ⟨hkind.trans h.kind, by rw [hdriver, hjobs]; exact h.orderly, ?_⟩
    rw [held, raised, hdriver, hjobs]
    exact h.balance
  cases x with
  | elsewhere d =>
    simp only [Threads.move, undergo]
    split <;> exact hstay _ rfl rfl rfl
  | ask q =>
    simp only [Threads.move, ask]
    split
    · rename_i hq
      obtain ⟨⟨hempty, hequipped⟩, -⟩ := by simpa only [Bool.and_eq_true] using hq
      have hbalance := h.balance
      rw [raised, List.isEmpty_iff.1 hempty] at hbalance
      refine ⟨h.kind, orderly_ask .., ?_⟩
      show sent ++ [] ++ t.held ++ Job.raised (q.jobs t.world) = gained ++ t.offers (.ask q)
      have hraised : Job.raised (q.jobs t.world) = t.offers (.ask q) := by
        cases q <;> simp [Request.jobs, Job.raised, offers, hempty, hequipped]
      rw [hraised, ← hbalance, List.append_nil]
      simp [Job.raised]
    · rename_i hq
      have hnone : t.offers (.ask q) = [] := by
        cases q with
        | reportFinished c => exact if_neg fun hc => hq (by rw [hc]; rfl)
        | _ => rfl
      show Carries r (gained ++ t.offers (.ask q)) _ _
      rw [hnone]
      exact hstay _ rfl rfl rfl
  | step x =>
    refine step_rule (P := fun x t' => Carries r (gained ++ t.gains (.step x)) (sent ++ t.dispatches (.step x)) t')
      ?_ ?_ ?_ ?_ ?_ ?_ ?_ x
    · intro x _ hx
      cases x with
      | job =>
        simp only [gains, detects, dispatches, hx rfl]
        exact hstay _ rfl rfl rfl
      | _ => exact hstay _ rfl rfl rfl
    · exact fun _ _ => hstay _ rfl rfl rfl
    · exact fun _ _ => hstay _ rfl rfl rfl
    · exact fun _ _ => hstay _ rfl rfl rfl
    · exact fun _ _ _ => hstay _ rfl rfl rfl
    · intro task hj _
      have hnone := hstay t rfl rfl rfl
      refine ⟨h.kind, orderly_jobs _ _ _ _ task, ?_⟩
      have hraised : Job.raised (task.jobs t.root t.kind t.clock) = t.raised := by
        rw [raised, hj]
        cases task <;> rfl
      show sent ++ [] ++ t.held ++ Job.raised (task.jobs t.root t.kind t.clock) = gained ++ []
      rw [hraised]
      exact hnone.balance
    · exact fun j rest hj => h.job hn hj

/-- **What a driver got to send it sends once, and in order**: between two of its operations, what it has not sent yet
is what it holds. -/
theorem dispatched_moves (r root : RootId) (clock : ClockId) (client : κ) (xs : List (Move κ)) :
    let start := blank root (.deferred r) clock client
    Carries r (start.gained xs) (start.dispatched xs) (start.moves xs) :=
  (foldl_keeps_trail (f := gains) (g := dispatches)
    (P := fun gained sent t => t.Numbered ∧ Carries r gained sent t)
    (fun _ _ _ x h => ⟨h.1.move x, h.2.move h.1 x⟩) xs [] [] _
    ⟨numbered_blank .., rfl, (accounts_blank r root clock client).orderly, rfl⟩).2

/-- **A teardown ends exactly what is active, and says so once.**  A driver has been used in any way, by hand or by
tasks, with calls of the owner and deeds of other drivers in between, and is between two operations, perhaps in the
middle of a frame.  Then a teardown does what it is to do to the scene, the driver and the mail (`Driver.TearsDown`).
What it sends first is what the driver got to send and has not sent before.  What it ends no frame and no teardown has
found before, so it has been reported before only as often as the client handed it in itself; and no completion of the
batch is sent more than once, but for what the client hands in.  A reset does the same, and goes on with a new driver,
whose first frame runs what waits at the root. -/
theorem teardown_run (r root : RootId) (clock : ClockId) (client : κ) (xs : List (Move κ)) (react : Reaction κ) :
    let start := blank root (.deferred r) clock client
    let t := start.moves xs
    let d := (t.driver.destroy react t.world).1
    let w := (t.driver.destroy react t.world).2
    let batch := t.driver.lastBatch t.held t.scene
    t.jobs = [] →
      t.driver.TearsDown r t.held t.world d w ∧
      (t.world.ownerAccepts r = true → (w.mailbox (t.owner r)).queue =
        (t.world.mailbox (t.owner r)).queue ++ if batch = [] then [] else [.completions batch]) ∧
      start.dispatched xs ++ t.held = start.gained xs ∧
      (∀ a ∈ t.scene.ongoing t.driver.active, a ∉ (start.found xs).map (·.animator)) ∧
      (∀ c ∈ t.scene.completions (t.scene.ongoing t.driver.active),
        (start.dispatched xs ++ t.held).count c ≤ (start.offered xs).count c) ∧
      (∀ c, (start.dispatched xs ++ batch).count c ≤ (start.offered xs).count c + 1) ∧
      ∀ p : Pipeline, p.kind = .deferred r → p.driver = t.driver →
        let d' := (DriverKind.deferred r).create p.clock
        p.reset react t.world = ({ p with driver := d' }, w) ∧ d'.frameIndex = 0 ∧ d'.active = [] ∧
        (d'.startFrame w).2.1.schedule.current = (t.pending r).eraseDups := by
  intro start t d w batch hjobs
  have hcarries := dispatched_moves r root clock client xs
  have hdetection := detection_moves root (.deferred r) clock client xs
  have hn : t.Numbered := (numbered_blank ..).moves xs
  obtain ⟨held, ho⟩ := Outlet.deferred_of_root? (hn.root?.trans (by rw [target?, hcarries.kind]))
  have hheld : t.held = held := congrArg Outlet.held ho
  have htears : t.driver.TearsDown r t.held t.world d w := hheld ▸ Driver.tearsDown_destroy react t.world ho
  have hbalance : start.dispatched xs ++ t.held = start.gained xs := by
    have h := hcarries.balance
    rwa [show raised (start.moves xs) = [] from congrArg Job.raised hjobs, List.append_nil] at h
  have hgained := fun c => hbalance ▸ count_gained c xs start
  have hunfound : ∀ a ∈ t.scene.ongoing t.driver.active, a ∉ (start.found xs).map (·.animator) := fun a ha hf => by
    obtain ⟨c, hc, rfl⟩ := List.mem_map.1 hf
    exact (mem_unfinished.1 ha).2 ((hdetection.finished c).1 hc).2
  refine ⟨htears, fun ha => ?_, hbalance, hunfound, fun c hc => ?_, fun c => ?_, fun p hkind hp => ?_⟩
  · refine (congrArg Mailbox.queue ((htears.mailbox _).trans (if_pos rfl))).trans ?_
    exact Mailbox.queue_sendAll _ ha
  · have hnone : c ∉ start.found xs := fun hf =>
      hunfound c.animator ((Scene.mem_completions ..).1 hc).1 (List.mem_map_of_mem hf)
    have hcount := hgained c
    rwa [List.count_eq_zero_of_not_mem hnone, Nat.zero_add] at hcount
  · have hafter := hdetection.deeds (t.driver.active.map .finish)
    rw [Scene.findings_finish] at hafter
    have honce : (start.found xs ++ t.scene.completions (t.scene.ongoing t.driver.active)).count c ≤ 1 :=
      List.nodup_iff_count_le_one.1 (List.Nodup.of_map _ hafter.once) c
    have hcount := hgained c
    simp only [batch, Driver.lastBatch, List.count_append] at honce hcount ⊢
    omega
  · refine ⟨?_, rfl, rfl, ?_⟩
    · simp only [Pipeline.reset, Pipeline.destroy, hkind, hp]
      rfl
    · rw [(Driver.first_frame ..).2, World.root, htears.roots]
      rfl

/-- In the middle of a frame, the card has run and waits for the next frame, and the completion of one of its animators
is held; the tile has not run yet.  They share an animator that turns them.  The teardown turns the tile, which comes
first, and not the card. -/
theorem teardown_midframe :
    let call (c : Call Unit) : Move Unit := .step (.call c)
    let fade : Animator := { property := .alpha, finalValue := 0, duration := ⟨100⟩, listener := some ⟨1⟩ }
    let turn : Animator := { property := .rotation, finalValue := 2, duration := ⟨100⟩, listener := some ⟨2⟩ }
    let xs := (opening ⟨0⟩).map .step ++ [call (.addNode "tile"), call (.addAnimator fade), call (.addAnimator turn),
      call (.attach ⟨2⟩ ⟨2⟩), call (.attach ⟨2⟩ ⟨3⟩), call (.attach ⟨3⟩ ⟨3⟩), call (.register ⟨0⟩ ⟨3⟩),
      .ask .startFrame] ++ List.replicate 5 (.step .job) ++ [.ask (.animateNode ⟨2⟩)] ++ List.replicate 4 (.step .job)
    let t := (blank ⟨0⟩ (.deferred ⟨0⟩) ⟨0⟩ ()).moves xs
    let w := (t.driver.destroy (fun _ _ w => w) t.world).2
    t.jobs = [] ∧ t.driver.schedule.current = [⟨3⟩] ∧ t.driver.schedule.next = [⟨2⟩] ∧
    t.world.scene.Ended [⟨3⟩, ⟨2⟩] w.scene ∧ (w.mailbox (t.owner ⟨0⟩)).queue =
      [.completions [⟨⟨1⟩, ⟨0⟩⟩, ⟨⟨3⟩, ⟨2⟩⟩, ⟨⟨2⟩, ⟨1⟩⟩]] ∧
    t.scene.writersOn [⟨3⟩, ⟨2⟩] ⟨3⟩ = [⟨3⟩] ∧ t.scene.writersOn [⟨3⟩, ⟨2⟩] ⟨2⟩ = [⟨2⟩] := by
  intro call fade turn xs t w
  have hjobs : t.jobs = [] := by decide +kernel
  have hactive : t.driver.active = [⟨3⟩, ⟨2⟩] := by decide +kernel
  have haccepts : t.world.ownerAccepts ⟨0⟩ = true := by decide +kernel
  have hqueue : (t.world.mailbox (t.owner ⟨0⟩)).queue = [] := by decide +kernel
  have hbatch : t.driver.lastBatch t.held t.scene = [⟨⟨1⟩, ⟨0⟩⟩, ⟨⟨3⟩, ⟨2⟩⟩, ⟨⟨2⟩, ⟨1⟩⟩] := by decide +kernel
  have hcurrent : t.driver.schedule.current = [⟨3⟩] := by decide +kernel
  have hnext : t.driver.schedule.next = [⟨2⟩] := by decide +kernel
  have hthree : t.scene.writersOn [⟨3⟩, ⟨2⟩] ⟨3⟩ = [⟨3⟩] := by decide +kernel
  have htwo : t.scene.writersOn [⟨3⟩, ⟨2⟩] ⟨2⟩ = [⟨2⟩] := by decide +kernel
  have h := teardown_run ⟨0⟩ ⟨0⟩ ⟨0⟩ () xs (fun _ _ w => w)
  simp only [t, w] at hjobs hactive haccepts hqueue hbatch hcurrent hnext hthree htwo ⊢
  obtain ⟨htears, hmail, -⟩ := h hjobs
  have hscene := htears.scene
  have hsent := hmail haccepts
  rw [hactive] at hscene
  rw [hbatch, hqueue] at hsent
  exact ⟨hjobs, hcurrent, hnext, hscene, hsent, hthree, htwo⟩

end Threads

end SceneAnimation
