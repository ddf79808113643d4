import SceneAnimation.Proofs.Threads.Moves
import SceneAnimation.Proofs.Threads.Reports
import SceneAnimation.Proofs.Delivery
/-!
# Errors: what is reported on a root reaches its owner, once and in order

An error on a root is sent to the owner at once, or joins the messages of the pass under way, which are sent as one
report when the walk has ended (`Threads.heard_turn`).  Errors come from the owner's code, from listeners in the middle
of a pass, and from the walk.  While the owner's mailbox is open, what was sent and what the pass holds make up what was
reported (`Threads.errors_run`).
-/
namespace SceneAnimation

/-- A move of the threads, or a new pass for the idle driver, with an error handler of its own. -/
inductive Turn (κ : Type) where
  | move (x : Move κ)
  | info (pass : Pass)

def ErrorSink.made {κ : Type} (w : World κ) : ErrorSink → Bool
  | .root q => decide (q ∈ w.roots)
  | _ => true

namespace Job

variable {κ : Type} {s : RenderState κ} {j k : Job}

def boundsPass : Job → Bool
  | .openPass _ | .closePass .. => true
  | _ => false

/-- Whether a job can be part of a walk. -/
def Walks : Job → Prop
  | .prepare .. | .enter _ | .check .. | .descend .. | .skip .. | .visit _ | .run .. | .report _ | .tell _ | .keep .. =>
    True
  | _ => False

theorem walks_of_leaves (h : Leaves s j k) (hj : j.Walks) : k.Walks := by
  cases h with
  | takePending | beginFrame | schedule | prepareRoot | closePass | leftover | discard | runLeftover | finish | post
    | reportFinish => exact absurd hj id
  | _ => trivial

theorem boundsPass_of_leaves (h : Leaves s j k) (hk : k.boundsPass = true) :
    ∃ r, j = .openPass r ∧ k = .closePass r s.pass.sink := by
  cases h with
  | closePass => exact ⟨_, rfl, rfl⟩
  | _ => cases hk

theorem countP_boundsPass (j : Job) (s : RenderState κ) :
    (j.perform s).1.countP boundsPass ≤ [j].countP boundsPass := by
  cases j with
  | openPass r => exact Nat.le_refl 1
  | _ =>
    rw [List.countP_eq_zero.2 fun k hk hb => ?_]
    · exact Nat.zero_le _
    · obtain ⟨r, hj, -⟩ := boundsPass_of_leaves (leaves_of_mem hk) hb
      cases hj

/-- A job that bounds no pass leaves the ends of passes to come as they were. -/
theorem exists_closePass_perform (hb : j.boundsPass = false) (s : RenderState κ) (rest : List Job) (r : RootId) :
    (∃ sink, .closePass r sink ∈ (j.perform s).1 ++ rest) ↔ ∃ sink, .closePass r sink ∈ j :: rest := by
  refine ⟨fun ⟨sink, hs⟩ => ⟨sink, ?_⟩, fun ⟨sink, hs⟩ => ⟨sink, List.mem_append.2 (.inr ?_)⟩⟩
  · refine List.mem_cons_of_mem j ((List.mem_append.1 hs).resolve_left fun hs => ?_)
    obtain ⟨_, rfl, -⟩ := boundsPass_of_leaves (leaves_of_mem hs) rfl
    cases hb
  · refine (List.mem_cons.1 hs).resolve_left ?_
    rintro rfl
    cases hb

theorem sink_of_walks (hj : j.Walks) {r : RootId} (hs : s.pass.sink = .root r) :
    (j.perform s).2.pass.sink = .root r := by
  refine (sink_perform j s r).2 ?_
  cases j with
  | newPass | openPass q | closePass q sink => exact hj.elim
  | _ => exact hs

end Job

namespace Threads

variable {κ : Type} {t : Threads κ} {r : RootId}

/-- The idle driver is given a new pass, whose errors may go to any root that has been made. -/
def renewPass (t : Threads κ) (pass : Pass) : Threads κ :=
  if t.jobs.isEmpty && pass.sink.made t.world then { t with state := { t.state with pass } } else t

def turn (t : Threads κ) : Turn κ → Threads κ
  | .move x => t.move x
  | .info pass => t.renewPass pass

def turns (t : Threads κ) (xs : List (Turn κ)) : Threads κ := xs.foldl turn t

def jobTurn : Turn κ := .move (.step .job)

theorem turns_append (t : Threads κ) (xs ys : List (Turn κ)) : t.turns (xs ++ ys) = (t.turns xs).turns ys :=
  List.foldl_append

theorem jobs_turns_ask {xs : List (Turn κ)} {q : Request}
    (h : ((t.turns xs).jobs.isEmpty && (t.turns xs).equipped && q.named (t.turns xs).world) = true) :
    (t.turns (xs ++ [.move (.ask q)])).jobs = q.jobs (t.turns xs).world := by
  have hask : (t.turns xs).turn (.move (.ask q)) = { t.turns xs with jobs := q.jobs (t.turns xs).world } := if_pos h
  rw [turns_append, turns, List.foldl_cons, List.foldl_nil, hask]

theorem Numbered.turn (h : t.Numbered) : ∀ x : Turn κ, (t.turn x).Numbered
  | .move x => h.move x
  | .info pass => by
    simp only [Threads.turn, renewPass]
    split
    · rename_i hc
      rw [Bool.and_eq_true] at hc
      have hjobs : ∀ j ∈ t.jobs, j.Known { t.state with pass } := fun j hj => by
        rw [List.isEmpty_iff.1 hc.1] at hj
        cases hj
      refine ⟨{ h.known with sink := fun q hq => ?_ }, h.root?, h.equipped, hjobs⟩
      have hmade : pass.sink.made t.world = true := hc.2
      rw [show pass.sink = .root q from hq] at hmade
      exact of_decide_eq_true hmade
    · exact h

theorem Numbered.turns (h : t.Numbered) (xs : List (Turn κ)) : (t.turns xs).Numbered := by
  induction xs generalizing t with
  | nil => exact h
  | cons x xs ih => exact ih (h.turn x)

/-! ## What is reported, and what is sent -/

/-- The message that a turn reports on root `r`, as the owner's call gives it or as the walk puts it. -/
def messages (r : RootId) (t : Threads κ) : Turn κ → List String
  | .move (.step (.call (.reportError q message))) => if q = r ∧ q ∈ t.world.roots then [message] else []
  | .move (.step .job) =>
    match t.jobs with
    | .skip n problem :: _ => if t.state.pass.sink = .root r then [Job.errorText t.state n problem] else []
    | _ => []
  | _ => []

/-- Whether a turn sends reports on behalf of someone else than root `r`. -/
def byOther (r : RootId) (t : Threads κ) : Turn κ → Bool
  | .move (.step (.call (.sendReport ..))) => true
  | .move (.step (.call (.reportError q _))) => decide (q ≠ r)
  | .move (.step .job) =>
    match t.jobs with
    | .skip .. :: _ => decide (t.state.pass.sink ≠ .root r)
    | .closePass q _ :: _ => decide (q ≠ r)
    | _ => false
  | _ => false

/-- The reports of root `r` that a turn brings to the mailbox of its owner. -/
def posts (r : RootId) (t : Threads κ) (x : Turn κ) : List Report :=
  if t.byOther r x then [] else t.world.arrivals (t.turn x).world (t.owner r)

def reported (r : RootId) (t : Threads κ) (xs : List (Turn κ)) : List String := trail turn (messages r) t xs

def posted (r : RootId) (t : Threads κ) (xs : List (Turn κ)) : List Report := trail turn (posts r) t xs

def openPass (t : Threads κ) (r : RootId) : Option (List String) := (t.world.root r).openPass

/-- Whether a pass over root `r` is under way. -/
def Passing (t : Threads κ) (r : RootId) : Prop := ∃ sink, .closePass r sink ∈ t.jobs

/-- Whether a turn begins a pass over root `r`. -/
def opens (r : RootId) (t : Threads κ) : Turn κ → Bool
  | .move (.step .job) =>
    match t.jobs with
    | .openPass q :: _ => decide (q = r)
    | _ => false
  | _ => false

/-- Whether a turn ends a pass over root `r`. -/
def closes (r : RootId) (t : Threads κ) : Turn κ → Bool
  | .move (.step .job) =>
    match t.jobs with
    | .closePass q _ :: _ => decide (q = r)
    | _ => false
  | _ => false

theorem jobs_of_opens {x : Turn κ} (h : t.opens r x = true) : x = jobTurn ∧ ∃ rest, t.jobs = .openPass r :: rest := by
  unfold opens at h
  split at h
  · split at h
    · rename_i q rest hj
      exact ⟨rfl, rest, of_decide_eq_true h ▸ hj⟩
    · cases h
  · cases h

theorem jobs_of_closes {x : Turn κ} (h : t.closes r x = true) :
    x = jobTurn ∧ ∃ sink rest, t.jobs = .closePass r sink :: rest := by
  unfold closes at h
  split at h
  · split at h
    · rename_i q sink rest hj
      exact ⟨rfl, sink, rest, of_decide_eq_true h ▸ hj⟩
    · cases h
  · cases h

/-- **What one turn does to the errors of root `r`**: outside a pass a message is sent at once, inside it waits, and
the end of a pass sends what waits. -/
structure Heard (r : RootId) (t : Threads κ) (x : Turn κ) : Prop where
  openPass : (t.turn x).openPass r =
    if t.opens r x then some [] else if t.closes r x then none else (t.openPass r).map (· ++ t.messages r x)
  posts : t.posts r x = if t.world.accepts (t.owner r) = true then
    if t.closes r x then (Report.ofMessages? ((t.openPass r).getD [])).toList
    else if (t.openPass r).isSome then [] else (t.messages r x).map .single else []

theorem heard_of_silent {x : Turn κ} (hm : t.messages r x = []) (ho : t.opens r x = false) (hc : t.closes r x = false)
    (hpass : (t.turn x).openPass r = t.openPass r)
    (harr : t.byOther r x = true ∨ t.world.arrivals (t.turn x).world (t.owner r) = []) : Heard r t x where
  openPass := by
    rw [hpass, ho, hc, hm]
    simp
  posts := by
    have hnone : t.posts r x = [] := by
      rw [Threads.posts]
      rcases harr with h | h
      · rw [if_pos h]
      · rw [h, ite_self]
    rw [hnone, hc, hm]
    simp

theorem single_post (o : Option (List String)) (a : Bool) (m : MailboxId) (message : String) :
    (if false = true then [] else if o = none ∧ m = m ∧ a = true then [Report.single message] else []) =
      if a = true then if false = true then (Report.ofMessages? (o.getD [])).toList
        else if o.isSome = true then [] else [message].map .single else [] := by
  cases o <;> cases a <;> simp

theorem heard_call (hn : t.Numbered) (c : Call κ) : Heard r t (.move (.step (.call c))) := by
  have hpass := Call.openPass_effect hn.world c r
  have harr := Call.arrivals_effect hn.world c (t.owner r)
  by_cases hc : c.named t.world = true
  · have hturn : (t.turn (.move (.step (.call c)))).world = c.effect t.world := by
      show (t.make c).world = _
      rw [make, if_pos hc]
      rfl
    cases c with
    | reportError q message =>
      have hq : q ∈ t.world.roots := of_decide_eq_true hc
      by_cases hr : q = r
      · subst hr
        have hm : t.messages q (.move (.step (.call (.reportError q message)))) = [message] := if_pos ⟨rfl, hq⟩
        constructor
        · rw [Threads.openPass, hturn, hpass, hm]
          exact if_pos rfl
        · have hother : t.byOther q (.move (.step (.call (.reportError q message)))) = false := by simp [byOther]
          rw [Threads.posts, hother, hturn, harr, hm]
          exact single_post ..
      · refine heard_of_silent (if_neg fun h => hr h.1) rfl rfl ?_ (.inl (by simp [byOther, hr]))
        rw [Threads.openPass, hturn, hpass]
        exact if_neg hr
    | sendReport m report =>
      refine heard_of_silent rfl rfl rfl ?_ (.inl rfl)
      rw [Threads.openPass, hturn]
      exact hpass
    | _ =>
      refine heard_of_silent rfl rfl rfl ?_ (.inr ?_)
      · rw [Threads.openPass, hturn]
        exact hpass
      · rw [hturn]
        exact harr
  · have hturn : t.turn (.move (.step (.call c))) = t := by
      show t.make c = t
      rw [make, if_neg hc]
    refine heard_of_silent ?_ rfl rfl (by rw [hturn]) (.inr (by rw [hturn]; exact World.arrivals_of_mailbox rfl))
    cases c with
    | reportError q message =>
      refine if_neg fun h => hc ?_
      exact decide_eq_true h.2
    | _ => rfl

theorem turn_of_jobs_nil (hj : t.jobs = []) : t.turn jobTurn = t := by
  show t.doJob = t
  rw [doJob, hj]

theorem world_turn {j : Job} {rest : List Job} (hj : t.jobs = j :: rest) :
    (t.turn jobTurn).world = (j.perform t.state).2.world :=
  congrArg Threads.world (move_job hj)

theorem heard_skip {n : NodeId} {problem : String} {rest : List Job} (hj : t.jobs = .skip n problem :: rest) :
    Heard r t jobTurn := by
  have hpass := Job.openPass_perform (.skip n problem) t.state r
  have harr := Job.arrivals_perform (.skip n problem) t.state (t.owner r)
  have hm : t.messages r jobTurn = if t.state.pass.sink = .root r then [Job.errorText t.state n problem] else [] := by
    simp only [jobTurn, messages, hj]
  have hopens : t.opens r jobTurn = false := by simp only [jobTurn, opens, hj]
  have hcloses : t.closes r jobTurn = false := by simp only [jobTurn, closes, hj]
  by_cases hs : t.state.pass.sink = .root r
  · have hother : t.byOther r jobTurn = false := by simp [jobTurn, byOther, hj, hs]
    rw [if_pos hs] at hm
    constructor
    · rw [Threads.openPass, world_turn hj, hopens, hcloses, hm]
      exact hpass.trans (if_pos hs)
    · rw [Threads.posts, hother, world_turn hj, hcloses, hm]
      simp only [hs] at harr
      exact (congrArg (fun l => if false = true then [] else l) harr).trans (single_post ..)
  · rw [if_neg hs] at hm
    refine heard_of_silent hm hopens hcloses ?_ (.inl (by simp [jobTurn, byOther, hj, hs]))
    rw [Threads.openPass, world_turn hj]
    exact hpass.trans (if_neg hs)

theorem heard_openPass {q : RootId} {rest : List Job} (hj : t.jobs = .openPass q :: rest) : Heard r t jobTurn := by
  have hm : t.messages r jobTurn = [] := by simp only [jobTurn, messages, hj]
  have hopens : t.opens r jobTurn = decide (q = r) := by simp only [jobTurn, opens, hj]
  have hcloses : t.closes r jobTurn = false := by simp only [jobTurn, closes, hj]
  constructor
  · rw [Threads.openPass, world_turn hj, hopens, hcloses, hm, Job.openPass_perform]
    by_cases hq : q = r
    · simp [hq]
    · simp [hq, Threads.openPass, world]
  · have hnone : t.world.arrivals (t.turn jobTurn).world (t.owner r) = [] := by
      rw [world_turn hj]
      exact Job.arrivals_perform (.openPass q) t.state (t.owner r)
    rw [Threads.posts, hnone, hcloses, hm]
    simp

theorem heard_closePass {q : RootId} {sink : ErrorSink} {rest : List Job} (hj : t.jobs = .closePass q sink :: rest) :
    Heard r t jobTurn := by
  have hpass := Job.openPass_perform (.closePass q sink) t.state r
  have harr := Job.arrivals_perform (.closePass q sink) t.state (t.owner r)
  have hm : t.messages r jobTurn = [] := by simp only [jobTurn, messages, hj]
  have hopens : t.opens r jobTurn = false := by simp only [jobTurn, opens, hj]
  have hcloses : t.closes r jobTurn = decide (q = r) := by simp only [jobTurn, closes, hj]
  have hother : t.byOther r jobTurn = decide (q ≠ r) := by simp only [jobTurn, byOther, hj]
  by_cases hq : q = r
  · subst hq
    constructor
    · rw [Threads.openPass, world_turn hj, hopens, hcloses, hm, hpass]
      simp
    · rw [Threads.posts, hother, world_turn hj, hcloses]
      simp only [ne_eq, not_true_eq_false, decide_false, decide_true, Bool.false_eq_true, if_false, if_true]
      exact harr.trans (if_congr ⟨And.right, fun ha => ⟨rfl, ha⟩⟩ rfl rfl)
  · refine heard_of_silent hm hopens (by rw [hcloses]; exact decide_eq_false hq) ?_
      (.inl (by rw [hother]; exact decide_eq_true hq))
    rw [Threads.openPass, world_turn hj]
    exact hpass.trans (if_neg hq)

theorem heard_job : Heard r t jobTurn := by
  cases hj : t.jobs with
  | nil =>
    have hturn := turn_of_jobs_nil hj
    refine heard_of_silent ?_ ?_ ?_ (by rw [hturn]) (.inr (by rw [hturn]; exact World.arrivals_of_mailbox rfl)) <;>
      simp only [jobTurn, messages, opens, closes, hj]
  | cons j rest =>
    have hpass := Job.openPass_perform j t.state r
    have harr := Job.arrivals_perform j t.state (t.owner r)
    cases j with
    | skip n problem => exact heard_skip hj
    | openPass q => exact heard_openPass hj
    | closePass q sink => exact heard_closePass hj
    | _ =>
      refine heard_of_silent ?_ ?_ ?_ ?_ (.inr ?_)
      · simp only [jobTurn, messages, hj]
      · simp only [jobTurn, opens, hj]
      · simp only [jobTurn, closes, hj]
      · rw [Threads.openPass, world_turn hj]
        exact hpass
      · rw [world_turn hj]
        exact harr

theorem countP_jobs (root : RootId) (k : DriverKind) (clock : ClockId) (task : Task) :
    (task.jobs root k clock).countP Job.boundsPass ≤ 1 ∧
      ∀ r sink, ¬ .closePass r sink ∈ task.jobs root k clock := by
  cases task <;> simp [Task.jobs, Task.frameJobs, Job.boundsPass, List.countP_cons]

theorem countP_requests (w : World κ) (q : Request) :
    (q.jobs w).countP Job.boundsPass ≤ 1 ∧ ∀ r sink, ¬ .closePass r sink ∈ q.jobs w := by
  cases q <;> simp [Request.jobs, Job.boundsPass]

/-- What is to be done is what was, or an idle driver takes up work that begins one pass at most. -/
def Takes (t u : Threads κ) : Prop :=
  u.jobs = t.jobs ∨ t.jobs = [] ∧ u.jobs.countP Job.boundsPass ≤ 1 ∧ ∀ r sink, ¬ .closePass r sink ∈ u.jobs

/-- **A turn that has nothing to do with errors**: it changes the scene, takes a delivery out, or gives the driver
work. -/
structure Silent (t : Threads κ) (x : Turn κ) : Prop where
  messages : ∀ r, t.messages r x = []
  opens : ∀ r, t.opens r x = false
  closes : ∀ r, t.closes r x = false
  jobs : t.Takes (t.turn x)
  world : (∃ scene, (t.turn x).world = { t.world with scene }) ∨
    ∃ m d, t.world.receive? m = some (d, (t.turn x).world)

theorem silent_of_same {x : Turn κ} (hm : ∀ r, t.messages r x = []) (ho : ∀ r, t.opens r x = false)
    (hc : ∀ r, t.closes r x = false) (hturn : t.turn x = t) : t.Silent x :=
  ⟨hm, ho, hc, .inl (by rw [hturn]), .inl ⟨t.scene, by rw [hturn]; rfl⟩⟩

theorem silent_ask (t : Threads κ) (q : Request) : t.Silent (.move (.ask q)) := by
  by_cases hq : (t.jobs.isEmpty && t.equipped && q.named t.world) = true
  · have hturn : t.turn (.move (.ask q)) = { t with jobs := q.jobs t.world } := if_pos hq
    simp only [Bool.and_eq_true, List.isEmpty_iff] at hq
    refine ⟨fun _ => rfl, fun _ => rfl, fun _ => rfl, .inr ⟨hq.1.1, ?_⟩, .inl ⟨t.scene, ?_⟩⟩
    · rw [hturn]
      exact countP_requests t.world q
    · rw [hturn]
      rfl
  · exact silent_of_same (fun _ => rfl) (fun _ => rfl) (fun _ => rfl) (if_neg hq)

theorem silent_start (t : Threads κ) (task : Task) : t.Silent (.move (.step (.start task))) := by
  by_cases hs : (t.jobs.isEmpty && t.ready) = true
  · have hturn : t.turn (.move (.step (.start task))) = { t with jobs := task.jobs t.root t.kind t.clock } := if_pos hs
    rw [Bool.and_eq_true, List.isEmpty_iff] at hs
    refine ⟨fun _ => rfl, fun _ => rfl, fun _ => rfl, .inr ⟨hs.1, ?_⟩, .inl ⟨t.scene, ?_⟩⟩
    · rw [hturn]
      exact countP_jobs ..
    · rw [hturn]
      rfl
  · exact silent_of_same (fun _ => rfl) (fun _ => rfl) (fun _ => rfl) (if_neg hs)

theorem silent_elsewhere (t : Threads κ) (d : Deed) : t.Silent (.move (.elsewhere d)) := by
  by_cases hd : d.node ∈ t.scene.nodes
  · have hturn : t.turn (.move (.elsewhere d)) = t.inWorld (t.world.mapScene fun s => d.effect s) := if_pos hd
    exact ⟨fun _ => rfl, fun _ => rfl, fun _ => rfl, .inl (by rw [hturn]; rfl),
      .inl ⟨d.effect t.scene, by rw [hturn]; rfl⟩⟩
  · exact silent_of_same (fun _ => rfl) (fun _ => rfl) (fun _ => rfl) (if_neg hd)

theorem silent_errand (t : Threads κ) : t.Silent (.move (.step .errand)) := by
  cases he : t.errands with
  | nil =>
    refine silent_of_same (fun _ => rfl) (fun _ => rfl) (fun _ => rfl) ?_
    simp only [turn, move, step, doErrand, he]
  | cons e rest =>
    have hturn : t.turn (.move (.step .errand)) = { t.inWorld (e.perform rest t.world).2 with
        errands := (e.perform rest t.world).1 } := by simp only [turn, move, step, doErrand, he]
    refine ⟨fun _ => rfl, fun _ => rfl, fun _ => rfl, .inl (by rw [hturn]; rfl), ?_⟩
    rw [hturn]
    rcases Errand.world_perform e rest t.world with h | h
    · exact .inl ⟨t.scene, h⟩
    · exact .inr h

/-- **What a turn can be**: a call of the owner's, a step of the render thread, or something silent. -/
theorem turn_cases (t : Threads κ) (x : Turn κ) :
    (∃ c, x = .move (.step (.call c))) ∨ x = jobTurn ∨ t.Silent x := by
  cases x with
  | info pass =>
    refine .inr (.inr ⟨fun _ => rfl, fun _ => rfl, fun _ => rfl, .inl ?_, .inl ⟨t.scene, ?_⟩⟩) <;>
      simp only [turn, renewPass] <;> split <;> rfl
  | move x =>
    cases x with
    | ask q => exact .inr (.inr (silent_ask t q))
    | elsewhere d => exact .inr (.inr (silent_elsewhere t d))
    | step x =>
      cases x with
      | call c => exact .inl ⟨c, rfl⟩
      | job => exact .inr (.inl rfl)
      | errand => exact .inr (.inr (silent_errand t))
      | start task => exact .inr (.inr (silent_start t task))
      | poll | waitAndPoll =>
        refine .inr (.inr ⟨fun _ => rfl, fun _ => rfl, fun _ => rfl, .inl ?_, .inl ⟨t.scene, ?_⟩⟩) <;>
          simp only [turn, move, step, beginPoll] <;> split <;> rfl

/-- **Every turn sends or keeps what is reported.** -/
theorem heard_turn (hn : t.Numbered) (x : Turn κ) : Heard r t x := by
  rcases turn_cases t x with ⟨c, rfl⟩ | rfl | h
  · exact heard_call hn c
  · exact heard_job
  · rcases h.world with ⟨scene, hw⟩ | ⟨m, d, hd⟩
    · refine heard_of_silent (h.messages r) (h.opens r) (h.closes r) ?_ (.inr ?_)
      · rw [openPass, hw]
        rfl
      · rw [hw]
        exact World.arrivals_of_mailbox rfl
    · refine heard_of_silent (h.messages r) (h.opens r) (h.closes r) ?_ (.inr (World.arrivals_receive hd))
      rw [openPass, World.root, World.roots_receive hd]
      rfl

/-! ## Passes -/

/-- **A pass is under way exactly while its end is to come**, and at most one is to come. -/
structure Passes (t : Threads κ) : Prop where
  single : t.jobs.countP Job.boundsPass ≤ 1
  under : ∀ r, (t.openPass r).isSome = true ↔ t.Passing r

theorem Passes.take {u : Threads κ} (h : t.Passes) (hj : t.Takes u)
    (ho : ∀ r, (u.openPass r).isSome = (t.openPass r).isSome) : u.Passes := by
  rcases hj with hj | ⟨hj, hsingle, hnone⟩
  · refine ⟨hj ▸ h.single, fun r => ?_⟩
    rw [ho, h.under, Passing, Passing, hj]
  · refine ⟨hsingle, fun r => ?_⟩
    rw [ho]
    refine (h.under r).trans ⟨fun ⟨sink, hs⟩ => ?_, fun ⟨sink, hs⟩ => absurd hs (hnone r sink)⟩
    rw [hj] at hs
    cases hs

theorem Passes.countP_le (h : t.Passes) {j : Job} {rest : List Job} (hj : t.jobs = j :: rest) :
    [j].countP Job.boundsPass + rest.countP Job.boundsPass ≤ 1 := by
  rw [← List.countP_append, List.singleton_append, ← hj]
  exact h.single

/-- A job that bounds a pass is the only one to do so. -/
theorem Passes.alone (h : t.Passes) {j : Job} {rest : List Job} (hj : t.jobs = j :: rest) (hb : j.boundsPass = true)
    (r : RootId) (sink : ErrorSink) : ¬ .closePass r sink ∈ rest := by
  intro hs
  have hpos : 0 < rest.countP Job.boundsPass := List.countP_pos_iff.2 ⟨_, hs, rfl⟩
  have hsum := h.countP_le hj
  rw [List.countP_singleton, if_pos hb] at hsum
  omega

theorem Passes.under_openPass (h : t.Passes) {q : RootId} {rest : List Job} (hj : t.jobs = .openPass q :: rest)
    (r : RootId) : (if q = r then some [] else t.openPass r).isSome = true ↔
      ∃ sink, .closePass r sink ∈ ((Job.openPass q).perform t.state).1 ++ rest := by
  by_cases hq : q = r
  · subst hq
    simp only [if_true, Option.isSome_some, true_iff]
    exact ⟨t.state.pass.sink, List.mem_append.2 (.inl (.tail _ (.head _)))⟩
  · rw [if_neg hq]
    refine iff_of_false (fun ho => ?_) fun ⟨sink, hs⟩ => ?_
    · obtain ⟨sink, hs⟩ := (h.under r).1 ho
      rw [hj] at hs
      rcases List.mem_cons.1 hs with hs | hs
      · cases hs
      · exact h.alone hj rfl r sink hs
    · rcases List.mem_append.1 hs with hs | hs
      · obtain ⟨_, hq', hs⟩ := Job.boundsPass_of_leaves (Job.leaves_of_mem hs) rfl
        cases hq'
        cases hs
        exact hq rfl
      · exact h.alone hj rfl r sink hs

theorem Passes.under_closePass (h : t.Passes) {q : RootId} {sink : ErrorSink} {rest : List Job}
    (hj : t.jobs = .closePass q sink :: rest) (r : RootId) :
    (if q = r then none else t.openPass r).isSome = true ↔ ∃ sink', .closePass r sink' ∈ rest := by
  have hnone : ¬ ∃ sink', .closePass r sink' ∈ rest := fun ⟨sink', hs⟩ => h.alone hj rfl r sink' hs
  refine iff_of_false (fun ho => ?_) hnone
  by_cases hq : q = r
  · rw [if_pos hq] at ho
    cases ho
  · rw [if_neg hq] at ho
    obtain ⟨sink', hs⟩ := (h.under r).1 ho
    rw [hj] at hs
    rcases List.mem_cons.1 hs with hs | hs
    · cases hs
      exact hq rfl
    · exact hnone ⟨sink', hs⟩

theorem Passes.job (h : t.Passes) {j : Job} {rest : List Job} (hj : t.jobs = j :: rest) : (t.turn jobTurn).Passes := by
  have hturn : t.turn jobTurn = { t with jobs := (j.perform t.state).1 ++ rest, state := (j.perform t.state).2 } :=
    move_job hj
  rw [hturn]
  constructor
  · show ((j.perform t.state).1 ++ rest).countP Job.boundsPass ≤ 1
    rw [List.countP_append]
    exact Nat.le_trans (Nat.add_le_add_right (Job.countP_boundsPass j t.state) _) (h.countP_le hj)
  · intro r
    show (((j.perform t.state).2.world.root r).openPass).isSome = true ↔
      ∃ sink, .closePass r sink ∈ (j.perform t.state).1 ++ rest
    rw [Job.openPass_perform]
    have hothers : j.boundsPass = false →
        ((t.openPass r).isSome = true ↔ ∃ sink, .closePass r sink ∈ (j.perform t.state).1 ++ rest) := fun hb => by
      rw [h.under, Passing, hj]
      exact (Job.exists_closePass_perform hb t.state rest r).symm
    cases j with
    | openPass q => exact h.under_openPass hj r
    | closePass q sink => exact h.under_closePass hj r
    | skip n problem =>
      refine Iff.trans ?_ (hothers rfl)
      by_cases hs : t.state.pass.sink = .root r
      · simp only [hs, if_true, Option.isSome_map]
        rfl
      · simp only [hs, if_false]
        rfl
    | _ => exact hothers rfl

theorem Passes.turn (hn : t.Numbered) (h : t.Passes) (x : Turn κ) : (t.turn x).Passes := by
  have hadd : (∀ r, t.opens r x = false) → (∀ r, t.closes r x = false) →
      ∀ r, ((t.turn x).openPass r).isSome = (t.openPass r).isSome := fun ho hc r => by
    rw [(heard_turn hn x).openPass, ho, hc]
    simp
  rcases turn_cases t x with ⟨c, rfl⟩ | rfl | hs
  · refine h.take (.inl ?_) (hadd (fun _ => rfl) fun _ => rfl)
    show (t.make c).jobs = t.jobs
    unfold make
    split <;> rfl
  · cases hj : t.jobs with
    | nil =>
      rw [turn_of_jobs_nil hj]
      exact h
    | cons j rest => exact h.job hj
  · exact h.take hs.jobs (hadd hs.opens hs.closes)

/-! ## Runs -/

theorem accepts_perform (j : Job) (s : RenderState κ) {m : MailboxId} (h : (j.perform s).2.world.accepts m = true) :
    s.world.accepts m = true := by
  by_cases hj : j = .post
  · subst hj
    obtain ⟨outlet, -, hp | ⟨q, batch, -, hp⟩⟩ := Job.post_spec s
    · rw [hp] at h
      exact h
    · rw [hp] at h
      exact (World.accepts_send ..).symm.trans h
  · exact (j.quiet_perform s hj m h).1

theorem accepts_turn (hn : t.Numbered) (x : Turn κ) {m : MailboxId} (h : (t.turn x).world.accepts m = true) :
    t.world.accepts m = true := by
  rcases turn_cases t x with ⟨c, rfl⟩ | rfl | hs
  · have h : (t.make c).world.accepts m = true := h
    unfold make at h
    split at h
    · exact (World.quiet_effect hn.world c m h).1
    · exact h
  · have h : t.doJob.world.accepts m = true := h
    unfold doJob at h
    split at h
    · exact h
    · exact accepts_perform _ _ h
  · rcases hs.world with ⟨scene, hw⟩ | ⟨n, d, hd⟩
    · rw [hw] at h
      exact h
    · rw [← (World.queued_receive hd).2.2.1 m]
      exact h

theorem owner_turn (hn : t.Numbered) (x : Turn κ) (hr : r ∈ t.world.roots) :
    r ∈ (t.turn x).world.roots ∧ (t.turn x).owner r = t.owner r := by
  rcases turn_cases t x with ⟨c, rfl⟩ | rfl | hs
  · refine ⟨(hn.leads_step (.call c)).roots r hr, ?_⟩
    show (t.make c).owner r = t.owner r
    unfold make
    split
    · exact Call.owner_effect hn.world c hr
    · rfl
  · refine ⟨(hn.leads_step .job).roots r hr, ?_⟩
    show t.doJob.owner r = t.owner r
    unfold doJob
    split
    · rfl
    · exact Job.owner_perform ..
  · rcases hs.world with ⟨scene, hw⟩ | ⟨n, d, hd⟩
    · rw [owner, hw]
      exact ⟨hr, rfl⟩
    · have hroots := World.roots_receive hd
      refine ⟨hroots ▸ hr, ?_⟩
      rw [owner, World.root, hroots]
      rfl

/-- A turn that makes root `r` has nothing to do with its errors. -/
theorem silent_of_unmade (hn : t.Numbered) (hr : ¬ r ∈ t.world.roots) (x : Turn κ) :
    t.posts r x = [] ∧ t.messages r x = [] ∧ (t.turn x).openPass r = none := by
  have hnone : t.openPass r = none := by
    rw [openPass, World.root, Table.get_of_not_mem hr]
    rfl
  have hknown : ∀ j ∈ t.jobs, j.Known t.state := hn.jobs
  have hm : t.messages r x = [] := by
    rcases turn_cases t x with ⟨c, rfl⟩ | rfl | hs
    · cases c with
      | reportError q message => exact if_neg fun h : q = r ∧ q ∈ t.world.roots => hr (h.1 ▸ h.2)
      | _ => rfl
    · simp only [jobTurn, messages]
      split
      · exact if_neg fun h => hr (hn.known.sink r h)
      · rfl
    · exact hs.messages r
  have hbounds : t.opens r x = false ∧ t.closes r x = false := by
    rcases turn_cases t x with ⟨c, rfl⟩ | rfl | hs
    · exact ⟨rfl, rfl⟩
    · simp only [jobTurn, opens, closes]
      cases hj : t.jobs with
      | nil => exact ⟨rfl, rfl⟩
      | cons j rest =>
        have hk := hknown j (hj ▸ List.mem_cons_self)
        cases j with
        | openPass q => exact ⟨decide_eq_false fun h => hr (h ▸ hk), rfl⟩
        | closePass q sink => exact ⟨rfl, decide_eq_false fun h => hr (h ▸ hk.1)⟩
        | _ => exact ⟨rfl, rfl⟩
    · exact ⟨hs.opens r, hs.closes r⟩
  have h := heard_turn (r := r) hn x
  refine ⟨?_, hm, ?_⟩
  · rw [h.posts, hbounds.2, hm, hnone]
    simp
  · rw [h.openPass, hbounds.1, hbounds.2, hnone]
    rfl

/-- **What was sent and what the pass holds make up what was reported**, while the owner's mailbox is open. -/
structure Channel (r : RootId) (posted : List Report) (reported : List String) (t : Threads κ) : Prop where
  unmade : ¬ r ∈ t.world.roots → posted = [] ∧ reported = []
  whole : t.world.accepts (t.owner r) = true →
    posted.flatMap (·.messages) ++ (t.openPass r).getD [] = reported

theorem flatMap_ofMessages? (l : List String) : (Report.ofMessages? l).toList.flatMap (·.messages) = l := by
  cases h : Report.ofMessages? l with
  | some report => simp [Report.ofMessages?_eq_some.1 h]
  | none =>
    cases l with
    | nil => rfl
    | cons m l => simp [Report.ofMessages?] at h

theorem flatMap_single (l : List String) : (l.map Report.single).flatMap (·.messages) = l := by
  induction l with
  | nil => rfl
  | cons m l ih => exact congrArg (m :: ·) ih

theorem Passes.openPass_of_opens (hp : t.Passes) {rest : List Job} (hj : t.jobs = .openPass r :: rest) :
    t.openPass r = none := by
  refine Option.not_isSome_iff_eq_none.1 fun ho => ?_
  obtain ⟨sink, hs⟩ := (hp.under r).1 ho
  rw [hj] at hs
  have hpos : 0 < rest.countP Job.boundsPass :=
    List.countP_pos_iff.2 ⟨_, (List.mem_cons.1 hs).resolve_left (by simp), rfl⟩
  have hsingle := hp.single
  rw [hj, List.countP_cons_of_pos rfl] at hsingle
  omega

/-- Outside a pass and inside it, no turn loses a message. -/
theorem whole_turn (hn : t.Numbered) (hp : t.Passes) (x : Turn κ) (ha : t.world.accepts (t.owner r) = true) :
    (t.posts r x).flatMap (·.messages) ++ ((t.turn x).openPass r).getD [] =
      (t.openPass r).getD [] ++ t.messages r x := by
  have h := heard_turn (r := r) hn x
  rw [h.openPass, h.posts, if_pos ha]
  cases ho : t.opens r x with
  | true =>
    obtain ⟨rfl, rest, hj⟩ := jobs_of_opens ho
    have hm : t.messages r jobTurn = [] := by simp only [jobTurn, messages, hj]
    have hc : t.closes r jobTurn = false := by simp only [jobTurn, closes, hj]
    rw [hc, hm, hp.openPass_of_opens hj]
    rfl
  | false =>
    cases hc : t.closes r x with
    | true =>
      obtain ⟨rfl, sink, rest, hj⟩ := jobs_of_closes hc
      have hm : t.messages r jobTurn = [] := by simp only [jobTurn, messages, hj]
      rw [hm, if_pos rfl, if_neg (by simp), if_pos rfl, flatMap_ofMessages?]
      rfl
    | false =>
      cases t.openPass r with
      | none =>
        show ((t.messages r x).map Report.single).flatMap (·.messages) ++ [] = [] ++ t.messages r x
        rw [flatMap_single, List.append_nil, List.nil_append]
      | some messages => rfl

theorem Channel.turn {posted : List Report} {reported : List String} (hn : t.Numbered) (hp : t.Passes)
    (h : Channel r posted reported t) (x : Turn κ) :
    Channel r (posted ++ t.posts r x) (reported ++ t.messages r x) (t.turn x) := by
  by_cases hr : r ∈ t.world.roots
  · obtain ⟨hmade, howner⟩ := owner_turn hn x hr
    refine ⟨fun hx => absurd hmade hx, fun ha => ?_⟩
    rw [howner] at ha
    have ha := accepts_turn hn x ha
    rw [List.flatMap_append, List.append_assoc, whole_turn hn hp x ha, ← List.append_assoc, h.whole ha]
  · obtain ⟨hposts, hm, hopen⟩ := silent_of_unmade hn hr x
    obtain ⟨rfl, rfl⟩ := h.unmade hr
    rw [hposts, hm]
    exact ⟨fun _ => ⟨rfl, rfl⟩, fun _ => by rw [hopen]; rfl⟩

/-- **A pass over root `r` is under way**: it has collected `told`, and ends with the sink that it began with. -/
structure During (r : RootId) (sink : ErrorSink) (rest : List Job) (told : List String) (t : Threads κ) : Prop where
  work : ∃ walk, t.jobs = walk ++ .closePass r sink :: rest ∧ ∀ j ∈ walk, j.Walks
  sink : t.state.pass.sink = .root r
  openPass : t.openPass r = some told

theorem during_of_opens {rest : List Job} (hj : t.jobs = .openPass r :: rest) :
    During r t.state.pass.sink rest [] (t.turn jobTurn) := by
  have hturn : t.turn jobTurn = _ := move_job hj
  refine ⟨⟨[.prepare _ _], by rw [hturn]; rfl, fun j hj => ?_⟩, by rw [hturn]; rfl, ?_⟩
  · rw [List.mem_singleton.1 hj]
    trivial
  · rw [hturn]
    exact (Job.openPass_perform (.openPass r) t.state r).trans (if_pos rfl)

theorem idle_turn (hj : t.jobs ≠ []) {x : Turn κ} (hx : x ≠ jobTurn) :
    (t.turn x).jobs = t.jobs ∧ (t.turn x).state.pass = t.state.pass := by
  cases x with
  | info pass =>
    have hne : t.jobs.isEmpty = false := by simpa using hj
    simp [turn, renewPass, hne]
  | move x =>
    have hjob : isJob x = false := Bool.eq_false_iff.2 fun h => hx (congrArg Turn.move (eq_of_isJob h))
    obtain ⟨hjobs, -, hpass⟩ := idle_move hj hjob
    exact ⟨hjobs, hpass⟩

theorem closes_of_passing (hn : t.Numbered) (hp : t.Passes) {x : Turn κ} (hx : (t.turn x).Passing r) :
    t.closes r x = false := by
  refine Bool.eq_false_iff.2 fun hc => ?_
  have ho : t.opens r x = false := Bool.eq_false_iff.2 fun ho => by
    obtain ⟨-, rest, hjo⟩ := jobs_of_opens ho
    obtain ⟨-, sink, rest', hjc⟩ := jobs_of_closes hc
    rw [hjo] at hjc
    cases hjc
  have hsome := ((hp.turn hn x).under r).2 hx
  rw [(heard_turn hn x).openPass, ho, hc] at hsome
  cases hsome

theorem During.opens_eq_false {sink : ErrorSink} {rest : List Job} {told : List String} (hp : t.Passes)
    (h : During r sink rest told t) (x : Turn κ) : t.opens r x = false := by
  refine Bool.eq_false_iff.2 fun ho => ?_
  obtain ⟨-, rest, hj⟩ := jobs_of_opens ho
  have hnone := hp.openPass_of_opens hj
  rw [h.openPass] at hnone
  cases hnone

/-- A step of the walk leaves the rest of the walk to be done, and other turns leave all of it. -/
theorem During.walk_turn {sink : ErrorSink} {rest : List Job} {told : List String} (h : During r sink rest told t)
    {x : Turn κ} (hc : t.closes r x = false) :
    (∃ walk, (t.turn x).jobs = walk ++ .closePass r sink :: rest ∧ ∀ j ∈ walk, j.Walks) ∧
      (t.turn x).state.pass.sink = .root r := by
  obtain ⟨walk, hj, hwalk⟩ := h.work
  by_cases hjob : x = jobTurn
  · subst hjob
    cases walk with
    | nil =>
      have hend : t.closes r jobTurn = true := by simp [jobTurn, closes, hj]
      rw [hend] at hc
      cases hc
    | cons j walk =>
      have hturn : t.turn jobTurn = _ := move_job hj
      obtain ⟨hfirst, hrest⟩ := List.forall_mem_cons.1 hwalk
      refine ⟨⟨(j.perform t.state).1 ++ walk, by rw [hturn, List.append_assoc]; rfl, ?_⟩, ?_⟩
      · refine List.forall_mem_append.2 ⟨fun k hk => ?_, hrest⟩
        exact Job.walks_of_leaves (Job.leaves_of_mem hk) hfirst
      · rw [hturn]
        exact Job.sink_of_walks hfirst h.sink
  · obtain ⟨hjobs, hpass⟩ := idle_turn (by rw [hj]; simp) hjob
    rw [hjobs, hpass]
    exact ⟨⟨walk, hj, hwalk⟩, h.sink⟩

theorem During.turn {sink : ErrorSink} {rest : List Job} {told : List String} (hn : t.Numbered) (hp : t.Passes)
    (h : During r sink rest told t) {x : Turn κ} (hx : (t.turn x).Passing r) :
    During r sink rest (told ++ t.messages r x) (t.turn x) ∧ t.posts r x = [] := by
  have hheard := heard_turn (r := r) hn x
  have hcloses := closes_of_passing hn hp hx
  obtain ⟨hwork, hsink⟩ := h.walk_turn hcloses
  refine ⟨⟨hwork, hsink, ?_⟩, ?_⟩
  · rw [hheard.openPass, h.opens_eq_false hp, hcloses, h.openPass]
    rfl
  · rw [hheard.posts, hcloses, h.openPass]
    simp

theorem During.turns {sink : ErrorSink} {rest : List Job} : ∀ (zs : List (Turn κ)) {told : List String}
    {t : Threads κ}, t.Numbered → t.Passes → During r sink rest told t →
      (∀ ys, ys <+: zs → (t.turns ys).Passing r) →
      During r sink rest (told ++ reported r t zs) (t.turns zs) ∧ posted r t zs = []
  | [], told, t, _, _, h, _ => by
    rw [reported, trail, List.append_nil]
    exact ⟨h, rfl⟩
  | x :: zs, told, t, hn, hp, h, hz => by
    obtain ⟨h1, h2⟩ := h.turn hn hp (hz [x] ⟨zs, rfl⟩)
    have hrest : ∀ ys, ys <+: zs → ((t.turn x).turns ys).Passing r := fun ys hy =>
      hz (x :: ys) (List.cons_prefix_cons.2 ⟨rfl, hy⟩)
    obtain ⟨h3, h4⟩ := During.turns zs (hn.turn x) (hp.turn hn x) h1 hrest
    refine ⟨?_, ?_⟩
    · rw [reported, trail, ← List.append_assoc]
      exact h3
    · rw [posted, trail, h2]
      exact h4

/-- **The end of a pass**: what it collected is sent as one report, if it collected anything. -/
theorem During.close {sink : ErrorSink} {rest : List Job} {told : List String} (hn : t.Numbered) (hp : t.Passes)
    (h : During r sink rest told t) (hj : t.jobs = .closePass r sink :: rest) :
    let v := t.turn jobTurn
    v.jobs = rest ∧ v.state.pass.sink = sink ∧ ¬ v.Passing r ∧
      (t.world.accepts (t.owner r) = true → t.posts r jobTurn = (Report.ofMessages? told).toList) := by
  intro v
  have hturn : v = _ := move_job hj
  have hcloses : t.closes r jobTurn = true := by simp [jobTurn, closes, hj]
  have hopens : t.opens r jobTurn = false := by simp [jobTurn, opens, hj]
  have hheard := heard_turn (r := r) hn jobTurn
  refine ⟨by rw [hturn]; rfl, by rw [hturn]; rfl, fun hv => ?_, fun ha => ?_⟩
  · have hsome := ((hp.turn hn jobTurn).under r).2 hv
    rw [hheard.openPass, hopens, hcloses] at hsome
    cases hsome
  · rw [hheard.posts, if_pos ha, hcloses, h.openPass]
    rfl

theorem passes_blank (root : RootId) (kind : DriverKind) (clock : ClockId) (client : κ) :
    (blank root kind clock client).Passes where
  single := Nat.zero_le _
  under r := iff_of_false (by simp [blank, openPass, world, World.root, Table.get]; rfl) fun ⟨_, hs⟩ => nomatch hs

theorem Passes.turns (hn : t.Numbered) (h : t.Passes) (xs : List (Turn κ)) : (t.turns xs).Passes := by
  induction xs generalizing t with
  | nil => exact h
  | cons x xs ih => exact ih (hn.turn x) (h.turn hn x)

theorem Channel.turns (hn : t.Numbered) (hp : t.Passes) (h : Channel r [] [] t) (xs : List (Turn κ)) :
    Channel r (posted r t xs) (reported r t xs) (t.turns xs) :=
  (foldl_keeps_trail (f := posts r) (g := messages r)
    (P := fun posted reported t => t.Numbered ∧ t.Passes ∧ Channel r posted reported t)
    (fun _ _ _ x h => ⟨h.1.turn x, h.2.1.turn h.1 x, h.2.2.turn h.1 h.2.1 x⟩) xs [] [] t ⟨hn, hp, h⟩).2.2

/-- **The error channel loses and reorders nothing.**  Whatever the threads do, while the owner of the root accepts
deliveries: the messages of the reports sent, and those that the pass under way holds, are the messages reported, in
order; so the messages sent are those reported when no pass is under way.  Outside a pass each message is sent at once,
as a report of its own.  A pass takes the errors of its walk and sends nothing while it is under way, and holds what was
reported since it began; when its walk is done it sends that as one report, or nothing if there is nothing, gives back
the error handler that it found, and is no longer under way. -/
theorem errors_run (r root : RootId) (kind : DriverKind) (clock : ClockId) (client : κ) (xs : List (Turn κ)) :
    let start := blank root kind clock client
    let t := start.turns xs
    (t.world.ownerAccepts r = true →
      (posted r start xs).flatMap (·.messages) ++ (t.openPass r).getD [] = reported r start xs ∧
      (¬ t.Passing r → (posted r start xs).flatMap (·.messages) = reported r start xs ∧
        ∀ x, posts r t x = (messages r t x).map .single)) ∧
    ∀ rest, t.jobs = .openPass r :: rest →
      posts r t jobTurn = [] ∧
      ∀ zs, (∀ ys, ys <+: zs → ((t.turn jobTurn).turns ys).Passing r) →
        let u := (t.turn jobTurn).turns zs
        let told := reported r (t.turn jobTurn) zs
        posted r (t.turn jobTurn) zs = [] ∧ u.openPass r = some told ∧ u.state.pass.sink = .root r ∧
        ∃ walk, u.jobs = walk ++ .closePass r t.state.pass.sink :: rest ∧ (∀ j ∈ walk, j.Walks) ∧
          (walk = [] → let v := u.turn jobTurn
            v.jobs = rest ∧ v.state.pass.sink = t.state.pass.sink ∧ ¬ v.Passing r ∧
              (u.world.ownerAccepts r = true → posts r u jobTurn = (Report.ofMessages? told).toList)) := by
  intro start t
  have hn : t.Numbered := (numbered_blank ..).turns xs
  have hp : t.Passes := (passes_blank ..).turns (numbered_blank ..) xs
  have hchannel : Channel r (posted r start xs) (reported r start xs) t :=
    Channel.turns (numbered_blank ..) (passes_blank ..) ⟨fun _ => ⟨rfl, rfl⟩, fun _ => rfl⟩ xs
  refine ⟨fun ha => ⟨hchannel.whole ha, fun hidle => ?_⟩, fun rest hj => ⟨?_, fun zs hz => ?_⟩⟩
  · have hnone : t.openPass r = none := Option.not_isSome_iff_eq_none.1 fun ho => hidle ((hp.under r).1 ho)
    have hwhole := hchannel.whole ha
    rw [hnone] at hwhole
    refine ⟨by rw [← hwhole]; exact (List.append_nil _).symm, fun x => ?_⟩
    have hcloses : t.closes r x = false := Bool.eq_false_iff.2 fun hc => by
      obtain ⟨-, sink, rest, hj⟩ := jobs_of_closes hc
      exact hidle ⟨sink, hj ▸ List.mem_cons_self⟩
    have ha : t.world.accepts (t.owner r) = true := ha
    rw [(heard_turn hn x).posts, if_pos ha, hcloses, hnone]
    rfl
  · have hm : t.messages r jobTurn = [] := by simp only [jobTurn, messages, hj]
    have hc : t.closes r jobTurn = false := by simp only [jobTurn, closes, hj]
    rw [(heard_turn hn jobTurn).posts, hc, hm, hp.openPass_of_opens hj]
    simp
  · intro u told
    have hn₁ := hn.turn jobTurn
    have hp₁ := hp.turn hn jobTurn
    obtain ⟨hduring, hposted⟩ := During.turns zs hn₁ hp₁ (during_of_opens hj) hz
    obtain ⟨walk, hwork, hwalk⟩ := hduring.work
    refine ⟨hposted, hduring.openPass, hduring.sink, walk, hwork, hwalk, fun hdone => ?_⟩
    subst hdone
    exact hduring.close (hn₁.turns zs) (hp₁.turns hn₁ zs) hwork

/-- An error before a pass; then a pass that meets a destroyed node, and an error of the owner's in the middle of it. -/
theorem errors_opening :
    let call (c : Call Unit) : Turn Unit := .move (.step (.call c))
    let fail (message : String) : Turn Unit := call (.reportError ⟨0⟩ message)
    let xs := [call .openMailbox, call (.addRoot ⟨0⟩), call (.addClock ⟨16000000⟩), call (.addNode "card"),
      call (.addChild ⟨1⟩ ⟨2⟩), call (.destroyNode ⟨2⟩), fail "early",
      .info { frameTime := ⟨5⟩, sink := .collector ["kept"] }]
    let zs := List.replicate 5 jobTurn ++ [fail "late", jobTurn]
    let start := blank ⟨0⟩ (.deferred ⟨0⟩) ⟨0⟩ ()
    let t := start.turns (xs ++ [.move (.ask (.prepareRoot ⟨0⟩))])
    let u := (t.turn jobTurn).turns zs
    let told := reported ⟨0⟩ (t.turn jobTurn) zs
    t.jobs = [.openPass ⟨0⟩] ∧ (∀ ys, ys <+: zs → ((t.turn jobTurn).turns ys).Passing ⟨0⟩) ∧
    u.world.ownerAccepts ⟨0⟩ = true ∧ told = ["late", "card: prepared after destroy"] ∧
    posted ⟨0⟩ start (xs ++ [.move (.ask (.prepareRoot ⟨0⟩))]) = [.single "early"] ∧
    posts ⟨0⟩ u jobTurn = (Report.ofMessages? told).toList ∧
    (u.turn jobTurn).state.pass.sink = .collector ["kept"] := by
  intro call fail xs zs start t u told
  have hidle : ((start.turns xs).jobs.isEmpty && (start.turns xs).equipped &&
    Request.named (start.turns xs).world (.prepareRoot ⟨0⟩)) = true := by decide +kernel
  have hj : t.jobs = [.openPass ⟨0⟩] := jobs_turns_ask hidle
  have hp : t.Passes := (passes_blank ..).turns (numbered_blank ..) _
  have hn : t.Numbered := (numbered_blank ..).turns _
  have hpassing : ∀ ys, ys <+: zs → ((t.turn jobTurn).turns ys).Passing ⟨0⟩ := fun ys hy => by
    have hopen : ∀ n < 8, (((t.turn jobTurn).turns (zs.take n)).openPass ⟨0⟩).isSome = true := by decide +kernel
    have hlen : ys.length < 8 := Nat.lt_of_le_of_lt hy.length_le (by decide)
    have hys : ys = zs.take ys.length := List.prefix_iff_eq_take.1 hy
    have hpy := (hp.turn hn jobTurn).turns (hn.turn jobTurn) ys
    refine (hpy.under ⟨0⟩).1 ?_
    rw [hys]
    exact hopen _ hlen
  have ha : u.world.ownerAccepts ⟨0⟩ = true := by decide +kernel
  obtain ⟨-, hpass⟩ := errors_run ⟨0⟩ ⟨0⟩ (.deferred ⟨0⟩) ⟨0⟩ () (xs ++ [.move (.ask (.prepareRoot ⟨0⟩))])
  obtain ⟨-, hpass⟩ := hpass [] hj
  obtain ⟨-, -, -, walk, hwork, -, hclose⟩ := hpass zs hpassing
  have hlen : u.jobs.length = 1 := by decide +kernel
  have hnil : walk = [] := by
    have hlen : (walk ++ [_]).length = 1 := (congrArg List.length hwork).symm.trans hlen
    rw [List.length_append] at hlen
    exact List.eq_nil_of_length_eq_zero (by simpa using hlen)
  obtain ⟨-, hsink, -, hposts⟩ := hclose hnil
  refine ⟨hj, hpassing, ha, by decide +kernel, by decide +kernel, ?_, ?_⟩
  · simp only [u, t, start] at ha
    simp only [u, told, t, start]
    exact hposts ha
  · simp only [u, t, start]
    exact hsink.trans (by decide +kernel)

end Threads

end SceneAnimation
