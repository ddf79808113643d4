import SceneAnimation.Proofs.Nesting
import SceneAnimation.Proofs.Threads.Reports
import Mathlib.Data.List.DropRight
/-!
# Polls: how far a poll goes

Listeners that a poll tells may add to the mailbox that is polled.  A poll takes its bound before it runs anything, so
it runs what was queued when it began, up to the first report, and leaves what was queued after that and then what was
added (`World.poll_exact`).  A wait runs its first delivery before it takes a bound: what the listeners of that delivery
add is counted too, and the wait may run it (`World.waitAndPoll_exact`).
-/
namespace SceneAnimation

namespace World

variable {κ : Type}

/-- **Listeners take nothing out of mailbox `m`**: whatever they do to it, what waited in it still waits, in front. -/
def Appends (react : Reaction κ) (m : MailboxId) : Prop :=
  ∀ l a (w : World κ), (w.mailbox m).queue <+: ((react l a w).mailbox m).queue

/-- What the listener of `c` adds to mailbox `m`. -/
def adds (react : Reaction κ) (m : MailboxId) (w : World κ) (c : Completion) : List Delivery :=
  ((react c.listener c.animator w).mailbox m).queue.drop (w.mailbox m).queue.length

/-- The world when the first delivery has been taken out of mailbox `m`. -/
def behindFirst (m : MailboxId) (w : World κ) : World κ := w.setMailbox m (.accepting (w.mailbox m).queue.tail)

/-- The world when `d` has been taken out of mailbox `m`, where it was the first, and run. -/
def serve (react : Reaction κ) (m : MailboxId) (w : World κ) (d : Delivery) : World κ :=
  (w.behindFirst m).notify react d.batch

/-- What the listeners of `d` add to mailbox `m` when it is run, in order. -/
def late (react : Reaction κ) (m : MailboxId) (w : World κ) (d : Delivery) : List Delivery :=
  trail (fun w c => react c.listener c.animator w) (adds react m) (w.behindFirst m) d.batch

def serveAll (react : Reaction κ) (m : MailboxId) (w : World κ) (ds : List Delivery) : World κ :=
  ds.foldl (serve react m) w

/-- What is added to mailbox `m` while `ds` are run, in order. -/
def lateAll (react : Reaction κ) (m : MailboxId) (w : World κ) (ds : List Delivery) : List Delivery :=
  trail (serve react m) (late react m) w ds

/-- Polls, one after the other: what each returns. -/
def polls (react : Reaction κ) (m : MailboxId) : Nat → World κ → List (Except Report Nat) × World κ
  | 0, w => ([], w)
  | n + 1, w =>
    let (ran, w) := w.poll react m
    let (rans, w) := polls react m n w
    (ran :: rans, w)

/-! ## Listeners -/

theorem appends_send (m q : MailboxId) (d : ListenerId → AnimatorId → Delivery) :
    Appends (κ := κ) (fun l a w => w.send q (d l a)) m := fun l a w => by
  rw [mailbox_send]
  split
  · subst m
    rw [Mailbox.queue_send]
    exact List.prefix_append ..
  · exact List.prefix_rfl

theorem Appends.andThen {first second : Reaction κ} {m : MailboxId} (h : Appends first m) (h' : Appends second m) :
    Appends (fun l a w => second l a (first l a w)) m := fun l a w => (h l a w).trans (h' l a _)

/-! ## What is queued -/

variable {react : Reaction κ} {m : MailboxId} {w : World κ} {d : Delivery} {ds rest : List Delivery}

theorem queue_notify (h : Appends react m) : ∀ (batch : List Completion) (w : World κ),
    ((w.notify react batch).mailbox m).queue = (w.mailbox m).queue ++
      trail (fun w c => react c.listener c.animator w) (adds react m) w batch
  | [], w => (List.append_nil _).symm
  | c :: batch, w => by
    obtain ⟨more, hmore⟩ := h c.listener c.animator w
    have hadds : adds react m w c = more := by rw [adds, ← hmore, List.drop_left]
    rw [trail, hadds, ← List.append_assoc, hmore]
    exact queue_notify h batch _

theorem queue_serve (h : Appends react m) (hq : (w.mailbox m).queue = d :: rest) :
    ((w.serve react m d).mailbox m).queue = rest ++ late react m w d := by
  have hbehind : ((w.behindFirst m).mailbox m).queue = rest := by
    rw [behindFirst, mailbox_setMailbox, if_pos rfl, hq]
    rfl
  rw [serve, queue_notify h, hbehind]
  rfl

/-- **What is run is taken off the front, and what is added joins at the end.** -/
theorem queue_serveAll (h : Appends react m) : ∀ {ds : List Delivery} {w : World κ} {rest : List Delivery},
    (w.mailbox m).queue = ds ++ rest → ((w.serveAll react m ds).mailbox m).queue = rest ++ lateAll react m w ds
  | [], w, rest, hq => hq.trans (List.append_nil rest).symm
  | d :: ds, w, rest, hq => by
    have hnext := queue_serve h hq
    rw [List.append_eq, List.append_assoc] at hnext
    rw [lateAll, trail, ← List.append_assoc]
    exact queue_serveAll h hnext

/-! ## What is run -/

theorem receive?_of_queue (hq : (w.mailbox m).queue = d :: rest) : w.receive? m = some (d, w.behindFirst m) := by
  rw [receive?, hq, behindFirst, hq]
  rfl

/-- **One delivery more**: a report ends a poll, and any other delivery is counted. -/
theorem runUpTo_cons (react : Reaction κ) (hq : (w.mailbox m).queue = d :: rest) (n : Nat) :
    w.runUpTo react m (n + 1) = match d.report? with
      | some r => (.error r, w.serve react m d)
      | none => (((w.serve react m d).runUpTo react m n).1.map (· + 1), ((w.serve react m d).runUpTo react m n).2) := by
  rw [runUpTo, receive?_of_queue hq]
  cases d with
  | completions batch => rfl
  | report r => rfl

theorem map_add (r : Except Report Nat) (i j : Nat) : (r.map (· + i)).map (· + j) = r.map (· + (i + j)) := by
  cases r with
  | error report => rfl
  | ok n => exact congrArg Except.ok (Nat.add_assoc n i j)

/-- **A poll goes on behind deliveries that are no reports.** -/
theorem runUpTo_append (h : Appends react m) (n : Nat) : ∀ {ds : List Delivery} {w : World κ} {rest : List Delivery},
    (w.mailbox m).queue = ds ++ rest → (∀ d ∈ ds, d.report? = none) → w.runUpTo react m (ds.length + n) =
      (((w.serveAll react m ds).runUpTo react m n).1.map (· + ds.length),
        ((w.serveAll react m ds).runUpTo react m n).2)
  | [], w, rest, _, _ => by
    have hsame : (w.runUpTo react m n).1.map (· + 0) = (w.runUpTo react m n).1 := by
      cases (w.runUpTo react m n).1 <;> rfl
    rw [List.length_nil, Nat.zero_add, serveAll, List.foldl_nil, hsame]
  | d :: ds, w, rest, hq, hquiet => by
    obtain ⟨hd, hds⟩ := List.forall_mem_cons.1 hquiet
    have hnext := queue_serve h hq
    rw [List.append_eq, List.append_assoc] at hnext
    rw [List.length_cons, Nat.add_right_comm, runUpTo_cons react hq, hd]
    dsimp only
    rw [runUpTo_append h n hnext hds, map_add]
    rfl

theorem runUpTo_of_quiet (h : Appends react m) (hq : (w.mailbox m).queue = ds ++ rest)
    (hquiet : ∀ d ∈ ds, d.report? = none) : w.runUpTo react m ds.length = (.ok ds.length, w.serveAll react m ds) := by
  have hall := runUpTo_append h 0 hq hquiet
  rw [Nat.add_zero] at hall
  rw [hall, runUpTo]
  exact congrArg (fun n => (Except.ok n, w.serveAll react m ds)) (Nat.zero_add ds.length)

/-- **A poll ends with the first report.** -/
theorem runUpTo_of_report (h : Appends react m) {r : Report} (hq : (w.mailbox m).queue = ds ++ .report r :: rest)
    (hquiet : ∀ d ∈ ds, d.report? = none) (n : Nat) :
    w.runUpTo react m (ds.length + (n + 1)) = (.error r, w.serveAll react m (ds ++ [.report r])) := by
  have hnext := queue_serveAll h hq
  rw [List.cons_append] at hnext
  rw [runUpTo_append h (n + 1) hq hquiet, runUpTo_cons react hnext, serveAll, serveAll, List.foldl_append]
  rfl

/-- Where a list of deliveries has its first report, if it has one. -/
theorem exists_first_report : ∀ ds : List Delivery, (∀ d ∈ ds, d.report? = none) ∨
    ∃ ran r rest, ds = ran ++ .report r :: rest ∧ ∀ d ∈ ran, d.report? = none
  | [] => .inl fun _ hd => nomatch hd
  | .report r :: ds => .inr ⟨[], r, ds, rfl, fun _ hd => nomatch hd⟩
  | .completions batch :: ds => by
    rcases exists_first_report ds with h | ⟨ran, r, rest, rfl, h⟩
    · exact .inl (List.forall_mem_cons.2 ⟨rfl, h⟩)
    · exact .inr ⟨.completions batch :: ran, r, rest, rfl, List.forall_mem_cons.2 ⟨rfl, h⟩⟩

theorem poll_of_quiet (h : Appends react m) (hquiet : ∀ d ∈ (w.mailbox m).queue, d.report? = none) :
    w.poll react m = (.ok (w.mailbox m).queue.length, w.serveAll react m (w.mailbox m).queue) :=
  runUpTo_of_quiet h (List.append_nil _).symm hquiet

theorem poll_of_report (h : Appends react m) {r : Report} (hq : (w.mailbox m).queue = ds ++ .report r :: rest)
    (hquiet : ∀ d ∈ ds, d.report? = none) :
    w.poll react m = (.error r, w.serveAll react m (ds ++ [.report r])) := by
  rw [poll, hq, List.length_append, List.length_cons]
  exact runUpTo_of_report h hq hquiet rest.length

/-- **Where something waits, a poll does not end with nothing**: it counts what it runs, or raises a report. -/
theorem runUpTo_ne_nothing (react : Reaction κ) (hq : (w.mailbox m).queue = d :: rest) (n : Nat) :
    (w.runUpTo react m (n + 1)).1 ≠ .ok 0 := by
  rw [runUpTo_cons react hq]
  cases d.report? with
  | some r => exact fun h => nomatch h
  | none =>
    cases ((w.serve react m d).runUpTo react m n).1 with
    | error r => exact fun h => nomatch h
    | ok k => exact fun h => nomatch h

/-! ## Polls in a row -/

theorem lateAll_nil (hnone : ∀ (w : World κ) c, adds react m w c = []) :
    ∀ (ds : List Delivery) (w : World κ), lateAll react m w ds = []
  | [], _ => rfl
  | d :: ds, w => by
    have hbatch : ∀ (batch : List Completion) (w : World κ),
        trail (fun w c => react c.listener c.animator w) (adds react m) w batch = [] := fun batch => by
      induction batch with
      | nil => exact fun _ => rfl
      | cons c batch ih => exact fun w => (congrArg₂ (· ++ ·) (hnone w c) (ih _)).trans rfl
    rw [lateAll, trail, late, hbatch]
    exact lateAll_nil hnone ds _

/-- What comes after the last report, after a first one. -/
theorem rtakeWhile_behind_report (ran rest : List Delivery) (r : Report) :
    (ran ++ .report r :: rest).rtakeWhile (·.report?.isNone) = rest.rtakeWhile (·.report?.isNone) := by
  induction rest using List.reverseRecOn with
  | nil => exact List.rtakeWhile_concat_neg _ _ _ Bool.false_ne_true
  | append_singleton rest d ih =>
    rw [← List.cons_append, ← List.append_assoc, List.rtakeWhile_concat, List.rtakeWhile_concat, ih]

/-- **Each poll but the last raises one report**, and the last one counts what came after. -/
theorem polls_of_passive (h : Appends react m) (hnone : ∀ (w : World κ) c, adds react m w c = []) {w : World κ}
    {q : List Delivery} (hq : (w.mailbox m).queue = q) : polls react m ((q.filterMap Delivery.report?).length + 1) w =
      ((q.filterMap Delivery.report?).map .error ++ [.ok (q.rtakeWhile (·.report?.isNone)).length],
        w.serveAll react m q) := by
  rcases exists_first_report q with hquiet | ⟨ran, r, rest, rfl, hquiet⟩
  · have hreports : q.filterMap Delivery.report? = [] := List.filterMap_eq_nil_iff.2 hquiet
    have hlast : q.rtakeWhile (·.report?.isNone) = q :=
      List.rtakeWhile_eq_self_iff.2 fun d hd => Option.isNone_iff_eq_none.2 (hquiet d hd)
    rw [hreports, hlast, ← hq]
    exact congrArg (fun p => ([p.1], p.2)) (poll_of_quiet h (hq ▸ hquiet))
  · have hbefore : ran.filterMap Delivery.report? = [] := List.filterMap_eq_nil_iff.2 hquiet
    have hreports : (ran ++ .report r :: rest).filterMap Delivery.report? = r :: rest.filterMap Delivery.report? := by
      rw [List.filterMap_append, hbefore]
      rfl
    have hsplit : (w.mailbox m).queue = (ran ++ [.report r]) ++ rest := hq.trans (List.append_cons ..)
    have hnext := queue_serveAll h hsplit
    rw [lateAll_nil hnone, List.append_nil] at hnext
    rw [hreports, rtakeWhile_behind_report, List.length_cons, polls, poll_of_report h hq hquiet]
    dsimp only
    rw [polls_of_passive h hnone hnext, serveAll, serveAll, serveAll, ← List.foldl_append, ← List.append_cons]
    rfl
termination_by q.length
decreasing_by
  rw [‹q = ran ++ .report r :: rest›, List.length_append, List.length_cons]
  omega

/-- **A poll runs what was queued when it began, up to the first report**, whatever its listeners add to the mailbox.
Without a report it runs all that and counts it, and what was added waits.  With one it stops there, with that report,
and what was queued after it waits, and then what was added.  If listeners add nothing, polls in a row until one counts
run everything once, in order, and raise the reports one by one. -/
theorem poll_exact (h : Appends react m) (w : World κ) :
    let q := (w.mailbox m).queue
    ((∀ d ∈ q, d.report? = none) → w.poll react m = (.ok q.length, w.serveAll react m q) ∧
      ((w.poll react m).2.mailbox m).queue = lateAll react m w q) ∧
    (∀ ran r rest, q = ran ++ .report r :: rest → (∀ d ∈ ran, d.report? = none) →
      w.poll react m = (.error r, w.serveAll react m (ran ++ [.report r])) ∧
      ((w.poll react m).2.mailbox m).queue = rest ++ lateAll react m w (ran ++ [.report r])) ∧
    ((∀ (w : World κ) c, adds react m w c = []) →
      let reports := q.filterMap Delivery.report?
      polls react m (reports.length + 1) w =
        (reports.map .error ++ [.ok (q.rtakeWhile (·.report?.isNone)).length], w.serveAll react m q) ∧
      ((polls react m (reports.length + 1) w).2.mailbox m).queue = []) := by
  intro q
  refine ⟨fun hquiet => ?_, fun ran r rest hq hquiet => ?_, fun hnone => ?_⟩
  · have hpoll := poll_of_quiet h hquiet
    rw [hpoll]
    exact ⟨rfl, queue_serveAll h (List.append_nil q).symm⟩
  · have hpoll := poll_of_report h hq hquiet
    rw [hpoll]
    exact ⟨rfl, queue_serveAll h (hq.trans (List.append_cons ..))⟩
  · have hpolls := polls_of_passive h hnone (rfl : (w.mailbox m).queue = q)
    dsimp only
    rw [hpolls]
    refine ⟨rfl, (queue_serveAll h (List.append_nil q).symm).trans ?_⟩
    rw [lateAll_nil hnone]
    rfl

/-- A listener that sends a delivery to itself whenever it is told is run once in a poll for each time it waited, and
waits as often in the end.  A report between two such deliveries stops the poll, and the second waits. -/
theorem poll_opening :
    let echo : Reaction Unit := fun l a w => w.send ⟨0⟩ (.completions [⟨a, l⟩])
    let passive : Reaction Unit := fun _ _ w => w
    let d : Delivery := .completions [⟨⟨0⟩, ⟨0⟩⟩]
    let late : Report := .single "late"
    let w (queue : List Delivery) : World Unit := World.setMailbox { client := () } ⟨0⟩ (.accepting queue)
    (((w [d, d]).poll echo ⟨0⟩).1 = .ok 2 ∧ (((w [d, d]).poll echo ⟨0⟩).2.mailbox ⟨0⟩).queue = [d, d]) ∧
    (((w [d, .report late, d]).poll echo ⟨0⟩).1 = .error late ∧
      (((w [d, .report late, d]).poll echo ⟨0⟩).2.mailbox ⟨0⟩).queue = [d, d]) ∧
    ((polls passive ⟨0⟩ 2 (w [d, .report late, d])).1 = [.error late, .ok 1] ∧
      ((polls passive ⟨0⟩ 2 (w [d, .report late, d])).2.mailbox ⟨0⟩).queue = []) := by
  intro echo passive d late w
  have hecho : Appends echo ⟨0⟩ := appends_send ⟨0⟩ ⟨0⟩ fun l a => .completions [⟨a, l⟩]
  have hpassive : Appends passive ⟨0⟩ := fun _ _ _ => List.prefix_rfl
  have hnone : ∀ (w : World Unit) c, adds passive ⟨0⟩ w c = [] := fun w c => List.drop_length
  obtain ⟨hall, -⟩ := poll_exact hecho (w [d, d])
  obtain ⟨-, hupTo, -⟩ := poll_exact hecho (w [d, .report late, d])
  obtain ⟨-, -, hrow⟩ := poll_exact hpassive (w [d, .report late, d])
  obtain ⟨hcount, hwaits⟩ := hall (by decide +kernel)
  obtain ⟨hstops, hrest⟩ := hupTo [d] late [d] (by decide +kernel) (by decide +kernel)
  obtain ⟨hreports, hempty⟩ := hrow hnone
  exact ⟨⟨congrArg Prod.fst hcount, hwaits.trans (by decide +kernel)⟩,
    ⟨congrArg Prod.fst hstops, hrest.trans (by decide +kernel)⟩, congrArg Prod.fst hreports, hempty⟩

/-! ## Waits -/

/-- **A poll that may run one delivery more than was queued runs it**, if one was added and no report stops it. -/
theorem runUpTo_ne_of_late (h : Appends react m) (hq : (w.mailbox m).queue = ds) (hquiet : ∀ d ∈ ds, d.report? = none)
    (hlate : lateAll react m w ds ≠ []) (n : Nat) :
    w.runUpTo react m (ds.length + (n + 1)) ≠ w.runUpTo react m ds.length := by
  intro hsame
  have hq' : (w.mailbox m).queue = ds ++ [] := hq.trans (List.append_nil ds).symm
  obtain ⟨d, more, hmore⟩ := List.exists_cons_of_ne_nil hlate
  have hbehind := queue_serveAll h hq'
  rw [List.nil_append, hmore] at hbehind
  rw [runUpTo_append h (n + 1) hq' hquiet, runUpTo_of_quiet h hq' hquiet] at hsame
  -- behind what was queued, the longer poll counts nothing, though something waits
  have hcount := congrArg Prod.fst hsame
  refine runUpTo_ne_nothing react hbehind n ?_
  revert hcount
  cases ((w.serveAll react m ds).runUpTo react m (n + 1)).1 with
  | error r =>
    intro hcount
    cases hcount
  | ok k =>
    intro hcount
    have hk : k + ds.length = ds.length := Except.ok.inj hcount
    exact congrArg Except.ok (by omega)

theorem waitAndPoll_eq (h : Appends react m) (hq : (w.mailbox m).queue = d :: rest) :
    w.waitAndPoll react m = w.runUpTo react m ((d :: rest).length + (late react m w d).length) := by
  have hnext := queue_serve h hq
  rw [List.length_cons, Nat.add_right_comm, ← List.length_append, ← hnext, runUpTo_cons react hq, waitAndPoll,
    receive?_of_queue hq]
  cases d with
  | completions batch => rfl
  | report r => rfl

/-- **A wait is a poll whose bound also counts what the listeners of the first delivery add.**  So it does the same as a
poll only if they add nothing, or a report stops both. -/
theorem waitAndPoll_exact (h : Appends react m) {first : Delivery} (hq : (w.mailbox m).queue = first :: rest) :
    w.waitAndPoll react m = w.runUpTo react m ((first :: rest).length + (late react m w first).length) ∧
    (w.waitAndPoll react m = w.poll react m ↔
      late react m w first = [] ∨ ∃ d ∈ first :: rest, d.report? ≠ none) := by
  refine ⟨waitAndPoll_eq h hq, ?_⟩
  rw [waitAndPoll_eq h hq, poll, hq]
  constructor
  · intro hsame
    by_contra hnot
    obtain ⟨hlate, hquiet⟩ := not_or.1 hnot
    have hquiet : ∀ d ∈ first :: rest, d.report? = none := fun d hd => by
      by_contra hd'
      exact hquiet ⟨d, hd, hd'⟩
    obtain ⟨n, hn⟩ := Nat.exists_eq_succ_of_ne_zero (mt List.eq_nil_of_length_eq_zero hlate)
    rw [hn] at hsame
    exact runUpTo_ne_of_late h hq hquiet (fun hnone => hlate (List.append_eq_nil_iff.1 hnone).1) n hsame
  · rintro (hlate | ⟨d, hd, hreport⟩)
    · rw [hlate]
      rfl
    · rcases exists_first_report (first :: rest) with hquiet | ⟨ran, r, after, hsplit, hquiet⟩
      · exact absurd (hquiet d hd) hreport
      · rw [hsplit] at hq ⊢
        have hbound : (ran ++ .report r :: after).length + (late react m w first).length =
            ran.length + ((after.length + (late react m w first).length) + 1) := by
          rw [List.length_append, List.length_cons]
          omega
        rw [hbound, runUpTo_of_report h hq hquiet, List.length_append, List.length_cons]
        exact (runUpTo_of_report h hq hquiet _).symm

/-- One delivery waits, and its listener sends a report.  A poll runs the delivery and leaves the report, and a wait
raises it.  A listener that sends nothing makes no difference between the two. -/
theorem waitAndPoll_opening :
    let raises : Reaction Unit := fun _ _ w => w.send ⟨0⟩ (.report (.single "late"))
    let passive : Reaction Unit := fun _ _ w => w
    let d : Delivery := .completions [⟨⟨0⟩, ⟨0⟩⟩]
    let w : World Unit := World.setMailbox { client := () } ⟨0⟩ (.accepting [d])
    (w.poll raises ⟨0⟩).1 = .ok 1 ∧ (w.waitAndPoll raises ⟨0⟩).1 = .error (.single "late") ∧
    w.waitAndPoll raises ⟨0⟩ ≠ w.poll raises ⟨0⟩ ∧ w.waitAndPoll passive ⟨0⟩ = w.poll passive ⟨0⟩ := by
  intro raises passive d w
  have hraises : Appends raises ⟨0⟩ := appends_send ⟨0⟩ ⟨0⟩ fun _ _ => .report (.single "late")
  have hpassive : Appends passive ⟨0⟩ := fun _ _ _ => List.prefix_rfl
  have hq : (w.mailbox ⟨0⟩).queue = [d] := by decide +kernel
  obtain ⟨hwait, hdiffers⟩ := waitAndPoll_exact hraises hq
  obtain ⟨-, hsame⟩ := waitAndPoll_exact hpassive hq
  refine ⟨by decide +kernel, (congrArg Prod.fst hwait).trans (by decide +kernel), fun he => ?_,
    hsame.2 (.inl (by decide +kernel))⟩
  exact absurd (hdiffers.1 he) (by decide +kernel)

end World

end SceneAnimation
