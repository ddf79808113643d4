import SceneAnimation.Proofs.Threads.Mail
/-!
# Reports: which error reports come to which mailbox

A root sends its errors one by one, or as one report at the end of a pass.  Nothing else that the render thread does
brings a report to a mailbox (`Job.arrivals_perform`), and of the owner's calls only those that report an error
(`Call.arrivals_effect`).
-/
namespace SceneAnimation

def Delivery.report? : Delivery → Option Report
  | .completions _ => none
  | .report r => some r

namespace World

variable {κ : Type} {w w' : World κ} {m : MailboxId}

/-- The reports that came to mailbox `m` between one world and the next, in order. -/
def arrivals (w w' : World κ) (m : MailboxId) : List Report :=
  ((w'.mailbox m).queue.drop (w.mailbox m).queue.length).filterMap Delivery.report?

theorem arrivals_of_le (h : (w'.mailbox m).queue.length ≤ (w.mailbox m).queue.length) : w.arrivals w' m = [] := by
  rw [arrivals, List.drop_of_length_le h]
  rfl

theorem arrivals_of_mailbox (h : w'.mailbox m = w.mailbox m) : w.arrivals w' m = [] :=
  arrivals_of_le (h ▸ Nat.le_refl _)

theorem arrivals_send (w : World κ) (n : MailboxId) (d : Delivery) (m : MailboxId) :
    w.arrivals (w.send n d) m = if m = n ∧ w.accepts n = true then d.report?.toList else [] := by
  rw [arrivals, mailbox_send]
  by_cases hm : m = n
  · subst hm
    rw [if_pos rfl, Mailbox.queue_send, List.drop_left]
    by_cases ha : w.accepts m = true
    · have ha' : (w.mailbox m).isAccepting = true := ha
      rw [if_pos ha', if_pos ⟨rfl, ha⟩]
      cases d <;> rfl
    · have ha' : ¬ (w.mailbox m).isAccepting = true := ha
      rw [if_neg ha', if_neg fun h => ha h.2]
      rfl
  · rw [if_neg hm, if_neg fun h => hm h.1, List.drop_length]
    rfl

/-- An error brings a report of its own, unless a pass is under way. -/
theorem arrivals_reportError (w : World κ) (r : RootId) (message : String) (m : MailboxId) :
    w.arrivals (w.reportError r message) m =
      if (w.root r).openPass = none ∧ m = (w.root r).owner ∧ w.accepts m = true then [.single message] else [] := by
  simp only [reportError]
  split
  · rename_i messages ho
    rw [if_neg (by simp [ho])]
    exact arrivals_of_mailbox rfl
  · rename_i ho
    rw [sendToOwner, arrivals_send]
    by_cases hm : m = (w.root r).owner
    · subst hm
      simp only [ho, true_and]
      rfl
    · simp [hm]

theorem arrivals_endPass (w : World κ) (r : RootId) (m : MailboxId) :
    w.arrivals (w.endPass r) m = if m = (w.root r).owner ∧ w.accepts m = true then
      (Report.ofMessages? ((w.root r).openPass.getD [])).toList else [] := by
  have howner : ((w.setRoot r { w.root r with openPass := none }).root r).owner = (w.root r).owner := by
    rw [root_setRoot, if_pos rfl]
  simp only [endPass]
  split
  · rename_i report hr
    show (w.setRoot r { w.root r with openPass := none }).arrivals _ m = _
    rw [sendToOwner, arrivals_send, howner, hr]
    by_cases hm : m = (w.root r).owner
    · subst hm
      rfl
    · simp [hm]
  · rename_i hr
    rw [hr, Option.toList_none, ite_self]
    exact arrivals_of_mailbox rfl

/-- An error joins the messages of the pass under way, if there is one. -/
theorem openPass_reportError (w : World κ) (q : RootId) (message : String) (r : RootId) :
    ((w.reportError q message).root r).openPass =
      if q = r then (w.root r).openPass.map (· ++ [message]) else (w.root r).openPass := by
  simp only [reportError]
  cases ho : (w.root q).openPass with
  | some messages =>
    dsimp only
    rw [root_setRoot]
    by_cases hr : q = r
    · subst hr; simp [ho]
    · rw [if_neg (Ne.symm hr), if_neg hr]
  | none =>
    dsimp only
    by_cases hr : q = r
    · subst hr
      rw [if_pos rfl, ho]
      exact ho
    · rw [if_neg hr]
      rfl

theorem roots_receive {n : MailboxId} {d : Delivery} (h : w.receive? n = some (d, w')) : w'.roots = w.roots := by
  obtain ⟨rest, -, rfl⟩ := receive?_eq_some.1 h
  rfl

theorem arrivals_receive {n : MailboxId} {d : Delivery} (h : w.receive? n = some (d, w')) :
    w.arrivals w' m = [] := by
  refine arrivals_of_le ?_
  obtain ⟨rest, hq, rfl⟩ := receive?_eq_some.1 h
  rw [mailbox_setMailbox]
  split
  · subst m
    rw [hq]
    exact Nat.le_succ _
  · exact Nat.le_refl _

end World

/-! ## Calls -/

namespace Call

variable {κ : Type} {w : World κ}

/-- **Only reporting an error brings reports.** -/
theorem arrivals_effect (h : w.Numbered) (c : Call κ) (m : MailboxId) :
    w.arrivals (c.effect w) m =
      match c with
      | .reportError q message =>
        if (w.root q).openPass = none ∧ m = (w.root q).owner ∧ w.accepts m = true then [.single message] else []
      | .sendReport n report => if m = n ∧ w.accepts n = true then [report] else []
      | _ => [] := by
  cases c with
  | reportError q message => exact World.arrivals_reportError ..
  | sendReport n report => exact World.arrivals_send ..
  | openMailbox =>
    simp only [effect, World.openMailbox]
    cases w.ownerMailbox with
    | some n => exact World.arrivals_of_mailbox rfl
    | none =>
      refine World.arrivals_of_mailbox ?_
      show (w.setMailbox ⟨w.mailboxes.size⟩ .empty).mailbox m = w.mailbox m
      rw [World.mailbox_setMailbox]
      split
      · subst m
        have hnew : ¬ (⟨w.mailboxes.size⟩ : MailboxId) ∈ w.mailboxes := h.mailboxes.not_mem rfl
        rw [World.mailbox, Table.get_of_not_mem hnew]
        rfl
      · rfl
  | closeMailbox =>
    simp only [effect, World.closeMailbox]
    cases w.ownerMailbox with
    | none => exact World.arrivals_of_mailbox rfl
    | some n =>
      refine World.arrivals_of_le ?_
      show ((w.setMailbox n .closed).mailbox m).queue.length ≤ _
      rw [World.mailbox_setMailbox]
      split
      · exact Nat.zero_le _
      · exact Nat.le_refl _
  | _ => exact World.arrivals_of_mailbox rfl

/-- **A call adds to the messages of a pass under way**, and neither begins nor ends a pass. -/
theorem openPass_effect (h : w.Numbered) (c : Call κ) (r : RootId) :
    ((c.effect w).root r).openPass =
      match c with
      | .reportError q message => if q = r then (w.root r).openPass.map (· ++ [message]) else (w.root r).openPass
      | _ => (w.root r).openPass := by
  cases c with
  | reportError q message => exact World.openPass_reportError ..
  | register q n =>
    simp only [effect, World.register, World.root_setRoot]
    split
    · subst r; rfl
    · rfl
  | addRoot m =>
    simp only [effect, World.addRoot, World.root_setRoot]
    split
    · subst r
      have hnew : ¬ (⟨w.roots.size⟩ : RootId) ∈ w.roots := h.roots.not_mem rfl
      rw [World.root, Table.get_of_not_mem hnew]
      rfl
    · rfl
  | openMailbox =>
    simp only [effect, World.openMailbox]
    cases w.ownerMailbox <;> rfl
  | closeMailbox =>
    simp only [effect, World.closeMailbox]
    cases w.ownerMailbox <;> rfl
  | _ => rfl

end Call

/-! ## Jobs -/

namespace Job

variable {κ : Type}

/-- The message of an error that the walk meets at node `n`. -/
def errorText (s : RenderState κ) (n : NodeId) (problem : String) : String :=
  (s.world.scene.node n).name ++ ": " ++ problem

theorem world_skip (n : NodeId) (problem : String) (s : RenderState κ) : ((skip n problem).perform s).2.world =
    match s.pass.sink with
    | .root q => s.world.reportError q (errorText s n problem)
    | _ => s.world := by
  simp only [perform, RenderState.skip, RenderState.reportError]
  cases s.pass.sink <;> rfl

/-- **Only errors of the walk and the end of a pass bring reports.** -/
theorem arrivals_perform (j : Job) (s : RenderState κ) (m : MailboxId) :
    s.world.arrivals (j.perform s).2.world m =
      match j with
      | .skip n problem =>
        match s.pass.sink with
        | .root q => if (s.world.root q).openPass = none ∧ m = (s.world.root q).owner ∧ s.world.accepts m = true then
            [.single (errorText s n problem)] else []
        | _ => []
      | .closePass q _ => if m = (s.world.root q).owner ∧ s.world.accepts m = true then
          (Report.ofMessages? ((s.world.root q).openPass.getD [])).toList else []
      | _ => [] := by
  cases j with
  | skip n problem =>
    rw [world_skip]
    cases s.pass.sink with
    | root q => exact World.arrivals_reportError ..
    | absent | collector messages => exact World.arrivals_of_mailbox rfl
  | closePass q sink => exact World.arrivals_endPass ..
  | post =>
    obtain ⟨outlet, -, h | ⟨r, batch, -, h⟩⟩ := post_spec s
    · rw [h]
      exact World.arrivals_of_mailbox rfl
    · rw [h]
      show s.world.arrivals (s.world.sendToOwner r (.completions batch)) m = []
      rw [World.sendToOwner, World.arrivals_send]
      exact ite_self _
  | startFrame | prepare depth n | check depth n =>
    rw [state_of_asks (by trivial)]
    exact World.arrivals_of_mailbox rfl
  | report batch =>
    obtain ⟨outlet, -, h⟩ := report_spec batch s
    rw [h]
    exact World.arrivals_of_mailbox rfl
  | _ => exact World.arrivals_of_mailbox rfl

/-- **What a job does to the pass of a root**: it begins it, ends it, or adds a message. -/
theorem openPass_perform (j : Job) (s : RenderState κ) (r : RootId) : ((j.perform s).2.world.root r).openPass =
    match j with
    | .openPass q => if q = r then some [] else (s.world.root r).openPass
    | .closePass q _ => if q = r then none else (s.world.root r).openPass
    | .skip n problem =>
      if s.pass.sink = .root r then (s.world.root r).openPass.map (· ++ [errorText s n problem])
      else (s.world.root r).openPass
    | _ => (s.world.root r).openPass := by
  cases j with
  | openPass q =>
    show ((s.world.setRoot q { s.world.root q with openPass := some [] }).root r).openPass = _
    rw [World.root_setRoot]
    by_cases hr : q = r
    · subst hr; simp
    · rw [if_neg (Ne.symm hr)]
      exact (if_neg hr).symm
  | closePass q sink =>
    have hset : ((s.world.setRoot q { s.world.root q with openPass := none }).root r).openPass =
        if q = r then none else (s.world.root r).openPass := by
      rw [World.root_setRoot]
      by_cases hr : q = r
      · subst hr; simp
      · rw [if_neg (Ne.symm hr), if_neg hr]
    simp only [perform, World.endPass]
    split
    · exact hset
    · exact hset
  | skip n problem =>
    rw [world_skip]
    cases s.pass.sink with
    | root q =>
      simp only [ErrorSink.root.injEq]
      exact World.openPass_reportError ..
    | absent | collector messages => simp
  | takePending q =>
    simp only [perform, World.takePending, World.root_setRoot]
    split
    · subst r; rfl
    · rfl
  | post =>
    obtain ⟨outlet, -, h | ⟨q, batch, -, h⟩⟩ := post_spec s
    · rw [h]
    · rw [h]
      rfl
  | startFrame | prepare depth n | check depth n => rw [state_of_asks (by trivial)]
  | report batch =>
    obtain ⟨outlet, -, h⟩ := report_spec batch s
    rw [h]
  | _ => rfl

end Job

end SceneAnimation
