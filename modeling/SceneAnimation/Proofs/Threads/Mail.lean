import SceneAnimation.Proofs.Threads.Known
/-!
# Mail: which completions wait in which mailbox

Only the render thread sends completions, and only when it posts what its driver holds (`World.Quiet`).  A mailbox that
has been closed stays closed and empty.
-/
namespace SceneAnimation

def Delivery.batch : Delivery → List Completion
  | .completions batch => batch
  | .report _ => []

/-- The completions that wait in a mailbox, in order. -/
def Mailbox.batches (m : Mailbox) : List Completion := m.queue.flatMap Delivery.batch

theorem Mailbox.batches_send (d : Delivery) (m : Mailbox) :
    (m.send d).batches = m.batches ++ if m.isAccepting then d.batch else [] := by
  rw [batches, queue_send, List.flatMap_append, batches]
  split <;> simp

theorem Mailbox.batches_closed {m : Mailbox} (h : m.isAccepting = false) : m.batches = [] := by
  cases m with
  | accepting queue => cases h
  | closed => rfl

def Mailbox.sendAll (m : Mailbox) (ds : List Delivery) : Mailbox := ds.foldl (fun m d => m.send d) m

@[simp] theorem Mailbox.isAccepting_sendAll (ds : List Delivery) (m : Mailbox) :
    (m.sendAll ds).isAccepting = m.isAccepting := by
  induction ds generalizing m with
  | nil => rfl
  | cons d ds ih => exact (ih (m.send d)).trans (isAccepting_send d m)

/-- **What is sent to an open mailbox joins its queue at the end.** -/
theorem Mailbox.queue_sendAll (ds : List Delivery) {m : Mailbox} (h : m.isAccepting = true) :
    (m.sendAll ds).queue = m.queue ++ ds := by
  induction ds generalizing m with
  | nil => exact (List.append_nil _).symm
  | cons d ds ih =>
    have hfirst : ((m.send d).sendAll ds).queue = (m.send d).queue ++ ds := ih ((isAccepting_send d m).trans h)
    rw [queue_send, if_pos h, List.append_assoc] at hfirst
    exact hfirst

namespace World

variable {κ : Type} {w w' : World κ} {m : MailboxId}

/-- The completions that wait in mailbox `m`. -/
def queued (w : World κ) (m : MailboxId) : List Completion := (w.mailbox m).batches

/-- **No completions come to mailbox `m`**, and none go, unless it has been closed. -/
def Quiet (w w' : World κ) (m : MailboxId) : Prop :=
  w'.accepts m = true → w.accepts m = true ∧ w'.queued m = w.queued m

theorem queued_of_not_accepts (h : w.accepts m = false) : w.queued m = [] := Mailbox.batches_closed h

theorem Quiet.queued (h : w.Quiet w' m) : w'.queued m = [] ∨ w'.queued m = w.queued m := by
  cases ha : w'.accepts m with
  | true => exact .inr (h ha).2
  | false => exact .inl (queued_of_not_accepts ha)

theorem quiet_of_mailbox (h : w'.mailbox m = w.mailbox m) : w.Quiet w' m := by
  intro ha
  rw [accepts, h] at ha
  exact ⟨ha, by rw [World.queued, h]; rfl⟩

theorem queued_send (w : World κ) (n : MailboxId) (d : Delivery) (m : MailboxId) :
    (w.send n d).queued m = w.queued m ++ if m = n ∧ w.accepts n = true then d.batch else [] := by
  rw [World.queued, mailbox_send]
  by_cases hm : m = n
  · subst hm
    simp only [if_true, true_and]
    exact Mailbox.batches_send d _
  · simp only [hm, if_false, false_and, List.append_nil]
    rfl

theorem accepts_send (w : World κ) (n : MailboxId) (d : Delivery) (m : MailboxId) :
    (w.send n d).accepts m = w.accepts m := by
  rw [accepts, mailbox_send]
  split
  · subst m; exact Mailbox.isAccepting_send ..
  · rfl

theorem quiet_send_report (w : World κ) (n : MailboxId) (r : Report) (m : MailboxId) :
    w.Quiet (w.send n (.report r)) m := by
  intro ha
  rw [accepts_send] at ha
  refine ⟨ha, ?_⟩
  rw [queued_send, Delivery.batch, ite_self, List.append_nil]

theorem quiet_reportError (w : World κ) (r : RootId) (message : String) (m : MailboxId) :
    w.Quiet (w.reportError r message) m := by
  simp only [reportError]
  split
  · exact quiet_of_mailbox rfl
  · exact quiet_send_report w _ _ m

theorem quiet_endPass (w : World κ) (r : RootId) (m : MailboxId) : w.Quiet (w.endPass r) m := by
  simp only [endPass]
  split
  · exact quiet_send_report (w.setRoot r _) _ _ m
  · exact quiet_of_mailbox rfl

/-- **Taking a delivery out** takes its completions off the front. -/
theorem queued_receive {d : Delivery} (h : w.receive? m = some (d, w')) :
    w.accepts m = true ∧ w.queued m = d.batch ++ w'.queued m ∧ (∀ n, w'.accepts n = w.accepts n) ∧
      ∀ n, n ≠ m → w'.queued n = w.queued n := by
  obtain ⟨rest, hq, rfl⟩ := receive?_eq_some.1 h
  have haccepts : w.accepts m = true := by
    rw [accepts]
    cases hm : w.mailbox m with
    | closed => rw [hm] at hq; cases hq
    | accepting queue => rfl
  refine ⟨haccepts, ?_, fun n => ?_, fun n hn => ?_⟩
  · rw [World.queued, World.queued, mailbox_setMailbox, if_pos rfl, Mailbox.batches, hq]
    rfl
  · rw [accepts, mailbox_setMailbox]
    split
    · subst n
      exact haccepts.symm
    · rfl
  · rw [World.queued, mailbox_setMailbox, if_neg hn]
    rfl

/-- **No call sends completions, or opens a mailbox again.** -/
theorem quiet_effect (h : w.Numbered) (c : Call κ) (m : MailboxId) : w.Quiet (c.effect w) m := by
  cases c with
  | openMailbox =>
    simp only [Call.effect, openMailbox]
    cases w.ownerMailbox with
    | some n => exact quiet_of_mailbox rfl
    | none =>
      refine quiet_of_mailbox ?_
      show (w.setMailbox ⟨w.mailboxes.size⟩ .empty).mailbox m = w.mailbox m
      rw [mailbox_setMailbox]
      split
      · subst m
        have hnew : ¬ (⟨w.mailboxes.size⟩ : MailboxId) ∈ w.mailboxes := h.mailboxes.not_mem rfl
        rw [mailbox, Table.get_of_not_mem hnew]
        rfl
      · rfl
  | closeMailbox =>
    simp only [Call.effect, closeMailbox]
    cases w.ownerMailbox with
    | none => exact quiet_of_mailbox rfl
    | some n =>
      by_cases hm : m = n
      · intro ha
        simp only [accepts, mailbox] at ha
        rw [hm, setMailbox, Table.get_set, if_pos rfl] at ha
        cases ha
      · refine quiet_of_mailbox ?_
        show (w.setMailbox n .closed).mailbox m = w.mailbox m
        rw [mailbox_setMailbox, if_neg hm]
  | reportError r message => exact quiet_reportError w r message m
  | sendReport n report => exact quiet_send_report w n report m
  | _ => exact quiet_of_mailbox rfl

end World

namespace Job

variable {κ : Type}

/-- **No job but the post sends completions.** -/
theorem quiet_perform (j : Job) (s : RenderState κ) (hj : j ≠ .post) (m : MailboxId) :
    s.world.Quiet (j.perform s).2.world m := by
  cases j with
  | post => exact absurd rfl hj
  | skip n problem =>
    obtain ⟨-, h | ⟨r, message, -, h⟩⟩ := skip_spec n problem s
    · rw [h]
      exact World.quiet_of_mailbox rfl
    · rw [h]
      exact World.quiet_reportError s.world r message m
  | closePass r sink => exact World.quiet_endPass _ _ m
  | startFrame | prepare depth n | check depth n =>
    rw [state_of_asks (by trivial)]
    exact World.quiet_of_mailbox rfl
  | report batch =>
    obtain ⟨outlet, -, h⟩ := report_spec batch s
    rw [h]
    exact World.quiet_of_mailbox rfl
  | _ => exact World.quiet_of_mailbox rfl

end Job

namespace Call

variable {κ : Type} {w : World κ}

/-- No call changes whose mailbox the owner of a root has. -/
theorem owner_effect (h : w.Numbered) (c : Call κ) {r : RootId} (hr : r ∈ w.roots) :
    ((c.effect w).root r).owner = (w.root r).owner := by
  have hset : ∀ q x, x.owner = (w.root q).owner → ((w.setRoot q x).root r).owner = (w.root r).owner := by
    intro q x hx
    rw [World.root_setRoot]
    split
    · subst r; exact hx
    · rfl
  cases c with
  | register q n => exact hset q _ rfl
  | addRoot m =>
    have hnew : ¬ (⟨w.roots.size⟩ : RootId) ∈ w.roots := h.roots.not_mem rfl
    have hne : r ≠ ⟨w.roots.size⟩ := fun e => hnew (e ▸ hr)
    simp only [effect, World.addRoot, World.root_setRoot, if_neg hne]
    rfl
  | openMailbox =>
    simp only [effect, World.openMailbox]
    cases w.ownerMailbox <;> rfl
  | closeMailbox =>
    simp only [effect, World.closeMailbox]
    cases w.ownerMailbox <;> rfl
  | reportError q message =>
    simp only [effect, World.reportError]
    split
    · exact hset q _ rfl
    · rfl
  | _ => rfl

end Call

end SceneAnimation
