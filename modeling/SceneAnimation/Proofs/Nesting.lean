import SceneAnimation.Proofs.Threads.Mail
import SceneAnimation.Proofs.Threads.Whole
/-!
# Nesting: polls inside polls

A listener that the owner's thread runs in a poll may send, and may poll the same mailbox again; other threads send at
any time; and a poll ends early when a delivery raises an error.  Here the owner's polls are a stack, the innermost
first, and everything else may happen between any two of their steps.  Whatever happens, what was taken out of a mailbox
and what waits in it make up what it accepted, in order, while it is open (`Owner.fifo_run`).  What the library makes of
a poll, with listeners that poll in turn, is one of these runs (`Owner.follows_poll`).
-/
namespace SceneAnimation

/-- The mailbox that an errand takes a delivery out of, if one waits. -/
def Errand.opens? : Errand → Option MailboxId
  | .receive m (_ + 1) | .wait m => some m
  | _ => none

/-- What a call sends, and where to. -/
def Call.sent {κ : Type} (w : World κ) : Call κ → List (MailboxId × Delivery)
  | .reportError r message =>
    if (w.root r).openPass = none then [((w.root r).owner, .report (.single message))] else []
  | .sendReport m report => [(m, .report report)]
  | _ => []

/-- The owner's thread: the world, and what is left to do of the polls under way, the innermost first. -/
structure Owner (κ : Type) where
  world : World κ
  polls : List (List Errand) := []

namespace Owner

/-- What can happen next. -/
inductive Step (κ : Type) where
  /-- Any thread sends `d` by a handle of mailbox `m`. -/
  | send (m : MailboxId) (d : Delivery)
  /-- Any thread sends `d` to the owner of root `r`. -/
  | sendToOwner (r : RootId) (d : Delivery)
  | call (c : Call κ)
  /-- The owner's thread begins a poll, inside a listener or outside. -/
  | poll
  /-- It waits for a first delivery, and then polls. -/
  | waitAndPoll
  /-- It goes on with the innermost poll, which may end by it. -/
  | errand

variable {κ : Type}

def inWorld (o : Owner κ) (w : World κ) : Owner κ := { o with world := w }

def beginPoll (o : Owner κ) (e : MailboxId → Errand) : Owner κ :=
  match o.world.ownerMailbox with
  | some m => { o with polls := [e m] :: o.polls }
  | none => o

def doErrand (o : Owner κ) : Owner κ :=
  match o.polls with
  | [] => o
  | [] :: outer => { o with polls := outer }
  | (e :: rest) :: outer =>
    { world := (e.perform rest o.world).2, polls := (e.perform rest o.world).1 :: outer }

def step (o : Owner κ) : Step κ → Owner κ
  | .send m d => if m ∈ o.world.mailboxes then o.inWorld (o.world.send m d) else o
  | .sendToOwner r d => if r ∈ o.world.roots then o.inWorld (o.world.sendToOwner r d) else o
  | .call c => o.inWorld (o.world.call c)
  | .poll => o.beginPoll .poll
  | .waitAndPoll => o.beginPoll .wait
  | .errand => o.doErrand

def run (o : Owner κ) (xs : List (Step κ)) : Owner κ := xs.foldl step o

/-- What a step sends, and where to. -/
def Step.sent (w : World κ) : Step κ → List (MailboxId × Delivery)
  | .send m d => if m ∈ w.mailboxes then [(m, d)] else []
  | .sendToOwner r d => if r ∈ w.roots then [((w.root r).owner, d)] else []
  | .call c => if c.named w then c.sent w else []
  | _ => []

/-- What a step sends to mailbox `m`, if that is open. -/
def accepts (m : MailboxId) (o : Owner κ) (x : Step κ) : List Delivery :=
  if o.world.accepts m then ((x.sent o.world).filter (·.1 = m)).map (·.2) else []

/-- What a step takes out of mailbox `m` and begins to run. -/
def starts (m : MailboxId) (o : Owner κ) : Step κ → List Delivery
  | .errand =>
    match o.polls with
    | (e :: _) :: _ => if e.opens? = some m then (o.world.mailbox m).queue.take 1 else []
    | _ => []
  | _ => []

/-- The deliveries that mailbox `m` accepts in a run, in order. -/
def accepted (m : MailboxId) (o : Owner κ) (xs : List (Step κ)) : List Delivery := trail step (accepts m) o xs

/-- The deliveries of mailbox `m` that the owner begins to run, in order. -/
def started (m : MailboxId) (o : Owner κ) (xs : List (Step κ)) : List Delivery := trail step (starts m) o xs

@[simp] theorem run_nil (o : Owner κ) : o.run [] = o := rfl

@[simp] theorem run_cons (o : Owner κ) (x : Step κ) (xs : List (Step κ)) : o.run (x :: xs) = (o.step x).run xs := rfl

theorem run_append (o : Owner κ) (xs ys : List (Step κ)) : o.run (xs ++ ys) = (o.run xs).run ys := List.foldl_append

end Owner

/-! ## One step -/

section Mailboxes

variable {κ : Type} {w : World κ}

/-- **An errand takes the first delivery out of one mailbox**, and leaves the others alone. -/
theorem Errand.mailbox_perform (e : Errand) (rest : List Errand) (w : World κ) (m : MailboxId) :
    (e.perform rest w).2.accepts m = w.accepts m ∧
      (if e.opens? = some m then (w.mailbox m).queue.take 1 else []) ++ ((e.perform rest w).2.mailbox m).queue =
        (w.mailbox m).queue := by
  have hnone : ∀ q, w.receive? q = none → (w.mailbox q).queue = [] := fun q hq => by
    unfold World.receive? at hq
    split at hq
    · assumption
    · cases hq
  have hsome : ∀ q d w', w.receive? q = some (d, w') → w'.accepts m = w.accepts m ∧
      (if some q = some m then (w.mailbox m).queue.take 1 else []) ++ (w'.mailbox m).queue =
        (w.mailbox m).queue := fun q d w' h => by
    obtain ⟨queue, hq, rfl⟩ := World.receive?_eq_some.1 h
    rw [World.accepts, World.mailbox_setMailbox]
    by_cases hm : m = q
    · subst hm
      have hopen : w.accepts m = true := by
        unfold World.accepts
        cases hb : w.mailbox m with
        | accepting _ => rfl
        | closed => rw [hb] at hq; cases hq
      rw [if_pos rfl, if_pos rfl, hq, hopen]
      exact ⟨rfl, rfl⟩
    · rw [if_neg hm, if_neg fun he => hm (Option.some.inj he).symm]
      exact ⟨rfl, rfl⟩
  have hstay : ∀ q, w.receive? q = none →
      (if some q = some m then (w.mailbox m).queue.take 1 else []) ++ (w.mailbox m).queue = (w.mailbox m).queue :=
    fun q hq => by
      split
      · rename_i he
        cases he
        rw [hnone m hq]
        rfl
      · rfl
  cases e with
  | tell c | poll q => exact ⟨rfl, rfl⟩
  | receive q n =>
    cases n with
    | zero => exact ⟨rfl, rfl⟩
    | succ n =>
      cases h : w.receive? q with
      | none => simp only [perform, h, opens?]; exact ⟨trivial, hstay q h⟩
      | some x => simp only [perform, h, opens?]; exact hsome q x.1 x.2 h
  | wait q =>
    cases h : w.receive? q with
    | none => simp only [perform, h, opens?]; exact ⟨trivial, hstay q h⟩
    | some x => simp only [perform, h, opens?]; exact hsome q x.1 x.2 h

/-- No errand makes a mailbox, opens one or closes one. -/
theorem Errand.mailboxes_perform (e : Errand) (rest : List Errand) (w : World κ) :
    (e.perform rest w).2.ownerMailbox = w.ownerMailbox ∧
      ∀ m, m ∈ (e.perform rest w).2.mailboxes ↔ m ∈ w.mailboxes := by
  rcases e.world_perform rest w with h | ⟨q, d, h⟩
  · rw [h]
    exact ⟨rfl, fun m => Iff.rfl⟩
  · obtain ⟨queue, hq, hw⟩ := World.receive?_eq_some.1 h
    rw [hw]
    have hmade : q ∈ w.mailboxes := Classical.byContradiction fun hnot => by
      rw [World.mailbox, Table.get_of_not_mem hnot] at hq
      cases hq
    exact ⟨rfl, fun m => (Table.mem_set ..).trans ⟨fun hm => hm.elim (fun he => he ▸ hmade) id, .inr⟩⟩

/-- Every call but the opening and the closing of a mailbox changes mailboxes by what it sends only. -/
theorem Call.mailbox_effect (w : World κ) {c : Call κ} (ho : c ≠ .openMailbox) (hc : c ≠ .closeMailbox)
    (m : MailboxId) :
    (c.effect w).mailbox m = (w.mailbox m).sendAll (((c.sent w).filter (·.1 = m)).map (·.2)) := by
  cases c with
  | openMailbox => exact absurd rfl ho
  | closeMailbox => exact absurd rfl hc
  | reportError r message =>
    simp only [effect, World.reportError, sent]
    cases hp : (w.root r).openPass with
    | some messages => rfl
    | none =>
      simp only [if_true, World.sendToOwner, World.mailbox_send]
      by_cases hm : (w.root r).owner = m
      · subst hm; simp [Mailbox.sendAll]
      · simp [hm, Ne.symm hm, Mailbox.sendAll]
  | sendReport q report =>
    simp only [effect, sent, World.mailbox_send]
    by_cases hm : q = m
    · subst hm; simp [Mailbox.sendAll]
    · simp [hm, Ne.symm hm, Mailbox.sendAll]
  | _ => rfl

/-- Opening a mailbox touches no other, and a new one is as empty as one that was never made. -/
theorem Call.mailbox_open (hn : w.Numbered) (m : MailboxId) :
    (Call.openMailbox.effect w).mailbox m = w.mailbox m := by
  simp only [effect, World.openMailbox]
  cases w.ownerMailbox with
  | some q => rfl
  | none =>
    refine (World.mailbox_setMailbox ..).trans ?_
    split
    · subst m
      have hnew : ¬ (⟨w.mailboxes.size⟩ : MailboxId) ∈ w.mailboxes := hn.mailboxes.not_mem rfl
      rw [World.mailbox, Table.get_of_not_mem hnew]
      rfl
    · rfl

/-- Closing a mailbox touches no mailbox that is open afterwards. -/
theorem Call.mailbox_close {m : MailboxId} (hopen : (Call.closeMailbox.effect w).accepts m = true) :
    (Call.closeMailbox.effect w).mailbox m = w.mailbox m := by
  simp only [effect, World.closeMailbox] at hopen ⊢
  cases ho : w.ownerMailbox with
  | none => rfl
  | some q =>
    rw [ho] at hopen
    refine (World.mailbox_setMailbox ..).trans (if_neg fun he => ?_)
    have hclosed : (w.setMailbox q .closed).accepts m = true := hopen
    rw [World.accepts, World.mailbox_setMailbox, if_pos he] at hclosed
    cases hclosed

/-- Every other call leaves it at the mailboxes that there are, and at which of them is the owner's. -/
theorem Call.mailboxes_effect {c : Call κ} (hn : w.Numbered) (hc : c.named w = true) (ho : c ≠ .openMailbox)
    (hcl : c ≠ .closeMailbox) : (c.effect w).ownerMailbox = w.ownerMailbox ∧
      ∀ m, m ∈ (c.effect w).mailboxes ↔ m ∈ w.mailboxes := by
  have hset : ∀ q x m, q ∈ w.mailboxes → (m ∈ w.mailboxes.set q x ↔ m ∈ w.mailboxes) := fun q x m hq => by
    rw [Table.mem_set]
    exact ⟨fun h => h.elim (fun he => he ▸ hq) id, .inr⟩
  cases c with
  | openMailbox => exact absurd rfl ho
  | closeMailbox => exact absurd rfl hcl
  | reportError r message =>
    simp only [effect, World.reportError]
    split
    · exact ⟨rfl, fun m => Iff.rfl⟩
    · exact ⟨rfl, fun m => hset _ _ m (hn.owner r (of_decide_eq_true hc))⟩
  | sendReport q report => exact ⟨rfl, fun m => hset _ _ m (of_decide_eq_true hc)⟩
  | _ => exact ⟨rfl, fun m => Iff.rfl⟩

end Mailboxes

namespace World

variable {κ : Type}

/-- **The owner's mailbox is the one that is open**, of all that have been made. -/
def Current (w : World κ) : Prop := ∀ m, w.ownerMailbox = some m ↔ m ∈ w.mailboxes ∧ w.accepts m = true

theorem Current.of_same {w w' : World κ} (h : Current w) (ho : w'.ownerMailbox = w.ownerMailbox)
    (hm : ∀ m, m ∈ w'.mailboxes ↔ m ∈ w.mailboxes) (ha : ∀ m, w'.accepts m = w.accepts m) : Current w' := fun m => by
  rw [ho, hm, ha]
  exact h m

theorem Current.call {w : World κ} (hn : w.Numbered) (h : Current w) {c : Call κ} (hc : c.named w = true) :
    Current (c.effect w) := by
  by_cases hopens : c = .openMailbox
  · subst hopens
    have ha : ∀ m, (Call.openMailbox.effect w).accepts m = w.accepts m := fun m => by
      rw [World.accepts, Call.mailbox_open hn, World.accepts]
    intro m
    rw [ha]
    simp only [Call.effect, World.openMailbox]
    cases ho : w.ownerMailbox with
    | some q =>
      show w.ownerMailbox = some m ↔ m ∈ w.mailboxes ∧ w.accepts m = true
      exact h m
    | none =>
      have hfirst : ¬ (⟨w.mailboxes.size⟩ : MailboxId) ∈ w.mailboxes := hn.mailboxes.not_mem rfl
      show some (⟨w.mailboxes.size⟩ : MailboxId) = some m ↔ m ∈ w.mailboxes.set ⟨w.mailboxes.size⟩ .empty ∧ _
      rw [Table.mem_set, Option.some.injEq]
      -- no mailbox was open, and the new one is
      have hnone : m ∈ w.mailboxes → ¬ w.accepts m = true := fun hm hopen => by
        have := (h m).2 ⟨hm, hopen⟩
        rw [ho] at this
        cases this
      constructor
      · rintro rfl
        refine ⟨.inl rfl, ?_⟩
        rw [World.accepts, World.mailbox, Table.get_of_not_mem hfirst]
        rfl
      · rintro ⟨rfl | hm, hopen⟩
        · rfl
        · exact absurd hopen (hnone hm)
  by_cases hcloses : c = .closeMailbox
  · subst hcloses
    simp only [Call.effect, World.closeMailbox]
    cases ho : w.ownerMailbox with
    | none =>
      exact h
    | some q =>
      intro m
      show none = some m ↔ m ∈ w.mailboxes.set q .closed ∧ (w.setMailbox q .closed).accepts m = true
      have hq := (h q).1 ho
      rw [Table.mem_set, World.accepts, World.mailbox_setMailbox]
      by_cases hm : m = q
      · subst hm; simp [Mailbox.isAccepting]
      · rw [if_neg hm]
        refine iff_of_false (by simp) fun hboth => hm ?_
        have := (h m).2 ⟨hboth.1.resolve_left hm, hboth.2⟩
        rw [ho] at this
        exact (Option.some.inj this).symm
  obtain ⟨ho, hm⟩ := Call.mailboxes_effect hn hc hopens hcloses
  exact h.of_same ho hm fun m => by
    rw [World.accepts, Call.mailbox_effect w hopens hcloses, Mailbox.isAccepting_sendAll, World.accepts]

end World

namespace Owner

variable {κ : Type} {o : Owner κ} {m : MailboxId}

/-- **What a step does to a mailbox.**  It may close it.  If it does not, what the step takes out, and what waits then,
is what waited before and what the step sent. -/
theorem mailbox_step (hn : o.world.Numbered) (x : Step κ)
    (hopen : (o.step x).world.accepts m = true) : o.world.accepts m = true ∧
      starts m o x ++ ((o.step x).world.mailbox m).queue = (o.world.mailbox m).queue ++ accepts m o x := by
  -- most steps take nothing out, and change mailboxes by what they send only
  have hsends : starts m o x = [] → (o.step x).world.mailbox m =
      (o.world.mailbox m).sendAll (((x.sent o.world).filter (·.1 = m)).map (·.2)) → o.world.accepts m = true ∧
        starts m o x ++ ((o.step x).world.mailbox m).queue = (o.world.mailbox m).queue ++ accepts m o x := by
    intro hs h
    have ha : o.world.accepts m = true := by
      rwa [World.accepts, h, Mailbox.isAccepting_sendAll] at hopen
    refine ⟨ha, ?_⟩
    rw [hs, h, Mailbox.queue_sendAll _ ha, accepts, if_pos ha]
    rfl
  have hone : ∀ q d, (o.world.send q d).mailbox m =
      (o.world.mailbox m).sendAll (([(q, d)].filter (·.1 = m)).map (·.2)) := fun q d => by
    rw [World.mailbox_send]
    by_cases hq : q = m
    · subst hq; simp [Mailbox.sendAll]
    · simp [hq, Ne.symm hq, Mailbox.sendAll]
  cases x with
  | send q d =>
    refine hsends rfl ?_
    simp only [step, Step.sent]
    split
    · exact hone q d
    · rfl
  | sendToOwner r d =>
    refine hsends rfl ?_
    simp only [step, Step.sent]
    split
    · exact hone _ d
    · rfl
  | poll | waitAndPoll =>
    refine hsends rfl ?_
    simp only [step, beginPoll]
    split <;> rfl
  | errand =>
    have hnone : accepts m o .errand = [] := ite_self _
    rw [hnone, List.append_nil]
    rcases hp : o.polls with _ | ⟨_ | ⟨e, rest⟩, outer⟩
    · simp only [step, doErrand, starts, hp] at hopen ⊢
      exact ⟨hopen, rfl⟩
    · simp only [step, doErrand, starts, hp] at hopen ⊢
      exact ⟨hopen, rfl⟩
    · simp only [step, doErrand, starts, hp] at hopen ⊢
      obtain ⟨ha, hq⟩ := Errand.mailbox_perform e rest o.world m
      exact ⟨ha.symm.trans hopen, hq⟩
  | call c =>
    by_cases hc : c.named o.world = true
    · have heffect : (o.step (.call c)).world = c.effect o.world := if_pos hc
      have hsent : (Step.call c).sent o.world = c.sent o.world := if_pos hc
      rw [heffect] at hopen
      refine hsends rfl ?_
      rw [heffect, hsent]
      by_cases hopens : c = .openMailbox
      · subst hopens
        exact Call.mailbox_open hn m
      by_cases hcloses : c = .closeMailbox
      · subst hcloses
        exact Call.mailbox_close hopen
      exact Call.mailbox_effect o.world hopens hcloses m
    · have hsame : (o.step (.call c)).world = o.world := if_neg hc
      have hsent : (Step.call c).sent o.world = [] := if_neg hc
      refine hsends rfl ?_
      rw [hsame, hsent]
      rfl

theorem leads_step (hn : o.world.Numbered) (x : Step κ) : o.world.Leads (o.step x).world := by
  cases x with
  | send q d =>
    simp only [step]
    split
    · exact hn.setMailbox (.inl (by assumption)) _
    · exact hn.refl
  | sendToOwner r d =>
    simp only [step]
    split
    · exact hn.sendToOwner (by assumption) d
    · exact hn.refl
  | call c =>
    simp only [step, inWorld, World.call]
    split
    · exact hn.effect c (by assumption)
    · exact hn.refl
  | poll | waitAndPoll =>
    simp only [step, beginPoll]
    split <;> exact hn.refl
  | errand =>
    simp only [step, doErrand]
    split
    · exact hn.refl
    · exact hn.refl
    · exact Errand.leads_perform hn _ _

/-- No step changes whose mailbox the owner of a root has. -/
theorem owner_step (hn : o.world.Numbered) (x : Step κ) {r : RootId} (hr : r ∈ o.world.roots) :
    ((o.step x).world.root r).owner = (o.world.root r).owner := by
  cases x with
  | send q d | sendToOwner q d =>
    simp only [step]
    split <;> rfl
  | call c =>
    simp only [step, inWorld, World.call]
    split
    · exact Call.owner_effect hn c hr
    · rfl
  | poll | waitAndPoll =>
    simp only [step, beginPoll]
    split <;> rfl
  | errand =>
    simp only [step, doErrand]
    split
    · rfl
    · rfl
    · simp only [World.root, Errand.roots_perform]

theorem current_step (hn : o.world.Numbered) (h : o.world.Current) (x : Step κ) : (o.step x).world.Current := by
  have hsend : ∀ q d, q ∈ o.world.mailboxes → (o.world.send q d).Current := fun q d hq =>
    h.of_same rfl (fun m => (Table.mem_set ..).trans ⟨fun hm => hm.elim (fun he => he ▸ hq) id, .inr⟩)
      fun m => World.accepts_send ..
  cases x with
  | send q d =>
    simp only [step]
    split
    · exact hsend q d (by assumption)
    · exact h
  | sendToOwner r d =>
    simp only [step]
    split
    · exact hsend _ d (hn.owner r (by assumption))
    · exact h
  | call c =>
    simp only [step, inWorld, World.call]
    split
    · exact h.call hn (by assumption)
    · exact h
  | poll | waitAndPoll =>
    simp only [step, beginPoll]
    split <;> exact h
  | errand =>
    simp only [step, doErrand]
    split
    · exact h
    · exact h
    · rename_i e rest outer _
      obtain ⟨howner, hmade⟩ := Errand.mailboxes_perform e rest o.world
      exact h.of_same howner hmade fun m => (Errand.mailbox_perform e rest o.world m).1

/-! ## Runs -/

/-- **What one step keeps, a whole run keeps.** -/
theorem run_keeps {P : Owner κ → Prop} (h : ∀ o x, P o → P (o.step x)) : ∀ (xs : List (Step κ)) (o : Owner κ), P o →
    P (o.run xs)
  | [], _, ho => ho
  | x :: xs, o, ho => run_keeps h xs (o.step x) (h o x ho)

theorem numbered_run (hn : o.world.Numbered) (xs : List (Step κ)) : (o.run xs).world.Numbered :=
  run_keeps (P := fun o => o.world.Numbered) (fun _ x hn => (leads_step hn x).numbered) xs o hn

/-- **A mailbox is first in, first out**, as long as it is open. -/
theorem queue_run (hn : o.world.Numbered) (xs : List (Step κ)) (hopen : (o.run xs).world.accepts m = true) :
    started m o xs ++ ((o.run xs).world.mailbox m).queue = (o.world.mailbox m).queue ++ accepted m o xs := by
  have h := foldl_keeps_trail (f := starts m) (g := accepts m)
    (P := fun out within u => u.world.Numbered ∧ (u.world.accepts m = true →
      out ++ (u.world.mailbox m).queue = (o.world.mailbox m).queue ++ within))
    (fun out within u x h => ⟨(leads_step h.1 x).numbered, fun hopen => by
      obtain ⟨hbefore, hstep⟩ := mailbox_step h.1 x hopen
      rw [List.append_assoc, hstep, ← List.append_assoc, h.2 hbefore, List.append_assoc]⟩)
    xs [] [] o ⟨hn, fun _ => (List.append_nil _).symm⟩
  exact h.2 hopen

/-- **A mailbox that has been closed stays closed**, and nothing more comes to it or out of it. -/
theorem closed_run (hn : o.world.Numbered) (hclosed : o.world.accepts m = false) (xs : List (Step κ)) :
    (o.run xs).world.accepts m = false ∧ started m o xs = [] ∧ accepted m o xs = [] := by
  have hempty : ∀ w : World κ, w.accepts m = false → (w.mailbox m).queue = [] := fun w h => by
    rw [World.accepts] at h
    cases hw : w.mailbox m with
    | accepting queue => rw [hw] at h; cases h
    | closed => rfl
  have h := foldl_keeps_trail (f := starts m) (g := accepts m)
    (P := fun out within u => u.world.Numbered ∧ u.world.accepts m = false ∧ out = [] ∧ within = [])
    (fun out within u x h => by
      obtain ⟨hn, hc, rfl, rfl⟩ := h
      refine ⟨(leads_step hn x).numbered, ?_, ?_, ?_⟩
      · rw [← Bool.not_eq_true] at hc ⊢
        exact fun hopen => hc (mailbox_step hn x hopen).1
      · cases x with
        | errand =>
          simp only [starts]
          split
          · rw [hempty _ hc]
            exact ite_self _
          · rfl
        | _ => rfl
      · rw [accepts, hc]
        rfl)
    xs [] [] o ⟨hn, hclosed, rfl, rfl⟩
  exact h.2

/-! ## The library's polls -/

/-- Whether a run leads from `o` to `o'`. -/
def Reaches (o o' : Owner κ) : Prop := ∃ xs, o.run xs = o'

theorem Reaches.trans {o' o'' : Owner κ} (h : o.Reaches o') (h' : o'.Reaches o'') : o.Reaches o'' := by
  obtain ⟨xs, rfl⟩ := h
  obtain ⟨ys, rfl⟩ := h'
  exact ⟨xs ++ ys, run_append o xs ys⟩

theorem reaches_step (o : Owner κ) (x : Step κ) : o.Reaches (o.step x) := ⟨[x], rfl⟩

/-- Whatever `react` does, a run does: listeners send, make calls and poll, and nothing else. -/
def Follows (react : Reaction κ) : Prop := ∀ l a (o : Owner κ), o.Reaches (o.inWorld (react l a o.world))

/-- A listener may make any calls. -/
theorem follows_calls (cs : ListenerId → AnimatorId → World κ → List (Call κ)) :
    Follows fun l a w => w.calls (cs l a w) := by
  have hcalls : ∀ (calls : List (Call κ)) (o : Owner κ), o.Reaches (o.inWorld (o.world.calls calls)) := fun calls => by
    induction calls with
    | nil => exact fun _ => ⟨[], rfl⟩
    | cons c calls ih => exact fun o => (reaches_step o (.call c)).trans (ih (o.inWorld (o.world.call c)))
  exact fun l a o => hcalls (cs l a o.world) o

/-- A listener may do one thing after the other. -/
theorem Follows.andThen {first second : Reaction κ} (h : Follows first) (h' : Follows second) :
    Follows fun l a w => second l a (first l a w) := fun l a o =>
  (h l a o).trans (h' l a (o.inWorld (first l a o.world)))

section Polls

variable {react : Reaction κ} (hreact : Follows react) (m : MailboxId)
include hreact

theorem reaches_tells (rest : List Errand) (outer : List (List Errand)) :
    ∀ (batch : List Completion) (w : World κ),
      Reaches ⟨w, (batch.map .tell ++ rest) :: outer⟩ ⟨w.notify react batch, rest :: outer⟩
  | [], _ => ⟨[], rfl⟩
  | c :: batch, w =>
    have htold : Reaches ⟨w, ((c :: batch).map .tell ++ rest) :: outer⟩ ⟨w, (batch.map .tell ++ rest) :: outer⟩ :=
      reaches_step _ .errand
    (htold.trans (hreact c.listener c.animator _)).trans (reaches_tells rest outer batch _)

/-- A poll with nothing left to do ends. -/
theorem reaches_receive (outer : List (List Errand)) : ∀ (n : Nat) (w : World κ),
    Reaches ⟨w, [.receive m n] :: outer⟩ ⟨(w.runUpTo react m n).2, outer⟩
  | 0, w => ⟨[.errand, .errand], rfl⟩
  | n + 1, w => by
    cases hr : w.receive? m with
    | none =>
      refine ⟨[.errand, .errand], ?_⟩
      simp only [run_cons, run_nil, step, doErrand, Errand.perform, World.runUpTo, hr]
    | some x =>
      obtain ⟨d, w'⟩ := x
      cases d with
      | report report =>
        -- a report is raised, and this poll ends with it, but not those around it
        refine ⟨[.errand, .errand], ?_⟩
        simp only [run_cons, run_nil, step, doErrand, Errand.perform, Errand.ofDelivery, World.runUpTo,
          World.runDelivery, hr]
      | completions batch =>
        have htaken : Reaches ⟨w, [.receive m (n + 1)] :: outer⟩
            ⟨w', (batch.map .tell ++ [.receive m n]) :: outer⟩ := by
          refine ⟨[.errand], ?_⟩
          simp only [run_cons, run_nil, step, doErrand, Errand.perform, Errand.ofDelivery, hr]
        have hrest := (htaken.trans (reaches_tells hreact [.receive m n] outer batch w')).trans
          (reaches_receive outer n (w'.notify react batch))
        simp only [World.runUpTo, World.runDelivery, hr]
        exact hrest

theorem reaches_poll (outer : List (List Errand)) (w : World κ) :
    Reaches ⟨w, [.poll m] :: outer⟩ ⟨(w.poll react m).2, outer⟩ :=
  Reaches.trans (reaches_step _ .errand) (reaches_receive hreact m outer (w.mailbox m).queue.length w)

/-- **What the library makes of a poll is a run**, with listeners that poll in turn. -/
theorem follows_poll (hm : o.world.ownerMailbox = some m) : o.Reaches (o.inWorld (o.world.poll react m).2) := by
  have hbegin : o.Reaches ⟨o.world, [.poll m] :: o.polls⟩ :=
    ⟨[.poll], by simp only [run_cons, run_nil, step, beginPoll, hm]⟩
  exact hbegin.trans (reaches_poll hreact m o.polls o.world)

/-- **So is what it makes of a wait.** -/
theorem follows_waitAndPoll (hm : o.world.ownerMailbox = some m) :
    o.Reaches (o.inWorld (o.world.waitAndPoll react m).2) := by
  have hbegin : o.Reaches ⟨o.world, [.wait m] :: o.polls⟩ :=
    ⟨[.waitAndPoll], by simp only [run_cons, run_nil, step, beginPoll, hm]⟩
  refine hbegin.trans ?_
  cases hr : o.world.receive? m with
  | none =>
    refine ⟨[.errand, .errand], ?_⟩
    simp only [run_cons, run_nil, step, doErrand, Errand.perform, World.waitAndPoll, hr, inWorld]
  | some x =>
    obtain ⟨d, w'⟩ := x
    cases d with
    | report report =>
      refine ⟨[.errand, .errand], ?_⟩
      simp only [run_cons, run_nil, step, doErrand, Errand.perform, Errand.ofDelivery, World.waitAndPoll,
        World.runDelivery, hr, inWorld]
    | completions batch =>
      have htaken : Reaches ⟨o.world, [.wait m] :: o.polls⟩ ⟨w', (batch.map .tell ++ [.poll m]) :: o.polls⟩ := by
        refine ⟨[.errand], ?_⟩
        simp only [run_cons, run_nil, step, doErrand, Errand.perform, Errand.ofDelivery, hr]
      have hrest := (htaken.trans (reaches_tells hreact [.poll m] o.polls batch w')).trans
        (reaches_poll hreact m o.polls (w'.notify react batch))
      simp only [World.waitAndPoll, World.runDelivery, hr]
      exact hrest

/-- **A listener may poll**, and the listeners told by that poll may do all that such listeners do. -/
theorem Follows.polling : Follows fun _ _ w =>
    match w.ownerMailbox with
    | some m => (w.poll react m).2
    | none => w := fun _ _ o => by
  dsimp only
  split
  · exact follows_poll hreact _ (by assumption)
  · exact ⟨[], rfl⟩

end Polls

/-! ## First in, first out -/

theorem owner_run (hn : o.world.Numbered) {r : RootId} (hr : r ∈ o.world.roots) (xs : List (Step κ)) :
    r ∈ (o.run xs).world.roots ∧ ((o.run xs).world.root r).owner = (o.world.root r).owner := by
  have h := run_keeps (P := fun u => u.world.Numbered ∧ r ∈ u.world.roots ∧
      (u.world.root r).owner = (o.world.root r).owner)
    (fun u x h => ⟨(leads_step h.1 x).numbered, (leads_step h.1 x).roots r h.2.1,
      (owner_step h.1 x h.2.1).trans h.2.2⟩) xs o ⟨hn, hr, rfl⟩
  exact h.2

/-- What is sent to a mailbox that has been closed changes no mailbox. -/
theorem send_closed {w : World κ} (hclosed : w.accepts m = false) (d : Delivery) (q : MailboxId) :
    (w.send m d).mailbox q = w.mailbox q := by
  rw [World.mailbox_send]
  split
  · subst q
    rw [World.accepts] at hclosed
    cases hw : w.mailbox m with
    | accepting queue => rw [hw] at hclosed; cases hclosed
    | closed => rfl
  · rfl

/-- **The owner's mailbox is first in, first out**, for whatever is sent and polled, by whom and inside what.  At any
time the owner's mailbox is the one that is open.  As long as a mailbox is open, what the owner has begun to run and
what waits are what was accepted, in order.  Once it has been closed it stays so: nothing is accepted or run any more,
and what is sent to it, or to the owner of one of its roots, reaches no mailbox.  The library's polls are such runs. -/
theorem fifo_run (client : κ) (xs : List (Step κ)) :
    let start : Owner κ := { world := { client } }
    let o := start.run xs
    (∀ m, o.world.ownerMailbox = some m ↔ m ∈ o.world.mailboxes ∧ o.world.accepts m = true) ∧
    (∀ m, o.world.accepts m = true →
      started m start xs ++ (o.world.mailbox m).queue = accepted m start xs) ∧
    (∀ m, m ∈ o.world.mailboxes → o.world.accepts m = false → ∀ ys,
      let later := o.run ys
      later.world.accepts m = false ∧ later.world.ownerMailbox ≠ some m ∧ started m o ys = [] ∧ accepted m o ys = [] ∧
      (∀ d q, (later.world.send m d).mailbox q = later.world.mailbox q) ∧
      ∀ r, r ∈ o.world.roots → (o.world.root r).owner = m → later.world.ownerAccepts r = false ∧
        ∀ d q, (later.world.sendToOwner r d).mailbox q = later.world.mailbox q) ∧
    ∀ react, Follows react → ∀ m, o.world.ownerMailbox = some m →
      o.Reaches (o.inWorld (o.world.poll react m).2) ∧ o.Reaches (o.inWorld (o.world.waitAndPoll react m).2) := by
  intro start o
  have hstart : start.world.Numbered := (Threads.numbered_blank ⟨0⟩ .inline ⟨0⟩ client).world
  have hnone : start.world.Current := fun m =>
    iff_of_false (fun h => nomatch h) fun h => Table.not_mem_empty m h.1
  have ho : o.world.Numbered := numbered_run hstart xs
  have hcurrent : ∀ (u : Owner κ) ys, u.world.Numbered → u.world.Current → (u.run ys).world.Current :=
    fun u ys hn hc => (run_keeps (P := fun u => u.world.Numbered ∧ u.world.Current)
      (fun u x h => ⟨(leads_step h.1 x).numbered, current_step h.1 h.2 x⟩) ys u ⟨hn, hc⟩).2
  have hopen : o.world.Current := hcurrent start xs hstart hnone
  refine ⟨hopen, fun m ha => queue_run hstart xs ha, fun m _ hclosed ys => ?_, fun react hreact m hm =>
    ⟨follows_poll hreact m hm, follows_waitAndPoll hreact m hm⟩⟩
  intro later
  obtain ⟨hstays, hout, hin⟩ := closed_run ho hclosed ys
  refine ⟨hstays, fun hm => ?_, hout, hin, fun d q => send_closed hstays d q, fun r hr hroot => ?_⟩
  · have := ((hcurrent o ys ho hopen m).1 hm).2
    rw [hstays] at this
    cases this
  · have howner : (later.world.root r).owner = m := (owner_run ho hr ys).2.trans hroot
    have hgone : later.world.ownerAccepts r = false := by
      rw [World.ownerAccepts, howner]
      exact hstays
    exact ⟨hgone, fun d q => send_closed hgone d q⟩

/-- Two deliveries wait when a poll begins.  The listener that the first tells sends a third, and polls; that poll is
cut short by the second, a report, and so the third waits. -/
def nested : List (Step Unit) :=
  [.call .openMailbox, .call (.addRoot ⟨0⟩), .sendToOwner ⟨0⟩ (.completions [⟨⟨0⟩, ⟨1⟩⟩]),
    .call (.reportError ⟨0⟩ "no parent"), .poll, .errand, .errand, .errand, .send ⟨0⟩ (.completions []), .poll, .errand,
    .errand, .errand]

/-- In that run one delivery waits in the end.  Then the mailbox is closed and another one opened, which gets nothing of
what is sent to the owner of the old root. -/
theorem fifo_opening :
    let start : Owner Unit := { world := { client := () } }
    let o := start.run nested
    let closing : List (Step Unit) := [.call .closeMailbox]
    let reopening : List (Step Unit) := [.call .openMailbox, .sendToOwner ⟨0⟩ (.completions [])]
    let closed := start.run (nested ++ closing)
    let later := closed.run reopening
    let again : Reaction Unit := fun _ _ w =>
      match w.ownerMailbox with
      | some m => (w.poll (fun _ _ w => w) m).2
      | none => w
    (o.world.accepts ⟨0⟩ = true ∧
      started ⟨0⟩ start nested = [.completions [⟨⟨0⟩, ⟨1⟩⟩], .report (.single "no parent")] ∧
      started ⟨0⟩ start nested ++ [.completions []] = accepted ⟨0⟩ start nested ∧
      o.world.ownerMailbox = some ⟨0⟩ ∧ o.Reaches (o.inWorld (o.world.poll again ⟨0⟩).2)) ∧
    ⟨0⟩ ∈ closed.world.mailboxes ∧ closed.world.accepts ⟨0⟩ = false ∧ ⟨0⟩ ∈ closed.world.roots ∧
    later.world.ownerMailbox = some ⟨1⟩ ∧ later.world.ownerAccepts ⟨0⟩ = false ∧ later.world.accepts ⟨1⟩ = true ∧
    accepted ⟨0⟩ closed reopening = [] := by
  intro start o closing reopening closed later again
  have hopen : o.world.accepts ⟨0⟩ = true := by decide +kernel
  have hqueue : (o.world.mailbox ⟨0⟩).queue = [.completions []] := by decide +kernel
  have howner : o.world.ownerMailbox = some ⟨0⟩ := by decide +kernel
  have hmade : (⟨0⟩ : MailboxId) ∈ closed.world.mailboxes := by decide +kernel
  have hclosed : closed.world.accepts ⟨0⟩ = false := by decide +kernel
  have hroot : (⟨0⟩ : RootId) ∈ closed.world.roots := by decide +kernel
  have hroots : (closed.world.root ⟨0⟩).owner = ⟨0⟩ := by decide +kernel
  have hnext : later.world.ownerMailbox = some ⟨1⟩ := by decide +kernel
  obtain ⟨-, hfifo, -, hpolls⟩ := fifo_run () nested
  obtain ⟨-, -, hafter, -⟩ := fifo_run () (nested ++ closing)
  simp only [later, closed, o, start, closing] at hopen hqueue howner hmade hclosed hroot hroots hnext ⊢
  have htrail := hfifo ⟨0⟩ hopen
  rw [hqueue] at htrail
  obtain ⟨-, -, -, hin, -, hgone⟩ := hafter ⟨0⟩ hmade hclosed reopening
  have hpoll := (hpolls again (Follows.polling (follows_calls fun _ _ _ => [])) ⟨0⟩ howner).1
  exact ⟨⟨hopen, by decide +kernel, htrail, howner, hpoll⟩, hmade, hclosed, hroot, hnext, (hgone ⟨0⟩ hroot hroots).1,
    by decide +kernel, hin⟩

end Owner

end SceneAnimation
