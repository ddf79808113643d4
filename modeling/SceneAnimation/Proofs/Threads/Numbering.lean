import SceneAnimation.Proofs.Running
import SceneAnimation.Proofs.Threads.Calls
/-!
# Numbering: a new object never takes the place of an old one

An object's number is how many of its kind were made before it.  So a new one is really new as long as only numbers that
have been given out are in use (`World.Numbered`), and every call keeps to this (`World.Numbered.effect`).
-/
namespace SceneAnimation

/-! ## Tables whose keys are numbers given out in order -/

/-- Every key is numbered, by `f`, below the size. -/
def Table.Below {κ α : Type} [DecidableEq κ] (f : κ → Nat) (t : Table κ α) : Prop := ∀ k ∈ t, f k < t.size

namespace Table

variable {κ α : Type} [DecidableEq κ] {f : κ → Nat} {t : Table κ α}

theorem below_empty : Below f (∅ : Table κ α) := fun k h => absurd h (not_mem_empty k)

theorem Below.not_mem (h : t.Below f) {k : κ} (hk : f k = t.size) : ¬ k ∈ t := fun hm => by
  have := h k hm; omega

/-- **A write to a known key, or to the next one, keeps the numbering.** -/
theorem Below.set (h : t.Below f) {k : κ} (hk : k ∈ t ∨ f k = t.size) (v : α) : (t.set k v).Below f := by
  intro q hq
  rw [size_set]
  rcases (mem_set ..).1 hq with rfl | hq
  · rcases hk with hk | hk
    · rw [if_pos hk]; exact h q hk
    · rw [if_neg (h.not_mem hk)]; omega
  · have := h q hq
    split <;> omega

end Table

/-! ## Scenes and worlds -/

structure Scene.Numbered (s : Scene) : Prop where
  nodes : s.nodes.Below (·.index - 1)
  animators : s.animators.Below (·.index - 1)
  attached : ∀ n, ∀ a ∈ (s.node n).animators, a ∈ s.animators

structure World.Numbered {κ : Type} (w : World κ) : Prop where
  scene : w.scene.Numbered
  clocks : w.clocks.Below (·.index)
  mailboxes : w.mailboxes.Below (·.index)
  roots : w.roots.Below (·.index)
  pending : ∀ r, ∀ n ∈ (w.root r).pending, n ∈ w.scene.nodes
  owner : ∀ r ∈ w.roots, (w.root r).owner ∈ w.mailboxes
  ownerMailbox : ∀ m ∈ w.ownerMailbox, m ∈ w.mailboxes

/-- **A step from one world to another**: all that was made is still there, and the numbering is right. -/
structure World.Leads {κ : Type} (w w' : World κ) : Prop where
  numbered : w'.Numbered
  nodes : ∀ n ∈ w.scene.nodes, n ∈ w'.scene.nodes
  animators : ∀ a ∈ w.scene.animators, a ∈ w'.scene.animators
  clocks : ∀ c ∈ w.clocks, c ∈ w'.clocks
  mailboxes : ∀ m ∈ w.mailboxes, m ∈ w'.mailboxes
  roots : ∀ r ∈ w.roots, r ∈ w'.roots

namespace Scene

theorem mem_nodes_of_animators {s : Scene} {n : NodeId} (h : (s.node n).animators ≠ []) : n ∈ s.nodes :=
  Classical.byContradiction fun hn => h (by rw [node, Table.get_of_not_mem hn]; rfl)

theorem Numbered.setNode {s : Scene} (h : s.Numbered) {n : NodeId} {x : Node}
    (hn : n ∈ s.nodes ∨ n.index - 1 = s.nodes.size) (hx : ∀ a ∈ x.animators, a ∈ s.animators) :
    (s.setNode n x).Numbered where
  nodes := h.nodes.set hn x
  animators := h.animators
  attached m a ha := by
    rw [node_setNode] at ha
    split at ha
    · exact hx a ha
    · exact h.attached m a ha

theorem Numbered.updateNode {s : Scene} (h : s.Numbered) {n : NodeId} {f : Node → Node} (hn : n ∈ s.nodes)
    (hf : ∀ a ∈ (f (s.node n)).animators, a ∈ s.animators) : (s.updateNode n f).Numbered :=
  h.setNode (.inl hn) hf

theorem Numbered.addNode {s : Scene} (h : s.Numbered) (name : String) : (s.addNode name).2.Numbered :=
  h.setNode (.inr rfl) fun _ ha => absurd ha List.not_mem_nil

theorem Numbered.addAnimator {s : Scene} (h : s.Numbered) (a : Animator) : (s.addAnimator a).2.Numbered where
  nodes := h.nodes
  animators := h.animators.set (.inr rfl) a
  attached n i hi := (Table.mem_set ..).2 (.inr (h.attached n i hi))

theorem mem_animators_store {run : Animator → Properties → Advance} {s : Scene} (h : s.Numbered) (n : NodeId)
    (kept : List AnimatorId) (a : AnimatorId) :
    let p := Progress.ofList run (s.node n).animators s.animators (s.node n).properties
    a ∈ (s.store n { p with kept }).animators ↔ a ∈ s.animators :=
  Progress.mem_animators _ _ _ (h.attached n) a

theorem Numbered.store {run : Animator → Properties → Advance} {s : Scene} (h : s.Numbered) {n : NodeId}
    (hn : n ∈ s.nodes) {kept : List AnimatorId} (hk : kept.Sublist (s.node n).animators) :
    let p := Progress.ofList run (s.node n).animators s.animators (s.node n).properties
    (s.store n { p with kept }).Numbered := by
  intro p
  have hmem : ∀ a, a ∈ p.animators ↔ a ∈ s.animators := Progress.mem_animators _ _ _ (h.attached n)
  have hs : Numbered { s with animators := p.animators } := by
    refine ⟨h.nodes, fun a ha => ?_, fun m a ha => (hmem a).2 (h.attached m a ha)⟩
    have hsize : p.animators.size = s.animators.size := Progress.size_animators _ _ _ (h.attached n)
    have := h.animators a ((hmem a).1 ha)
    rwa [← hsize] at this
  exact hs.updateNode hn fun a ha => (hmem a).2 (h.attached n a (hk.subset ha))

end Scene

namespace World

variable {κ : Type} {w : World κ}

theorem Numbered.refl (h : w.Numbered) : w.Leads w :=
  ⟨h, fun _ => id, fun _ => id, fun _ => id, fun _ => id, fun _ => id⟩

theorem Leads.trans {w' w'' : World κ} (h : w.Leads w') (h' : w'.Leads w'') : w.Leads w'' :=
  ⟨h'.numbered, fun n hn => h'.nodes n (h.nodes n hn), fun a ha => h'.animators a (h.animators a ha),
    fun c hc => h'.clocks c (h.clocks c hc), fun m hm => h'.mailboxes m (h.mailboxes m hm),
    fun r hr => h'.roots r (h.roots r hr)⟩

theorem Numbered.inScene (h : w.Numbered) {scene : Scene} (hs : scene.Numbered)
    (hn : ∀ n ∈ w.scene.nodes, n ∈ scene.nodes) (ha : ∀ a ∈ w.scene.animators, a ∈ scene.animators) :
    w.Leads { w with scene } where
  numbered := { h with scene := hs, pending := fun r n hp => hn n (h.pending r n hp) }
  nodes := hn
  animators := ha
  clocks _ := id
  mailboxes _ := id
  roots _ := id

theorem Numbered.updateNode (h : w.Numbered) {n : NodeId} {f : Node → Node} (hn : n ∈ w.scene.nodes)
    (hf : ∀ a ∈ (f (w.scene.node n)).animators, a ∈ w.scene.animators) :
    w.Leads { w with scene := w.scene.updateNode n f } :=
  h.inScene (h.scene.updateNode hn hf) (fun _ hm => (Table.mem_set ..).2 (.inr hm)) fun _ => id

/-- A change of a node that leaves its animators alone. -/
theorem Numbered.updateNode' (h : w.Numbered) {n : NodeId} {f : Node → Node} (hn : n ∈ w.scene.nodes)
    (hf : (f (w.scene.node n)).animators = (w.scene.node n).animators) :
    w.Leads { w with scene := w.scene.updateNode n f } :=
  h.updateNode hn fun a ha => h.scene.attached n a (hf ▸ ha)

theorem Numbered.store (h : w.Numbered) {run : Animator → Properties → Advance} {n : NodeId}
    (hn : n ∈ w.scene.nodes) {kept : List AnimatorId} (hk : kept.Sublist (w.scene.node n).animators) :
    let p := Progress.ofList run (w.scene.node n).animators w.scene.animators (w.scene.node n).properties
    w.Leads { w with scene := w.scene.store n { p with kept } } :=
  h.inScene (h.scene.store hn hk) (fun _ hm => (Table.mem_set ..).2 (.inr hm)) fun a ha =>
    (Scene.mem_animators_store h.scene n kept a).2 ha

theorem Numbered.setClock (h : w.Numbered) {c : ClockId} (hc : c ∈ w.clocks ∨ c.index = w.clocks.size) (x : Clock) :
    w.Leads (w.setClock c x) where
  numbered := { h with clocks := h.clocks.set hc x }
  nodes _ := id
  animators _ := id
  clocks _ hm := (Table.mem_set ..).2 (.inr hm)
  mailboxes _ := id
  roots _ := id

theorem Numbered.setMailbox (h : w.Numbered) {m : MailboxId} (hm : m ∈ w.mailboxes ∨ m.index = w.mailboxes.size)
    (x : Mailbox) : w.Leads (w.setMailbox m x) where
  numbered := { h with
    mailboxes := h.mailboxes.set hm x
    owner := fun r hr => (Table.mem_set ..).2 (.inr (h.owner r hr))
    ownerMailbox := fun q hq => (Table.mem_set ..).2 (.inr (h.ownerMailbox q hq)) }
  nodes _ := id
  animators _ := id
  clocks _ := id
  mailboxes _ hq := (Table.mem_set ..).2 (.inr hq)
  roots _ := id

theorem Numbered.setRoot (h : w.Numbered) {r : RootId} {x : Root} (hr : r ∈ w.roots ∨ r.index = w.roots.size)
    (hp : ∀ n ∈ x.pending, n ∈ w.scene.nodes) (ho : x.owner ∈ w.mailboxes) : w.Leads (w.setRoot r x) where
  numbered := { h with
    roots := h.roots.set hr x
    pending := fun q n hn => by
      rw [root_setRoot] at hn
      split at hn
      · exact hp n hn
      · exact h.pending q n hn
    owner := fun q hq => by
      rw [root_setRoot]
      split
      · exact ho
      · exact h.owner q (((Table.mem_set ..).1 hq).resolve_left (by assumption)) }
  nodes _ := id
  animators _ := id
  clocks _ := id
  mailboxes _ := id
  roots _ hq := (Table.mem_set ..).2 (.inr hq)

/-- A change of a root that leaves its registrations and its owner alone. -/
theorem Numbered.setRoot' (h : w.Numbered) {r : RootId} {x : Root} (hr : r ∈ w.roots)
    (hp : x.pending = (w.root r).pending) (ho : x.owner = (w.root r).owner) : w.Leads (w.setRoot r x) :=
  h.setRoot (.inl hr) (fun n hn => h.pending r n (hp ▸ hn)) (ho ▸ h.owner r hr)

theorem Numbered.sendToOwner (h : w.Numbered) {r : RootId} (hr : r ∈ w.roots) (d : Delivery) :
    w.Leads (w.sendToOwner r d) :=
  h.setMailbox (.inl (h.owner r hr)) _

theorem Numbered.takePending (h : w.Numbered) {r : RootId} (hr : r ∈ w.roots) : w.Leads (w.takePending r).2 :=
  h.setRoot (.inl hr) (fun _ hn => absurd hn List.not_mem_nil) (h.owner r hr)

theorem Numbered.beginPass (h : w.Numbered) {r : RootId} (hr : r ∈ w.roots) : w.Leads (w.beginPass r) :=
  h.setRoot' hr rfl rfl

theorem Numbered.endPass (h : w.Numbered) {r : RootId} (hr : r ∈ w.roots) : w.Leads (w.endPass r) := by
  have hset : w.Leads (w.setRoot r { w.root r with openPass := none }) := h.setRoot' hr rfl rfl
  unfold World.endPass
  dsimp only
  split
  · exact hset.trans (hset.numbered.sendToOwner (hset.roots r hr) _)
  · exact hset

theorem Numbered.reportError (h : w.Numbered) {r : RootId} (hr : r ∈ w.roots) (message : String) :
    w.Leads (w.reportError r message) := by
  unfold World.reportError
  dsimp only
  split
  · exact h.setRoot' hr rfl rfl
  · exact h.sendToOwner hr _

/-- **What is taken out is the first of a queue**, and the rest stays. -/
theorem receive?_eq_some {m : MailboxId} {d : Delivery} {w' : World κ} : w.receive? m = some (d, w') ↔
    ∃ rest, (w.mailbox m).queue = d :: rest ∧ w' = w.setMailbox m (.accepting rest) := by
  unfold receive?
  cases (w.mailbox m).queue with
  | nil => simp
  | cons first rest => simp [and_assoc, eq_comm]

theorem Numbered.receive? (h : w.Numbered) {m : MailboxId} {d : Delivery} {w' : World κ}
    (hd : w.receive? m = some (d, w')) : w.Leads w' := by
  obtain ⟨rest, hq, rfl⟩ := receive?_eq_some.1 hd
  refine h.setMailbox (.inl (Classical.byContradiction fun hm => ?_)) _
  rw [World.mailbox, Table.get_of_not_mem hm] at hq
  cases hq

theorem Numbered.effect (h : w.Numbered) (c : Call κ) (hc : c.named w = true) : w.Leads (c.effect w) := by
  cases c with
  | addNode name => exact h.inScene (h.scene.addNode name) (fun _ hm => (Table.mem_set ..).2 (.inr hm)) fun _ => id
  | addAnimator a =>
    exact h.inScene (h.scene.addAnimator _) (fun _ => id) fun _ hm => (Table.mem_set ..).2 (.inr hm)
  | addChild parent child =>
    simp only [Call.named, Bool.and_eq_true, decide_eq_true_eq] at hc
    exact h.updateNode' hc.1 rfl
  | removeChild parent child =>
    simp only [Call.named, Bool.and_eq_true, decide_eq_true_eq] at hc
    exact h.updateNode' hc.1 rfl
  | setProperty n q x => exact h.updateNode' (by simpa [Call.named] using hc) rfl
  | destroyNode n => exact h.updateNode' (by simpa [Call.named] using hc) rfl
  | attach n a =>
    simp only [Call.named, Bool.and_eq_true, decide_eq_true_eq] at hc
    refine h.updateNode hc.1 fun i hi => ?_
    rcases List.mem_append.1 hi with hi | hi
    · exact h.scene.attached n i hi
    · rw [List.mem_singleton.1 hi]; exact hc.2
  | register r n =>
    simp only [Call.named, Bool.and_eq_true, decide_eq_true_eq] at hc
    refine h.setRoot (.inl hc.1) (fun m hm => ?_) (h.owner r hc.1)
    rcases List.mem_append.1 hm with hm | hm
    · exact h.pending r m hm
    · rw [List.mem_singleton.1 hm]; exact hc.2
  | addClock interval => exact h.setClock (.inr rfl) _
  | vsync c t => exact h.setClock (.inl (by simpa [Call.named] using hc)) _
  | catchUp c now => exact h.setClock (.inl (by simpa [Call.named] using hc)) _
  | setInterval c interval => exact h.setClock (.inl (by simpa [Call.named] using hc)) _
  | openMailbox =>
    cases hw : w.ownerMailbox with
    | some m =>
      have he : Call.effect w .openMailbox = w := by rw [Call.effect, World.openMailbox, hw]; rfl
      rw [he]
      exact h.refl
    | none =>
      have he : Call.effect w .openMailbox =
          { w.setMailbox ⟨w.mailboxes.size⟩ .empty with ownerMailbox := some ⟨w.mailboxes.size⟩ } := by
        rw [Call.effect, World.openMailbox, hw]; rfl
      have hset := h.setMailbox (m := ⟨w.mailboxes.size⟩) (.inr rfl) .empty
      rw [he]
      refine { hset with numbered := { hset.numbered with ownerMailbox := fun m hm => ?_ } }
      cases hm
      exact (Table.mem_set ..).2 (.inl rfl)
  | closeMailbox =>
    cases hw : w.ownerMailbox with
    | none =>
      have he : Call.effect w .closeMailbox = w := by rw [Call.effect, World.closeMailbox, hw]
      rw [he]
      exact h.refl
    | some m =>
      have he : Call.effect w .closeMailbox = { w.setMailbox m .closed with ownerMailbox := none } := by
        rw [Call.effect, World.closeMailbox, hw]
      have hset := h.setMailbox (.inl (h.ownerMailbox m hw)) .closed
      rw [he]
      exact { hset with numbered := { hset.numbered with ownerMailbox := fun _ h' => nomatch h' } }
  | addRoot m =>
    have hs : w.Leads { w with scene := (w.scene.addNode "RootRenderNode").2 } :=
      h.inScene (h.scene.addNode _) (fun _ hm => (Table.mem_set ..).2 (.inr hm)) fun _ => id
    have howner : m ∈ w.mailboxes := by simpa [Call.named] using hc
    exact hs.trans (hs.numbered.setRoot (.inr rfl) (fun _ hn => absurd hn List.not_mem_nil) howner)
  | reportError r message => exact h.reportError (by simpa [Call.named] using hc) message
  | sendReport m report => exact h.setMailbox (.inl (by simpa [Call.named] using hc)) _
  | remember client => exact { h.refl with numbered := { h with } }

end World

end SceneAnimation
