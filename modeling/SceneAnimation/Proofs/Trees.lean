import SceneAnimation.Scene
import SceneAnimation.Properties
import Mathlib.Data.List.Pairwise
import Mathlib.Data.List.Nodup
import Mathlib.Data.List.Perm.Subperm
/-!
# Trees: graphs in which one path leads to a node

The children of nodes form a graph of any shape.  Where no path leads into a cycle (`Scene.Acyclic`), no path is longer
than there are nodes (`Scene.Acyclic.length_le`).  Below a node that no two paths share, and no cycle, the graph is a
tree (`Scene.Unshared`), and a walk down to any depth comes to each node once (`Scene.Unshared.nodup_preorder`).
-/
namespace SceneAnimation

namespace Scene

/-- The node to which a path leads: at each of its positions, on to the child at that position. -/
def follow (s : Scene) : NodeId → List Nat → Option NodeId
  | n, [] => some n
  | n, i :: path => (s.node n).children[i]?.bind fun c => s.follow c path

/-- **No node below `n` is reached by two paths**, nor by a cycle, which would make more of one path. -/
def Unshared (s : Scene) (n : NodeId) : Prop :=
  ∀ path path' m, s.follow n path = some m → s.follow n path' = some m → path = path'

/-- **No path from `n` leads into a cycle.** -/
def Acyclic (s : Scene) (n : NodeId) : Prop :=
  ∀ path cycle m, s.follow n path = some m → s.follow m cycle = some m → cycle = []

/-- Node `n` and what is below it, to some depth, each node before its children. -/
def preorder (s : Scene) : (depth : Nat) → NodeId → List NodeId
  | 0, _ => []
  | depth + 1, n => n :: (s.node n).children.flatMap (s.preorder depth)

/-- Whether every path from `n` is shorter than `depth`. -/
def Deep (s : Scene) (depth : Nat) (n : NodeId) : Prop := ∀ path m, s.follow n path = some m → path.length < depth

section Paths

variable {s : Scene} {n c : NodeId} {i : Nat}

theorem follow_child (hc : (s.node n).children[i]? = some c) (path : List Nat) :
    s.follow n (i :: path) = s.follow c path := by
  rw [follow, hc]
  rfl

theorem exists_child {path : List Nat} {m : NodeId} (h : s.follow n (i :: path) = some m) :
    ∃ c, (s.node n).children[i]? = some c ∧ s.follow c path = some m :=
  Option.bind_eq_some_iff.1 h

theorem follow_append : ∀ (path path' : List Nat) {n m : NodeId}, s.follow n path = some m →
    s.follow n (path ++ path') = s.follow m path'
  | [], _, _, _, h => by cases h; rfl
  | i :: path, path', n, m, h => by
    obtain ⟨c, hc, hp⟩ := exists_child h
    exact (follow_child hc (path ++ path')).trans (follow_append path path' hp)

theorem Acyclic.child (h : s.Acyclic n) (hc : (s.node n).children[i]? = some c) : s.Acyclic c :=
  fun path cycle m hp hm => h (i :: path) cycle m ((follow_child hc path).trans hp) hm

theorem Acyclic.not_below (h : s.Acyclic n) (hc : (s.node n).children[i]? = some c) (path : List Nat) :
    s.follow c path ≠ some n :=
  fun hp => nomatch h [] (i :: path) n rfl ((follow_child hc path).trans hp)

theorem Unshared.acyclic (h : s.Unshared n) : s.Acyclic n := fun path cycle m hp hm =>
  List.append_right_eq_self.1 (h (path ++ cycle) path m ((follow_append path cycle hp).trans hm) hp)

theorem Unshared.child (h : s.Unshared n) (hc : (s.node n).children[i]? = some c) : s.Unshared c :=
  fun path path' m hp hq => (List.cons.inj (h (i :: path) (i :: path') m ((follow_child hc path).trans hp)
    ((follow_child hc path').trans hq))).2

theorem Unshared.apart (h : s.Unshared n) {j : Nat} {d m : NodeId} {path path' : List Nat}
    (hc : (s.node n).children[i]? = some c) (hd : (s.node n).children[j]? = some d)
    (hp : s.follow c path = some m) (hq : s.follow d path' = some m) : i = j :=
  (List.cons.inj (h (i :: path) (j :: path') m ((follow_child hc path).trans hp)
    ((follow_child hd path').trans hq))).1

/-! ## How long a path can be -/

theorem Deep.pos {depth : Nat} (h : s.Deep depth n) : 0 < depth := h [] n rfl

theorem Deep.child {depth : Nat} (h : s.Deep (depth + 1) n) (hc : (s.node n).children[i]? = some c) : s.Deep depth c :=
  fun path m hp => Nat.lt_of_succ_lt_succ (h (i :: path) m ((follow_child hc path).trans hp))

/-- **A path passes as many nodes as it is long, before it ends**, each of them once, and all of them made. -/
theorem exists_trunk : ∀ (path : List Nat) {n m : NodeId}, s.Acyclic n → s.follow n path = some m →
    ∃ trunk : List NodeId, trunk.length = path.length ∧ trunk.Nodup ∧
      (∀ a ∈ trunk, a ∈ s.nodes) ∧ ∀ a ∈ trunk, ∃ path', s.follow n path' = some a
  | [], _, _, _, _ => ⟨[], rfl, List.nodup_nil, by simp, by simp⟩
  | i :: path, n, m, h, hp => by
    obtain ⟨c, hc, hp⟩ := exists_child hp
    obtain ⟨trunk, hlen, hnodup, hmade, hpath⟩ := exists_trunk path (h.child hc) hp
    have hn : n ∈ s.nodes := Classical.byContradiction fun hn => by
      rw [node, Table.get_of_not_mem hn] at hc
      cases hc
    refine ⟨n :: trunk, by rw [List.length_cons, hlen, List.length_cons], ?_, ?_, ?_⟩
    · refine List.nodup_cons.2 ⟨fun hmem => ?_, hnodup⟩
      obtain ⟨path', hp'⟩ := hpath n hmem
      exact h.not_below hc path' hp'
    · exact List.forall_mem_cons.2 ⟨hn, hmade⟩
    · refine List.forall_mem_cons.2 ⟨⟨[], rfl⟩, fun a ha => ?_⟩
      obtain ⟨path', hp'⟩ := hpath a ha
      exact ⟨i :: path', (follow_child hc path').trans hp'⟩

theorem Acyclic.length_le (h : s.Acyclic n) {path : List Nat} {m : NodeId} (hp : s.follow n path = some m) :
    path.length ≤ s.nodes.size := by
  obtain ⟨trunk, hlen, hnodup, hmade, -⟩ := exists_trunk path h hp
  have hsub : trunk ⊆ s.nodes.entries.map (·.1) := fun a ha => (Table.mem_iff_listed ..).1 (hmade a ha)
  have hle := (List.subperm_of_subset hnodup hsub).length_le
  rw [hlen, List.length_map] at hle
  exact hle

theorem Acyclic.deep (h : s.Acyclic n) {depth : Nat} (hd : s.nodes.size < depth) : s.Deep depth n :=
  fun _ _ hp => Nat.lt_of_le_of_lt (h.length_le hp) hd

theorem Unshared.deep (h : s.Unshared n) {depth : Nat} (hd : s.nodes.size < depth) : s.Deep depth n := h.acyclic.deep hd

/-- Round a cycle there would be paths of any length. -/
theorem Deep.acyclic {depth : Nat} (h : s.Deep depth n) : s.Acyclic n := by
  intro path cycle m hp hm
  refine Classical.byContradiction fun hne => ?_
  have hround : ∀ k : Nat, s.follow m (List.replicate k cycle).flatten = some m := by
    intro k
    induction k with
    | zero => rfl
    | succ k ih => rw [List.replicate_succ, List.flatten_cons, follow_append cycle _ hm, ih]
  have hlong := h _ m ((follow_append path _ hp).trans (hround depth))
  have hpos : 1 ≤ cycle.length := List.length_pos_of_ne_nil hne
  rw [List.length_append, List.length_flatten, List.map_replicate, List.sum_replicate_nat] at hlong
  have := Nat.le_mul_of_pos_right depth hpos
  omega

/-! ## What a walk can come to -/

theorem follow_of_mem_preorder : ∀ (depth : Nat) {n m : NodeId}, m ∈ s.preorder depth n →
    ∃ path, s.follow n path = some m
  | 0, _, _, hm => nomatch hm
  | depth + 1, n, m, hm => by
    rcases List.mem_cons.1 hm with rfl | hm
    · exact ⟨[], rfl⟩
    · obtain ⟨c, hc, hm⟩ := List.mem_flatMap.1 hm
      obtain ⟨i, hi⟩ := List.getElem?_of_mem hc
      obtain ⟨path, hp⟩ := follow_of_mem_preorder depth hm
      exact ⟨i :: path, (follow_child hi path).trans hp⟩

theorem Unshared.nodup_preorder : ∀ (depth : Nat) {n : NodeId}, s.Unshared n → (s.preorder depth n).Nodup
  | 0, _, _ => List.nodup_nil
  | depth + 1, n, h => by
    refine List.nodup_cons.2 ⟨fun hm => ?_, List.nodup_flatMap.2 ⟨fun c hc => ?_, ?_⟩⟩
    · obtain ⟨c, hc, hm⟩ := List.mem_flatMap.1 hm
      obtain ⟨i, hi⟩ := List.getElem?_of_mem hc
      obtain ⟨path, hp⟩ := follow_of_mem_preorder depth hm
      exact h.acyclic.not_below hi path hp
    · obtain ⟨i, hi⟩ := List.getElem?_of_mem hc
      exact Unshared.nodup_preorder depth (h.child hi)
    · refine List.pairwise_iff_getElem.2 fun i j hi hj hlt m hmi hmj => ?_
      obtain ⟨path, hp⟩ := follow_of_mem_preorder depth hmi
      obtain ⟨path', hq⟩ := follow_of_mem_preorder depth hmj
      have heq := h.apart (List.getElem?_eq_getElem hi) (List.getElem?_eq_getElem hj) hp hq
      omega

theorem mem_preorder_of_follow : ∀ {depth : Nat} {n m : NodeId} {path : List Nat}, path.length < depth →
    s.follow n path = some m → m ∈ s.preorder depth n
  | 0, _, _, _, hlt, _ => absurd hlt (Nat.not_lt_zero _)
  | _ + 1, _, _, [], _, hp => by
    cases hp
    exact List.mem_cons_self
  | depth + 1, n, m, i :: path, hlt, hp => by
    obtain ⟨c, hc, hp⟩ := exists_child hp
    exact List.mem_cons_of_mem n (List.mem_flatMap.2
      ⟨c, List.mem_of_getElem? hc, mem_preorder_of_follow (Nat.lt_of_succ_lt_succ hlt) hp⟩)

/-! ## The same graph -/

section Same

variable {s' : Scene}

theorem follow_congr (h : ∀ n, (s'.node n).children = (s.node n).children) : ∀ (path : List Nat) (n : NodeId),
    s'.follow n path = s.follow n path
  | [], _ => rfl
  | i :: path, n => by
    rw [follow, follow, h]
    exact congrArg _ (funext fun c => follow_congr h path c)

theorem preorder_congr (h : ∀ n, (s'.node n).children = (s.node n).children) : ∀ (depth : Nat) (n : NodeId),
    s'.preorder depth n = s.preorder depth n
  | 0, _ => rfl
  | depth + 1, n => by
    rw [preorder, preorder, h]
    exact congrArg _ (List.flatMap_congr fun c _ => preorder_congr h depth c)

theorem Unshared.congr (h : s.Unshared n) (hsame : ∀ n, (s'.node n).children = (s.node n).children) :
    s'.Unshared n := fun path path' m hp hq =>
  h path path' m ((follow_congr hsame path n).symm.trans hp) ((follow_congr hsame path' n).symm.trans hq)

theorem Deep.congr {depth : Nat} (h : s.Deep depth n) (hsame : ∀ n, (s'.node n).children = (s.node n).children) :
    s'.Deep depth n := fun path m hp => h path m ((follow_congr hsame path n).symm.trans hp)

end Same

/-! ## Whether a graph is a tree can be computed -/

/-- Whether every path from a node is shorter than `depth`. -/
def isDeep (s : Scene) : (depth : Nat) → NodeId → Bool
  | 0, _ => false
  | depth + 1, n => (s.node n).children.all (s.isDeep depth)

theorem isDeep_iff : ∀ {depth : Nat} {n : NodeId}, s.isDeep depth n = true ↔ s.Deep depth n
  | 0, _ => ⟨fun h => (nomatch h), fun h => absurd h.pos (Nat.lt_irrefl 0)⟩
  | depth + 1, n => by
    rw [isDeep, List.all_eq_true]
    constructor
    · intro h path m hp
      cases path with
      | nil => exact Nat.succ_pos depth
      | cons i path =>
        obtain ⟨c, hc, hp⟩ := exists_child hp
        exact Nat.succ_lt_succ (isDeep_iff.1 (h c (List.mem_of_getElem? hc)) path m hp)
    · intro h c hc
      obtain ⟨i, hi⟩ := List.getElem?_of_mem hc
      exact isDeep_iff.2 (h.child hi)

theorem unshared_of_nodup : ∀ {depth : Nat} {n : NodeId}, s.Deep depth n → (s.preorder depth n).Nodup → s.Unshared n
  | 0, _, hdeep, _ => absurd hdeep.pos (Nat.lt_irrefl 0)
  | depth + 1, n, hdeep, hnodup => by
    obtain ⟨hbelow, hchildren⟩ := List.nodup_cons.1 hnodup
    obtain ⟨hinside, hapart⟩ := List.nodup_flatMap.1 hchildren
    -- a path from `n` that is not empty goes through a child, and ends in its part of the walk
    have hstep : ∀ {i path m}, s.follow n (i :: path) = some m → ∃ c, (s.node n).children[i]? = some c ∧
        s.follow c path = some m ∧ m ∈ s.preorder depth c := fun {i path m} hp => by
      obtain ⟨c, hc, hp⟩ := exists_child hp
      exact ⟨c, hc, hp, mem_preorder_of_follow (hdeep.child hc path m hp) hp⟩
    have hself : ∀ {i path}, s.follow n (i :: path) ≠ some n := fun hp => by
      obtain ⟨c, hc, -, hm⟩ := hstep hp
      exact hbelow (List.mem_flatMap.2 ⟨c, List.mem_of_getElem? hc, hm⟩)
    intro path path' m hp hq
    match path, path' with
    | [], [] => rfl
    | [], j :: path' =>
      cases hp
      exact absurd hq hself
    | i :: path, [] =>
      cases hq
      exact absurd hp hself
    | i :: path, j :: path' =>
      obtain ⟨c, hc, hpc, hm⟩ := hstep hp
      obtain ⟨c', hc', hqc, hm'⟩ := hstep hq
      have hij : i = j := by
        obtain ⟨hi, hic⟩ := List.getElem?_eq_some_iff.1 hc
        obtain ⟨hj, hjc⟩ := List.getElem?_eq_some_iff.1 hc'
        rw [← hic] at hm
        rw [← hjc] at hm'
        rcases Nat.lt_trichotomy i j with hlt | heq | hlt
        · exact absurd hm' (List.pairwise_iff_getElem.1 hapart i j hi hj hlt hm)
        · exact heq
        · exact absurd hm (List.pairwise_iff_getElem.1 hapart j i hj hi hlt hm')
      subst hij
      cases hc.symm.trans hc'
      exact congrArg _ (unshared_of_nodup (hdeep.child hc) (hinside c (List.mem_of_getElem? hc)) path path' m hpc hqc)

theorem unshared_iff : s.Unshared n ↔
    s.isDeep (s.nodes.size + 1) n = true ∧ (s.preorder (s.nodes.size + 1) n).Nodup :=
  ⟨fun h => ⟨isDeep_iff.2 (h.deep (Nat.lt_succ_self _)), h.nodup_preorder _⟩,
    fun h => unshared_of_nodup (isDeep_iff.1 h.1) h.2⟩

theorem acyclic_iff : s.Acyclic n ↔ s.isDeep (s.nodes.size + 1) n = true :=
  ⟨fun h => isDeep_iff.2 (h.deep (Nat.lt_succ_self _)), fun h => (isDeep_iff.1 h).acyclic⟩

instance : Decidable (s.Acyclic n) := decidable_of_iff' _ acyclic_iff

instance : Decidable (s.Unshared n) := decidable_of_iff' _ unshared_iff

end Paths

/-! ## Walks -/

/-- The scene after a visit of node `n`, which runs its animators if it has any. -/
def visit (s : Scene) (n : NodeId) (now : Instant) : Scene := if s.hasAnimators n then (s.animate n now).2 else s

theorem children_visit (s : Scene) (n : NodeId) (now : Instant) (m : NodeId) :
    ((s.visit n now).node m).children = (s.node m).children := by
  unfold visit
  split
  · refine (congrArg Node.children (node_updateNode ..)).trans ?_
    split
    · subst m
      rfl
    · rfl
  · rfl

/-- Where a walk goes on below node `n`: to its children, unless a property of the node is not finite. -/
def onward (s : Scene) (n : NodeId) : List NodeId :=
  match (s.node n).properties.problem? with
  | some _ => []
  | none => (s.node n).children

def errorText (s : Scene) (n : NodeId) (problem : String) : String := (s.node n).name ++ ": " ++ problem

/-- What a walk reports of node `n` after its visit. -/
def complaints (s : Scene) (n : NodeId) : List String := ((s.node n).properties.problem?.map (s.errorText n)).toList

/-- **A walk at `now`** over nodes and what is below them: which nodes it visits, and what errors it reports, in order,
and the scene that it leaves.  A destroyed node is an error, and left out with all that is below it. -/
inductive Walks (now : Instant) : Scene → List NodeId → List NodeId → List String → Scene → Prop where
  | done (s) : Walks now s [] [] [] s
  | destroyed {s n rest visited errors s'} (h : (s.node n).destroyed = true)
    (hrest : Walks now s rest visited errors s') :
    Walks now s (n :: rest) visited (s.errorText n "prepared after destroy" :: errors) s'
  | visited {s n rest visited errors s'} (h : (s.node n).destroyed = false)
    (hrest : Walks now (s.visit n now) ((s.visit n now).onward n ++ rest) visited errors s') :
    Walks now s (n :: rest) (n :: visited) ((s.visit n now).complaints n ++ errors) s'

theorem Walks.append {now : Instant} {s s' s'' : Scene} {todo rest visited visited' : List NodeId}
    {errors errors' : List String} (h : Walks now s todo visited errors s')
    (hrest : Walks now s' rest visited' errors' s'') :
    Walks now s (todo ++ rest) (visited ++ visited') (errors ++ errors') s'' := by
  induction h with
  | done s => exact hrest
  | destroyed hd _ ih => exact .destroyed hd (ih hrest)
  | visited hd _ ih =>
    have hgo := ih hrest
    rw [List.append_assoc] at hgo
    rw [List.append_assoc]
    exact .visited hd hgo

theorem Walks.unique {now : Instant} {s s' s'' : Scene} {todo visited visited' : List NodeId}
    {errors errors' : List String} (h : Walks now s todo visited errors s')
    (h' : Walks now s todo visited' errors' s'') : visited = visited' ∧ errors = errors' ∧ s' = s'' := by
  induction h generalizing visited' errors' s'' with
  | done s =>
    cases h'
    exact ⟨rfl, rfl, rfl⟩
  | destroyed hd _ ih =>
    cases h' with
    | destroyed _ h' =>
      obtain ⟨hv, he, hs⟩ := ih h'
      exact ⟨hv, congrArg _ he, hs⟩
    | visited hd' _ => exact absurd (hd.symm.trans hd') (by simp)
  | visited hd _ ih =>
    cases h' with
    | destroyed hd' _ => exact absurd (hd.symm.trans hd') (by simp)
    | visited _ h' =>
      obtain ⟨hv, he, hs⟩ := ih h'
      exact ⟨congrArg _ hv, congrArg _ he, hs⟩

end Scene

end SceneAnimation
