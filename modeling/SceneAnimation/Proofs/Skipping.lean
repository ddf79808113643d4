import SceneAnimation.Proofs.Apart
import SceneAnimation.Proofs.Fractions
import Mathlib.Data.List.Dedup
/-!
# Skipping: frames that are left out

The first frame of an animator fixes the way that it goes, and every later frame writes the value for its own time,
whatever was written before.  So two frames of one animator leave it where the later of them alone would have
(`Animator.play_play`): what was complete in the earlier one is complete in the later one too, since the share of the
time that has passed does not fall.  Where the animators of a node drive different properties and are attached to no
other node, each of them is run as if it were alone (`Scene.Played`), and it does not matter how many frames come
between the first one and the last (`Deed.skipping_run`).
-/
namespace SceneAnimation

theorem Instant.since_mono {t t' : Instant} (h : t ≤ t') (start : Instant) : t.since start ≤ t'.since start := by
  have hnanos : t.nanos.toNat ≤ t'.nanos.toNat := h
  show (t.since start).nanos.toNat ≤ (t'.since start).nanos.toNat
  rw [toNat_since, toNat_since]
  exact Nat.sub_le_sub_right hnanos _

/-! ## One animator -/

namespace Animator

/-- An animator and the properties that it drives, alone, after frames at these times. -/
def alone : Animator → Properties → List Instant → Animator × Properties
  | a, p, [] => (a, p)
  | a, p, t :: ts => alone (a.advance p t).animator (a.advance p t).properties ts

variable {a : Animator} {p p' : Properties} {t t' : Instant} {ts us : List Instant}

/-- **Two frames on one way leave an animator where the later one alone would have.** -/
theorem play_play (h : t ≤ t') (a : Animator) (start : Instant) (x : Float32) (p : Properties) :
    let earlier := a.play start x p t
    let later := a.play start x p t'
    (earlier.animator.advance earlier.properties t').animator = later.animator ∧
      (earlier.animator.advance earlier.properties t').properties = later.properties := by
  intro earlier later
  by_cases hstart : t < start
  · -- nothing was written before the start
    have hearlier : earlier = ⟨{ a with state := .running start x }, p, false⟩ := if_pos hstart
    rw [hearlier]
    exact ⟨rfl, rfl⟩
  · have hstart' : ¬ t' < start := fun hlt => hstart (UInt64.lt_of_le_of_lt h hlt)
    have hlater : later = _ := if_neg hstart'
    have hearlier : earlier = _ := if_neg hstart
    dsimp only at hearlier hlater
    by_cases hwhole : ((t.since start).fractionOf a.duration).isWhole = true
    · -- what was complete is complete at the later time too
      rw [if_pos hwhole] at hearlier
      rw [if_pos (Span.isWhole_mono (Instant.since_mono h start) hwhole)] at hlater
      rw [hearlier, hlater, Properties.set_set, Properties.set_set]
      exact ⟨rfl, rfl⟩
    · -- the later frame writes the same property again
      rw [if_neg hwhole] at hearlier
      rw [hearlier, hlater]
      simp only [advance, play, if_neg hstart', Properties.set_set]
      split <;> exact ⟨rfl, rfl⟩

theorem alone_finished (h : a.state = .finished) : ∀ ts, a.alone p ts = (a, p)
  | [] => rfl
  | t :: ts => by
    have hnothing : a.advance p t = ⟨a, p, false⟩ := by rw [advance, h]
    rw [alone, hnothing]
    exact alone_finished h ts

/-- **Frames in the order of time leave an animator where the last of them alone would have.** -/
theorem alone_play (a : Animator) (start : Instant) (x : Float32) (p : Properties) {last : Instant} :
    ∀ {t : Instant} {ts : List Instant}, (t :: ts).Pairwise (· ≤ ·) → (t :: ts).getLast? = some last →
    (a.play start x p t).animator.alone (a.play start x p t).properties ts =
      ((a.play start x p last).animator, (a.play start x p last).properties)
  | t, [], _, hlast => by
    cases hlast
    rfl
  | t, t' :: ts, hsorted, hlast => by
    obtain ⟨hle, hrest⟩ := List.pairwise_cons.1 hsorted
    obtain ⟨hanimator, hproperties⟩ := play_play (hle t' List.mem_cons_self) a start x p
    rw [alone, hanimator, hproperties]
    exact alone_play a start x p hrest ((List.getLast?_cons_cons ..).symm.trans hlast)

/-- **Only the first frame and the last one matter** to an animator. -/
theorem alone_eq (hts : ts.Pairwise (· ≤ ·)) (hus : us.Pairwise (· ≤ ·)) (hhead : us.head? = ts.head?)
    (hlast : us.getLast? = ts.getLast?) (a : Animator) (p : Properties) : a.alone p us = a.alone p ts := by
  cases ts with
  | nil => rw [List.head?_eq_none_iff.1 hhead]
  | cons t ts =>
    obtain ⟨us, rfl⟩ := List.head?_eq_some_iff.1 hhead
    obtain ⟨last, hl⟩ := Option.ne_none_iff_exists'.1 (mt List.getLast?_eq_none_iff.1 (List.cons_ne_nil t ts))
    -- the first frame fixes the way, if it is not fixed already
    rw [alone, alone]
    unfold advance
    cases hstate : a.state with
    | notStarted => exact (alone_play _ _ _ _ hus (hlast.trans hl)).trans (alone_play _ _ _ _ hts hl).symm
    | running start x => exact (alone_play _ _ _ _ hus (hlast.trans hl)).trans (alone_play _ _ _ _ hts hl).symm
    | finished => rw [alone_finished hstate, alone_finished hstate]

theorem alone_concat : ∀ (a : Animator) (p : Properties) (ts : List Instant) (t : Instant), a.alone p (ts ++ [t]) =
    let r := (a.alone p ts).1.advance (a.alone p ts).2 t
    (r.animator, r.properties)
  | _, _, [], _ => rfl
  | a, p, t' :: ts, t => alone_concat (a.advance p t').animator (a.advance p t').properties ts t

theorem property_alone : ∀ (a : Animator) (p : Properties) (ts : List Instant),
    (a.alone p ts).1.property = a.property
  | _, _, [] => rfl
  | a, p, t :: ts => by
    rw [alone, property_alone, (advance_plays t).same]

/-- **What an animator does depends on the property that it drives only.** -/
theorem advance_congr (h : p'.get a.property = p.get a.property) (t : Instant) :
    (a.advance p' t).animator = (a.advance p t).animator ∧
      (a.advance p' t).properties.get a.property = (a.advance p t).properties.get a.property := by
  have hplay : ∀ start x, (a.play start x p' t).animator = (a.play start x p t).animator ∧
      (a.play start x p' t).properties.get a.property = (a.play start x p t).properties.get a.property := by
    intro start x
    unfold play
    split
    · exact ⟨rfl, h⟩
    · dsimp only
      split
      · exact ⟨rfl, by rw [Properties.get_set_self, Properties.get_set_self]⟩
      · exact ⟨rfl, by rw [Properties.get_set_self, Properties.get_set_self]⟩
  unfold advance
  cases a.state with
  | notStarted =>
    dsimp only
    rw [h]
    exact hplay ..
  | running start x => exact hplay ..
  | finished => exact ⟨rfl, h⟩

end Animator

/-! ## The animators of one node -/

namespace Progress

/-- **Animators of different properties do not meet**: each of them does what it does to the properties at first. -/
theorem ofList_distinct (now : Instant) : ∀ {is : List AnimatorId} {as : Table AnimatorId Animator} (p : Properties),
    (is.map fun i => (as.get i).property).Nodup → ∀ i ∈ is,
    let r := ofList (fun a p => a.advance p now) is as p
    let r' := (as.get i).advance p now
    r.animators.get i = r'.animator ∧ r.properties.get (as.get i).property = r'.properties.get (as.get i).property
  | j :: is, as, p, hdistinct, i, hi => by
    dsimp only
    rw [List.map_cons, List.nodup_cons] at hdistinct
    obtain ⟨hj, hrest⟩ := hdistinct
    have hother : ∀ k ∈ is, (as.get k).property ≠ (as.get j).property := fun k hk he =>
      hj (he ▸ List.mem_map_of_mem (f := fun i => (as.get i).property) hk)
    have hset : ∀ k ∈ is, (as.set j ((as.get j).advance p now).animator).get k = as.get k := fun k hk => by
      rw [Table.get_set, if_neg]
      rintro rfl
      exact hother k hk rfl
    rw [animators_cons, properties_cons]
    by_cases he : i = j
    · subst i
      have hnew : j ∉ is := fun hm => hother j hm rfl
      rw [get_of_not_mem _ _ _ _ hnew, Table.get_set, if_pos rfl,
        get_ofList fun k hk => (hset k hk).symm ▸ hother k hk]
      exact ⟨rfl, rfl⟩
    · have hm : i ∈ is := (List.mem_cons.1 hi).resolve_left he
      have hmap : (is.map fun i => ((as.set j ((as.get j).advance p now).animator).get i).property) =
          is.map fun i => (as.get i).property := List.map_congr_left fun k hk => by rw [hset k hk]
      have ih := ofList_distinct now ((as.get j).advance p now).properties (hmap ▸ hrest) i hm
      have hget : ((as.get j).advance p now).properties.get (as.get i).property = p.get (as.get i).property :=
        Animator.get_advance (Ne.symm (hother i hm)) ..
      obtain ⟨hanimator, hvalue⟩ := Animator.advance_congr hget now
      dsimp only at ih
      rw [hset i hm, hanimator, hvalue] at ih
      exact ih

/-- **Of animators that are listed once**, a run keeps those that it does not complete. -/
theorem kept_eq_filter (run : Animator → Properties → Advance) : ∀ {is : List AnimatorId}
    (as : Table AnimatorId Animator) (p : Properties), is.Nodup →
    (ofList run is as p).kept = is.filter (· ∉ (ofList run is as p).completed)
  | [], _, _, _ => rfl
  | i :: is, as, p, h => by
    obtain ⟨hi, hrest⟩ := List.nodup_cons.1 h
    have ih := kept_eq_filter run (as.set i (run (as.get i) p).animator) (run (as.get i) p).properties hrest
    rw [kept_cons, completed_cons, ih]
    split
    · rw [List.filter_cons_of_neg (by simp), List.nil_append]
      refine List.filter_congr fun j hj => ?_
      have hne : j ≠ i := fun he => hi (he ▸ hj)
      simp [hne]
    · rw [List.nil_append, List.filter_cons_of_pos]
      · rfl
      · exact decide_eq_true fun hm => hi ((completed_sublist ..).subset hm)

end Progress

/-! ## One node, frame after frame -/

namespace Scene

/-- **The animators of node `n` have it for themselves**: each drives a property of its own, and none of them is
attached to another node. -/
structure Solo (s : Scene) (n : NodeId) : Prop where
  distinct : ((s.node n).animators.map fun a => (s.animator a).property).Nodup
  own : ∀ m a, a ∈ (s.node n).animators → a ∈ (s.node m).animators → m = n

/-- **What has become of node `n` of `s` in `s'`**, after frames at these times: each animator that was attached at
first is where it would be alone, and is detached if it was not finished then and is now. -/
structure Played (s : Scene) (n : NodeId) (ts : List Instant) (s' : Scene) : Prop where
  animator : ∀ a ∈ (s.node n).animators, s'.animator a = ((s.animator a).alone (s.node n).properties ts).1
  driven : ∀ a ∈ (s.node n).animators, (s'.node n).properties.get (s.animator a).property =
    ((s.animator a).alone (s.node n).properties ts).2.get (s.animator a).property
  undriven : ∀ q, (∀ a ∈ (s.node n).animators, (s.animator a).property ≠ q) →
    (s'.node n).properties.get q = (s.node n).properties.get q
  node : s'.node n = { s.node n with
    properties := (s'.node n).properties
    animators := (s.node n).animators.filter fun a =>
      (s.animator a).state = .finished ∨ (s'.animator a).state ≠ .finished }
  own : ∀ m a, a ∈ (s.node n).animators → a ∈ (s'.node m).animators → m = n

variable {s s' s'' : Scene} {n : NodeId} {ts us : List Instant}

theorem Solo.played (h : s.Solo n) : s.Played n [] s where
  animator _ _ := rfl
  driven _ _ := rfl
  undriven _ _ := rfl
  node := by
    rw [List.filter_eq_self.2 fun a _ => decide_eq_true (Classical.em _)]
  own := h.own

theorem Solo.property_ne (h : s.Solo n) {a b : AnimatorId} (ha : a ∈ (s.node n).animators)
    (hb : b ∈ (s.node n).animators) (hne : a ≠ b) : (s.animator a).property ≠ (s.animator b).property := fun he =>
  hne (List.inj_on_of_nodup_map h.distinct ha hb he)

namespace Played

theorem property (h : s.Played n ts s') {a : AnimatorId} (ha : a ∈ (s.node n).animators) :
    (s'.animator a).property = (s.animator a).property := by
  rw [h.animator a ha, Animator.property_alone]

theorem mem_animators (h : s.Played n ts s') {a : AnimatorId} : a ∈ (s'.node n).animators ↔
    a ∈ (s.node n).animators ∧ ((s.animator a).state = .finished ∨ (s'.animator a).state ≠ .finished) := by
  rw [h.node, List.mem_filter, decide_eq_true_iff]

theorem elsewhere (h : s.Played n ts s') {d : Deed} (hd : d.node ≠ n) : s.Played n ts (d.effect s') := by
  have hnode : (d.effect s').node n = s'.node n := Deed.node_effect_of_ne (Ne.symm hd)
  have hanimator : ∀ a ∈ (s.node n).animators, (d.effect s').animator a = s'.animator a := fun a ha =>
    Deed.animator_effect_of_not_mem fun hm => hd (h.own d.node a ha hm)
  refine ⟨fun a ha => (hanimator a ha).trans (h.animator a ha), ?_, ?_, ?_, fun m a ha hm =>
    h.own m a ha ((Deed.animators_sublist s' d m).subset hm)⟩
  · rw [hnode]
    exact h.driven
  · rw [hnode]
    exact h.undriven
  · rw [hnode, List.filter_congr fun a ha => by rw [hanimator a ha]]
    exact h.node

theorem distinct (hsolo : s.Solo n) (h : s.Played n ts s') :
    ((s'.node n).animators.map fun a => (s'.animator a).property).Nodup := by
  have hsublist : (s'.node n).animators.Sublist (s.node n).animators := by
    rw [h.node]
    exact List.filter_sublist
  rw [List.map_congr_left fun b hb => h.property (h.mem_animators.1 hb).1]
  exact (hsublist.map _).nodup hsolo.distinct

/-- In one more frame, each of the animators does what it does to the properties as they are. -/
theorem advance (hsolo : s.Solo n) (h : s.Played n ts s') (t : Instant) {a : AnimatorId}
    (ha : a ∈ (s.node n).animators) :
    let r := (s'.animator a).advance (s'.node n).properties t
    (s'.animate n t).2.animator a = r.animator ∧
      (s'.progressAt n t).properties.get (s.animator a).property = r.properties.get (s.animator a).property := by
  rw [← h.property ha]
  by_cases hm : a ∈ (s'.node n).animators
  · exact Progress.ofList_distinct t (s'.node n).properties (h.distinct hsolo) a hm
  · -- it was completed by an earlier frame
    have hstate : (s'.animator a).state = .finished := Classical.byContradiction fun hs =>
      hm (h.mem_animators.2 ⟨ha, .inr hs⟩)
    have hnothing : (s'.animator a).advance (s'.node n).properties t =
        ⟨s'.animator a, (s'.node n).properties, false⟩ := by rw [Animator.advance, hstate]
    rw [hnothing]
    refine ⟨(s'.ran_animate n t).untouched a hm, Progress.get_ofList fun b hb => ?_⟩
    have hb' := (h.mem_animators.1 hb).1
    rw [h.property ha]
    refine (h.property hb').trans_ne (hsolo.property_ne hb' ha ?_)
    rintro rfl
    exact hm hb

/-- After one more frame, each of the animators is where it would be alone. -/
theorem alone_concat (hsolo : s.Solo n) (h : s.Played n ts s') (t : Instant) {a : AnimatorId}
    (ha : a ∈ (s.node n).animators) :
    let r := (s.animator a).alone (s.node n).properties (ts ++ [t])
    (s'.animate n t).2.animator a = r.1 ∧
      (s'.progressAt n t).properties.get (s.animator a).property = r.2.get (s.animator a).property := by
  obtain ⟨hanimator, hvalue⟩ := h.advance hsolo t ha
  have hdriven := h.driven a ha
  rw [← h.property ha, h.animator a ha] at hdriven
  obtain ⟨hanimator', hvalue'⟩ := Animator.advance_congr hdriven t
  rw [Animator.property_alone] at hvalue'
  rw [hanimator, hvalue, h.animator a ha, Animator.alone_concat]
  exact ⟨hanimator', hvalue'⟩

theorem kept (hsolo : s.Solo n) (h : s.Played n ts s') (t : Instant) :
    (s'.progressAt n t).kept = (s.node n).animators.filter fun a =>
      (s.animator a).state = .finished ∨ ((s'.animate n t).2.animator a).state ≠ .finished := by
  have hran := s'.ran_animate n t
  have hkept : (s'.progressAt n t).kept = (s'.node n).animators.filter (· ∉ s'.completedOn n t) :=
    Progress.kept_eq_filter _ _ _ (h.distinct hsolo).of_map
  rw [hkept, congrArg Node.animators h.node, List.filter_filter]
  refine List.filter_congr fun a ha => ?_
  have hbefore : (s.animator a).state = .finished → (s'.animator a).state = .finished := fun hs => by
    rw [h.animator a ha, Animator.alone_finished hs]
    exact hs
  have hafter := hran.finished a
  rw [← Bool.decide_and, decide_eq_decide, hran.mem_done]
  tauto

/-- **One more frame.** -/
theorem run (hsolo : s.Solo n) (h : s.Played n ts s') (t : Instant) :
    s.Played n (ts ++ [t]) ((Deed.run n t).effect s') := by
  have hnode : ((Deed.run n t).effect s').node n = { s'.node n with
      properties := (s'.progressAt n t).properties, animators := (s'.progressAt n t).kept } := by
    rw [Deed.effect, animate, node_store, if_pos rfl]
  refine ⟨fun a ha => (h.alone_concat hsolo t ha).1, fun a ha => ?_, fun q hq => ?_, ?_, fun m a ha hm =>
    h.own m a ha ((Deed.animators_sublist s' _ m).subset hm)⟩
  · rw [hnode]
    exact (h.alone_concat hsolo t ha).2
  · rw [hnode]
    refine (Progress.get_ofList fun b hb => ?_).trans (h.undriven q hq)
    have hb' := (h.mem_animators.1 hb).1
    exact (h.property hb').trans_ne (hq b hb')
  · rw [hnode, h.kept hsolo t, Node.mk.injEq]
    exact ⟨(congrArg Node.name h.node).trans rfl, rfl, rfl, (congrArg Node.children h.node).trans rfl,
      (congrArg Node.destroyed h.node).trans rfl⟩

/-- **Many frames**, with deeds to other nodes in between. -/
theorem deeds (hsolo : s.Solo n) : ∀ (ds : List Deed) {ts us : List Instant} {s' : Scene}, s.Played n ts s' →
    ds.filter (·.node = n) = us.map (.run n) → s.Played n (ts ++ us) (Deed.effects s' ds)
  | [], ts, us, s', h, hds => by
    obtain rfl : us = [] := List.map_eq_nil_iff.1 hds.symm
    rwa [List.append_nil]
  | d :: ds, ts, us, s', h, hds => by
    by_cases hd : d.node = n
    · rw [List.filter_cons_of_pos (by simp [hd])] at hds
      obtain ⟨t, us, rfl, rfl, hrest⟩ := List.map_eq_cons_iff.1 hds.symm
      have hall := deeds hsolo ds (h.run hsolo t) hrest.symm
      rwa [List.append_assoc] at hall
    · rw [List.filter_cons_of_neg (by simp [hd])] at hds
      exact deeds hsolo ds (h.elsewhere hd) hds

/-- **The node ends up the same** if each of its animators would do so alone. -/
theorem same (h : s.Played n ts s') (h' : s.Played n us s'') (hsame : ∀ a ∈ (s.node n).animators,
    (s.animator a).alone (s.node n).properties us = (s.animator a).alone (s.node n).properties ts) :
    s''.node n = s'.node n ∧ ∀ a ∈ (s.node n).animators, s''.animator a = s'.animator a := by
  have hanimator : ∀ a ∈ (s.node n).animators, s''.animator a = s'.animator a := fun a ha => by
    rw [h.animator a ha, h'.animator a ha, hsame a ha]
  have hproperties : (s''.node n).properties = (s'.node n).properties := Properties.ext_get fun q => by
    by_cases hq : ∃ a ∈ (s.node n).animators, (s.animator a).property = q
    · obtain ⟨a, ha, rfl⟩ := hq
      rw [h.driven a ha, h'.driven a ha, hsame a ha]
    · have hnone : ∀ a ∈ (s.node n).animators, (s.animator a).property ≠ q := fun a ha he => hq ⟨a, ha, he⟩
      rw [h.undriven q hnone, h'.undriven q hnone]
  refine ⟨?_, hanimator⟩
  rw [h.node, h'.node, hproperties, List.filter_congr fun a ha => by rw [hanimator a ha]]

end Played

end Scene

/-! ## What is found -/

namespace Threads

/-- Of any scene, all that is finished can be taken to have been found. -/
theorem exists_detection (s : Scene) : ∃ found, Detection found s := by
  let done := (s.animators.entries.map (·.1)).dedup.filter fun a => (s.animator a).state = .finished
  refine ⟨s.completions done, (s.completions_sublist done).nodup ((List.nodup_dedup _).filter _), fun c => ?_⟩
  rw [Scene.mem_completions, List.mem_filter, List.mem_dedup, ← Table.mem_iff_listed, decide_eq_true_iff, and_comm,
    and_congr_right_iff]
  refine fun _ => and_iff_right_of_imp fun hstate => Classical.byContradiction fun hnone => ?_
  rw [Scene.animator, Table.get_of_not_mem hnone] at hstate
  cases hstate

end Threads

namespace Deed

/-- **What is found of some animators depends on how they end up only**, except for its order. -/
theorem findings_perm {s : Scene} {is : List AnimatorId} {ds ds' : List Deed}
    (h : ∀ a ∈ is, (effects s ds').animator a = (effects s ds).animator a) :
    ((findings s ds').filter (·.animator ∈ is)).Perm ((findings s ds).filter (·.animator ∈ is)) := by
  obtain ⟨found, hfound⟩ := Threads.exists_detection s
  have hnodup : ∀ ds, (found ++ findings s ds).Nodup := fun ds => (hfound.deeds ds).once.of_map
  have hmem : ∀ ds c, c ∈ findings s ds ↔ c ∉ found ∧ ((effects s ds).animator c.animator).listener = some c.listener ∧
      ((effects s ds).animator c.animator).state = .finished := fun ds c => by
    have hdisjoint := List.disjoint_of_nodup_append (hnodup ds)
    rw [← (hfound.deeds ds).finished, List.mem_append]
    exact ⟨fun hc => ⟨fun hf => hdisjoint hf hc, .inr hc⟩, fun ⟨hf, hc⟩ => hc.resolve_left hf⟩
  refine (List.perm_ext_iff_of_nodup ?_ ?_).2 fun c => ?_
  · exact (hnodup ds').of_append_right.filter _
  · exact (hnodup ds).of_append_right.filter _
  · simp only [List.mem_filter, decide_eq_true_eq, and_congr_left_iff]
    intro hc
    rw [hmem, hmem, h c.animator hc]

/-- **Skipped frames make no difference.**  The animators of a node drive different properties, and none of them is
attached to another node.  In two runs from the same scene the node has its frames at the times `ts` and at the times
`us`, both in order, of which the first are equal and the last are equal: `us` may be just these two.  Nothing else is
done to the node, and anything may be done to other nodes in between.  Both runs leave the node the same properties and
the same animators, each as far on its way, and find the same completions of them. -/
theorem skipping_run (s : Scene) (n : NodeId) (ts us : List Instant) (ds ds' : List Deed) (hsolo : s.Solo n)
    (hts : ts.Pairwise (· ≤ ·)) (hus : us.Pairwise (· ≤ ·)) (hfirst : us.head? = ts.head?)
    (hlast : us.getLast? = ts.getLast?) (hds : ds.filter (·.node = n) = ts.map (.run n))
    (hds' : ds'.filter (·.node = n) = us.map (.run n)) :
    (effects s ds').node n = (effects s ds).node n ∧
      (∀ a ∈ (s.node n).animators, (effects s ds').animator a = (effects s ds).animator a) ∧
      ((findings s ds').filter (·.animator ∈ (s.node n).animators)).Perm
        ((findings s ds).filter (·.animator ∈ (s.node n).animators)) := by
  have hplayed : s.Played n ts (effects s ds) := hsolo.played.deeds hsolo ds hds
  have hplayed' : s.Played n us (effects s ds') := hsolo.played.deeds hsolo ds' hds'
  obtain ⟨hnode, hanimators⟩ := hplayed.same hplayed' fun a _ => Animator.alone_eq hts hus hfirst hlast ..
  exact ⟨hnode, hanimators, findings_perm hanimators⟩

/-- In the dense run one of the animators is complete at the second frame, before another one; in the other run both are
complete at its last frame, in the order in which they are attached.  A third one is still on its way. -/
theorem skipping_early :
    let fade : Animator := { property := .alpha, finalValue := 0, duration := ⟨30⟩, listener := some ⟨1⟩ }
    let spin : Animator := { property := .rotation, finalValue := 1, duration := ⟨5⟩, listener := some ⟨2⟩ }
    let slide : Animator := { property := .scaleX, finalValue := 2, duration := ⟨50⟩, delay := ⟨15⟩ }
    let s : Scene :=
      { nodes := ⟨[(⟨1⟩, { animators := [⟨1⟩, ⟨2⟩, ⟨3⟩] }), (⟨2⟩, { animators := [⟨4⟩] })]⟩
        animators := ⟨[(⟨1⟩, fade), (⟨2⟩, spin), (⟨3⟩, slide), (⟨4⟩, spin)]⟩ }
    let ts : List Instant := [⟨10⟩, ⟨20⟩, ⟨30⟩, ⟨40⟩]
    let us : List Instant := [⟨10⟩, ⟨40⟩]
    let ds : List Deed := [.run ⟨1⟩ ⟨10⟩, .run ⟨2⟩ ⟨10⟩, .run ⟨1⟩ ⟨20⟩, .run ⟨1⟩ ⟨30⟩, .finish ⟨2⟩, .run ⟨1⟩ ⟨40⟩]
    let ds' : List Deed := [.run ⟨1⟩ ⟨10⟩, .discard ⟨2⟩, .run ⟨1⟩ ⟨40⟩]
    (s.Solo ⟨1⟩ ∧ ts.Pairwise (· ≤ ·) ∧ us.Pairwise (· ≤ ·) ∧ us.head? = ts.head? ∧ us.getLast? = ts.getLast? ∧
      ds.filter (·.node = ⟨1⟩) = ts.map (.run ⟨1⟩) ∧ ds'.filter (·.node = ⟨1⟩) = us.map (.run ⟨1⟩)) ∧
    findings s ds = [⟨⟨2⟩, ⟨2⟩⟩, ⟨⟨4⟩, ⟨2⟩⟩, ⟨⟨1⟩, ⟨1⟩⟩] ∧ findings s ds' = [⟨⟨1⟩, ⟨1⟩⟩, ⟨⟨2⟩, ⟨2⟩⟩] ∧
    ((effects s ds).node ⟨1⟩).animators = [⟨3⟩] ∧ (effects s ds').node ⟨1⟩ = (effects s ds).node ⟨1⟩ ∧
    (effects s ds').animator ⟨3⟩ = (effects s ds).animator ⟨3⟩ := by
  intro fade spin slide s ts us ds ds'
  have hseparate : s.Separate := by decide +kernel
  have hsolo : s.Solo ⟨1⟩ := ⟨by decide +kernel, fun m a ha hb => hseparate m ⟨1⟩ a hb ha⟩
  have hts : ts.Pairwise (· ≤ ·) := by decide +kernel
  have hus : us.Pairwise (· ≤ ·) := by decide +kernel
  obtain ⟨hnode, hanimators, -⟩ := skipping_run s ⟨1⟩ ts us ds ds' hsolo hts hus rfl rfl rfl rfl
  exact ⟨⟨hsolo, hts, hus, rfl, rfl, rfl, rfl⟩, by decide +kernel, by decide +kernel, by decide +kernel, hnode,
    hanimators ⟨3⟩ (by decide +kernel)⟩

end Deed

end SceneAnimation
