import SceneAnimation.Proofs.Spellings
/-!
# Resumption: what is read behind a bad record

A recording is read up to the first record that cannot be read (`decode`).  Whoever asks for a further event is answered
from where the failure has left the bytes (`Refusal`).  At the end, and after a record that is cut short, too little is
left for any record, and no event is found again.  A byte that is no tag is passed over alone, and a record whose phase
byte names no phase up to that byte: what follows is then read as if it were the beginning (`resumption_exact`).
-/
namespace SceneAnimation.Trace

/-! ## Calls for an event, one after the other -/

/-- What is left of `bytes` after `k` calls for the next event. -/
def leftAfter : (k : Nat) → List UInt8 → List UInt8
  | 0, bytes => bytes
  | k + 1, bytes => leftAfter k (Reader.event bytes).2

/-- What is answered to a call for the next event, after `k` others. -/
def answer (k : Nat) (bytes : List UInt8) : Option Event := (Reader.event (leftAfter k bytes)).1

theorem leftAfter_add : ∀ (j k : Nat) (bytes : List UInt8), leftAfter (j + k) bytes = leftAfter k (leftAfter j bytes)
  | 0, k, bytes => by rw [Nat.zero_add, leftAfter]
  | j + 1, k, bytes => by rw [Nat.add_right_comm, leftAfter, leftAfter, leftAfter_add j k]

theorem answer_add (j k : Nat) (bytes : List UInt8) : answer (j + k) bytes = answer k (leftAfter j bytes) := by
  rw [answer, leftAfter_add, answer]

theorem answer_succ (k : Nat) (bytes : List UInt8) : answer (k + 1) bytes = answer k (Reader.event bytes).2 := rfl

theorem answer_eq_none_iff {k : Nat} {bytes : List UInt8} : answer k bytes = none ↔ Refused (leftAfter k bytes) :=
  Reader.event_eq_none_iff

theorem leftAfter_suffix : ∀ (k : Nat) (bytes : List UInt8), leftAfter k bytes <:+ bytes
  | 0, _ => List.suffix_rfl
  | k + 1, bytes => (leftAfter_suffix k _).trans (Reader.leaves_event bytes)

/-- **The first calls are answered with what is read**, and the next one with nothing. -/
theorem Reads.answer {bytes left : List UInt8} {es : List Event} (h : Reads bytes es left) :
    ∀ k ≤ es.length, answer k bytes = es[k]? := by
  induction h with
  | stop h =>
    intro k hk
    rw [Nat.le_zero.1 hk]
    exact congrArg Prod.fst h
  | next h _ ih =>
    intro k hk
    cases k with
    | zero => exact congrArg Prod.fst h
    | succ k =>
      rw [answer_succ, h]
      exact ih k (Nat.le_of_succ_le_succ hk)

theorem Reader.byte_cons (b : UInt8) (rest : List UInt8) : number 1 (b :: rest) = (some b.toNat, rest) :=
  byte_eq_some.2 ⟨b, rfl, rfl⟩

theorem Reader.event_cons (tag : UInt8) (fields : List UInt8) : event (tag :: fields) = body tag.toNat fields := by
  rw [event, andThen, byte_cons]

/-- Every call takes a byte, if there is one. -/
theorem Reader.length_event_lt {bytes : List UInt8} (h : bytes ≠ []) :
    (Reader.event bytes).2.length < bytes.length := by
  cases bytes with
  | nil => exact absurd rfl h
  | cons tag fields =>
    rw [event_cons]
    exact Nat.lt_succ_of_le (leaves_body tag.toNat fields).length_le

theorem length_leftAfter_le : ∀ (k : Nat) (bytes : List UInt8), (leftAfter k bytes).length ≤ bytes.length - k
  | 0, _ => Nat.le_refl _
  | k + 1, bytes => by
    have hrest := length_leftAfter_le k (Reader.event bytes).2
    rw [leftAfter]
    by_cases h : bytes = []
    · subst h
      have hnil : (Reader.event []).2.length = 0 := rfl
      omega
    · have hlt := Reader.length_event_lt h
      omega

/-- **In the end nothing is left to be read.** -/
theorem answer_of_length_le {k : Nat} {bytes : List UInt8} (h : bytes.length ≤ k) : answer k bytes = none := by
  have hlen := length_leftAfter_le k bytes
  rw [Nat.sub_eq_zero_of_le h] at hlen
  rw [answer_eq_none_iff, List.eq_nil_of_length_eq_zero (Nat.le_zero.1 hlen)]
  exact .empty

/-! ## What a failed call leaves -/

/-- **A record that is cut short**: the first byte is a tag, and the bytes end before the last field does.  The byte that
should name a phase, if the record has one and it is there, names one. -/
inductive Truncated : List UInt8 → Prop where
  | intro {tag fields} (hlen : (tag :: fields).length < recordSize tag)
    (hphase : tag = 2 ∨ tag = 3 → ∀ q, fields[8]? = some q → q ≤ 2) : Truncated (tag :: fields)

/-- **What a call that fails leaves.** -/
inductive Refusal : List UInt8 → List UInt8 → Prop where
  | ended : Refusal [] []
  | untagged {tag fields} (h : tag < 1 ∨ 6 < tag) : Refusal (tag :: fields) fields
  | unphased {tag fields q} (htag : tag = 2 ∨ tag = 3) (hq : fields[8]? = some q) (h : 2 < q) :
    Refusal (tag :: fields) (fields.drop 9)
  | truncated {bytes left} (h : Truncated bytes) (hleft : left.length < 8) : Refusal bytes left

namespace Reader

variable {α β : Type}

/-- A reader that fails where there are fewer than `k` bytes, and leaves fewer than eight of them. -/
def Starves (r : Reader α) (k : Nat) : Prop :=
  ∀ bytes, bytes.length < k → (r bytes).1 = none ∧ (r bytes).2.length < 8

theorem starves_pure (a : α) : Starves (pure a) 0 := fun _ h => absurd h (Nat.not_lt_zero _)

theorem starves_number {width : Nat} (h : width ≤ 8) : Starves (number width) width := fun bytes hlen => by
  rw [number, if_neg (Nat.not_le_of_lt hlen)]
  exact ⟨rfl, Nat.lt_of_lt_of_le hlen h⟩

/-- Where the first reader fails, both do. -/
theorem Starves.first {r : Reader α} {k : Nat} (h : Starves r k) (f : α → Reader β) : Starves (andThen r f) k :=
  fun bytes hlen => by
  obtain ⟨hnone, hleft⟩ := h bytes hlen
  rw [Reader.andThen]
  rcases hr : r bytes with ⟨_ | a, rest⟩ <;> rw [hr] at hnone hleft
  · exact ⟨rfl, hleft⟩
  · cases hnone

theorem Starves.andThen {r : Reader α} {f : α → Reader β} {k l : Nat} (h : Starves r k) (ht : Takes r k)
    (hf : ∀ a, Starves (f a) l) : Starves (andThen r f) (k + l) := fun bytes hlen => by
  by_cases hk : bytes.length < k
  · exact h.first f bytes hk
  · obtain ⟨a, ha⟩ := ht bytes (Nat.le_of_not_lt hk)
    rw [Reader.andThen, ha]
    exact hf a (bytes.drop k) (by rw [List.length_drop]; omega)

theorem starves_word64 : Starves word64 8 :=
  (starves_number (Nat.le_refl 8)).andThen (takes_number 8) fun n => starves_pure (UInt64.ofNat n)

theorem starves_word32 : Starves word32 4 :=
  (starves_number (by decide)).andThen (takes_number 4) fun n => starves_pure (UInt32.ofNat n)

theorem starves_instant : Starves instant 8 :=
  starves_word64.andThen takes_word64 fun n => starves_pure (Instant.mk n)

theorem starves_span : Starves span 8 := starves_word64.andThen takes_word64 fun n => starves_pure (Span.mk n)

theorem starves_flag : Starves flag 1 :=
  (starves_number (by decide)).andThen (takes_number 1) fun n => starves_pure (decide (n ≠ 0))

theorem starves_phase : Starves phase 1 := (starves_number (by decide)).first _

/-- The byte that should name a phase is taken, even if it names none. -/
theorem phase_of_lt {q : UInt8} (h : 2 < q) (rest : List UInt8) : Reader.phase (q :: rest) = (none, rest) := by
  have hq : 2 < q.toNat := UInt8.lt_iff_toNat_lt.1 h
  obtain ⟨k, hk⟩ : ∃ k, q.toNat = k + 3 := ⟨q.toNat - 3, by omega⟩
  rw [phase, andThen, byte_cons, hk]
  rfl

/-- The fields of a phase event. -/
def phased (f : UInt64 → Phase → Instant → Event) : Reader Event :=
  andThen word64 fun i => andThen phase fun q => andThen instant fun t => pure (f i q t)

theorem phased_of_lt (f : UInt64 → Phase → Instant → Event) {fields : List UInt8} {q : UInt8}
    (hq : fields[8]? = some q) (h : 2 < q) : phased f fields = (none, fields.drop 9) := by
  obtain ⟨h8, rfl⟩ := List.getElem?_eq_some_iff.1 hq
  obtain ⟨i, hi⟩ := takes_word64 fields (by omega)
  rw [phased, andThen, hi]
  dsimp only
  rw [List.drop_eq_getElem_cons h8, andThen, phase_of_lt h]

theorem phased_of_short (f : UInt64 → Phase → Instant → Event) {fields : List UInt8} (hlen : fields.length < 17)
    (hphase : ∀ q, fields[8]? = some q → q ≤ 2) :
    (phased f fields).1 = none ∧ (phased f fields).2.length < 8 := by
  by_cases h8 : fields.length < 9
  · -- the bytes end in the frame index, or before the phase
    have hstarves : Starves (phased f) 9 := starves_word64.andThen takes_word64 fun _ => starves_phase.first _
    exact hstarves fields h8
  · obtain ⟨i, hi⟩ := takes_word64 fields (by omega)
    have h8 : 8 < fields.length := by omega
    obtain ⟨phase, hphase⟩ := phase_of_le (hphase fields[8] (List.getElem?_eq_getElem h8)) (fields.drop 9)
    rw [phased, andThen, hi]
    dsimp only
    rw [List.drop_eq_getElem_cons h8, andThen, hphase]
    exact (starves_instant.andThen takes_instant fun t => starves_pure (f i phase t)) (fields.drop 9)
      (by rw [List.length_drop]; omega)

/-- A byte that is no tag is taken, and nothing behind it. -/
theorem untagged_spec {tag : UInt8} (h : tag < 1 ∨ 6 < tag) (fields : List UInt8) :
    recordSize tag = 0 ∧ event (tag :: fields) = (none, fields) := by
  have hnat : tag.toNat = 0 ∨ ∃ m, tag.toNat = m + 7 := by
    simp only [UInt8.lt_iff_toNat_lt] at h
    exact h.imp (fun h => Nat.lt_one_iff.1 h) fun h => ⟨tag.toNat - 7, (Nat.sub_add_cancel h).symm⟩
  rw [recordSize, event_cons]
  obtain hzero | ⟨m, hm⟩ := hnat
  · rw [hzero]
    exact ⟨rfl, rfl⟩
  · rw [hm]
    exact ⟨rfl, rfl⟩

theorem not_untagged_of_size {tag : UInt8} (h : 0 < recordSize tag) : ¬(tag < 1 ∨ 6 < tag) := fun ht => by
  rw [(untagged_spec ht []).1] at h
  exact absurd h (Nat.lt_irrefl 0)

/-- A record that is cut short leaves what does not fill its next field. -/
theorem event_of_short {tag : UInt8} {fields : List UInt8} (hlen : (tag :: fields).length < recordSize tag)
    (hphase : tag = 2 ∨ tag = 3 → ∀ q, fields[8]? = some q → q ≤ 2) :
    (event (tag :: fields)).1 = none ∧ (event (tag :: fields)).2.length < 8 := by
  rw [event_cons]
  obtain rfl | rfl | rfl | rfl | rfl | rfl := tag_cases (not_untagged_of_size (Nat.zero_lt_of_lt hlen))
  · exact (starves_word64.andThen takes_word64 fun i => starves_instant.andThen takes_instant fun t =>
      starves_word32.andThen takes_word32 fun attached => starves_word32.andThen takes_word32 fun active =>
      starves_pure (Event.frameStart i t attached active)) fields (Nat.lt_of_succ_lt_succ hlen)
  · exact phased_of_short .phaseBegin (Nat.lt_of_succ_lt_succ hlen) (hphase (.inl rfl))
  · exact phased_of_short .phaseEnd (Nat.lt_of_succ_lt_succ hlen) (hphase (.inr rfl))
  · exact (starves_word64.andThen takes_word64 fun i => starves_word32.andThen takes_word32 fun n =>
      starves_flag.andThen takes_flag fun accepted => starves_pure (Event.batchScheduled i n accepted)) fields
      (Nat.lt_of_succ_lt_succ hlen)
  · exact (starves_word64.andThen takes_word64 fun i => starves_word32.andThen takes_word32 fun errors =>
      starves_word32.andThen takes_word32 fun skipped => starves_pure (Event.errorsReported i errors skipped)) fields
      (Nat.lt_of_succ_lt_succ hlen)
  · exact (starves_word64.andThen takes_word64 fun i => starves_instant.andThen takes_instant fun t =>
      starves_word32.andThen takes_word32 fun prepared => starves_word32.andThen takes_word32 fun errors =>
      starves_span.andThen takes_span fun s => starves_span.andThen takes_span fun p =>
      starves_span.andThen takes_span fun a => starves_flag.andThen takes_flag fun animating =>
      starves_pure (Event.frameSummary ⟨i, t, prepared, errors, s, p, a, animating⟩)) fields
      (Nat.lt_of_succ_lt_succ hlen)

/-- A record whose phase byte names no phase is taken up to this byte. -/
theorem event_of_unphased {tag q : UInt8} {fields : List UInt8} (htag : tag = 2 ∨ tag = 3)
    (hq : fields[8]? = some q) (h : 2 < q) : event (tag :: fields) = (none, fields.drop 9) := by
  rw [event_cons]
  obtain rfl | rfl := htag
  · exact phased_of_lt .phaseBegin hq h
  · exact phased_of_lt .phaseEnd hq h

end Reader

theorem Truncated.length_event {bytes : List UInt8} (h : Truncated bytes) : (Reader.event bytes).2.length < 8 := by
  cases h with
  | intro hlen hphase => exact (Reader.event_of_short hlen hphase).2

theorem Refused.refusal {bytes : List UInt8} (h : Refused bytes) : Refusal bytes (Reader.event bytes).2 := by
  cases h with
  | empty => exact .ended
  | untagged h =>
    rw [(Reader.untagged_spec h _).2]
    exact .untagged h
  | unphased htag hq h =>
    rw [Reader.event_of_unphased htag hq h]
    exact .unphased htag hq h
  | @short tag fields hlen =>
    by_cases hphase : tag = 2 ∨ tag = 3 → ∀ q, fields[8]? = some q → q ≤ 2
    · have hcut := Truncated.intro hlen hphase
      exact .truncated hcut hcut.length_event
    · -- the phase byte is there, and names no phase
      simp only [Classical.not_forall] at hphase
      obtain ⟨htag, q, hq, hlt⟩ := hphase
      rw [Reader.event_of_unphased htag hq (UInt8.not_le.1 hlt)]
      exact .unphased htag hq (UInt8.not_le.1 hlt)

/-! ## Where events are found again -/

/-- The shortest record has fourteen bytes. -/
theorem refused_of_length_lt {bytes : List UInt8} (h : bytes.length < 14) : Refused bytes := by
  cases bytes with
  | nil => exact .empty
  | cons tag fields =>
    by_cases htag : tag < 1 ∨ 6 < tag
    · exact .untagged htag
    · have hsize : 14 ≤ recordSize tag := by
        obtain rfl | rfl | rfl | rfl | rfl | rfl := Reader.tag_cases htag <;> decide
      exact .short (Nat.lt_of_lt_of_le h hsize)

theorem answer_of_length_lt {bytes : List UInt8} (h : bytes.length < 14) (k : Nat) : answer k bytes = none :=
  answer_eq_none_iff.2 (refused_of_length_lt (Nat.lt_of_le_of_lt (leftAfter_suffix k bytes).length_le h))

/-- **Bytes in which calls find an event**: a record that can be read, behind any number of bytes that are no tags and
of records that are given up at their phase. -/
inductive Resumes : List UInt8 → Prop where
  | found {bytes} (h : ¬Refused bytes) : Resumes bytes
  | untagged {tag fields} (h : tag < 1 ∨ 6 < tag) (hs : Resumes fields) : Resumes (tag :: fields)
  | unphased {tag fields q} (htag : tag = 2 ∨ tag = 3) (hq : fields[8]? = some q) (h : 2 < q)
    (hs : Resumes (fields.drop 9)) : Resumes (tag :: fields)

/-- What a failed call leaves has an event to be found only behind a byte that is no tag, or behind the phase. -/
theorem Refusal.resumes {bytes left : List UInt8} (h : Refusal bytes left) (hs : Resumes left)
    (hleft : 14 ≤ left.length) : Resumes bytes := by
  cases h with
  | ended => exact absurd hleft (by decide)
  | untagged h => exact .untagged h hs
  | unphased htag hq h => exact .unphased htag hq h hs
  | truncated _ hlt => omega

/-- **An event is found exactly where bytes resume.** -/
theorem exists_answer_iff {bytes : List UInt8} : (∃ k, answer k bytes ≠ none) ↔ Resumes bytes := by
  constructor
  · rintro ⟨k, hk⟩
    induction k generalizing bytes with
    | zero => exact .found fun h => hk (answer_eq_none_iff.2 h)
    | succ k ih =>
      by_cases h : Refused bytes
      · have hlen : 14 ≤ (Reader.event bytes).2.length := Nat.le_of_not_lt fun hlt => hk (answer_of_length_lt hlt k)
        exact h.refusal.resumes (ih hk) hlen
      · exact .found h
  · intro h
    induction h with
    | found h => exact ⟨0, fun hn => h (answer_eq_none_iff.1 hn)⟩
    | untagged h _ ih =>
      obtain ⟨k, hk⟩ := ih
      exact ⟨k + 1, by rw [answer_succ, (Reader.untagged_spec h _).2]; exact hk⟩
    | unphased htag hq h _ ih =>
      obtain ⟨k, hk⟩ := ih
      exact ⟨k + 1, by rw [answer_succ, Reader.event_of_unphased htag hq h]; exact hk⟩

/-- **When a reading stops for good.**  The calls are answered with what is read from the bytes, and then with nothing;
and once there have been as many of them as bytes, with nothing for ever.  In between, a call that finds nothing stands
at the end, at a record cut short, at a byte that is no tag, or at a record whose phase byte names no phase.  In the
first two cases no later call finds an event.  In the third the later calls read on behind that one byte, and in the
fourth behind the phase byte.  So no later call finds an event exactly if no record can be read there, and none behind
further bytes that are passed over in these two ways. -/
theorem resumption_exact (bytes : List UInt8) :
    (∀ k ≤ (decode bytes).length, answer k bytes = (decode bytes)[k]?) ∧
    (∀ k, bytes.length ≤ k → answer k bytes = none) ∧
    ∀ j, answer j bytes = none →
      let rest := leftAfter j bytes
      Refusal rest (leftAfter (j + 1) bytes) ∧
      ((∀ k, j ≤ k → answer k bytes = none) ↔ ¬Resumes rest) ∧
      (rest = [] ∨ Truncated rest → ∀ k, j ≤ k → answer k bytes = none) ∧
      (∀ tag fields, rest = tag :: fields → tag < 1 ∨ 6 < tag → ∀ k, answer (j + 1 + k) bytes = answer k fields) ∧
      (∀ tag fields q, rest = tag :: fields → tag = 2 ∨ tag = 3 → fields[8]? = some q → 2 < q →
        ∀ k, answer (j + 1 + k) bytes = answer k (fields.drop 9)) := by
  refine ⟨(reads_read bytes).answer, fun k => answer_of_length_le, fun j hj => ?_⟩
  intro rest
  have hnext : leftAfter (j + 1) bytes = (Reader.event rest).2 := leftAfter_add j 1 bytes
  have hlater : ∀ k, answer (j + 1 + k) bytes = answer k (Reader.event rest).2 := fun k => by rw [answer_add, hnext]
  have hsilent : (∀ k, j ≤ k → answer k bytes = none) ↔ ¬Resumes rest := by
    rw [← exists_answer_iff, not_exists]
    constructor
    · exact fun h k hk => hk ((answer_add j k bytes).symm.trans (h (j + k) (Nat.le_add_right j k)))
    · intro h k hk
      obtain ⟨m, rfl⟩ := Nat.exists_eq_add_of_le hk
      exact (answer_add j m bytes).trans (Classical.not_not.1 (h m))
  refine ⟨hnext ▸ (answer_eq_none_iff.1 hj).refusal, hsilent, fun hshort k hk => ?_, fun tag fields hrest htag k => ?_,
    fun tag fields q hrest htag hq h k => ?_⟩
  · obtain rfl | hlt := Nat.eq_or_lt_of_le hk
    · exact hj
    · obtain ⟨m, rfl⟩ := Nat.exists_eq_add_of_le (Nat.succ_le_of_lt hlt)
      -- what is left then is too short for any record
      refine (hlater m).trans (answer_of_length_lt ?_ m)
      rcases hshort with hempty | hcut
      · rw [hempty]
        decide
      · exact Nat.lt_of_lt_of_le hcut.length_event (by decide)
  · rw [hlater, hrest, (Reader.untagged_spec htag fields).2]
  · rw [hlater, hrest, Reader.event_of_unphased htag hq h]

/-- A byte that is no tag, the beginning of a phase that there is not, a batch, and a batch that lacks its last byte: the
batch is found by the third call, and nothing by any after it. -/
theorem resumption_batch :
    let batch : Event := .batchScheduled 3 1 true
    let behind := batch.record ++ batch.record.take 13
    let bytes := 9 :: 2 :: (List.replicate 8 0 ++ 7 :: behind)
    answer 0 bytes = none ∧ decode bytes = [] ∧ answer 1 bytes = none ∧ answer 2 bytes = some batch ∧
    answer 3 bytes = none ∧ ∀ k, 3 ≤ k → answer k bytes = none := by
  intro batch behind bytes
  have hnone : answer 0 bytes = none := by decide +kernel
  have hcut : answer 3 bytes = none := by decide +kernel
  have hphase : leftAfter 1 bytes = 2 :: (List.replicate 8 0 ++ 7 :: behind) := by decide +kernel
  have hlast : leftAfter 3 bytes = 4 :: (batch.record.take 13).drop 1 := by decide +kernel
  have htruncated : Truncated (leftAfter 3 bytes) := by
    rw [hlast]
    exact .intro (by decide +kernel) (by decide +kernel)
  obtain ⟨-, -, hcalls⟩ := resumption_exact bytes
  obtain ⟨-, -, -, huntagged, -⟩ := hcalls 0 hnone
  have hsecond : answer 1 bytes = none := (huntagged 9 _ rfl (by decide) 0).trans (by decide +kernel)
  obtain ⟨-, -, -, -, hunphased⟩ := hcalls 1 hsecond
  have hthird : answer 2 bytes = some batch :=
    (hunphased 2 _ 7 hphase (.inl rfl) rfl (by decide) 0).trans (by decide +kernel)
  obtain ⟨-, -, hshort, -, -⟩ := hcalls 3 hcut
  exact ⟨hnone, by decide +kernel, hsecond, hthird, hcut, hshort (.inr htruncated)⟩

end SceneAnimation.Trace
