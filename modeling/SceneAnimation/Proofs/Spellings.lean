import SceneAnimation.Proofs.Recordings
/-!
# Spellings: which bytes are read, and as what

Reading splits any bytes in two: spellings of events, one after the other, and bytes that begin no record (`Refused`).
No other split of this kind exists (`decode_eq_iff`).  So what is read and recorded anew is what was read, but for the
truth values, which are written as zero and one (`spelling_read`).
-/
namespace SceneAnimation.Trace

/-! ## What is refused -/

/-- **Bytes that begin no record**: there are none, or the first is no tag, or there are fewer of them than a record
with this tag has, or the byte that should name a phase names none. -/
inductive Refused : List UInt8 → Prop where
  | empty : Refused []
  | untagged {tag fields} (h : tag < 1 ∨ 6 < tag) : Refused (tag :: fields)
  | short {tag fields} (h : (tag :: fields).length < recordSize tag) : Refused (tag :: fields)
  | unphased {tag fields q} (htag : tag = 2 ∨ tag = 3) (hq : fields[8]? = some q) (h : 2 < q) :
    Refused (tag :: fields)

theorem Event.tag_bounds (e : Event) : ¬(e.tag < 1 ∨ 6 < e.tag) := by
  cases e <;> simp [tag]

/-- The byte for the phase stands behind the frame index. -/
theorem Event.Spelled.phase_le {e : Event} {fields rest : List UInt8} {q : UInt8} (h : e.Spelled (e.tag :: fields))
    (htag : e.tag = 2 ∨ e.tag = 3) (hq : (fields ++ rest)[8]? = some q) : q ≤ 2 := by
  have hcode : ∀ phase : Phase, phase.code ≤ 2 := fun phase => by cases phase <;> exact (by decide)
  have hstand : ∀ (i : UInt64) (phase : Phase) (more : List UInt8),
      (word64 i ++ ([phase.code] ++ more))[8]? = some phase.code := fun i phase more => by
    rw [List.getElem?_append_right (by simp [word64])]
    simp [word64]
  cases e with
  | phaseBegin i phase t | phaseEnd i phase t =>
    cases (List.cons.inj h).2
    rw [body, List.append_assoc, List.append_assoc, hstand] at hq
    exact Option.some.inj hq ▸ hcode phase
  | _ => exact absurd htag (by simp [tag])

theorem Refused.not_spelled {e : Event} {spelling rest : List UInt8} (h : Refused (spelling ++ rest)) :
    ¬e.Spelled spelling := by
  intro hs
  obtain ⟨fields, rfl⟩ := hs.head
  rw [List.cons_append] at h
  cases h with
  | untagged h => exact e.tag_bounds h
  | short h =>
    have hlen := hs.length
    rw [Event.length_record] at hlen
    rw [← List.cons_append, List.length_append, hlen] at h
    omega
  | unphased htag hq h => exact absurd (hs.phase_le htag hq) (UInt8.not_le.2 h)

namespace Reader

/-- A reader that takes `k` bytes wherever there are as many. -/
def Takes {α : Type} (r : Reader α) (k : Nat) : Prop :=
  ∀ bytes, k ≤ bytes.length → ∃ a, r bytes = (some a, bytes.drop k)

variable {α β : Type}

theorem takes_pure (a : α) : Takes (pure a) 0 := fun bytes _ => ⟨a, by rw [pure, List.drop_zero]⟩

theorem Takes.andThen {r : Reader α} {f : α → Reader β} {k l : Nat} (h : Takes r k) (hf : ∀ a, Takes (f a) l) :
    Takes (andThen r f) (k + l) := fun bytes hlen => by
  obtain ⟨a, ha⟩ := h bytes (by omega)
  obtain ⟨b, hb⟩ := hf a (bytes.drop k) (by rw [List.length_drop]; omega)
  exact ⟨b, by rw [Reader.andThen, ha]; simp only [hb, List.drop_drop]⟩

theorem takes_number (width : Nat) : Takes (number width) width := fun bytes h => ⟨_, by rw [number, if_pos h]⟩

theorem takes_word64 : Takes word64 8 := (takes_number 8).andThen fun n => takes_pure (UInt64.ofNat n)

theorem takes_word32 : Takes word32 4 := (takes_number 4).andThen fun n => takes_pure (UInt32.ofNat n)

theorem takes_instant : Takes instant 8 := takes_word64.andThen fun n => takes_pure (Instant.mk n)

theorem takes_span : Takes span 8 := takes_word64.andThen fun n => takes_pure (Span.mk n)

theorem takes_flag : Takes flag 1 := (takes_number 1).andThen fun n => takes_pure (decide (n ≠ 0))

/-- A byte of two at most names a phase. -/
theorem phase_of_le {q : UInt8} (h : q ≤ 2) (rest : List UInt8) :
    ∃ phase, Reader.phase (q :: rest) = (some phase, rest) := by
  have hcode : ∃ phase : Phase, q = phase.code := by
    obtain rfl | rfl | rfl : q = 0 ∨ q = 1 ∨ q = 2 := by
      simp only [UInt8.le_iff_toNat_le, ← UInt8.toNat_inj] at h ⊢
      exact (by omega : ∀ n : Nat, n ≤ 2 → n = 0 ∨ n = 1 ∨ n = 2) _ h
    · exact ⟨.startFrame, rfl⟩
    · exact ⟨.prepareTree, rfl⟩
    · exact ⟨.runAnimations, rfl⟩
  obtain ⟨phase, rfl⟩ := hcode
  exact ⟨phase, phase_eq_some.2 rfl⟩

/-- The fields of a phase event, where the byte for the phase names one. -/
theorem phased_of_le {f : UInt64 → Phase → Instant → Event} {fields : List UInt8} {q : UInt8}
    (hlen : 17 ≤ fields.length) (hq : fields[8]? = some q) (h : q ≤ 2) :
    ∃ e, andThen word64 (fun i => andThen phase fun phase => andThen instant fun t => pure (f i phase t)) fields =
      (some e, fields.drop 17) := by
  obtain ⟨i, hi⟩ := takes_word64 fields (by omega)
  obtain ⟨h8, rfl⟩ := List.getElem?_eq_some_iff.1 hq
  obtain ⟨phase, hphase⟩ := phase_of_le h (fields.drop 9)
  obtain ⟨t, ht⟩ := takes_instant (fields.drop 9) (by rw [List.length_drop]; omega)
  rw [List.drop_drop] at ht
  refine ⟨f i phase t, andThen_eq_some.2 ⟨i, _, hi, andThen_eq_some.2 ⟨phase, fields.drop 9, ?_, ?_⟩⟩⟩
  · rw [List.drop_eq_getElem_cons h8]
    exact hphase
  · exact andThen_eq_some.2 ⟨t, _, ht, rfl⟩

theorem tag_cases {tag : UInt8} (h : ¬(tag < 1 ∨ 6 < tag)) :
    tag = 1 ∨ tag = 2 ∨ tag = 3 ∨ tag = 4 ∨ tag = 5 ∨ tag = 6 := by
  simp only [UInt8.lt_iff_toNat_lt, ← UInt8.toNat_inj] at h ⊢
  exact (by omega : ∀ n : Nat, ¬(n < 1 ∨ 6 < n) → n = 1 ∨ n = 2 ∨ n = 3 ∨ n = 4 ∨ n = 5 ∨ n = 6) _ h

/-- **What has a tag, all its bytes and, where it needs one, a phase is read.** -/
theorem event_of_not_refused {bytes : List UInt8} (h : ¬Refused bytes) :
    ∃ e, event bytes = (some e, bytes.drop (recordSize (bytes.headD 0))) := by
  cases bytes with
  | nil => exact absurd .empty h
  | cons tag fields =>
    have htag : ¬(tag < 1 ∨ 6 < tag) := fun ht => h (.untagged ht)
    have hlen : recordSize tag ≤ (tag :: fields).length := Nat.le_of_not_lt fun hl => h (.short hl)
    have hfields : recordSize tag - 1 ≤ fields.length := Nat.sub_le_of_le_add hlen
    have hphase : tag = 2 ∨ tag = 3 → ∀ q, fields[8]? = some q → q ≤ 2 := fun ht q hq =>
      UInt8.not_lt.1 fun hlt => h (.unphased ht hq hlt)
    -- past the tag, one case for each kind of record
    suffices hbody : ∃ e, body tag.toNat fields = (some e, (tag :: fields).drop (recordSize tag)) by
      obtain ⟨e, he⟩ := hbody
      exact ⟨e, andThen_eq_some.2 ⟨tag.toNat, fields, byte_eq_some.2 ⟨tag, rfl, rfl⟩, he⟩⟩
    have hphased : 17 ≤ fields.length → ∃ q, fields[8]? = some q := fun hl =>
      ⟨fields[8], List.getElem?_eq_getElem (by omega)⟩
    obtain rfl | rfl | rfl | rfl | rfl | rfl := tag_cases htag
    · exact (takes_word64.andThen fun i => takes_instant.andThen fun t => takes_word32.andThen fun attached =>
        takes_word32.andThen fun active => takes_pure (Event.frameStart i t attached active)) fields hfields
    · obtain ⟨q, hq⟩ := hphased hfields
      exact phased_of_le hfields hq (hphase (.inl rfl) q hq)
    · obtain ⟨q, hq⟩ := hphased hfields
      exact phased_of_le hfields hq (hphase (.inr rfl) q hq)
    · exact (takes_word64.andThen fun i => takes_word32.andThen fun n => takes_flag.andThen fun accepted =>
        takes_pure (Event.batchScheduled i n accepted)) fields hfields
    · exact (takes_word64.andThen fun i => takes_word32.andThen fun errors => takes_word32.andThen fun skipped =>
        takes_pure (Event.errorsReported i errors skipped)) fields hfields
    · exact (takes_word64.andThen fun i => takes_instant.andThen fun t => takes_word32.andThen fun prepared =>
        takes_word32.andThen fun errors => takes_span.andThen fun s => takes_span.andThen fun p =>
        takes_span.andThen fun a => takes_flag.andThen fun animating =>
        takes_pure (Event.frameSummary ⟨i, t, prepared, errors, s, p, a, animating⟩)) fields hfields

/-- **No event is read exactly from what is refused.** -/
theorem event_eq_none_iff {bytes : List UInt8} : (event bytes).1 = none ↔ Refused bytes := by
  constructor
  · intro h
    refine Classical.byContradiction fun hr => ?_
    obtain ⟨e, he⟩ := event_of_not_refused hr
    rw [he] at h
    cases h
  · intro h
    rcases he : event bytes with ⟨_ | e, rest⟩
    · rfl
    · obtain ⟨spelling, hs, rfl⟩ := event_eq_some.1 he
      exact absurd hs h.not_spelled

/-- A reader that leaves a part of the end of what it gets, whether it fails or not. -/
def Leaves {α : Type} (r : Reader α) : Prop := ∀ bytes, (r bytes).2 <:+ bytes

theorem leaves_pure (a : α) : Leaves (pure a) := fun _ => List.suffix_rfl

theorem Leaves.andThen {r : Reader α} {f : α → Reader β} (h : Leaves r) (hf : ∀ a, Leaves (f a)) :
    Leaves (andThen r f) := fun bytes => by
  have hleft := h bytes
  rw [Reader.andThen]
  rcases hr : r bytes with ⟨_ | a, rest⟩ <;> rw [hr] at hleft
  · exact hleft
  · exact (hf a rest).trans hleft

theorem leaves_number (width : Nat) : Leaves (number width) := fun bytes => by
  rw [number]
  split
  · exact List.drop_suffix ..
  · exact List.suffix_rfl

theorem leaves_word64 : Leaves word64 := (leaves_number 8).andThen fun _ => leaves_pure _

theorem leaves_word32 : Leaves word32 := (leaves_number 4).andThen fun _ => leaves_pure _

theorem leaves_instant : Leaves instant := leaves_word64.andThen fun _ => leaves_pure _

theorem leaves_span : Leaves span := leaves_word64.andThen fun _ => leaves_pure _

theorem leaves_flag : Leaves flag := (leaves_number 1).andThen fun _ => leaves_pure _

theorem leaves_phase : Leaves phase := (leaves_number 1).andThen fun n => by
  split
  · exact leaves_pure _
  · exact leaves_pure _
  · exact leaves_pure _
  · exact fun _ => List.suffix_rfl

theorem leaves_body (n : Nat) : Leaves (body n) := by
  unfold body
  split
  · exact leaves_word64.andThen fun _ => leaves_instant.andThen fun _ => leaves_word32.andThen fun _ =>
      leaves_word32.andThen fun _ => leaves_pure _
  · exact leaves_word64.andThen fun _ => leaves_phase.andThen fun _ => leaves_instant.andThen fun _ => leaves_pure _
  · exact leaves_word64.andThen fun _ => leaves_phase.andThen fun _ => leaves_instant.andThen fun _ => leaves_pure _
  · exact leaves_word64.andThen fun _ => leaves_word32.andThen fun _ => leaves_flag.andThen fun _ => leaves_pure _
  · exact leaves_word64.andThen fun _ => leaves_word32.andThen fun _ => leaves_word32.andThen fun _ => leaves_pure _
  · exact leaves_word64.andThen fun _ => leaves_instant.andThen fun _ => leaves_word32.andThen fun _ =>
      leaves_word32.andThen fun _ => leaves_span.andThen fun _ => leaves_span.andThen fun _ =>
      leaves_span.andThen fun _ => leaves_flag.andThen fun _ => leaves_pure _
  · exact fun _ => List.suffix_rfl

theorem leaves_event : Leaves event := (leaves_number 1).andThen leaves_body

end Reader

/-! ## Spellings of many events -/

/-- The spellings of some events, one after the other. -/
inductive Spells : List Event → List UInt8 → Prop where
  | nil : Spells [] []
  | cons {e es spelling more} (h : Event.Spelled e spelling) (hs : Spells es more) : Spells (e :: es) (spelling ++ more)

theorem spells_record : ∀ es : List Event, Spells es (record es)
  | [] => .nil
  | e :: es => record_cons e es ▸ .cons e.spelled_record (spells_record es)

theorem Spells.length {es : List Event} {bytes : List UInt8} (h : Spells es bytes) :
    bytes.length = (record es).length := by
  induction h with
  | nil => rfl
  | cons h _ ih => rw [record_cons, List.length_append, List.length_append, h.length, ih]

/-- Spelled events are read, and what follows is what is read then. -/
theorem Spells.reads {es fs : List Event} {bytes tail left : List UInt8} (h : Spells es bytes)
    (ht : Reads tail fs left) : Reads (bytes ++ tail) (es ++ fs) left := by
  induction h with
  | nil => exact ht
  | cons h _ ih => exact .next (Reader.event_eq_some.2 ⟨_, h, List.append_assoc ..⟩) ih

/-- What is read is spelled, and the reading ends in bytes that begin no record. -/
theorem Reads.spells {es : List Event} {bytes left : List UInt8} (h : Reads bytes es left) :
    ∃ spelt tail, bytes = spelt ++ tail ∧ Spells es spelt ∧ Refused tail ∧ left <:+ tail := by
  induction h with
  | @stop bytes rest h =>
    have hleft := Reader.leaves_event bytes
    rw [h] at hleft
    exact ⟨[], bytes, rfl, .nil, Reader.event_eq_none_iff.1 (by rw [h]), hleft⟩
  | next h _ ih =>
    obtain ⟨spelling, hs, rfl⟩ := Reader.event_eq_some.1 h
    obtain ⟨more, tail, rfl, hmore, htail, hleft⟩ := ih
    exact ⟨spelling ++ more, tail, (List.append_assoc ..).symm, .cons hs hmore, htail, hleft⟩

/-- **What is read from bytes** is what they spell, up to bytes that begin no record. -/
theorem decode_eq_iff {es : List Event} {bytes : List UInt8} :
    decode bytes = es ↔ ∃ spelt tail, bytes = spelt ++ tail ∧ Spells es spelt ∧ Refused tail := by
  constructor
  · rintro rfl
    obtain ⟨spelt, tail, h, hs, ht, -⟩ := (reads_read bytes).spells
    exact ⟨spelt, tail, h, hs, ht⟩
  · rintro ⟨spelt, tail, rfl, hs, ht⟩
    have hstop : Reads tail [] (Reader.event tail).2 := .stop (Prod.ext (Reader.event_eq_none_iff.2 ht) rfl)
    have h := decode_of_reads (hs.reads hstop)
    rwa [List.append_nil] at h

/-! ## Where a spelling and the record differ -/

/-- **The positions of the truth values** in the recording of some events: each is the last of its event's record. -/
def FlagAt (es : List Event) (i : Nat) : Prop :=
  ∃ before e after, es = before ++ e :: after ∧ e.flag?.isSome ∧ i + 1 = (record (before ++ [e])).length

theorem flagAt_cons {e : Event} {es : List Event} {i : Nat} : FlagAt (e :: es) i ↔
    e.flag?.isSome ∧ i + 1 = e.record.length ∨ e.record.length ≤ i ∧ FlagAt es (i - e.record.length) := by
  constructor
  · rintro ⟨before, f, after, h, hf, hi⟩
    cases before with
    | nil =>
      cases h
      exact .inl ⟨hf, by rwa [List.nil_append, record_cons, List.length_append] at hi⟩
    | cons e' before =>
      cases h
      rw [List.cons_append, record_cons, List.length_append] at hi
      have hpos : 0 < (record (before ++ [f])).length := by
        rw [record, List.flatMap_append, List.length_append]
        exact Nat.add_pos_right _ (Nat.succ_pos _)
      exact .inr ⟨by omega, before, f, after, rfl, hf, by omega⟩
  · rintro (⟨hf, hi⟩ | ⟨hle, before, f, after, rfl, hf, hi⟩)
    · exact ⟨[], e, es, rfl, hf, by rw [hi, List.nil_append, record_cons, List.length_append]; rfl⟩
    · exact ⟨e :: before, f, after, rfl, hf, by rw [List.cons_append, record_cons, List.length_append]; omega⟩

/-- **Two bytes agree**, the second of them written for the first: a truth value is written as one for any byte but
zero, and any other byte as it is. -/
def Agree (truth : Prop) (read written : Option UInt8) : Prop :=
  (¬truth → written = read) ∧ (truth → ∃ x, read = some x ∧ written = some (flag (decide (x ≠ 0))))

theorem Event.Spelled.agree {e : Event} {spelling : List UInt8} (h : e.Spelled spelling) {i : Nat}
    (hi : i < e.record.length) :
    Agree (e.flag?.isSome ∧ i + 1 = e.record.length) spelling[i]? e.record[i]? := by
  have hlen := h.length
  unfold Spelled at h
  split at h
  · rename_i hb
    rw [hb, h]
    exact ⟨fun _ => rfl, fun ht => absurd ht.1 (by simp)⟩
  · rename_i b hb
    obtain ⟨x, rfl, rfl⟩ := h
    have hrecord := record_of_flag hb
    rw [List.length_append, List.length_singleton] at hlen
    constructor
    · intro hn
      have hlt : i < e.record.dropLast.length := by
        have : i + 1 ≠ e.record.length := fun he => hn ⟨by rw [hb]; rfl, he⟩
        omega
      rw [hrecord, List.dropLast_concat, List.getElem?_append_left hlt, List.getElem?_append_left hlt]
    · rintro ⟨-, he⟩
      obtain rfl : i = e.record.dropLast.length := by omega
      refine ⟨x, List.getElem?_concat_length, ?_⟩
      conv => lhs; rw [hrecord]
      rw [List.dropLast_concat]
      exact List.getElem?_concat_length

theorem Spells.agree {es : List Event} {spelt : List UInt8} (h : Spells es spelt) :
    ∀ i < (record es).length, Agree (FlagAt es i) spelt[i]? (record es)[i]? := by
  induction h with
  | nil => exact fun i hi => absurd hi (Nat.not_lt_zero i)
  | @cons e es spelling more h hs ih =>
    intro i hi
    rw [record_cons, List.length_append] at hi
    rw [record_cons, flagAt_cons]
    -- both have the same length up to here, so `i` is in the first record or behind it on either side
    by_cases hlt : i < e.record.length
    · rw [List.getElem?_append_left (h.length ▸ hlt), List.getElem?_append_left hlt,
        or_iff_left fun hr => Nat.not_le_of_lt hlt hr.1]
      exact h.agree hlt
    · have hle : e.record.length ≤ i := Nat.le_of_not_lt hlt
      rw [List.getElem?_append_right (h.length ▸ hle), List.getElem?_append_right hle, h.length,
        or_iff_right fun hl => by omega, and_iff_right hle]
      exact ih _ (by omega)

/-- **Exactly the records are read.**  Of any bytes, the events that are read, recorded anew, give as many bytes as were
read for them and the same bytes, but for the truth values, for which any byte but zero was read as true.  No record
begins with what follows, and there the reading ends, within the bytes.  The new recording is read as the same
events. -/
theorem spelling_read (bytes : List UInt8) :
    (record (decode bytes)).length ≤ bytes.length ∧
    (∀ i < (record (decode bytes)).length, Agree (FlagAt (decode bytes) i) bytes[i]? (record (decode bytes))[i]?) ∧
    Refused (bytes.drop (record (decode bytes)).length) ∧
    (∃ left, Reads bytes (decode bytes) left ∧ left <:+ bytes.drop (record (decode bytes)).length) ∧
    decode (record (decode bytes)) = decode bytes := by
  obtain ⟨spelt, tail, hbytes, hs, ht, hleft⟩ := (reads_read bytes).spells
  have hlen : spelt.length = (record (decode bytes)).length := hs.length
  have htail : bytes.drop (record (decode bytes)).length = tail := by
    rw [← hlen]
    exact (congrArg (·.drop spelt.length) hbytes).trans List.drop_left
  refine ⟨?_, fun i hi => ?_, htail ▸ ht, ⟨_, reads_read bytes, htail ▸ hleft⟩, decode_record _⟩
  · rw [← hlen, congrArg List.length hbytes, List.length_append]
    exact Nat.le_add_right ..
  · have hread : bytes[i]? = spelt[i]? :=
      (congrArg (·[i]?) hbytes).trans (List.getElem?_append_left (hlen ▸ hi))
    rw [hread]
    exact hs.agree i hi

/-- A batch whose truth value is spelled seven, and then all bytes of a phase event, but for a fourth phase. -/
theorem spelling_read_batch :
    let batch : Event := .batchScheduled 3 1 true
    let bytes := batch.record.dropLast ++ [7] ++ (2 :: word64 3 ++ [3] ++ word64 5)
    FlagAt (decode bytes) 13 ∧ bytes[13]? = some 7 ∧ (record (decode bytes))[13]? = some 1 ∧
    (decode bytes).length = 1 ∧ (bytes.drop 14).length = recordSize 2 ∧ Refused (bytes.drop 14) := by
  intro batch bytes
  have hes : decode bytes = [batch] := by decide
  have hflag : FlagAt (decode bytes) 13 := hes ▸ ⟨[], batch, [], rfl, rfl, by decide⟩
  have hlen : (record (decode bytes)).length = 14 := by rw [hes]; decide
  obtain ⟨-, hagree, hrefused, -, -⟩ := spelling_read bytes
  obtain ⟨x, hx, hone⟩ := (hagree 13 (by rw [hlen]; decide)).2 hflag
  have h7 : bytes[13]? = some 7 := by decide
  cases hx.symm.trans h7
  exact ⟨hflag, h7, hone, by rw [hes]; rfl, by decide, hlen ▸ hrefused⟩

end SceneAnimation.Trace
