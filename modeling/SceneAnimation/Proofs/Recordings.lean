import SceneAnimation.Trace.Recording
import Mathlib.Algebra.Group.Nat.Defs
/-!
# Recordings: what was recorded is read back

A field is read back as it was written, whatever follows it, and nothing else is read as this field; a truth value alone
has more than one spelling.  So the record of an event is read back in any context, and a beginning of it is not read at
all.  A recording that is cut anywhere gives all events that are in it as a whole (`recording_read`).
-/
namespace SceneAnimation.Trace

/-! ## Numbers as bytes -/

@[simp] theorem length_littleEndian : ∀ width n : Nat, (littleEndian width n).length = width
  | 0, _ => rfl
  | width + 1, n => congrArg (· + 1) (length_littleEndian width (n / 256))

theorem ofLittleEndian_lt : ∀ bytes : List UInt8, ofLittleEndian bytes < 256 ^ bytes.length
  | [] => Nat.one_pos
  | b :: rest => by
    have hb : b.toNat < 256 := b.toNat_lt
    have hrest := ofLittleEndian_lt rest
    rw [ofLittleEndian, List.length_cons, Nat.pow_succ]
    omega

theorem ofLittleEndian_littleEndian : ∀ {width n : Nat}, n < 256 ^ width → ofLittleEndian (littleEndian width n) = n
  | 0, n, h => (Nat.lt_one_iff.1 h).symm
  | width + 1, n, h => by
    have hbyte : (UInt8.ofNat (n % 256)).toNat = n % 256 := by rw [UInt8.toNat_ofNat']; omega
    have hrest : n / 256 < 256 ^ width := by
      rw [Nat.pow_succ] at h
      exact Nat.div_lt_of_lt_mul (Nat.mul_comm .. ▸ h)
    rw [littleEndian, ofLittleEndian, hbyte, ofLittleEndian_littleEndian hrest]
    exact Nat.mod_add_div n 256

theorem littleEndian_ofLittleEndian : ∀ bytes : List UInt8, littleEndian bytes.length (ofLittleEndian bytes) = bytes
  | [] => rfl
  | b :: rest => by
    have hb : b.toNat < 256 := b.toNat_lt
    have hlow : (b.toNat + 256 * ofLittleEndian rest) % 256 = b.toNat := by omega
    have hhigh : (b.toNat + 256 * ofLittleEndian rest) / 256 = ofLittleEndian rest := by omega
    rw [List.length_cons, littleEndian, ofLittleEndian, hlow, hhigh, littleEndian_ofLittleEndian rest, UInt8.ofNat_toNat]

/-! ## Fields -/

namespace Reader

variable {α β : Type} {bytes rest : List UInt8}

theorem pure_eq_some {a b : α} : pure a bytes = (some b, rest) ↔ a = b ∧ bytes = rest := by
  rw [pure, Prod.mk.injEq, Option.some.injEq]

theorem andThen_eq_some {r : Reader α} {f : α → Reader β} {b : β} :
    andThen r f bytes = (some b, rest) ↔ ∃ a mid, r bytes = (some a, mid) ∧ f a mid = (some b, rest) := by
  rw [andThen]
  rcases r bytes with ⟨_ | a, mid⟩
  · exact ⟨fun h => (nomatch h), fun ⟨_, _, h, _⟩ => (nomatch h)⟩
  · exact ⟨fun h => ⟨a, mid, rfl, h⟩, fun ⟨_, _, h, hf⟩ => by cases h; exact hf⟩

theorem number_eq_some {width n : Nat} :
    number width bytes = (some n, rest) ↔ n < 256 ^ width ∧ bytes = littleEndian width n ++ rest := by
  rw [number]
  constructor
  · intro h
    split at h
    · rename_i hw
      cases h
      have hlen : (bytes.take width).length = width := List.length_take_of_le hw
      have hlt := ofLittleEndian_lt (bytes.take width)
      have hback := littleEndian_ofLittleEndian (bytes.take width)
      rw [hlen] at hlt hback
      exact ⟨hlt, by rw [hback, List.take_append_drop]⟩
    · cases h
  · rintro ⟨hn, rfl⟩
    rw [if_pos (by simp), List.take_left' (length_littleEndian ..), List.drop_left' (length_littleEndian ..),
      ofLittleEndian_littleEndian hn]

theorem word64_eq_some {n : UInt64} : word64 bytes = (some n, rest) ↔ bytes = Trace.word64 n ++ rest := by
  simp only [word64, andThen_eq_some, number_eq_some, pure_eq_some]
  constructor
  · rintro ⟨k, mid, ⟨hk, rfl⟩, rfl, rfl⟩
    rw [Trace.word64, UInt64.toNat_ofNat_of_lt' hk]
  · rintro rfl
    exact ⟨n.toNat, rest, ⟨n.toNat_lt, rfl⟩, UInt64.ofNat_toNat, rfl⟩

theorem word32_eq_some {n : UInt32} : word32 bytes = (some n, rest) ↔ bytes = Trace.word32 n ++ rest := by
  simp only [word32, andThen_eq_some, number_eq_some, pure_eq_some]
  constructor
  · rintro ⟨k, mid, ⟨hk, rfl⟩, rfl, rfl⟩
    rw [Trace.word32, UInt32.toNat_ofNat_of_lt' hk]
  · rintro rfl
    exact ⟨n.toNat, rest, ⟨n.toNat_lt, rfl⟩, UInt32.ofNat_toNat, rfl⟩

theorem instant_eq_some {t : Instant} : instant bytes = (some t, rest) ↔ bytes = Trace.word64 t.nanos ++ rest := by
  simp only [instant, andThen_eq_some, word64_eq_some, pure_eq_some]
  exact ⟨fun ⟨_, _, h, ht, hr⟩ => ht ▸ hr ▸ h, fun h => ⟨_, _, h, rfl, rfl⟩⟩

theorem span_eq_some {d : Span} : span bytes = (some d, rest) ↔ bytes = Trace.word64 d.nanos ++ rest := by
  simp only [span, andThen_eq_some, word64_eq_some, pure_eq_some]
  exact ⟨fun ⟨_, _, h, ht, hr⟩ => ht ▸ hr ▸ h, fun h => ⟨_, _, h, rfl, rfl⟩⟩

/-- One byte is a number. -/
theorem byte_eq_some {n : Nat} :
    number 1 bytes = (some n, rest) ↔ ∃ x : UInt8, x.toNat = n ∧ bytes = x :: rest := by
  rw [number_eq_some]
  constructor
  · rintro ⟨hn, rfl⟩
    have hbyte : (UInt8.ofNat (n % 256)).toNat = n := by rw [UInt8.toNat_ofNat']; omega
    exact ⟨UInt8.ofNat (n % 256), hbyte, rfl⟩
  · rintro ⟨x, rfl, rfl⟩
    have hx : x.toNat < 256 := x.toNat_lt
    refine ⟨hx, ?_⟩
    rw [littleEndian, littleEndian, Nat.mod_eq_of_lt hx, UInt8.ofNat_toNat]
    rfl

theorem flag_eq_some {b : Bool} :
    flag bytes = (some b, rest) ↔ ∃ x : UInt8, decide (x ≠ 0) = b ∧ bytes = x :: rest := by
  simp only [flag, andThen_eq_some, byte_eq_some, pure_eq_some]
  have hzero : ∀ x : UInt8, decide (x.toNat ≠ 0) = decide (x ≠ 0) := fun x => by
    rw [decide_eq_decide, Ne, Ne, ← UInt8.toNat_inj]
    rfl
  constructor
  · rintro ⟨n, mid, ⟨x, rfl, rfl⟩, rfl, rfl⟩
    exact ⟨x, (hzero x).symm, rfl⟩
  · rintro ⟨x, rfl, rfl⟩
    exact ⟨x.toNat, rest, ⟨x, rfl, rfl⟩, hzero x, rfl⟩

theorem phase_eq_some {q : Phase} : phase bytes = (some q, rest) ↔ bytes = q.code :: rest := by
  simp only [phase, andThen_eq_some, byte_eq_some]
  constructor
  · rintro ⟨n, mid, ⟨x, hx, rfl⟩, h⟩
    have hcode : ∀ q : Phase, n = q.code.toNat → x = q.code := fun q hq => UInt8.toNat_inj.1 (hx.trans hq)
    match n, h with
    | 0, h => cases h; rw [hcode .startFrame rfl]
    | 1, h => cases h; rw [hcode .prepareTree rfl]
    | 2, h => cases h; rw [hcode .runAnimations rfl]
    | _ + 3, h => cases h
  · rintro rfl
    refine ⟨q.code.toNat, rest, ⟨q.code, rfl, rfl⟩, ?_⟩
    cases q <;> rfl

end Reader

/-! ## Records -/

/-- The truth value at the end of an event's record, if there is one. -/
def Event.flag? : Event → Option Bool
  | .batchScheduled _ _ accepted => some accepted
  | .frameSummary s => some s.animating
  | _ => none

/-- **A spelling of an event**: its record, but for the truth value at its end, which any byte may stand for that is zero
exactly if the value is false. -/
def Event.Spelled (e : Event) (bytes : List UInt8) : Prop :=
  match e.flag? with
  | none => bytes = e.record
  | some b => ∃ x : UInt8, decide (x ≠ 0) = b ∧ bytes = e.record.dropLast ++ [x]

/-- The number of bytes of a record with a given tag. -/
def recordSize (tag : UInt8) : Nat :=
  match tag.toNat with
  | 1 => 25
  | 2 | 3 => 18
  | 4 => 14
  | 5 => 17
  | 6 => 50
  | _ => 0

theorem Event.length_record (e : Event) : e.record.length = recordSize e.tag := by
  cases e <;> simp [record, body, word64, word32] <;> rfl

theorem Event.dropLast_batchScheduled (i : UInt64) (n : UInt32) (accepted : Bool) :
    (Event.batchScheduled i n accepted).record.dropLast = 4 :: (word64 i ++ word32 n) :=
  @List.dropLast_concat _ (4 :: (word64 i ++ word32 n)) _

theorem Event.dropLast_frameSummary (s : Summary) :
    (Event.frameSummary s).record.dropLast = 6 :: (word64 s.frameIndex ++ word64 s.frameTime.nanos ++
      word32 s.preparedNodes ++ word32 s.errors ++ word64 s.startTook.nanos ++ word64 s.prepareTook.nanos ++
      word64 s.animateTook.nanos) :=
  @List.dropLast_concat _ (6 :: _) _

theorem Event.record_of_flag {e : Event} {b : Bool} (h : e.flag? = some b) :
    e.record = e.record.dropLast ++ [Trace.flag b] := by
  cases e with
  | batchScheduled i n accepted =>
    cases h
    rw [dropLast_batchScheduled]
    rfl
  | frameSummary s =>
    cases h
    rw [dropLast_frameSummary]
    rfl
  | _ => cases h

theorem Event.spelled_record (e : Event) : e.Spelled e.record := by
  unfold Spelled
  split
  · rfl
  · rename_i b hb
    refine ⟨Trace.flag b, by cases b <;> rfl, record_of_flag hb⟩

theorem Event.Spelled.length {e : Event} {bytes : List UInt8} (h : e.Spelled bytes) :
    bytes.length = e.record.length := by
  unfold Spelled at h
  split at h
  · rw [h]
  · rename_i b hb
    obtain ⟨x, -, rfl⟩ := h
    rw [record_of_flag hb]
    simp

/-- A spelling begins with the tag of the event. -/
theorem Event.Spelled.head {e : Event} {bytes : List UInt8} (h : e.Spelled bytes) :
    ∃ fields, bytes = e.tag :: fields := by
  cases e with
  | batchScheduled i n accepted =>
    obtain ⟨x, -, h⟩ := h
    rw [dropLast_batchScheduled] at h
    exact ⟨_, h⟩
  | frameSummary s =>
    obtain ⟨x, -, h⟩ := h
    rw [dropLast_frameSummary] at h
    exact ⟨_, h⟩
  | _ => exact ⟨_, h⟩

namespace Reader

variable {bytes rest : List UInt8} {e : Event}

/-- The fields of an event, after its tag. -/
theorem body_spelled {n : Nat} (h : body n bytes = (some e, rest)) :
    n = e.tag.toNat ∧ ∃ fields, e.Spelled (e.tag :: fields) ∧ bytes = fields ++ rest := by
  unfold body at h
  split at h <;> simp only [andThen_eq_some, word64_eq_some, word32_eq_some, instant_eq_some, span_eq_some,
    flag_eq_some, phase_eq_some, pure_eq_some] at h
  · obtain ⟨i, _, rfl, t, _, rfl, attached, _, rfl, active, _, rfl, rfl, rfl⟩ := h
    exact ⟨rfl, _, Event.spelled_record (.frameStart i t attached active), by simp [Event.body]⟩
  · obtain ⟨i, _, rfl, q, _, rfl, t, _, rfl, rfl, rfl⟩ := h
    exact ⟨rfl, _, Event.spelled_record (.phaseBegin i q t), by simp [Event.body]⟩
  · obtain ⟨i, _, rfl, q, _, rfl, t, _, rfl, rfl, rfl⟩ := h
    exact ⟨rfl, _, Event.spelled_record (.phaseEnd i q t), by simp [Event.body]⟩
  · obtain ⟨i, _, rfl, n, _, rfl, accepted, _, ⟨x, hx, rfl⟩, rfl, rfl⟩ := h
    refine ⟨rfl, Trace.word64 i ++ Trace.word32 n ++ [x], ⟨x, hx, ?_⟩, by simp⟩
    rw [Event.dropLast_batchScheduled]
    rfl
  · obtain ⟨i, _, rfl, errors, _, rfl, skipped, _, rfl, rfl, rfl⟩ := h
    exact ⟨rfl, _, Event.spelled_record (.errorsReported i errors skipped), by simp [Event.body]⟩
  · obtain ⟨i, _, rfl, t, _, rfl, prepared, _, rfl, errors, _, rfl, s, _, rfl, p, _, rfl, a, _, rfl, animating, _,
      ⟨x, hx, rfl⟩, rfl, rfl⟩ := h
    refine ⟨rfl, Trace.word64 i ++ Trace.word64 t.nanos ++ Trace.word32 prepared ++ Trace.word32 errors ++
      Trace.word64 s.nanos ++ Trace.word64 p.nanos ++ Trace.word64 a.nanos ++ [x], ⟨x, hx, ?_⟩, by simp⟩
    rw [Event.dropLast_frameSummary]
    rfl
  · cases h

theorem body_of_spelled {fields : List UInt8} (h : e.Spelled (e.tag :: fields)) :
    body e.tag.toNat (fields ++ rest) = (some e, rest) := by
  cases e with
  | frameStart i t attached active =>
    cases (List.cons.inj h).2
    show body 1 _ = _
    simp only [body, andThen_eq_some, word64_eq_some, word32_eq_some, instant_eq_some, pure_eq_some, Event.body,
      List.append_assoc]
    exact ⟨i, _, rfl, t, _, rfl, attached, _, rfl, active, _, rfl, rfl, rfl⟩
  | phaseBegin i q t =>
    cases (List.cons.inj h).2
    show body 2 _ = _
    simp only [body, andThen_eq_some, word64_eq_some, instant_eq_some, phase_eq_some, pure_eq_some, Event.body,
      List.append_assoc]
    exact ⟨i, _, rfl, q, _, rfl, t, _, rfl, rfl, rfl⟩
  | phaseEnd i q t =>
    cases (List.cons.inj h).2
    show body 3 _ = _
    simp only [body, andThen_eq_some, word64_eq_some, instant_eq_some, phase_eq_some, pure_eq_some, Event.body,
      List.append_assoc]
    exact ⟨i, _, rfl, q, _, rfl, t, _, rfl, rfl, rfl⟩
  | batchScheduled i n accepted =>
    obtain ⟨x, hx, h⟩ := h
    rw [Event.dropLast_batchScheduled] at h
    cases (List.cons.inj h).2
    show body 4 _ = _
    simp only [body, andThen_eq_some, word64_eq_some, word32_eq_some, flag_eq_some, pure_eq_some]
    exact ⟨i, _, rfl, n, _, rfl, accepted, _, ⟨x, hx, rfl⟩, rfl, rfl⟩
  | errorsReported i errors skipped =>
    cases (List.cons.inj h).2
    show body 5 _ = _
    simp only [body, andThen_eq_some, word64_eq_some, word32_eq_some, pure_eq_some, Event.body, List.append_assoc]
    exact ⟨i, _, rfl, errors, _, rfl, skipped, _, rfl, rfl, rfl⟩
  | frameSummary s =>
    obtain ⟨x, hx, h⟩ := h
    rw [Event.dropLast_frameSummary] at h
    cases (List.cons.inj h).2
    show body 6 _ = _
    simp only [body, andThen_eq_some, word64_eq_some, word32_eq_some, instant_eq_some, span_eq_some, flag_eq_some,
      pure_eq_some, List.append_assoc]
    exact ⟨s.frameIndex, _, rfl, s.frameTime, _, rfl, s.preparedNodes, _, rfl, s.errors, _, rfl, s.startTook, _, rfl,
      s.prepareTook, _, rfl, s.animateTook, _, rfl, s.animating, _, ⟨x, hx, rfl⟩, rfl, rfl⟩

/-- **An event is read from its spellings**, whatever follows, and from nothing else. -/
theorem event_eq_some : event bytes = (some e, rest) ↔ ∃ spelling, e.Spelled spelling ∧ bytes = spelling ++ rest := by
  simp only [event, andThen_eq_some, byte_eq_some]
  constructor
  · rintro ⟨n, mid, ⟨x, rfl, rfl⟩, h⟩
    obtain ⟨htag, fields, hs, rfl⟩ := body_spelled h
    rw [UInt8.toNat_inj.1 htag]
    exact ⟨e.tag :: fields, hs, rfl⟩
  · rintro ⟨spelling, hs, rfl⟩
    obtain ⟨fields, rfl⟩ := hs.head
    exact ⟨e.tag.toNat, fields ++ rest, ⟨e.tag, rfl, rfl⟩, body_of_spelled hs⟩

end Reader

/-! ## Recordings -/

/-- **What is read event by event**: all events up to the first that cannot be read, and what is left then. -/
inductive Reads : List UInt8 → List Event → List UInt8 → Prop where
  | stop {bytes rest} (h : Reader.event bytes = (none, rest)) : Reads bytes [] rest
  | next {bytes mid rest e es} (h : Reader.event bytes = (some e, mid)) (hs : Reads mid es rest) :
    Reads bytes (e :: es) rest

theorem Reads.unique {bytes rest rest' : List UInt8} {es es' : List Event} (h : Reads bytes es rest)
    (h' : Reads bytes es' rest') : es = es' ∧ rest = rest' := by
  induction h generalizing es' rest' with
  | stop h =>
    cases h' with
    | stop h' => exact ⟨rfl, (Prod.mk.inj (h.symm.trans h')).2⟩
    | next h' _ => cases h.symm.trans h'
  | next h _ ih =>
    cases h' with
    | stop h' => cases h.symm.trans h'
    | next h' hs' =>
      obtain ⟨he, rfl⟩ := Prod.mk.inj (h.symm.trans h')
      obtain ⟨rfl, rfl⟩ := ih hs'
      exact ⟨by rw [Option.some.inj he], rfl⟩

/-- An event takes a byte at least. -/
theorem Reader.length_lt_of_event {bytes rest : List UInt8} {e : Event} (h : event bytes = (some e, rest)) :
    rest.length < bytes.length := by
  obtain ⟨spelling, hs, rfl⟩ := event_eq_some.1 h
  obtain ⟨fields, rfl⟩ := hs.head
  simp only [List.cons_append, List.length_cons, List.length_append]
  omega

theorem reads_readUpTo : ∀ (n : Nat) (bytes : List UInt8), bytes.length < n →
    Reads bytes (readUpTo n bytes).1 (readUpTo n bytes).2
  | 0, _, h => absurd h (Nat.not_lt_zero _)
  | n + 1, bytes, h => by
    rw [readUpTo]
    rcases he : Reader.event bytes with ⟨_ | e, rest⟩
    · exact .stop he
    · have hlt := Reader.length_lt_of_event he
      exact .next he (reads_readUpTo n rest (by omega))

/-- **Reading comes to an end**, at the first event that cannot be read. -/
theorem reads_read (bytes : List UInt8) : Reads bytes (read bytes).1 (read bytes).2 :=
  reads_readUpTo _ _ (Nat.lt_succ_self _)

theorem decode_of_reads {bytes rest : List UInt8} {es : List Event} (h : Reads bytes es rest) : decode bytes = es :=
  ((reads_read bytes).unique h).1

theorem decode_spelled {e : Event} {bytes : List UInt8} (h : e.Spelled bytes) (t : List UInt8) :
    decode (bytes ++ t) = e :: decode t :=
  decode_of_reads (.next (Reader.event_eq_some.2 ⟨bytes, h, rfl⟩) (reads_read t))

theorem record_cons (e : Event) (es : List Event) : record (e :: es) = e.record ++ record es := List.flatMap_cons

/-- **What was recorded is read back first**, whatever follows it. -/
theorem decode_record_append (es : List Event) (t : List UInt8) : decode (record es ++ t) = es ++ decode t := by
  induction es with
  | nil => rfl
  | cons e es ih => rw [record_cons, List.append_assoc, decode_spelled e.spelled_record, ih, List.cons_append]

theorem decode_nil : decode [] = [] := rfl

theorem decode_record (es : List Event) : decode (record es) = es := by
  have h := decode_record_append es []
  rwa [decode_nil, List.append_nil, List.append_nil] at h

/-- **A record is not read before its end.** -/
theorem decode_of_cut {e : Event} {t : List UInt8} (h : t <+: e.record) (hne : t ≠ e.record) : decode t = [] := by
  rcases he : Reader.event t with ⟨_ | e', rest⟩
  · exact decode_of_reads (.stop he)
  · -- what is read has the tag of `e`, so it is as long as the record of `e`, of which `t` is a part
    obtain ⟨spelling, hs, rfl⟩ := Reader.event_eq_some.1 he
    obtain ⟨fields, rfl⟩ := hs.head
    have htag : e'.tag = e.tag := by
      obtain ⟨more, hmore⟩ := h
      exact (List.cons.inj hmore).1
    have hlen : (e'.tag :: fields).length = e.record.length := by
      rw [hs.length, Event.length_record, htag, Event.length_record]
    exact absurd (h.eq_of_length_le (by rw [List.length_append]; omega)) hne

/-- **The longest beginning of `es` whose records are complete within `n` bytes.** -/
structure LongestWithin (n : Nat) (es kept : List Event) : Prop where
  beginning : kept <+: es
  complete : (record kept).length ≤ n
  longest : ∀ fs, fs <+: es → (record fs).length ≤ n → fs <+: kept

theorem LongestWithin.nil (n : Nat) : LongestWithin n [] [] := ⟨List.prefix_rfl, Nat.zero_le n, fun _ h _ => h⟩

theorem LongestWithin.short {n : Nat} {e : Event} (h : n < e.record.length) (es : List Event) :
    LongestWithin n (e :: es) [] where
  beginning := List.nil_prefix
  complete := Nat.zero_le n
  longest fs hfs hn := by
    cases fs with
    | nil => exact List.prefix_rfl
    | cons f fs =>
      obtain ⟨rfl, -⟩ := List.cons_prefix_cons.1 hfs
      rw [record_cons, List.length_append] at hn
      omega

theorem LongestWithin.cons {n : Nat} {e : Event} {es kept : List Event} (h : e.record.length ≤ n)
    (hk : LongestWithin (n - e.record.length) es kept) : LongestWithin n (e :: es) (e :: kept) where
  beginning := List.cons_prefix_cons.2 ⟨rfl, hk.beginning⟩
  complete := by
    have := hk.complete
    rw [record_cons, List.length_append]
    omega
  longest fs hfs hn := by
    cases fs with
    | nil => exact List.nil_prefix
    | cons f fs =>
      obtain ⟨rfl, hrest⟩ := List.cons_prefix_cons.1 hfs
      rw [record_cons, List.length_append] at hn
      exact List.cons_prefix_cons.2 ⟨rfl, hk.longest fs hrest (by omega)⟩

/-- **A recording that is cut** keeps the events whose records are complete. -/
theorem decode_take : ∀ (es : List Event) (n : Nat), LongestWithin n es (decode ((record es).take n))
  | [], n => by
    rw [show record [] = [] from rfl, List.take_nil]
    exact .nil n
  | e :: es, n => by
    rw [record_cons, List.take_append]
    by_cases h : n < e.record.length
    · rw [Nat.sub_eq_zero_of_le (Nat.le_of_lt h), List.take_zero, List.append_nil,
        decode_of_cut (List.take_prefix ..) fun he => ?_]
      · exact .short h es
      · have hlen := congrArg List.length he
        rw [List.length_take] at hlen
        omega
    · have hle : e.record.length ≤ n := Nat.le_of_not_lt h
      rw [List.take_of_length_le hle, decode_spelled e.spelled_record]
      exact .cons hle (decode_take es _)

/-- **Recordings are read back in any context.**  What was recorded is read back first, whatever bytes follow; of a
record that is cut short, nothing is read; and of a recording that is cut at any byte, exactly the events are read whose
records are complete. -/
theorem recording_read (es : List Event) (t : List UInt8) :
    decode (record es ++ t) = es ++ decode t ∧
    (∀ e : Event, t <+: e.record → t ≠ e.record → decode t = []) ∧
    ∀ n, LongestWithin n es (decode ((record es).take n)) :=
  ⟨decode_record_append es t, fun _ h hne => decode_of_cut h hne, decode_take es⟩

/-- The end of a phase and a batch, followed by a record that lacks its last byte; and the same, cut in the batch. -/
theorem recording_read_cut :
    let errors : Event := .errorsReported 3 2 2
    let es : List Event := [.phaseEnd 3 .prepareTree ⟨18446744073709551615⟩, .batchScheduled 3 1 false]
    let t := errors.record.take 16
    t <+: errors.record ∧ t ≠ errors.record ∧ decode (record es ++ t) = es ∧
    decode ((record es).take 31) = [.phaseEnd 3 .prepareTree ⟨18446744073709551615⟩] := by
  intro errors es t
  have hcut : t <+: errors.record := List.take_prefix ..
  have hne : t ≠ errors.record := by decide
  obtain ⟨hread, hnone, -⟩ := recording_read es t
  exact ⟨hcut, hne, by rw [hread, hnone errors hcut hne, List.append_nil], by decide⟩

end SceneAnimation.Trace
