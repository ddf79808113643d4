import SceneAnimation.Proofs.Doubles
/-!
# Numbers: texts that stand for numbers

A reader of the numbers that JSON has (`number?`): whole digits without a zero before them, digits behind a point, an
exponent.  What is written for a double that is finite is read as the number that was printed (`number?_textOfDouble`).
-/
namespace SceneAnimation.Numeral

/-! ## Reading -/

/-- What a text of digits says; it is not empty. -/
def digits? (w : List Char) : Option ℕ :=
  if w ≠ [] ∧ w.all Char.isDigit then some (Nat.ofDigitChars 10 w 0) else none

/-- The digits behind a point, and what stands behind them. -/
def fraction? : List Char → Option (List Char × List Char)
  | '.' :: w =>
    if w.takeWhile Char.isDigit = [] then none else some (w.takeWhile Char.isDigit, w.dropWhile Char.isDigit)
  | w => some ([], w)

/-- What stands behind the mark of an exponent. -/
def exponent? : List Char → Option ℤ
  | '-' :: w => (digits? w).map fun n : ℕ => -(n : ℤ)
  | '+' :: w => (digits? w).map fun n : ℕ => (n : ℤ)
  | w => (digits? w).map fun n : ℕ => (n : ℤ)

/-- What stands behind the digits of a number. -/
def scale? : List Char → Option ℤ
  | [] => some 0
  | c :: w => if c = 'e' ∨ c = 'E' then exponent? w else none

/-- The number without its sign. -/
def magnitude? (w : List Char) : Option ℚ :=
  let whole := w.takeWhile Char.isDigit
  if whole = [] ∨ whole.head? = some '0' ∧ whole ≠ ['0'] then none
  else do
    let (part, rest) ← fraction? (w.dropWhile Char.isDigit)
    let e ← scale? rest
    some (Nat.ofDigitChars 10 (whole ++ part) 0 * 10 ^ (e - part.length))

/-- The number that a text stands for. -/
def number? : List Char → Option ℚ
  | '-' :: w => (magnitude? w).map (-·)
  | w => magnitude? w

/-! ## Digits -/

/-- Digits that are all of them, where something else or nothing follows. -/
def AllDigits (w : List Char) : Prop := ∀ c ∈ w, c.isDigit = true

/-- What does not continue digits. -/
def EndsDigits (w : List Char) : Prop := ∀ c ∈ w.head?, c.isDigit = false

theorem endsDigits_nil : EndsDigits [] := by
  rintro c ⟨⟩

theorem endsDigits_cons {c : Char} (h : c.isDigit = false) (w : List Char) : EndsDigits (c :: w) := by
  rintro d ⟨⟩
  exact h

theorem span_digits {w r : List Char} (hw : AllDigits w) (hr : EndsDigits r) :
    (w ++ r).takeWhile Char.isDigit = w ∧ (w ++ r).dropWhile Char.isDigit = r := by
  have hrest : r.takeWhile Char.isDigit = [] ∧ r.dropWhile Char.isDigit = r := by
    cases r with
    | nil => exact ⟨rfl, rfl⟩
    | cons c r => simp [hr c rfl]
  rw [List.takeWhile_append_of_pos hw, List.dropWhile_append_of_pos hw, hrest.1, hrest.2, List.append_nil]
  exact ⟨rfl, rfl⟩

theorem digits?_eq {w : List Char} (hne : w ≠ []) (hw : AllDigits w) : digits? w = some (Nat.ofDigitChars 10 w 0) := by
  rw [digits?, if_pos ⟨hne, List.all_eq_true.2 hw⟩]

theorem allDigits_toDigits (n : ℕ) : AllDigits (Nat.toDigits 10 n) := fun _ hc =>
  Nat.isDigit_of_mem_toDigits (by decide) (by decide) hc

theorem allDigits_replicate (n : ℕ) : AllDigits (List.replicate n '0') := fun _ hc =>
  List.eq_of_mem_replicate hc ▸ rfl

theorem AllDigits.append {v w : List Char} (hv : AllDigits v) (hw : AllDigits w) : AllDigits (v ++ w) := fun c hc =>
  (List.mem_append.1 hc).elim (hv c) (hw c)

/-- **A number does not begin with zero**, unless it is zero. -/
theorem head?_toDigits {n : ℕ} (hn : n ≠ 0) : (Nat.toDigits 10 n).head? ≠ some '0' := by
  induction n using Nat.strongRecOn with
  | ind n ih =>
    rw [Nat.toDigits_eq_if (by decide)]
    split
    · rename_i hlt
      exact (by decide : ∀ n < 10, n ≠ 0 → [n.digitChar].head? ≠ some '0') n hlt hn
    · rename_i hge
      have hdiv : n / 10 ≠ 0 := by omega
      rw [List.head?_append_of_ne_nil _ Nat.toDigits_ne_nil]
      exact ih _ (Nat.div_lt_self (by omega) (by decide)) hdiv

theorem fraction?_point {part rest : List Char} (hne : part ≠ []) (hpart : AllDigits part) (hends : EndsDigits rest) :
    fraction? ('.' :: (part ++ rest)) = some (part, rest) := by
  obtain ⟨htake, hdrop⟩ := span_digits hpart hends
  rw [fraction?, htake, hdrop, if_neg hne]

theorem fraction?_none {rest : List Char} (h : '.' ∉ rest.head?) : fraction? rest = some ([], rest) := by
  unfold fraction?
  split
  · exact absurd rfl h
  · rfl

/-- **How a number is read**: whole digits, what is behind a point or none, and an exponent or none. -/
theorem magnitude?_eq {whole part tail rest : List Char} {e : ℤ} (hne : whole ≠ []) (hwhole : AllDigits whole)
    (hlead : whole.head? = some '0' → whole = ['0']) (hends : EndsDigits tail)
    (hfraction : fraction? tail = some (part, rest)) (hscale : scale? rest = some e) :
    magnitude? (whole ++ tail) = some (Nat.ofDigitChars 10 (whole ++ part) 0 * 10 ^ (e - part.length) : ℚ) := by
  obtain ⟨htake, hdrop⟩ := span_digits hwhole hends
  have hnone : ¬ (whole = [] ∨ whole.head? = some '0' ∧ whole ≠ ['0']) := by
    rintro (h | ⟨h, h'⟩)
    · exact hne h
    · exact h' (hlead h)
  simp only [magnitude?, htake, hdrop, if_neg hnone, hfraction, hscale, Option.bind_eq_bind, Option.bind_some]

theorem number?_of_magnitude? {w : List Char} {q : ℚ} (h : magnitude? w = some q) :
    number? w = some q ∧ number? ('-' :: w) = some (-q) := by
  constructor
  · unfold number?
    split
    · simp [magnitude?] at h
    · exact h
  · rw [number?, h, Option.map_some]

/-! ## What is written -/

theorem scale?_write {plus : List Char} (hplus : plus = [] ∨ plus = ['+']) (e : ℤ) :
    scale? ('e' :: ((if e < 0 then ['-'] else plus) ++ Nat.toDigits 10 e.natAbs)) = some e := by
  have hdigits : digits? (Nat.toDigits 10 e.natAbs) = some e.natAbs := by
    rw [digits?_eq Nat.toDigits_ne_nil (allDigits_toDigits _), Nat.ofDigitChars_ten_toDigits]
  have hnonneg : ¬ e < 0 → (digits? (Nat.toDigits 10 e.natAbs)).map (fun n : ℕ => (n : ℤ)) = some e := fun h => by
    rw [hdigits, Option.map_some, Int.natAbs_of_nonneg (not_lt.1 h)]
  rw [scale?, if_pos (.inl rfl)]
  split
  · rename_i hneg
    simp only [List.singleton_append, exponent?, hdigits]
    rw [Option.map_some, Int.ofNat_natAbs_of_nonpos hneg.le, neg_neg]
  · rename_i h
    rcases hplus with rfl | rfl
    · rw [List.nil_append]
      unfold exponent?
      split
      · rename_i hminus
        exact absurd (allDigits_toDigits e.natAbs '-' (hminus ▸ List.mem_cons_self)) (by decide)
      · rename_i hplus
        exact absurd (allDigits_toDigits e.natAbs '+' (hplus ▸ List.mem_cons_self)) (by decide)
      · exact hnonneg h
    · exact hnonneg h

section Written

variable {d : ℕ}

theorem toDigits_leads (hd : d ≠ 0) (w : List Char) {v : List Char} (hv : v ≠ [])
    (h : v ++ w = Nat.toDigits 10 d) (u : List Char) : (v ++ u).head? = some '0' → v ++ u = ['0'] := fun hzero => by
  rw [List.head?_append_of_ne_nil _ hv] at hzero
  refine absurd ?_ (head?_toDigits hd)
  rw [← h, List.head?_append_of_ne_nil _ hv, hzero]

theorem magnitude?_whole (hd : d ≠ 0) (k : ℕ) :
    magnitude? (Nat.toDigits 10 d ++ List.replicate k '0' ++ ['.', '0']) = some (d * 10 ^ k) := by
  have hfraction : fraction? ['.', '0'] = some (['0'], []) :=
    fraction?_point (by simp) (allDigits_replicate 1) endsDigits_nil
  have hread : Nat.ofDigitChars 10 (Nat.toDigits 10 d ++ List.replicate k '0' ++ ['0']) 0 = d * 10 ^ k * 10 := by
    rw [Nat.ofDigitChars_append, Nat.ofDigitChars_append, Nat.ofDigitChars_ten_toDigits,
      Nat.ofDigitChars_replicate_zero, ← List.replicate_one, Nat.ofDigitChars_replicate_zero]
    ring
  rw [magnitude?_eq (by simp [Nat.toDigits_ne_nil]) ((allDigits_toDigits d).append (allDigits_replicate k))
    (toDigits_leads hd [] Nat.toDigits_ne_nil (List.append_nil _) _) (endsDigits_cons rfl _) hfraction rfl, hread]
  simp

theorem magnitude?_among (hd : d ≠ 0) {i n : ℕ} (hi : 0 < i) (hn : 0 < n)
    (hlength : (Nat.toDigits 10 d).length = i + n) :
    magnitude? ((Nat.toDigits 10 d).take i ++ '.' :: (Nat.toDigits 10 d).drop i) =
      some ((d : ℚ) * 10 ^ (-(n : ℤ))) := by
  have hdigits := allDigits_toDigits d
  have hsplit := List.take_append_drop i (Nat.toDigits 10 d)
  have htake : (Nat.toDigits 10 d).take i ≠ [] := by
    rw [← List.length_pos_iff, List.length_take]
    omega
  have hdrop : (Nat.toDigits 10 d).drop i ≠ [] := by
    rw [← List.length_pos_iff, List.length_drop]
    omega
  have hfraction := fraction?_point hdrop (fun c hc => hdigits c (List.mem_of_mem_drop hc)) endsDigits_nil
  have hlead := toDigits_leads hd _ htake hsplit []
  rw [List.append_nil] at hfraction hlead
  rw [magnitude?_eq htake (fun c hc => hdigits c (List.mem_of_mem_take hc)) hlead (endsDigits_cons rfl _) hfraction
    rfl, hsplit, Nat.ofDigitChars_ten_toDigits, List.length_drop, hlength, Nat.add_sub_cancel_left, zero_sub]

theorem magnitude?_behind (d n : ℕ) :
    magnitude? ('0' :: '.' :: (List.replicate n '0' ++ Nat.toDigits 10 d)) =
      some ((d : ℚ) * 10 ^ (-((n + (Nat.toDigits 10 d).length : ℕ) : ℤ))) := by
  have hfraction := fraction?_point (by simp [Nat.toDigits_ne_nil])
    ((allDigits_replicate n).append (allDigits_toDigits d)) endsDigits_nil
  have hread : Nat.ofDigitChars 10 (List.replicate 1 '0' ++ (List.replicate n '0' ++ Nat.toDigits 10 d)) 0 = d := by
    rw [Nat.ofDigitChars_append, Nat.ofDigitChars_append, Nat.ofDigitChars_replicate_zero,
      Nat.ofDigitChars_replicate_zero, Nat.mul_zero, Nat.ofDigitChars_ten_toDigits]
  rw [List.append_nil] at hfraction
  rw [← List.singleton_append, ← List.replicate_one, magnitude?_eq (by simp) (allDigits_replicate 1) (fun _ => rfl)
    (endsDigits_cons rfl _) hfraction rfl, hread, List.length_append, List.length_replicate, zero_sub]

theorem magnitude?_scaled (hd : d ≠ 0) {plus : List Char} (hplus : plus = [] ∨ plus = ['+']) (e : ℤ) :
    magnitude? ((Nat.toDigits 10 d).take 1 ++
        ((if (Nat.toDigits 10 d).drop 1 = [] then [] else '.' :: (Nat.toDigits 10 d).drop 1) ++
          'e' :: ((if e < 0 then ['-'] else plus) ++ Nat.toDigits 10 e.natAbs))) =
      some ((d : ℚ) * 10 ^ (e - ((Nat.toDigits 10 d).length - 1 : ℕ))) := by
  have hdigits := allDigits_toDigits d
  have hsplit := List.take_append_drop 1 (Nat.toDigits 10 d)
  have htake : (Nat.toDigits 10 d).take 1 ≠ [] := by simp [Nat.toDigits_ne_nil]
  have hlead := toDigits_leads hd _ htake hsplit []
  rw [List.append_nil] at hlead
  have hone : AllDigits ((Nat.toDigits 10 d).take 1) := fun c hc => hdigits c (List.mem_of_mem_take hc)
  rw [← List.length_drop]
  split
  · rename_i hdrop
    rw [hdrop, List.append_nil] at hsplit
    rw [List.nil_append, magnitude?_eq htake hone hlead (endsDigits_cons rfl _) (fraction?_none (by simp))
      (scale?_write hplus e), List.append_nil, hsplit, Nat.ofDigitChars_ten_toDigits, hdrop]
  · rename_i hdrop
    rw [List.cons_append, magnitude?_eq htake hone hlead (endsDigits_cons rfl _)
      (fraction?_point hdrop (fun c hc => hdigits c (List.mem_of_mem_drop hc)) (endsDigits_cons rfl _))
      (scale?_write hplus e), hsplit, Nat.ofDigitChars_ten_toDigits]

end Written

/-- **What is written for digits is read as their number.** -/
theorem magnitude?_write {l : Layout} (hplus : l.plus.toList = [] ∨ l.plus.toList = ['+']) {x : Digits}
    (hx : x.d ≠ 0) : magnitude? (l.write x).toList = some x.value := by
  obtain ⟨hvalue, hd⟩ := x.value_trim 17 hx
  rw [← hvalue, Digits.value]
  simp only [Layout.write]
  generalize x.trim 17 = y at hd ⊢
  obtain ⟨d, k⟩ := y
  simp only at hd ⊢
  have hpos : 0 < (Nat.toDigits 10 d).length := List.length_pos_iff.2 Nat.toDigits_ne_nil
  have hlist : (toString d).toList = Nat.toDigits 10 d := Nat.toList_repr
  have hlength : (toString d).length = (Nat.toDigits 10 d).length := by
    rw [← String.length_toList, hlist]
  rw [hlength]
  split
  · split
    · rename_i hk
      lift k to ℕ using hk
      simpa [hlist] using magnitude?_whole hd k
    · rename_i hk
      split
      · rename_i hlead
        obtain ⟨n, rfl⟩ : ∃ n : ℕ, k = -(n : ℤ) := ⟨k.natAbs, by omega⟩
        have htake : ((Nat.toDigits 10 d).length - 1 + -(n : ℤ)).toNat + 1 = (Nat.toDigits 10 d).length - n := by omega
        have hamong := magnitude?_among hd (i := (Nat.toDigits 10 d).length - n) (n := n) (by omega) (by omega)
          (by omega)
        simpa [hlist, htake] using hamong
      · rename_i hlead
        have hbehind := magnitude?_behind d ((-((Nat.toDigits 10 d).length - 1 + k)).toNat - 1)
        have hexp : -(((-((Nat.toDigits 10 d).length - 1 + k)).toNat - 1 + (Nat.toDigits 10 d).length : ℕ) : ℤ) =
            k := by
          omega
        rw [hexp] at hbehind
        simpa [hlist] using hbehind
  · have hscaled := magnitude?_scaled hd hplus ((Nat.toDigits 10 d).length - 1 + k)
    have hexp : (Nat.toDigits 10 d).length - 1 + k - ((Nat.toDigits 10 d).length - 1 : ℕ) = k := by omega
    rw [hexp] at hscaled
    refine (congrArg magnitude? ?_).trans hscaled
    have hempty : ((toString d).drop 1).toString.isEmpty = true ↔ (Nat.toDigits 10 d).drop 1 = [] := by
      rw [String.isEmpty_iff, ← String.toList_eq_nil_iff, ← hlist, ← String.toList_copy_drop]
      rfl
    simp only [hempty]
    simp [apply_ite String.toList]

/-- **What is written for a double that is finite is read as the number that was printed for it.** -/
theorem number?_textOfDouble {l : Layout} (hplus : l.plus.toList = [] ∨ l.plus.toList = ['+']) {x : Float}
    (hx : x.isFinite = true) : number? (textOfDouble l x).toList = some (shown l.tie x) := by
  rw [isFinite_iff] at hx
  have hmagnitude : magnitude?
      (if size x = 0 then "0.0" else l.write ((ofPattern 52 1075 (size x)).shortest l.tie)).toList =
        some (magnitudeShown l.tie (size x)) := by
    unfold magnitudeShown
    split
    · simp [magnitude?, fraction?, scale?, Nat.ofDigitChars]
    · rename_i hzero
      obtain ⟨hd, -⟩ := (fits_ofPattern 52 1075 (by decide) (Nat.pos_of_ne_zero hzero)).shortest_spec l.tie
      exact magnitude?_write hplus hd
  obtain ⟨hpositive, hnegative⟩ := number?_of_magnitude? hmagnitude
  have htext : textOfDouble l x = (if 2 ^ 63 ≤ x.toBits.toNat then "-" else "") ++
      if size x = 0 then "0.0" else l.write ((ofPattern 52 1075 (size x)).shortest l.tie) := by
    have hsize : x.toBits.toNat % 2 ^ 63 = size x := rfl
    have hinfinite : 0x7ff0000000000000 = infinite := rfl
    simp only [textOfDouble, textOfPattern, Nat.one_shiftLeft, hsize, hinfinite, if_neg hx.not_gt, if_neg hx.ne]
    split <;> rfl
  rw [htext, shown, signOf]
  split
  · simpa [Float.Model.UnpackedFloat.Sign.apply] using hnegative
  · simpa [Float.Model.UnpackedFloat.Sign.apply] using hpositive

theorem number?_repr (n : ℕ) : number? n.repr.toList = some (n : ℚ) := by
  refine (number?_of_magnitude? ?_).1
  have hlead : (Nat.toDigits 10 n).head? = some '0' → Nat.toDigits 10 n = ['0'] := fun h => by
    have hzero : n = 0 := by_contra fun hn => head?_toDigits hn h
    rw [hzero]
    rfl
  have hwhole := magnitude?_eq Nat.toDigits_ne_nil (allDigits_toDigits n) hlead endsDigits_nil
    (fraction?_none (by simp)) rfl
  rw [List.append_nil, Nat.ofDigitChars_ten_toDigits] at hwhole
  rw [Nat.toList_repr, hwhole]
  simp

end SceneAnimation.Numeral
