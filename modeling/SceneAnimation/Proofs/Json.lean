import SceneAnimation.Proofs.Numbers
import Mathlib.Data.List.TakeWhile
/-!
# JSON: texts and the values that they spell

A text falls into lexemes (`Lexeme.scan`): marks, quoted texts, numbers and truth values.  A value has its lexemes in a
fixed order, and those of one value do not begin those of another (`Json.lexemes_append_inj`).  So a text spells one
value at most (`Json.SpeltBy.unique`).
-/
namespace SceneAnimation

/-- A value; a number is what its digits say, however they are written. -/
inductive Json where
  | number (q : ℚ)
  | truth (b : Bool)
  | text (s : String)
  | list (items : List Json)
  | object (members : List (String × Json))

/-- The smallest parts of a text. -/
inductive Lexeme where
  | mark (c : Char)
  | text (s : List Char)
  | number (q : ℚ)
  | truth (b : Bool)
  /-- What is none of these: a word that is not read, or what is quoted, but not plain or not closed. -/
  | stray
deriving DecidableEq

/-! ## Texts -/

namespace Lexeme

def isBlank (c : Char) : Bool := c ∈ [' ', '\t', '\n', '\r']

def isMark (c : Char) : Bool := c ∈ ['[', ']', '\x7b', '\x7d', ',', ':']

def isWord (c : Char) : Bool := !isBlank c && !isMark c && c ≠ '"'

/-- Whether a character stands for itself between quotes. -/
def isPlain (c : Char) : Bool := c ≠ '"' && c ≠ '\\' && 0x20 ≤ c.toNat

/-- What a word says. -/
def ofWord (w : List Char) : Lexeme :=
  if w = ['t', 'r', 'u', 'e'] then .truth true
  else if w = ['f', 'a', 'l', 's', 'e'] then .truth false
  else match Numeral.number? w with
    | some q => .number q
    | none => .stray

/-- The lexemes of a text. -/
def scan : List Char → List Lexeme
  | [] => []
  | c :: r =>
    if isBlank c then scan r
    else if isMark c then .mark c :: scan r
    else if c = '"' then
      if (r.dropWhile isPlain).head? = some '"' then
        .text (r.takeWhile isPlain) :: scan (r.dropWhile isPlain).tail
      else [.stray]
    else ofWord (c :: r.takeWhile isWord) :: scan (r.dropWhile isWord)
termination_by t => t.length
decreasing_by
  all_goals
    have hplain := (List.dropWhile_suffix isPlain (l := r)).length_le
    have hword := (List.dropWhile_suffix isWord (l := r)).length_le
    simp only [List.length_cons, List.length_tail]
    omega

theorem scan_blank {c : Char} (h : isBlank c = true) (r : List Char) : scan (c :: r) = scan r := by
  rw [scan, if_pos h]

theorem scan_mark {c : Char} (h : isMark c = true) (r : List Char) : scan (c :: r) = .mark c :: scan r := by
  have hblank : isBlank c = false := by
    simp only [isMark, List.mem_cons, List.not_mem_nil, or_false, decide_eq_true_eq] at h
    rcases h with rfl | rfl | rfl | rfl | rfl | rfl <;> rfl
  rw [scan, if_neg (by simp [hblank]), if_pos h]

theorem scan_text {s : List Char} (h : ∀ c ∈ s, isPlain c = true) (r : List Char) :
    scan ('"' :: (s ++ '"' :: r)) = .text s :: scan r := by
  have htake : (s ++ '"' :: r).takeWhile isPlain = s := by
    rw [List.takeWhile_append_of_pos h, List.takeWhile_cons_of_neg (by decide), List.append_nil]
  have hdrop : (s ++ '"' :: r).dropWhile isPlain = '"' :: r := by
    rw [List.dropWhile_append_of_pos h, List.dropWhile_cons_of_neg (by decide)]
  rw [scan, if_neg (by decide), if_neg (by decide), if_pos rfl, htake, hdrop, List.head?_cons, if_pos rfl,
    List.tail_cons]

/-- A word that ends before `r` is not continued by it. -/
def Delimits (r : List Char) : Prop := ∀ c ∈ r.head?, isWord c = false

theorem delimits_nil : Delimits [] := by
  rintro c ⟨⟩

theorem delimits_cons {c : Char} (h : isWord c = false) (r : List Char) : Delimits (c :: r) := by
  rintro d ⟨⟩
  exact h

theorem scan_word {w r : List Char} (hne : w ≠ []) (hw : ∀ c ∈ w, isWord c = true) (hr : Delimits r) :
    scan (w ++ r) = ofWord w :: scan r := by
  obtain ⟨c, w, rfl⟩ := List.exists_cons_of_ne_nil hne
  obtain ⟨hc, hw⟩ := List.forall_mem_cons.1 hw
  have htake : r.takeWhile isWord = [] ∧ r.dropWhile isWord = r := by
    cases r with
    | nil => exact ⟨rfl, rfl⟩
    | cons d r => simp [hr d rfl]
  simp only [isWord, Bool.and_eq_true, Bool.not_eq_true', decide_eq_true_eq] at hc
  obtain ⟨⟨hblank, hmark⟩, hquote⟩ := hc
  rw [List.cons_append, scan, if_neg (by simp [hblank]), if_neg (by simp [hmark]), if_neg hquote,
    List.takeWhile_append_of_pos hw, List.dropWhile_append_of_pos hw, htake.1, htake.2, List.append_nil]

theorem ofWord_of_number? {w : List Char} {q : ℚ} (h : Numeral.number? w = some q) : ofWord w = .number q := by
  have hne : ∀ v, Numeral.number? v = none → w ≠ v := by
    rintro v hv rfl
    rw [h] at hv
    cases hv
  rw [ofWord, if_neg (hne _ rfl), if_neg (hne _ rfl), h]

end Lexeme

/-! ## Values -/

namespace Json

open Lexeme

theorem sizeOf_item {v : Json} {items : List Json} (h : v ∈ items) : sizeOf v < sizeOf (Json.list items) := by
  have := List.sizeOf_lt_of_mem h
  simp only [list.sizeOf_spec]
  omega

theorem sizeOf_member {m : String × Json} {members : List (String × Json)} (h : m ∈ members) :
    sizeOf m.2 < sizeOf (Json.object members) := by
  have := List.sizeOf_lt_of_mem h
  obtain ⟨name, v⟩ := m
  simp only [object.sizeOf_spec, Prod.mk.sizeOf_spec] at this ⊢
  omega

/-- The lexemes of several things, with commas between them. -/
def listed : List (List Lexeme) → List Lexeme
  | [] => []
  | l :: ls => l ++ ls.flatMap (.mark ',' :: ·)

/-- The lexemes of a value. -/
def lexemes : Json → List Lexeme
  | .number q => [.number q]
  | .truth b => [.truth b]
  | .text s => [.text s.toList]
  | .list items => .mark '[' :: (listed (items.map lexemes) ++ [.mark ']'])
  | .object members =>
    .mark '\x7b' :: (listed (members.map fun m => .text m.1.toList :: .mark ':' :: m.2.lexemes) ++ [.mark '\x7d'])
decreasing_by
  · exact sizeOf_item (by assumption)
  · exact sizeOf_member (by assumption)

/-- A value has a first lexeme, which closes nothing. -/
theorem lexemes_append_ne {c : Char} (hc : c = ']' ∨ c = '\x7d') (v : Json) (r s : List Lexeme) :
    v.lexemes ++ r ≠ .mark c :: s := by
  rcases hc with rfl | rfl <;> cases v <;> simp [lexemes]

section Listed

variable {α : Type} {f : α → List Lexeme} {c : Char} {r r' : List Lexeme}

theorem further_append_inj (hc : c ≠ ',') : ∀ {as as' : List α},
    (∀ a ∈ as, ∀ a' r r', f a ++ r = f a' ++ r' → a = a' ∧ r = r') →
    (as.map f).flatMap (.mark ',' :: ·) ++ .mark c :: r = (as'.map f).flatMap (.mark ',' :: ·) ++ .mark c :: r' →
    as = as' ∧ r = r'
  | [], [], _, h => ⟨rfl, (List.cons.inj h).2⟩
  | [], b :: bs, _, h => absurd (Lexeme.mark.inj (List.cons.inj h).1) hc
  | a :: as, [], _, h => absurd (Lexeme.mark.inj (List.cons.inj h).1).symm hc
  | a :: as, b :: bs, hf, h => by
    simp only [List.map_cons, List.flatMap_cons, List.cons_append, List.append_assoc, List.cons.injEq, true_and] at h
    obtain ⟨ha, hf⟩ := List.forall_mem_cons.1 hf
    obtain ⟨rfl, hrest⟩ := ha _ _ _ h
    obtain ⟨rfl, rfl⟩ := further_append_inj hc hf hrest
    exact ⟨rfl, rfl⟩

/-- **What is listed up to a closing mark is known**, if each thing listed is and does not begin with that mark. -/
theorem listed_append_inj (hc : c ≠ ',') (hends : ∀ a r s, f a ++ r ≠ .mark c :: s) {as as' : List α}
    (hf : ∀ a ∈ as, ∀ a' r r', f a ++ r = f a' ++ r' → a = a' ∧ r = r')
    (h : listed (as.map f) ++ .mark c :: r = listed (as'.map f) ++ .mark c :: r') : as = as' ∧ r = r' := by
  cases as with
  | nil =>
    cases as' with
    | nil => exact ⟨rfl, (List.cons.inj h).2⟩
    | cons b bs => exact absurd ((List.append_assoc ..).symm.trans h.symm) (hends _ _ _)
  | cons a as =>
    cases as' with
    | nil => exact absurd ((List.append_assoc ..).symm.trans h) (hends _ _ _)
    | cons b bs =>
      simp only [List.map_cons, listed, List.append_assoc] at h
      obtain ⟨ha, hf⟩ := List.forall_mem_cons.1 hf
      obtain ⟨rfl, hrest⟩ := ha _ _ _ h
      obtain ⟨rfl, rfl⟩ := further_append_inj hc hf hrest
      exact ⟨rfl, rfl⟩

end Listed

/-- **No value begins another**: its lexemes tell it, whatever follows them. -/
theorem lexemes_append_inj (v : Json) : ∀ (v' : Json) (r r' : List Lexeme),
    v.lexemes ++ r = v'.lexemes ++ r' → v = v' ∧ r = r' := by
  intro v' r r' h
  match v, v' with
  | .number w, .number w' | .truth w, .truth w' | .text w, .text w' =>
    simp only [lexemes, List.cons_append, List.nil_append, List.cons.injEq, Lexeme.number.injEq, Lexeme.truth.injEq,
      Lexeme.text.injEq, String.toList_inj] at h
    exact ⟨congrArg _ h.1, h.2⟩
  | .list items, .list items' =>
    simp only [lexemes, List.cons_append, List.append_assoc, List.nil_append, List.cons.injEq, true_and] at h
    obtain ⟨rfl, rfl⟩ := listed_append_inj (by decide) (lexemes_append_ne (.inl rfl))
      (fun v hv => lexemes_append_inj v) h
    exact ⟨rfl, rfl⟩
  | .object members, .object members' =>
    simp only [lexemes, List.cons_append, List.append_assoc, List.nil_append, List.cons.injEq, true_and] at h
    have hmember : ∀ m ∈ members, ∀ (m' : String × Json) (s s' : List Lexeme),
        (.text m.1.toList :: .mark ':' :: m.2.lexemes) ++ s = (.text m'.1.toList :: .mark ':' :: m'.2.lexemes) ++ s' →
        m = m' ∧ s = s' := by
      rintro ⟨name, v⟩ hm ⟨name', v'⟩ s s' he
      simp only [List.cons_append, List.cons.injEq, Lexeme.text.injEq, String.toList_inj, true_and] at he
      obtain ⟨rfl, hv⟩ := he
      obtain ⟨rfl, rfl⟩ := lexemes_append_inj v v' s s' hv
      exact ⟨rfl, rfl⟩
    obtain ⟨rfl, rfl⟩ := listed_append_inj (by decide) (by simp) hmember h
    exact ⟨rfl, rfl⟩
  | .number _, .truth _ | .number _, .text _ | .number _, .list _ | .number _, .object _ | .truth _, .number _
  | .truth _, .text _ | .truth _, .list _ | .truth _, .object _ | .text _, .number _ | .text _, .truth _
  | .text _, .list _ | .text _, .object _ | .list _, .number _ | .list _, .truth _ | .list _, .text _
  | .list _, .object _ | .object _, .number _ | .object _, .truth _ | .object _, .text _ | .object _, .list _ =>
    simp [lexemes] at h
termination_by v
decreasing_by
  · exact sizeOf_item hv
  · exact sizeOf_member hm

/-- Whether a text is one of this value. -/
def SpeltBy (v : Json) (t : String) : Prop := scan t.toList = v.lexemes

/-- **A text spells one value at most.** -/
theorem SpeltBy.unique {v v' : Json} {t : String} (h : v.SpeltBy t) (h' : v'.SpeltBy t) : v = v' :=
  (lexemes_append_inj v v' [] [] (by rw [List.append_nil, List.append_nil, ← h, ← h'])).1

example : (list [.object [("at", .number (-3 / 2)), ("kind", .text "a b")]]).SpeltBy
    "[\n  \x7b \"at\" : -1.5,\"kind\":\"a b\" \x7d\n]" := by
  cbv

end Json

end SceneAnimation
