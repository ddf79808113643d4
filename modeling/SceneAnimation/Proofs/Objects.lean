import SceneAnimation.Proofs.Json
import SceneAnimation.Trace.Timeline
/-!
# Objects: how marks are written

The text of a mark is that of an object, and the text of a list of marks that of the list of their objects
(`Trace.writes_renderMarks`), if what is quoted in them is plain and their numbers are finite: what is written for a
number is a word and is read as that number, and members stand on lines of their own with commas between them.
-/
namespace SceneAnimation

open Lexeme Json

/-! ## What is written -/

/-- A text has these lexemes wherever it stands, unless a word that it ends in is continued. -/
def Writes (t : String) (ls : List Lexeme) : Prop := ∀ r, Delimits r → scan (t.toList ++ r) = ls ++ scan r

theorem Writes.speltBy {t : String} {v : Json} (h : Writes t v.lexemes) : v.SpeltBy t := by
  have hall := h [] delimits_nil
  rw [List.append_nil, scan, List.append_nil] at hall
  exact hall

/-- A text holds no characters but those of words. -/
def Wordy (s : String) : Prop := ∀ c ∈ s.toList, isWord c = true

/-- A text stands for itself between quotes. -/
def Plain (s : String) : Prop := ∀ c ∈ s.toList, isPlain c = true

instance (s : String) : Decidable (Wordy s) := List.decidableBAll _ s.toList

instance (s : String) : Decidable (Plain s) := List.decidableBAll _ s.toList

theorem Wordy.writes {w : String} (h : Wordy w) (hne : w ≠ "") : Writes w [ofWord w.toList] := fun r hr =>
  scan_word (by simpa using hne) h hr

theorem Wordy.writes_number {w : String} {q : ℚ} (h : Wordy w) (hne : w ≠ "")
    (hw : Numeral.number? w.toList = some q) : Writes w (Json.number q).lexemes := by
  rw [lexemes, ← ofWord_of_number? hw]
  exact h.writes hne

theorem Plain.writes {s : String} (h : Plain s) : Writes ("\"" ++ s ++ "\"") (Json.text s).lexemes := fun r _ => by
  have hlist : ("\"" ++ s ++ "\"").toList ++ r = '"' :: (s.toList ++ '"' :: r) := by simp
  rw [hlist, scan_text h, lexemes, List.singleton_append]

theorem Plain.writes_named {name value : String} {v : Json} (h : Plain name) (hv : Writes value v.lexemes) :
    Writes (Trace.named name value) (.text name.toList :: .mark ':' :: v.lexemes) := fun r hr => by
  have hlist : (Trace.named name value).toList ++ r =
      '"' :: (name.toList ++ '"' :: ':' :: ' ' :: (value.toList ++ r)) := by simp [Trace.named]
  rw [hlist, scan_text h, scan_mark rfl, scan_blank rfl, hv r hr]
  rfl

theorem Lexeme.scan_blanks (n : Nat) (r : List Char) : scan (List.replicate n ' ' ++ r) = scan r := by
  induction n with
  | zero => rfl
  | succ n ih => rw [List.replicate_succ, List.cons_append, scan_blank rfl, ih]

section Lines

variable {α : Type} {f : α → String} {g : α → List Lexeme}

/-- Things on lines of their own, with commas between the lines. -/
theorem Lexeme.scan_lines (depth : Nat) (r : List Char) : ∀ as : List α, (∀ a ∈ as, Writes (f a) (g a)) →
    scan ([',', '\n'].intercalate (as.map fun a => List.replicate depth ' ' ++ (f a).toList) ++ '\n' :: r) =
      listed (as.map g) ++ scan r
  | [], _ => scan_blank rfl r
  | [a], h => by
    rw [List.map_singleton, List.intercalate_singleton, List.append_assoc, scan_blanks,
      h a List.mem_cons_self _ (delimits_cons rfl _), scan_blank rfl]
    simp [listed]
  | a :: b :: as, h => by
    have hrest := scan_lines depth r (b :: as) fun a ha => h a (List.mem_cons_of_mem _ ha)
    rw [List.map_cons] at hrest
    rw [List.map_cons, List.map_cons, List.intercalate_cons_cons]
    simp only [List.append_assoc, List.cons_append, List.nil_append] at hrest ⊢
    rw [scan_blanks, h a List.mem_cons_self _ (delimits_cons rfl _), scan_mark rfl, scan_blank rfl, hrest]
    simp [listed]

theorem writes_enclosed {opening closing : String} {o c : Char} (ho : opening.toList = [o]) (hc : closing.toList = [c])
    (hom : isMark o = true) (hcm : isMark c = true) (depth : Nat) {as : List α} (h : ∀ a ∈ as, Writes (f a) (g a)) :
    Writes (Trace.enclosed opening closing depth (as.map f)) (.mark o :: (listed (as.map g) ++ [.mark c])) :=
  fun r _ => by
  have hlist : (Trace.enclosed opening closing depth (as.map f)).toList ++ r =
      o :: '\n' :: ([',', '\n'].intercalate (as.map fun a => List.replicate depth ' ' ++ (f a).toList) ++
        '\n' :: (List.replicate (depth - 2) ' ' ++ c :: r)) := by
    simp [Trace.enclosed, ho, hc, String.toList_intercalate, Function.comp_def]
  rw [hlist, scan_mark hom, scan_blank rfl, scan_lines _ _ _ h, scan_blanks, scan_mark hcm]
  simp

end Lines

/-! ## Numbers and truth values -/

theorem Lexeme.isWord_of_isDigit {c : Char} (h : c.isDigit = true) : isWord c = true := by
  have hne : ∀ d : Char, d.isDigit = false → c ≠ d := by
    rintro d hd rfl
    rw [h] at hd
    cases hd
  simp [isWord, isBlank, isMark, hne]

theorem wordy_append {s t : String} : Wordy (s ++ t) ↔ Wordy s ∧ Wordy t := by
  simp [Wordy, or_imp, forall_and]

theorem wordy_repr (n : Nat) : Wordy n.repr := fun c hc => by
  rw [Nat.toList_repr] at hc
  exact isWord_of_isDigit (Nat.isDigit_of_mem_toDigits (by decide) (by decide) hc)

theorem wordy_take {s : String} (h : Wordy s) (n : Nat) : Wordy (s.take n).copy := fun c hc => by
  rw [String.toList_copy_take] at hc
  exact h c (List.mem_of_mem_take hc)

theorem wordy_drop {s : String} (h : Wordy s) (n : Nat) : Wordy (s.drop n).copy := fun c hc => by
  rw [String.toList_copy_drop] at hc
  exact h c (List.mem_of_mem_drop hc)

theorem wordy_zeros (n : Nat) : Wordy (String.ofList (List.replicate n '0')) := fun c hc => by
  rw [String.toList_ofList] at hc
  rw [List.eq_of_mem_replicate hc]
  rfl

theorem wordy_ite {p : Prop} [Decidable p] {s t : String} (hs : Wordy s) (ht : Wordy t) :
    Wordy (if p then s else t) := by
  split <;> assumption

theorem wordy_write {l : Numeral.Layout} (hl : Wordy l.plus) (x : Numeral.Digits) :
    Wordy (l.write x) ∧ l.write x ≠ "" := by
  obtain ⟨hdot, hwhole, hpart, hmark, hminus, hempty⟩ :
      Wordy "." ∧ Wordy ".0" ∧ Wordy "0." ∧ Wordy "e" ∧ Wordy "-" ∧ Wordy "" := by decide
  unfold Numeral.Layout.write
  dsimp only
  generalize x.trim 17 = y
  have hd : Wordy (toString y.d) := wordy_repr y.d
  generalize toString y.d = ds at hd ⊢
  split
  · split
    · simp [wordy_append, hd, wordy_zeros, hwhole]
    · split
      · simp [wordy_append, wordy_take hd, wordy_drop hd, hdot]
      · simp [wordy_append, hd, wordy_zeros, hpart]
  · have htail : Wordy ("." ++ (ds.drop 1).copy) := wordy_append.2 ⟨hdot, wordy_drop hd 1⟩
    simp [wordy_append, wordy_take hd, wordy_ite hempty htail, hmark, wordy_ite hminus hl, wordy_repr]

theorem wordy_textOfDouble {l : Numeral.Layout} (hl : Wordy l.plus) (x : Float) :
    Wordy (Numeral.textOfDouble l x) ∧ Numeral.textOfDouble l x ≠ "" := by
  obtain ⟨hminus, hempty, hinf, hzero⟩ : Wordy "-" ∧ Wordy "" ∧ Wordy "inf" ∧ Wordy "0.0" := by decide
  unfold Numeral.textOfDouble Numeral.textOfPattern
  dsimp only
  split
  · decide
  · split
    · simp [wordy_append, wordy_ite hminus hempty, hinf]
    · split
      · simp [wordy_append, wordy_ite hminus hempty, hzero]
      · have hwrite := wordy_write hl
        simp [wordy_append, wordy_ite hminus hempty, hwrite]

/-! ## Objects -/

namespace Trace

theorem writes_object (depth : Nat) (ts : List (String × String × Json))
    (h : ∀ t ∈ ts, Plain t.1 ∧ Writes t.2.1 t.2.2.lexemes) :
    Writes (enclosed "\x7b" "\x7d" depth (ts.map fun t => named t.1 t.2.1))
      (Json.object (ts.map fun t => (t.1, t.2.2))).lexemes := by
  have hmember : ∀ t ∈ ts, Writes (named t.1 t.2.1) (.text t.1.toList :: .mark ':' :: t.2.2.lexemes) :=
    fun t ht => (h t ht).1.writes_named (h t ht).2
  have hopening : "\x7b".toList = ['\x7b'] := by simp
  have hclosing : "\x7d".toList = ['\x7d'] := by simp
  rw [lexemes, List.map_map]
  exact writes_enclosed hopening hclosing rfl rfl depth hmember

namespace Field

def json : Field → Json
  | .whole n => .number n
  | .real x => .number (Numeral.shown realLayout.tie x)
  | .text s => .text s
  | .truth b => .truth b

def IsPlain : Field → Prop
  | .real x => x.isFinite = true
  | .text s => Plain s
  | _ => True

theorem writes {f : Field} (h : f.IsPlain) : Writes f.render f.json.lexemes := by
  cases f with
  | whole n => exact (wordy_repr n).writes_number (by simp) (Numeral.number?_repr n)
  | real x =>
    obtain ⟨hw, hne⟩ := wordy_textOfDouble (l := realLayout) (by decide) x
    exact hw.writes_number hne (Numeral.number?_textOfDouble (.inr rfl) h)
  | text s => exact Plain.writes h
  | truth b =>
    obtain ⟨htrue, hfalse⟩ : Wordy "true" ∧ Wordy "false" := by decide
    rw [json, lexemes]
    cases b
    · exact hfalse.writes (by decide)
    · exact htrue.writes (by decide)

end Field

namespace Mark

/-- The members of the object of a mark, each with its text. -/
def members (m : Mark) : List (String × String × Json) :=
  let quoted (s : String) := (Field.text s).render
  [("args", enclosed "\x7b" "\x7d" 6 (m.args.map fun a => named a.1 a.2.render),
      .object (m.args.map fun a => (a.1, a.2.json))),
    ("cat", quoted m.category, .text m.category), ("name", quoted m.name, .text m.name),
    ("ph", quoted m.kind, .text m.kind), ("pid", "0", .number 0)] ++
  (m.scope.map fun s => ("s", quoted s, .text s)).toList ++
  [("tid", "0", .number 0), ("ts", (Field.real m.time).render, (Field.real m.time).json)]

/-- The object of a mark. -/
def json (m : Mark) : Json := .object (m.members.map fun t => (t.1, t.2.2))

theorem render_eq (m : Mark) : m.render = enclosed "\x7b" "\x7d" 4 (m.members.map fun t => named t.1 t.2.1) := by
  cases hs : m.scope <;> simp [render, members, hs]

structure IsPlain (m : Mark) : Prop where
  kind : Plain m.kind
  name : Plain m.name
  category : Plain m.category
  time : m.time.isFinite = true
  scope : ∀ s ∈ m.scope, Plain s
  args : ∀ a ∈ m.args, Plain a.1 ∧ a.2.IsPlain

theorem writes {m : Mark} (h : m.IsPlain) : Writes m.render m.json.lexemes := by
  have harg : ∀ a ∈ m.args, Plain a.1 ∧ Writes a.2.render a.2.json.lexemes :=
    fun a ha => ⟨(h.args a ha).1, Field.writes (h.args a ha).2⟩
  have hargs := writes_object 6 (m.args.map fun a => (a.1, a.2.render, a.2.json)) (List.forall_mem_map.2 harg)
  simp only [List.map_map, Function.comp_def] at hargs
  have hzero : Writes "0" (Json.number 0).lexemes := Field.writes (f := .whole 0) trivial
  have hquoted : ∀ {s : String}, Plain s → Writes (Field.text s).render (Json.text s).lexemes :=
    fun {s} hs => Field.writes (f := .text s) hs
  have htime := Field.writes (f := .real m.time) h.time
  rw [render_eq, json]
  refine writes_object 4 m.members ?_
  simp only [members, List.forall_mem_append, List.forall_mem_cons]
  refine ⟨⟨⟨⟨by decide, hargs⟩, ⟨by decide, hquoted h.category⟩, ⟨by decide, hquoted h.name⟩,
    ⟨by decide, hquoted h.kind⟩, ⟨by decide, hzero⟩, by simp⟩, ?_⟩, ⟨by decide, hzero⟩, ⟨by decide, htime⟩, by simp⟩
  intro t ht
  obtain ⟨s, hs, rfl⟩ := Option.map_eq_some_iff.1 (Option.mem_toList.1 ht)
  have hname : Plain "s" := by decide
  exact ⟨hname, hquoted (h.scope s hs)⟩

end Mark

/-- **A list of marks is written as the list of their objects.** -/
theorem writes_renderMarks {ms : List Mark} (h : ∀ m ∈ ms, m.IsPlain) :
    Writes (renderMarks ms) (Json.list (ms.map Mark.json)).lexemes := by
  unfold renderMarks
  split
  · rename_i hms
    rw [List.isEmpty_iff.1 hms]
    intro r _
    have hlist : "[]".toList ++ r = '[' :: ']' :: r := by simp
    rw [hlist, scan_mark rfl, scan_mark rfl]
    simp [lexemes, listed]
  · have hopening : "[".toList = ['['] := by simp
    have hclosing : "]".toList = [']'] := by simp
    rw [lexemes, List.map_map]
    exact writes_enclosed hopening hclosing rfl rfl 2 fun m hm => Mark.writes (h m hm)

end Trace

end SceneAnimation
