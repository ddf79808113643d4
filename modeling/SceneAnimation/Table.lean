/-!
# Table: at most one value for each key

A table is a list of key and value pairs, in the order in which the keys were first written.  Every operation is
described by what a later look-up answers (`get?_set`, `get?_erase`), so nothing else has to unfold the list.
-/
namespace SceneAnimation

/-- At most one value for each key, in the order in which the keys were first written. -/
structure Table (κ : Type) (α : Type) where
  entries : List (κ × α) := []

namespace Table

variable {κ α : Type}

instance : EmptyCollection (Table κ α) := ⟨⟨[]⟩⟩
instance : Inhabited (Table κ α) := ⟨∅⟩

/-- How many keys have a value.  Where nothing is erased and each new key is the size, counted from zero, no key is
given twice. -/
def size (t : Table κ α) : Nat := t.entries.length

variable [DecidableEq κ]

/-- The first value listed for `k`. -/
def find (k : κ) : List (κ × α) → Option α
  | [] => none
  | (j, v) :: rest => if j = k then some v else find k rest

/-- Writes `v` for `k`: in place if `k` is listed, at the end otherwise. -/
def assign (k : κ) (v : α) : List (κ × α) → List (κ × α)
  | [] => [(k, v)]
  | (j, w) :: rest => if j = k then (k, v) :: rest else (j, w) :: assign k v rest

def get? (t : Table κ α) (k : κ) : Option α := find k t.entries

/-- The value for `k`, or the type's default where there is none. -/
def get [Inhabited α] (t : Table κ α) (k : κ) : α := (t.get? k).getD default

def set (t : Table κ α) (k : κ) (v : α) : Table κ α := ⟨assign k v t.entries⟩

def erase (t : Table κ α) (k : κ) : Table κ α := ⟨t.entries.filter fun e => e.1 ≠ k⟩

/-- A key is in the table when it has a value. -/
instance : Membership κ (Table κ α) := ⟨fun t k => (t.get? k).isSome = true⟩

instance (t : Table κ α) (k : κ) : Decidable (k ∈ t) := inferInstanceAs (Decidable ((t.get? k).isSome = true))

theorem mem_def {t : Table κ α} {k : κ} : k ∈ t ↔ (t.get? k).isSome = true := Iff.rfl

@[simp] theorem get?_empty (k : κ) : (∅ : Table κ α).get? k = none := rfl

theorem find_assign (k : κ) (v : α) (q : κ) :
    ∀ l : List (κ × α), find q (assign k v l) = if q = k then some v else find q l
  | [] => by simp only [assign, find, eq_comm]
  | (j, w) :: rest => by
    by_cases hj : j = k
    · subst hj
      simp only [assign, find, if_true]
      by_cases hq : q = j
      · simp [hq]
      · simp [hq, Ne.symm hq]
    · simp only [assign, if_neg hj, find, find_assign k v q rest]
      by_cases hq : q = k
      · subst hq; simp [hj]
      · simp [hq]

/-- **Reading after a write.** -/
@[simp] theorem get?_set (t : Table κ α) (k : κ) (v : α) (q : κ) :
    (t.set k v).get? q = if q = k then some v else t.get? q :=
  find_assign k v q t.entries

@[simp] theorem get_set [Inhabited α] (t : Table κ α) (k : κ) (v : α) (q : κ) :
    (t.set k v).get q = if q = k then v else t.get q := by
  unfold get
  rw [get?_set]
  split <;> rfl

@[simp] theorem not_mem_empty (k : κ) : ¬ k ∈ (∅ : Table κ α) := by simp [mem_def]

@[simp] theorem mem_set (t : Table κ α) (k : κ) (v : α) (q : κ) : q ∈ t.set k v ↔ q = k ∨ q ∈ t := by
  simp only [mem_def, get?_set]
  split <;> simp_all

theorem isSome_find (k : κ) : ∀ l : List (κ × α), (find k l).isSome = true ↔ k ∈ l.map (·.1)
  | [] => by simp [find]
  | (j, w) :: rest => by
    have ih := isSome_find k rest
    rw [find, List.map_cons, List.mem_cons]
    split
    · rename_i h
      simp [h]
    · rename_i h
      rw [ih]
      simp [Ne.symm h]

/-- A key is in the table when it is listed. -/
theorem mem_iff_listed (t : Table κ α) (k : κ) : k ∈ t ↔ k ∈ t.entries.map (·.1) := isSome_find k t.entries

theorem get_of_not_mem [Inhabited α] {t : Table κ α} {k : κ} (h : ¬ k ∈ t) : t.get k = default := by
  rw [mem_def, Bool.not_eq_true, Option.isSome_eq_false_iff, Option.isNone_iff_eq_none] at h
  rw [get, h]
  rfl

theorem length_assign (k : κ) (v : α) :
    ∀ l : List (κ × α), (assign k v l).length = if (find k l).isSome then l.length else l.length + 1
  | [] => rfl
  | (j, w) :: rest => by
    by_cases hj : j = k
    · simp [assign, find, hj]
    · simp only [assign, find, if_neg hj, List.length_cons, length_assign k v rest]
      split <;> rfl

/-- **A write adds a key at most once.** -/
theorem size_set (t : Table κ α) (k : κ) (v : α) : (t.set k v).size = if k ∈ t then t.size else t.size + 1 :=
  length_assign k v t.entries

theorem find_filter_ne (k q : κ) :
    ∀ l : List (κ × α), find q (l.filter fun e => e.1 ≠ k) = if q = k then none else find q l
  | [] => by simp [find]
  | (j, w) :: rest => by
    have ih := find_filter_ne k q rest
    by_cases hj : j = k
    · subst hj
      simp only [ne_eq, not_true, decide_false, Bool.false_eq_true, not_false_eq_true, List.filter_cons_of_neg] at ih ⊢
      rw [ih]
      by_cases hq : q = j
      · simp [hq]
      · simp [hq, find, Ne.symm hq]
    · simp only [ne_eq, hj, not_false_eq_true, decide_true, List.filter_cons_of_pos, find] at ih ⊢
      rw [ih]
      by_cases hq : q = k
      · subst hq; simp [hj]
      · simp [hq]

@[simp] theorem get?_erase (t : Table κ α) (k q : κ) :
    (t.erase k).get? q = if q = k then none else t.get? q :=
  find_filter_ne k q t.entries

end Table

end SceneAnimation
