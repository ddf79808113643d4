/-!
# The animated properties of a node

Six single-precision numbers.  Opacity is kept between zero and one by every write, except that a write of NaN keeps
NaN; the other five take any number.  Properties are valid when all six are finite.
-/
namespace SceneAnimation

/-- A property of a node that an animator can drive. -/
inductive Property where
  | alpha
  | translationX
  | translationY
  | scaleX
  | scaleY
  | rotation
deriving DecidableEq, Inhabited

namespace Property

/-- All properties, in the order in which they are checked. -/
def all : List Property := [.alpha, .translationX, .translationY, .scaleX, .scaleY, .rotation]

def name : Property → String
  | .alpha => "Alpha"
  | .translationX => "TranslationX"
  | .translationY => "TranslationY"
  | .scaleX => "ScaleX"
  | .scaleY => "ScaleY"
  | .rotation => "Rotation"

theorem mem_all (p : Property) : p ∈ all := by cases p <;> simp [all]

end Property

/-- The values of the six properties: at first opaque, unmoved, unscaled and unturned. -/
structure Properties where
  alpha : Float32 := 1.0
  translationX : Float32 := 0.0
  translationY : Float32 := 0.0
  scaleX : Float32 := 1.0
  scaleY : Float32 := 1.0
  rotation : Float32 := 0.0
deriving Inhabited

/-- `x` brought between zero and one; NaN, and the sign of zero, are kept. -/
def clampUnit (x : Float32) : Float32 :=
  let x := if x < 0.0 then 0.0 else x
  if x > 1.0 then 1.0 else x

namespace Properties

def get (p : Properties) : Property → Float32
  | .alpha => p.alpha
  | .translationX => p.translationX
  | .translationY => p.translationY
  | .scaleX => p.scaleX
  | .scaleY => p.scaleY
  | .rotation => p.rotation

/-- What a write of `x` to a property stores. -/
def stored : Property → Float32 → Float32
  | .alpha, x => clampUnit x
  | _, x => x

def set (p : Properties) (q : Property) (x : Float32) : Properties :=
  let v := stored q x
  match q with
  | .alpha => { p with alpha := v }
  | .translationX => { p with translationX := v }
  | .translationY => { p with translationY := v }
  | .scaleX => { p with scaleX := v }
  | .scaleY => { p with scaleY := v }
  | .rotation => { p with rotation := v }

def toList (p : Properties) : List Float32 := Property.all.map p.get

/-- The first property that is not finite, with its value. -/
def nonFinite? (p : Properties) : Option (Property × Float32) :=
  (Property.all.find? fun q => !(p.get q).isFinite).map fun q => (q, p.get q)

/-- Equality of all six values as numbers: zeros are equal, NaN equals nothing. -/
def sameValues (p q : Properties) : Bool := Property.all.all fun r => p.get r == q.get r

/-- **Reading after a write.** -/
theorem get_set (p : Properties) (q : Property) (x : Float32) (r : Property) :
    (p.set q x).get r = if r = q then stored q x else p.get r := by
  cases q <;> cases r <;> rfl

@[simp] theorem get_set_self (p : Properties) (q : Property) (x : Float32) : (p.set q x).get q = stored q x := by
  rw [get_set, if_pos rfl]

theorem set_set (p : Properties) (q : Property) (x y : Float32) : (p.set q x).set q y = p.set q y := by
  cases q <;> rfl

theorem ext_get {p p' : Properties} (h : ∀ q, p'.get q = p.get q) : p' = p := by
  cases p
  cases p'
  rw [mk.injEq]
  exact ⟨h .alpha, h .translationX, h .translationY, h .scaleX, h .scaleY, h .rotation⟩

theorem nonFinite?_eq_none {p : Properties} : p.nonFinite? = none ↔ ∀ q, (p.get q).isFinite = true := by
  simp only [nonFinite?, Option.map_eq_none_iff, List.find?_eq_none, Bool.not_eq_true', Bool.not_eq_false]
  exact ⟨fun h q => h q q.mem_all, fun h q _ => h q⟩

end Properties

/-- The text of a number that is not finite. -/
def nonFiniteText (x : Float32) : String :=
  if x.isNaN then "NaN" else if x < 0.0 then "-inf" else "inf"

/-- The wording of the first fault in `p`, if there is one. -/
def Properties.problem? (p : Properties) : Option String :=
  p.nonFinite?.map fun (q, x) => "non-finite " ++ q.name ++ " value " ++ nonFiniteText x

end SceneAnimation
