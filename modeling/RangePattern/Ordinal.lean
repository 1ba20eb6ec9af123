/-!
# Ordinals: the positions a range runs over

Every bound, every increment and every step of a range is an **ordinal**, a signed 32-bit integer.
Whatever is computed about ordinals is computed on the integers and brought back by one checked
conversion:

* `Ordinal.InRange v` — the integer `v` is the value of some ordinal;
* `Ordinal.ofInt? v` — that ordinal, and nothing when `v` is out of range;
* `Ordinal.add? a b` — the ordinal of the exact sum, if there is one.

The main statement is `Ordinal.ofInt?_eq_some_iff`: the conversion returns an ordinal exactly when
its value is the integer asked for. Reading a numeral and stepping a progression both rest on it.
-/

namespace RangePattern

/-- A position in a range: a signed 32-bit integer. -/
abbrev Ordinal := Int32

namespace Ordinal

/-! ### The representable integers -/

/-- The integers that are the value of an ordinal. -/
def InRange (v : Int) : Prop := -2147483648 ≤ v ∧ v ≤ 2147483647

/-- Whether an integer is in range is decided by two comparisons. -/
instance (v : Int) : Decidable (InRange v) := inferInstanceAs (Decidable (_ ∧ _))

/-- The value of an ordinal is in range. -/
theorem inRange_toInt (o : Ordinal) : InRange o.toInt :=
  ⟨Int32.le_toInt o, Int.le_of_lt_add_one (Int32.toInt_lt o)⟩

/-! ### The checked conversion -/

/-- The ordinal of value `v`, if `v` is in range. -/
def ofInt? (v : Int) : Option Ordinal :=
  if InRange v then some (Int32.ofInt v) else none

/-- **Exactness.** The conversion returns an ordinal exactly when its value is `v`. -/
theorem ofInt?_eq_some_iff {v : Int} {o : Ordinal} : ofInt? v = some o ↔ o.toInt = v := by
  unfold ofInt?
  constructor
  · intro h
    split at h
    · next hv =>
      cases h
      exact Int32.toInt_ofInt_of_le hv.1 (Int.lt_add_one_of_le hv.2)
    · cases h
  · rintro rfl
    rw [if_pos (inRange_toInt o), Int32.ofInt_toInt]

/-- An integer out of range has no ordinal, and every other one has. -/
theorem ofInt?_eq_none_iff {v : Int} : ofInt? v = none ↔ ¬ InRange v := by
  simp [ofInt?]

/-- An ordinal is brought back from its value. -/
@[simp] theorem ofInt?_toInt (o : Ordinal) : ofInt? o.toInt = some o :=
  ofInt?_eq_some_iff.mpr rfl

/-! ### Checked addition -/

/-- The sum of two ordinals, if it is one. -/
def add? (a b : Ordinal) : Option Ordinal :=
  ofInt? (a.toInt + b.toInt)

/-- The sum is an ordinal exactly if some ordinal has the exact sum for its value. -/
theorem add?_eq_some_iff {a b c : Ordinal} : add? a b = some c ↔ c.toInt = a.toInt + b.toInt :=
  ofInt?_eq_some_iff

/-- There is no sum exactly if the exact one is out of range. -/
theorem add?_eq_none_iff {a b : Ordinal} : add? a b = none ↔ ¬ InRange (a.toInt + b.toInt) :=
  ofInt?_eq_none_iff

end Ordinal

end RangePattern
