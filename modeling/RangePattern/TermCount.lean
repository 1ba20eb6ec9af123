import RangePattern.Ordinal

/-!
# Counting the terms of a range

From a first ordinal the terms of a range advance by a fixed increment for as long as they are not
past the last ordinal. The sign of the increment is the direction: upwards for a positive one,
downwards for a negative one. An increment of zero, or one that leads away from the last ordinal,
has no terms. The last ordinal itself is a term only if it is reached exactly.

The number of terms follows from the bounds alone: the distance to walk, divided by the size of a
step, and one more for the first term. It is computed in 64-bit words, since two ordinals can lie
further apart than the largest ordinal, and there can be `2 ^ 32` terms.

The main statement is `toNat_termCount`: **the count is exact**. No step of the computation leaves
the range of the words, so its result is the quotient of the integers.
-/

namespace RangePattern

/-! ### The computation in words -/

/-- The distance to walk from `first` to `last` in the direction of the increment, unless there is
no way at all. -/
def distance? (first last increment : Int64) : Option Int64 :=
  if 0 < increment ∧ first ≤ last then some (last - first)
  else if increment < 0 ∧ last ≤ first then some (first - last)
  else none

/-- The number of terms from `first` towards `last`. -/
def termCount (first last increment : Ordinal) : UInt64 :=
  match distance? first.toInt64 last.toInt64 increment.toInt64 with
  | none => 0
  | some d => (d / increment.toInt64.abs).toUInt64 + 1

/-! ### The computation is exact -/

/-- The distance between two ordinals fits into a word. -/
theorem toInt_sub_toInt64 (a b : Ordinal) : (a.toInt64 - b.toInt64).toInt = a.toInt - b.toInt := by
  have ha := Ordinal.inRange_toInt a
  have hb := Ordinal.inRange_toInt b
  unfold Ordinal.InRange at ha hb
  rw [Int64.toInt_sub, Int32.toInt_toInt64, Int32.toInt_toInt64]
  exact Int.bmod_eq_of_le (by omega) (by omega)

/-- The size of a step fits into a word. -/
theorem toInt_abs_toInt64 (o : Ordinal) : o.toInt64.abs.toInt = o.toInt.natAbs := by
  have ho := Ordinal.inRange_toInt o
  unfold Ordinal.InRange at ho
  have hb : o.toInt64.toBitVec.toInt = o.toInt := by
    rw [Int64.toInt_toBitVec, Int32.toInt_toInt64]
  rw [← Int64.toInt_toBitVec, Int64.toBitVec_abs, BitVec.toInt_abs_eq_natAbs, hb, if_neg]
  intro hm
  rw [hm, BitVec.toInt_intMin] at hb
  omega

/-- The quotient of a distance and the size of a step is that of the integers. -/
theorem toInt_quotient {d a : Int64} (hd : 0 ≤ d.toInt) (hd' : d.toInt ≤ 4294967295)
    (ha : 0 ≤ a.toInt) : (d / a).toInt = d.toInt / a.toInt := by
  have hq : 0 ≤ d.toInt / a.toInt := Int.ediv_nonneg hd ha
  have hq' : d.toInt / a.toInt ≤ d.toInt := Int.ediv_le_self _ hd
  rw [Int64.toInt_div, Int.tdiv_eq_ediv_of_nonneg hd]
  exact Int.bmod_eq_of_le (by omega) (by omega)

/-- A word that is not negative keeps its value when its sign is given up. -/
theorem toNat_toUInt64 {a : Int64} (ha : 0 ≤ a.toInt) : (a.toUInt64.toNat : Int) = a.toInt := by
  have hle : 0 ≤ a := by
    rw [Int64.le_iff_toInt_le]
    exact ha
  rw [Int64.toNat_toUInt64_of_le hle, ← Int64.toNat_toInt, Int.toNat_of_nonneg ha]

/-- The quotient of a distance and the size of a step, and one more, fit into a word. -/
theorem toNat_quotient {d a : Int64} (hd : 0 ≤ d.toInt) (hd' : d.toInt ≤ 4294967295)
    (ha : 0 ≤ a.toInt) : (((d / a).toUInt64 + 1).toNat : Int) = d.toInt / a.toInt + 1 := by
  have hw := toInt_quotient hd hd' ha
  have hq : 0 ≤ d.toInt / a.toInt := Int.ediv_nonneg hd ha
  have hq' : d.toInt / a.toInt ≤ d.toInt := Int.ediv_le_self _ hd
  have hn : ((d / a).toUInt64.toNat : Int) = d.toInt / a.toInt := by
    rw [toNat_toUInt64 (by omega), hw]
  rw [UInt64.toNat_add]
  change (((d / a).toUInt64.toNat + 1) % 2 ^ 64 : Nat) = d.toInt / a.toInt + 1
  omega

/-- **The count is exact.** It is one more than the number of whole steps that fit between the
bounds, in the direction of the increment. -/
theorem toNat_termCount (first last increment : Ordinal) :
    ((termCount first last increment).toNat : Int) =
      if 0 < increment.toInt ∧ first.toInt ≤ last.toInt then
        (last.toInt - first.toInt) / increment.toInt + 1
      else if increment.toInt < 0 ∧ last.toInt ≤ first.toInt then
        (first.toInt - last.toInt) / -increment.toInt + 1
      else 0 := by
  have hf := Ordinal.inRange_toInt first
  have hl := Ordinal.inRange_toInt last
  unfold Ordinal.InRange at hf hl
  have ha := toInt_abs_toInt64 increment
  have hup := toInt_sub_toInt64 last first
  have hdown := toInt_sub_toInt64 first last
  simp only [termCount, distance?, Int64.lt_iff_toInt_lt, Int64.le_iff_toInt_le,
    Int32.toInt_toInt64, Int64.toInt_zero]
  by_cases h : 0 < increment.toInt ∧ first.toInt ≤ last.toInt
  · rw [if_pos h, if_pos h]
    simp only
    rw [toNat_quotient (by omega) (by omega) (by omega), hup, ha, Int.natAbs_of_nonneg (by omega)]
  · rw [if_neg h, if_neg h]
    by_cases h' : increment.toInt < 0 ∧ last.toInt ≤ first.toInt
    · rw [if_pos h', if_pos h']
      simp only
      rw [toNat_quotient (by omega) (by omega) (by omega), hdown, ha, Int.ofNat_natAbs_of_nonpos
        (by omega)]
    · rw [if_neg h', if_neg h']
      rfl

end RangePattern
