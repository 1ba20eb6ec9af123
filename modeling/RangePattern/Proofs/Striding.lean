import Mathlib.Algebra.Order.Floor.Div
import RangePattern.Proofs.Cursors
import RangePattern.Proofs.Terms

/-!
# Longer strides

Of a walk one can keep every `k`-th term, or one can walk with `k` increments at a time. The terms
are the same. The two ways get there differently: the first one takes all steps and counts them off,
the second one has a count of its own, by another division, and its addition may fail where none of
the short steps does.

On the walk that tests its bound there is not much to see. It does not know how it came to a value,
so what is left behind `n` values is the walk from there on (`Walk.drop_values`), and whether it
goes on does not depend on the length of its step, only on the direction
(`Walk.continues_mul_iff`). So a stride and the walk with long steps agree at the first value and
then again at the next one that is kept (`Walk.stride_values`). The main statement is
`Progression.strides_compose`.
-/

namespace RangePattern

namespace Walk

/-! ## The walk that tests its bound -/

/-- **What is left behind `n` values** is the walk that starts there. -/
theorem drop_values (n : Nat) (last increment v : Int) :
    (values last increment v).drop n = values last increment (v + n * increment) := by
  induction n generalizing v with
  | zero => simp
  | succ n ih =>
    rw [add_succ_mul]
    by_cases h : Continues last increment v
    · rw [values_of_continues h, List.drop_succ_cons, ih]
    · have hbehind : ¬ Continues last increment (v + increment + n * increment) := by
        rw [← add_succ_mul]
        exact fun hgo => h hgo.of_add_mul
      rw [values_of_not_continues h, values_of_not_continues hbehind, List.drop_nil]

/-- Whether the walk goes on depends on the direction of its step, not on the length. -/
theorem continues_mul_iff {k : Nat} (hk : 0 < k) {last increment v : Int} :
    Continues last (k * increment) v ↔ Continues last increment v := by
  have hk' : (0 : Int) < k := Int.natCast_pos.mpr hk
  have hup : 0 < k * increment ↔ 0 < increment := smul_pos_iff_of_pos_left hk'
  have hdown : k * increment < 0 ↔ increment < 0 := smul_neg_iff_of_pos_left hk'
  unfold Continues
  rw [hup, hdown]

/-- **A stride is a walk with long steps.** -/
theorem stride_values {k : Nat} (hk : 0 < k) (last increment v : Int) :
    Cursor.stride k (values last increment v) = values last (k * increment) v := by
  by_cases h : Continues last increment v
  · have hlong : Continues last (k * increment) v := (continues_mul_iff hk).mpr h
    have hnext : v + increment + (k - 1 : Nat) * increment = v + k * increment := by
      rw [← add_succ_mul, Nat.sub_add_cancel hk]
    rw [values_of_continues h, values_of_continues hlong, Cursor.stride, drop_values, hnext,
      stride_values hk last increment]
  · have hlong : ¬ Continues last (k * increment) v := fun hgo => h ((continues_mul_iff hk).mp hgo)
    rw [values_of_not_continues h, values_of_not_continues hlong, Cursor.stride]
termination_by room last (k * increment) v
decreasing_by exact room_step_lt hlong

end Walk

/-! ## The counted walk -/

section

variable {first last increment wide : Ordinal} {k : Nat}

/-- **The count of the long steps** is the count of the short ones, divided by `k` and rounded
up. -/
theorem toNat_termCount_wide (hk : 0 < k) (hwide : wide.toInt = k * increment.toInt) :
    (termCount first last wide).toNat = (termCount first last increment).toNat ⌈/⌉ k := by
  apply eq_of_forall_ge_iff
  intro n
  have hvalue : first.toInt + n * wide.toInt = first.toInt + (k * n : Nat) * increment.toInt := by
    rw [hwide]
    push_cast
    ring
  rw [ceilDiv_le_iff_le_mul hk, ← not_lt, ← not_lt, lt_toNat_termCount_iff, lt_toNat_termCount_iff,
    hvalue, hwide, Walk.continues_mul_iff hk]

/-- **Strides compose.** Let an ordinal be `k` times the increment, for a positive `k`. The terms
of a walk at the positions `0`, `k`, `2 * k` and so on are the terms of the walk between the same
bounds with that ordinal for its increment, whether they are picked from the list of all terms or
handed out by the walk as it goes along. And these are as many as the terms of the first walk,
divided by `k` and rounded up. -/
theorem Progression.strides_compose (hk : 0 < k) (hwide : wide.toInt = k * increment.toInt) :
    Cursor.multiples k (Cursor.collect (between first last increment)).1 =
        (Cursor.collect (between first last wide)).1 ∧
      (Cursor.every k (between first last increment)).1 =
        (Cursor.collect (between first last wide)).1 ∧
      (termCount first last wide).toNat = (termCount first last increment).toNat ⌈/⌉ k := by
  have hstride : Cursor.stride k (Cursor.items (between first last increment)) =
      Cursor.items (between first last wide) := by
    rw [← map_toInt_inj, ← Cursor.stride_map, map_toInt_items_between, map_toInt_items_between,
      hwide, Walk.stride_values hk]
  refine ⟨?_, ?_, toNat_termCount_wide hk hwide⟩
  · rw [Cursor.collect_fst, Cursor.collect_fst, ← Cursor.stride_eq_multiples hk, hstride]
  · rw [Cursor.every_fst, Cursor.collect_fst, hstride]

end

/-- `Progression.strides_compose` up to the end of the ordinals, where a long step behind the last
term leads out of them and a short one does not. -/
theorem Progression.strides_compose_edge :
    0 < 4 ∧ (4 : Ordinal).toInt = (4 : Nat) * (1 : Ordinal).toInt ∧
      Cursor.multiples 4 (Cursor.collect (between 2147483640 2147483645 1)).1 =
        (Cursor.collect (between 2147483640 2147483645 4)).1 ∧
      (Cursor.every 4 (between 2147483640 2147483645 1)).1 =
        (Cursor.collect (between 2147483640 2147483645 4)).1 ∧
      (termCount 2147483640 2147483645 4).toNat =
        (termCount 2147483640 2147483645 1).toNat ⌈/⌉ 4 := by
  have hk : 0 < 4 := by decide
  have hwide : (4 : Ordinal).toInt = (4 : Nat) * (1 : Ordinal).toInt := by decide
  exact ⟨hk, hwide, strides_compose hk hwide⟩

end RangePattern
