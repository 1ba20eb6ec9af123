import Mathlib.Algebra.Order.Ring.Int
import Mathlib.Data.List.Basic
import Mathlib.Order.Interval.Set.UnorderedInterval
import Mathlib.Tactic.Ring

/-!
# The walk that tests its bound

The plainest reading of a range is a loop over the integers: start at the first value, and as long
as the value at hand is not past the last one, hand it out and add the increment. `Walk.values` is
that loop. It knows nothing of words, of counts or of overflow, and it is what the ordinals of a
range are measured against.

The loop has a closed form. It goes on at its `k`-th value exactly if it has a `k`-th value
(`Walk.lt_length_values_iff`), and that value is the first one plus `k` increments
(`Walk.getElem_values`). Where it ends (`Walk.getLast?_values_eq_some_iff`), membership
(`Walk.mem_values_iff`) and order (`Walk.pairwise_values`) follow from these two.
-/

namespace RangePattern.Walk

/-! ## The loop -/

/-- The loop goes on at `v`: there is a direction, and `v` is not past `last` in it. -/
def Continues (last increment v : Int) : Prop :=
  (0 < increment ∧ v ≤ last) ∨ (increment < 0 ∧ last ≤ v)

/-- Whether the loop goes on is decided by its test. -/
instance (last increment v : Int) : Decidable (Continues last increment v) :=
  inferInstanceAs (Decidable (_ ∨ _))

/-- The value `v` lies past `last` in the direction of the increment. -/
def Past (last increment v : Int) : Prop :=
  (0 < increment ∧ last < v) ∨ (increment < 0 ∧ v < last)

/-- Apart from the direction, to go on is not to be past the last value. -/
theorem continues_iff_not_past {last increment v : Int} :
    Continues last increment v ↔ increment ≠ 0 ∧ ¬ Past last increment v := by
  unfold Continues Past
  omega

/-- The room between `v` and the last value, the last value included. -/
def room (last increment v : Int) : Nat :=
  if 0 < increment then (last + 1 - v).toNat else (v + 1 - last).toNat

/-- One step takes at least one value of the room. -/
theorem room_step_lt {last increment v : Int} (h : Continues last increment v) :
    room last increment (v + increment) < room last increment v := by
  unfold room
  rcases h with ⟨hpos, hle⟩ | ⟨hneg, hle⟩
  · rw [if_pos hpos, if_pos hpos]
    omega
  · rw [if_neg (by omega), if_neg (by omega)]
    omega

/-- The values from `v` on: hand out `v` and add the increment, while `v` is not past `last`. -/
def values (last increment v : Int) : List Int :=
  if Continues last increment v then v :: values last increment (v + increment) else []
termination_by room last increment v
decreasing_by exact room_step_lt (by assumption)

/-- As long as the loop goes on, it hands out the value and takes a step. -/
theorem values_of_continues {last increment v : Int} (h : Continues last increment v) :
    values last increment v = v :: values last increment (v + increment) := by
  rw [values, if_pos h]

/-- Where it does not go on, it hands out nothing more. -/
theorem values_of_not_continues {last increment v : Int} (h : ¬ Continues last increment v) :
    values last increment v = [] := by
  rw [values, if_neg h]

/-- If there are values at all, the first one is that which the loop starts at. -/
theorem head?_values {last increment v : Int} (h : values last increment v ≠ []) :
    (values last increment v).head? = some v := by
  by_cases hgo : Continues last increment v
  · rw [values_of_continues hgo, List.head?_cons]
  · exact absurd (values_of_not_continues hgo) h

/-! ## The closed form -/

/-- Where the loop goes on, it also went on at every value before. -/
theorem Continues.of_add_mul {last increment v : Int} {k : Nat}
    (h : Continues last increment (v + k * increment)) : Continues last increment v := by
  rcases h with ⟨hpos, hle⟩ | ⟨hneg, hle⟩
  · have hk : 0 ≤ k * increment := Int.mul_nonneg (Int.natCast_nonneg k) hpos.le
    exact Or.inl ⟨hpos, by omega⟩
  · have hk : k * increment ≤ 0 :=
      Int.mul_nonpos_of_nonneg_of_nonpos (Int.natCast_nonneg k) hneg.le
    exact Or.inr ⟨hneg, by omega⟩

/-- Where the loop goes on, it is between its first value and the last one. -/
theorem Continues.mem_uIcc {first last increment : Int} {k : Nat}
    (h : Continues last increment (first + k * increment)) :
    first + k * increment ∈ Set.uIcc first last := by
  rw [Set.mem_uIcc]
  rcases h with ⟨hpos, hle⟩ | ⟨hneg, hle⟩
  · have hk : 0 ≤ k * increment := Int.mul_nonneg (Int.natCast_nonneg k) hpos.le
    exact Or.inl ⟨by omega, hle⟩
  · have hk : k * increment ≤ 0 :=
      Int.mul_nonpos_of_nonneg_of_nonpos (Int.natCast_nonneg k) hneg.le
    exact Or.inr ⟨hle, by omega⟩

/-- A value after the first one is a value of the loop that starts one step later. -/
theorem add_succ_mul (v increment : Int) (k : Nat) :
    v + (k + 1 : Nat) * increment = v + increment + k * increment := by
  push_cast
  ring

/-- So is it, more generally, a value of the loop that starts `c` steps later. -/
theorem add_add_mul (v increment : Int) (c k : Nat) :
    v + (c + k : Nat) * increment = v + c * increment + k * increment := by
  push_cast
  ring

/-- **The loop has a `k`-th value exactly if it goes on there.** -/
theorem lt_length_values_iff (last increment v : Int) (k : Nat) :
    k < (values last increment v).length ↔ Continues last increment (v + k * increment) := by
  by_cases h : Continues last increment v
  · rw [values_of_continues h]
    cases k with
    | zero => simpa using h
    | succ k =>
      rw [List.length_cons, Nat.add_lt_add_iff_right, add_succ_mul]
      exact lt_length_values_iff last increment (v + increment) k
  · rw [values_of_not_continues h]
    refine ⟨fun hk => absurd hk (Nat.not_lt_zero k), fun hk => absurd hk.of_add_mul h⟩
termination_by room last increment v
decreasing_by exact room_step_lt h

/-- **The `k`-th value** is the first one plus `k` increments. -/
theorem getElem_values {last increment v : Int} {k : Nat}
    (hk : k < (values last increment v).length) :
    (values last increment v)[k] = v + k * increment := by
  induction k generalizing v with
  | zero =>
    have h : Continues last increment v := by
      simpa using (lt_length_values_iff last increment v 0).mp hk
    simp [values_of_continues h]
  | succ k ih =>
    have h : Continues last increment v := ((lt_length_values_iff _ _ _ _).mp hk).of_add_mul
    simp only [values_of_continues h, List.length_cons, Nat.add_lt_add_iff_right] at hk
    simp only [values_of_continues h, List.getElem_cons_succ]
    rw [ih hk, add_succ_mul]

/-- The loop as a list of sums, one for each step. -/
theorem values_eq_map_range {last increment v : Int} {n : Nat}
    (hn : ∀ k : Nat, k < n ↔ Continues last increment (v + k * increment)) :
    values last increment v = (List.range n).map fun k : Nat => v + k * increment := by
  have hlen : (values last increment v).length = n := by
    apply Nat.le_antisymm
    · by_contra hlt
      exact Nat.lt_irrefl n ((hn n).mpr ((lt_length_values_iff _ _ _ n).mp (by omega)))
    · by_contra hlt
      have h := (hn (values last increment v).length).mp (by omega)
      exact Nat.lt_irrefl _ ((lt_length_values_iff _ _ _ _).mpr h)
  apply List.ext_getElem
  · simp [hlen]
  · intro k hk hk'
    simp [getElem_values hk]

/-- **A walk that is moved** hands out the same values, moved as far. -/
theorem values_add (last increment v d : Int) :
    values (last + d) increment (v + d) =
      (values last increment v).map fun w => w + d := by
  have hcount := lt_length_values_iff last increment v
  have hmoved : ∀ k : Nat, k < (values last increment v).length ↔
      Continues (last + d) increment (v + d + k * increment) := by
    intro k
    rw [hcount]
    unfold Continues
    omega
  rw [values_eq_map_range hmoved, values_eq_map_range hcount, List.map_map,
    List.length_map, List.length_range]
  apply List.map_congr_left
  intro k _
  show v + d + k * increment = v + k * increment + d
  omega

/-- **Only what the loop tests matters**: with another last value, by which it goes on at the same
steps, it hands out the same values. -/
theorem values_congr {last last' increment v : Int}
    (h : ∀ k : Nat, Continues last increment (v + k * increment) ↔
      Continues last' increment (v + k * increment)) :
    values last increment v = values last' increment v := by
  have hcount := lt_length_values_iff last' increment v
  rw [values_eq_map_range hcount]
  exact values_eq_map_range fun k => (hcount k).trans (h k).symm

/-! ## Where the loop ends -/

/-- The last value, by its number: it is one increment less from the first value than there are
values. -/
theorem getLast?_values_eq_some_iff_length {last increment v z : Int} :
    (values last increment v).getLast? = some z ↔
      0 < (values last increment v).length ∧
        z = v + ((values last increment v).length - 1 : Nat) * increment := by
  rw [List.getLast?_eq_getElem?, List.getElem?_eq_some_iff]
  constructor
  · rintro ⟨hk, rfl⟩
    exact ⟨Nat.zero_lt_of_lt hk, getElem_values hk⟩
  · rintro ⟨hpos, rfl⟩
    exact ⟨Nat.sub_lt hpos Nat.one_pos, getElem_values _⟩

/-- **The last value that is handed out** is one at which the loop goes on, and behind which it does
not. -/
theorem getLast?_values_eq_some_iff {last increment v z : Int} :
    (values last increment v).getLast? = some z ↔
      ∃ k : Nat, z = v + k * increment ∧ Continues last increment z ∧
        ¬ Continues last increment (z + increment) := by
  have hnext : ∀ k : Nat, v + k * increment + increment = v + (k + 1 : Nat) * increment := by
    intro k
    push_cast
    ring
  rw [getLast?_values_eq_some_iff_length]
  constructor
  · rintro ⟨hpos, rfl⟩
    refine ⟨_, rfl, ?_, ?_⟩
    · rw [← lt_length_values_iff]
      exact Nat.sub_lt hpos Nat.one_pos
    · rw [hnext, ← lt_length_values_iff]
      omega
  · rintro ⟨k, rfl, hgo, hstop⟩
    have hk := (lt_length_values_iff _ _ _ k).mpr hgo
    rw [hnext, ← lt_length_values_iff] at hstop
    obtain rfl : k = (values last increment v).length - 1 := by omega
    exact ⟨Nat.zero_lt_of_lt hk, rfl⟩

/-- **The loop can be told its own last value**: with it as the bound, the same values are handed
out. -/
theorem values_of_getLast? {last increment v z : Int}
    (h : (values last increment v).getLast? = some z) :
    values z increment v = values last increment v := by
  obtain ⟨n, hz, hgo, hstop⟩ := getLast?_values_eq_some_iff.mp h
  apply values_congr
  intro k
  have hk : v + k * increment - z = (k - n : Int) * increment := by
    rw [hz]
    ring
  unfold Continues at hgo hstop ⊢
  rcases hgo with ⟨hpos, hle⟩ | ⟨hneg, hle⟩
  · -- A step that is not past the bound is not past `z` either, or it would be the one behind `z`.
    have hstep : (n : Int) < k → increment ≤ (k - n : Int) * increment := fun hnk =>
      le_mul_of_one_le_left hpos.le (by omega)
    have hback : (k : Int) ≤ n → (k - n : Int) * increment ≤ 0 := fun hkn =>
      Int.mul_nonpos_of_nonpos_of_nonneg (by omega) hpos.le
    omega
  · have hstep : (n : Int) < k → (k - n : Int) * increment ≤ increment := fun hnk =>
      mul_le_of_one_le_left hneg.le (by omega)
    have hback : (k : Int) ≤ n → 0 ≤ (k - n : Int) * increment := fun hkn =>
      Int.mul_nonneg_of_nonpos_of_nonpos (by omega) hneg.le
    omega

/-! ## Membership and order -/

/-- **What is handed out**: the multiples of the increment, counted from the first value, that are
not past the last one. -/
theorem mem_values_iff {last increment first v : Int} :
    v ∈ values last increment first ↔
      increment ≠ 0 ∧ (∃ k : Nat, v - first = k * increment) ∧ ¬ Past last increment v := by
  rw [List.mem_iff_getElem]
  constructor
  · rintro ⟨k, hk, rfl⟩
    have h := (lt_length_values_iff _ _ _ k).mp hk
    rw [getElem_values hk]
    exact ⟨(continues_iff_not_past.mp h).1, ⟨k, by ring⟩, (continues_iff_not_past.mp h).2⟩
  · rintro ⟨h0, ⟨k, hk⟩, hpast⟩
    obtain rfl : v = first + k * increment := by omega
    have h := continues_iff_not_past.mpr ⟨h0, hpast⟩
    exact ⟨k, (lt_length_values_iff _ _ _ k).mpr h, getElem_values _⟩

/-- All values lie between the first one and the last one. -/
theorem mem_uIcc_of_mem_values {last increment first v : Int}
    (h : v ∈ values last increment first) : v ∈ Set.uIcc first last := by
  obtain ⟨k, hk, rfl⟩ := List.mem_iff_getElem.mp h
  rw [getElem_values hk]
  exact ((lt_length_values_iff _ _ _ k).mp hk).mem_uIcc

/-- A bound that is reached is the last value. -/
theorem getLast?_values_of_mem {last increment first : Int}
    (h : last ∈ values last increment first) :
    (values last increment first).getLast? = some last := by
  obtain ⟨h0, ⟨k, hk⟩, hpast⟩ := mem_values_iff.mp h
  refine getLast?_values_eq_some_iff.mpr
    ⟨k, by omega, continues_iff_not_past.mpr ⟨h0, hpast⟩, ?_⟩
  unfold Continues
  omega

/-- Every value after the first lies strictly further in the direction of the increment. -/
theorem pairwise_values (last increment v : Int) :
    (values last increment v).Pairwise fun a b => 0 < (b - a) * increment := by
  rw [List.pairwise_iff_getElem]
  intro j k hj hk hjk
  have h0 : increment ≠ 0 :=
    (continues_iff_not_past.mp ((lt_length_values_iff _ _ _ k).mp hk)).1
  have hdiff : (values last increment v)[k] - (values last increment v)[j] =
      ((k - j : Nat) : Int) * increment := by
    rw [getElem_values hj, getElem_values hk, Int.natCast_sub hjk.le]
    ring
  have hpos : (0 : Int) < (k - j : Nat) := by omega
  rw [hdiff, mul_assoc]
  exact Int.mul_pos hpos (mul_self_pos.mpr h0)

/-- Upwards the values rise. -/
theorem pairwise_lt_values {last increment : Int} (h : 0 < increment) (v : Int) :
    (values last increment v).Pairwise (· < ·) := by
  refine (pairwise_values last increment v).imp fun {a b} hab => ?_
  have := pos_of_mul_pos_left hab h.le
  omega

/-- Downwards the values fall. -/
theorem pairwise_gt_values {last increment : Int} (h : increment < 0) (v : Int) :
    (values last increment v).Pairwise (· > ·) := by
  refine (pairwise_values last increment v).imp fun {a b} hab => ?_
  have := neg_of_mul_pos_left hab h.le
  omega

/-- No value is handed out twice. -/
theorem nodup_values (last increment v : Int) : (values last increment v).Nodup := by
  refine (pairwise_values last increment v).imp fun {a b} hab heq => ?_
  subst heq
  simp at hab

end RangePattern.Walk
