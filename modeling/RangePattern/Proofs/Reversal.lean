import RangePattern.Proofs.Cursors
import RangePattern.Proofs.Terms

/-!
# Walking back

A walk that is walked back from its last term, by the opposite increment, hands out its terms in
reverse order and comes to rest at its first bound. Here the bound is always reached: it is a whole
number of increments away, and that is all that the way back has to test
(`Walk.continues_back_iff`). So the way back has as many values as the way there, and the `k`-th of
them is the `k`-th from the end (`Walk.values_back`).

To swap the bounds is something else. A walk from the last bound hands out that bound first, so it
can only be the way back if the bound is the last term. This is so exactly if it is a whole number
of increments away from the first (`Walk.values_swapped_iff`).

The main statement is `Progression.walked_back`. The least ordinal has no opposite, so it is no
increment that can be walked back.
-/

namespace RangePattern

/-- The opposite of an ordinal is an ordinal, unless it is the least one. -/
theorem Ordinal.toInt_neg {o : Ordinal} (h : o ≠ Int32.minValue) : (-o).toInt = -o.toInt := by
  have ho := inRange_toInt o
  have hne : o.toInt ≠ -2147483648 := fun heq => h (Int32.toInt_inj.mp heq)
  unfold InRange at ho
  rw [Int32.toInt_neg]
  exact Int.bmod_eq_of_le (by omega) (by omega)

namespace Walk

variable {last increment v z : Int}

/-! ## The walk that tests its bound -/

/-- A walk that goes on at its first value could be walked from the other bound. -/
theorem Continues.swap (h : Continues last increment v) : Continues v (-increment) last := by
  unfold Continues at h ⊢
  omega

/-- **A walk back to `v`** goes on at what lies a natural number of increments ahead of `v`. -/
theorem continues_back_iff (h0 : increment ≠ 0) (j : Int) :
    Continues v (-increment) (v + j * increment) ↔ 0 ≤ j := by
  unfold Continues
  rcases Int.lt_or_gt_of_ne h0 with hneg | hpos
  · have hj : 0 ≤ j * -increment ↔ 0 ≤ j := mul_nonneg_iff_of_pos_right (by omega)
    rw [Int.mul_neg] at hj
    omega
  · have hj : 0 ≤ j * increment ↔ 0 ≤ j := mul_nonneg_iff_of_pos_right hpos
    omega

/-- **The way back** hands out the values of the way there in reverse order. -/
theorem values_back (h : (values last increment v).getLast? = some z) :
    values v (-increment) z = (values last increment v).reverse := by
  obtain ⟨hpos, hz⟩ := getLast?_values_eq_some_iff_length.mp h
  obtain ⟨h0, -, -⟩ := mem_values_iff.mp (List.mem_of_getLast? h)
  -- Counted from the end, the `k`-th value is the first one plus `n - 1 - k` increments.
  have hvalue : ∀ k : Nat, z + k * -increment =
      v + ((values last increment v).length - 1 - k : Int) * increment := by
    intro k
    rw [hz, Int.natCast_sub hpos]
    ring
  have hcount : ∀ k : Nat, k < (values last increment v).length ↔
      Continues v (-increment) (z + k * -increment) := by
    intro k
    rw [hvalue, continues_back_iff h0]
    omega
  rw [values_eq_map_range hcount]
  apply List.ext_getElem
  · rw [List.length_map, List.length_range, List.length_reverse]
  · intro k hk hk'
    rw [List.length_map, List.length_range] at hk
    rw [List.getElem_map, List.getElem_range, List.getElem_reverse, getElem_values, hvalue,
      Int.natCast_sub (by omega), Int.natCast_sub hpos]
    rfl

/-- **With its bounds swapped** a walk is the way back exactly if the last bound is a whole number
of increments away from the first. -/
theorem values_swapped_iff (h : values last increment v ≠ []) :
    values v (-increment) last = (values last increment v).reverse ↔ increment ∣ last - v := by
  constructor
  · intro heq
    have hne : values v (-increment) last ≠ [] := by
      rw [heq]
      exact mt List.reverse_eq_nil_iff.mp h
    have hlast : (values last increment v).getLast? = some last := by
      rw [← List.head?_reverse, ← heq, head?_values hne]
    obtain ⟨-, ⟨k, hk⟩, -⟩ := mem_values_iff.mp (List.mem_of_getLast? hlast)
    exact ⟨k, by rw [hk, Int.mul_comm]⟩
  · rintro ⟨j, hj⟩
    have hgo : Continues last increment v := by
      by_contra hstop
      exact h (values_of_not_continues hstop)
    have h0 : increment ≠ 0 := (continues_iff_not_past.mp hgo).1
    have hback := hgo.swap
    rw [show last = v + j * increment by rw [Int.mul_comm, ← hj]; omega, continues_back_iff h0]
      at hback
    obtain ⟨k, rfl⟩ := Int.eq_ofNat_of_zero_le hback
    have hmem : last ∈ values last increment v := by
      refine mem_values_iff.mpr ⟨h0, ⟨k, by rw [hj, Int.mul_comm]⟩, ?_⟩
      unfold Past
      omega
    exact values_back (getLast?_values_of_mem hmem)

end Walk

namespace Progression

variable {first last increment : Ordinal}

/-! ## The counted walk -/

/-- The terms are counted by the walk that tests its bound. -/
theorem length_values (first last increment : Ordinal) :
    (Walk.values last.toInt increment.toInt first.toInt).length =
      (termCount first last increment).toNat := by
  rw [← map_toInt_items_between, List.length_map, length_items_between]

/-- A walk that has terms has a last one, and this is an ordinal. -/
theorem exists_final (hpos : 1 ≤ (termCount first last increment).toNat) :
    ∃ final : Ordinal,
      (Walk.values last.toInt increment.toInt first.toInt).getLast? = some final.toInt := by
  have hne : Cursor.items (between first last increment) ≠ [] := by
    apply List.ne_nil_of_length_pos
    rw [length_items_between]
    exact hpos
  refine ⟨(Cursor.items (between first last increment)).getLast hne, ?_⟩
  rw [← map_toInt_items_between, List.getLast?_map, List.getLast?_eq_some_getLast hne]
  rfl

/-- What is collected on the way back is what is collected on the way there, in reverse order, if so
it is for the walks that test their bounds. -/
theorem collect_eq_reverse_iff (final : Ordinal) (hmin : increment ≠ Int32.minValue) :
    (Cursor.collect (between final first (-increment))).1 =
        (Cursor.collect (between first last increment)).1.reverse ↔
      Walk.values first.toInt (-increment.toInt) final.toInt =
        (Walk.values last.toInt increment.toInt first.toInt).reverse := by
  rw [Cursor.collect_fst, Cursor.collect_fst, ← map_toInt_inj, List.map_reverse,
    map_toInt_items_between, map_toInt_items_between, Ordinal.toInt_neg hmin]

/-- **A walk can be walked back.** Let a walk have terms, and let its increment not be the least
ordinal. Then its last term is an ordinal, the first bound plus one increment less than there are
terms. The walk from there towards the first bound, by the opposite increment, has the same terms in
reverse order, and it counts as many. The walk from the last bound, by the opposite increment, has
them exactly if the increment divides the difference of the two bounds. -/
theorem walked_back (hmin : increment ≠ Int32.minValue)
    (hpos : 1 ≤ (termCount first last increment).toNat) :
    (∃ final : Ordinal,
      final.toInt =
        first.toInt + ((termCount first last increment).toNat - 1 : Nat) * increment.toInt ∧
      (-increment).toInt = -increment.toInt ∧
      (Cursor.collect (between final first (-increment))).1 =
        (Cursor.collect (between first last increment)).1.reverse ∧
      termCount final first (-increment) = termCount first last increment) ∧
    ((Cursor.collect (between last first (-increment))).1 =
        (Cursor.collect (between first last increment)).1.reverse ↔
      increment.toInt ∣ last.toInt - first.toInt) := by
  obtain ⟨final, hlast⟩ := exists_final hpos
  obtain ⟨hlen, hfinal⟩ := Walk.getLast?_values_eq_some_iff_length.mp hlast
  have hneg := Ordinal.toInt_neg hmin
  have hback := Walk.values_back hlast
  refine ⟨⟨final, ?_, hneg, ?_, ?_⟩, ?_⟩
  · rw [hfinal, length_values]
  · exact (collect_eq_reverse_iff final hmin).mpr hback
  · rw [← UInt64.toNat_inj, ← length_values, ← length_values, hneg, hback, List.length_reverse]
  · rw [collect_eq_reverse_iff last hmin]
    exact Walk.values_swapped_iff (List.ne_nil_of_length_pos hlen)

/-- `walked_back` from one end of the ordinals towards the other, which is not reached. -/
theorem walked_back_edge :
    (-2147483647 : Ordinal) ≠ Int32.minValue ∧
      1 ≤ (termCount 2147483647 (-2147483648) (-2147483647)).toNat ∧
      (∃ final : Ordinal,
        final.toInt = (2147483647 : Ordinal).toInt +
          ((termCount 2147483647 (-2147483648) (-2147483647)).toNat - 1 : Nat) *
            (-2147483647 : Ordinal).toInt ∧
        (-(-2147483647) : Ordinal).toInt = -(-2147483647 : Ordinal).toInt ∧
        (Cursor.collect (between final 2147483647 (-(-2147483647)))).1 =
          (Cursor.collect (between 2147483647 (-2147483648) (-2147483647))).1.reverse ∧
        termCount final 2147483647 (-(-2147483647)) =
          termCount 2147483647 (-2147483648) (-2147483647)) ∧
      ((Cursor.collect (between (-2147483648) 2147483647 (-(-2147483647)))).1 =
          (Cursor.collect (between 2147483647 (-2147483648) (-2147483647))).1.reverse ↔
        (-2147483647 : Ordinal).toInt ∣
          (-2147483648 : Ordinal).toInt - (2147483647 : Ordinal).toInt) := by
  have hmin : (-2147483647 : Ordinal) ≠ Int32.minValue := by decide
  have hpos : 1 ≤ (termCount 2147483647 (-2147483648) (-2147483647)).toNat := by decide
  exact ⟨hmin, hpos, walked_back hmin hpos⟩

end Progression

end RangePattern
