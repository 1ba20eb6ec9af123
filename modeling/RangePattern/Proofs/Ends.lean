import RangePattern.Proofs.RoundTrip
import RangePattern.Proofs.Spelling

/-!
# A range from its own ends

The first and the last item of an expansion are tokens, and so they can be the bounds of a pattern
again. That pattern walks the same way, since the loop stops at the last value that it has reached
(`Walk.values_of_getLast?`). What may differ is the width. The new bounds ask for a width by the way
they were written, not by the way the old bounds were spelled: a sign hides what was filled up, and
a lone `0` asks for a width of one where none was asked for.

Neither does harm as long as one of the ends is not negative (`Decimal.write_of_ends`). If such an
end was filled up, it begins with a `0` and asks for the width as it was. If it was not, then
nothing was: between two ends that are not negative no numeral is shorter than theirs, and across
zero the width can only have come from a bound on the same side of zero, which would have filled up
the end (`Decimal.commonWidth_le_one_of_crossing`).

The main statement is `expand_from_ends`. With two negative ends it would not hold: `-5..0003..100`
expands to `-005` alone, and `-005..-005..100` asks for no width.
-/

namespace RangePattern

open Decimal (Numeral)

/-- Which bound comes first makes no difference to the width. -/
theorem commonWidth_comm (a b : String) : commonWidth a b = commonWidth b a := Nat.max_comm _ _

namespace Decimal

/-! ## The width that a numeral asks for -/

/-- A numeral of a negative number asks for no width. -/
theorem Numeral.zeroWidth_of_neg {t : String} {v : Int} (h : Numeral t.toList v) (hv : v < 0) :
    zeroWidth t = 0 := by
  apply if_neg
  intro h0
  obtain ⟨-, rfl⟩ := h.of_head?_eq_zero h0
  omega

/-- **A numeral that asks for a width is longer than it need be**, unless it is a lone `0`. -/
theorem Numeral.length_chars_lt_zeroWidth {t : String} {v : Int} (h : Numeral t.toList v)
    (hwidth : 1 < zeroWidth t) : (chars v).length < zeroWidth t := by
  by_cases h0 : ZeroLed t
  · have hlen : zeroWidth t = t.length := if_pos h0
    rw [hlen] at hwidth ⊢
    by_contra hle
    have ht : t = ofInt v := by rw [← write_of_zeroLed h0 h, write_of_le (by omega)]
    have hchars : t.toList = chars v := by rw [ht, ofInt, String.toList_ofList]
    -- Then the canonical numeral begins with `0`, so it is that of zero, which has one digit.
    have hv : v = 0 := head?_chars_eq_zero_iff.mp (hchars ▸ h0)
    rw [← String.length_toList, hchars, hv] at hwidth
    exact absurd hwidth (by decide)
  · have hnone : zeroWidth t = 0 := if_neg h0
    omega

/-! ## The width that a written number asks for -/

/-- At this width the number is filled up, and no sign stands in front of the zeros. -/
def ZeroFilled (width : Nat) (v : Int) : Prop := 0 ≤ v ∧ (chars v).length < width

/-- A written number asks for no more than its length. -/
theorem zeroWidth_write_le (width : Nat) (v : Int) :
    zeroWidth (write width v) ≤ max width (chars v).length := by
  rw [← length_padded, ← toList_write, String.length_toList]
  unfold zeroWidth
  split <;> omega

/-- **What was filled up asks for the width** at which it was written. -/
theorem zeroWidth_write_of_zeroFilled {width : Nat} {v : Int} (h : ZeroFilled width v) :
    zeroWidth (write width v) = width := by
  obtain ⟨h0, hlt⟩ := h
  obtain ⟨k, hk⟩ : ∃ k, width - (chars v).length = k + 1 :=
    Nat.exists_eq_succ_of_ne_zero (by omega)
  have hled : ZeroLed (write width v) := by
    rw [ZeroLed, toList_write, padded_of_nonneg width h0, hk, List.replicate_succ]
    rfl
  have hlen : zeroWidth (write width v) = (write width v).length := if_pos hled
  rw [hlen, ← String.length_toList, toList_write, length_padded]
  omega

/-- **Everything else asks for a width of one at most.** -/
theorem zeroWidth_write_of_not_zeroFilled {width : Nat} {v : Int} (h : ¬ ZeroFilled width v) :
    zeroWidth (write width v) ≤ 1 := by
  rcases Int.lt_or_le v 0 with hv | hv
  · rw [(numeral_write width v).zeroWidth_of_neg hv]
    omega
  · have hle : width ≤ (chars v).length := Nat.le_of_not_lt fun hlt => h ⟨hv, hlt⟩
    have hmax := zeroWidth_write_le width v
    by_contra hgt
    have hlt := (numeral_write width v).length_chars_lt_zeroWidth (by omega)
    omega

/-! ## The width that two ends ask for -/

/-- If one end was filled up, the two of them ask for a width that shows as the old one did. -/
theorem write_of_zeroFilled {width : Nat} {x : Int} (h : ZeroFilled width x) (y v : Int) :
    write (commonWidth (write width x) (write width y)) v = write width v := by
  have hx := zeroWidth_write_of_zeroFilled h
  have hy : zeroWidth (write width y) ≤ max width 1 := by
    by_cases hfilled : ZeroFilled width y
    · rw [zeroWidth_write_of_zeroFilled hfilled]
      omega
    · have := zeroWidth_write_of_not_zeroFilled hfilled
      omega
  have hpos : 0 < (chars v).length := List.length_pos_of_ne_nil (chars_ne_nil v)
  apply write_congr
  unfold commonWidth
  omega

/-- **A width that does not show at the end of a way across zero** is none: only the bound on the
side of that end can ask for a width, and then for more than any number up to it has by itself. -/
theorem commonWidth_le_one_of_crossing {a b : String} {s e x : Int} (ha : Numeral a.toList s)
    (hb : Numeral b.toList e) (hs : s < 0) (hx : 0 ≤ x) (hxe : x ≤ e)
    (hfilled : ¬ ZeroFilled (commonWidth a b) x) : commonWidth a b ≤ 1 := by
  have hle : commonWidth a b ≤ (chars x).length := Nat.le_of_not_lt fun hlt => hfilled ⟨hx, hlt⟩
  have hwidth : commonWidth a b = zeroWidth b := by
    rw [commonWidth, ha.zeroWidth_of_neg hs, Nat.zero_max]
  have hmono := length_chars_mono hx hxe
  rw [hwidth] at hle ⊢
  by_contra hgt
  have hlt := hb.length_chars_lt_zeroWidth (by omega)
  omega

/-- **If neither end shows a width, nothing between them does.** -/
theorem write_of_not_zeroFilled {a b : String} {s e z v : Int} (ha : Numeral a.toList s)
    (hb : Numeral b.toList e) (hz : z ∈ Set.uIcc s e) (hsign : 0 ≤ s ∨ 0 ≤ z)
    (hs : ¬ ZeroFilled (commonWidth a b) s) (hz' : ¬ ZeroFilled (commonWidth a b) z)
    (hv : v ∈ Set.uIcc s z) : write (commonWidth a b) v = ofInt v := by
  rw [Set.mem_uIcc] at hz hv
  by_cases hs0 : 0 ≤ s
  · by_cases hz0 : 0 ≤ z
    · -- Both ends are as long as the width, and so is all that lies between them.
      have hle_s := Nat.le_of_not_lt fun hlt => hs ⟨hs0, hlt⟩
      have hle_z := Nat.le_of_not_lt fun hlt => hz' ⟨hz0, hlt⟩
      apply write_of_le
      rcases hv with ⟨hsv, -⟩ | ⟨hzv, -⟩
      · exact hle_s.trans (length_chars_mono hs0 hsv)
      · exact hle_z.trans (length_chars_mono hz0 hzv)
    · rw [commonWidth_comm] at hs ⊢
      exact write_of_le_one
        (commonWidth_le_one_of_crossing hb ha (by omega) hs0 (Int.le_refl s) hs) v
  · have hz0 : 0 ≤ z := hsign.resolve_left hs0
    exact write_of_le_one
      (commonWidth_le_one_of_crossing ha hb (by omega) hz0 (by omega) hz') v

/-- **The ends ask for a width that shows as the old one did**, at every number between them, if one
of them is not negative. -/
theorem write_of_ends {a b : String} {s e z v : Int} (ha : Numeral a.toList s)
    (hb : Numeral b.toList e) (hz : z ∈ Set.uIcc s e) (hsign : 0 ≤ s ∨ 0 ≤ z)
    (hv : v ∈ Set.uIcc s z) :
    write (commonWidth (write (commonWidth a b) s) (write (commonWidth a b) z)) v =
      write (commonWidth a b) v := by
  by_cases hs : ZeroFilled (commonWidth a b) s
  · exact write_of_zeroFilled hs z v
  · by_cases hz' : ZeroFilled (commonWidth a b) z
    · rw [commonWidth_comm (write _ s)]
      exact write_of_zeroFilled hz' s v
    · have hnew : commonWidth (write (commonWidth a b) s) (write (commonWidth a b) z) ≤ 1 :=
        Nat.max_le.mpr
          ⟨zeroWidth_write_of_not_zeroFilled hs, zeroWidth_write_of_not_zeroFilled hz'⟩
      rw [write_of_le_one hnew, write_of_not_zeroFilled ha hb hz hsign hs hz' hv]

end Decimal

/-! ## Expanding once more -/

/-- The first term of a range, if there is one, is the first value of the walk. -/
theorem Range.head?_values {r : Range} {o : Ordinal}
    (h : (Cursor.pop r.progression).1 = some o) :
    (Walk.values r.last.toInt r.increment.toInt r.first.toInt).head? = some o.toInt := by
  rw [← Progression.map_toInt_items_between, List.head?_map]
  rw [Cursor.pop_fst] at h
  exact congrArg (Option.map Int32.toInt) h

/-- So it is the first bound. -/
theorem Range.eq_first_of_pop {r : Range} {o : Ordinal}
    (h : (Cursor.pop r.progression).1 = some o) : o = r.first := by
  have hhead := Range.head?_values h
  have hne : Walk.values r.last.toInt r.increment.toInt r.first.toInt ≠ [] := by
    intro hnil
    rw [hnil] at hhead
    cases hhead
  rw [Walk.head?_values hne] at hhead
  exact Int32.toInt_inj.mp (Option.some.inj hhead).symm

/-- The last term of a range, if there is one, is the last value of the walk. -/
theorem Range.getLast?_values {r : Range} {o : Ordinal}
    (h : (Cursor.last r.progression).1 = some o) :
    (Walk.values r.last.toInt r.increment.toInt r.first.toInt).getLast? = some o.toInt := by
  rw [← Progression.map_toInt_items_between, List.getLast?_map]
  rw [Cursor.last_fst] at h
  exact congrArg (Option.map Int32.toInt) h

/-- **A range from its own ends.** Let a pattern stand for a range of numbers, let its walk have a
first and a last term, and let one of these not be negative. Then the first and the last item of the
expansion, joined with the canonical numeral of the increment, expand to exactly the same items. -/
theorem expand_from_ends {pattern : String} {range : Range} {first last : Ordinal}
    (hrange : Range.ofPattern pattern = .ok range) (hnum : range.style.isCharacter = false)
    (hfirst : (Cursor.pop range.progression).1 = some first)
    (hlast : (Cursor.last range.progression).1 = some last)
    (hsign : 0 ≤ first.toInt ∨ 0 ≤ last.toInt) :
    ∃ items head final, expand pattern = .ok items ∧ items.head? = some head ∧
      items.getLast? = some final ∧
      expand (separator.intercalate [head, final, range.increment.numeral]) = .ok items := by
  obtain ⟨a, b, rest, -, -, hb⟩ := Range.ofPattern_eq_ok_iff.mp hrange
  obtain ⟨hstyle, ha, hb⟩ := hb.of_isCharacter_eq_false hnum
  obtain rfl := Range.eq_first_of_pop hfirst
  have hhead := Range.head?_values hfirst
  have hend := Range.getLast?_values hlast
  have hitems := Range.items_of_decimal hstyle
  refine ⟨range.items, Decimal.write (commonWidth a b) range.first.toInt,
    Decimal.write (commonWidth a b) last.toInt, expand_of_range hrange, ?_, ?_, ?_⟩
  · rw [hitems, List.head?_map, hhead]
    rfl
  · rw [hitems, List.getLast?_map, hend]
    rfl
  · rw [expand_join (Decimal.numeral_write _ _) (Decimal.numeral_write _ _)
      (.named range.increment.isNumeral_numeral), Walk.values_of_getLast? hend, hitems]
    apply congrArg Except.ok
    apply List.map_congr_left
    intro v hv
    rw [← Walk.values_of_getLast? hend] at hv
    exact Decimal.write_of_ends ha hb (Walk.mem_uIcc_of_mem_values (List.mem_of_getLast? hend))
      hsign (Walk.mem_uIcc_of_mem_values hv)

/-- `expand_from_ends` across zero, where the sign of the first item hides that it is filled up. -/
theorem expand_from_ends_crossing :
    Range.ofPattern "-5..0012..7" = .ok ⟨.decimal 4, -5, 12, 7⟩ ∧
      (Cursor.pop (Progression.between (-5) 12 7)).1 = some (-5) ∧
      (Cursor.last (Progression.between (-5) 12 7)).1 = some 9 ∧
      (0 ≤ (-5 : Ordinal).toInt ∨ 0 ≤ (9 : Ordinal).toInt) ∧
      ∃ items head final, expand "-5..0012..7" = .ok items ∧ items.head? = some head ∧
        items.getLast? = some final ∧
        expand (separator.intercalate [head, final, (7 : Ordinal).numeral]) = .ok items := by
  have hrange : Range.ofPattern "-5..0012..7" = .ok ⟨.decimal 4, -5, 12, 7⟩ := by decide
  have hfirst : (Cursor.pop (Progression.between (-5) 12 7)).1 = some (-5) := by decide
  have hlast : (Cursor.last (Progression.between (-5) 12 7)).1 = some 9 := by decide
  have hsign : 0 ≤ (-5 : Ordinal).toInt ∨ 0 ≤ (9 : Ordinal).toInt := by decide
  have hends := expand_from_ends hrange rfl hfirst hlast hsign
  exact ⟨hrange, hfirst, hlast, hsign, hends⟩

example : expand "8..2..-3" = expand "+8..1..-3" := by decide
example : expand "-005..-005..100" ≠ expand "-5..0003..100" := by decide

end RangePattern
