import RangePattern.Proofs.Places
import RangePattern.Proofs.Spelling

/-!
# Padded items sort

Names are sorted as texts, character by character, and numbers are not: `10` comes before `9`. That
is what a width is for. Between two bounds that are not negative and are written at one length, all
numbers are written at this length (`Decimal.length_padded_of_mem_uIcc`), since above zero a numeral
never gets shorter as the number grows. And texts of digits of one length are ordered as their
values are (`Decimal.write_lt_write_iff`). So the items come in the order of the walk.

The main statement is `expand_sorted`. It does not ask for a leading zero: the bounds may also be of
one length by themselves, and then there is nothing to fill up.
-/

namespace RangePattern

namespace Decimal

/-- **Between two bounds of one length** everything is written at this length. -/
theorem length_padded_of_mem_uIcc {width : Nat} {s e v : Int} (hs : 0 ≤ s) (he : 0 ≤ e)
    (hlen : max width (chars s).length = max width (chars e).length) (hv : v ∈ Set.uIcc s e) :
    (padded width v).length = max width (chars s).length := by
  rw [length_padded]
  rcases Set.mem_uIcc.mp hv with ⟨hsv, hve⟩ | ⟨hev, hvs⟩
  · have hlow := length_chars_mono hs hsv
    have hhigh := length_chars_mono (by omega) hve
    omega
  · have hlow := length_chars_mono he hev
    have hhigh := length_chars_mono (by omega) hvs
    omega

/-- Texts are ordered as the numbers they are written for, if these are not negative and the texts
are of one length. -/
theorem write_lt_write_iff {width : Nat} {u v : Int} (hu : 0 ≤ u) (hv : 0 ≤ v)
    (hlen : (padded width u).length = (padded width v).length) :
    write width u < write width v ↔ u < v := by
  rw [String.lt_iff, toList_write, toList_write]
  exact padded_lt_padded_iff hu hv hlen

end Decimal

/-- **Padding makes items sort.** Let a pattern stand for a range of numbers between two bounds that
are not negative, and let both bounds be of one length when they are written at the width of the
range. Then all items have this length and consist of digits. Upwards each item comes before all
later ones in the order of texts, and downwards behind them. -/
theorem expand_sorted {pattern : String} {width : Nat} {s e i : Ordinal}
    (hrange : Range.ofPattern pattern = .ok ⟨.decimal width, s, e, i⟩) (hs : 0 ≤ s.toInt)
    (he : 0 ≤ e.toInt) (hlen : max width s.numeral.length = max width e.numeral.length) :
    ∃ items, expand pattern = .ok items ∧
      (∀ item ∈ items, item.length = max width s.numeral.length ∧
        ∀ c ∈ item.toList, c.isDigit = true) ∧
      (0 < i.toInt → items.Pairwise (· < ·)) ∧
      (i.toInt < 0 → items.Pairwise (· > ·)) := by
  have hitems := Range.items_of_decimal (r := ⟨.decimal width, s, e, i⟩) rfl
  rw [Ordinal.length_numeral, Ordinal.length_numeral] at hlen
  have hwritten : ∀ v ∈ Walk.values e.toInt i.toInt s.toInt, 0 ≤ v ∧
      (Decimal.padded width v).length = max width (Decimal.chars s.toInt).length := by
    intro v hv
    have hmem := Walk.mem_uIcc_of_mem_values hv
    refine ⟨?_, Decimal.length_padded_of_mem_uIcc hs he hlen hmem⟩
    rw [Set.mem_uIcc] at hmem
    omega
  have horder : ∀ u ∈ Walk.values e.toInt i.toInt s.toInt,
      ∀ v ∈ Walk.values e.toInt i.toInt s.toInt,
        (Decimal.write width u < Decimal.write width v ↔ u < v) := by
    intro u hu v hv
    have hu := hwritten u hu
    have hv := hwritten v hv
    exact Decimal.write_lt_write_iff hu.1 hv.1 (hu.2.trans hv.2.symm)
  refine ⟨_, expand_of_range hrange, ?_, ?_, ?_⟩
  · intro item hitem
    rw [hitems] at hitem
    obtain ⟨v, hv, rfl⟩ := List.mem_map.mp hitem
    obtain ⟨h0, hlength⟩ := hwritten v hv
    rw [← String.length_toList, Decimal.toList_write, Ordinal.length_numeral]
    exact ⟨hlength, (Decimal.isDigits_padded width h0).2⟩
  · intro hi
    rw [hitems, List.pairwise_map]
    exact (Walk.pairwise_lt_values hi _).imp_of_mem fun hu hv huv => (horder _ hu _ hv).mpr huv
  · intro hi
    rw [hitems, List.pairwise_map]
    exact (Walk.pairwise_gt_values hi _).imp_of_mem fun hu hv huv => (horder _ hv _ hu).mpr huv

/-- `expand_sorted` downwards from a bound that is longer than the other one, at the width that a
leading zero asks for. -/
theorem expand_sorted_downwards :
    Range.ofPattern "0100..7..-31" = .ok ⟨.decimal 4, 100, 7, -31⟩ ∧
      (0 ≤ (100 : Ordinal).toInt ∧ 0 ≤ (7 : Ordinal).toInt) ∧
      max 4 (100 : Ordinal).numeral.length = max 4 (7 : Ordinal).numeral.length ∧
      ∃ items, expand "0100..7..-31" = .ok items ∧
        (∀ item ∈ items, item.length = max 4 (100 : Ordinal).numeral.length ∧
          ∀ c ∈ item.toList, c.isDigit = true) ∧
        (0 < (-31 : Ordinal).toInt → items.Pairwise (· < ·)) ∧
        ((-31 : Ordinal).toInt < 0 → items.Pairwise (· > ·)) := by
  have hrange : Range.ofPattern "0100..7..-31" = .ok ⟨.decimal 4, 100, 7, -31⟩ := by decide
  have hlen : max 4 (100 : Ordinal).numeral.length = max 4 (7 : Ordinal).numeral.length := by
    decide
  exact ⟨hrange, by decide, hlen, expand_sorted hrange (by decide) (by decide) hlen⟩

example : expand "0100..7..-31" = .ok ["0100", "0069", "0038", "0007"] := by decide

end RangePattern
