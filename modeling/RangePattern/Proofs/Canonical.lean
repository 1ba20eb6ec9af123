import Mathlib.Data.List.Basic
import RangePattern.Decimal.Writer
import RangePattern.Proofs.Numeral

/-!
# Numerals as they are written

What the writer makes of a number, in the terms of the grammar and of the reader. A written numeral
is a numeral of the number it was written for, however many zeros the width asks for
(`Decimal.numeral_padded`). So a number is read back from its numeral (`Decimal.read_write`), and
numbers with the same digits are equal (`Decimal.digits_injective`).

Patterns are put together from such numerals, and four things about their spelling matter there:
no dot stands in a numeral (`Decimal.Numeral.dot_not_mem`), only zero is written with a leading zero
(`Decimal.head?_chars_eq_zero_iff`), only the numbers from zero to nine are written with a single
character (`Decimal.length_chars_eq_one_iff`), and a width of one adds nothing to a numeral
(`Decimal.write_of_le_one`), as no width does that the numeral has by itself
(`Decimal.write_of_le`).
-/

namespace RangePattern.Decimal

/-! ## Digits -/

/-- The digits of a number are digits. -/
theorem isDigit_of_mem_digits {n : Nat} {c : Char} (h : c ∈ digits n) : c.isDigit = true :=
  Nat.isDigit_of_mem_toDigits (by decide) (by decide) h

/-- Zeros in front of digits are digits. -/
theorem isDigits_zeros_append (zeros n : Nat) :
    IsDigits (List.replicate zeros '0' ++ digits n) := by
  refine ⟨List.append_ne_nil_of_right_ne_nil _ Nat.toDigits_ne_nil, ?_⟩
  intro c hc
  rcases List.mem_append.mp hc with hc | hc
  · rw [(List.mem_replicate.mp hc).2]
    decide
  · exact isDigit_of_mem_digits hc

/-- They do not change the value. -/
theorem ofDigitChars_zeros_append (zeros n : Nat) :
    Nat.ofDigitChars 10 (List.replicate zeros '0' ++ digits n) 0 = n := by
  rw [Nat.ofDigitChars_append, Nat.ofDigitChars_replicate_zero, Nat.mul_zero]
  exact Nat.ofDigitChars_ten_toDigits

/-- Numbers with the same digits are equal. -/
theorem digits_injective {m n : Nat} (h : digits m = digits n) : m = n := by
  have hm := ofDigitChars_zeros_append 0 m
  have hn := ofDigitChars_zeros_append 0 n
  rw [h] at hm
  exact hm.symm.trans hn

/-- There is a single digit for the numbers up to nine only. -/
theorem length_digits_eq_one_iff {n : Nat} : (digits n).length = 1 ↔ n ≤ 9 := by
  have hle := Nat.length_toDigits_le_iff (b := 10) (n := n) (k := 1) (by decide) (by decide)
  have hpos := Nat.length_toDigits_pos (b := 10) (n := n)
  unfold digits
  omega

/-- Only the digits of zero begin with a zero. -/
theorem head?_digits_eq_zero_iff {n : Nat} : (digits n).head? = some '0' ↔ n = 0 := by
  induction n using Nat.strongRecOn with
  | ind n ih =>
    unfold digits at ih ⊢
    by_cases hn : n < 10
    · rw [Nat.toDigits_of_lt_base hn]
      simp
    · -- The digits in front of the last one are those of a tenth of the number.
      have hhead : (Nat.toDigits 10 n).head? = (Nat.toDigits 10 (n / 10)).head? := by
        rw [Nat.toDigits_of_base_le (by decide) (by omega)]
        exact List.head?_append_of_ne_nil _ Nat.toDigits_ne_nil
      rw [hhead, ih (n / 10) (by omega)]
      omega

/-! ## Numerals -/

/-- Digits of the size of a number, behind its sign, are a numeral of it. -/
theorem numeral_sign_append {v : Int} {ds : List Char} (hds : IsDigits ds)
    (hvalue : Nat.ofDigitChars 10 ds 0 = v.natAbs) : Numeral (sign v ++ ds) v := by
  unfold sign
  by_cases hv : v < 0
  · have hnum := Numeral.minus hds
    have hsigned : Sign.minus.signed (Nat.ofDigitChars 10 ds 0) = v := by
      simp only [Sign.signed]
      omega
    rw [if_pos hv]
    rwa [hsigned] at hnum
  · have hnum := Numeral.bare hds
    have hsigned : Sign.plus.signed (Nat.ofDigitChars 10 ds 0) = v := by
      simp only [Sign.signed]
      omega
    rw [if_neg hv]
    rwa [hsigned] at hnum

/-- **What is written is a numeral of the number**, whatever the width. -/
theorem numeral_padded (width : Nat) (v : Int) : Numeral (padded width v) v :=
  numeral_sign_append (isDigits_zeros_append _ _) (ofDigitChars_zeros_append _ _)

/-- The canonical numeral is one of them. -/
theorem numeral_chars (v : Int) : Numeral (chars v) v := by
  rw [← padded_zero]
  exact numeral_padded 0 v

/-- A number that is not negative may be given a plus sign. -/
theorem numeral_plus_chars {v : Int} (hv : 0 ≤ v) : Numeral ('+' :: chars v) v := by
  have hnum := Numeral.plus (isDigits_zeros_append 0 v.natAbs)
  have hchars : chars v = List.replicate 0 '0' ++ digits v.natAbs := by
    rw [chars, sign, if_neg (by omega)]
    rfl
  have hsigned : Sign.plus.signed v.natAbs = v := by
    simp only [Sign.signed]
    omega
  rwa [ofDigitChars_zeros_append, hsigned, ← hchars] at hnum

/-- The same for texts. -/
theorem numeral_write (width : Nat) (v : Int) : Numeral (write width v).toList v := by
  rw [toList_write]
  exact numeral_padded width v

/-- **Reading gives back what was written.** -/
theorem read_write (width : Nat) (o : Ordinal) : read (write width o.toInt) = .ok o :=
  read_eq_ok_iff.mpr (numeral_write width o.toInt)

/-- No dot stands in a numeral. -/
theorem Numeral.dot_not_mem {cs : List Char} {v : Int} (h : Numeral cs v) : '.' ∉ cs := by
  have hdigits : ∀ {ds : List Char}, IsDigits ds → '.' ∉ ds := by
    intro ds hds hdot
    exact absurd (hds.2 _ hdot) (by decide)
  rcases h with hds | hds | hds
  · exact hdigits hds
  · exact List.not_mem_cons_of_ne_of_not_mem (by decide) (hdigits hds)
  · exact List.not_mem_cons_of_ne_of_not_mem (by decide) (hdigits hds)

/-- **A numeral that is a single character** is a digit: its value is below ten, and its code point
is that far behind the code point of `0`. -/
theorem Numeral.of_singleton {c : Char} {v : Int} (h : Numeral [c] v) :
    0 ≤ v ∧ v ≤ 9 ∧ (c.toNat : Int) = v + 48 := by
  cases h with
  | bare hds =>
    have hc : 48 ≤ c.toNat ∧ c.toNat ≤ 57 :=
      Char.isDigit_iff_toNat.mp (hds.2 c (List.mem_cons_self ..))
    have hvalue : Nat.ofDigitChars 10 [c] 0 = c.toNat - 48 := by
      simp [Nat.ofDigitChars_cons]
    simp only [Sign.signed, hvalue]
    omega
  | plus hds => exact absurd rfl hds.1
  | minus hds => exact absurd rfl hds.1

/-! ## The spelling of canonical numerals -/

/-- Only the numeral of zero begins with a zero. -/
theorem head?_chars_eq_zero_iff {v : Int} : (chars v).head? = some '0' ↔ v = 0 := by
  unfold chars sign
  by_cases hv : v < 0
  · rw [if_pos hv]
    apply iff_of_false
    · simp
    · omega
  · rw [if_neg hv, List.nil_append, head?_digits_eq_zero_iff]
    omega

/-- Only the numbers from zero to nine have a numeral of one character. -/
theorem length_chars_eq_one_iff {v : Int} : (chars v).length = 1 ↔ 0 ≤ v ∧ v ≤ 9 := by
  have hlen := length_digits_eq_one_iff (n := v.natAbs)
  have hpos : 0 < (digits v.natAbs).length := Nat.length_toDigits_pos
  unfold chars sign
  rw [List.length_append]
  by_cases hv : v < 0
  · rw [if_pos hv, List.length_singleton]
    omega
  · rw [if_neg hv, List.length_nil]
    omega

/-- Two widths show alike if they bring a numeral to one length. -/
theorem write_congr {width width' : Nat} {v : Int}
    (h : max width (chars v).length = max width' (chars v).length) :
    write width v = write width' v := by
  have hzeros : width - (chars v).length = width' - (chars v).length := by omega
  rw [write, write, padded, padded, hzeros]

/-- A width that a numeral has by itself does not show. -/
theorem write_of_le {width : Nat} {v : Int} (h : width ≤ (chars v).length) :
    write width v = ofInt v := by
  rw [← write_zero]
  apply write_congr
  omega

/-- **A width of one does not show.** -/
theorem write_of_le_one {width : Nat} (h : width ≤ 1) (v : Int) :
    write width v = ofInt v := by
  have hpos : 0 < (chars v).length := List.length_pos_of_ne_nil (chars_ne_nil v)
  apply write_of_le
  omega

end RangePattern.Decimal
