import Mathlib.Tactic.Ring
import RangePattern.Proofs.Canonical

/-!
# The places of a numeral

In a text of digits every place outweighs all places behind it together. So among texts of one
length the first place where two of them differ decides which value is the larger one, and that is
also what decides their order as texts:

* `Decimal.ofDigitChars_lt_iff` — **texts of digits of one length are ordered as their values are**;
* `Decimal.eq_of_ofDigitChars_eq` — so the value and the length determine the text;
* `Decimal.padded_length` — a text of digits is what its value is written as at the width that is
  its own length;
* `Decimal.padded_lt_padded_iff` — numbers that are not negative are ordered as what is written for
  them, if that is of one length.
-/

namespace RangePattern.Decimal

/-! ## Values and places -/

variable {c d : Char} {ds es : List Char}

/-- The digits stand in a row, from `0` on. -/
theorem toNat_eq_digitValue_add (h : c.isDigit = true) : c.toNat = digitValue c + 48 := by
  have hc : 48 ≤ c.toNat := (Char.isDigit_iff_toNat.mp h).1
  show c.toNat = c.toNat - 48 + 48
  omega

/-- A digit is worth less than ten. -/
theorem digitValue_lt (h : c.isDigit = true) : digitValue c < 10 := by
  have hc : c.toNat ≤ 57 := (Char.isDigit_iff_toNat.mp h).2
  have hvalue := toNat_eq_digitValue_add h
  omega

/-- The first of several digits has the place of highest weight. -/
theorem ofDigitChars_cons_eq (c : Char) (ds : List Char) :
    Nat.ofDigitChars 10 (c :: ds) 0 =
      10 ^ ds.length * digitValue c + Nat.ofDigitChars 10 ds 0 := by
  rw [Nat.ofDigitChars_cons, Nat.ofDigitChars_eq_ofDigitChars_zero, Nat.mul_zero, Nat.zero_add]
  rfl

/-- **All digits together** are worth less than one in the place in front of them. -/
theorem ofDigitChars_lt_pow (h : ∀ c ∈ ds, c.isDigit = true) :
    Nat.ofDigitChars 10 ds 0 < 10 ^ ds.length := by
  induction ds with
  | nil => simp
  | cons c ds ih =>
    obtain ⟨hc, hds⟩ := List.forall_mem_cons.mp h
    have hfirst : digitValue c + 1 ≤ 10 := digitValue_lt hc
    have hrest := ih hds
    calc Nat.ofDigitChars 10 (c :: ds) 0
      _ = 10 ^ ds.length * digitValue c + Nat.ofDigitChars 10 ds 0 := ofDigitChars_cons_eq c ds
      _ < 10 ^ ds.length * digitValue c + 10 ^ ds.length := Nat.add_lt_add_left hrest _
      _ = 10 ^ ds.length * (digitValue c + 1) := (Nat.mul_succ _ _).symm
      _ ≤ 10 ^ ds.length * 10 := Nat.mul_le_mul_left _ hfirst
      _ = 10 ^ (c :: ds).length := (Nat.pow_succ ..).symm

/-! ## Order -/

/-- Digits are ordered as their values are. -/
theorem lt_iff_digitValue_lt (hc : c.isDigit = true) (hd : d.isDigit = true) :
    c < d ↔ digitValue c < digitValue d := by
  rw [Char.lt_def, UInt32.lt_iff_toNat_lt, Char.toNat_val, Char.toNat_val,
    toNat_eq_digitValue_add hc, toNat_eq_digitValue_add hd, Nat.add_lt_add_iff_right]

/-- Digits of one value are equal. -/
theorem eq_iff_digitValue_eq (hc : c.isDigit = true) (hd : d.isDigit = true) :
    c = d ↔ digitValue c = digitValue d := by
  rw [← Char.toNat_inj, toNat_eq_digitValue_add hc, toNat_eq_digitValue_add hd,
    Nat.add_right_cancel_iff]

/-- **The higher place decides**, and only if it is equal the lower ones do. -/
theorem mul_add_lt_mul_add_iff {b x y r q : Nat} (hr : r < b) (hq : q < b) :
    b * x + r < b * y + q ↔ x < y ∨ x = y ∧ r < q := by
  rcases Nat.lt_trichotomy x y with hxy | rfl | hxy
  · have hle : b * (x + 1) ≤ b * y := Nat.mul_le_mul_left b hxy
    rw [Nat.mul_succ] at hle
    exact iff_of_true (by omega) (Or.inl hxy)
  · omega
  · have hle : b * (y + 1) ≤ b * x := Nat.mul_le_mul_left b hxy
    rw [Nat.mul_succ] at hle
    exact iff_of_false (by omega) (by omega)

/-- **Texts of digits of one length are ordered as their values are.** -/
theorem ofDigitChars_lt_iff (hlen : ds.length = es.length) (hds : ∀ c ∈ ds, c.isDigit = true)
    (hes : ∀ c ∈ es, c.isDigit = true) :
    Nat.ofDigitChars 10 ds 0 < Nat.ofDigitChars 10 es 0 ↔ ds < es := by
  induction ds generalizing es with
  | nil =>
    obtain rfl : es = [] := List.length_eq_zero_iff.mp hlen.symm
    simp
  | cons c ds ih =>
    cases es with
    | nil => exact absurd hlen (Nat.succ_ne_zero _)
    | cons d es =>
      have hlen' : ds.length = es.length := Nat.succ.inj hlen
      obtain ⟨hc, hds⟩ := List.forall_mem_cons.mp hds
      obtain ⟨hd, hes⟩ := List.forall_mem_cons.mp hes
      rw [List.cons_lt_cons_iff, lt_iff_digitValue_lt hc hd, eq_iff_digitValue_eq hc hd,
        ← ih hlen' hds hes, ofDigitChars_cons_eq, ofDigitChars_cons_eq, hlen']
      exact mul_add_lt_mul_add_iff (hlen' ▸ ofDigitChars_lt_pow hds) (ofDigitChars_lt_pow hes)

/-- **The value and the length determine the digits.** -/
theorem eq_of_ofDigitChars_eq (hlen : ds.length = es.length) (hds : ∀ c ∈ ds, c.isDigit = true)
    (hes : ∀ c ∈ es, c.isDigit = true)
    (hvalue : Nat.ofDigitChars 10 ds 0 = Nat.ofDigitChars 10 es 0) : ds = es := by
  apply List.le_antisymm
  · rw [← List.not_lt, ← ofDigitChars_lt_iff hlen.symm hes hds, hvalue]
    exact Nat.lt_irrefl _
  · rw [← List.not_lt, ← ofDigitChars_lt_iff hlen hds hes, hvalue]
    exact Nat.lt_irrefl _

/-! ## Lengths -/

/-- A larger number has no fewer digits. -/
theorem length_digits_mono {m n : Nat} (h : m ≤ n) : (digits m).length ≤ (digits n).length := by
  have hpos : 0 < (digits n).length := Nat.length_toDigits_pos
  have hn : n < 10 ^ (digits n).length :=
    (Nat.length_toDigits_le_iff (by decide) hpos).mp (Nat.le_refl _)
  exact (Nat.length_toDigits_le_iff (by decide) hpos).mpr (Nat.lt_of_le_of_lt h hn)

/-- The numeral of a number that is not negative consists of its digits. -/
theorem chars_of_nonneg {v : Int} (h : 0 ≤ v) : chars v = digits v.natAbs := by
  rw [chars, sign, if_neg (by omega), List.nil_append]

/-- So above zero numerals grow with the number. -/
theorem length_chars_mono {u v : Int} (hu : 0 ≤ u) (huv : u ≤ v) :
    (chars u).length ≤ (chars v).length := by
  rw [chars_of_nonneg hu, chars_of_nonneg (by omega)]
  exact length_digits_mono (by omega)

/-! ## What is written -/

/-- What is written for a number that is not negative has no sign. -/
theorem padded_of_nonneg (width : Nat) {v : Int} (h : 0 ≤ v) :
    padded width v =
      List.replicate (width - (chars v).length) '0' ++ digits v.natAbs := by
  rw [padded, sign, if_neg (by omega), List.nil_append]

/-- So it consists of digits. -/
theorem isDigits_padded (width : Nat) {v : Int} (h : 0 ≤ v) : IsDigits (padded width v) := by
  rw [padded_of_nonneg width h]
  exact isDigits_zeros_append _ _

/-- Their value is the number. -/
theorem ofDigitChars_padded (width : Nat) {v : Int} (h : 0 ≤ v) :
    Nat.ofDigitChars 10 (padded width v) 0 = v.natAbs := by
  rw [padded_of_nonneg width h]
  exact ofDigitChars_zeros_append _ _

/-- **Digits are written as they were**, if the width is their number. -/
theorem padded_length (h : IsDigits ds) :
    padded ds.length (Nat.ofDigitChars 10 ds 0) = ds := by
  have h0 : (0 : Int) ≤ (Nat.ofDigitChars 10 ds 0 : Nat) := Int.natCast_nonneg _
  have hpos : 0 < ds.length := List.length_pos_of_ne_nil h.1
  have hlen : (chars (Nat.ofDigitChars 10 ds 0 : Nat)).length ≤ ds.length := by
    rw [chars_of_nonneg h0, Int.natAbs_natCast]
    exact (Nat.length_toDigits_le_iff (by decide) hpos).mpr (ofDigitChars_lt_pow h.2)
  apply eq_of_ofDigitChars_eq _ (isDigits_padded _ h0).2 h.2
  · rw [ofDigitChars_padded _ h0, Int.natAbs_natCast]
  · rw [length_padded]
    omega

/-- **Numbers that are not negative are ordered as what is written for them**, if that is of one
length. -/
theorem padded_lt_padded_iff {width : Nat} {u v : Int} (hu : 0 ≤ u) (hv : 0 ≤ v)
    (hlen : (padded width u).length = (padded width v).length) :
    padded width u < padded width v ↔ u < v := by
  rw [← ofDigitChars_lt_iff hlen (isDigits_padded width hu).2 (isDigits_padded width hv).2,
    ofDigitChars_padded width hu, ofDigitChars_padded width hv]
  omega

end RangePattern.Decimal
