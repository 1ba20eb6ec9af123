import RangePattern.Decimal.Reader

/-!
# Signed decimal numerals

A numeral is what `[+-]?[0-9]+` matches, and its value is the positional value of its digits with
the sign in front. `Decimal.Numeral` says so without a reader: values are integers of any size, and
leading zeros are as good as any digit.

The reader works with ordinals only. It checks the range at every digit, not once at the end, and
it stops at the first digit that leaves it. That makes no difference, since a further digit never
brings a value closer to zero: `Decimal.readDigits_of_digits` says that **reading digits is one
check of the exact value**. The main statement is `Decimal.readChars_eq_ok_iff`: the reader accepts
exactly the numerals of ordinals, with their value.
-/

namespace RangePattern.Decimal

/-! ## The grammar -/

/-- The integer of this sign and this size. -/
def Sign.signed (n : Nat) : Sign → Int
  | .plus => n
  | .minus => -n

/-- One or more decimal digits. -/
def IsDigits (ds : List Char) : Prop := ds ≠ [] ∧ ∀ c ∈ ds, c.isDigit = true

/-- The characters `cs` are a numeral of the integer `v`: digits, with or without a sign in front
of them. -/
inductive Numeral : List Char → Int → Prop
  /-- Digits alone. -/
  | bare {ds : List Char} (h : IsDigits ds) :
    Numeral ds (Sign.plus.signed (Nat.ofDigitChars 10 ds 0))
  /-- Digits behind a plus sign. -/
  | plus {ds : List Char} (h : IsDigits ds) :
    Numeral ('+' :: ds) (Sign.plus.signed (Nat.ofDigitChars 10 ds 0))
  /-- Digits behind a minus sign. -/
  | minus {ds : List Char} (h : IsDigits ds) :
    Numeral ('-' :: ds) (Sign.minus.signed (Nat.ofDigitChars 10 ds 0))

/-! ## Digits and sizes -/

/-- One more digit, in terms of sizes. -/
theorem Sign.append_signed (s : Sign) (n d : Nat) :
    s.append (s.signed n) d = s.signed (10 * n + d) := by
  cases s <;> simp only [append, signed] <;> omega

/-- The smaller of two sizes is in range if the larger one is. -/
theorem Sign.inRange_signed_of_le {s : Sign} {m n : Nat} (hmn : m ≤ n)
    (h : Ordinal.InRange (s.signed n)) : Ordinal.InRange (s.signed m) := by
  unfold Ordinal.InRange at h ⊢
  cases s <;> simp only [signed] at h ⊢ <;> omega

/-- Digits do not make a number smaller. -/
theorem le_ofDigitChars (ds : List Char) (n : Nat) : n ≤ Nat.ofDigitChars 10 ds n := by
  induction ds generalizing n with
  | nil => simp
  | cons c ds ih =>
    rw [Nat.ofDigitChars_cons]
    refine Nat.le_trans ?_ (ih _)
    omega

/-! ## Reading is one check -/

/-- A digit extends an ordinal to the ordinal of the longer numeral, if there is one. -/
theorem Sign.extend_of_isDigit {s : Sign} {n : Nat} {o : Ordinal} {c : Char}
    (ho : o.toInt = s.signed n) (hc : c.isDigit = true) :
    s.extend o c =
      match Ordinal.ofInt? (s.signed (10 * n + digitValue c)) with
      | some w => .ok w
      | none => .error s.excess := by
  have hvalue : s.append o.toInt (digitValue c) = s.signed (10 * n + digitValue c) := by
    rw [ho, append_signed]
  rw [← hvalue]
  exact if_pos hc

/-- **Reading digits is one check of the exact value**: the digit at which the reader stops for the
range, if there is one, only tells early what the whole numeral comes to. -/
theorem readDigits_of_digits {s : Sign} {n : Nat} {o : Ordinal} (ho : o.toInt = s.signed n)
    {ds : List Char} (hds : ∀ c ∈ ds, c.isDigit = true) :
    readDigits s o ds =
      match Ordinal.ofInt? (s.signed (Nat.ofDigitChars 10 ds n)) with
      | some w => .ok w
      | none => .error s.excess := by
  induction ds generalizing n o with
  | nil => simp [← ho]
  | cons c ds ih =>
    obtain ⟨hc, hds⟩ := List.forall_mem_cons.mp hds
    rw [readDigits_cons, Sign.extend_of_isDigit ho hc, Nat.ofDigitChars_cons]
    rcases hw : Ordinal.ofInt? (s.signed (10 * n + digitValue c)) with _ | w
    · have hbig : Ordinal.ofInt?
          (s.signed (Nat.ofDigitChars 10 ds (10 * n + (c.toNat - '0'.toNat)))) = none := by
        rw [Ordinal.ofInt?_eq_none_iff] at hw ⊢
        intro h
        exact hw (Sign.inRange_signed_of_le (le_ofDigitChars ds _) h)
      rw [hbig]
    · exact ih (Ordinal.ofInt?_eq_some_iff.mp hw) hds

/-- What is read to its end consists of digits. -/
theorem isDigit_of_readDigits_eq_ok {s : Sign} {o w : Ordinal} {ds : List Char}
    (h : readDigits s o ds = .ok w) : ∀ c ∈ ds, c.isDigit = true := by
  induction ds generalizing o with
  | nil => simp
  | cons c ds ih =>
    rw [readDigits_cons] at h
    split at h
    · next hc => exact List.forall_mem_cons.mpr ⟨(Sign.extend_eq_ok_iff.mp hc).1, ih h⟩
    · cases h

/-- Digits are read to an ordinal exactly if it is their value. -/
theorem readDigits_eq_ok_iff {s : Sign} {w : Ordinal} {ds : List Char} :
    readDigits s 0 ds = .ok w ↔
      (∀ c ∈ ds, c.isDigit = true) ∧ w.toInt = s.signed (Nat.ofDigitChars 10 ds 0) := by
  have h0 : (0 : Ordinal).toInt = s.signed 0 := by cases s <;> rfl
  constructor
  · intro h
    have hds := isDigit_of_readDigits_eq_ok h
    rw [readDigits_of_digits h0 hds] at h
    split at h
    · next hw =>
      cases h
      exact ⟨hds, Ordinal.ofInt?_eq_some_iff.mp hw⟩
    · cases h
  · rintro ⟨hds, hw⟩
    rw [readDigits_of_digits h0 hds, Ordinal.ofInt?_eq_some_iff.mpr hw]

/-- Behind a sign the same holds, and there is at least one digit. -/
theorem readSigned_eq_ok_iff {s : Sign} {w : Ordinal} {ds : List Char} :
    readSigned s ds = .ok w ↔
      IsDigits ds ∧ w.toInt = s.signed (Nat.ofDigitChars 10 ds 0) := by
  unfold IsDigits
  cases ds with
  | nil => simp [readSigned]
  | cons c ds =>
    rw [readSigned, readDigits_eq_ok_iff]
    · simp
    · simp

/-! ## The reader accepts the numerals of ordinals -/

/-- A sign is no digit. -/
theorem IsDigits.head_ne {c : Char} {ds : List Char} (h : IsDigits (c :: ds)) :
    c ≠ '+' ∧ c ≠ '-' := by
  have hc := h.2 c (List.mem_cons_self ..)
  constructor <;> rintro rfl <;> exact absurd hc (by decide)

/-- Without a sign in front, characters are read as digits. -/
theorem readChars_cons {c : Char} {ds : List Char} (hp : c ≠ '+') (hm : c ≠ '-') :
    readChars (c :: ds) = readDigits .plus 0 (c :: ds) := by
  rw [readChars]
  · simp
  · rintro es he
    exact hp (List.cons.inj he).1
  · rintro es he
    exact hm (List.cons.inj he).1

/-- **The reader accepts exactly the numerals of ordinals**, and it answers their value. -/
theorem readChars_eq_ok_iff {cs : List Char} {o : Ordinal} :
    readChars cs = .ok o ↔ Numeral cs o.toInt := by
  constructor
  · intro h
    unfold readChars at h
    split at h
    · cases h
    · next ds =>
      obtain ⟨hds, hv⟩ := readSigned_eq_ok_iff.mp h
      exact hv ▸ Numeral.plus hds
    · next ds =>
      obtain ⟨hds, hv⟩ := readSigned_eq_ok_iff.mp h
      exact hv ▸ Numeral.minus hds
    · next hne _ _ =>
      obtain ⟨hds, hv⟩ := readDigits_eq_ok_iff.mp h
      exact hv ▸ Numeral.bare ⟨hne, hds⟩
  · intro h
    generalize hv : o.toInt = v at h
    cases h with
    | bare hds =>
      cases cs with
      | nil => exact absurd rfl hds.1
      | cons c ds =>
        rw [readChars_cons hds.head_ne.1 hds.head_ne.2]
        exact readDigits_eq_ok_iff.mpr ⟨hds.2, hv⟩
    | plus hds => exact readSigned_eq_ok_iff.mpr ⟨hds, hv⟩
    | minus hds => exact readSigned_eq_ok_iff.mpr ⟨hds, hv⟩

/-- A text that is a numeral of an ordinal. -/
def IsOrdinal (text : String) : Prop := ∃ v, Numeral text.toList v ∧ Ordinal.InRange v

/-- The same for texts. -/
theorem read_eq_ok_iff {text : String} {o : Ordinal} :
    read text = .ok o ↔ Numeral text.toList o.toInt :=
  readChars_eq_ok_iff

/-- A numeral has one value. -/
theorem Numeral.ordinal_unique {cs : List Char} {o p : Ordinal} (ho : Numeral cs o.toInt)
    (hp : Numeral cs p.toInt) : o = p := by
  have hread := (readChars_eq_ok_iff.mpr ho).symm.trans (readChars_eq_ok_iff.mpr hp)
  exact Except.ok.inj hread

/-- A text is read exactly if it is a numeral of an ordinal. -/
theorem exists_read_eq_ok_iff {text : String} : (∃ o, read text = .ok o) ↔ IsOrdinal text := by
  constructor
  · rintro ⟨o, h⟩
    exact ⟨o.toInt, read_eq_ok_iff.mp h, Ordinal.inRange_toInt o⟩
  · rintro ⟨v, hv, hr⟩
    obtain ⟨o, ho⟩ : ∃ o, Ordinal.ofInt? v = some o := ⟨_, if_pos hr⟩
    rw [← Ordinal.ofInt?_eq_some_iff.mp ho] at hv
    exact ⟨o, read_eq_ok_iff.mpr hv⟩

/-- Every other text is misread. -/
theorem exists_read_eq_error_iff {text : String} :
    (∃ cause, read text = .error cause) ↔ ¬ IsOrdinal text := by
  rw [← exists_read_eq_ok_iff]
  cases read text <;> simp

end RangePattern.Decimal
