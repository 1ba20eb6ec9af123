import Mathlib.Data.List.TakeWhile
import RangePattern.Proofs.Language

/-!
# Why a text is no number

Every text that is no numeral of an ordinal is misread for a reason, and the reason can be told from
the text without reading it. Three things about the text decide: its sign, whether a character
behind the sign is no digit, and the value of the digits in front of that character, an integer of
any size (`Decimal.leadingValue`).

The reader stops at the first character that it cannot take. So digits out of range count before
anything that stands behind them, and a character that is no digit counts only if the digits in
front of it are in range. `Decimal.readDigits_eq` brings this about: **reading is one check of the
leading digits**, and then a look at whether anything is left. From it comes
`Decimal.readChars_eq_error_iff`, the reasons for all texts.

The main statement is `number_tokens_classified`: the bounds of a range of numbers and the increment
are read by the same rules, and a fault names the token and the reason.
-/

namespace RangePattern

namespace Decimal

/-! ## The looks of a text -/

/-- The sign of a text: minus if it starts with a minus sign, and plus otherwise. -/
def signOf : List Char → Sign
  | '-' :: _ => .minus
  | _ => .plus

/-- What stands behind the sign. -/
def unsigned : List Char → List Char
  | '+' :: cs => cs
  | '-' :: cs => cs
  | cs => cs

/-- The value of the digits behind the sign, up to the first character that is no digit. -/
def leadingValue (cs : List Char) : Int :=
  (signOf cs).signed (Nat.ofDigitChars 10 ((unsigned cs).takeWhile Char.isDigit) 0)

/-- Why a text is no numeral of an ordinal. -/
inductive Reason (cs : List Char) : Misread → Prop
  /-- There is nothing to read. -/
  | empty (h : cs = []) : Reason cs .empty
  /-- There is nothing behind the sign. -/
  | loneSign (h : cs = ['+'] ∨ cs = ['-']) : Reason cs .invalidDigit
  /-- A character behind the sign is no digit, and the digits in front of it are in range. -/
  | stray {c : Char} (hc : c ∈ unsigned cs) (hdigit : c.isDigit = false)
    (hv : Ordinal.InRange (leadingValue cs)) : Reason cs .invalidDigit
  /-- The leading digits exceed the largest ordinal. -/
  | tooLarge (hs : signOf cs = .plus) (hv : ¬ Ordinal.InRange (leadingValue cs)) :
    Reason cs .tooLarge
  /-- The leading digits are below the smallest ordinal. -/
  | tooSmall (hs : signOf cs = .minus) (hv : ¬ Ordinal.InRange (leadingValue cs)) :
    Reason cs .tooSmall

/-- Only of nothing, or of a sign, there is nothing behind the sign. -/
theorem unsigned_eq_nil_iff {cs : List Char} :
    unsigned cs = [] ↔ cs = [] ∨ cs = ['+'] ∨ cs = ['-'] := by
  unfold unsigned
  split <;> simp_all

/-! ## Reading any characters -/

/-- The first character that is no digit stops the reader. -/
theorem readDigits_of_not_digit {s : Sign} {o : Ordinal} {cs : List Char} {c : Char}
    (hhead : cs.head? = some c) (hc : c.isDigit = false) :
    readDigits s o cs = .error .invalidDigit := by
  obtain ⟨rest, rfl⟩ := List.head?_eq_some_iff.mp hhead
  simp [readDigits_cons, Sign.extend, hc]

/-- **Reading is one check of the leading digits.** Behind them there must be nothing left. -/
theorem readDigits_eq {s : Sign} {n : Nat} {o : Ordinal} (ho : o.toInt = s.signed n)
    (cs : List Char) :
    readDigits s o cs =
      match Ordinal.ofInt? (s.signed (Nat.ofDigitChars 10 (cs.takeWhile Char.isDigit) n)) with
      | none => .error s.excess
      | some w => if cs.all Char.isDigit then .ok w else .error .invalidDigit := by
  have hdigits : ∀ c ∈ cs.takeWhile Char.isDigit, c.isDigit = true :=
    fun c hc => List.mem_takeWhile_imp hc
  have hrest : cs.dropWhile Char.isDigit = [] ↔ cs.all Char.isDigit = true := by
    rw [List.dropWhile_eq_nil_iff, List.all_eq_true]
  conv_lhs => rw [← List.takeWhile_append_dropWhile (p := Char.isDigit) (l := cs)]
  rw [readDigits_append, readDigits_of_digits ho hdigits]
  rcases Ordinal.ofInt? _ with _ | w
  · rfl
  · have hhead := List.head?_dropWhile_not Char.isDigit cs
    rcases hc : (cs.dropWhile Char.isDigit).head? with _ | c
    · have hnil := List.head?_eq_none_iff.mp hc
      simp only [hnil, readDigits_nil, if_pos (hrest.mp hnil)]
    · rw [hc] at hhead
      have hne : ¬ cs.all Char.isDigit = true := by
        rw [← hrest, ← List.head?_eq_none_iff, hc]
        exact Option.some_ne_none c
      simp only [if_neg hne]
      exact readDigits_of_not_digit hc hhead

/-- What is behind the sign is read in the direction of the sign, if there is anything. -/
theorem readChars_eq_readDigits {cs : List Char} (h : unsigned cs ≠ []) :
    readChars cs = readDigits (signOf cs) 0 (unsigned cs) := by
  unfold readChars
  split
  · exact absurd rfl h
  · next ds =>
    change ds ≠ [] at h
    rw [readSigned]
    · rfl
    · exact h
  · next ds =>
    change ds ≠ [] at h
    rw [readSigned]
    · rfl
    · exact h
  · next _ hplus hminus =>
    have hsign : signOf cs = .plus := by
      unfold signOf
      split <;> simp_all
    have hunsigned : unsigned cs = cs := by
      unfold unsigned
      split <;> simp_all
    rw [hsign, hunsigned]

/-- The same for a whole text. -/
theorem readChars_eq {cs : List Char} (h : unsigned cs ≠ []) :
    readChars cs =
      match Ordinal.ofInt? (leadingValue cs) with
      | none => .error (signOf cs).excess
      | some w => if (unsigned cs).all Char.isDigit then .ok w else .error .invalidDigit := by
  have h0 : (0 : Ordinal).toInt = (signOf cs).signed 0 := by cases signOf cs <;> rfl
  rw [readChars_eq_readDigits h]
  exact readDigits_eq h0 _

/-! ## The reasons -/

variable {cs : List Char}

/-- Where there is nothing behind the sign, no digits are out of range. -/
theorem unsigned_ne_nil (hv : ¬ Ordinal.InRange (leadingValue cs)) : unsigned cs ≠ [] := by
  intro h
  apply hv
  rcases unsigned_eq_nil_iff.mp h with rfl | rfl | rfl <;> decide

/-- Digits out of range are misread in the direction of the sign, whatever stands behind them. -/
theorem readChars_of_not_inRange (hv : ¬ Ordinal.InRange (leadingValue cs)) :
    readChars cs = .error (signOf cs).excess := by
  rw [readChars_eq (unsigned_ne_nil hv), Ordinal.ofInt?_eq_none_iff.mpr hv]

/-- Behind digits in range, any other character is misread. -/
theorem readChars_of_stray {c : Char} (hc : c ∈ unsigned cs) (hdigit : c.isDigit = false)
    (hv : Ordinal.InRange (leadingValue cs)) : readChars cs = .error .invalidDigit := by
  have hstray : ¬ (unsigned cs).all Char.isDigit = true := by
    intro hall
    rw [List.all_eq_true.mp hall c hc] at hdigit
    cases hdigit
  obtain ⟨o, ho⟩ : ∃ o, Ordinal.ofInt? (leadingValue cs) = some o := ⟨_, if_pos hv⟩
  rw [readChars_eq (List.ne_nil_of_mem hc), ho]
  exact if_neg hstray

/-- Digits in range are read. -/
theorem exists_readChars_eq_ok (hne : unsigned cs ≠ [])
    (hall : ∀ c ∈ unsigned cs, c.isDigit = true) (hv : Ordinal.InRange (leadingValue cs)) :
    ∃ o, readChars cs = .ok o := by
  obtain ⟨o, ho⟩ : ∃ o, Ordinal.ofInt? (leadingValue cs) = some o := ⟨_, if_pos hv⟩
  rw [readChars_eq hne, ho]
  exact ⟨o, if_pos (List.all_eq_true.mpr hall)⟩

/-- A text that has a reason is misread for it. -/
theorem Reason.readChars_eq {cause : Misread} (h : Reason cs cause) :
    readChars cs = .error cause := by
  cases h with
  | empty h => rw [h, readChars]
  | loneSign h => rcases h with rfl | rfl <;> rfl
  | stray hc hdigit hv => exact readChars_of_stray hc hdigit hv
  | tooLarge hs hv => rw [readChars_of_not_inRange hv, hs, Sign.excess]
  | tooSmall hs hv => rw [readChars_of_not_inRange hv, hs, Sign.excess]

/-- A text that is not read has a reason. -/
theorem exists_reason (h : ∀ o, readChars cs ≠ .ok o) : ∃ cause, Reason cs cause := by
  by_cases hv : Ordinal.InRange (leadingValue cs)
  · by_cases hne : unsigned cs = []
    · rcases unsigned_eq_nil_iff.mp hne with hcs | hcs
      · exact ⟨_, .empty hcs⟩
      · exact ⟨_, .loneSign hcs⟩
    · have hstray : ¬ ∀ c ∈ unsigned cs, c.isDigit = true := by
        intro hall
        obtain ⟨o, ho⟩ := exists_readChars_eq_ok hne hall hv
        exact h o ho
      push Not at hstray
      obtain ⟨c, hc, hdigit⟩ := hstray
      exact ⟨_, .stray hc (Bool.eq_false_iff.mpr hdigit) hv⟩
  · rcases hs : signOf cs with _ | _
    · exact ⟨_, .tooLarge hs hv⟩
    · exact ⟨_, .tooSmall hs hv⟩

/-- **Why characters are misread.** -/
theorem readChars_eq_error_iff {cause : Misread} :
    readChars cs = .error cause ↔ Reason cs cause := by
  constructor
  · intro h
    obtain ⟨cause', h'⟩ : ∃ cause', Reason cs cause' := exists_reason (by simp [h])
    rw [h'.readChars_eq] at h
    cases h
    exact h'
  · exact Reason.readChars_eq

/-- The same for texts. -/
theorem read_eq_error_iff {text : String} {cause : Misread} :
    read text = .error cause ↔ Reason text.toList cause :=
  readChars_eq_error_iff

end Decimal

open Decimal (Numeral Reason)

/-! ## Tokens -/

/-- A bound that a style of numbers cannot read is named by the fault, with the reason. -/
theorem Style.read_decimal_eq_error_iff {width : Nat} {token : String} {fault : Fault} :
    (decimal width).read token = .error fault ↔
      ∃ cause, Reason token.toList cause ∧ fault = .bound token cause := by
  simp only [← Decimal.read_eq_error_iff]
  rw [read_decimal]
  cases Decimal.read token <;> simp [Except.mapError, eq_comm]

/-- The increment is read as a number, too, and a fault names it in turn. -/
theorem Parts.ofPattern_of_triple {pattern a b k : String} (h : segments pattern = [a, b, k]) :
    ofPattern pattern =
      ((Decimal.read k).map fun o => ⟨a, b, o⟩).mapError (.increment k) := by
  simp only [ofPattern, ofSegments, h]
  cases Decimal.read k <;> rfl

/-- **How tokens are read as numbers.** A bound of a range of numbers, whatever its width, and the
increment of a pattern are read exactly if they are numerals, an optional sign and one or more
digits, whose value is an ordinal. Zeros in front are digits like any others.

Otherwise the fault carries the token and the reason: there is nothing; or there is nothing behind a
sign, or something that is no digit stands there behind digits in range; or the leading digits are
out of range upwards or, behind a minus sign, downwards, whatever follows them. -/
theorem number_tokens_classified (token : String) :
    (∀ (width : Nat) (o : Ordinal),
      (Style.decimal width).read token = .ok o ↔ Numeral token.toList o.toInt) ∧
    (∀ (width : Nat) (fault : Fault), (Style.decimal width).read token = .error fault ↔
      ∃ cause, Reason token.toList cause ∧ fault = .bound token cause) ∧
    ∀ pattern a b : String, segments pattern = [a, b, token] →
      (∀ parts, Parts.ofPattern pattern = .ok parts ↔
        parts.first = a ∧ parts.last = b ∧ Numeral token.toList parts.increment.toInt) ∧
      ∀ fault, Parts.ofPattern pattern = .error fault ↔
        ∃ cause, Reason token.toList cause ∧ fault = .increment token cause := by
  refine ⟨fun _ _ => Style.read_decimal_eq_ok_iff, fun _ _ => Style.read_decimal_eq_error_iff, ?_⟩
  intro pattern a b hcut
  simp only [← Decimal.read_eq_ok_iff, ← Decimal.read_eq_error_iff]
  rw [Parts.ofPattern_of_triple hcut]
  constructor
  · rintro ⟨first, last, increment⟩
    cases Decimal.read token <;> simp [Except.mapError, Except.map, eq_comm]
  · intro fault
    cases Decimal.read token <;> simp [Except.mapError, Except.map, eq_comm]

example : (Style.decimal 4).read "-0000002147483648" = .ok (-2147483648) := by decide
example : (Style.decimal 0).read "+2147483648x" = .error (.bound "+2147483648x" .tooLarge) := by
  decide
example : (Style.decimal 0).read "214748364x8" = .error (.bound "214748364x8" .invalidDigit) := by
  decide

end RangePattern
