/-!
# Decimal numerals: writing

A number is written as an optional minus sign, then zeros if a minimum width asks for them, then
its decimal digits without a leading zero.

* `digits n` — the digits of a natural number, the most significant first;
* `chars v` — the **canonical numeral** of an integer, a minus sign followed by the digits;
* `padded width v` — the same numeral brought up to `width` characters by zeros that stand between
  the sign and the digits. The sign counts towards the width, and a numeral that is already long
  enough is left alone.

The main statement is `length_padded`: the length of a padded numeral is the larger of the width
and the length of the canonical numeral.
-/

namespace RangePattern.Decimal

/-! ### The canonical numeral -/

/-- The decimal digits of `n`, most significant first; `0` has the single digit `'0'`. -/
def digits (n : Nat) : List Char := Nat.toDigits 10 n

/-- A minus sign in front of a negative number, nothing in front of any other. -/
def sign (v : Int) : List Char := if v < 0 then ['-'] else []

/-- The canonical numeral of an integer. -/
def chars (v : Int) : List Char := sign v ++ digits v.natAbs

/-- There is always something to write. -/
theorem chars_ne_nil (v : Int) : chars v ≠ [] := by
  simp [chars, digits]

/-! ### Padding -/

/-- The numeral of `v` with zeros between sign and digits, as many as `width` asks for. -/
def padded (width : Nat) (v : Int) : List Char :=
  sign v ++ (List.replicate (width - (chars v).length) '0' ++ digits v.natAbs)

/-- No width asks for no zeros. -/
@[simp] theorem padded_zero (v : Int) : padded 0 v = chars v := by
  simp [padded, chars]

/-- **The width is a minimum.** A padded numeral is as long as the width or as the canonical
numeral, whichever is longer. -/
theorem length_padded (width : Nat) (v : Int) :
    (padded width v).length = max width (chars v).length := by
  simp only [padded, chars, List.length_append, List.length_replicate]
  omega

/-! ### As text -/

/-- The decimal text of a natural number. -/
def ofNat (n : Nat) : String := String.ofList (digits n)

/-- The decimal text of an integer. -/
def ofInt (v : Int) : String := String.ofList (chars v)

/-- The decimal text of an integer, padded to `width` characters. -/
def write (width : Nat) (v : Int) : String := String.ofList (padded width v)

/-- The characters of a number that is written. -/
@[simp] theorem toList_write (width : Nat) (v : Int) : (write width v).toList = padded width v :=
  String.toList_ofList

/-- Without a width the canonical numeral is written. -/
theorem write_zero (v : Int) : write 0 v = ofInt v := by
  simp [write, ofInt]

example : write 4 (-3) = "-003" := by decide
example : write 2 12345 = "12345" := by decide

end RangePattern.Decimal
