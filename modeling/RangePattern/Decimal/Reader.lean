import RangePattern.Ordinal

/-!
# Decimal numerals: reading

A numeral is an optional sign, `+` or `-`, and then one or more digits `0` to `9`. It is read from
the left. Each digit extends the value read so far, away from zero in the direction of the sign,
and the reader stops at the first character that is no digit or that takes the value out of the
range of ordinals. Leading zeros are allowed, blanks and separators are not.

`read` answers an ordinal or a `Misread`, the reason why the text is none:

* **empty** — there is no text at all;
* **invalidDigit** — a character that is no digit, or a sign with nothing behind it;
* **tooLarge**, **tooSmall** — the digits run past the largest, or the smallest, ordinal.

Of several reasons the leftmost counts: `300000000x` has an invalid digit, while `3000000000x` is
too large before the `x` is reached.
-/

namespace RangePattern.Decimal

/-! ### Why a text is no numeral -/

/-- Why a text cannot be read as an ordinal. -/
inductive Misread
  /-- There is no text. -/
  | empty
  /-- A character is no digit, or a sign stands alone. -/
  | invalidDigit
  /-- The value exceeds the largest ordinal. -/
  | tooLarge
  /-- The value is below the smallest ordinal. -/
  | tooSmall
  deriving DecidableEq, Repr

/-- The reason in words. -/
def Misread.text : Misread → String
  | .empty => "cannot parse integer from empty string"
  | .invalidDigit => "invalid digit found in string"
  | .tooLarge => "number too large to fit in target type"
  | .tooSmall => "number too small to fit in target type"

/-! ### Signs and digits -/

/-- The direction in which digits take the value. -/
inductive Sign
  | plus
  | minus
  deriving DecidableEq, Repr

/-- The value `v` with one more digit `d` behind it. -/
def Sign.append (v : Int) (d : Nat) : Sign → Int
  | .plus => 10 * v + d
  | .minus => 10 * v - d

/-- What a numeral of this sign is when its value leaves the range. -/
def Sign.excess : Sign → Misread
  | .plus => .tooLarge
  | .minus => .tooSmall

/-- The value of a digit character. -/
def digitValue (c : Char) : Nat := c.toNat - '0'.toNat

/-- Reads one more character of a numeral whose value so far is `v`. -/
def Sign.extend (s : Sign) (v : Ordinal) (c : Char) : Except Misread Ordinal :=
  if c.isDigit then
    match Ordinal.ofInt? (s.append v.toInt (digitValue c)) with
    | some w => .ok w
    | none => .error s.excess
  else .error .invalidDigit

/-- A digit extends the value exactly when the longer numeral has an ordinal for its value. -/
theorem Sign.extend_eq_ok_iff {s : Sign} {v w : Ordinal} {c : Char} :
    s.extend v c = .ok w ↔ c.isDigit ∧ w.toInt = s.append v.toInt (digitValue c) := by
  rw [← Ordinal.ofInt?_eq_some_iff, extend]
  split <;> simp_all
  split <;> simp_all

/-! ### Reading -/

/-- Reads digits behind the value `v`. -/
def readDigits (s : Sign) (v : Ordinal) (ds : List Char) : Except Misread Ordinal :=
  ds.foldlM s.extend v

/-- Reads what follows a sign: at least one digit. -/
def readSigned (s : Sign) : List Char → Except Misread Ordinal
  | [] => .error .invalidDigit
  | ds => readDigits s 0 ds

/-- Reads the characters of a numeral. -/
def readChars : List Char → Except Misread Ordinal
  | [] => .error .empty
  | '+' :: ds => readSigned .plus ds
  | '-' :: ds => readSigned .minus ds
  | ds => readDigits .plus 0 ds

/-- The ordinal that a text is a numeral of, or why it is none. -/
def read (text : String) : Except Misread Ordinal := readChars text.toList

/-! ### How reading goes on, digit by digit -/

/-- Behind the last digit the value is what has been read. -/
@[simp] theorem readDigits_nil (s : Sign) (v : Ordinal) : readDigits s v [] = .ok v := rfl

/-- A digit extends the value, and the rest is read behind it. -/
theorem readDigits_cons (s : Sign) (v : Ordinal) (c : Char) (ds : List Char) :
    readDigits s v (c :: ds) =
      match s.extend v c with
      | .ok w => readDigits s w ds
      | .error reason => .error reason := by
  simp only [readDigits, List.foldlM_cons]
  cases s.extend v c <;> rfl

/-- The reader does not look behind the first character that stops it. -/
theorem readDigits_append (s : Sign) (v : Ordinal) (cs ds : List Char) :
    readDigits s v (cs ++ ds) =
      match readDigits s v cs with
      | .ok w => readDigits s w ds
      | .error reason => .error reason := by
  simp only [readDigits, List.foldlM_append]
  cases List.foldlM s.extend v cs <;> rfl

end RangePattern.Decimal
