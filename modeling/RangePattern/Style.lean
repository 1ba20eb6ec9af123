import RangePattern.Fault

/-!
# Styles: how the items of a range are written

The items of a range are either **characters**, by code point, or **decimal numbers** of some
minimum width. Which of the two is decided once, from the two bounds as they are spelled: a range
between two single characters is a range of characters, every other one is a range of numbers.

A number that is spelled with a leading `0` asks for its own length as the width of all items, and
the wider of the two bounds wins. Lengths are counted in characters. A range between two digits,
such as `0..9`, is a range of characters, so its `0` asks for nothing.

A style reads tokens into ordinals (`Style.read`) and writes ordinals as items, one
(`Style.write`) or several (`Style.writeAll`), so bounds and items of one range are always of one
kind.
-/

namespace RangePattern

/-- How tokens are read and items are written. -/
inductive Style
  /-- Single characters, by code point. -/
  | character
  /-- Decimal numbers of at least `width` characters, filled up by zeros. -/
  | decimal (width : Nat)
  deriving DecidableEq, Repr

/-! ### Single characters -/

/-- The only character of a token that has exactly one. -/
def soleCharacter? (token : String) : Option Char :=
  match token.toList with
  | [c] => some c
  | _ => none

/-- A token has an only character exactly if it is made of this one alone. -/
theorem soleCharacter?_eq_some_iff {token : String} {c : Char} :
    soleCharacter? token = some c ↔ token.toList = [c] := by
  unfold soleCharacter?
  split <;> simp_all

/-- What stands for an ordinal that is no code point of a character. -/
def replacementCharacter : Char := '\uFFFD'

/-- The character at a code point. Negative ordinals, surrogates and ordinals beyond the last code
point have none, and the replacement character takes their place. -/
def characterAt (o : Ordinal) : Char :=
  match o.toInt with
  | .ofNat n => if n.isValidChar then Char.ofNat n else replacementCharacter
  | .negSucc _ => replacementCharacter

/-- The code point of a character. It is an ordinal, since code points have 21 bits. -/
def codePoint (c : Char) : Ordinal := Int32.ofNat c.toNat

/-! ### Code points and back -/

/-- The value of a code point. -/
theorem toInt_codePoint (c : Char) : (codePoint c).toInt = c.toNat := by
  have h := c.valid
  rw [codePoint, Int32.toInt_ofNat_of_lt]
  simp only [UInt32.isValidChar, Nat.isValidChar, Char.toNat_val] at h
  omega

/-- A character stands at its own code point. -/
@[simp] theorem characterAt_codePoint (c : Char) : characterAt (codePoint c) = c := by
  have h : c.toNat.isValidChar := c.valid
  simp [characterAt, toInt_codePoint, h]

/-! ### Widths -/

/-- The width that a token asks for: its length if it starts with `0`, and none otherwise. -/
def zeroWidth (token : String) : Nat :=
  if token.toList.head? = some '0' then token.length else 0

/-- The width that two bounds ask for together. -/
def commonWidth (first last : String) : Nat := max (zeroWidth first) (zeroWidth last)

namespace Style

/-! ### The style of a range -/

/-- The style of a range between two tokens. -/
def between (first last : String) : Style :=
  if (soleCharacter? first).isSome ∧ (soleCharacter? last).isSome then .character
  else .decimal (commonWidth first last)

/-- Both bounds have to be single characters. -/
theorem between_eq_character_iff {first last : String} :
    between first last = .character ↔
      (∃ c, first.toList = [c]) ∧ ∃ d, last.toList = [d] := by
  simp only [← soleCharacter?_eq_some_iff, ← Option.isSome_iff_exists, between]
  split <;> simp_all

/-- Whether items are single characters. -/
def isCharacter : Style → Bool
  | character => true
  | decimal _ => false

/-! ### Reading and writing -/

/-- The ordinal that a token spells. -/
def read (style : Style) (token : String) : Except Fault Ordinal :=
  match style with
  | character =>
    match soleCharacter? token with
    | some c => .ok (codePoint c)
    | none => .error (.notCharacter token)
  | decimal _ =>
    match Decimal.read token with
    | .ok o => .ok o
    | .error cause => .error (.bound token cause)

/-- The item that an ordinal stands for. -/
def write (style : Style) (o : Ordinal) : String :=
  match style with
  | character => String.singleton (characterAt o)
  | decimal width => Decimal.write width o.toInt

/-- The items that ordinals stand for, one for each of them and in the same order. -/
def writeAll (style : Style) (os : List Ordinal) : List String := os.map style.write

end Style

end RangePattern
