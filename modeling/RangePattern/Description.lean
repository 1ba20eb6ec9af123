import RangePattern.Listing

/-!
# States in words

The state of a walk can be shown as text, with all that it depends on. Walks, listings and styles
are records, so what they have in common is `recordText`: the name of the record, and its fields
between braces, each of them with its value. The value of a field may be a record in its turn, as
the walk of a listing is.
-/

namespace RangePattern

/-- A record as text: its name, and behind it the fields and their values between braces. -/
def recordText (name : String) (fields : List (String × String)) : String :=
  let entries := fields.map fun entry => entry.1 ++ ": " ++ entry.2
  " ".intercalate
    [name, String.singleton '{', ", ".intercalate entries, String.singleton '}']

/-- The style as text. Characters need no width, so their style has no fields. -/
def Style.describe : Style → String
  | character => "Rune"
  | decimal width => recordText "Numeric" [("padding_width", Decimal.ofNat width)]

/-- The state of the walk as text. -/
def Progression.describe (p : Progression) : String :=
  recordText "Steps"
    [("current", Decimal.ofInt p.current.toInt), ("increment", Decimal.ofInt p.increment.toInt),
      ("remaining", Decimal.ofNat p.remaining.toNat)]

/-- The state of the listing as text. -/
def Listing.describe (l : Listing) : String :=
  recordText "Expansion" [("steps", l.progression.describe), ("mode", l.style.describe)]

end RangePattern
