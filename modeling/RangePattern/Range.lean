import RangePattern.Listing
import RangePattern.Parts

/-!
# Ranges: what a pattern means

A pattern denotes a `Range`: a style, two bounds and an increment, all decided from its text. Each
step on the way can refuse the pattern, and the first step that does gives the fault:

1. the number of segments, then the increment (`Parts.ofPattern`);
2. the first bound, then the last one, both read in the style that they choose together.

The items of a range are the terms of its progression, written in its style.
-/

namespace RangePattern

/-- The meaning of a pattern. -/
structure Range where
  /-- How the items are written. -/
  style : Style
  /-- The ordinal of the first item. -/
  first : Ordinal
  /-- The ordinal the items run towards. -/
  last : Ordinal
  /-- What the ordinals advance by. -/
  increment : Ordinal
  deriving DecidableEq, Repr

namespace Range

/-! ### From a pattern to its range -/

/-- The range that the parts of a pattern denote, or why they denote none. -/
def ofParts (parts : Parts) : Except Fault Range :=
  let style := Style.between parts.first parts.last
  match style.read parts.first with
  | .error fault => .error fault
  | .ok first =>
    match style.read parts.last with
    | .error fault => .error fault
    | .ok last => .ok ⟨style, first, last, parts.increment⟩

/-- The range that a pattern denotes, or why it denotes none. -/
def ofPattern (pattern : String) : Except Fault Range :=
  match Parts.ofPattern pattern with
  | .error fault => .error fault
  | .ok parts => ofParts parts

/-! ### The items of a range -/

/-- The ordinals of a range. -/
def progression (r : Range) : Progression := .between r.first r.last r.increment

/-- The items of a range, before the first one is taken. -/
def listing (r : Range) : Listing := ⟨r.progression, r.style⟩

/-- The number of items, known without walking along them. -/
def length (r : Range) : Nat := r.listing.length

/-- All items of a range. -/
def items (r : Range) : List String := (Cursor.collect r.listing).1

end Range

/-- The listing that a pattern denotes, or why it denotes none. -/
def Listing.ofPattern (pattern : String) : Except Fault Listing :=
  match Range.ofPattern pattern with
  | .error fault => .error fault
  | .ok range => .ok range.listing

end RangePattern
