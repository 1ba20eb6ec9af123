import RangePattern.Fault
import RangePattern.Segments

/-!
# Parts: what the segments of a pattern are for

A pattern has two or three segments: its first bound, its last bound, and an increment that may be
left out. The bounds stay as they are spelled, since their spelling decides how they are read. The
increment is always a decimal numeral.

The number of segments is checked before the increment is read, so a pattern with too many segments
is refused for their number, whatever they hold.
-/

namespace RangePattern

/-- The increment of a pattern that names none. -/
def defaultIncrement : Ordinal := 1

/-- The parts of a pattern. -/
structure Parts where
  /-- The token the range starts at. -/
  first : String
  /-- The token the range runs towards. -/
  last : String
  /-- What the range advances by. -/
  increment : Ordinal
  deriving DecidableEq, Repr

namespace Parts

/-- The parts that the segments of `pattern` are, or why they are none. -/
def ofSegments (pattern : String) : List String → Except Fault Parts
  | [first, last] => .ok ⟨first, last, defaultIncrement⟩
  | [first, last, increment] =>
    match Decimal.read increment with
    | .ok o => .ok ⟨first, last, o⟩
    | .error cause => .error (.increment increment cause)
  | ss => .error (.segmentCount pattern ss.length)

/-- The parts of a pattern, or why it has none. -/
def ofPattern (pattern : String) : Except Fault Parts :=
  ofSegments pattern (segments pattern)

end Parts

end RangePattern
