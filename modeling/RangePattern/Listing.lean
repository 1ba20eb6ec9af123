import RangePattern.Progression
import RangePattern.Style

/-!
# Listings: the items of a range, one by one

A `Listing` is a progression together with the style that its ordinals are written in. It hands out
texts, and it writes an item only when that item is taken, so a long range costs nothing until it is
walked. Where the progression ends, the listing ends, and its length is the progression's.
-/

namespace RangePattern

/-- The items that are left on a walk along a range. -/
structure Listing where
  /-- The walk along the ordinals. -/
  progression : Progression
  /-- How an ordinal is written. -/
  style : Style
  deriving DecidableEq, Repr

namespace Listing

/-- The number of items left. -/
def length (l : Listing) : Nat := l.progression.length

/-- The number of items left, as a machine tells it whose sizes have `bits` bits. -/
def toldLength (bits : Nat) (l : Listing) : Nat := l.progression.toldLength bits

/-- The next item and the listing behind it, or nothing if no item is left. -/
def next? (l : Listing) : Option (String × Listing) :=
  match l.progression.next? with
  | none => none
  | some (o, p) => some (l.style.write o, ⟨p, l.style⟩)

/-! ### A listing is a cursor -/

/-- A listing ends where its walk ends. -/
theorem next?_eq_none_iff (l : Listing) : l.next? = none ↔ l.length = 0 := by
  rw [length, ← Progression.next?_eq_none_iff, next?]
  split <;> simp_all

/-- A listing gets shorter with its walk. -/
theorem length_lt_of_next? {l m : Listing} {t : String} (h : l.next? = some (t, m)) :
    m.length < l.length := by
  unfold next? at h
  split at h
  · cases h
  · next hp =>
    cases h
    exact Progression.length_lt_of_next? hp

/-- Listings are walked item by item, as long as their walks have terms left. -/
instance : Cursor Listing String where
  next? := next?
  size := length
  next?_eq_none_iff := next?_eq_none_iff
  size_lt := length_lt_of_next?

end Listing

end RangePattern
