import RangePattern.Range

/-!
# Reports: all items of a pattern at once, within a limit

`expand` answers the items of a pattern as one list, or the fault that refuses the pattern.
`expandWithin` does the same within a limit on the number of items. The limit is checked against
the length of the range, which is known beforehand, so a range that is too long is refused before
its first item exists. A faulty pattern is refused for its own fault, whatever the limit.

Both are the outcome part of a `Report`, which also keeps the log of the expansion:

* `Event.opened` — the pattern has been understood; the event says what it means;
* `Event.refused` — the limit has turned the expansion down.

A pattern that is refused for a fault of its own leaves no trace in the log.
-/

namespace RangePattern

/-! ### Limits -/

/-- What the caller allows. -/
structure Options where
  /-- The largest number of items, if there is one. -/
  limit : Option Nat := none
  deriving DecidableEq, Repr

namespace Options

/-- The same options with a limit of `n` items; it replaces a limit set before. -/
def withLimit (_ : Options) (n : Nat) : Options := ⟨some n⟩

/-- The limit that `length` items exceed, if they do. -/
def exceeded? (options : Options) (length : Nat) : Option Nat :=
  options.limit.filter (· < length)

/-- A limit is exceeded if it has been set and is smaller than the length. -/
theorem exceeded?_eq_some_iff {options : Options} {length n : Nat} :
    options.exceeded? length = some n ↔ options.limit = some n ∧ n < length := by
  simp [exceeded?, Option.filter_eq_some_iff]

end Options

/-! ### The log -/

/-- How prominent an event is. -/
inductive Level
  | debug
  | trace
  deriving DecidableEq, Repr

/-- What an expansion reports on its way. -/
inductive Event
  /-- The pattern denotes `range`, which has `length` items. -/
  | opened (pattern : String) (range : Range) (length : Nat)
  /-- The items are more than `limit`. -/
  | refused (pattern : String) (length limit : Nat)
  deriving DecidableEq, Repr

namespace Event

/-- How prominent the event is. -/
def level : Event → Level
  | opened .. => .debug
  | refused .. => .trace

/-- The event in words. -/
def message : Event → String
  | opened .. => "expanding pattern"
  | refused .. => "expansion exceeds limit"

end Event

/-! ### Outcomes -/

/-- The items of a pattern, or why there are none. -/
abbrev Outcome := Except Fault (List String)

/-- Whether two outcomes are equal: the same items in the same order, or the same fault. -/
def Outcome.same : Outcome → Outcome → Bool
  | .ok xs, .ok ys => xs = ys
  | .error f, .error g => f = g
  | _, _ => false

/-- The comparison of outcomes is equality. -/
theorem Outcome.same_iff {x y : Outcome} : x.same y ↔ x = y := by
  cases x <;> cases y <;> simp [same]

/-- So equality of outcomes is decided by comparing them. -/
instance : DecidableEq Outcome := fun _ _ => decidable_of_iff _ Outcome.same_iff

/-! ### Expanding -/

/-- An expansion with its log. -/
structure Report where
  /-- What was reported, in order. -/
  events : List Event
  /-- What came of it. -/
  outcome : Outcome
  deriving DecidableEq

/-- Expands a pattern and keeps the log. -/
def report (options : Options) (pattern : String) : Report :=
  match Range.ofPattern pattern with
  | .error fault => ⟨[], .error fault⟩
  | .ok range =>
    match options.exceeded? range.length with
    | some limit =>
      ⟨[.opened pattern range range.length, .refused pattern range.length limit],
        .error (.tooLong pattern range.length limit)⟩
    | none => ⟨[.opened pattern range range.length], .ok range.items⟩

/-- The items of a pattern, unless they are more than the options allow. -/
def expandWithin (options : Options) (pattern : String) : Outcome :=
  (report options pattern).outcome

/-- The items of a pattern. -/
def expand (pattern : String) : Outcome := expandWithin {} pattern

end RangePattern
