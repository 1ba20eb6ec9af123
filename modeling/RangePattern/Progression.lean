import RangePattern.Cursor
import RangePattern.TermCount

/-!
# Progressions: the ordinals of a range, one by one

A `Progression` is a walk along the terms of a range: where it stands, what it advances by, and how
many terms are left. The number of terms is counted once, when the walk begins; from then on each
step takes one term and lets the count run down.

The walk advances by checked addition, also behind the last term. The position there may be no
ordinal, since the bounds can lie at the very ends of the range of ordinals. Then the walk stays
where it is, and it is over.
-/

namespace RangePattern

/-- A walk along the terms of a range. -/
structure Progression where
  /-- The next term, or where the walk has come to rest. -/
  current : Ordinal
  /-- What a term differs by from the term before it. -/
  increment : Ordinal
  /-- The number of terms left. -/
  remaining : UInt64
  deriving DecidableEq, Repr

namespace Progression

/-- The walk from `first` towards `last`. -/
def between (first last increment : Ordinal) : Progression :=
  ⟨first, increment, termCount first last increment⟩

/-- The walk behind its next term. Where there is no ordinal to advance to, it is over. -/
def advance (p : Progression) : Progression :=
  match p.current.add? p.increment with
  | some o => ⟨o, p.increment, p.remaining - 1⟩
  | none => ⟨p.current, p.increment, 0⟩

/-- The next term and the walk behind it, or nothing if no term is left. -/
def next? (p : Progression) : Option (Ordinal × Progression) :=
  if p.remaining = 0 then none else some (p.current, p.advance)

/-- The number of terms left. -/
def length (p : Progression) : Nat := p.remaining.toNat

/-- The number of terms left, as a machine tells it whose sizes have `bits` bits. A number that is
no such size is told as the largest one. -/
def toldLength (bits : Nat) (p : Progression) : Nat :=
  let sizes := Nat.pow 2 bits
  if p.length < sizes then p.length else sizes - 1

/-- Terms are counted in words of 64 bits, so such words tell every number of terms as it is. -/
@[simp] theorem toldLength_sixtyFour (p : Progression) : p.toldLength 64 = p.length :=
  if_pos p.remaining.toNat_lt

/-! ### A progression is a cursor -/

/-- A walk is at its end exactly if no terms are left. -/
theorem next?_eq_none_iff (p : Progression) : p.next? = none ↔ p.length = 0 := by
  simp [next?, length, ← UInt64.toNat_inj]

/-- Advancing never changes the increment. -/
@[simp] theorem increment_advance (p : Progression) : p.advance.increment = p.increment := by
  unfold advance
  split <;> rfl

/-- Behind a term there are fewer terms left, also where the walk ends early. -/
theorem length_advance_lt {p : Progression} (h : p.remaining ≠ 0) :
    p.advance.length < p.length := by
  have hp : 0 < p.remaining.toNat := Nat.pos_of_ne_zero fun hz => h (UInt64.toNat_inj.mp hz)
  unfold advance length
  split
  · have hle : (1 : UInt64) ≤ p.remaining := by
      rw [UInt64.le_iff_toNat_le]
      exact hp
    rw [UInt64.toNat_sub_of_le _ _ hle]
    exact Nat.sub_lt hp Nat.one_pos
  · exact hp

/-- So a step makes a walk shorter. -/
theorem length_lt_of_next? {p q : Progression} {o : Ordinal} (h : p.next? = some (o, q)) :
    q.length < p.length := by
  unfold next? at h
  split at h
  · cases h
  · next hr =>
    cases h
    exact length_advance_lt hr

/-- Progressions are walked term by term, and the number of terms left bounds the way. -/
instance : Cursor Progression Ordinal where
  next? := next?
  size := length
  next?_eq_none_iff := next?_eq_none_iff
  size_lt := length_lt_of_next?

end Progression

end RangePattern
