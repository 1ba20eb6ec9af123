import RangePattern.Description
import RangePattern.Range

/-!
# Sessions: several walks side by side

A session holds a row of **slots**, numbered from zero in the order in which they were opened. A
slot is a cursor, either over ordinals or over the items of a pattern. A command opens a slot,
copies one, lets one act, or compares two.

Every command is answered by a `Reply` and by the slot that was worked on, as it is afterwards.
Slots are values, so a command changes no slot but the one it names, and a copy goes its own way
from where it was taken. A command that makes no sense for its slot is refused and changes nothing.
-/

namespace RangePattern

/-! ### Slots and their items -/

/-- What a slot hands out. -/
inductive Item
  /-- A term of a walk. -/
  | ordinal (o : Ordinal)
  /-- An item of a pattern. -/
  | text (t : String)
  deriving DecidableEq, Repr

/-- A cursor of a session. -/
inductive Slot
  /-- A walk along ordinals. -/
  | ordinals (p : Progression)
  /-- A walk along the items of a pattern. -/
  | texts (l : Listing)
  deriving DecidableEq, Repr

namespace Slot

/-- The number of items left. -/
def length : Slot → Nat
  | ordinals p => p.length
  | texts l => l.length

/-- The number of items left, as a machine tells it whose sizes have `bits` bits. -/
def toldLength (bits : Nat) : Slot → Nat
  | ordinals p => p.toldLength bits
  | texts l => l.toldLength bits

/-- Words of 64 bits tell it as it is. -/
@[simp] theorem toldLength_sixtyFour (s : Slot) : s.toldLength 64 = s.length := by
  cases s with
  | ordinals p => exact p.toldLength_sixtyFour
  | texts l => exact l.progression.toldLength_sixtyFour

/-- The next item and the slot behind it, or nothing if no item is left. -/
def next? : Slot → Option (Item × Slot)
  | ordinals p =>
    match p.next? with
    | none => none
    | some (o, q) => some (.ordinal o, ordinals q)
  | texts l =>
    match l.next? with
    | none => none
    | some (t, m) => some (.text t, texts m)

/-- A slot is at its end exactly if no items are left. -/
theorem next?_eq_none_iff (s : Slot) : s.next? = none ↔ s.length = 0 := by
  cases s with
  | ordinals p =>
    rw [length, ← Progression.next?_eq_none_iff, next?]
    split <;> simp_all
  | texts l =>
    rw [length, ← Listing.next?_eq_none_iff, next?]
    split <;> simp_all

/-- Behind an item there are fewer items left. -/
theorem length_lt_of_next? {s t : Slot} {a : Item} (h : s.next? = some (a, t)) :
    t.length < s.length := by
  cases s with
  | ordinals p =>
    simp only [next?] at h
    split at h
    · cases h
    · next hp =>
      cases h
      exact Progression.length_lt_of_next? hp
  | texts l =>
    simp only [next?] at h
    split at h
    · cases h
    · next hl =>
      cases h
      exact Listing.length_lt_of_next? hl

/-- Slots are walked item by item, whatever their items are. -/
instance : Cursor Slot Item where
  next? := next?
  size := length
  next?_eq_none_iff := next?_eq_none_iff
  size_lt := length_lt_of_next?

/-- The state of the slot as text. -/
def describe : Slot → String
  | ordinals p => p.describe
  | texts l => l.describe

end Slot

/-! ### Commands and replies -/

/-- What one slot can do. -/
inductive Action
  /-- Hand out the next item. -/
  | next
  /-- Pass over `n` items and hand out the one behind them. -/
  | nth (n : Nat)
  /-- Hand out the next `n` items. -/
  | take (n : Nat)
  /-- Hand out the items at the positions `0`, `n`, `2 * n` and so on, to the end. -/
  | every (n : Nat)
  /-- Hand out everything. -/
  | collect
  /-- Pass over everything and say how many items that were. -/
  | count
  /-- Pass over everything and hand out the last item. -/
  | last
  /-- Say how many items are left. -/
  | length
  /-- Say between which bounds the number of items left is, in sizes of 64 bits. -/
  | bounds
  /-- Say how the items are written; for the items of a pattern only. -/
  | style
  /-- Hand out the next `n` items in a style; for ordinals only. -/
  | write (n : Nat) (style : Style)
  deriving DecidableEq, Repr

/-- What a session is asked to do. -/
inductive Command
  /-- Open a slot over the ordinals from `first` towards `last`. -/
  | openOrdinals (first last increment : Ordinal)
  /-- Open a slot over the items of a pattern. -/
  | openPattern (pattern : String)
  /-- Open a slot that is a copy of another one. -/
  | copy (slot : Nat)
  /-- Let a slot act. -/
  | act (slot : Nat) (action : Action)
  /-- Say whether two slots over ordinals are equal. -/
  | compare (slot other : Nat)
  deriving DecidableEq, Repr

/-- What a session answers. -/
inductive Reply
  /-- A new slot has this number. -/
  | opened (slot : Nat)
  /-- The pattern has a fault, and no slot was opened. -/
  | faulty (fault : Fault)
  /-- An item, or nothing at the end. -/
  | item (item : Option Item)
  /-- Several items. -/
  | items (items : List Item)
  /-- Several ordinals in a style. -/
  | written (texts : List String)
  /-- A number of items. -/
  | number (n : Nat)
  /-- Bounds on a number of items. -/
  | between (lower upper : Nat)
  /-- How the items of a slot are written. -/
  | style (style : Style)
  /-- Whether two slots are equal. -/
  | equal (answer : Bool)
  /-- The command makes no sense for its slot. -/
  | refused
  deriving DecidableEq, Repr

/-! ### What a slot does -/

namespace Slot

/-- The slot after an action, with what the action hands out. -/
def act (s : Slot) : Action → Reply × Slot
  | .next => let r := Cursor.pop s; (.item r.1, r.2)
  | .nth n => let r := Cursor.nth n s; (.item r.1, r.2)
  | .take n => let r := Cursor.take n s; (.items r.1, r.2)
  | .every 0 => (.refused, s)
  | .every n => let r := Cursor.every n s; (.items r.1, r.2)
  | .collect => let r := Cursor.collect s; (.items r.1, r.2)
  | .count => let r := Cursor.count s; (.number r.1, r.2)
  | .last => let r := Cursor.last s; (.item r.1, r.2)
  | .length => (.number s.length, s)
  | .bounds => let n := s.toldLength 64; (.between n n, s)
  | .style =>
    match s with
    | texts l => (.style l.style, s)
    | ordinals _ => (.refused, s)
  | .write n style =>
    match s with
    | ordinals p => let r := Cursor.take n p; (.written (style.writeAll r.1), ordinals r.2)
    | texts _ => (.refused, s)

end Slot

/-! ### Running a session -/

/-- The slots of a session, in the order in which they were opened. -/
abbrev Session := List Slot

/-- What comes of one command. -/
structure Answer where
  /-- What is answered. -/
  reply : Reply
  /-- The slot that was worked on, as it is afterwards. -/
  slot : Option Slot
  deriving DecidableEq, Repr

namespace Session

/-- Opens one more slot. -/
def push (s : Session) (slot : Slot) : Answer × Session :=
  (⟨.opened s.length, some slot⟩, s ++ [slot])

/-- Carries out one command. -/
def step (s : Session) : Command → Answer × Session
  | .openOrdinals first last increment => s.push (.ordinals (.between first last increment))
  | .openPattern pattern =>
    match Listing.ofPattern pattern with
    | .ok l => s.push (.texts l)
    | .error fault => (⟨.faulty fault, none⟩, s)
  | .copy i =>
    match s[i]? with
    | some slot => s.push slot
    | none => (⟨.refused, none⟩, s)
  | .act i action =>
    match s[i]? with
    | some slot =>
      let r := slot.act action
      (⟨r.1, some r.2⟩, s.set i r.2)
    | none => (⟨.refused, none⟩, s)
  | .compare i j =>
    match s[i]?, s[j]? with
    | some (.ordinals p), some (.ordinals q) => (⟨.equal (p = q), some (.ordinals p)⟩, s)
    | slot, _ => (⟨.refused, slot⟩, s)

/-- Carries out commands one after the other. -/
def run (s : Session) : List Command → List Answer × Session
  | [] => ([], s)
  | c :: cs =>
    let r := s.step c
    let t := run r.2 cs
    (r.1 :: t.1, t.2)

/-- A run is a run of its beginning and then of the rest. -/
theorem run_append (s : Session) (cs ds : List Command) :
    run s (cs ++ ds) =
      ((run s cs).1 ++ (run (run s cs).2 ds).1, (run (run s cs).2 ds).2) := by
  induction cs generalizing s with
  | nil => rfl
  | cons c cs ih => simp [run, ih]

/-- A command is answered once. -/
theorem length_run (s : Session) (cs : List Command) : (run s cs).1.length = cs.length := by
  induction cs generalizing s with
  | nil => rfl
  | cons c cs ih => simp [run, ih]

end Session

end RangePattern
