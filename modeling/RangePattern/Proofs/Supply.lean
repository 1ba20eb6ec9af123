import RangePattern.Proofs.Slots

/-!
# Slots as lists of items

The simplest slot is the list of what it still has to hand out. A `Supply` is such a list. It is
asked the same things as a slot of a session, and its answers are operations on lists: the head, the
first `n` items, the length.

A slot of a session keeps three numbers instead. `Slot.supply` forgets them, and it turns each
action of a slot into the action of the list. The lengths have to agree for this, so it needs the
invariant `Slot.Exact`: every term left is an ordinal. Opening a slot establishes the invariant and
every action keeps it.

* `Supply.act_snd_eq_leave` — an action takes as many items from a list as from a slot;
* `Slot.act_refines` — an action of a slot is the action of its list;
* `Slot.exhausted_of_items_eq_nil` — a slot whose list is empty answers nothing, and it stays as it
  is.
-/

namespace RangePattern

/-! ## The lists -/

/-- What a slot still has to hand out. -/
structure Supply where
  /-- The items to come, in order. -/
  items : List Item
  /-- How the items are written; none for ordinals. -/
  style : Option Style
  deriving DecidableEq, Repr

/-- An item as text: an ordinal is written in the style, and a text already is one. -/
def Item.written (style : Style) : Item → String
  | ordinal o => style.write o
  | text t => t

namespace Supply

/-- The ordinals that the walk from `first` towards `last` hands out. -/
def ofWalk (first last increment : Ordinal) : Supply where
  items := (Walk.values last.toInt increment.toInt first.toInt).map fun v =>
    .ordinal (Int32.ofInt v)
  style := none

/-- The same ordinals, written in the style of a range. -/
def ofRange (r : Range) : Supply where
  items := (Walk.values r.last.toInt r.increment.toInt r.first.toInt).map fun v =>
    .text (r.style.write (Int32.ofInt v))
  style := some r.style

/-- The supply with these items left. -/
def leave (s : Supply) (items : List Item) : Supply := { s with items }

/-- What an action answers, and what it leaves. -/
def act (s : Supply) : Action → Reply × Supply
  | .next => (.item s.items.head?, s.leave s.items.tail)
  | .nth n => (.item (s.items.drop n).head?, s.leave (s.items.drop n).tail)
  | .take n => (.items (s.items.take n), s.leave (s.items.drop n))
  | .every 0 => (.refused, s)
  | .every n => (.items (Cursor.multiples n s.items), s.leave [])
  | .collect => (.items s.items, s.leave [])
  | .count => (.number s.items.length, s.leave [])
  | .last => (.item s.items.getLast?, s.leave [])
  | .length => (.number s.items.length, s)
  | .bounds => (.between s.items.length s.items.length, s)
  | .style =>
    match s.style with
    | some style => (.style style, s)
    | none => (.refused, s)
  | .write n style =>
    match s.style with
    | some _ => (.refused, s)
    | none => (.written ((s.items.take n).map (Item.written style)), s.leave (s.items.drop n))

end Supply

/-! ## From slots to lists -/

namespace Slot

/-- The list that a slot stands for. -/
def supply (s : Slot) : Supply := ⟨Cursor.items s, s.style?⟩

/-- The walk from `first` towards `last` is supplied with what the walk that tests its bound hands
out. -/
theorem supply_between (first last increment : Ordinal) :
    (ordinals (.between first last increment)).supply = .ofWalk first last increment := by
  have hitems := Progression.map_toInt_items_between first last increment
  unfold supply Supply.ofWalk
  rw [items_ordinals, ← hitems, List.map_map]
  simp [Function.comp_def, style?]

/-- A listing that begins is supplied with the same ordinals as texts. -/
theorem supply_listing (r : Range) : (texts r.listing).supply = .ofRange r := by
  have hitems := Progression.map_toInt_items_between r.first r.last r.increment
  unfold supply Supply.ofRange
  rw [items_texts, Listing.items_eq_map, ← hitems, List.map_map, List.map_map]
  simp [Function.comp_def, style?, Range.listing, Range.progression]

/-- Passing over items of a slot is dropping them from its list. -/
theorem supply_drop (n : Nat) (s : Slot) :
    (Cursor.drop n s).supply = s.supply.leave (s.supply.items.drop n) := by
  unfold supply Supply.leave
  rw [Cursor.items_drop, style?_drop]

end Slot

/-! ## What an action does -/

/-- **An action leaves a list without the items it takes**, as it does with a slot. -/
theorem Supply.act_snd_eq_leave (s : Supply) (a : Action) :
    (s.act a).2 = s.leave (s.items.drop (a.taken s.style s.items.length)) := by
  have hall : s.items.drop s.items.length = [] := List.drop_length
  have hmin : ∀ n, s.items.drop (min n s.items.length) = s.items.drop n := by
    intro n
    rw [List.drop_eq_drop_iff, Nat.min_assoc, Nat.min_self]
  cases a with
  | next =>
    rw [Action.taken, hmin, List.drop_one]
    rfl
  | nth n =>
    rw [Action.taken, hmin, ← List.tail_drop]
    rfl
  | take n =>
    rw [Action.taken, hmin]
    rfl
  | every n =>
    rcases n with _ | n
    · rfl
    · rw [Action.taken, hall]
      · rfl
      · exact fun h => absurd h n.succ_ne_zero
  | collect =>
    rw [Action.taken, hall]
    rfl
  | count =>
    rw [Action.taken, hall]
    rfl
  | last =>
    rw [Action.taken, hall]
    rfl
  | length => rfl
  | bounds => rfl
  | style =>
    obtain ⟨items, _ | style⟩ := s <;> rfl
  | write n style =>
    obtain ⟨items, _ | style⟩ := s
    · rw [Action.taken, hmin]
      rfl
    · rfl

namespace Slot

/-- **A slot answers what its list answers.** -/
theorem act_fst {s : Slot} (h : s.Exact) (a : Action) : (s.act a).1 = (s.supply.act a).1 := by
  cases a with
  | next => exact congrArg Reply.item (Cursor.pop_fst s)
  | nth n =>
    refine congrArg Reply.item ?_
    show (Cursor.nth n s).1 = ((Cursor.items s).drop n).head?
    rw [Cursor.nth_fst, List.head?_drop]
  | take n => exact congrArg Reply.items (Cursor.take_fst n s)
  | every n =>
    rcases n with _ | n
    · rfl
    · refine congrArg Reply.items ?_
      rw [Cursor.every_fst, Cursor.stride_eq_multiples n.succ_pos]
      rfl
  | collect => exact congrArg Reply.items (Cursor.collect_fst s)
  | count => exact congrArg Reply.number (Cursor.count_fst s)
  | last => exact congrArg Reply.item (Cursor.last_fst s)
  | length => exact congrArg Reply.number (length_items h).symm
  | bounds =>
    have htold : s.toldLength 64 = (Cursor.items s).length := by
      rw [toldLength_sixtyFour, length_items h]
    exact congrArg (fun n => Reply.between n n) htold
  | style => rcases s with p | l <;> rfl
  | write n style =>
    rcases s with p | l
    · refine congrArg Reply.written ?_
      show style.writeAll (Cursor.take n p).1 =
        ((Cursor.items (ordinals p)).take n).map (Item.written style)
      rw [Cursor.take_fst, items_ordinals, ← List.map_take, List.map_map]
      rfl
    · rfl

/-- **An action is the action of the list**: the same answer, and the same items left. The invariant
is kept, too. -/
theorem act_refines {s : Slot} (h : s.Exact) (a : Action) :
    (s.act a).1 = (s.supply.act a).1 ∧ (s.act a).2.supply = (s.supply.act a).2 ∧
      (s.act a).2.Exact := by
  refine ⟨act_fst h a, ?_, ?_⟩
  · rw [act_snd_eq_drop, supply_drop, Supply.act_snd_eq_leave]
    rfl
  · rw [act_snd_eq_drop]
    exact h.drop _

/-! ## The end -/

/-- What it is for a slot to be at its end: every question about its items is answered with
nothing, and no action changes it. -/
structure Exhausted (s : Slot) : Prop where
  /-- The slot stays as it is. -/
  stays : ∀ a, (s.act a).2 = s
  /-- There is no next item. -/
  next : (s.act .next).1 = .item none
  /-- There is no item behind others. -/
  nth : ∀ n, (s.act (.nth n)).1 = .item none
  /-- There is nothing to take. -/
  take : ∀ n, (s.act (.take n)).1 = .items []
  /-- There is nothing at any position. -/
  every : ∀ n, 0 < n → (s.act (.every n)).1 = .items []
  /-- There is nothing to collect. -/
  collect : (s.act .collect).1 = .items []
  /-- Nothing is passed over. -/
  count : (s.act .count).1 = .number 0
  /-- There is no last item. -/
  last : (s.act .last).1 = .item none
  /-- The length is zero. -/
  length : (s.act .length).1 = .number 0
  /-- So are the bounds on it. -/
  bounds : (s.act .bounds).1 = .between 0 0
  /-- There is nothing to write. -/
  write : ∀ n style, s.style? = none → (s.act (.write n style)).1 = .written []

/-- **A slot whose list is empty is at its end.** Its answers are those of the empty list. -/
theorem exhausted_of_items_eq_nil {s : Slot} (h : s.Exact) (hs : Cursor.items s = []) :
    s.Exhausted := by
  have hreply : ∀ a, (s.act a).1 = (Supply.act ⟨[], s.style?⟩ a).1 := by
    intro a
    rw [(act_refines h a).1, supply, hs]
  refine
    { stays := act_snd_of_items_eq_nil hs
      next := hreply _
      nth := fun n => ?_
      take := fun n => ?_
      every := fun n hn => ?_
      collect := hreply _
      count := hreply _
      last := hreply _
      length := hreply _
      bounds := hreply _
      write := fun n style hstyle => ?_ }
  · rw [hreply, Supply.act, List.drop_nil]
    rfl
  · rw [hreply, Supply.act, List.take_nil]
  · obtain ⟨m, rfl⟩ := Nat.exists_eq_add_one.mpr hn
    exact hreply _
  · rw [hreply, hstyle, Supply.act, List.take_nil]
    rfl

end Slot

end RangePattern
