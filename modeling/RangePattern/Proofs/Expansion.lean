import RangePattern.Proofs.Cursors
import RangePattern.Proofs.Language
import RangePattern.Proofs.Terms

/-!
# What a pattern expands to

A pattern that stands for a range expands to the terms of its progression, each written in the
style of the range (`expand_eq_ok_iff`). Where the style is that of numbers, this comes down to a
description that mentions no state at all, `expand_numbers`: how many items there are, and which
characters the `k`-th one has.

Writing and walking are independent of each other. A listing walks the way its progression does and
writes what it gets, so its items are the written items of the progression
(`Listing.items_eq_map`).
-/

namespace RangePattern

/-! ## The items of a range -/

/-- A listing steps the way its progression does, and it writes the ordinal that it gets. -/
theorem Listing.next?_eq_map (l : Listing) :
    Cursor.next? l =
      (Cursor.next? l.progression).map fun r => (l.style.write r.1, ⟨r.2, l.style⟩) := by
  show l.next? = l.progression.next?.map _
  unfold Listing.next?
  rcases l.progression.next? with _ | ⟨o, p⟩ <;> rfl

/-- **A listing writes what its progression hands out.** -/
theorem Listing.items_eq_map (l : Listing) :
    Cursor.items l = (Cursor.items l.progression).map l.style.write :=
  Cursor.items_map (g := fun p => mk p l.style) (fun p => next?_eq_map (mk p l.style)) l.progression

/-- Passing over items of a listing is passing over terms of its progression. -/
theorem Listing.drop_eq_mk (n : Nat) (l : Listing) :
    Cursor.drop n l = ⟨Cursor.drop n l.progression, l.style⟩ :=
  Cursor.drop_map (f := l.style.write) (g := fun p => mk p l.style)
    (fun p => next?_eq_map (mk p l.style)) n l.progression

/-- The items of a range are its terms, written in its style. -/
theorem Range.items_eq_map (r : Range) :
    r.items = (Cursor.items r.progression).map r.style.write := by
  rw [Range.items, Cursor.collect_fst, Listing.items_eq_map]
  rfl

/-- A pattern expands to the items of the range that it stands for. -/
theorem expand_eq_ok_iff {pattern : String} {items : List String} :
    expand pattern = .ok items ↔ ∃ range, Denotes pattern range ∧ range.items = items := by
  simp only [← Range.ofPattern_eq_ok_iff, expand_eq]
  cases Range.ofPattern pattern <;> simp

/-- So it expands to the items of the range that is made of it. -/
theorem expand_of_range {pattern : String} {range : Range}
    (h : Range.ofPattern pattern = .ok range) : expand pattern = .ok range.items := by
  rw [expand_eq, h]

/-- A listing opens on the range that its pattern stands for. -/
theorem Listing.ofPattern_eq_ok_iff {pattern : String} {l : Listing} :
    Listing.ofPattern pattern = .ok l ↔ ∃ range, Denotes pattern range ∧ range.listing = l := by
  simp only [← Range.ofPattern_eq_ok_iff, Listing.ofPattern]
  cases Range.ofPattern pattern <;> simp

/-- The number of items of a range, counted by its walk. -/
theorem Range.length_items (r : Range) :
    r.items.length = (termCount r.first r.last r.increment).toNat := by
  rw [Range.items_eq_map, List.length_map]
  exact Progression.length_items_between _ _ _

/-- **How many items there are**: one for each step at which the walk over the integers goes on. -/
theorem Range.encard_continues (r : Range) :
    {k : ℕ | Walk.Continues r.last.toInt r.increment.toInt
      (r.first.toInt + k * r.increment.toInt)}.encard = r.items.length := by
  rw [Range.length_items]
  exact RangePattern.encard_continues r.first r.last r.increment

/-- **Which item is the `k`-th**: the first ordinal plus `k` increments, written in the style. -/
theorem Range.getElem_items (r : Range) {k : Nat} (hk : k < r.items.length) :
    ∃ o : Ordinal, o.toInt = r.first.toInt + k * r.increment.toInt ∧
      r.items[k] = r.style.write o := by
  simp only [Range.items_eq_map, List.length_map] at hk
  refine ⟨(Cursor.items r.progression)[k], ?_, ?_⟩
  · exact Progression.toInt_getElem_items (Progression.fits_between _ _ _) hk
  · simp [Range.items_eq_map]

/-! ## Ranges of numbers -/

/-- **The items of a range of numbers** are the values of the walk between its bounds, written at
its width. -/
theorem Range.items_of_decimal {r : Range} {width : Nat} (hstyle : r.style = .decimal width) :
    r.items =
      (Walk.values r.last.toInt r.increment.toInt r.first.toInt).map (Decimal.write width) := by
  rw [Range.items_eq_map, hstyle, ← Progression.map_toInt_items_between, List.map_map]
  rfl

namespace Decimal

/-- The text is the decimal numeral of `v`, filled up to the width: a minus sign if `v` is
negative, then zeros, then the digits of its size, and not one zero more than the width asks
for. -/
def Filled (width : Nat) (v : Int) (text : String) : Prop :=
  ∃ zeros : Nat,
    text.toList = (if v < 0 then ['-'] else []) ++
      (List.replicate zeros '0' ++ Nat.toDigits 10 v.natAbs) ∧
    text.length =
      max width ((if v < 0 then ['-'] else []) ++ Nat.toDigits 10 v.natAbs).length

/-- What is written is filled. -/
theorem filled_write (width : Nat) (v : Int) : Filled width v (write width v) := by
  refine ⟨width - (chars v).length, toList_write width v, ?_⟩
  rw [← String.length_toList, toList_write]
  exact length_padded width v

end Decimal

/-- The length of the longest of the tokens that begin with `0`, and zero if none does. -/
def widestZeroLed (tokens : List String) : Nat :=
  ((tokens.filter fun t => t.toList.head? = some '0').map String.length).max?.getD 0

/-- Two bounds ask for the length of the longer one that begins with `0`. -/
theorem commonWidth_eq_widestZeroLed (a b : String) : commonWidth a b = widestZeroLed [a, b] := by
  unfold commonWidth zeroWidth widestZeroLed
  by_cases ha : a.toList.head? = some '0' <;> by_cases hb : b.toList.head? = some '0' <;>
    simp [ha, hb]

/-- **What a range of numbers expands to.** Let a pattern be opened as a listing of numbers. Then
its bounds are numerals, and it expands to one item for each `k` at which the walk from the first
bound goes on, as many as there are such `k`. The `k`-th item is the numeral of the first bound
plus `k` increments, filled up to the length of the longest bound that begins with `0`. -/
theorem expand_numbers {pattern : String} {l : Listing}
    (hopen : Listing.ofPattern pattern = .ok l) (hnum : l.style.isCharacter = false) :
    ∃ (a b : String) (s e i : Ordinal) (items : List String),
      Parts.ofPattern pattern = .ok ⟨a, b, i⟩ ∧
      Decimal.Numeral a.toList s.toInt ∧ Decimal.Numeral b.toList e.toInt ∧
      expand pattern = .ok items ∧
      {k : ℕ | Walk.Continues e.toInt i.toInt (s.toInt + k * i.toInt)}.encard = items.length ∧
      ∀ (k : ℕ) (hk : k < items.length),
        Decimal.Filled (widestZeroLed [a, b]) (s.toInt + k * i.toInt) items[k] := by
  obtain ⟨range, hden, rfl⟩ := Listing.ofPattern_eq_ok_iff.mp hopen
  have hexpand := expand_eq_ok_iff.mpr ⟨range, hden, rfl⟩
  obtain ⟨a, b, rest, hcut, hi, hb⟩ := hden
  obtain ⟨hstyle, hs, he⟩ := hb.of_isCharacter_eq_false hnum
  have hparts : Parts.ofPattern pattern = .ok ⟨a, b, range.increment⟩ :=
    Parts.ofPattern_eq_ok_iff.mpr ⟨rest, hcut, hi⟩
  refine ⟨a, b, range.first, range.last, range.increment, range.items, hparts, hs, he, hexpand,
    range.encard_continues, fun k hk => ?_⟩
  obtain ⟨o, ho, hitem⟩ := range.getElem_items hk
  rw [hitem, hstyle, ← ho, ← commonWidth_eq_widestZeroLed]
  exact Decimal.filled_write _ o.toInt

/-- `expand_numbers` from the least ordinal on, where the step behind the second term leaves the
ordinals, and one bound asks for two characters. -/
theorem expand_numbers_least :
    Listing.ofPattern "-2147483648..07..2147483647" =
        .ok ⟨⟨-2147483648, 2147483647, 2⟩, .decimal 2⟩ ∧
      (Style.decimal 2).isCharacter = false ∧
      ∃ (a b : String) (s e i : Ordinal) (items : List String),
        Parts.ofPattern "-2147483648..07..2147483647" = .ok ⟨a, b, i⟩ ∧
        Decimal.Numeral a.toList s.toInt ∧ Decimal.Numeral b.toList e.toInt ∧
        expand "-2147483648..07..2147483647" = .ok items ∧
        {k : ℕ | Walk.Continues e.toInt i.toInt (s.toInt + k * i.toInt)}.encard = items.length ∧
        ∀ (k : ℕ) (hk : k < items.length),
          Decimal.Filled (widestZeroLed [a, b]) (s.toInt + k * i.toInt) items[k] := by
  have hopen : Listing.ofPattern "-2147483648..07..2147483647" =
      .ok ⟨⟨-2147483648, 2147483647, 2⟩, .decimal 2⟩ := by decide
  exact ⟨hopen, rfl, expand_numbers hopen rfl⟩

example : expand "08..-3..-4" = .ok ["08", "04", "00"] := by decide

end RangePattern
