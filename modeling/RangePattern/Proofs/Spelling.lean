import RangePattern.Proofs.Canonical
import RangePattern.Proofs.Expansion

/-!
# Patterns written from numbers

A caller who has two bounds and an increment as numbers writes them as canonical numerals and puts
separators between them. What comes out is a pattern of the right range, but it is not always a
range of numbers: a numeral of one digit is also a single character, so between two of them the
pattern is a range of characters. And a bound that is zero begins with a `0`, so it asks for a
width.

Neither shows in the items. `expand_join` says so for all spellings of the bounds: characters or
numbers, the items are the terms, written at the width that the bounds ask for. The two ways meet
because the digits stand in a row among the code points, so that a walk over digit characters is the
walk over their values, moved by the code point of `0` (`Walk.values_add`), and because a numeral is
never shorter than one character. So if the bounds ask for a width of one at most, the items are the
canonical numerals of the terms (`expand_join_of_numerals`).

The main statement is `expand_written`.
-/

namespace RangePattern

open Decimal (Numeral)

/-! ## Joining numerals -/

/-- **Joined numerals are cut where they were joined**, since no dot stands in them. -/
theorem segmentation_join_of_numerals {ss : List String} (hne : ss ≠ [])
    (h : ∀ t ∈ ss, ∃ v, Numeral t.toList v) : Segmentation (separator.intercalate ss) ss where
  ne_nil := hne
  join := rfl
  free := by
    intro t ht
    obtain ⟨v, hv⟩ := h t ht
    exact separatorFree_of_dot_not_mem hv.dot_not_mem
  closed := by
    intro t ht hdot
    obtain ⟨v, hv⟩ := h t (List.mem_of_mem_dropLast ht)
    exact hv.dot_not_mem (List.mem_of_getLast? hdot)

/-- What names an increment is a numeral. -/
theorem IncrementOf.numeral {rest : List String} {i : Ordinal} (h : IncrementOf rest i) :
    ∀ t ∈ rest, ∃ v, Numeral t.toList v := by
  cases h with
  | omitted => simp
  | named hk => simpa using ⟨_, hk⟩

/-! ## Digits as characters -/

/-- The character of a digit is its numeral. -/
theorem singleton_characterAt_of_digit {o : Ordinal} {v : Int} (h0 : 0 ≤ v) (h9 : v ≤ 9)
    (ho : o.toInt = v + 48) : String.singleton (characterAt o) = Decimal.ofInt v := by
  obtain ⟨n, rfl⟩ := Int.eq_ofNat_of_zero_le h0
  have hn : n < 10 := by omega
  have hcode : codePoint (Nat.digitChar n) = o := by
    rw [← Int32.toInt_inj, toInt_codePoint, Nat.toNat_digitChar_of_lt_ten hn, ho]
    omega
  have hchars : Decimal.chars n = [Nat.digitChar n] := by
    rw [Decimal.chars, Decimal.sign, if_neg (by omega)]
    exact Nat.toDigits_of_lt_base hn
  rw [← hcode, characterAt_codePoint, Decimal.ofInt, hchars]
  rfl

/-! ## The items -/

/-- A single character asks for a width of one at most. -/
theorem zeroWidth_le_one {t : String} {c : Char} (h : t.toList = [c]) : zeroWidth t ≤ 1 := by
  have hlen : t.length = 1 := by
    rw [← String.length_toList, h]
    rfl
  unfold zeroWidth
  split <;> omega

/-- With a width of one at most values are written as canonical numerals. -/
theorem map_write_of_le_one {width : Nat} (h : width ≤ 1) (vs : List Int) :
    vs.map (Decimal.write width) = vs.map Decimal.ofInt :=
  List.map_congr_left fun v _ => Decimal.write_of_le_one h v

/-- **The items of a range between two digit characters** are the canonical numerals of the walk
between the two digits. -/
theorem Range.items_of_digits {r : Range} {s e : Int} (hstyle : r.style = .character)
    (hs : 0 ≤ s ∧ s ≤ 9) (he : 0 ≤ e ∧ e ≤ 9) (hfirst : r.first.toInt = s + 48)
    (hlast : r.last.toInt = e + 48) :
    r.items = (Walk.values e r.increment.toInt s).map Decimal.ofInt := by
  have hitems : r.items =
      ((Cursor.items r.progression).map Int32.toInt).map fun v => Decimal.ofInt (v - 48) := by
    rw [Range.items_eq_map, hstyle, List.map_map]
    apply List.map_congr_left
    intro o ho
    -- The walk stays between its bounds, so every item is a digit as well.
    have hmem := Progression.toInt_mem_uIcc_of_mem_items ho
    rw [hfirst, hlast, Set.mem_uIcc] at hmem
    exact singleton_characterAt_of_digit (v := o.toInt - 48) (by omega) (by omega) (by omega)
  have hwalk : (Cursor.items r.progression).map Int32.toInt =
      (Walk.values e r.increment.toInt s).map fun v => v + 48 := by
    rw [← Walk.values_add, ← hfirst, ← hlast]
    exact Progression.map_toInt_items_between _ _ _
  rw [hitems, hwalk, List.map_map]
  apply List.map_congr_left
  intro v _
  show Decimal.ofInt (v + 48 - 48) = Decimal.ofInt v
  rw [Int.add_sub_cancel]

/-! ## All spellings of the bounds -/

section

variable {a b : String} {s e i : Ordinal} {rest : List String}

/-- Two numerals and what names an increment, joined, denote a range. -/
theorem exists_denotes_join (hs : Numeral a.toList s.toInt) (he : Numeral b.toList e.toInt)
    (hi : IncrementOf rest i) :
    ∃ range, Denotes (separator.intercalate (a :: b :: rest)) range ∧ range.increment = i ∧
      Bounds a b range.style range.first range.last := by
  have hall : ∀ t ∈ a :: b :: rest, ∃ v, Numeral t.toList v :=
    List.forall_mem_cons.mpr ⟨⟨_, hs⟩, List.forall_mem_cons.mpr ⟨⟨_, he⟩, hi.numeral⟩⟩
  have hcut := segmentation_join_of_numerals (List.cons_ne_nil _ _) hall
  obtain ⟨style, s', e', hb⟩ := boundsFit_iff.mp
    (Or.inr ⟨⟨_, hs, Ordinal.inRange_toInt s⟩, _, he, Ordinal.inRange_toInt e⟩)
  exact ⟨⟨style, s', e', i⟩, ⟨a, b, rest, hcut, hi, hb⟩, rfl, hb⟩

/-- So they open as a listing, in the style that the bounds choose. -/
theorem exists_listing_join (hs : Numeral a.toList s.toInt) (he : Numeral b.toList e.toInt)
    (hi : IncrementOf rest i) :
    ∃ l, Listing.ofPattern (separator.intercalate (a :: b :: rest)) = .ok l ∧
      l.style = Style.between a b := by
  obtain ⟨range, hden, -, hb⟩ := exists_denotes_join hs he hi
  exact ⟨range.listing, Listing.ofPattern_eq_ok_iff.mpr ⟨range, hden, rfl⟩, hb.style_eq_between⟩

/-- **Joined numerals expand to numerals.** Characters or numbers, the items are the values of the
walk between the two bounds, written at the width that these ask for. -/
theorem expand_join (hs : Numeral a.toList s.toInt) (he : Numeral b.toList e.toInt)
    (hi : IncrementOf rest i) :
    expand (separator.intercalate (a :: b :: rest)) =
      .ok ((Walk.values e.toInt i.toInt s.toInt).map (Decimal.write (commonWidth a b))) := by
  obtain ⟨range, hden, hinc, hb⟩ := exists_denotes_join hs he hi
  refine expand_eq_ok_iff.mpr ⟨range, hden, ?_⟩
  obtain ⟨style, first, last, increment⟩ := range
  obtain rfl : increment = i := hinc
  cases hb with
  | @characters c d hc hd =>
    have hwidth : commonWidth a b ≤ 1 := Nat.max_le.mpr ⟨zeroWidth_le_one hc, zeroWidth_le_one hd⟩
    rw [hc] at hs
    rw [hd] at he
    obtain ⟨hs0, hs9, hsc⟩ := hs.of_singleton
    obtain ⟨he0, he9, hed⟩ := he.of_singleton
    rw [map_write_of_le_one hwidth]
    exact Range.items_of_digits rfl ⟨hs0, hs9⟩ ⟨he0, he9⟩ ((toInt_codePoint c).trans hsc)
      ((toInt_codePoint d).trans hed)
  | numbers _ hs' he' =>
    obtain rfl := hs'.ordinal_unique hs
    obtain rfl := he'.ordinal_unique he
    exact Range.items_of_decimal rfl

/-- **The spelling of the bounds does not show**, as long as they ask for a width of one at most:
the items are the canonical numerals of the walk between the two. -/
theorem expand_join_of_numerals (hs : Numeral a.toList s.toInt) (he : Numeral b.toList e.toInt)
    (hi : IncrementOf rest i) (hwidth : commonWidth a b ≤ 1) :
    expand (separator.intercalate (a :: b :: rest)) =
      .ok ((Walk.values e.toInt i.toInt s.toInt).map Decimal.ofInt) := by
  rw [expand_join hs he hi, map_write_of_le_one hwidth]

end

/-! ## Canonical numerals as tokens -/

namespace Ordinal

/-- The canonical numeral of an ordinal. -/
def numeral (o : Ordinal) : String := Decimal.ofInt o.toInt

/-- The canonical numeral, without and with a plus sign in front of it. -/
def spellings (o : Ordinal) : List String := [o.numeral, "+" ++ o.numeral]

/-- An ordinal whose canonical numeral is a single digit. -/
def IsDigit (o : Ordinal) : Prop := 0 ≤ o.toInt ∧ o.toInt ≤ 9

/-- Whether an ordinal is a digit is decided by comparing it with both ends. -/
instance (o : Ordinal) : Decidable o.IsDigit := inferInstanceAs (Decidable (_ ∧ _))

variable {o : Ordinal} {t : String}

/-- The characters of the canonical numeral. -/
theorem toList_numeral (o : Ordinal) : o.numeral.toList = Decimal.chars o.toInt :=
  String.toList_ofList

/-- It is as long as its characters are many. -/
theorem length_numeral (o : Ordinal) : o.numeral.length = (Decimal.chars o.toInt).length := by
  rw [← String.length_toList, toList_numeral]

/-- Only digits are spelled by a single character. -/
theorem isCharacter_numeral_iff : IsCharacter o.numeral ↔ o.IsDigit := by
  unfold IsCharacter IsDigit
  rw [toList_numeral, ← List.length_eq_one_iff, Decimal.length_chars_eq_one_iff]

/-- Only zero asks for a width, and that is one. -/
theorem zeroWidth_numeral (o : Ordinal) : zeroWidth o.numeral = if o = 0 then 1 else 0 := by
  by_cases ho : o = 0
  · subst ho
    decide
  · have hhead : ¬ o.numeral.toList.head? = some '0' := by
      rw [toList_numeral, Decimal.head?_chars_eq_zero_iff]
      exact fun hv => ho (Int32.toInt_inj.mp hv)
    rw [zeroWidth, if_neg hhead, if_neg ho]

/-- Behind a plus sign there is more than one character. -/
theorem not_isCharacter_plus_numeral (o : Ordinal) : ¬ IsCharacter ("+" ++ o.numeral) := by
  rintro ⟨c, hc⟩
  rw [String.toList_append, toList_numeral] at hc
  exact Decimal.chars_ne_nil o.toInt (List.cons.inj hc).2

/-- A plus sign is no zero. -/
theorem zeroWidth_plus (t : String) : zeroWidth ("+" ++ t) = 0 := by
  simp [zeroWidth]

/-- The canonical numeral is a numeral. -/
theorem isNumeral_numeral (o : Ordinal) : Numeral o.numeral.toList o.toInt := by
  rw [toList_numeral]
  exact Decimal.numeral_chars o.toInt

/-- Both spellings are numerals, if the ordinal is not negative. -/
theorem isNumeral_of_mem_spellings (ho : 0 ≤ o.toInt) (ht : t ∈ o.spellings) :
    Numeral t.toList o.toInt := by
  rcases List.mem_pair.mp ht with rfl | rfl
  · exact isNumeral_numeral o
  · rw [String.toList_append, toList_numeral]
    exact Decimal.numeral_plus_chars ho

/-- Neither asks for a width of more than one. -/
theorem zeroWidth_le_of_mem_spellings (ht : t ∈ o.spellings) : zeroWidth t ≤ 1 := by
  rcases List.mem_pair.mp ht with rfl | rfl
  · rw [zeroWidth_numeral]
    split <;> omega
  · rw [zeroWidth_plus]
    omega

/-- The canonical numeral is one of the spellings. -/
theorem numeral_mem_spellings (o : Ordinal) : o.numeral ∈ o.spellings :=
  List.mem_cons_self ..

/-- Two bounds spelled so ask for a width of one at most. -/
theorem commonWidth_le_of_mem_spellings {a b : String} {s e : Ordinal} (ha : a ∈ s.spellings)
    (hb : b ∈ e.spellings) : commonWidth a b ≤ 1 :=
  Nat.max_le.mpr ⟨zeroWidth_le_of_mem_spellings ha, zeroWidth_le_of_mem_spellings hb⟩

/-- With a plus sign it is no single character any more. -/
theorem eq_numeral_of_mem_spellings (ht : t ∈ o.spellings) (hc : IsCharacter t) :
    t = o.numeral := by
  rcases List.mem_pair.mp ht with rfl | rfl
  · rfl
  · exact absurd hc (not_isCharacter_plus_numeral o)

end Ordinal

/-- The style between two canonical numerals. -/
theorem Style.between_numeral (s e : Ordinal) :
    between s.numeral e.numeral =
      if s.IsDigit ∧ e.IsDigit then .character
      else .decimal (if s = 0 ∨ e = 0 then 1 else 0) := by
  by_cases h : s.IsDigit ∧ e.IsDigit
  · rw [if_pos h, between_eq_character_iff]
    exact ⟨Ordinal.isCharacter_numeral_iff.mpr h.1, Ordinal.isCharacter_numeral_iff.mpr h.2⟩
  · have hwidth : commonWidth s.numeral e.numeral = if s = 0 ∨ e = 0 then 1 else 0 := by
      unfold commonWidth
      rw [Ordinal.zeroWidth_numeral, Ordinal.zeroWidth_numeral]
      by_cases hs : s = 0 <;> by_cases he : e = 0 <;> simp [hs, he]
    have hchars : ¬ (IsCharacter s.numeral ∧ IsCharacter e.numeral) := by
      rwa [Ordinal.isCharacter_numeral_iff, Ordinal.isCharacter_numeral_iff]
    rw [between_of_not_characters hchars, hwidth, if_neg h]

/-- Two bounds of which one has a plus sign choose numbers. -/
theorem Style.isCharacter_between_spellings {s e : Ordinal} {a b : String} (ha : a ∈ s.spellings)
    (hb : b ∈ e.spellings) (hplus : a ≠ s.numeral ∨ b ≠ e.numeral) :
    (between a b).isCharacter = false := by
  have hchars : ¬ (IsCharacter a ∧ IsCharacter b) := by
    rintro ⟨hca, hcb⟩
    rcases hplus with hne | hne
    · exact hne (Ordinal.eq_numeral_of_mem_spellings ha hca)
    · exact hne (Ordinal.eq_numeral_of_mem_spellings hb hcb)
  rw [between_of_not_characters hchars]
  rfl

/-! ## Patterns of canonical numerals -/

/-- The canonical numerals of the terms that are collected are those of the walk. -/
theorem Progression.map_numeral_collect (s e i : Ordinal) :
    (Cursor.collect (between s e i)).1.map Ordinal.numeral =
      (Walk.values e.toInt i.toInt s.toInt).map Decimal.ofInt := by
  rw [Cursor.collect_fst, ← map_toInt_items_between, List.map_map]
  rfl

/-- **Canonical numerals expand to canonical numerals**, those of the terms that are collected. -/
theorem expand_join_numerals (s e : Ordinal) {i : Ordinal} {rest : List String}
    (hi : IncrementOf rest i) :
    expand (separator.intercalate (s.numeral :: e.numeral :: rest)) =
      .ok ((Cursor.collect (Progression.between s e i)).1.map Ordinal.numeral) := by
  rw [Progression.map_numeral_collect]
  exact expand_join_of_numerals s.isNumeral_numeral e.isNumeral_numeral hi
    (Ordinal.commonWidth_le_of_mem_spellings s.numeral_mem_spellings e.numeral_mem_spellings)

/-- **A plus sign does not show.** -/
theorem expand_join_of_spellings {s e i : Ordinal} {rest : List String} {a b : String}
    (hs : 0 ≤ s.toInt) (he : 0 ≤ e.toInt) (hi : IncrementOf rest i) (ha : a ∈ s.spellings)
    (hb : b ∈ e.spellings) :
    expand (separator.intercalate (a :: b :: rest)) =
      expand (separator.intercalate (s.numeral :: e.numeral :: rest)) := by
  rw [expand_join_numerals s e hi, Progression.map_numeral_collect]
  exact expand_join_of_numerals (Ordinal.isNumeral_of_mem_spellings hs ha)
    (Ordinal.isNumeral_of_mem_spellings he hb) hi (Ordinal.commonWidth_le_of_mem_spellings ha hb)

/-- **Patterns written from numbers mean these numbers.** Let the canonical numerals of two bounds
and an increment be joined.

The pattern opens in the style of characters exactly if both bounds are digits, and otherwise in a
style of numbers, whose width is one if a bound is zero. In either style it expands to the canonical
numerals of the terms from the one bound towards the other, as many as the terms are counted.

If the bounds are not negative, and in particular if they are digits, each of them may also be
written with a plus sign. With at least one plus sign the style is that of numbers, and the
expansion stays as it is. This holds with the increment in any spelling, and also if it is left
out. -/
theorem expand_written (s e i : Ordinal) :
    (∃ l, Listing.ofPattern (separator.intercalate [s.numeral, e.numeral, i.numeral]) = .ok l ∧
      l.style = if s.IsDigit ∧ e.IsDigit then .character
        else .decimal (if s = 0 ∨ e = 0 then 1 else 0)) ∧
    (∃ items, expand (separator.intercalate [s.numeral, e.numeral, i.numeral]) = .ok items ∧
      items = (Cursor.collect (Progression.between s e i)).1.map Ordinal.numeral ∧
      items.length = (termCount s e i).toNat) ∧
    (0 ≤ s.toInt → 0 ≤ e.toInt → ∀ rest, IncrementOf rest i →
      ∀ a ∈ s.spellings, ∀ b ∈ e.spellings, a ≠ s.numeral ∨ b ≠ e.numeral →
        (∃ l, Listing.ofPattern (separator.intercalate (a :: b :: rest)) = .ok l ∧
          l.style.isCharacter = false) ∧
        expand (separator.intercalate (a :: b :: rest)) =
          expand (separator.intercalate (s.numeral :: e.numeral :: rest))) := by
  have hi : IncrementOf [i.numeral] i := .named i.isNumeral_numeral
  refine ⟨?_, ⟨_, expand_join_numerals s e hi, rfl, ?_⟩, ?_⟩
  · rw [← Style.between_numeral]
    exact exists_listing_join s.isNumeral_numeral e.isNumeral_numeral hi
  · rw [List.length_map, Cursor.collect_fst]
    exact Progression.length_items_between s e i
  · intro hs he rest hrest a ha b hb hplus
    obtain ⟨l, hopen, hstyle⟩ := exists_listing_join (Ordinal.isNumeral_of_mem_spellings hs ha)
      (Ordinal.isNumeral_of_mem_spellings he hb) hrest
    refine ⟨⟨l, hopen, ?_⟩, expand_join_of_spellings hs he hrest ha hb⟩
    rw [hstyle]
    exact Style.isCharacter_between_spellings ha hb hplus

example : expand "0..9..4" = .ok ["0", "4", "8"] := by decide
example : expand "+0..9..4" = expand "0..9..4" := by decide

end RangePattern
