import Mathlib
import RangePattern.Proofs.Expansion

/-!
# What a range of characters expands to

A range between two characters runs over the integers between their code points. Most of these are
code points of characters, but not all: the surrogates in the middle are none. So the ordinals of a
range may run into a gap, and what is written there is the replacement character. Nothing else can
go wrong, since a range never leaves its bounds.

* `standsFor_characterAt` — between the first and the last code point, an ordinal is written as its
  character, or as the replacement character if it is a surrogate;
* `StandsFor.read_eq_ok_iff` — reading the character gives back the ordinal, unless it is a
  surrogate;
* `StandsFor.eq_replacementCharacter` — two ordinals have the same character only if that is the
  replacement character.

The main statement is `expand_characters`, which describes the expansion without a state, as
`expand_numbers` does for numbers. The replacement character may also be an item in its own right,
at its own code point, and no description of the items can tell it from a gap.
-/

namespace RangePattern

/-! ## Integers and characters -/

/-- An integer from the first code point to the last one. -/
def IsCodePoint (v : Int) : Prop := 0 ≤ v ∧ v ≤ 0x10FFFF

/-- An integer in the gap, which no character has for its code point. -/
def IsSurrogate (v : Int) : Prop := 0xD800 ≤ v ∧ v ≤ 0xDFFF

/-- An integer that is the code point of a character. -/
def IsScalarValue (v : Int) : Prop := IsCodePoint v ∧ ¬ IsSurrogate v

/-- Whether an integer is a code point is decided by comparing it with the first and the last. -/
instance (v : Int) : Decidable (IsCodePoint v) := inferInstanceAs (Decidable (_ ∧ _))

/-- So it is with the gap. -/
instance (v : Int) : Decidable (IsSurrogate v) := inferInstanceAs (Decidable (_ ∧ _))

/-- And with the code points of characters. -/
instance (v : Int) : Decidable (IsScalarValue v) := inferInstanceAs (Decidable (_ ∧ _))

/-- What is written for `v`: the character at this code point, or U+FFFD if `v` is in the gap. -/
def StandsFor (x : Char) (v : Int) : Prop :=
  if IsSurrogate v then x = '\uFFFD' else (x.toNat : Int) = v

/-- A character has a code point, and that is not in the gap. -/
theorem isCodePoint_toNat (x : Char) : IsCodePoint x.toNat ∧ ¬ IsSurrogate x.toNat := by
  have h : x.toNat.isValidChar := x.valid
  unfold Nat.isValidChar at h
  unfold IsCodePoint IsSurrogate
  omega

/-- Apart from the gap, all integers up to the last code point are valid, and no others. -/
theorem isValidChar_iff {n : Nat} : n.isValidChar ↔ IsScalarValue n := by
  unfold Nat.isValidChar IsScalarValue IsCodePoint IsSurrogate
  omega

/-- **The only reason for the replacement character is the gap.** -/
theorem standsFor_characterAt {o : Ordinal} (h : IsCodePoint o.toInt) :
    StandsFor (characterAt o) o.toInt := by
  obtain ⟨n, hn⟩ := Int.eq_ofNat_of_zero_le h.1
  rw [hn] at h ⊢
  unfold StandsFor characterAt
  rw [hn]
  by_cases hs : IsSurrogate n
  · have hv : ¬ n.isValidChar := fun hv => (isValidChar_iff.mp hv).2 hs
    rw [if_pos hs]
    exact if_neg hv
  · have hv : n.isValidChar := isValidChar_iff.mpr ⟨h, hs⟩
    rw [if_neg hs]
    show ((if n.isValidChar then Char.ofNat n else replacementCharacter).toNat : Int) = n
    rw [if_pos hv, Char.toNat_ofNat, if_pos hv]

/-- A single character is read as its code point. -/
theorem Style.read_singleton (x : Char) :
    character.read (String.singleton x) = .ok (codePoint x) := by
  have hsole : soleCharacter? (String.singleton x) = some x :=
    soleCharacter?_eq_some_iff.mpr (String.toList_singleton x)
  simp only [read, hsole]

namespace StandsFor

variable {x y : Char} {v w : Int}

/-- Outside the gap the code point is the integer. -/
theorem toNat_eq (h : StandsFor x v) (hv : ¬ IsSurrogate v) : (x.toNat : Int) = v := by
  unfold StandsFor at h
  rwa [if_neg hv] at h

/-- **Reading what is written** gives back the integer, and only in the gap it does not. -/
theorem read_eq_ok_iff (h : StandsFor x v) :
    (∃ o, Style.character.read (String.singleton x) = .ok o ∧ o.toInt = v) ↔ ¬ IsSurrogate v := by
  have hread := Style.read_singleton x
  constructor
  · rintro ⟨o, ho, rfl⟩
    rw [hread] at ho
    obtain rfl : codePoint x = o := Except.ok.inj ho
    rw [toInt_codePoint]
    exact (isCodePoint_toNat x).2
  · intro hv
    exact ⟨codePoint x, hread, (toInt_codePoint x).trans (h.toNat_eq hv)⟩

/-- **One character for two integers** is the replacement character. -/
theorem eq_replacementCharacter (hv : StandsFor x v) (hw : StandsFor x w) (hne : v ≠ w) :
    x = '\uFFFD' := by
  by_cases hsv : IsSurrogate v
  · unfold StandsFor at hv
    rwa [if_pos hsv] at hv
  · by_cases hsw : IsSurrogate w
    · unfold StandsFor at hw
      rwa [if_pos hsw] at hw
    · exact absurd ((hv.toNat_eq hsv).symm.trans (hw.toNat_eq hsw)) hne

end StandsFor

/-! ## Ranges of characters -/

/-- In a style of characters the bounds are single characters, by their code points. -/
theorem Bounds.of_isCharacter {a b : String} {style : Style} {s e : Ordinal}
    (h : Bounds a b style s e) (hchar : style.isCharacter = true) :
    ∃ c d : Char, a = String.singleton c ∧ b = String.singleton d ∧ style = .character ∧
      s = codePoint c ∧ e = codePoint d := by
  rcases h with ⟨hc, hd⟩ | ⟨-, -, -⟩
  · refine ⟨_, _, ?_, ?_, rfl, rfl, rfl⟩
    · rw [← String.toList_inj, hc, String.toList_singleton]
    · rw [← String.toList_inj, hd, String.toList_singleton]
  · exact absurd hchar Bool.false_ne_true

/-- What it is for characters to be the items of a range from `c` towards `d`. -/
structure CharacterRun (c d : Char) (increment : Int) (xs : List Char) : Prop where
  /-- There is an item for each `k` with `k` increments from `c` leading not past `d`. -/
  lt_length_iff : ∀ k : Nat,
    k < xs.length ↔ Walk.Continues d.toNat increment (c.toNat + k * increment)
  /-- The item is what is written for this integer. -/
  standsFor : ∀ (k : Nat) (hk : k < xs.length), StandsFor xs[k] (c.toNat + k * increment)
  /-- Reading an item gives back its integer, unless that is in the gap. -/
  read_iff : ∀ (k : Nat) (hk : k < xs.length),
    (∃ o, Style.character.read (String.singleton xs[k]) = .ok o ∧
        o.toInt = c.toNat + k * increment) ↔
      ¬ IsSurrogate (c.toNat + k * increment)
  /-- Outside the gap, neighbours are one increment apart. -/
  sub_eq : ∀ (k : Nat) (hk : k + 1 < xs.length), ¬ IsSurrogate (c.toNat + k * increment) →
    ¬ IsSurrogate (c.toNat + (k + 1 : Nat) * increment) →
      (xs[k + 1].toNat : Int) - xs[k].toNat = increment
  /-- No item occurs twice but the replacement character. -/
  eq_replacementCharacter : ∀ (j k : Nat) (hj : j < xs.length) (hk : k < xs.length), j ≠ k →
    xs[j] = xs[k] → xs[j] = '\uFFFD'

/-- It is enough to know how many characters there are and what each of them stands for. -/
theorem CharacterRun.of_standsFor {c d : Char} {increment : Int} {xs : List Char}
    (hlen : ∀ k : Nat,
      k < xs.length ↔ Walk.Continues d.toNat increment (c.toNat + k * increment))
    (hstands : ∀ (k : Nat) (hk : k < xs.length), StandsFor xs[k] (c.toNat + k * increment)) :
    CharacterRun c d increment xs where
  lt_length_iff := hlen
  standsFor := hstands
  read_iff k hk := (hstands k hk).read_eq_ok_iff
  sub_eq k hk hs hs' := by
    rw [(hstands (k + 1) hk).toNat_eq hs', (hstands k (by omega)).toNat_eq hs]
    push_cast
    ring
  eq_replacementCharacter j k hj hk hne heq := by
    have hk' := hstands k hk
    rw [← heq] at hk'
    apply (hstands j hj).eq_replacementCharacter hk'
    intro hv
    have h0 := (Walk.continues_iff_not_past.mp ((hlen j).mp hj)).1
    have hjk : (j : Int) = k := Int.eq_of_mul_eq_mul_right h0 (Int.add_left_cancel hv)
    exact hne (Int.ofNat.inj hjk)

/-- **What a range of characters expands to.** Let a pattern be opened as a listing of characters.
Then its bounds are two characters, the walk under the listing runs over code points only, and the
pattern expands to single characters, the items of the range between the two. -/
theorem expand_characters {pattern : String} {l : Listing}
    (hopen : Listing.ofPattern pattern = .ok l) (hchar : l.style.isCharacter = true) :
    ∃ (c d : Char) (i : Ordinal) (xs : List Char),
      Parts.ofPattern pattern = .ok ⟨String.singleton c, String.singleton d, i⟩ ∧
      l.progression = .between (codePoint c) (codePoint d) i ∧
      (∀ o ∈ Cursor.items l.progression, IsCodePoint o.toInt) ∧
      expand pattern = .ok (xs.map String.singleton) ∧ CharacterRun c d i.toInt xs := by
  obtain ⟨range, hden, rfl⟩ := Listing.ofPattern_eq_ok_iff.mp hopen
  have hexpand := expand_eq_ok_iff.mpr ⟨range, hden, rfl⟩
  obtain ⟨a, b, rest, hcut, hi, hb⟩ := hden
  obtain ⟨c, d, rfl, rfl, hstyle, hs, he⟩ := hb.of_isCharacter hchar
  have hparts : Parts.ofPattern pattern =
      .ok ⟨String.singleton c, String.singleton d, range.increment⟩ :=
    Parts.ofPattern_eq_ok_iff.mpr ⟨rest, hcut, hi⟩
  have hwalk : range.progression = .between (codePoint c) (codePoint d) range.increment := by
    rw [← hs, ← he]
    rfl
  have hfits : range.progression.Fits := Progression.fits_between _ _ _
  have hbounds : ∀ o ∈ Cursor.items range.progression, IsCodePoint o.toInt := by
    intro o ho
    rw [hwalk] at ho
    have hmem := Progression.toInt_mem_uIcc_of_mem_items ho
    rw [toInt_codePoint, toInt_codePoint, Set.mem_uIcc] at hmem
    have hc := (isCodePoint_toNat c).1
    have hd := (isCodePoint_toNat d).1
    unfold IsCodePoint at hc hd ⊢
    omega
  refine ⟨c, d, range.increment, (Cursor.items range.progression).map characterAt, hparts, hwalk,
    hbounds, ?_, CharacterRun.of_standsFor ?_ ?_⟩
  · rw [hexpand, Range.items_eq_map, hstyle, List.map_map]
    rfl
  · intro k
    rw [List.length_map, Progression.length_items hfits, hwalk, ← toInt_codePoint c,
      ← toInt_codePoint d]
    exact lt_toNat_termCount_iff _ _ _ k
  · intro k hk
    rw [List.length_map] at hk
    have hterm : (Cursor.items range.progression)[k].toInt =
        c.toNat + k * range.increment.toInt := by
      rw [Progression.toInt_getElem_items hfits hk, ← toInt_codePoint c, ← hs]
      rfl
    rw [List.getElem_map, ← hterm]
    exact standsFor_characterAt (hbounds _ (List.getElem_mem hk))

/-- `expand_characters` from the last but one character in front of the gap to the second one behind
it, with an increment that hits the gap twice. -/
theorem expand_characters_gap :
    Listing.ofPattern "\uD7FE..\uE001..1000" = .ok ⟨⟨0xD7FE, 1000, 3⟩, .character⟩ ∧
      Style.character.isCharacter = true ∧
      ∃ (c d : Char) (i : Ordinal) (xs : List Char),
        Parts.ofPattern "\uD7FE..\uE001..1000" =
          .ok ⟨String.singleton c, String.singleton d, i⟩ ∧
        (⟨0xD7FE, 1000, 3⟩ : Progression) = .between (codePoint c) (codePoint d) i ∧
        (∀ o ∈ Cursor.items (⟨0xD7FE, 1000, 3⟩ : Progression), IsCodePoint o.toInt) ∧
        expand "\uD7FE..\uE001..1000" = .ok (xs.map String.singleton) ∧
        CharacterRun c d i.toInt xs := by
  have hopen : Listing.ofPattern "\uD7FE..\uE001..1000" =
      .ok ⟨⟨0xD7FE, 1000, 3⟩, .character⟩ := by decide
  exact ⟨hopen, rfl, expand_characters hopen rfl⟩

example : expand "\uD7FE..\uE001..1000" = .ok ["\uD7FE", "\uFFFD", "\uFFFD"] := by decide

end RangePattern
