import RangePattern.Proofs.Characters
import RangePattern.Proofs.Places

/-!
# Writing and reading undo each other

A style reads tokens and writes items, and the two are meant to fit together.

*From ordinals to texts and back*, everything fits for numbers: a width shows in the text, but not
in what is read from it (`Decimal.read_write`), so no two ordinals are written alike. For characters
it fits as far as there are characters. `Style.read_write_character` is the exact law: the
replacement character is the only one that stands for ordinals that are not its own.

*From texts to ordinals and back*, a spelling is lost in general: a plus sign is never written, and
leading zeros are written only if a width asks for them. A token that begins with `0` asks for
exactly the width that brings its own zeros back (`Decimal.write_of_zeroLed`). Its length and its
value determine its digits, so there is no other text that could be written for it.

The main statements are `read_undoes_write` and `zero_led_tokens_return`.
-/

namespace RangePattern

open Decimal (Numeral)

/-! ## Reading what is written -/

namespace Style

/-- **Numbers are read back**, whatever the widths at which they are written and read. -/
theorem read_write_decimal (width width' : Nat) (o : Ordinal) :
    (decimal width').read ((decimal width).write o) = .ok o := by
  simp only [read, write, Decimal.read_write]

/-- So no two of them are written alike. -/
theorem write_decimal_injective (width : Nat) : Function.Injective (decimal width).write := by
  intro o p h
  have ho := read_write_decimal width 0 o
  rw [h, read_write_decimal] at ho
  exact (Except.ok.inj ho).symm

end Style

/-- The character at the code point of one has it for its code point. -/
theorem codePoint_characterAt {o : Ordinal} (h : IsScalarValue o.toInt) :
    codePoint (characterAt o) = o := by
  have hstands := standsFor_characterAt h.1
  rw [← Int32.toInt_inj, toInt_codePoint]
  exact hstands.toNat_eq h.2

/-- At all other integers the replacement character stands. -/
theorem characterAt_of_not_isScalarValue {o : Ordinal} (h : ¬ IsScalarValue o.toInt) :
    characterAt o = replacementCharacter := by
  unfold characterAt
  split
  · next n hn =>
    rw [hn, Int.ofNat_eq_natCast] at h
    exact if_neg fun hv => h (isValidChar_iff.mp hv)
  · rfl

/-- **Characters are read back as far as there are any**: every other ordinal is read as the code
point of the replacement character. -/
theorem Style.read_write_character (o : Ordinal) :
    character.read (character.write o) =
      .ok (if IsScalarValue o.toInt then o else codePoint replacementCharacter) := by
  rw [write, read_singleton]
  by_cases h : IsScalarValue o.toInt
  · rw [if_pos h, codePoint_characterAt h]
  · rw [if_neg h, characterAt_of_not_isScalarValue h]

/-- Reading a character back gives the same ordinal only if that is the code point of one. -/
theorem Style.read_write_character_eq_iff (o : Ordinal) :
    character.read (character.write o) = .ok o ↔ IsScalarValue o.toInt := by
  rw [read_write_character]
  by_cases h : IsScalarValue o.toInt
  · rw [if_pos h]
    exact iff_of_true rfl h
  · rw [if_neg h]
    refine iff_of_false ?_ h
    intro heq
    have ho : codePoint replacementCharacter = o := Except.ok.inj heq
    rw [← ho] at h
    exact h (by decide)

/-- The items of a walk are all different. -/
theorem Progression.nodup_items_between (first last increment : Ordinal) :
    (Cursor.items (between first last increment)).Nodup := by
  apply List.Nodup.of_map Int32.toInt
  rw [map_toInt_items_between]
  exact Walk.nodup_values _ _ _

/-- **Reading undoes writing.** A number that is written at any width is read back at any width, so
at each width different ordinals are written differently. A range of numbers expands to items that
are read, one by one and in order, as the ordinals its walk hands out, and no item occurs twice. An
ordinal written as a character is read back exactly if it is the code point of one, and otherwise
the code point of U+FFFD is read. -/
theorem read_undoes_write :
    (∀ (width width' : Nat) (o : Ordinal),
      (Style.decimal width').read ((Style.decimal width).write o) = .ok o) ∧
    (∀ width : Nat, Function.Injective (Style.decimal width).write) ∧
    (∀ (pattern : String) (range : Range), Range.ofPattern pattern = .ok range →
      range.style.isCharacter = false →
        ∃ items, expand pattern = .ok items ∧ items.Nodup ∧
          ∀ width : Nat, items.map (Style.decimal width).read =
            (Cursor.collect range.progression).1.map Except.ok) ∧
    ∀ o : Ordinal,
      (Style.character.read (Style.character.write o) = .ok o ↔ IsScalarValue o.toInt) ∧
      (¬ IsScalarValue o.toInt →
        Style.character.read (Style.character.write o) = .ok 0xFFFD) := by
  refine ⟨Style.read_write_decimal, Style.write_decimal_injective, ?_, ?_⟩
  · intro pattern range hrange hnum
    obtain ⟨width, hstyle⟩ : ∃ width, range.style = .decimal width := by
      cases hs : range.style with
      | character => rw [hs] at hnum; cases hnum
      | decimal width => exact ⟨width, rfl⟩
    refine ⟨range.items, expand_of_range hrange, ?_, ?_⟩
    · rw [Range.items_eq_map, hstyle]
      exact (Progression.nodup_items_between _ _ _).map (Style.write_decimal_injective width)
    · intro width'
      rw [Range.items_eq_map, hstyle, Cursor.collect_fst, List.map_map]
      apply List.map_congr_left
      intro o _
      exact Style.read_write_decimal width width' o
  · intro o
    refine ⟨Style.read_write_character_eq_iff o, ?_⟩
    intro h
    rw [Style.read_write_character, if_neg h]
    rfl

/-- `read_undoes_write` for a range of numbers with a sign in front of its zeros, and for an ordinal
that is the code point of nothing. -/
theorem read_undoes_write_signed :
    Range.ofPattern "-3..011..7" = .ok ⟨.decimal 3, -3, 11, 7⟩ ∧
      (∃ items, expand "-3..011..7" = .ok items ∧ items.Nodup ∧
        ∀ width : Nat, items.map (Style.decimal width).read =
          (Cursor.collect (Progression.between (-3) 11 7)).1.map Except.ok) ∧
      ¬ IsScalarValue (-1 : Ordinal).toInt ∧
      Style.character.read (Style.character.write (-1)) = .ok 0xFFFD := by
  have hrange : Range.ofPattern "-3..011..7" = .ok ⟨.decimal 3, -3, 11, 7⟩ := by decide
  have hnone : ¬ IsScalarValue (-1 : Ordinal).toInt := by decide
  obtain ⟨-, -, hitems, hcharacters⟩ := read_undoes_write
  have hread := hitems _ _ hrange rfl
  have hreplaced := (hcharacters (-1)).2 hnone
  exact ⟨hrange, hread, hnone, hreplaced⟩

example : (Style.decimal 0).read ((Style.decimal 14).write (-2147483648)) = .ok (-2147483648) := by
  decide

/-! ## Writing what is read -/

/-- A token that begins with `0`. -/
def ZeroLed (token : String) : Prop := token.toList.head? = some '0'

/-- Whether a token begins with `0` is decided by its first character. -/
instance (token : String) : Decidable (ZeroLed token) := inferInstanceAs (Decidable (_ = _))

namespace Decimal

/-- A numeral that begins with `0` has no sign. -/
theorem Numeral.of_head?_eq_zero {cs : List Char} {v : Int} (h : Numeral cs v)
    (h0 : cs.head? = some '0') : IsDigits cs ∧ v = (Nat.ofDigitChars 10 cs 0 : Nat) := by
  cases h with
  | bare hds => exact ⟨hds, rfl⟩
  | plus _ => exact absurd (Option.some.inj h0) (by decide)
  | minus _ => exact absurd (Option.some.inj h0) (by decide)

/-- **A token that begins with `0` is written again**, at the width that it asks for. -/
theorem write_of_zeroLed {token : String} {v : Int} (h0 : ZeroLed token)
    (h : Numeral token.toList v) : write token.length v = token := by
  obtain ⟨hdigits, rfl⟩ := h.of_head?_eq_zero h0
  rw [← String.toList_inj, toList_write, ← String.length_toList]
  exact padded_length hdigits

end Decimal

/-- Behind a range of numbers there are two numerals. -/
theorem Range.numerals_of_ofPattern {pattern : String} {parts : Parts} {range : Range}
    (hparts : Parts.ofPattern pattern = .ok parts) (hrange : ofPattern pattern = .ok range)
    (hnum : range.style.isCharacter = false) :
    Numeral parts.first.toList range.first.toInt ∧
      Numeral parts.last.toList range.last.toInt := by
  simp only [ofPattern, hparts] at hrange
  obtain ⟨-, hb⟩ := ofParts_eq_ok_iff.mp hrange
  exact (hb.of_isCharacter_eq_false hnum).2

/-- **Tokens that begin with `0` return as they were.** What is read from such a token as a number
is written as the same token at the width that is its length.

So it is in an expansion to numbers. If the first bound begins with `0` and the width of the items
is its length, then it is the first item, as long as there are items. If the last bound begins with
`0` and the width of the items is its length, then it is the last item, as long as its ordinal is
reached. -/
theorem zero_led_tokens_return :
    (∀ (width : Nat) (token : String) (o : Ordinal), ZeroLed token →
      (Style.decimal width).read token = .ok o →
        (Style.decimal token.length).write o = token) ∧
    ∀ (pattern : String) (parts : Parts) (range : Range) (width : Nat),
      Parts.ofPattern pattern = .ok parts → Range.ofPattern pattern = .ok range →
      range.style = .decimal width →
        ∃ items, expand pattern = .ok items ∧
          (ZeroLed parts.first → parts.first.length = width → items ≠ [] →
            items.head? = some parts.first) ∧
          (ZeroLed parts.last → parts.last.length = width →
            range.last ∈ (Cursor.collect range.progression).1 →
              items.getLast? = some parts.last) := by
  constructor
  · intro width token o h0 hread
    exact Decimal.write_of_zeroLed h0 (Style.read_decimal_eq_ok_iff.mp hread)
  · intro pattern parts range width hparts hrange hstyle
    obtain ⟨hs, he⟩ := Range.numerals_of_ofPattern hparts hrange (by rw [hstyle]; rfl)
    refine ⟨range.items, expand_of_range hrange, ?_, ?_⟩
    · intro h0 hlen hne
      rw [Range.items_of_decimal hstyle] at hne ⊢
      rw [List.head?_map, Walk.head?_values fun hnil => hne (by rw [hnil, List.map_nil]), ← hlen]
      exact congrArg some (Decimal.write_of_zeroLed h0 hs)
    · intro h0 hlen hmem
      have hreached : range.last.toInt ∈
          Walk.values range.last.toInt range.increment.toInt range.first.toInt := by
        rw [← Progression.map_toInt_items_between]
        rw [Cursor.collect_fst] at hmem
        exact List.mem_map_of_mem hmem
      rw [Range.items_of_decimal hstyle, List.getLast?_map, Walk.getLast?_values_of_mem hreached,
        ← hlen]
      exact congrArg some (Decimal.write_of_zeroLed h0 he)

/-- `zero_led_tokens_return` downwards, between two bounds that both begin with `0` and ask for the
same width. -/
theorem zero_led_tokens_return_downwards :
    Parts.ofPattern "010..002..-4" = .ok ⟨"010", "002", -4⟩ ∧
      Range.ofPattern "010..002..-4" = .ok ⟨.decimal 3, 10, 2, -4⟩ ∧
      ZeroLed "010" ∧ ZeroLed "002" ∧
      (2 : Ordinal) ∈ (Cursor.collect (Progression.between 10 2 (-4))).1 ∧
      ∃ items, expand "010..002..-4" = .ok items ∧ items ≠ [] ∧ items.head? = some "010" ∧
        items.getLast? = some "002" := by
  have hparts : Parts.ofPattern "010..002..-4" = .ok ⟨"010", "002", -4⟩ := by decide
  have hrange : Range.ofPattern "010..002..-4" = .ok ⟨.decimal 3, 10, 2, -4⟩ := by decide
  have hreached : (2 : Ordinal) ∈ (Cursor.collect (Progression.between 10 2 (-4))).1 := by decide
  obtain ⟨items, hexpand, hfirst, hlast⟩ :=
    zero_led_tokens_return.2 _ _ _ 3 hparts hrange rfl
  have hne : items ≠ [] := by
    rintro rfl
    exact absurd (hlast (by decide) rfl hreached) (by decide)
  exact ⟨hparts, hrange, by decide, by decide, hreached, items, hexpand, hne,
    hfirst (by decide) rfl hne, hlast (by decide) rfl hreached⟩

example : expand "010..02..-4" = .ok ["010", "006", "002"] := by decide

end RangePattern
