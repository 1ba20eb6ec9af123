import RangePattern.Proofs.Numeral
import RangePattern.Proofs.Segmentation
import RangePattern.Report

/-!
# The language of patterns

Which texts are patterns, and what is wrong with the others. Both are said about the segments of
the text alone, with `Segmentation` for the cut and `Decimal.Numeral` for the numbers:

* `Denotes pattern range` — the pattern stands for the range. Two segments are the bounds, a third
  one is the increment; two single characters are a range of characters, and all other bounds have
  to be numerals;
* `WellFormed pattern` — the same as a mere grammar, without the range;
* `FirstFault pattern fault` — the fault that is found first. Segments are counted before the
  increment is read, and the increment is read before the bounds.

The functions are traced back to these relations stage by stage, from `Parts.ofPattern` over
`Range.ofParts` to `Range.ofPattern_eq_ok_iff` and `Range.ofPattern_eq_error_iff`. The main
statement is `expand_outcome`.
-/

namespace RangePattern

open Decimal (IsOrdinal Numeral)

/-! ## The grammar -/

/-- A token of exactly one character. -/
def IsCharacter (token : String) : Prop := ∃ c, token.toList = [c]

/-- The segments behind the bounds name the increment: there are none, and it is the default one,
or there is one, and it is a numeral of the increment. -/
inductive IncrementOf : List String → Ordinal → Prop
  /-- No increment is named. -/
  | omitted : IncrementOf [] defaultIncrement
  /-- The increment is named. -/
  | named {k : String} {o : Ordinal} (h : Numeral k.toList o.toInt) : IncrementOf [k] o

/-- Two tokens bound a range of this style between these ordinals. -/
inductive Bounds : String → String → Style → Ordinal → Ordinal → Prop
  /-- Two characters are bounds by their code points. -/
  | characters {a b : String} {c d : Char} (hc : a.toList = [c]) (hd : b.toList = [d]) :
    Bounds a b .character (codePoint c) (codePoint d)
  /-- All other bounds are numerals, and they choose the width together. -/
  | numbers {a b : String} {s e : Ordinal} (hab : ¬ (IsCharacter a ∧ IsCharacter b))
    (hs : Numeral a.toList s.toInt) (he : Numeral b.toList e.toInt) :
    Bounds a b (.decimal (commonWidth a b)) s e

/-- In a style of numbers the bounds are numerals, and the style has the width they ask for. -/
theorem Bounds.of_isCharacter_eq_false {a b : String} {style : Style} {s e : Ordinal}
    (h : Bounds a b style s e) (hnum : style.isCharacter = false) :
    style = .decimal (commonWidth a b) ∧ Numeral a.toList s.toInt ∧ Numeral b.toList e.toInt := by
  cases h with
  | characters => exact absurd hnum Bool.noConfusion
  | numbers _ hs he => exact ⟨rfl, hs, he⟩

/-- Two characters choose the style of characters, and all other tokens that of numbers. -/
theorem Style.between_of_not_characters {a b : String} (h : ¬ (IsCharacter a ∧ IsCharacter b)) :
    between a b = .decimal (commonWidth a b) := by
  unfold between
  rw [if_neg]
  intro hsome
  exact h (between_eq_character_iff.mp (if_pos hsome))

/-- Bounds have the style that their spelling chooses. -/
theorem Bounds.style_eq_between {a b : String} {style : Style} {s e : Ordinal}
    (h : Bounds a b style s e) : style = Style.between a b := by
  cases h with
  | characters hc hd => exact (Style.between_eq_character_iff.mpr ⟨⟨_, hc⟩, _, hd⟩).symm
  | numbers hab => exact (Style.between_of_not_characters hab).symm

/-- The pattern stands for the range. -/
def Denotes (pattern : String) (range : Range) : Prop :=
  ∃ a b rest, Segmentation pattern (a :: b :: rest) ∧ IncrementOf rest range.increment ∧
    Bounds a b range.style range.first range.last

/-- The segments behind the bounds are none, or one that is a numeral of an ordinal. -/
def IncrementFits (rest : List String) : Prop :=
  rest = [] ∨ ∃ k, rest = [k] ∧ IsOrdinal k

/-- Two tokens are fit to be bounds: two characters, or two numerals of ordinals. -/
def BoundsFit (a b : String) : Prop :=
  (IsCharacter a ∧ IsCharacter b) ∨ (IsOrdinal a ∧ IsOrdinal b)

/-- The pattern has two bounds and at most an increment behind them, and each of them fits. -/
def WellFormed (pattern : String) : Prop :=
  ∃ a b rest, Segmentation pattern (a :: b :: rest) ∧ IncrementFits rest ∧ BoundsFit a b

/-- The fault of a pattern that is found first, with the segment at fault as it is spelled. -/
inductive FirstFault (pattern : String) : Fault → Prop
  /-- There are neither two nor three segments. -/
  | segmentCount {ss : List String} (hcut : Segmentation pattern ss) (h2 : ss.length ≠ 2)
    (h3 : ss.length ≠ 3) : FirstFault pattern (.segmentCount pattern ss.length)
  /-- The third segment is no numeral of an ordinal. -/
  | increment {a b k : String} {cause : Decimal.Misread}
    (hcut : Segmentation pattern [a, b, k]) (hk : ¬ IsOrdinal k)
    (hcause : Decimal.read k = .error cause) : FirstFault pattern (.increment k cause)
  /-- The bounds are not two characters, and the first one is no numeral of an ordinal. -/
  | first {a b : String} {rest : List String} {cause : Decimal.Misread}
    (hcut : Segmentation pattern (a :: b :: rest)) (hrest : IncrementFits rest)
    (hab : ¬ (IsCharacter a ∧ IsCharacter b)) (ha : ¬ IsOrdinal a)
    (hcause : Decimal.read a = .error cause) : FirstFault pattern (.bound a cause)
  /-- The first bound is a numeral of an ordinal, and the last one is none. -/
  | last {a b : String} {rest : List String} {cause : Decimal.Misread}
    (hcut : Segmentation pattern (a :: b :: rest)) (hrest : IncrementFits rest)
    (hab : ¬ (IsCharacter a ∧ IsCharacter b)) (ha : IsOrdinal a) (hb : ¬ IsOrdinal b)
    (hcause : Decimal.read b = .error cause) : FirstFault pattern (.bound b cause)

/-- An increment fits exactly if it is one. -/
theorem incrementFits_iff {rest : List String} :
    IncrementFits rest ↔ ∃ i, IncrementOf rest i := by
  constructor
  · rintro (rfl | ⟨k, rfl, hk⟩)
    · exact ⟨_, .omitted⟩
    · obtain ⟨o, ho⟩ := Decimal.exists_read_eq_ok_iff.mpr hk
      exact ⟨o, .named (Decimal.read_eq_ok_iff.mp ho)⟩
  · rintro ⟨i, h⟩
    cases h with
    | omitted => exact Or.inl rfl
    | named h => exact Or.inr ⟨_, rfl, _, h, Ordinal.inRange_toInt i⟩

/-! ## From the pattern to its parts -/

namespace Parts

/-- The parts of a pattern are its bounds and its increment. -/
theorem ofPattern_eq_ok_iff {pattern : String} {parts : Parts} :
    ofPattern pattern = .ok parts ↔
      ∃ rest, Segmentation pattern (parts.first :: parts.last :: rest) ∧
        IncrementOf rest parts.increment := by
  simp only [segmentation_iff]
  constructor
  · intro h
    unfold ofPattern ofSegments at h
    split at h
    · next a b hcut =>
      cases h
      exact ⟨[], hcut, .omitted⟩
    · next a b k hcut =>
      split at h
      · next o ho =>
        cases h
        exact ⟨[k], hcut, .named (Decimal.read_eq_ok_iff.mp ho)⟩
      · cases h
    · cases h
  · rintro ⟨rest, hcut, hi⟩
    obtain ⟨a, b, i⟩ := parts
    unfold ofPattern
    rw [hcut]
    cases hi with
    | omitted => rfl
    | named hk =>
      simp only [ofSegments, Decimal.read_eq_ok_iff.mpr hk]

/-- A pattern has no parts for the number of its segments, or for its increment. -/
theorem ofPattern_eq_error_iff {pattern : String} {fault : Fault} :
    ofPattern pattern = .error fault ↔
      (∃ ss, Segmentation pattern ss ∧ ss.length ≠ 2 ∧ ss.length ≠ 3 ∧
        fault = .segmentCount pattern ss.length) ∨
      ∃ a b k cause, Segmentation pattern [a, b, k] ∧ Decimal.read k = .error cause ∧
        fault = .increment k cause := by
  simp only [segmentation_iff]
  constructor
  · intro h
    unfold ofPattern ofSegments at h
    split at h
    · cases h
    · next a b k hcut =>
      split at h
      · cases h
      · next cause hcause =>
        cases h
        exact Or.inr ⟨a, b, k, cause, hcut, hcause, rfl⟩
    · next h2 h3 =>
      cases h
      refine Or.inl ⟨_, rfl, ?_, ?_, rfl⟩
      · intro hlen
        obtain ⟨a, b, hcut⟩ := List.length_eq_two.mp hlen
        exact h2 a b hcut
      · intro hlen
        obtain ⟨a, b, k, hcut⟩ := List.length_eq_three.mp hlen
        exact h3 a b k hcut
  · rintro (⟨ss, hcut, h2, h3, rfl⟩ | ⟨a, b, k, cause, hcut, hcause, rfl⟩)
    · unfold ofPattern
      rw [hcut, ofSegments]
      · rintro a b rfl
        exact h2 rfl
      · rintro a b k rfl
        exact h3 rfl
    · unfold ofPattern
      rw [hcut]
      simp only [ofSegments, hcause]

end Parts

/-! ## From the parts to the range -/

namespace Style

/-- A bound of a range of numbers is read as a number, and a fault names the bound. -/
theorem read_decimal (width : Nat) (token : String) :
    (decimal width).read token = (Decimal.read token).mapError (.bound token) := by
  simp only [read]
  cases Decimal.read token <;> rfl

/-- **A style of numbers reads the numerals of ordinals**, whatever its width. -/
theorem read_decimal_eq_ok_iff {width : Nat} {token : String} {o : Ordinal} :
    (decimal width).read token = .ok o ↔ Numeral token.toList o.toInt := by
  rw [read_decimal, ← Decimal.read_eq_ok_iff]
  cases Decimal.read token <;> simp [Except.mapError]

end Style

namespace Range

/-- Two characters always bound a range: nothing can fail. -/
theorem ofParts_of_characters {parts : Parts} {c d : Char} (hc : parts.first.toList = [c])
    (hd : parts.last.toList = [d]) :
    ofParts parts = .ok ⟨.character, codePoint c, codePoint d, parts.increment⟩ := by
  have hstyle : Style.between parts.first parts.last = .character :=
    Style.between_eq_character_iff.mpr ⟨⟨c, hc⟩, d, hd⟩
  have hfirst := soleCharacter?_eq_some_iff.mpr hc
  have hlast := soleCharacter?_eq_some_iff.mpr hd
  simp only [ofParts, hstyle, Style.read, hfirst, hlast]

/-- All other bounds are read as numbers, the first one first. -/
theorem ofParts_of_not_characters {parts : Parts}
    (h : ¬ (IsCharacter parts.first ∧ IsCharacter parts.last)) :
    ofParts parts =
      match Decimal.read parts.first with
      | .error cause => .error (.bound parts.first cause)
      | .ok s =>
        match Decimal.read parts.last with
        | .error cause => .error (.bound parts.last cause)
        | .ok e =>
          .ok ⟨.decimal (commonWidth parts.first parts.last), s, e, parts.increment⟩ := by
  simp only [ofParts, Style.between_of_not_characters h, Style.read]
  cases Decimal.read parts.first with
  | error cause => rfl
  | ok s => cases Decimal.read parts.last <;> rfl

/-- The range of some parts is that of their bounds. -/
theorem ofParts_eq_ok_iff {parts : Parts} {range : Range} :
    ofParts parts = .ok range ↔
      range.increment = parts.increment ∧
        Bounds parts.first parts.last range.style range.first range.last := by
  obtain ⟨style, s, e, i⟩ := range
  by_cases h : IsCharacter parts.first ∧ IsCharacter parts.last
  · obtain ⟨⟨c, hc⟩, d, hd⟩ := h
    rw [ofParts_of_characters hc hd]
    constructor
    · intro heq
      cases heq
      exact ⟨rfl, .characters hc hd⟩
    · rintro ⟨hi, hb⟩
      cases hb with
      | characters hc' hd' =>
        cases hc.symm.trans hc'
        cases hd.symm.trans hd'
        change i = parts.increment at hi
        subst hi
        rfl
      | numbers hab => exact absurd ⟨⟨c, hc⟩, d, hd⟩ hab
  · rw [ofParts_of_not_characters h]
    constructor
    · intro heq
      split at heq
      · cases heq
      · next hs =>
        split at heq
        · cases heq
        · next he =>
          cases heq
          exact ⟨rfl, .numbers h (Decimal.read_eq_ok_iff.mp hs)
            (Decimal.read_eq_ok_iff.mp he)⟩
    · rintro ⟨hi, hb⟩
      cases hb with
      | characters hc hd => exact absurd ⟨⟨_, hc⟩, _, hd⟩ h
      | numbers hab hs he =>
        have hs' := Decimal.read_eq_ok_iff.mpr hs
        have he' := Decimal.read_eq_ok_iff.mpr he
        simp only [hs', he', ← hi]

/-- Parts denote no range for a bound that should be a number and is none. -/
theorem ofParts_eq_error_iff {parts : Parts} {fault : Fault} :
    ofParts parts = .error fault ↔
      ¬ (IsCharacter parts.first ∧ IsCharacter parts.last) ∧
        ((∃ cause, Decimal.read parts.first = .error cause ∧
            fault = .bound parts.first cause) ∨
          ∃ s cause, Decimal.read parts.first = .ok s ∧
            Decimal.read parts.last = .error cause ∧ fault = .bound parts.last cause) := by
  by_cases h : IsCharacter parts.first ∧ IsCharacter parts.last
  · obtain ⟨⟨c, hc⟩, d, hd⟩ := h
    rw [ofParts_of_characters hc hd]
    constructor
    · intro heq
      cases heq
    · rintro ⟨hab, -⟩
      exact absurd ⟨⟨c, hc⟩, d, hd⟩ hab
  · rw [ofParts_of_not_characters h]
    cases hs : Decimal.read parts.first with
    | error cause => simp [h, eq_comm]
    | ok s => cases he : Decimal.read parts.last <;> simp [h, eq_comm]

/-! ## From the pattern to the range -/

/-- **What a pattern stands for.** -/
theorem ofPattern_eq_ok_iff {pattern : String} {range : Range} :
    ofPattern pattern = .ok range ↔ Denotes pattern range := by
  constructor
  · intro h
    unfold ofPattern at h
    split at h
    · cases h
    · next parts hparts =>
      obtain ⟨rest, hcut, hi⟩ := Parts.ofPattern_eq_ok_iff.mp hparts
      obtain ⟨hinc, hb⟩ := ofParts_eq_ok_iff.mp h
      exact ⟨_, _, rest, hcut, hinc ▸ hi, hb⟩
  · rintro ⟨a, b, rest, hcut, hi, hb⟩
    have hparts : Parts.ofPattern pattern = .ok ⟨a, b, range.increment⟩ :=
      Parts.ofPattern_eq_ok_iff.mpr ⟨rest, hcut, hi⟩
    simp only [ofPattern, hparts]
    exact ofParts_eq_ok_iff.mpr ⟨rfl, hb⟩

/-- **Why a pattern stands for nothing.** -/
theorem ofPattern_eq_error_iff {pattern : String} {fault : Fault} :
    ofPattern pattern = .error fault ↔ FirstFault pattern fault := by
  constructor
  · intro h
    unfold ofPattern at h
    split at h
    · next f hparts =>
      cases h
      rcases Parts.ofPattern_eq_error_iff.mp hparts with
        ⟨ss, hcut, h2, h3, rfl⟩ | ⟨a, b, k, cause, hcut, hcause, rfl⟩
      · exact .segmentCount hcut h2 h3
      · exact .increment hcut (Decimal.exists_read_eq_error_iff.mp ⟨cause, hcause⟩) hcause
    · next parts hparts =>
      obtain ⟨rest, hcut, hi⟩ := Parts.ofPattern_eq_ok_iff.mp hparts
      have hrest : IncrementFits rest := incrementFits_iff.mpr ⟨_, hi⟩
      obtain ⟨hab, ⟨cause, hcause, rfl⟩ | ⟨s, cause, hs, hcause, rfl⟩⟩ :=
        ofParts_eq_error_iff.mp h
      · exact .first hcut hrest hab (Decimal.exists_read_eq_error_iff.mp ⟨cause, hcause⟩) hcause
      · exact .last hcut hrest hab (Decimal.exists_read_eq_ok_iff.mp ⟨s, hs⟩)
          (Decimal.exists_read_eq_error_iff.mp ⟨cause, hcause⟩) hcause
  · intro h
    cases h with
    | segmentCount hcut h2 h3 =>
      have hparts := Parts.ofPattern_eq_error_iff.mpr (Or.inl ⟨_, hcut, h2, h3, rfl⟩)
      simp only [ofPattern, hparts]
    | increment hcut hk hcause =>
      have hparts := Parts.ofPattern_eq_error_iff.mpr
        (Or.inr ⟨_, _, _, _, hcut, hcause, rfl⟩)
      simp only [ofPattern, hparts]
    | @first a b rest cause hcut hrest hab ha hcause =>
      obtain ⟨i, hi⟩ := incrementFits_iff.mp hrest
      have hparts : Parts.ofPattern pattern = .ok ⟨a, b, i⟩ :=
        Parts.ofPattern_eq_ok_iff.mpr ⟨rest, hcut, hi⟩
      simp only [ofPattern, hparts]
      exact ofParts_eq_error_iff.mpr ⟨hab, Or.inl ⟨cause, hcause, rfl⟩⟩
    | @last a b rest cause hcut hrest hab ha hb hcause =>
      obtain ⟨i, hi⟩ := incrementFits_iff.mp hrest
      obtain ⟨s, hs⟩ := Decimal.exists_read_eq_ok_iff.mpr ha
      have hparts : Parts.ofPattern pattern = .ok ⟨a, b, i⟩ :=
        Parts.ofPattern_eq_ok_iff.mpr ⟨rest, hcut, hi⟩
      simp only [ofPattern, hparts]
      exact ofParts_eq_error_iff.mpr ⟨hab, Or.inr ⟨s, cause, hs, hcause, rfl⟩⟩

end Range

/-- Bounds fit exactly if they bound something. -/
theorem boundsFit_iff {a b : String} : BoundsFit a b ↔ ∃ style s e, Bounds a b style s e := by
  constructor
  · intro h
    by_cases hab : IsCharacter a ∧ IsCharacter b
    · obtain ⟨⟨c, hc⟩, d, hd⟩ := hab
      exact ⟨_, _, _, .characters hc hd⟩
    · obtain ⟨ha, hb⟩ := h.resolve_left hab
      obtain ⟨s, hs⟩ := Decimal.exists_read_eq_ok_iff.mpr ha
      obtain ⟨e, he⟩ := Decimal.exists_read_eq_ok_iff.mpr hb
      exact ⟨_, s, e, .numbers hab (Decimal.read_eq_ok_iff.mp hs)
        (Decimal.read_eq_ok_iff.mp he)⟩
  · rintro ⟨style, s, e, h⟩
    cases h with
    | characters hc hd => exact Or.inl ⟨⟨_, hc⟩, _, hd⟩
    | numbers _ hs he =>
      exact Or.inr ⟨⟨_, hs, Ordinal.inRange_toInt s⟩, _, he, Ordinal.inRange_toInt e⟩

/-- The grammar describes the patterns that stand for something. -/
theorem wellFormed_iff {pattern : String} :
    WellFormed pattern ↔ ∃ range, Denotes pattern range := by
  constructor
  · rintro ⟨a, b, rest, hcut, hrest, hab⟩
    obtain ⟨i, hi⟩ := incrementFits_iff.mp hrest
    obtain ⟨style, s, e, hb⟩ := boundsFit_iff.mp hab
    exact ⟨⟨style, s, e, i⟩, a, b, rest, hcut, hi, hb⟩
  · rintro ⟨range, a, b, rest, hcut, hi, hb⟩
    exact ⟨a, b, rest, hcut, incrementFits_iff.mpr ⟨_, hi⟩, boundsFit_iff.mpr ⟨_, _, _, hb⟩⟩

/-! ## Expanding -/

/-- Without a limit, an expansion only asks what the pattern stands for. -/
theorem expand_eq (pattern : String) :
    expand pattern =
      match Range.ofPattern pattern with
      | .error fault => .error fault
      | .ok range => .ok range.items := by
  unfold expand expandWithin report
  cases Range.ofPattern pattern <;> rfl

/-- No fault of a pattern is about a character: two tokens are read as characters only if each of
them is one. -/
theorem FirstFault.ne_notCharacter {pattern token : String} {fault : Fault}
    (h : FirstFault pattern fault) : fault ≠ .notCharacter token := by
  cases h <;> simp

/-- A limited expansion is refused for a fault of the pattern or for the limit. -/
theorem expandWithin_eq_error {options : Options} {pattern : String} {fault : Fault}
    (h : expandWithin options pattern = .error fault) :
    FirstFault pattern fault ∨ ∃ length limit, fault = .tooLong pattern length limit := by
  unfold expandWithin report at h
  split at h
  · next f hf =>
    cases h
    exact Or.inl (Range.ofPattern_eq_error_iff.mp hf)
  · split at h
    · cases h
      exact Or.inr ⟨_, _, rfl⟩
    · cases h

/-- **The outcome of an expansion.** Exactly the well-formed patterns are expanded. Every other
pattern is refused for the first fault that applies to it, and this is never that a character
cannot be decoded, neither here, nor under a limit, nor when a listing is opened. -/
theorem expand_outcome (pattern : String) :
    ((∃ items, expand pattern = .ok items) ↔ WellFormed pattern) ∧
      (∀ fault, expand pattern = .error fault ↔ FirstFault pattern fault) ∧
      ∀ token, expand pattern ≠ .error (.notCharacter token) ∧
        (∀ options, expandWithin options pattern ≠ .error (.notCharacter token)) ∧
        Listing.ofPattern pattern ≠ .error (.notCharacter token) := by
  have hok : (∃ items, expand pattern = .ok items) ↔ WellFormed pattern := by
    rw [wellFormed_iff]
    simp only [← Range.ofPattern_eq_ok_iff, expand_eq]
    cases Range.ofPattern pattern <;> simp
  have herror : ∀ fault, expand pattern = .error fault ↔ FirstFault pattern fault := by
    intro fault
    rw [← Range.ofPattern_eq_error_iff, expand_eq]
    cases Range.ofPattern pattern <;> simp
  refine ⟨hok, herror, ?_⟩
  intro token
  refine ⟨?_, ?_, ?_⟩
  · intro h
    exact ((herror _).mp h).ne_notCharacter rfl
  · intro options h
    rcases expandWithin_eq_error h with hf | ⟨length, limit, hf⟩
    · exact hf.ne_notCharacter rfl
    · cases hf
  · intro h
    unfold Listing.ofPattern at h
    split at h
    · next f hf =>
      cases h
      exact (Range.ofPattern_eq_error_iff.mp hf).ne_notCharacter rfl
    · cases h

end RangePattern
