import RangePattern.Proofs.Segmentation
import RangePattern.Proofs.Spelling

/-!
# Cutting undoes joining

Texts that are joined by separators are found again by a cut, but not all of them: `1.` and `5`
are joined to `1...5`, and that is cut into `1` and `.5`. What a separator may follow is a `Closed`
text. The rule for a list is read off one segment at a time, with `Segmentation.cons_iff`: the first
segment has to be closed, and the others have to be a segmentation of the rest.

One list is read off by no cut: the one without texts, which joins to the empty pattern as the list
of one empty text does (`not_only_segments`). A pattern has at least one segment, so only this list
has to be left out where segments are said to be unique.

`Parts.ofPattern_join_eq_ok_iff` carries this over to the parts of a pattern. It is exact: texts
that are no segmentation of their join are never read back from it. The main statement is
`cut_inverts_join`.
-/

namespace RangePattern

open Decimal (Numeral)

/-- A text that a separator may follow: it holds none, and no dot of it could belong to one. -/
structure Closed (s : String) : Prop where
  /-- No separator stands in the text. -/
  free : SeparatorFree s.toList
  /-- The text does not end with a dot. -/
  last : s.toList.getLast? ≠ some '.'

/-- Whether a text is closed is decided by what its two fields say. -/
instance (s : String) : Decidable (Closed s) :=
  decidable_of_iff (SeparatorFree s.toList ∧ s.toList.getLast? ≠ some '.')
    ⟨fun h => ⟨h.1, h.2⟩, fun h => ⟨h.free, h.last⟩⟩

variable {s pattern a b : String} {ss : List String}

/-! ## Segmentations, one segment at a time -/

/-- A text is never the beginning of a join with another one. -/
theorem ne_append_separator (s t : String) : s ≠ s ++ separator ++ t := by
  intro h
  have hlen := congrArg String.length h
  rw [String.length_append, String.length_append] at hlen
  have hsep : separator.length = 2 := by decide
  omega

namespace Segmentation

/-- A text is its own only segment exactly if it holds no separator. -/
theorem singleton_iff : Segmentation s [s] ↔ SeparatorFree s.toList := by
  constructor
  · intro h
    exact h.free s (List.mem_singleton_self s)
  · intro h
    exact ⟨List.cons_ne_nil s [], String.intercalate_singleton, by simpa using h, by simp⟩

/-- **Putting a segment in front.** A text and a separator in front of a pattern add the segment
`s` to its segments exactly if `s` is closed. -/
theorem cons_iff :
    Segmentation (s ++ separator ++ pattern) (s :: ss) ↔ Closed s ∧ Segmentation pattern ss := by
  constructor
  · intro h
    have hne : ss ≠ [] := by
      rintro rfl
      exact ne_append_separator s pattern (String.intercalate_singleton.symm.trans h.join)
    have hjoin := h.join
    rw [String.intercalate_cons_of_ne_nil hne] at hjoin
    obtain ⟨hfree, hfree'⟩ := List.forall_mem_cons.mp h.free
    have hclosed := h.closed
    rw [List.dropLast_cons_of_ne_nil hne] at hclosed
    obtain ⟨hlast, hclosed'⟩ := List.forall_mem_cons.mp hclosed
    exact ⟨⟨hfree, hlast⟩, hne, by simpa using hjoin, hfree', hclosed'⟩
  · rintro ⟨hs, hss⟩
    refine ⟨List.cons_ne_nil s ss, ?_, ?_, ?_⟩
    · rw [String.intercalate_cons_of_ne_nil hss.ne_nil, hss.join]
    · exact List.forall_mem_cons.mpr ⟨hs.free, hss.free⟩
    · rw [List.dropLast_cons_of_ne_nil hss.ne_nil]
      exact List.forall_mem_cons.mpr ⟨hs.last, hss.closed⟩

/-- Two texts, joined. -/
theorem pair_iff :
    Segmentation (a ++ separator ++ b) [a, b] ↔ Closed a ∧ SeparatorFree b.toList := by
  rw [cons_iff, singleton_iff]

/-- Three texts, joined. -/
theorem triple_iff {k : String} :
    Segmentation (a ++ separator ++ b ++ separator ++ k) [a, b, k] ↔
      Closed a ∧ Closed b ∧ SeparatorFree k.toList := by
  have hassoc :
      a ++ separator ++ b ++ separator ++ k = a ++ separator ++ (b ++ separator ++ k) := by
    simp only [String.append_assoc]
  rw [hassoc, cons_iff, pair_iff]

end Segmentation

/-- **Segments are the only such list**, apart from the one without texts: that joins to the empty
text as well, whose segments are one empty text. -/
theorem eq_segments_or_eq_nil (hjoin : separator.intercalate ss = pattern)
    (hfree : ∀ s ∈ ss, SeparatorFree s.toList)
    (hclosed : ∀ s ∈ ss.dropLast, s.toList.getLast? ≠ some '.') :
    ss = segments pattern ∨ (ss = [] ∧ pattern = "") := by
  by_cases hne : ss = []
  · subst hne
    exact Or.inr ⟨rfl, hjoin.symm⟩
  · exact Or.inl (Segmentation.eq_segments ⟨hne, hjoin, hfree, hclosed⟩).symm

/-! ## Parts -/

/-- What names an increment is told by the join, since it is at most one more segment. -/
theorem IncrementOf.eq_of_join_eq {rest rest' : List String} {i i' : Ordinal}
    (hi : IncrementOf rest i) (hi' : IncrementOf rest' i')
    (hjoin : separator.intercalate (a :: b :: rest) = separator.intercalate (a :: b :: rest')) :
    rest = rest' := by
  cases hi with
  | omitted =>
    cases hi' with
    | omitted => rfl
    | named _ => exact absurd (by simpa using hjoin) (ne_append_separator b _)
  | named _ =>
    cases hi' with
    | omitted => exact absurd (by simpa using hjoin.symm) (ne_append_separator b _)
    | named _ => simpa using hjoin

namespace Parts

/-- **Parts are read back** from a join exactly if the texts that were joined are a segmentation of
it. -/
theorem ofPattern_join_eq_ok_iff {rest : List String} {i : Ordinal} (hi : IncrementOf rest i) :
    ofPattern (separator.intercalate (a :: b :: rest)) = .ok ⟨a, b, i⟩ ↔
      Segmentation (separator.intercalate (a :: b :: rest)) (a :: b :: rest) := by
  rw [ofPattern_eq_ok_iff]
  constructor
  · rintro ⟨rest', hcut, hi'⟩
    obtain rfl := hi.eq_of_join_eq hi' hcut.join.symm
    exact hcut
  · intro hcut
    exact ⟨rest, hcut, hi⟩

/-- Two bounds, joined, with the increment left out. -/
theorem ofPattern_pair_eq_ok_iff :
    ofPattern (a ++ separator ++ b) = .ok ⟨a, b, defaultIncrement⟩ ↔
      Closed a ∧ SeparatorFree b.toList := by
  rw [← Segmentation.pair_iff]
  simpa using ofPattern_join_eq_ok_iff (a := a) (b := b) .omitted

/-- Two bounds and a numeral of the increment, joined. -/
theorem ofPattern_triple_eq_ok_iff {k : String} {i : Ordinal} (hk : Numeral k.toList i.toInt) :
    ofPattern (a ++ separator ++ b ++ separator ++ k) = .ok ⟨a, b, i⟩ ↔ Closed a ∧ Closed b := by
  have hfree : SeparatorFree k.toList := separatorFree_of_dot_not_mem hk.dot_not_mem
  have hjoin := ofPattern_join_eq_ok_iff (a := a) (b := b) (.named hk)
  simp only [String.intercalate_cons_cons, String.intercalate_singleton, ← String.append_assoc]
    at hjoin
  rw [hjoin, Segmentation.triple_iff]
  simp [hfree]

end Parts

/-- **A cut undoes a join.** The segments of a pattern are a segmentation of it: joined by
separators they are the pattern, none of them holds a separator, and none but the last one ends with
a dot. No other list of texts is so, except that the list without any text joins to the empty
pattern too.

Two texts that are joined are read back as bounds, with the increment one, exactly if the first is
closed and no separator stands in the second, which may end with a dot. If an ordinal is joined to
them as a canonical numeral, they are read back with that increment exactly if both are closed. -/
theorem cut_inverts_join :
    (∀ pattern, Segmentation pattern (segments pattern)) ∧
    (∀ (pattern : String) (ss : List String), separator.intercalate ss = pattern →
      (∀ s ∈ ss, SeparatorFree s.toList) →
      (∀ s ∈ ss.dropLast, s.toList.getLast? ≠ some '.') →
        ss = segments pattern ∨ (ss = [] ∧ pattern = "")) ∧
    ∀ a b : String,
      (Parts.ofPattern (a ++ separator ++ b) = .ok ⟨a, b, 1⟩ ↔
        Closed a ∧ SeparatorFree b.toList) ∧
      ∀ i : Ordinal,
        Parts.ofPattern (a ++ separator ++ b ++ separator ++ i.numeral) = .ok ⟨a, b, i⟩ ↔
          Closed a ∧ Closed b := by
  refine ⟨segmentation_segments, ?_, ?_⟩
  · intro pattern ss hjoin hfree hclosed
    exact eq_segments_or_eq_nil hjoin hfree hclosed
  · intro a b
    refine ⟨Parts.ofPattern_pair_eq_ok_iff, ?_⟩
    intro i
    exact Parts.ofPattern_triple_eq_ok_iff i.isNumeral_numeral

/-- **The empty pattern is the exception.** No texts, joined, are the empty pattern, whose only
segment is the empty text. So it is not true of every pattern that its segments are the only list
that joins to it, with no separator in a text and no dot at the end of one but the last. -/
theorem not_only_segments :
    (separator.intercalate [] = "" ∧ segments "" = [""]) ∧
    ¬ ∀ (pattern : String) (ss : List String), separator.intercalate ss = pattern →
      (∀ s ∈ ss, SeparatorFree s.toList) →
      (∀ s ∈ ss.dropLast, s.toList.getLast? ≠ some '.') → ss = segments pattern := by
  have hjoin : separator.intercalate [] = "" := String.intercalate_nil
  have hcut : segments "" = [""] := rfl
  refine ⟨⟨hjoin, hcut⟩, ?_⟩
  intro hunique
  have hnil : [] = segments "" := hunique "" [] hjoin (by simp) (by simp)
  rw [hcut] at hnil
  cases hnil

example : Parts.ofPattern "1...5" = .ok ⟨"1", ".5", 1⟩ := by decide

end RangePattern
