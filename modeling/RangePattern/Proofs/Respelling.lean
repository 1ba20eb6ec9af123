import RangePattern.Proofs.Joining
import RangePattern.Proofs.Limits

/-!
# Patterns of one meaning

Of its pattern an expansion asks one thing, what range it stands for. Two patterns that stand for
the same range, or for none because of the same fault, therefore expand to the same items or are
refused for that fault (`expand_congr`). Only a refusal for the limit looks at the text once more,
to name the pattern that was to be expanded. `Fault.retold` puts another name there, and up to this
name the two patterns agree under every limit (`expandWithin_congr`).

The increment of a pattern is such a part of the text. Signs and zeros in front of it do not come
through to its value, and a cut in front of it leaves the bounds as they are, whatever these hold,
as long as a separator may follow them. The main statement is `expand_respelled`.
-/

namespace RangePattern

/-! ## Refusals that name a pattern -/

/-- The fault as another pattern has it. A refusal for the limit names that pattern; every other
fault stays as it is. -/
def Fault.retold (pattern : String) : Fault → Fault
  | tooLong _ length limit => tooLong pattern length limit
  | fault => fault

/-- The faults of a pattern are not about the limit, so they stay as they are. -/
theorem FirstFault.retold_eq {pattern : String} {fault : Fault} (h : FirstFault pattern fault)
    (other : String) : fault.retold other = fault := by
  cases h <;> rfl

/-! ## Only the range counts -/

section

variable {pattern other : String}

/-- **Patterns that stand for the same range are expanded alike.** -/
theorem expand_congr (h : Range.ofPattern pattern = Range.ofPattern other) :
    expand pattern = expand other := by
  rw [expand_eq, expand_eq, h]

/-- **Under a limit too**, but a refusal for the limit names its own pattern. -/
theorem expandWithin_congr (h : Range.ofPattern pattern = Range.ofPattern other)
    (options : Options) :
    expandWithin options other = (expandWithin options pattern).mapError (Fault.retold other) := by
  rw [expandWithin_eq, expandWithin_eq, expand_congr h, expand_eq]
  rcases hrange : Range.ofPattern other with fault | range
  · have hfault := Range.ofPattern_eq_error_iff.mp hrange
    exact congrArg Except.error (hfault.retold_eq other).symm
  · simp only
    rcases options.exceeded? range.items.length with _ | limit <;> rfl

/-- The range of a pattern is the range of its parts. -/
theorem Range.ofPattern_of_parts {parts : Parts} (h : Parts.ofPattern pattern = .ok parts) :
    ofPattern pattern = ofParts parts := by
  simp only [ofPattern, h]

end

/-! ## The increment -/

section

variable {a b k : String} {i : Ordinal}

/-- **Of the increment only its value counts.** The bounds are cut as they were joined, and what the
pattern stands for is decided by them and by the value. -/
theorem Range.ofPattern_triple (ha : Closed a) (hb : Closed b) (hk : Decimal.read k = .ok i) :
    ofPattern (a ++ separator ++ b ++ separator ++ k) = ofParts ⟨a, b, i⟩ := by
  apply ofPattern_of_parts
  rw [Parts.ofPattern_triple_eq_ok_iff (Decimal.read_eq_ok_iff.mp hk)]
  exact ⟨ha, hb⟩

/-- An increment that is left out is one. -/
theorem Range.ofPattern_pair (ha : Closed a) (hb : Closed b) :
    ofPattern (a ++ separator ++ b) = ofParts ⟨a, b, 1⟩ := by
  apply ofPattern_of_parts
  exact Parts.ofPattern_pair_eq_ok_iff.mpr ⟨ha, hb.free⟩

end

/-- **The spelling of the increment does not matter.** Let a separator be allowed to follow each of
two texts, and let two further texts be read as the same increment. Then the patterns that are
joined with the one and with the other expand to the same items, or they are refused for the same
fault. Under every limit they agree as well, except that a refusal for the limit names its own
pattern. If the increment is one, all this holds of the pattern in which it is left out. -/
theorem expand_respelled {a b k k' : String} {i : Ordinal} (ha : Closed a) (hb : Closed b)
    (hk : Decimal.read k = .ok i) (hk' : Decimal.read k' = .ok i) :
    let named := a ++ separator ++ b ++ separator ++ k
    let named' := a ++ separator ++ b ++ separator ++ k'
    let omitted := a ++ separator ++ b
    (expand named' = expand named ∧
      ∀ options, expandWithin options named' =
        (expandWithin options named).mapError (Fault.retold named')) ∧
    (i = 1 →
      expand omitted = expand named ∧
        ∀ options, expandWithin options omitted =
          (expandWithin options named).mapError (Fault.retold omitted)) := by
  intro named named' omitted
  have hrange := Range.ofPattern_triple ha hb hk
  have hrange' : Range.ofPattern named = Range.ofPattern named' :=
    hrange.trans (Range.ofPattern_triple ha hb hk').symm
  refine ⟨⟨(expand_congr hrange').symm, expandWithin_congr hrange'⟩, ?_⟩
  rintro rfl
  have hone : Range.ofPattern named = Range.ofPattern omitted :=
    hrange.trans (Range.ofPattern_pair ha hb).symm
  exact ⟨(expand_congr hone).symm, expandWithin_congr hone⟩

/-- `expand_respelled` with a sign and with zeros in front of an increment of one, which can be left
out as well. -/
theorem expand_respelled_one :
    Closed "008" ∧ Closed "11" ∧ Decimal.read "+1" = .ok 1 ∧ Decimal.read "001" = .ok 1 ∧
      (expand "008..11..001" = expand "008..11..+1" ∧
        ∀ options, expandWithin options "008..11..001" =
          (expandWithin options "008..11..+1").mapError (Fault.retold "008..11..001")) ∧
      ((1 : Ordinal) = 1 →
        expand "008..11" = expand "008..11..+1" ∧
          ∀ options, expandWithin options "008..11" =
            (expandWithin options "008..11..+1").mapError (Fault.retold "008..11")) := by
  have ha : Closed "008" := by decide
  have hb : Closed "11" := by decide
  have hk : Decimal.read "+1" = .ok 1 := by decide
  have hk' : Decimal.read "001" = .ok 1 := by decide
  exact ⟨ha, hb, hk, hk', expand_respelled ha hb hk hk'⟩

example : expand ("1" ++ separator ++ "5." ++ separator ++ "1") ≠
    expand ("1" ++ separator ++ "5." ++ separator ++ "+1") := by decide

end RangePattern
