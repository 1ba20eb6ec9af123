import RangePattern.Proofs.Expansion

/-!
# Expanding within a limit

The limit is compared with a length that is computed from the bounds, before there is any item. What
it should be compared with is the number of items that the expansion without a limit hands out.
`expandWithin_eq` says that this makes no difference: the computed length is exact, so an expansion
within a limit is the expansion without one, looked at afterwards.

The main statement is `expandWithin_limits`, the law of limits, for options that have been given any
number of limits one after the other. A fault of the pattern comes before the limit, and a higher
limit never takes anything away.
-/

namespace RangePattern

/-! ## Setting limits -/

/-- The options that come of setting these limits one after the other, none being set before. -/
def Options.withLimits (limits : List Nat) : Options := limits.foldl withLimit {}

/-- **The limit set last counts**, and there is none if none is set. -/
theorem Options.limit_withLimits (limits : List Nat) :
    (withLimits limits).limit = limits.getLast? := by
  rcases List.eq_nil_or_concat limits with rfl | ⟨ms, m, rfl⟩
  · rfl
  · rw [withLimits, List.concat_eq_append, List.foldl_concat, List.getLast?_concat]
    rfl

/-- Nothing is exceeded exactly if there is no limit, or if it is high enough. -/
theorem Options.exceeded?_eq_none_iff {options : Options} {length : Nat} :
    options.exceeded? length = none ↔ ∀ m, options.limit = some m → length ≤ m := by
  simp [exceeded?, Option.filter_eq_none_iff]

/-! ## The computed length is exact -/

/-- The length of a range that is known beforehand is the number of its items. -/
theorem Range.length_eq_length_items (r : Range) : r.length = r.items.length :=
  r.length_items.symm

/-- **A limit looks at the items afterwards.** Within a limit an expansion is what it is without
one, unless the items it has exceed the limit. -/
theorem expandWithin_eq (options : Options) (pattern : String) :
    expandWithin options pattern =
      match expand pattern with
      | .error fault => .error fault
      | .ok items =>
        match options.exceeded? items.length with
        | some limit => .error (.tooLong pattern items.length limit)
        | none => .ok items := by
  rw [expand_eq, expandWithin, report]
  rcases Range.ofPattern pattern with fault | range
  · rfl
  · simp only [Range.length_eq_length_items]
    rcases options.exceeded? range.items.length with _ | limit <;> rfl

/-- A fault of the pattern comes before the limit. -/
theorem expandWithin_of_error {pattern : String} {fault : Fault}
    (h : expand pattern = .error fault) (options : Options) :
    expandWithin options pattern = .error fault := by
  rw [expandWithin_eq, h]

/-- **What is expanded within a limit** is what is expanded without one and does not exceed it. -/
theorem expandWithin_eq_ok_iff {options : Options} {pattern : String} {items : List String} :
    expandWithin options pattern = .ok items ↔
      expand pattern = .ok items ∧ ∀ m, options.limit = some m → items.length ≤ m := by
  rw [expandWithin_eq, ← Options.exceeded?_eq_none_iff]
  rcases expand pattern with fault | all
  · simp
  · rcases hm : options.exceeded? all.length with _ | m
    · simp only [hm, Except.ok.injEq]
      constructor
      · rintro rfl
        exact ⟨rfl, hm⟩
      · rintro ⟨rfl, -⟩
        rfl
    · simp only [hm, reduceCtorEq, Except.ok.injEq, false_iff]
      rintro ⟨rfl, hnone⟩
      rw [hm] at hnone
      cases hnone

/-- **What is refused for the limit** has more items than that, and the fault says how many. -/
theorem expandWithin_eq_error_iff {options : Options} {pattern : String} {items : List String}
    (h : expand pattern = .ok items) {fault : Fault} :
    expandWithin options pattern = .error fault ↔
      ∃ m, options.limit = some m ∧ m < items.length ∧ fault = .tooLong pattern items.length m := by
  rw [expandWithin_eq, h]
  rcases hm : options.exceeded? items.length with _ | m
  · simp only [hm, reduceCtorEq, false_iff]
    rintro ⟨m, hlimit, hlt, -⟩
    rw [Options.exceeded?_eq_some_iff.mpr ⟨hlimit, hlt⟩] at hm
    cases hm
  · obtain ⟨hlimit, hlt⟩ := Options.exceeded?_eq_some_iff.mp hm
    simp only [hm, Except.error.injEq]
    constructor
    · rintro rfl
      exact ⟨m, hlimit, hlt, rfl⟩
    · rintro ⟨m', hlimit', -, rfl⟩
      rw [hlimit] at hlimit'
      cases hlimit'
      rfl

/-- An expansion never has more than `2 ^ 32` items. -/
theorem length_le_of_expand_eq_ok {pattern : String} {items : List String}
    (h : expand pattern = .ok items) : items.length ≤ 2 ^ 32 := by
  obtain ⟨range, -, rfl⟩ := expand_eq_ok_iff.mp h
  rw [Range.length_items]
  exact toNat_termCount_le _ _ _

/-! ## The law of limits -/

/-- **The law of limits.** Let limits be set one after the other, so that the last one counts. A
pattern that cannot be expanded at all has the same fault under them. Any other pattern expands to
at most `2 ^ 32` items. It expands to the same items under the limits if there is none, or if it is
not exceeded by the number of items. Otherwise the pattern is refused, with exactly that number. So
whatever a limit allows, no limit and every higher one allow as well, and with the same items. -/
theorem expandWithin_limits (pattern : String) (limits : List Nat) :
    (∀ fault, expand pattern = .error fault →
      expandWithin (.withLimits limits) pattern = .error fault) ∧
    (∀ items, expand pattern = .ok items →
      items.length ≤ 2 ^ 32 ∧
      (expandWithin (.withLimits limits) pattern = .ok items ↔
        ∀ m, limits.getLast? = some m → items.length ≤ m) ∧
      ∀ fault, expandWithin (.withLimits limits) pattern = .error fault ↔
        ∃ m, limits.getLast? = some m ∧ m < items.length ∧
          fault = .tooLong pattern items.length m) ∧
    ∀ higher : List Nat,
      (∀ m', higher.getLast? = some m' → ∃ m, limits.getLast? = some m ∧ m ≤ m') →
      ∀ items, expandWithin (.withLimits limits) pattern = .ok items →
        expandWithin (.withLimits higher) pattern = .ok items := by
  simp only [← Options.limit_withLimits]
  refine ⟨fun fault h => expandWithin_of_error h _, fun items h => ?_, fun higher hle items h => ?_⟩
  · refine ⟨length_le_of_expand_eq_ok h, ?_, fun fault => expandWithin_eq_error_iff h⟩
    rw [expandWithin_eq_ok_iff]
    exact and_iff_right h
  · obtain ⟨hall, hfits⟩ := expandWithin_eq_ok_iff.mp h
    refine expandWithin_eq_ok_iff.mpr ⟨hall, fun m' hm' => ?_⟩
    obtain ⟨m, hm, hmm'⟩ := hle m' hm'
    exact Nat.le_trans (hfits m hm) hmm'

example :
    expandWithin (.withLimits [7, 1000]) "-2147483648..2147483647" =
      .error (.tooLong "-2147483648..2147483647" 4294967296 1000) := by decide
example : expandWithin (.withLimits [0]) "1..5..0" = .ok [] := by decide

end RangePattern
