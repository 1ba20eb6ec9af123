import Mathlib.Data.Set.Card
import RangePattern.Cursor.Items
import RangePattern.Proofs.Walk
import RangePattern.Progression

/-!
# The terms of a progression

A progression counts its terms before it hands out the first one, and from then on it never looks
at the last ordinal again. Here it is shown to hand out what the walk that does look hands out:

* `lt_toNat_termCount_iff` — the count is right: there is a `k`-th term exactly if the walk goes on
  at its `k`-th value;
* `Progression.Fits` — the invariant: every term left is an ordinal. It holds at the beginning,
  since all terms lie between the bounds, and each step keeps it;
* `Progression.map_toInt_items` — under the invariant, the items left are the current ordinal plus
  `0, 1, 2, …` increments, as many as the count says. So a checked addition fails behind the last
  term at the earliest, and no term is lost to it.

The main statement is `Progression.values_between`: **counted and bound-tested walks agree**.
-/

namespace RangePattern

/-! ## The count -/

/-- Below a quotient and one more: the multiple still fits into the dividend. -/
theorem lt_ediv_add_one_iff {d i : Int} (hi : 0 < i) (hd : 0 ≤ d) (n k : Nat)
    (hn : (n : Int) = d / i + 1) : k < n ↔ k * i ≤ d := by
  have hq : 0 ≤ d / i := Int.ediv_nonneg hd hi.le
  rw [← Int.le_ediv_iff_mul_le hi]
  omega

/-- **The count is right.** There is a `k`-th term exactly if the walk goes on at its `k`-th
value. -/
theorem lt_toNat_termCount_iff (first last increment : Ordinal) (k : Nat) :
    k < (termCount first last increment).toNat ↔
      Walk.Continues last.toInt increment.toInt (first.toInt + k * increment.toInt) := by
  have hcount := toNat_termCount first last increment
  have hup : 0 < increment.toInt → 0 ≤ k * increment.toInt :=
    fun hi => Int.mul_nonneg (Int.natCast_nonneg k) hi.le
  have hdown : increment.toInt < 0 → k * increment.toInt ≤ 0 :=
    fun hi => Int.mul_nonpos_of_nonneg_of_nonpos (Int.natCast_nonneg k) hi.le
  unfold Walk.Continues
  split at hcount
  · next h =>
    rw [lt_ediv_add_one_iff h.1 (by omega) _ k hcount]
    omega
  · next h =>
    split at hcount
    · next h' =>
      have hneg : k * -increment.toInt = -(k * increment.toInt) := Int.mul_neg _ _
      rw [lt_ediv_add_one_iff (by omega) (by omega) _ k hcount, hneg]
      omega
    · next h' => omega

/-- So there are as many terms as there are steps at which the walk goes on. -/
theorem encard_continues (first last increment : Ordinal) :
    {k : ℕ | Walk.Continues last.toInt increment.toInt
      (first.toInt + k * increment.toInt)}.encard = (termCount first last increment).toNat := by
  have hset : {k : ℕ | Walk.Continues last.toInt increment.toInt
      (first.toInt + k * increment.toInt)} =
        (Finset.range (termCount first last increment).toNat : Set ℕ) := by
    ext k
    rw [Set.mem_ofPred_eq, Finset.mem_coe, Finset.mem_range, lt_toNat_termCount_iff]
  rw [hset, Set.encard_coe_eq_coe_finsetCard, Finset.card_range]

/-- **There are at most `2 ^ 32` terms**, one for each ordinal. -/
theorem toNat_termCount_le (first last increment : Ordinal) :
    (termCount first last increment).toNat ≤ 2 ^ 32 := by
  have hf := Ordinal.inRange_toInt first
  have hl := Ordinal.inRange_toInt last
  unfold Ordinal.InRange at hf hl
  have hcount := toNat_termCount first last increment
  split at hcount
  · next h =>
    have hdiv : (last.toInt - first.toInt) / increment.toInt ≤ last.toInt - first.toInt :=
      Int.ediv_le_self _ (by omega)
    omega
  · next h =>
    split at hcount
    · next h' =>
      have hdiv : (first.toInt - last.toInt) / -increment.toInt ≤ first.toInt - last.toInt :=
        Int.ediv_le_self _ (by omega)
      omega
    · next h' => omega

/-- Between two ordinals there are only ordinals. -/
theorem inRange_of_mem_uIcc {first last : Ordinal} {v : Int}
    (h : v ∈ Set.uIcc first.toInt last.toInt) : Ordinal.InRange v := by
  have hf := Ordinal.inRange_toInt first
  have hl := Ordinal.inRange_toInt last
  unfold Ordinal.InRange at hf hl ⊢
  rw [Set.mem_uIcc] at h
  omega

namespace Progression

/-! ## The invariant -/

/-- Every term left is an ordinal. -/
def Fits (p : Progression) : Prop :=
  ∀ k < p.length, Ordinal.InRange (p.current.toInt + k * p.increment.toInt)

/-- A walk that begins has only ordinals before it. -/
theorem fits_between (first last increment : Ordinal) :
    (between first last increment).Fits := by
  intro k hk
  exact inRange_of_mem_uIcc ((lt_toNat_termCount_iff first last increment k).mp hk).mem_uIcc

/-- A walk that is over has nothing before it. -/
theorem fits_of_length_eq_zero {p : Progression} (h : p.length = 0) : p.Fits := by
  intro k hk
  exact absurd hk (by omega)

/-- What a step behind a term does: it goes to the next term, or it rests behind the last one. -/
theorem advance_cases {p : Progression} (h : p.Fits) (hp : 0 < p.length) :
    (p.advance.current.toInt = p.current.toInt + p.increment.toInt ∧
      p.advance.length = p.length - 1) ∨
    (p.length = 1 ∧ p.advance.current = p.current ∧ p.advance.length = 0) := by
  unfold advance
  rcases hadd : p.current.add? p.increment with _ | o
  · -- There is no ordinal one increment on, so by the invariant there is no term there.
    right
    have hout := Ordinal.add?_eq_none_iff.mp hadd
    have hlen : ¬ 1 < p.length := by
      intro h1
      exact hout (by simpa using h 1 h1)
    exact ⟨by omega, rfl, rfl⟩
  · left
    refine ⟨Ordinal.add?_eq_some_iff.mp hadd, ?_⟩
    have hle : (1 : UInt64) ≤ p.remaining := UInt64.le_iff_toNat_le.mpr hp
    exact UInt64.toNat_sub_of_le _ _ hle

/-- **A step takes one term.** -/
theorem length_advance {p : Progression} (h : p.Fits) (hp : 0 < p.length) :
    p.advance.length = p.length - 1 := by
  rcases advance_cases h hp with ⟨-, hlen⟩ | ⟨hone, -, hlen⟩
  · exact hlen
  · omega

/-- **A step keeps the invariant.** -/
theorem Fits.advance {p : Progression} (h : p.Fits) (hp : 0 < p.length) : p.advance.Fits := by
  rcases advance_cases h hp with ⟨hcur, hlen⟩ | ⟨-, -, hlen⟩
  · intro k hk
    rw [increment_advance, hcur, ← Walk.add_succ_mul]
    exact h (k + 1) (by omega)
  · exact fits_of_length_eq_zero hlen

/-- What a step takes and where it leads. -/
theorem eq_of_next? {p q : Progression} {o : Ordinal} (h : Cursor.next? p = some (o, q)) :
    0 < p.length ∧ o = p.current ∧ q = p.advance := by
  have hpos : 0 < p.length := Nat.lt_of_le_of_lt (Nat.zero_le _) (length_lt_of_next? h)
  change p.next? = _ at h
  unfold next? at h
  split at h
  · cases h
  · cases h
    exact ⟨hpos, rfl, rfl⟩

/-- The invariant, in terms of cursors. -/
theorem Fits.of_next? {p q : Progression} {o : Ordinal} (h : Cursor.next? p = some (o, q))
    (hp : p.Fits) : q.Fits := by
  obtain ⟨hpos, -, rfl⟩ := eq_of_next? h
  exact hp.advance hpos

/-! ## The items -/

/-- A walk with terms left hands out the current one and takes a step. -/
theorem next?_of_pos {p : Progression} (hp : 0 < p.length) :
    Cursor.next? p = some (p.current, p.advance) := by
  show p.next? = _
  unfold next?
  rw [if_neg]
  intro hr
  rw [length, hr] at hp
  exact absurd hp (Nat.lt_irrefl 0)

/-- Its items are the current term and those behind it. -/
theorem items_of_pos {p : Progression} (hp : 0 < p.length) :
    Cursor.items p = p.current :: Cursor.items p.advance :=
  Cursor.items_of_some (next?_of_pos hp)

/-- A walk that is over hands out nothing. -/
theorem items_of_length_eq_zero {p : Progression} (h : p.length = 0) : Cursor.items p = [] :=
  Cursor.items_of_none ((next?_eq_none_iff p).mpr h)

/-- **The items left**, as integers: the current ordinal plus `0, 1, 2, …` increments. -/
theorem map_toInt_items {p : Progression} (h : p.Fits) :
    (Cursor.items p).map Int32.toInt =
      (List.range p.length).map fun k : Nat => p.current.toInt + k * p.increment.toInt := by
  induction hn : p.length generalizing p with
  | zero => simp [items_of_length_eq_zero hn]
  | succ n ih =>
    have hp : 0 < p.length := by omega
    have hlen : p.advance.length = n := by rw [length_advance h hp, hn, Nat.add_sub_cancel]
    rw [items_of_pos hp, List.map_cons, ih (h.advance hp) hlen, List.range_succ_eq_map,
      List.map_cons, List.map_map]
    congr 1
    · simp
    · apply List.map_congr_left
      intro k hk
      rw [List.mem_range] at hk
      rcases advance_cases h hp with ⟨hcur, -⟩ | ⟨hone, -⟩
      · rw [increment_advance, hcur]
        exact (Walk.add_succ_mul _ _ k).symm
      · omega

/-- **The length is exact.** -/
theorem length_items {p : Progression} (h : p.Fits) : (Cursor.items p).length = p.length := by
  have hmap := congrArg List.length (map_toInt_items h)
  simpa using hmap

/-- A walk that begins hands out as many items as its terms are counted. -/
theorem length_items_between (first last increment : Ordinal) :
    (Cursor.items (between first last increment)).length =
      (termCount first last increment).toNat :=
  length_items (fits_between first last increment)

/-- **The `k`-th item left** is the current ordinal plus `k` increments. -/
theorem toInt_getElem_items {p : Progression} (h : p.Fits) {k : Nat}
    (hk : k < (Cursor.items p).length) :
    (Cursor.items p)[k].toInt = p.current.toInt + k * p.increment.toInt := by
  have hget := congrArg (fun vs => vs[k]?) (map_toInt_items h)
  simpa [List.getElem?_eq_getElem hk, length_items h ▸ hk] using hget

/-- The items of a walk that begins, as integers: those of the walk that tests its bound. -/
theorem map_toInt_items_between (first last increment : Ordinal) :
    (Cursor.items (between first last increment)).map Int32.toInt =
      Walk.values last.toInt increment.toInt first.toInt := by
  rw [map_toInt_items (fits_between first last increment)]
  exact (Walk.values_eq_map_range (lt_toNat_termCount_iff first last increment)).symm

/-- Ordinals are told apart by their values, and so are lists of them. -/
theorem map_toInt_inj {os ps : List Ordinal} :
    os.map Int32.toInt = ps.map Int32.toInt ↔ os = ps :=
  List.map_inj_right fun _ _ => Int32.toInt_inj.mp

/-- All of them lie between the bounds. -/
theorem toInt_mem_uIcc_of_mem_items {first last increment o : Ordinal}
    (h : o ∈ Cursor.items (between first last increment)) :
    o.toInt ∈ Set.uIcc first.toInt last.toInt := by
  have hmem : o.toInt ∈ Walk.values last.toInt increment.toInt first.toInt := by
    rw [← map_toInt_items_between]
    exact List.mem_map_of_mem h
  exact Walk.mem_uIcc_of_mem_values hmem

/-- The values of the terms left, as collecting them hands them out. -/
def values (p : Progression) : List Int := (Cursor.collect p).1.map Int32.toInt

/-- **Counted and bound-tested walks agree.** What is collected from `first` towards `last` is
what the walk that tests its bound hands out, value by value. So exactly those values are
collected that lie a natural number of increments from `first` and not past `last`, each of them
once and in order, and `last` is among them only if it is reached exactly. -/
theorem values_between (first last increment : Ordinal) :
    (between first last increment).values =
        Walk.values last.toInt increment.toInt first.toInt ∧
      (∀ v : Int, v ∈ (between first last increment).values ↔
        increment.toInt ≠ 0 ∧ (∃ k : Nat, v - first.toInt = k * increment.toInt) ∧
          ¬ Walk.Past last.toInt increment.toInt v) ∧
      (between first last increment).values.Nodup ∧
      (0 < increment.toInt → (between first last increment).values.Pairwise (· < ·)) ∧
      (increment.toInt < 0 → (between first last increment).values.Pairwise (· > ·)) ∧
      (last.toInt ∈ (between first last increment).values ↔
        increment.toInt ≠ 0 ∧
          ∃ k : Nat, first.toInt + k * increment.toInt = last.toInt) := by
  have heq : (between first last increment).values =
      Walk.values last.toInt increment.toInt first.toInt := by
    rw [values, Cursor.collect_fst, map_toInt_items_between]
  rw [heq]
  refine ⟨rfl, fun v => Walk.mem_values_iff, Walk.nodup_values _ _ _,
    fun hi => Walk.pairwise_lt_values hi _, fun hi => Walk.pairwise_gt_values hi _, ?_⟩
  rw [Walk.mem_values_iff]
  constructor
  · rintro ⟨h0, ⟨k, hk⟩, -⟩
    exact ⟨h0, k, by omega⟩
  · rintro ⟨h0, k, hk⟩
    refine ⟨h0, ⟨k, by omega⟩, ?_⟩
    unfold Walk.Past
    omega

end Progression

end RangePattern
