import RangePattern.Proofs.Cursors
import RangePattern.Proofs.Terms

/-!
# Where a walk stands

A walk keeps three numbers, and they say no more than how many terms have been taken. `Behind` is
this closed form: behind `c` of `n` terms there are `n - c` left, and the walk stands `c` increments
from its first ordinal. There is one exception, which `station` makes. Behind the last term the next
position may be no ordinal, and then the walk stays at the term that it has just handed out.

* `Progression.Behind.advance` — a step leads from behind `c` terms to behind `c + 1`;
* `Progression.behind_drop` — so `c` steps lead from the beginning to behind `c` terms;
* `Progression.Behind.eq_between` — while terms are left, the walk cannot be told from one that
  begins where it stands.

The addition in a step is checked, and where it fails the walk is ended. The main statement is
`Progression.stays_on_course`: **no term is ever lost to that**. As long as terms are left, all of
them lie between the bounds and the position behind them lies past the last ordinal, so the addition
can only fail when the count has run down by itself.
-/

namespace RangePattern.Progression

variable {first last increment : Ordinal} {c : Nat} {p : Progression}

/-! ## The closed form -/

/-- Where the walk from `first` stands behind `c` of its `n` terms: at the next term, or where the
next one would be. Only if that is no ordinal, behind the last term, it stays at the last term. -/
def station (first last increment : Ordinal) (c : Nat) : Int :=
  let n := (termCount first last increment).toNat
  if c = n ∧ 0 < n ∧ ¬ Ordinal.InRange (first.toInt + n * increment.toInt) then
    first.toInt + (n - 1 : Nat) * increment.toInt
  else first.toInt + c * increment.toInt

/-- The walk `p` is the walk from `first` towards `last` behind `c` of its terms. -/
structure Behind (first last increment : Ordinal) (c : Nat) (p : Progression) : Prop where
  /-- No more terms are taken than there are. -/
  taken_le : c ≤ (termCount first last increment).toNat
  /-- The other terms are left. -/
  length_eq : p.length = (termCount first last increment).toNat - c
  /-- The increment is the one that the walk began with. -/
  increment_eq : p.increment = increment
  /-- The walk stands at its station. -/
  current_eq : p.current.toInt = station first last increment c

/-- While terms are left, the station is `c` increments from the first ordinal. -/
theorem station_of_lt (hc : c < (termCount first last increment).toNat) :
    station first last increment c = first.toInt + c * increment.toInt := by
  unfold station
  rw [if_neg]
  rintro ⟨heq, -⟩
  exact absurd hc (by omega)

/-- So there the walk stands. -/
theorem Behind.toInt_current (h : Behind first last increment c p)
    (hc : c < (termCount first last increment).toNat) :
    p.current.toInt = first.toInt + c * increment.toInt := by
  rw [h.current_eq, station_of_lt hc]

/-! ## The closed form is kept -/

/-- Where a walk begins, it is behind nothing. -/
theorem behind_between (first last increment : Ordinal) :
    Behind first last increment 0 (between first last increment) := by
  refine ⟨Nat.zero_le _, rfl, rfl, ?_⟩
  unfold station
  rw [if_neg]
  · show first.toInt = first.toInt + ((0 : Nat) : Int) * increment.toInt
    rw [Int.natCast_zero, Int.zero_mul, Int.add_zero]
  · rintro ⟨heq, hpos, -⟩
    exact absurd hpos (by omega)

/-- The terms left of a walk lie between the bounds, since they are terms of the walk it began
as. -/
theorem Behind.mem_uIcc (h : Behind first last increment c p) {k : Nat} (hk : k < p.length) :
    p.current.toInt + k * p.increment.toInt ∈ Set.uIcc first.toInt last.toInt := by
  have hlen := h.length_eq
  have hlt : c + k < (termCount first last increment).toNat := by omega
  rw [h.toInt_current (by omega), h.increment_eq, ← Walk.add_add_mul]
  exact ((lt_toNat_termCount_iff _ _ _ _).mp hlt).mem_uIcc

/-- So they are ordinals. -/
theorem Behind.fits (h : Behind first last increment c p) : p.Fits :=
  fun _ hk => inRange_of_mem_uIcc (h.mem_uIcc hk)

/-- Where a step leads: one increment on, if there is an ordinal. -/
theorem toInt_current_advance (p : Progression) :
    p.advance.current.toInt =
      if Ordinal.InRange (p.current.toInt + p.increment.toInt) then
        p.current.toInt + p.increment.toInt
      else p.current.toInt := by
  unfold advance
  rcases hadd : p.current.add? p.increment with _ | o
  · rw [if_neg (Ordinal.add?_eq_none_iff.mp hadd)]
  · have ho := Ordinal.add?_eq_some_iff.mp hadd
    rw [← ho, if_pos (Ordinal.inRange_toInt o)]

/-- **A step takes one term**, and it goes on to the next station. -/
theorem Behind.advance (h : Behind first last increment c p)
    (hc : c < (termCount first last increment).toNat) :
    Behind first last increment (c + 1) p.advance := by
  have hlen := h.length_eq
  have hpos : 0 < p.length := by omega
  have hnext : p.current.toInt + p.increment.toInt =
      first.toInt + (c + 1 : Nat) * increment.toInt := by
    rw [h.toInt_current hc, h.increment_eq, Walk.add_add_mul]
    simp
  refine ⟨hc, ?_, by rw [increment_advance, h.increment_eq], ?_⟩
  · rw [length_advance h.fits hpos, hlen]
    omega
  · rw [toInt_current_advance, hnext, h.toInt_current hc]
    unfold station
    by_cases hr : Ordinal.InRange (first.toInt + (c + 1 : Nat) * increment.toInt)
    · -- There is an ordinal to go to, so the station is no exception.
      rw [if_pos hr, if_neg]
      rintro ⟨heq, -, hout⟩
      rw [← heq] at hout
      exact hout hr
    · -- All terms are ordinals, so this was the last one, and it is the exception.
      have hlast : c + 1 = (termCount first last increment).toNat := by
        by_contra hne
        have hlt : c + 1 < (termCount first last increment).toNat := by omega
        exact hr (inRange_of_mem_uIcc ((lt_toNat_termCount_iff _ _ _ _).mp hlt).mem_uIcc)
      rw [if_neg hr, if_pos ⟨hlast, by omega, by rwa [← hlast]⟩, ← hlast, Nat.add_sub_cancel]

/-- A call for the next term takes a step if terms are left. -/
theorem pop_of_pos (hp : 0 < p.length) : Cursor.pop p = (some p.current, p.advance) := by
  unfold Cursor.pop
  rw [next?_of_pos hp]

/-- By induction, `c` steps lead behind `c` terms. -/
theorem behind_drop (hc : c ≤ (termCount first last increment).toNat) :
    Behind first last increment c (Cursor.drop c (between first last increment)) := by
  induction c with
  | zero => exact behind_between first last increment
  | succ c ih =>
    have hbehind := ih (by omega)
    have hlen := hbehind.length_eq
    rw [Cursor.drop_add, ← Cursor.pop_snd, pop_of_pos (by omega)]
    exact hbehind.advance hc

/-- The number of terms from `c` increments on is what is left of the terms behind `c` of them. -/
theorem toNat_termCount_of_toInt_eq {o : Ordinal}
    (ho : o.toInt = first.toInt + c * increment.toInt) :
    (termCount o last increment).toNat = (termCount first last increment).toNat - c := by
  apply eq_of_forall_lt_iff
  intro k
  rw [lt_toNat_termCount_iff, ho, ← Walk.add_add_mul, ← lt_toNat_termCount_iff]
  omega

/-- **While terms are left, a walk is one that begins where it stands.** -/
theorem Behind.eq_between (h : Behind first last increment c p)
    (hc : c < (termCount first last increment).toNat) :
    p = between p.current last increment := by
  have hlen := h.length_eq
  rw [← toNat_termCount_of_toInt_eq (h.toInt_current hc)] at hlen
  obtain ⟨current, i, remaining⟩ := p
  obtain rfl : i = increment := h.increment_eq
  obtain rfl : remaining = termCount current last i := UInt64.toNat_inj.mp hlen
  rfl

/-! ## No term is lost -/

/-- What holds of a walk with terms left: they lie between the bounds, from the current one to the
last of them, and the position behind them lies past the last ordinal. -/
structure OnCourse (first last : Ordinal) (p : Progression) : Prop where
  /-- The current term lies between the bounds. -/
  current_mem : p.current.toInt ∈ Set.uIcc first.toInt last.toInt
  /-- So does the last one of the terms left. -/
  final_mem :
    p.current.toInt + (p.length - 1 : Nat) * p.increment.toInt ∈ Set.uIcc first.toInt last.toInt
  /-- It is an ordinal. -/
  final_inRange : Ordinal.InRange (p.current.toInt + (p.length - 1 : Nat) * p.increment.toInt)
  /-- One more increment leads past the last ordinal. -/
  past : Walk.Past last.toInt p.increment.toInt (p.current.toInt + p.length * p.increment.toInt)

/-- Behind some of its terms, with others left, a walk is on course. -/
theorem Behind.onCourse (h : Behind first last increment c p) (hp : 0 < p.length) :
    OnCourse first last p := by
  have hlen := h.length_eq
  have hfinal := h.mem_uIcc (Nat.sub_lt hp Nat.one_pos)
  refine ⟨?_, hfinal, inRange_of_mem_uIcc hfinal, ?_⟩
  · simpa using h.mem_uIcc hp
  · -- The walk that tests its bound goes on at the first term and stops behind all of them.
    have hfirst := (lt_toNat_termCount_iff first last increment 0).mp (by omega)
    have hstop : ¬ Walk.Continues last.toInt increment.toInt
        (first.toInt + (c + p.length : Nat) * increment.toInt) := by
      rw [← lt_toNat_termCount_iff]
      omega
    have hdir := (Walk.continues_iff_not_past.mp hfirst).1
    rw [h.toInt_current (by omega), h.increment_eq, ← Walk.add_add_mul]
    by_contra hpast
    exact hstop (Walk.continues_iff_not_past.mpr ⟨hdir, hpast⟩)

/-- **A failing addition loses nothing.** The count has run down to the last term by itself, so to
end the walk there is what counting that term does anyway. -/
theorem Fits.advance_of_add?_eq_none (h : p.Fits) (hp : 0 < p.length)
    (hadd : p.current.add? p.increment = none) :
    p.remaining - 1 = 0 ∧ p.advance = { p with remaining := p.remaining - 1 } := by
  have hout := Ordinal.add?_eq_none_iff.mp hadd
  have hone : p.remaining.toNat = 1 := by
    by_contra hne
    have hterm := h 1 (Nat.lt_of_le_of_ne hp (Ne.symm hne))
    rw [Int.natCast_one, Int.one_mul] at hterm
    exact hout hterm
  have hzero : p.remaining - 1 = 0 := by
    rw [show p.remaining = 1 from UInt64.toNat_inj.mp hone]
    rfl
  refine ⟨hzero, ?_⟩
  rw [hzero, Progression.advance, hadd]

/-- **A walk stays on course**, however often it is asked for its next term. As long as terms are
left, they lie between the bounds and the position behind them is past the last ordinal. A walk at
its end does not move, and every other one hands out a term and lets the length fall by exactly
one. Where the checked addition fails, the count has just run down to zero, so the end that it puts
to the walk is the end that was due, and no term is lost. -/
theorem stays_on_course (first last increment : Ordinal) (k : Nat) :
    let p := (fun q : Progression => (Cursor.pop q).2)^[k] (between first last increment)
    p.increment = increment ∧ (0 < p.length → OnCourse first last p) ∧
      (p.remaining = 0 → Cursor.pop p = (none, p)) ∧
      (p.remaining ≠ 0 → ∃ q, Cursor.pop p = (some p.current, q) ∧ q.length + 1 = p.length ∧
        (p.current.add? p.increment = none →
          p.remaining - 1 = 0 ∧ q = { p with remaining := p.remaining - 1 })) := by
  intro p
  obtain ⟨c, hp⟩ : ∃ c, Behind first last increment c p := by
    have hitems := length_items (fits_between first last increment)
    refine ⟨min k (Cursor.items (between first last increment)).length, ?_⟩
    rw [show p = Cursor.drop k (between first last increment) from
      (Cursor.drop_eq_iterate k _).symm, ← Cursor.drop_min_length]
    apply behind_drop
    exact Nat.le_trans (Nat.min_le_right _ _) hitems.le
  refine ⟨hp.increment_eq, hp.onCourse, ?_, ?_⟩
  · intro hzero
    apply Cursor.pop_of_next?_eq_none
    exact if_pos hzero
  · intro hne
    have hpos : 0 < p.length := Nat.pos_of_ne_zero fun hz => hne (UInt64.toNat_inj.mp hz)
    refine ⟨p.advance, pop_of_pos hpos, ?_, hp.fits.advance_of_add?_eq_none hpos⟩
    rw [length_advance hp.fits hpos]
    exact Nat.sub_add_cancel hpos

example :
    (fun q : Progression => (Cursor.pop q).2)^[2] (between 2147483645 2147483647 2) =
      ⟨2147483647, 2, 0⟩ := by decide

end RangePattern.Progression
