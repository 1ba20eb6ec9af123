import RangePattern.Proofs.Cursors
import RangePattern.Proofs.Terms
import RangePattern.Session

/-!
# Counting in words

The terms of a walk are counted in 64-bit words, by a subtraction, an absolute value, a division, a
change from a word with a sign to one without, and an addition. Each of these could leave the words
or change a value. None does: bounds are 32-bit integers, so everything that is counted from them
stays far below the largest word. `Lossless` says so step by step, and
`distance?_eq_some_iff` says it of the comparisons and of the subtraction that they choose.

The largest count is `2 ^ 32`, for the walk from one end of the ordinals to the other that leaves
out none (`toNat_termCount_eq_iff`). So a machine that tells sizes in words of more than 32 bits
tells the number of terms left as it is (`Progression.toldLength_of_lt`). The main statement is
`counted_in_words`.
-/

namespace RangePattern

variable {first last increment : Ordinal}

/-! ## Step by step -/

/-- **The comparisons and the subtraction** are those of the integers: there is a distance exactly
if the walk goes on at its first value, and then it is the difference of the bounds. -/
theorem distance?_eq_some_iff {d : Int64} :
    distance? first.toInt64 last.toInt64 increment.toInt64 = some d ↔
      (0 < increment.toInt ∧ first.toInt ≤ last.toInt ∧ d.toInt = last.toInt - first.toInt) ∨
      (increment.toInt < 0 ∧ last.toInt ≤ first.toInt ∧ d.toInt = first.toInt - last.toInt) := by
  have hup : last.toInt64 - first.toInt64 = d ↔ d.toInt = last.toInt - first.toInt := by
    rw [← toInt_sub_toInt64, Int64.toInt_inj, eq_comm]
  have hdown : first.toInt64 - last.toInt64 = d ↔ d.toInt = first.toInt - last.toInt := by
    rw [← toInt_sub_toInt64, Int64.toInt_inj, eq_comm]
  simp only [distance?, Int64.lt_iff_toInt_lt, Int64.le_iff_toInt_le, Int32.toInt_toInt64,
    Int64.toInt_zero]
  split
  · next h =>
    rw [Option.some.injEq, hup]
    omega
  · next h =>
    split
    · next h' =>
      rw [Option.some.injEq, hdown]
      omega
    · next h' =>
      simp only [reduceCtorEq, false_iff]
      omega

/-- From a distance `d` to the number of terms, every word has the value that the same operation has
on the integers. -/
structure Lossless (first last increment : Ordinal) (d : Int64) : Prop where
  /-- The absolute value of the increment is a word, also of the least increment. -/
  size_eq : increment.toInt64.abs.toInt = |increment.toInt|
  /-- It is not zero, so it can be divided by. -/
  size_ne_zero : increment.toInt64.abs ≠ 0
  /-- The quotient is that of the integers. -/
  quotient_eq : (d / increment.toInt64.abs).toInt = d.toInt / |increment.toInt|
  /-- It is not negative. -/
  quotient_nonneg : 0 ≤ (d / increment.toInt64.abs).toInt
  /-- As a word without a sign it is the same number. -/
  unsigned_eq : ((d / increment.toInt64.abs).toUInt64.toNat : Int) =
    (d / increment.toInt64.abs).toInt
  /-- One more than that is a word, and it is the number of terms. -/
  count_eq : (termCount first last increment).toNat =
    (d / increment.toInt64.abs).toUInt64.toNat + 1

/-- **Nothing is lost on the way.** -/
theorem lossless_of_distance? {d : Int64}
    (h : distance? first.toInt64 last.toInt64 increment.toInt64 = some d) :
    Lossless first last increment d := by
  have hf := Ordinal.inRange_toInt first
  have hl := Ordinal.inRange_toInt last
  unfold Ordinal.InRange at hf hl
  have hd := distance?_eq_some_iff.mp h
  have hsize : increment.toInt64.abs.toInt = |increment.toInt| := by
    rw [toInt_abs_toInt64, Int.abs_eq_natAbs]
  have hpos : 0 < |increment.toInt| := abs_pos.mpr (by omega)
  have hquotient : (d / increment.toInt64.abs).toInt = d.toInt / |increment.toInt| := by
    rw [← hsize]
    exact toInt_quotient (by omega) (by omega) (by omega)
  have hnonneg : 0 ≤ (d / increment.toInt64.abs).toInt := by
    rw [hquotient]
    exact Int.ediv_nonneg (by omega) hpos.le
  have hunsigned := toNat_toUInt64 hnonneg
  refine ⟨hsize, ?_, hquotient, hnonneg, hunsigned, ?_⟩
  · intro hzero
    rw [hzero] at hsize
    exact absurd hpos (hsize ▸ Int.lt_irrefl 0)
  · have hcount := toNat_quotient (d := d) (a := increment.toInt64.abs) (by omega) (by omega)
      (by omega)
    simp only [termCount, h]
    rw [hsize, ← hquotient, ← hunsigned] at hcount
    exact_mod_cast hcount

/-! ## The largest count -/

/-- **There are `2 ^ 32` terms** only from one end of the ordinals to the other, without leaving out
any. -/
theorem toNat_termCount_eq_iff :
    (termCount first last increment).toNat = 2 ^ 32 ↔
      (increment = 1 ∧ first = Int32.minValue ∧ last = Int32.maxValue) ∨
      (increment = -1 ∧ first = Int32.maxValue ∧ last = Int32.minValue) := by
  have hf := Ordinal.inRange_toInt first
  have hl := Ordinal.inRange_toInt last
  unfold Ordinal.InRange at hf hl
  have hle := toNat_termCount_le first last increment
  have hlast := lt_toNat_termCount_iff first last increment 4294967295
  simp only [← Int32.toInt_inj]
  unfold Walk.Continues at hlast
  change _ ↔ (increment.toInt = 1 ∧ first.toInt = -2147483648 ∧ last.toInt = 2147483647) ∨
    (increment.toInt = -1 ∧ first.toInt = 2147483647 ∧ last.toInt = -2147483648)
  omega

/-! ## Telling how many terms are left -/

namespace Progression

/-- Behind some terms there are no more left than there were. -/
theorem length_drop_le (n : Nat) (p : Progression) : (Cursor.drop n p).length ≤ p.length :=
  Cursor.feed_keeps (P := fun q : Progression => q.length ≤ p.length)
    (fun hstep hle => (length_lt_of_next? hstep).le.trans hle) _ n () (Nat.le_refl _)

/-- Words of more than 32 bits tell every number of terms as it is. -/
theorem toldLength_of_lt {p : Progression} {bits : Nat} (hp : p.length ≤ 2 ^ 32)
    (hbits : 32 < bits) : p.toldLength bits = p.length := by
  apply if_pos
  exact hp.trans_lt (Nat.pow_lt_pow_right (by decide) hbits)

end Progression

/-- **The count is exact, word by word.** The terms are counted from a distance if the walk goes on
at its first value, and the distance is the difference of the bounds. On the way from there to the
count no operation leaves the words, nothing is divided by zero, and giving up the sign changes
nothing. So the count is the number of steps at which the walk over the integers goes on. It is at
most `2 ^ 32`, and that much only from one end of the ordinals to the other with an increment of
size one.

Behind any number of terms, words of more than 32 bits therefore tell how many terms are left, and
never the largest size in place of that. So a slot, which tells it in words of 64 bits, answers this
number for both bounds. -/
theorem counted_in_words (first last increment : Ordinal) :
    (∀ d, distance? first.toInt64 last.toInt64 increment.toInt64 = some d ↔
      (0 < increment.toInt ∧ first.toInt ≤ last.toInt ∧ d.toInt = last.toInt - first.toInt) ∨
      (increment.toInt < 0 ∧ last.toInt ≤ first.toInt ∧ d.toInt = first.toInt - last.toInt)) ∧
    (∀ d, distance? first.toInt64 last.toInt64 increment.toInt64 = some d →
      Lossless first last increment d) ∧
    {k : ℕ | Walk.Continues last.toInt increment.toInt
      (first.toInt + k * increment.toInt)}.encard = (termCount first last increment).toNat ∧
    (termCount first last increment).toNat ≤ 2 ^ 32 ∧
    ((termCount first last increment).toNat = 2 ^ 32 ↔
      (increment = 1 ∧ first = Int32.minValue ∧ last = Int32.maxValue) ∨
      (increment = -1 ∧ first = Int32.maxValue ∧ last = Int32.minValue)) ∧
    ∀ n, let p := Cursor.drop n (Progression.between first last increment)
      (∀ bits, 32 < bits → p.toldLength bits = p.length) ∧
        ((Slot.ordinals p).act .bounds).1 = .between p.length p.length := by
  refine ⟨fun d => distance?_eq_some_iff, fun d => lossless_of_distance?,
    encard_continues first last increment, toNat_termCount_le first last increment,
    toNat_termCount_eq_iff, ?_⟩
  intro n p
  have hle : p.length ≤ 2 ^ 32 :=
    (Progression.length_drop_le n _).trans (toNat_termCount_le first last increment)
  have htold : ∀ bits, 32 < bits → p.toldLength bits = p.length :=
    fun _ => Progression.toldLength_of_lt hle
  refine ⟨htold, ?_⟩
  show Reply.between (p.toldLength 64) (p.toldLength 64) = _
  rw [htold 64 (by decide)]

end RangePattern
