import Mathlib.Data.List.SplitBy
import Mathlib.Tactic.Ring
import RangePattern.Proofs.Misreading

/-!
# How many segments there are

A separator is found in a run of dots, and nowhere else. A run of `n` dots gives `n / 2` of them,
since separators do not overlap, and what stands between the runs does not matter. So the segments
can be counted without a cut: `separatorCount` adds up the runs, and a text has one segment more
than that (`Segments.length_cut`).

The cut goes over the characters, and the count over the runs. They meet because the count obeys the
equations of the cut: two dots in front make one separator more (`separatorCount_separator`), and a
character that opens no separator makes none (`separatorCount_cons`). Both are read off the first
run, see `separatorCount_replicate_append`.

The main statement is `arity_by_dot_runs`.
-/

namespace RangePattern

namespace Segments

/-- The runs of dots in a text: of its longest stretches of equal characters, those of dots. -/
def dotRuns (cs : List Char) : List (List Char) :=
  (cs.splitBy (· == ·)).filter fun run => run.head? = some '.'

/-- How many separators find room in the runs of dots, without overlap. -/
def separatorCount (cs : List Char) : Nat := ((dotRuns cs).map fun run => run.length / 2).sum

/-! ## The first run -/

/-- A text starts with a run of a given character, which may be empty. -/
theorem exists_eq_replicate_append (c : Char) (cs : List Char) :
    ∃ (n : Nat) (ds : List Char), cs = List.replicate n c ++ ds ∧ ds.head? ≠ some c := by
  induction cs with
  | nil => exact ⟨0, [], rfl, by simp⟩
  | cons d cs ih =>
    by_cases hd : d = c
    · obtain ⟨n, ds, rfl, hhead⟩ := ih
      exact ⟨n + 1, ds, by rw [hd, List.replicate_succ, List.cons_append], hhead⟩
    · exact ⟨0, d :: cs, rfl, by simpa using hd⟩

/-- Where a run ends, the runs of what follows go on by themselves. -/
theorem dotRuns_replicate_append {c : Char} {n : Nat} (hn : n ≠ 0) {ds : List Char}
    (hhead : ds.head? ≠ some c) :
    dotRuns (List.replicate n c ++ ds) =
      if c = '.' then List.replicate n c :: dotRuns ds else dotRuns ds := by
  have hrun : (List.replicate n c).splitBy (· == ·) = [List.replicate n c] := by
    apply List.splitBy_of_isChain
    · simpa using hn
    · exact List.isChain_replicate_of_rel n (beq_self_eq_true c)
  have hsplit : (List.replicate n c ++ ds).splitBy (· == ·) =
      List.replicate n c :: ds.splitBy (· == ·) := by
    rw [List.splitBy_append, hrun, List.singleton_append]
    intro x hx y hy
    obtain rfl := List.eq_of_mem_replicate (List.mem_of_getLast? hx)
    exact beq_eq_false_iff_ne.mpr fun hxy => hhead (hxy ▸ hy)
  have hfirst : (List.replicate n c).head? = some c := by
    rw [List.head?_replicate, if_neg hn]
  unfold dotRuns
  rw [hsplit, List.filter_cons, hfirst]
  simp

/-- **A run in front.** Half the dots of a run are so many separators, and other characters are
none. -/
theorem separatorCount_replicate_append (c : Char) (n : Nat) {ds : List Char}
    (hhead : ds.head? ≠ some c) :
    separatorCount (List.replicate n c ++ ds) =
      (if c = '.' then n / 2 else 0) + separatorCount ds := by
  by_cases hn : n = 0
  · simp [hn]
  · unfold separatorCount
    rw [dotRuns_replicate_append hn hhead]
    by_cases hc : c = '.' <;> simp [hc]

/-! ## The count obeys the equations of the cut -/

/-- Without characters there are no separators. -/
@[simp] theorem separatorCount_nil : separatorCount [] = 0 := rfl

/-- Two dots in front are one separator more, whether or not a run of dots follows. -/
theorem separatorCount_separator (cs : List Char) :
    separatorCount ('.' :: '.' :: cs) = separatorCount cs + 1 := by
  obtain ⟨n, ds, rfl, hhead⟩ := exists_eq_replicate_append '.' cs
  have hrun : '.' :: '.' :: (List.replicate n '.' ++ ds) = List.replicate (n + 2) '.' ++ ds := rfl
  rw [hrun, separatorCount_replicate_append '.' _ hhead,
    separatorCount_replicate_append '.' _ hhead, if_pos rfl, if_pos rfl]
  omega

/-- A character that opens no separator adds none: it is no dot, or it is a run of one dot. -/
theorem separatorCount_cons {c : Char} {cs : List Char} (h : c = '.' → cs.head? ≠ some '.') :
    separatorCount (c :: cs) = separatorCount cs := by
  by_cases hc : c = '.'
  · subst hc
    have hone := separatorCount_replicate_append '.' 1 (h rfl)
    simpa using hone
  · obtain ⟨n, ds, rfl, hhead⟩ := exists_eq_replicate_append c cs
    have hrun : c :: (List.replicate n c ++ ds) = List.replicate (n + 1) c ++ ds := rfl
    rw [hrun, separatorCount_replicate_append c _ hhead,
      separatorCount_replicate_append c _ hhead, if_neg hc, if_neg hc]

/-- **The number of segments** is told by the runs of dots. -/
theorem length_cut (cs : List Char) : (cut cs).length = separatorCount cs + 1 := by
  induction cs using Segments.induct with
  | nil => simp
  | separator cs ih => rw [cut_separator, List.length_cons, ih, separatorCount_separator]
  | cons c cs h ih => rw [cut_cons h, List.length_modifyHead, ih, separatorCount_cons h]

end Segments

open Segments (separatorCount)

/-- The same for the segments of a pattern. -/
theorem length_segments (pattern : String) :
    (segments pattern).length = separatorCount pattern.toList + 1 := by
  rw [segments, List.length_map, Segments.length_cut]

/-! ## What the number decides -/

/-- A pattern is refused for the number of its segments, and with this number, exactly if there are
neither two nor three. -/
theorem Parts.ofPattern_eq_segmentCount_iff {pattern q : String} {n : Nat} :
    ofPattern pattern = .error (.segmentCount q n) ↔
      q = pattern ∧ n = (segments pattern).length ∧ n ≠ 2 ∧ n ≠ 3 := by
  rw [ofPattern_eq_error_iff]
  simp only [segmentation_iff]
  constructor
  · rintro (⟨_, rfl, h2, h3, heq⟩ | ⟨a, b, k, cause, -, -, heq⟩)
    · cases heq
      exact ⟨rfl, rfl, h2, h3⟩
    · cases heq
  · rintro ⟨rfl, rfl, h2, h3⟩
    exact Or.inl ⟨_, rfl, h2, h3, rfl⟩

/-- Two segments are bounds, whatever they are. -/
theorem Parts.ofPattern_of_pair {pattern a b : String} (h : segments pattern = [a, b]) :
    ofPattern pattern = .ok ⟨a, b, defaultIncrement⟩ := by
  rw [ofPattern, h, ofSegments]

/-- **The number of segments is decided by the runs of dots alone.** A pattern is refused for it
exactly if the runs of dots have room for neither one separator nor two, and the number that is
reported is one more than that.

With one separator the pattern always has parts: the texts before and behind it, and the increment
one. With two it is the text behind the second one alone that decides whether there are parts or
which fault there is. -/
theorem arity_by_dot_runs (pattern : String) :
    (∀ (q : String) (n : Nat), Parts.ofPattern pattern = .error (.segmentCount q n) ↔
      q = pattern ∧ n = separatorCount pattern.toList + 1 ∧
        separatorCount pattern.toList ≠ 1 ∧ separatorCount pattern.toList ≠ 2) ∧
    (separatorCount pattern.toList = 1 → ∃ a b, pattern = a ++ separator ++ b ∧
      Parts.ofPattern pattern = .ok ⟨a, b, 1⟩) ∧
    (separatorCount pattern.toList = 2 → ∃ a b k, pattern = a ++ separator ++ b ++ separator ++ k ∧
      segments pattern = [a, b, k] ∧
      Parts.ofPattern pattern =
        ((Decimal.read k).map fun o => ⟨a, b, o⟩).mapError (.increment k)) := by
  have hlen := length_segments pattern
  have hjoin := intercalate_segments pattern
  refine ⟨?_, ?_, ?_⟩
  · intro q n
    rw [Parts.ofPattern_eq_segmentCount_iff, hlen]
    apply and_congr_right
    intro _
    omega
  · intro h
    rw [h] at hlen
    obtain ⟨a, b, hcut⟩ := List.length_eq_two.mp hlen
    refine ⟨a, b, ?_, Parts.ofPattern_of_pair hcut⟩
    simpa [hcut] using hjoin.symm
  · intro h
    rw [h] at hlen
    obtain ⟨a, b, k, hcut⟩ := List.length_eq_three.mp hlen
    refine ⟨a, b, k, ?_, hcut, Parts.ofPattern_of_triple hcut⟩
    simpa [hcut, String.append_assoc] using hjoin.symm

example : Parts.ofPattern "...1....2.." = .error (.segmentCount "...1....2.." 5) := by decide

end RangePattern
