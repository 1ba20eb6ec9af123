import RangePattern.Segments
import Mathlib.Data.List.Infix

/-!
# The only way to cut a pattern

Separators can overlap: in a run of three dots there are two places for one. A cut takes the
leftmost, so no segment holds a separator, and a segment with a separator behind it does not end
with a dot, since then the separator could have been taken one place earlier.

`Segmentation` collects these properties. They describe a cut without a scan, and they leave no
choice: the segments of a pattern have them (`segmentation_segments`), and nothing else has
(`Segmentation.eq_segments`). The proof peels off one segment at a time, see
`Segments.cut_append_separator`.
-/

namespace RangePattern

/-- No separator stands in `cs`. -/
def SeparatorFree (cs : List Char) : Prop := ¬ ['.', '.'] <:+: cs

/-- Whether a text holds no separator is decided by looking for one. -/
instance (cs : List Char) : Decidable (SeparatorFree cs) := inferInstanceAs (Decidable (¬ _))

/-- The segments `ss` of `pattern`, cut at the leftmost separators that do not overlap. -/
structure Segmentation (pattern : String) (ss : List String) : Prop where
  /-- There is a segment. -/
  ne_nil : ss ≠ []
  /-- The segments joined by separators are the pattern. -/
  join : separator.intercalate ss = pattern
  /-- No segment holds a separator. -/
  free : ∀ s ∈ ss, SeparatorFree s.toList
  /-- No segment but the last one ends with a dot. -/
  closed : ∀ s ∈ ss.dropLast, s.toList.getLast? ≠ some '.'

/-! ## Texts without separator -/

/-- Nothing stands in the empty text. -/
theorem separatorFree_nil : SeparatorFree [] := by
  simp [SeparatorFree]

/-- A separator stands at the front of a text or behind its first character. -/
theorem separatorFree_cons_iff {c : Char} {cs : List Char} :
    SeparatorFree (c :: cs) ↔ (c = '.' → cs.head? ≠ some '.') ∧ SeparatorFree cs := by
  unfold SeparatorFree
  rw [List.infix_cons_iff, not_or]
  refine and_congr_left fun _ => not_congr ?_ |>.trans not_and
  cases cs <;> simp [List.cons_prefix_cons, eq_comm]

/-- A text without a dot holds no separator. -/
theorem separatorFree_of_dot_not_mem {cs : List Char} (h : '.' ∉ cs) : SeparatorFree cs := by
  intro hsep
  exact h (hsep.subset (List.mem_cons_self ..))

namespace Segments

/-! ## Cutting what was joined -/

/-- A text without separator is its own only segment. -/
theorem cut_of_separatorFree {cs : List Char} (h : SeparatorFree cs) : cut cs = [cs] := by
  induction cs with
  | nil => rfl
  | cons c cs ih =>
    obtain ⟨hc, hcs⟩ := separatorFree_cons_iff.mp h
    rw [cut_cons hc, ih hcs]
    rfl

/-- **Peeling off a segment.** The first separator behind `s` is the one that follows it, if `s`
holds none and does not end with a dot. -/
theorem cut_append_separator {s : List Char} (hfree : SeparatorFree s)
    (hclosed : s.getLast? ≠ some '.') (cs : List Char) :
    cut (s ++ ['.', '.'] ++ cs) = s :: cut cs := by
  induction s with
  | nil => exact cut_separator cs
  | cons c s ih =>
    obtain ⟨hc, hs⟩ := separatorFree_cons_iff.mp hfree
    cases s with
    | nil =>
      have hne : c ≠ '.' := by simpa using hclosed
      show cut (c :: '.' :: '.' :: cs) = [c] :: cut cs
      rw [cut_cons (fun h => absurd h hne), cut_separator]
      rfl
    | cons d s =>
      have hopen : c = '.' → (d :: s ++ ['.', '.'] ++ cs).head? ≠ some '.' := by
        simpa using hc
      have hclosed' : (d :: s).getLast? ≠ some '.' := by
        rwa [List.getLast?_cons_cons] at hclosed
      show cut (c :: (d :: s ++ ['.', '.'] ++ cs)) = _
      rw [cut_cons hopen, ih hs hclosed']
      rfl

/-- Segments that were joined are found again. -/
theorem cut_intercalate {ss : List (List Char)} (hne : ss ≠ [])
    (hfree : ∀ s ∈ ss, SeparatorFree s) (hclosed : ∀ s ∈ ss.dropLast, s.getLast? ≠ some '.') :
    cut (['.', '.'].intercalate ss) = ss := by
  induction ss with
  | nil => exact absurd rfl hne
  | cons s ss ih =>
    cases ss with
    | nil =>
      rw [List.intercalate_singleton]
      exact cut_of_separatorFree (hfree s (List.mem_cons_self ..))
    | cons t ts =>
      rw [List.dropLast_cons_cons] at hclosed
      obtain ⟨hs, hts⟩ := List.forall_mem_cons.mp hfree
      obtain ⟨hs', hts'⟩ := List.forall_mem_cons.mp hclosed
      rw [List.intercalate_cons_cons, cut_append_separator hs hs',
        ih (List.cons_ne_nil t ts) hts hts']

/-! ## What a cut leaves -/

/-- The first segment is the beginning of the text. -/
theorem head?_of_cut_eq_cons {cs s : List Char} {ss : List (List Char)} {c : Char}
    (h : cut cs = (c :: s) :: ss) : cs.head? = some c := by
  have hjoin := intercalate_cut cs
  rw [h] at hjoin
  rw [← hjoin]
  cases ss <;> rfl

/-- A text that is cut right at its beginning starts with a dot. -/
theorem head?_of_cut_eq_nil_cons {cs : List Char} {ss : List (List Char)} (hss : ss ≠ [])
    (h : cut cs = [] :: ss) : cs.head? = some '.' := by
  have hjoin := intercalate_cut cs
  rw [h] at hjoin
  rw [← hjoin]
  cases ss with
  | nil => exact absurd rfl hss
  | cons t ts => rw [List.intercalate_cons_cons]; rfl

/-- No segment holds a separator. -/
theorem separatorFree_of_mem_cut {cs s : List Char} (h : s ∈ cut cs) : SeparatorFree s := by
  induction cs using Segments.induct generalizing s with
  | nil =>
    obtain rfl := List.mem_singleton.mp h
    exact separatorFree_nil
  | separator cs ih =>
    rw [cut_separator] at h
    rcases List.mem_cons.mp h with rfl | h
    · exact separatorFree_nil
    · exact ih h
  | cons c cs hc ih =>
    rw [cut_cons hc] at h
    rcases hcut : cut cs with _ | ⟨t, ts⟩
    · exact absurd hcut (cut_ne_nil cs)
    · rw [hcut] at h ih
      rcases List.mem_cons.mp h with rfl | h
      · refine separatorFree_cons_iff.mpr ⟨fun hdot hhead => ?_, ih (List.mem_cons_self ..)⟩
        -- A second dot at the head of the segment would be one at the head of the text.
        obtain ⟨u, rfl⟩ := List.head?_eq_some_iff.mp hhead
        exact hc hdot (head?_of_cut_eq_cons hcut)
      · exact ih (List.mem_cons_of_mem t h)

/-- No segment with a separator behind it ends with a dot. -/
theorem getLast?_of_mem_dropLast_cut {cs s : List Char} (h : s ∈ (cut cs).dropLast) :
    s.getLast? ≠ some '.' := by
  induction cs using Segments.induct generalizing s with
  | nil => simp at h
  | separator cs ih =>
    rw [cut_separator, List.dropLast_cons_of_ne_nil (cut_ne_nil cs)] at h
    rcases List.mem_cons.mp h with rfl | h
    · simp
    · exact ih h
  | cons c cs hc ih =>
    rw [cut_cons hc] at h
    rcases hcut : cut cs with _ | ⟨t, ts⟩
    · exact absurd hcut (cut_ne_nil cs)
    · rw [hcut] at h ih
      cases ts with
      | nil => simp at h
      | cons u us =>
        rw [List.dropLast_cons_cons] at ih
        rw [List.modifyHead_cons, List.dropLast_cons_cons] at h
        rcases List.mem_cons.mp h with rfl | h
        · cases t with
          | nil =>
            -- The text behind `c` starts with a separator, so `c` is no dot.
            have hhead := head?_of_cut_eq_nil_cons (List.cons_ne_nil u us) hcut
            simpa using fun hdot => hc hdot hhead
          | cons d t =>
            rw [List.getLast?_cons_cons]
            exact ih (List.mem_cons_self ..)
        · exact ih (List.mem_cons_of_mem t h)

end Segments

/-! ## Existence and uniqueness -/

/-- **The segments of a pattern are a segmentation of it.** -/
theorem segmentation_segments (pattern : String) : Segmentation pattern (segments pattern) where
  ne_nil := by simpa [segments] using Segments.cut_ne_nil pattern.toList
  join := intercalate_segments pattern
  free := by
    intro s hs
    obtain ⟨cs, hcs, rfl⟩ := List.mem_map.mp hs
    rw [String.toList_ofList]
    exact Segments.separatorFree_of_mem_cut hcs
  closed := by
    intro s hs
    rw [segments, ← List.map_dropLast] at hs
    obtain ⟨cs, hcs, rfl⟩ := List.mem_map.mp hs
    rw [String.toList_ofList]
    exact Segments.getLast?_of_mem_dropLast_cut hcs

/-- **There is no other one.** -/
theorem Segmentation.eq_segments {pattern : String} {ss : List String}
    (h : Segmentation pattern ss) : segments pattern = ss := by
  have hlist : pattern.toList = ['.', '.'].intercalate (ss.map String.toList) := by
    rw [← h.join, String.toList_intercalate]
    rfl
  have hcut : Segments.cut pattern.toList = ss.map String.toList := by
    rw [hlist]
    apply Segments.cut_intercalate
    · simpa using h.ne_nil
    · simpa using h.free
    · intro cs hcs
      rw [← List.map_dropLast] at hcs
      obtain ⟨s, hs, rfl⟩ := List.mem_map.mp hcs
      exact h.closed s hs
  rw [segments, hcut, List.map_map]
  simp [Function.comp_def]

/-- **Segmentations are the segments.** A pattern has one of them, and a cut finds it. -/
theorem segmentation_iff {pattern : String} {ss : List String} :
    Segmentation pattern ss ↔ segments pattern = ss := by
  constructor
  · exact Segmentation.eq_segments
  · rintro rfl
    exact segmentation_segments pattern

end RangePattern
