/-!
# Segments: a pattern cut at its separators

A pattern is cut at every occurrence of the separator `..`, from left to right and without
overlap. Segments may be empty, and a text without separator is its own only segment. In a run of
more than two dots the first two are taken first, so a third one opens the next segment:
`1...5` has the segments `1` and `.5`.

`cutFrom` is the one pass over the characters; it keeps the finished segments and the segment under
way, both in reverse. The equations of `cut`, which hides the two, are `cut_nil`, `cut_separator`
and `cut_cons`. The main statement is `intercalate_segments`: **cutting loses nothing**, the
segments joined by separators are the text that was cut.
-/

namespace RangePattern

/-- The text between two segments of a pattern. -/
def separator : String := ".."

namespace Segments

/-! ### One pass over the characters -/

/-- Cuts the characters that follow the finished segments `done` and the characters `held` of the
segment under way. -/
def cutFrom (done : List (List Char)) (held : List Char) : List Char → List (List Char)
  | [] => (held.reverse :: done).reverse
  | '.' :: '.' :: cs => cutFrom (held.reverse :: done) [] cs
  | c :: cs => cutFrom done (c :: held) cs

/-- The segments of a text, as lists of characters. -/
def cut (cs : List Char) : List (List Char) := cutFrom [] [] cs

/-- A separator ends the segment under way. -/
theorem cutFrom_separator (done : List (List Char)) (held cs : List Char) :
    cutFrom done held ('.' :: '.' :: cs) = cutFrom (held.reverse :: done) [] cs := by
  rw [cutFrom]

/-- A character that opens no separator belongs to the segment under way. -/
theorem cutFrom_cons {c : Char} {cs : List Char} (h : c = '.' → cs.head? ≠ some '.')
    (done : List (List Char)) (held : List Char) :
    cutFrom done held (c :: cs) = cutFrom done (c :: held) cs := by
  rw [cutFrom]
  rintro ds rfl rfl
  exact h rfl rfl

/-- A text is empty, or starts with a separator, or starts with a character that opens none. -/
@[elab_as_elim] theorem induct {motive : List Char → Prop} (nil : motive [])
    (separator : ∀ cs, motive cs → motive ('.' :: '.' :: cs))
    (cons : ∀ c cs, (c = '.' → cs.head? ≠ some '.') → motive cs → motive (c :: cs)) :
    ∀ cs, motive cs
  | [] => nil
  | c :: ds => by
    by_cases h : c = '.' → ds.head? ≠ some '.'
    · exact cons c ds h (induct nil separator cons ds)
    · obtain ⟨rfl, es, rfl⟩ : c = '.' ∧ ∃ es, ds = '.' :: es := by
        simpa [List.head?_eq_some_iff] using h
      exact separator es (induct nil separator cons es)

/-- What is finished stays in front, and what is held goes to the head of the next segment. -/
theorem cutFrom_eq (done : List (List Char)) (held cs : List Char) :
    cutFrom done held cs = done.reverse ++ (cut cs).modifyHead (held.reverse ++ ·) := by
  induction cs using Segments.induct generalizing done held with
  | nil => simp [cut, cutFrom]
  | separator cs ih =>
    rw [cut, cutFrom_separator, cutFrom_separator, ih, ih]
    simp
  | cons c cs h ih =>
    rw [cut, cutFrom_cons h, cutFrom_cons h, ih, ih]
    simp [Function.comp_def]

/-! ### The equations of cutting -/

/-- The empty text has one segment, the empty one. -/
@[simp] theorem cut_nil : cut [] = [[]] := rfl

/-- In front of a separator there is a segment without characters. -/
theorem cut_separator (cs : List Char) : cut ('.' :: '.' :: cs) = [] :: cut cs := by
  rw [cut, cutFrom_separator, cutFrom_eq]
  cases cut cs <;> simp

/-- A character that opens no separator goes to the first segment. -/
theorem cut_cons {c : Char} {cs : List Char} (h : c = '.' → cs.head? ≠ some '.') :
    cut (c :: cs) = (cut cs).modifyHead (c :: ·) := by
  rw [cut, cutFrom_cons h, cutFrom_eq]
  simp

/-- Every text has a segment. -/
theorem cut_ne_nil (cs : List Char) : cut cs ≠ [] := by
  induction cs using Segments.induct with
  | nil => simp
  | separator cs _ => simp [cut_separator]
  | cons c cs h ih => simpa [cut_cons h] using ih

/-- The segments joined by separators are the text. -/
theorem intercalate_cut (cs : List Char) : ['.', '.'].intercalate (cut cs) = cs := by
  induction cs using Segments.induct with
  | nil => rfl
  | separator cs ih =>
    obtain ⟨s, ss, hs⟩ := List.exists_cons_of_ne_nil (cut_ne_nil cs)
    rw [cut_separator, hs, List.intercalate_cons_cons, ← hs, ih]
    rfl
  | cons c cs h ih =>
    obtain ⟨s, ss, hs⟩ := List.exists_cons_of_ne_nil (cut_ne_nil cs)
    rw [hs] at ih
    rw [cut_cons h, hs]
    cases ss <;> simp_all [List.intercalate_cons_cons]

end Segments

/-- The segments of a pattern, from left to right. -/
def segments (pattern : String) : List String :=
  (Segments.cut pattern.toList).map String.ofList

/-- **Cutting loses nothing.** The segments joined by separators are the pattern. -/
theorem intercalate_segments (pattern : String) :
    separator.intercalate (segments pattern) = pattern := by
  rw [← String.toList_inj, String.toList_intercalate, segments, List.map_map]
  simpa [Function.comp_def, separator] using Segments.intercalate_cut pattern.toList

end RangePattern
