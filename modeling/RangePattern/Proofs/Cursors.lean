import Mathlib.Logic.Function.Iterate
import RangePattern.Cursor.Items

/-!
# What every cursor does

Facts about cursors that do not depend on what is walked.

* `Cursor.feed_keeps` — what a step keeps, every pass keeps, however many items it takes. All
  operations are passes, so an invariant of the single step is an invariant of all of them.
* `Cursor.feed_of_next?_eq_none` — a pass over a cursor at its end does nothing at all.
* `Cursor.drop_min_length` — where a pass comes to rest is a matter of how many items it takes: it
  is where as many single steps lead (`Cursor.drop_eq_iterate`), and steps behind the end lead
  nowhere.
* `Cursor.items_map` — a cursor that steps like another one and hands out the images of its items
  has these images for its items.
* `Cursor.stride_eq_multiples` — keeping one item and passing over `n - 1` others, again and again,
  keeps the items whose position is a multiple of `n`.
-/

namespace RangePattern.Cursor

variable {σ α β : Type} [Cursor σ α]

/-! ## Invariants -/

/-- **What a step keeps, every pass keeps.** -/
theorem feed_keeps {P : σ → Prop} (hstep : ∀ {s t a}, next? s = some (a, t) → P s → P t)
    (f : β → α → β) (n : Nat) (b : β) {s : σ} (h : P s) : P (feed f n b s).2 := by
  induction n generalizing b s with
  | zero => exact h
  | succ n ih =>
    rw [feed]
    split
    · exact h
    · next hs => exact ih _ (hstep hs h)

/-! ## The end -/

/-- A cursor without items is at its end. -/
theorem next?_eq_none_of_items_eq_nil {s : σ} (h : items s = []) : next? s = none := by
  rcases hs : next? s with _ | ⟨a, t⟩
  · rfl
  · rw [items_of_some hs] at h
    cases h

/-- **A pass at the end does nothing.** -/
theorem feed_of_next?_eq_none {s : σ} (h : next? s = none) (f : β → α → β) (n : Nat) (b : β) :
    feed f n b s = (b, s) := by
  cases n with
  | zero => rfl
  | succ n => simp only [feed, h]

/-- At the end there is no next item. -/
theorem pop_of_next?_eq_none {s : σ} (h : next? s = none) : pop s = (none, s) := by
  simp only [pop, h]

/-! ## Where a pass comes to rest -/

/-- Passing over one more item is a step and then passing over the others. -/
theorem drop_succ (n : Nat) (s : σ) : drop (n + 1) s = drop n (pop s).2 := by
  unfold drop
  rw [feed]
  rcases hs : next? s with _ | ⟨a, t⟩
  · rw [pop_of_next?_eq_none hs, feed_of_next?_eq_none hs]
  · simp only [pop, hs]

/-- Taking an item goes where passing over it goes. -/
theorem pop_snd (s : σ) : (pop s).2 = drop 1 s := by
  rw [drop_succ]
  rfl

/-- **Passing over items is stepping**, once for each of them. -/
theorem drop_eq_iterate (n : Nat) (s : σ) : drop n s = (fun t : σ => (pop t).2)^[n] s := by
  induction n generalizing s with
  | zero => rfl
  | succ n ih => rw [drop_succ, ih, Function.iterate_succ_apply]

/-- To pass over `m + n` items is to pass over `m` of them and then over `n`. -/
theorem drop_add (m n : Nat) (s : σ) : drop (m + n) s = drop n (drop m s) := by
  rw [drop_eq_iterate, drop_eq_iterate, drop_eq_iterate, Nat.add_comm,
    Function.iterate_add_apply]

/-- Behind the last item there is nothing to pass over. -/
theorem drop_of_length_le {n : Nat} {s : σ} (h : (items s).length ≤ n) :
    drop n s = drop (items s).length s := by
  obtain ⟨m, rfl⟩ := Nat.exists_eq_add_of_le h
  have hend : next? (drop (items s).length s) = none := by
    apply next?_eq_none_of_items_eq_nil
    rw [items_drop, List.drop_length]
  rw [drop_add]
  exact congrArg Prod.snd (feed_of_next?_eq_none hend _ m ())

/-- **No more is passed over than there is.** -/
theorem drop_min_length (n : Nat) (s : σ) : drop (min n (items s).length) s = drop n s := by
  rcases Nat.le_total n (items s).length with h | h
  · rw [Nat.min_eq_left h]
  · rw [Nat.min_eq_right h, drop_of_length_le h]

/-! ## Cursors that hand out something else -/

/-- If one cursor steps like another one and hands out the images of its items, then its items are
the images. -/
theorem items_map {τ : Type} [Cursor τ β] {g : σ → τ} {f : α → β}
    (hstep : ∀ s, next? (g s) = (next? s).map fun r => (f r.1, g r.2)) (s : σ) :
    items (g s) = (items s).map f := by
  rcases hs : next? s with _ | ⟨a, t⟩
  · have hg : next? (g s) = none := by rw [hstep, hs]; rfl
    rw [items_of_none hs, items_of_none hg]
    rfl
  · have hg : next? (g s) = some (f a, g t) := by rw [hstep, hs]; rfl
    have hlt := size_lt hs
    rw [items_of_some hs, items_of_some hg, List.map_cons, items_map hstep t]
termination_by size s

/-- Under the same condition, passing over items commutes with the map of cursors. -/
theorem drop_map {τ : Type} [Cursor τ β] {g : σ → τ} {f : α → β}
    (hstep : ∀ s, next? (g s) = (next? s).map fun r => (f r.1, g r.2)) (n : Nat) (s : σ) :
    drop n (g s) = g (drop n s) := by
  have hpop : ∀ t, (pop (g t)).2 = g (pop t).2 := by
    intro t
    simp only [pop, hstep]
    rcases next? t with _ | ⟨a, u⟩ <;> rfl
  induction n generalizing s with
  | zero => rfl
  | succ n ih => rw [drop_succ, drop_succ, hpop, ih]

/-! ## Positions -/

/-- The items of a list whose positions are multiples of `n`. -/
def multiples (n : Nat) (as : List α) : List α :=
  (as.zipIdx.filter fun x => n ∣ x.2).map Prod.fst

/-- Counting positions from `j` on, the first multiple of `n` is `wait` items away. -/
theorem filter_zipIdx_eq_stride {n j wait : Nat} (hj : n ∣ j + wait) (hwait : wait < n)
    (as : List α) :
    ((as.zipIdx j).filter fun x => n ∣ x.2).map Prod.fst = stride n (as.drop wait) := by
  induction as generalizing j wait with
  | nil => simp [stride]
  | cons a as ih =>
    cases wait with
    | zero =>
      have hnext : n ∣ j + 1 + (n - 1) := by
        rw [show j + 1 + (n - 1) = j + n by omega]
        exact Nat.dvd_add hj (Nat.dvd_refl n)
      have hkeep : n ∣ j := by simpa using hj
      rw [List.zipIdx_cons, List.filter_cons_of_pos (by simpa using hkeep), List.map_cons,
        ih hnext (by omega), List.drop_zero, stride]
    | succ wait =>
      have hnext : n ∣ j + 1 + wait := by
        rwa [show j + 1 + wait = j + (wait + 1) by omega]
      have hdrop : ¬ n ∣ j := by
        intro hdvd
        have hle := Nat.le_of_dvd (Nat.succ_pos wait) ((Nat.dvd_add_right hdvd).mp hj)
        omega
      rw [List.zipIdx_cons, List.filter_cons_of_neg (by simpa using hdrop),
        ih hnext (by omega), List.drop_succ_cons]

/-- A stride through images keeps the images of what a stride keeps. -/
theorem stride_map (f : α → β) (n : Nat) (as : List α) :
    stride n (as.map f) = (stride n as).map f := by
  induction as using stride.induct n with
  | case1 => simp [stride]
  | case2 a as ih => rw [List.map_cons, stride, ← List.map_drop, ih, stride, List.map_cons]

/-- **A stride keeps the multiples.** -/
theorem stride_eq_multiples {n : Nat} (hn : 0 < n) (as : List α) :
    stride n as = multiples n as :=
  (filter_zipIdx_eq_stride (Nat.dvd_zero n) hn as).symm

end RangePattern.Cursor
