import RangePattern.Cursor

/-!
# The items of a cursor

The view of a cursor is the list of its `items`, everything that it will hand out. Each operation
is described by what it answers and by what it leaves, both in terms of that list:

| operation | answers | leaves |
|---|---|---|
| `pop` | the head | the tail |
| `nth n` | the item at `n` | what is behind it |
| `take n` | the first `n` items | the others |
| `collect`, `count`, `last` | the list, its length, its last item | nothing |
| `every n` | the items at `0`, `n`, `2 * n` and so on | nothing |

All of it follows from `feed_fst` and `items_feed`: **feeding is folding**, the one pass folds the
items that it is allowed to see and leaves the others. A third law, `feed_snd`, says that where the
pass comes to rest depends on how many items it takes and not on what is done with them.
-/

namespace RangePattern.Cursor

variable {σ α β : Type} [Cursor σ α]

/-! ### The view -/

/-- Everything that is left, as a list. -/
def items (s : σ) : List α :=
  match _h : next? s with
  | none => []
  | some (a, t) => a :: items t
termination_by size s
decreasing_by exact size_lt _h

/-- A cursor at its end has no items. -/
theorem items_of_none {s : σ} (h : next? s = none) : items s = [] := by
  rw [items]
  split <;> simp_all

/-- Any other cursor has the next item and those of the cursor behind it. -/
theorem items_of_some {s t : σ} {a : α} (h : next? s = some (a, t)) : items s = a :: items t := by
  rw [items]
  split <;> simp_all

/-- The size bounds the number of items. -/
theorem length_items_le (s : σ) : (items s).length ≤ size s := by
  cases h : next? s with
  | none => simp [items_of_none h]
  | some r =>
    have ih := length_items_le r.2
    have hlt := size_lt h
    simp only [items_of_some h, List.length_cons]
    omega
termination_by size s
decreasing_by exact size_lt h

/-! ### Feeding is folding -/

/-- The pass folds the items it is allowed to see. -/
theorem feed_fst (f : β → α → β) (n : Nat) (b : β) (s : σ) :
    (feed f n b s).1 = ((items s).take n).foldl f b := by
  induction n generalizing b s with
  | zero => simp [feed]
  | succ n ih =>
    rw [feed]
    split
    · next h => simp [items_of_none h]
    · next h => simp [items_of_some h, ih]

/-- The pass leaves the other items. -/
theorem items_feed (f : β → α → β) (n : Nat) (b : β) (s : σ) :
    items (feed f n b s).2 = (items s).drop n := by
  induction n generalizing b s with
  | zero => simp [feed]
  | succ n ih =>
    rw [feed]
    split
    · next h => simp [items_of_none h]
    · next h => simp [items_of_some h, ih]

/-- Where the pass comes to rest depends on the number of items, not on what is done with them. -/
theorem feed_snd {γ : Type} (f : β → α → β) (g : γ → α → γ) (n : Nat) (b : β) (c : γ) (s : σ) :
    (feed f n b s).2 = (feed g n c s).2 := by
  induction n generalizing b c s with
  | zero => rfl
  | succ n ih =>
    rw [feed, feed]
    split
    · rfl
    · exact ih _ _ _

/-! ### One item -/

/-- The next item is the head of the list. -/
theorem pop_fst (s : σ) : (pop s).1 = (items s).head? := by
  unfold pop
  split
  · next h => simp [items_of_none h]
  · next h => simp [items_of_some h]

/-- Behind it the tail is left. -/
theorem items_pop (s : σ) : items (pop s).2 = (items s).tail := by
  unfold pop
  split
  · next h => simp [items_of_none h]
  · next h => simp [items_of_some h]

/-- Passing over items drops them from the list. -/
theorem items_drop (n : Nat) (s : σ) : items (drop n s) = (items s).drop n :=
  items_feed _ n () s

/-- The item behind `n` others stands at `n`. -/
theorem nth_fst (n : Nat) (s : σ) : (nth n s).1 = (items s)[n]? := by
  rw [nth, pop_fst, items_drop, List.head?_drop]

/-- Behind it the list is left without `n + 1` items. -/
theorem items_nth (n : Nat) (s : σ) : items (nth n s).2 = (items s).drop (n + 1) := by
  rw [nth, items_pop, items_drop, List.tail_drop]

/-! ### Several items -/

/-- What is taken are the first `n` items. -/
theorem take_fst (n : Nat) (s : σ) : (take n s).1 = (items s).take n := by
  simp [take, feed_fst, List.foldl_flip_cons_eq_append]

/-- The others are left. -/
theorem items_take (n : Nat) (s : σ) : items (take n s).2 = (items s).drop n :=
  items_feed _ n [] s

/-- All items are folded, since there are no more of them than the size says. -/
theorem fold_fst (f : β → α → β) (b : β) (s : σ) : (fold f b s).1 = (items s).foldl f b := by
  rw [fold, feed_fst, List.take_of_length_le (length_items_le s)]

/-- Nothing is left behind them. -/
theorem items_fold (f : β → α → β) (b : β) (s : σ) : items (fold f b s).2 = [] := by
  rw [fold, items_feed, List.drop_of_length_le (length_items_le s)]

/-- **What is collected is the list of the items.** -/
theorem collect_fst (s : σ) : (collect s).1 = items s := by
  rw [collect, take_fst, List.take_of_length_le (length_items_le s)]

/-- Nothing is left to collect. -/
theorem items_collect (s : σ) : items (collect s).2 = [] := by
  rw [collect, items_take, List.drop_of_length_le (length_items_le s)]

/-- What is counted is the length of the list. -/
theorem count_fst (s : σ) : (count s).1 = (items s).length := by
  rw [count, fold_fst, List.foldl_add_const, Nat.zero_add, Nat.one_mul]

/-- Nothing is left to count. -/
theorem items_count (s : σ) : items (count s).2 = [] := items_fold _ 0 s

/-- To keep the item seen last is to end with the last item, if there is one. -/
theorem foldl_some (as : List α) (o : Option α) :
    as.foldl (fun _ a => some a) o = as.getLast?.or o := by
  induction as generalizing o with
  | nil => rfl
  | cons a as ih => simp [ih, List.getLast?_cons]

/-- The last item is that of the list. -/
theorem last_fst (s : σ) : (last s).1 = (items s).getLast? := by
  rw [last, fold_fst, foldl_some, Option.or_none]

/-- Nothing is left behind the last item. -/
theorem items_last (s : σ) : items (last s).2 = [] := items_fold _ none s

/-! ### Every item at a multiple -/

/-- The items at the positions `0`, `n`, `2 * n` and so on of a list. -/
def stride (n : Nat) : List α → List α
  | [] => []
  | a :: as => a :: stride n (as.drop (n - 1))
termination_by as => as.length
decreasing_by simp only [List.length_drop, List.length_cons]; omega

/-- Thinning a list out keeps the items of a stride, from the first one on that is not waited
for. -/
theorem foldl_thin (n wait : Nat) (kept as : List α) :
    (as.foldl (thin n) (wait, kept)).2.reverse = kept.reverse ++ stride n (as.drop wait) := by
  induction as generalizing wait kept with
  | nil => simp [stride]
  | cons a as ih =>
    cases wait with
    | zero => simp [thin, ih, stride]
    | succ wait => simp [thin, ih]

/-- What is kept of all items is a stride of the list. -/
theorem every_fst (n : Nat) (s : σ) : (every n s).1 = stride n (items s) := by
  simp [every, fold_fst, foldl_thin]

/-- Nothing is left behind it. -/
theorem items_every (n : Nat) (s : σ) : items (every n s).2 = [] :=
  items_fold (thin n) (0, []) s

end RangePattern.Cursor
