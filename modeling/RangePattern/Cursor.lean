/-!
# Cursors: what can be walked item by item

A **cursor** is a value that hands out its next item together with the cursor behind it, and that
comes to an end. Its `size` bounds what is left: it falls with every item, and it is zero exactly
at the end. Nothing else is asked, so a cursor is an ordinary value. A copy of it walks on its own,
and a cursor at its end stays there.

Every operation is one pass, `feed f n`, which hands at most `n` items to an accumulating function:

* `pop` and `nth` — one item, at once or behind `n` others;
* `take` and `drop` — the next `n` items, or all if there are fewer, and nothing behind them;
* `fold`, `collect`, `count`, `last`, `every` — everything that is left.
-/

namespace RangePattern

/-- A value that hands out items one by one and comes to an end. -/
class Cursor (σ : Type) (α : outParam Type) where
  /-- The next item and the cursor behind it, or nothing at the end. -/
  next? : σ → Option (α × σ)
  /-- A bound on the number of items left. -/
  size : σ → Nat
  /-- The end is where nothing is left. -/
  next?_eq_none_iff : ∀ s, next? s = none ↔ size s = 0
  /-- Less is left behind an item. -/
  size_lt : ∀ {s a t}, next? s = some (a, t) → size t < size s

namespace Cursor

variable {σ α β : Type} [Cursor σ α]

/-! ### The pass -/

/-- Hands the next `n` items to `f`, or all of them if there are fewer. -/
@[specialize] def feed (f : β → α → β) : Nat → β → σ → β × σ
  | 0, b, s => (b, s)
  | n + 1, b, s =>
    match next? s with
    | none => (b, s)
    | some (a, t) => feed f n (f b a) t

/-! ### One item -/

/-- The next item, if there is one. At its end a cursor does not move. -/
def pop (s : σ) : Option α × σ :=
  match next? s with
  | none => (none, s)
  | some (a, t) => (some a, t)

/-- The cursor behind the next `n` items. -/
def drop (n : Nat) (s : σ) : σ := (feed (fun u _ => u) n () s).2

/-- The item behind the next `n` items, if there is one. -/
def nth (n : Nat) (s : σ) : Option α × σ := pop (drop n s)

/-! ### Several items -/

/-- The next `n` items, or all of them if there are fewer. -/
def take (n : Nat) (s : σ) : List α × σ :=
  let r := feed (fun as a => a :: as) n [] s
  (r.1.reverse, r.2)

/-- Hands all items to `f`. -/
def fold (f : β → α → β) (b : β) (s : σ) : β × σ := feed f (size s) b s

/-- All items. -/
def collect (s : σ) : List α × σ := take (size s) s

/-- The number of items. -/
def count (s : σ) : Nat × σ := fold (fun n _ => n + 1) 0 s

/-- The last item, if there is one. -/
def last (s : σ) : Option α × σ := fold (fun _ a => some a) none s

/-- Keeps an item when `wait` has run down, and then waits for `n - 1` others. -/
def thin (n : Nat) (r : Nat × List α) (a : α) : Nat × List α :=
  match r with
  | (0, kept) => (n - 1, a :: kept)
  | (wait + 1, kept) => (wait, kept)

/-- The items at the positions `0`, `n`, `2 * n` and so on, until the end. -/
def every (n : Nat) (s : σ) : List α × σ :=
  let r := fold (thin n) (0, []) s
  (r.1.2.reverse, r.2)

end Cursor

end RangePattern
