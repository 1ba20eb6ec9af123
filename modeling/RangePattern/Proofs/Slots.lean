import RangePattern.Proofs.Cursors
import RangePattern.Proofs.Expansion
import RangePattern.Session

/-!
# What actions leave

A slot is a walk along ordinals, plain or with a style to write them in. It steps the way that walk
does (`Slot.next?_ordinals`, `Slot.next?_texts`), and so everything that is known of walks is known
of slots.

Actions differ in what they answer, but what they leave is decided by a number alone:

* `Action.taken` — how many items an action takes; one that asks for more than there is takes what
  there is;
* `Slot.act_snd_eq_drop` — **an action leaves its slot behind the items it takes.** No action does
  anything else to a slot.
-/

namespace RangePattern

/-! ## Slots over walks -/

namespace Slot

/-- How the items of a slot are written; none for ordinals. -/
def style? : Slot → Option Style
  | ordinals _ => none
  | texts l => some l.style

/-- The walk along the ordinals under a slot. -/
def progression : Slot → Progression
  | ordinals p => p
  | texts l => l.progression

/-- Every term left is an ordinal. -/
def Exact (s : Slot) : Prop := s.progression.Fits

/-- A slot over ordinals steps the way its walk does. -/
theorem next?_ordinals (p : Progression) :
    Cursor.next? (ordinals p) =
      (Cursor.next? p).map fun r => (Item.ordinal r.1, ordinals r.2) := by
  show Slot.next? (ordinals p) = p.next?.map _
  simp only [Slot.next?]
  rcases p.next? with _ | ⟨o, q⟩ <;> rfl

/-- A slot over texts steps the way its listing does. -/
theorem next?_texts (l : Listing) :
    Cursor.next? (texts l) = (Cursor.next? l).map fun r => (Item.text r.1, texts r.2) := by
  show Slot.next? (texts l) = l.next?.map _
  simp only [Slot.next?]
  rcases l.next? with _ | ⟨t, m⟩ <;> rfl

/-! ### Items -/

/-- A slot over ordinals hands out the items of its walk. -/
theorem items_ordinals (p : Progression) :
    Cursor.items (ordinals p) = (Cursor.items p).map Item.ordinal :=
  Cursor.items_map next?_ordinals p

/-- A slot over texts hands out the items of its listing. -/
theorem items_texts (l : Listing) :
    Cursor.items (texts l) = (Cursor.items l).map Item.text :=
  Cursor.items_map next?_texts l

/-- **The length is exact.** -/
theorem length_items {s : Slot} (h : s.Exact) : (Cursor.items s).length = s.length := by
  rcases s with p | l
  · rw [items_ordinals, List.length_map]
    exact Progression.length_items h
  · rw [items_texts, Listing.items_eq_map, List.length_map, List.length_map]
    exact Progression.length_items h

/-! ### Slots behind some of their items -/

/-- A slot over ordinals is left where its walk is left. -/
theorem drop_ordinals (n : Nat) (p : Progression) :
    Cursor.drop n (ordinals p) = ordinals (Cursor.drop n p) :=
  Cursor.drop_map next?_ordinals n p

/-- So is a slot over texts, with the style that it had. -/
theorem drop_texts (n : Nat) (l : Listing) :
    Cursor.drop n (texts l) = texts ⟨Cursor.drop n l.progression, l.style⟩ := by
  rw [Cursor.drop_map next?_texts n l, Listing.drop_eq_mk]

/-- The walk under a slot goes on as the slot does. -/
theorem progression_drop (n : Nat) (s : Slot) :
    (Cursor.drop n s).progression = Cursor.drop n s.progression := by
  rcases s with p | l
  · rw [drop_ordinals]
    rfl
  · rw [drop_texts]
    rfl

/-- The style stays as it is. -/
theorem style?_drop (n : Nat) (s : Slot) : (Cursor.drop n s).style? = s.style? := by
  rcases s with p | l
  · rw [drop_ordinals]
    rfl
  · rw [drop_texts]
    rfl

/-- **Passing over items keeps the invariant**, since every step of the walk does. -/
theorem Exact.drop {s : Slot} (h : s.Exact) (n : Nat) : (Cursor.drop n s).Exact := by
  unfold Exact
  rw [progression_drop]
  exact Cursor.feed_keeps Progression.Fits.of_next? _ n () h

end Slot

/-! ## What actions take -/

namespace Action

/-- How many items an action takes from a slot with `left` items. Reading off the length or the
style takes none, and neither does what is refused: a stride of zero, and writing the items of a
slot that already have a style. -/
def taken (style? : Option Style) (left : Nat) : Action → Nat
  | next => min 1 left
  | nth n => min (n + 1) left
  | take n => min n left
  | every 0 => 0
  | every _ => left
  | collect => left
  | count => left
  | last => left
  | length => 0
  | bounds => 0
  | style => 0
  | write n _ =>
    match style? with
    | some _ => 0
    | none => min n left

/-- No action takes more than there is. -/
theorem taken_le (style? : Option Style) (left : Nat) : ∀ a : Action, a.taken style? left ≤ left
  | next => Nat.min_le_right _ _
  | nth _ => Nat.min_le_right _ _
  | take _ => Nat.min_le_right _ _
  | every 0 => Nat.zero_le _
  | every (_ + 1) => Nat.le_refl _
  | collect => Nat.le_refl _
  | count => Nat.le_refl _
  | last => Nat.le_refl _
  | length => Nat.zero_le _
  | bounds => Nat.zero_le _
  | style => Nat.zero_le _
  | write n _ => by
    rcases style? with _ | style
    · exact Nat.min_le_right n left
    · exact Nat.zero_le left

end Action

namespace Slot

/-- **An action leaves a slot behind the items it takes.** -/
theorem act_snd_eq_drop (s : Slot) (a : Action) :
    (s.act a).2 = Cursor.drop (a.taken s.style? (Cursor.items s).length) s := by
  -- Whatever takes everything passes over as many items as the size says.
  have hall : Cursor.drop (Cursor.size s) s = Cursor.drop (Cursor.items s).length s :=
    Cursor.drop_of_length_le (Cursor.length_items_le s)
  have hfeed : ∀ {β : Type} (f : β → Item → β) (n : Nat) (b : β),
      (Cursor.feed f n b s).2 = Cursor.drop n s :=
    fun f n b => Cursor.feed_snd f _ n b () s
  cases a with
  | next => exact (Cursor.pop_snd s).trans (Cursor.drop_min_length 1 s).symm
  | nth n =>
    show (Cursor.pop (Cursor.drop n s)).2 = Cursor.drop (min (n + 1) _) s
    rw [Cursor.drop_min_length, Cursor.drop_add, Cursor.pop_snd]
  | take n => exact (hfeed _ n []).trans (Cursor.drop_min_length n s).symm
  | every n =>
    rcases n with _ | n
    · rfl
    · exact (hfeed (Cursor.thin (n + 1)) _ (0, [])).trans hall
  | collect => exact (hfeed _ _ []).trans hall
  | count => exact (hfeed _ _ 0).trans hall
  | last => exact (hfeed _ _ none).trans hall
  | length => rfl
  | bounds => rfl
  | style => rcases s with p | l <;> rfl
  | write n style =>
    rcases s with p | l
    · show ordinals (Cursor.feed _ n [] p).2 = Cursor.drop (min n _) (ordinals p)
      rw [Cursor.drop_min_length, drop_ordinals, Cursor.feed_snd _ (fun u _ => u) n [] ()]
      rfl
    · rfl

/-- From a slot without items no action takes any, so it stays as it is. -/
theorem act_snd_of_items_eq_nil {s : Slot} (h : Cursor.items s = []) (a : Action) :
    (s.act a).2 = s := by
  have hnone : a.taken s.style? (Cursor.items s).length = 0 := by
    have hle := Action.taken_le s.style? (Cursor.items s).length a
    rw [h] at hle ⊢
    exact Nat.le_zero.mp hle
  rw [act_snd_eq_drop, hnone]
  rfl

end Slot

end RangePattern
