import Mathlib.Data.List.Forall2
import RangePattern.Proofs.Supply

/-!
# One walk, seen three ways

A pattern can be walked lazily, as a listing. It can be taken through its stages by hand: take it
apart, choose a style from the bounds, read the bounds in that style, walk along the ordinals, and
write down what the walk hands out. Or it can be expanded at once. Here the three are shown to be
one.

* `Staged` — what the stages make of a pattern when each of them is run by itself;
* `Slot.act_lockstep` — one step: asked the same thing, a slot that writes and a slot over the bare
  walk take the same number of items, and their replies are the same up to the style;
* `Session.run_lockstep` — so they keep in step however long they are asked.

The main statement is `Listing.keeps_in_step`. A listing never decides on its style again, and it
never takes more ordinals than it writes texts, so it cannot be told from the stages at any point
of the way.
-/

namespace RangePattern

/-! ## The stages, one by one -/

/-- What the stages make of a pattern. The pattern has these parts, its bounds choose the style,
and in this style they are read as the bounds of the range. -/
structure Staged (pattern : String) (parts : Parts) (range : Range) : Prop where
  /-- The pattern is taken apart. -/
  parts_eq : Parts.ofPattern pattern = .ok parts
  /-- The bounds, as they are spelled, choose the style. -/
  style_eq : range.style = .between parts.first parts.last
  /-- The first bound is read. -/
  first_eq : range.style.read parts.first = .ok range.first
  /-- The last bound is read. -/
  last_eq : range.style.read parts.last = .ok range.last
  /-- The increment has been read when the pattern was taken apart. -/
  increment_eq : range.increment = parts.increment

/-- Parts denote a range exactly if the style that the bounds choose reads both of them. -/
theorem Range.ofParts_eq_ok_iff_read {parts : Parts} {range : Range} :
    ofParts parts = .ok range ↔
      range.style = .between parts.first parts.last ∧
        range.style.read parts.first = .ok range.first ∧
        range.style.read parts.last = .ok range.last ∧ range.increment = parts.increment := by
  obtain ⟨style, first, last, increment⟩ := range
  unfold ofParts
  constructor
  · intro h
    dsimp only at h
    split at h
    · cases h
    · next s hs =>
      split at h
      · cases h
      · next e he =>
        cases h
        exact ⟨rfl, hs, he, rfl⟩
  · rintro ⟨rfl, hs, he, rfl⟩
    dsimp only at hs he ⊢
    rw [hs]
    dsimp only
    rw [he]

/-- **A pattern denotes what its stages come to.** -/
theorem Range.ofPattern_eq_ok_iff_staged {pattern : String} {range : Range} :
    ofPattern pattern = .ok range ↔ ∃ parts, Staged pattern parts range := by
  unfold ofPattern
  constructor
  · intro h
    split at h
    · cases h
    · next parts hparts =>
      obtain ⟨hstyle, hfirst, hlast, hinc⟩ := ofParts_eq_ok_iff_read.mp h
      exact ⟨parts, hparts, hstyle, hfirst, hlast, hinc⟩
  · rintro ⟨parts, hparts, hstyle, hfirst, hlast, hinc⟩
    rw [hparts]
    exact ofParts_eq_ok_iff_read.mpr ⟨hstyle, hfirst, hlast, hinc⟩

/-! ## One step -/

/-- Whether an action can be asked of every slot. Only texts have a style to ask for, and only
ordinals are still to be written in one. -/
def Action.isCommon : Action → Bool
  | style => false
  | write _ _ => false
  | _ => true

/-- How many items such an action takes does not depend on a style. -/
theorem Action.taken_of_isCommon {a : Action} (ha : a.isCommon = true) (left : Nat)
    (style style' : Option Style) : a.taken style left = a.taken style' left := by
  cases a with
  | every n => cases n <;> rfl
  | write n s => exact absurd ha Bool.false_ne_true
  | _ => rfl

/-- The reply over ordinals, with the ordinals written in a style. -/
def Reply.inStyle (style : Style) : Reply → Reply
  | item a => .item (a.map fun x => .text (x.written style))
  | items as => .items (as.map fun x => .text (x.written style))
  | reply => reply

namespace Slot

/-- The items of a slot over texts are those of its walk, written. -/
theorem items_texts_eq_written (p : Progression) (style : Style) :
    Cursor.items (texts ⟨p, style⟩) =
      (Cursor.items (ordinals p)).map fun a => .text (a.written style) := by
  rw [items_texts, Listing.items_eq_map, items_ordinals, List.map_map, List.map_map]
  rfl

/-- **The replies are the same up to the style.** -/
theorem act_fst_texts (p : Progression) (style : Style) {a : Action} (ha : a.isCommon = true) :
    ((texts ⟨p, style⟩).act a).1 = ((ordinals p).act a).1.inStyle style := by
  have hitems := items_texts_eq_written p style
  cases a with
  | next =>
    show Reply.item (Cursor.pop (texts ⟨p, style⟩)).1 = .item _
    rw [Cursor.pop_fst, Cursor.pop_fst, hitems, List.head?_map]
  | nth n =>
    show Reply.item (Cursor.nth n (texts ⟨p, style⟩)).1 = .item _
    rw [Cursor.nth_fst, Cursor.nth_fst, hitems, List.getElem?_map]
  | take n =>
    show Reply.items (Cursor.take n (texts ⟨p, style⟩)).1 = .items _
    rw [Cursor.take_fst, Cursor.take_fst, hitems, List.map_take]
  | every n =>
    rcases n with _ | n
    · rfl
    · show Reply.items (Cursor.every (n + 1) (texts ⟨p, style⟩)).1 = .items _
      rw [Cursor.every_fst, Cursor.every_fst, hitems, Cursor.stride_map]
  | collect =>
    show Reply.items (Cursor.collect (texts ⟨p, style⟩)).1 = .items _
    rw [Cursor.collect_fst, Cursor.collect_fst, hitems]
  | count =>
    show Reply.number (Cursor.count (texts ⟨p, style⟩)).1 = .number _
    rw [Cursor.count_fst, Cursor.count_fst, hitems, List.length_map]
  | last =>
    show Reply.item (Cursor.last (texts ⟨p, style⟩)).1 = .item _
    rw [Cursor.last_fst, Cursor.last_fst, hitems, List.getLast?_map]
  | length => rfl
  | bounds => rfl
  | style => exact absurd ha Bool.false_ne_true
  | write n s => exact absurd ha Bool.false_ne_true

/-- **One step.** Asked the same thing, a slot over texts and a slot over the walk under it go on to
the same place of that walk, and the one replies in the style what the other replies bare. -/
theorem act_lockstep (p : Progression) (style : Style) {a : Action} (ha : a.isCommon = true) :
    ∃ q : Progression, ((ordinals p).act a).2 = ordinals q ∧
      ((texts ⟨p, style⟩).act a).2 = texts ⟨q, style⟩ ∧
      ((texts ⟨p, style⟩).act a).1 = ((ordinals p).act a).1.inStyle style := by
  refine ⟨Cursor.drop (a.taken none (Cursor.items (ordinals p)).length) p, ?_, ?_,
    act_fst_texts p style ha⟩
  · rw [act_snd_eq_drop, drop_ordinals]
    rfl
  · rw [act_snd_eq_drop, drop_texts, items_texts_eq_written, List.length_map]
    show texts ⟨Cursor.drop (a.taken (some style) _) p, style⟩ = _
    rw [Action.taken_of_isCommon ha _ (some style) none]

end Slot

/-! ## Any number of steps -/

/-- Two answers in step: one is over a walk, the other one over the same walk, at the same place,
with the style, and what it replies is the reply of the first one in that style. -/
structure Answer.InStep (style : Style) (bare written : Answer) : Prop where
  /-- The replies are the same up to the style. -/
  reply_eq : written.reply = bare.reply.inStyle style
  /-- The walk is the same, and the style is the one they began with. -/
  slot_eq : ∃ p, bare.slot = some (.ordinals p) ∧ written.slot = some (.texts ⟨p, style⟩)

/-- **Any number of steps.** By induction, the two slots stay in step with each other. -/
theorem Session.run_lockstep (p : Progression) (style : Style) {as : List Action}
    (has : ∀ a ∈ as, a.isCommon = true) :
    List.Forall₂ (Answer.InStep style) (run [.ordinals p] (as.map (.act 0))).1
      (run [.texts ⟨p, style⟩] (as.map (.act 0))).1 := by
  induction as generalizing p with
  | nil => exact .nil
  | cons a as ih =>
    obtain ⟨ha, has⟩ := List.forall_mem_cons.mp has
    obtain ⟨q, hbare, hwritten, hreply⟩ := Slot.act_lockstep p style ha
    have hrun : ∀ slot : Slot, (run [slot] ((a :: as).map (.act 0))).1 =
        ⟨(slot.act a).1, some (slot.act a).2⟩ :: (run [(slot.act a).2] (as.map (.act 0))).1 :=
      fun _ => rfl
    rw [hrun, hrun, hbare, hwritten]
    exact .cons ⟨hreply, q, rfl, rfl⟩ (ih q has)

/-- What it is for a listing of a pattern to be in step with a bare walk and a style. -/
structure Listing.InStepWith (pattern : String) (walk : Progression) (style : Style)
    (l : Listing) : Prop where
  /-- The listing begins where the walk begins. -/
  begins : l = ⟨walk, style⟩
  /-- Asked any number of things, one after the other, the listing and the walk are in step after
  each of them. -/
  answers : ∀ as : List Action, (∀ a ∈ as, a.isCommon = true) →
    List.Forall₂ (Answer.InStep style) (Session.run [.ordinals walk] (as.map (.act 0))).1
      (Session.run [.texts l] (as.map (.act 0))).1
  /-- What is collected is the expansion of the pattern: from the listing, from the walk by writing
  down what was collected, and from the walk when it is asked to write. -/
  collects : ∃ items, expand pattern = .ok items ∧ (Cursor.collect l).1 = items ∧
    style.writeAll (Cursor.collect walk).1 = items ∧
    ∀ n, walk.length ≤ n → (Slot.act (.ordinals walk) (.write n style)).1 = .written items

/-- **One walk, seen three ways.** Let a pattern be opened as a listing, and let its stages be run
one by one. They come to a range, and the listing is in step with the walk along this range and the
style of it, whatever the two are asked and however often. -/
theorem Listing.keeps_in_step {pattern : String} {l : Listing}
    (hopen : Listing.ofPattern pattern = .ok l) :
    ∃ parts range, Staged pattern parts range ∧
      l.InStepWith pattern (.between range.first range.last range.increment) range.style := by
  obtain ⟨range, hden, rfl⟩ := Listing.ofPattern_eq_ok_iff.mp hopen
  obtain ⟨parts, hstaged⟩ :=
    Range.ofPattern_eq_ok_iff_staged.mp (Range.ofPattern_eq_ok_iff.mpr hden)
  refine ⟨parts, range, hstaged, rfl, ?_, ?_⟩
  · intro as has
    exact Session.run_lockstep _ _ has
  · have hexpand := expand_eq_ok_iff.mpr ⟨range, hden, rfl⟩
    have hcollect : range.style.writeAll (Cursor.collect range.progression).1 = range.items := by
      rw [Cursor.collect_fst, Style.writeAll, Range.items_eq_map]
    refine ⟨range.items, hexpand, rfl, hcollect, ?_⟩
    intro n hn
    have hfits : range.progression.Fits := Progression.fits_between _ _ _
    have hlen : (Cursor.items range.progression).length ≤ n :=
      (Progression.length_items hfits).trans_le hn
    show Reply.written (range.style.writeAll (Cursor.take n range.progression).1) = _
    rw [Cursor.take_fst, List.take_of_length_le hlen, Style.writeAll, ← Range.items_eq_map]

/-- `Listing.keeps_in_step` where a bound asks for two characters and the step behind the second
item leaves the ordinals. -/
theorem Listing.keeps_in_step_downwards :
    Listing.ofPattern "08..-2147483648..-2147483648" =
        .ok ⟨⟨8, -2147483648, 2⟩, .decimal 2⟩ ∧
      ∃ parts range, Staged "08..-2147483648..-2147483648" parts range ∧
        Listing.InStepWith "08..-2147483648..-2147483648"
          (.between range.first range.last range.increment) range.style
          ⟨⟨8, -2147483648, 2⟩, .decimal 2⟩ := by
  have hopen : Listing.ofPattern "08..-2147483648..-2147483648" =
      .ok ⟨⟨8, -2147483648, 2⟩, .decimal 2⟩ := by decide
  exact ⟨hopen, Listing.keeps_in_step hopen⟩

example :
    (Session.run [.texts ⟨⟨8, -2147483648, 2⟩, .decimal 2⟩] [.act 0 .next, .act 0 (.nth 3)]).1 =
      [⟨.item (some (.text "08")), some (.texts ⟨⟨-2147483640, -2147483648, 1⟩, .decimal 2⟩)⟩,
        ⟨.item none, some (.texts ⟨⟨-2147483640, -2147483648, 0⟩, .decimal 2⟩)⟩] := by
  decide

end RangePattern
