import RangePattern.Proofs.Rows
import RangePattern.Proofs.Stations

/-!
# How far a slot has come

An action leaves its slot behind the items it takes. So a list of actions leaves the slot behind the
items that they take together (`Slot.after_eq_drop`), however they were grouped: one item after the
other, a thousand at once, or with a last action that asked for more than was left.

The main statement is `Session.run_behind`: **the number of items taken determines the slot.** It
gives the state of a slot in closed form, anywhere in a session.
-/

namespace RangePattern

/-! ## Several actions -/

namespace Action

/-- How many items several actions take, one after the other. -/
def takenBy (style? : Option Style) (left : Nat) : List Action → Nat
  | [] => 0
  | a :: as =>
    let n := a.taken style? left
    n + takenBy style? (left - n) as

/-- They do not take more than there is. -/
theorem takenBy_le (style? : Option Style) (left : Nat) (as : List Action) :
    takenBy style? left as ≤ left := by
  induction as generalizing left with
  | nil => exact Nat.zero_le _
  | cons a as ih =>
    have ha := taken_le style? left a
    have has := ih (left - a.taken style? left)
    show a.taken style? left + _ ≤ left
    omega

end Action

/-- **Several actions leave a slot behind the items they take together.** -/
theorem Slot.after_eq_drop (s : Slot) (as : List Action) :
    s.after as = Cursor.drop (Action.takenBy s.style? (Cursor.items s).length as) s := by
  induction as generalizing s with
  | nil => rfl
  | cons a as ih =>
    have hlen : (Cursor.items (s.act a).2).length =
        (Cursor.items s).length - a.taken s.style? (Cursor.items s).length := by
      rw [act_snd_eq_drop, Cursor.items_drop, List.length_drop]
    have hstyle : (s.act a).2.style? = s.style? := by rw [act_snd_eq_drop, style?_drop]
    show (s.act a).2.after as = _
    rw [ih, hlen, hstyle, act_snd_eq_drop, ← Cursor.drop_add]
    rfl

/-! ## Slots in a session -/

/-- How many of its `left` items commands take from slot `i`, together. -/
def Command.takenBy (i : Nat) (style? : Option Style) (left : Nat) (cs : List Command) : Nat :=
  Action.takenBy style? left (actionsOn i cs)

namespace Session

/-- A run leaves a slot behind the items that it takes from it. -/
theorem getElem?_run_eq_drop {s : Session} {i : Nat} {slot : Slot} (hi : s[i]? = some slot)
    (cs : List Command) :
    (run s cs).2[i]? =
      some (Cursor.drop (Command.takenBy i slot.style? (Cursor.items slot).length cs) slot) := by
  rw [getElem?_run hi, Slot.after_eq_drop]
  rfl

/-- **The number of items taken determines the slot.** Let a slot of a session be a walk of `n`
terms that begins, over ordinals or under a listing. Whatever the session does, it takes some number
`c` of these terms, at most all of them. The walk is then behind `c` terms, the items left are those
behind the first `c` ones, and the style is as it was. While there are any left, the walk is one
that begins `c` increments on. And two runs that take equally many leave the very same slot. -/
theorem run_behind {s : Session} {i : Nat} {slot : Slot} {first last increment : Ordinal}
    (hi : s[i]? = some slot) (hslot : slot.progression = .between first last increment) :
    let n := (termCount first last increment).toNat
    (∀ cs, let c := Command.takenBy i slot.style? n cs
      ∃ t, (run s cs).2[i]? = some t ∧ t.style? = slot.style? ∧
        Cursor.items t = (Cursor.items slot).drop c ∧
        t.progression.Behind first last increment c ∧
        (c < n → ∃ o : Ordinal, o.toInt = first.toInt + c * increment.toInt ∧
          t.progression = .between o last increment)) ∧
      ∀ cs ds, Command.takenBy i slot.style? n cs = Command.takenBy i slot.style? n ds →
        (run s cs).2[i]? = (run s ds).2[i]? := by
  have hlen : (Cursor.items slot).length = (termCount first last increment).toNat := by
    have hexact : slot.Exact := by
      unfold Slot.Exact
      rw [hslot]
      exact Progression.fits_between first last increment
    rw [Slot.length_items hexact]
    rcases slot with p | l
    · exact congrArg Progression.length hslot
    · exact congrArg Progression.length hslot
  have hrun := getElem?_run_eq_drop hi
  rw [hlen] at hrun
  intro n
  refine ⟨fun cs => ?_, fun cs ds heq => ?_⟩
  · intro c
    have hc : c ≤ n := Action.takenBy_le _ _ _
    have hbehind : (Cursor.drop c slot).progression.Behind first last increment c := by
      rw [Slot.progression_drop, hslot]
      exact Progression.behind_drop hc
    refine ⟨Cursor.drop c slot, hrun cs, Slot.style?_drop c slot, Cursor.items_drop c slot,
      hbehind, fun hlt => ?_⟩
    exact ⟨_, hbehind.toInt_current hlt, hbehind.eq_between hlt⟩
  · rw [hrun, hrun, heq]

/-- The walk under a listing of two terms, the second of which is the last ordinal of all. -/
def edgeSlot : Slot := .texts ⟨.between 2147483645 2147483647 2, .decimal 0⟩

/-- `run_behind` at the upper end of the ordinals. -/
theorem run_behind_edge :
    (run [] [.openPattern "2147483645..2147483647..2"]).2[0]? = some edgeSlot ∧
      edgeSlot.progression = .between 2147483645 2147483647 2 ∧
      let n := (termCount 2147483645 2147483647 2).toNat
      (∀ cs, let c := Command.takenBy 0 edgeSlot.style? n cs
        ∃ t, (run (run [] [.openPattern "2147483645..2147483647..2"]).2 cs).2[0]? = some t ∧
          t.style? = edgeSlot.style? ∧ Cursor.items t = (Cursor.items edgeSlot).drop c ∧
          t.progression.Behind 2147483645 2147483647 2 c ∧
          (c < n → ∃ o : Ordinal, o.toInt = 2147483645 + c * 2 ∧
            t.progression = .between o 2147483647 2)) ∧
        ∀ cs ds,
          Command.takenBy 0 edgeSlot.style? n cs = Command.takenBy 0 edgeSlot.style? n ds →
          (run (run [] [.openPattern "2147483645..2147483647..2"]).2 cs).2[0]? =
            (run (run [] [.openPattern "2147483645..2147483647..2"]).2 ds).2[0]? := by
  have hopen : (run [] [.openPattern "2147483645..2147483647..2"]).2[0]? = some edgeSlot := by
    decide
  exact ⟨hopen, rfl, run_behind hopen rfl⟩

example :
    (run [edgeSlot] [.act 0 .next, .act 0 (.nth 5)]).2 =
      [.texts ⟨⟨2147483647, 2, 0⟩, .decimal 0⟩] := by decide

end Session

end RangePattern
