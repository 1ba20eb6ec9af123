import RangePattern.Proofs.Supply

/-!
# Sessions as rows of lists

`Supplies` is a session whose slots are lists: a row of them, with the same commands. Forgetting
the numbers in every slot turns a session into such a row, and each command into the command of the
row (`Session.step_refines`). By induction this holds for runs.

A slot is changed by the actions that are asked of it, and by nothing else that a session does
(`Session.getElem?_run`). So a slot at its end stays there (`Session.getElem?_run_of_exhausted`).

The main statement is `Session.run_refines`: **a session cannot be told from a row of lists.**
-/

namespace RangePattern

/-! ## Rows of lists -/

/-- A row of supplies. -/
abbrev Supplies := List Supply

/-- Whether a command compares slots. The items to come do not decide the answer to that, since
two walks can differ and have the same term left. -/
def Command.isComparison : Command → Bool
  | compare .. => true
  | _ => false

namespace Supplies

/-- Carries out one command. Comparisons are not asked for. -/
def step (s : Supplies) : Command → Reply × Supplies
  | .openOrdinals first last increment =>
    (.opened s.length, s ++ [.ofWalk first last increment])
  | .openPattern pattern =>
    match Range.ofPattern pattern with
    | .ok range => (.opened s.length, s ++ [.ofRange range])
    | .error fault => (.faulty fault, s)
  | .copy i =>
    match s[i]? with
    | some supply => (.opened s.length, s ++ [supply])
    | none => (.refused, s)
  | .act i action =>
    match s[i]? with
    | some supply =>
      let r := supply.act action
      (r.1, s.set i r.2)
    | none => (.refused, s)
  | .compare _ _ => (.refused, s)

/-- Carries out commands one after the other. -/
def run (s : Supplies) : List Command → List Reply × Supplies
  | [] => ([], s)
  | c :: cs =>
    let r := s.step c
    let t := run r.2 cs
    (r.1 :: t.1, t.2)

end Supplies

/-! ## From sessions to rows of lists -/

namespace Session

/-- The row of lists that a session stands for. -/
def supplies (s : Session) : Supplies := s.map Slot.supply

/-- In every slot, the terms left are ordinals. -/
def Exact (s : Session) : Prop := ∀ slot ∈ s, slot.Exact

/-- A session without slots has no terms left at all. -/
theorem exact_nil : Exact [] := fun _ h => absurd h List.not_mem_nil

/-- A slot that is opened is the list that is opened, and it keeps the invariant. -/
theorem push_refines {s : Session} (h : s.Exact) (slot : Slot) (hslot : slot.Exact) :
    (s.push slot).1.reply = .opened s.supplies.length ∧
      (s.push slot).2.supplies = s.supplies ++ [slot.supply] ∧ (s.push slot).2.Exact := by
  refine ⟨?_, List.map_append, ?_⟩
  · show Reply.opened s.length = _
    rw [supplies, List.length_map]
  · intro t ht
    rcases List.mem_append.mp ht with ht | ht
    · exact h t ht
    · rw [List.mem_singleton.mp ht]
      exact hslot

/-- **A command is the command of the lists**: the same reply, and the same lists afterwards. The
invariant is kept, too. -/
theorem step_refines {s : Session} (h : s.Exact) {c : Command} (hc : c.isComparison = false) :
    (s.step c).1.reply = (s.supplies.step c).1 ∧
      (s.step c).2.supplies = (s.supplies.step c).2 ∧ (s.step c).2.Exact := by
  have hget : ∀ i, s.supplies[i]? = s[i]?.map Slot.supply := fun i => List.getElem?_map
  cases c with
  | openOrdinals first last increment =>
    have hpush := push_refines h (.ordinals (.between first last increment))
      (Progression.fits_between first last increment)
    rwa [Slot.supply_between] at hpush
  | openPattern pattern =>
    simp only [step, Supplies.step, Listing.ofPattern]
    rcases Range.ofPattern pattern with fault | range
    · exact ⟨rfl, rfl, h⟩
    · have hpush := push_refines h (.texts range.listing)
        (Progression.fits_between range.first range.last range.increment)
      rwa [Slot.supply_listing] at hpush
  | copy i =>
    simp only [step, Supplies.step, hget]
    rcases hi : s[i]? with _ | slot
    · exact ⟨rfl, rfl, h⟩
    · exact push_refines h slot (h slot (List.mem_of_getElem? hi))
  | act i action =>
    simp only [step, Supplies.step, hget]
    rcases hi : s[i]? with _ | slot
    · exact ⟨rfl, rfl, h⟩
    · obtain ⟨hreply, hsupply, hexact⟩ :=
        Slot.act_refines (h slot (List.mem_of_getElem? hi)) action
      refine ⟨hreply, ?_, ?_⟩
      · show (s.set i (slot.act action).2).map Slot.supply = _
        rw [List.map_set, hsupply]
        rfl
      · intro t ht
        rcases List.mem_or_eq_of_mem_set ht with ht | rfl
        · exact h t ht
        · exact hexact
  | compare i j => cases hc

/-- By induction, a run is the run of the lists. -/
theorem supplies_run {s : Session} (h : s.Exact) {cs : List Command}
    (hcs : ∀ c ∈ cs, c.isComparison = false) :
    (run s cs).1.map Answer.reply = (s.supplies.run cs).1 ∧
      (run s cs).2.supplies = (s.supplies.run cs).2 ∧ (run s cs).2.Exact := by
  induction cs generalizing s with
  | nil => exact ⟨rfl, rfl, h⟩
  | cons c cs ih =>
    obtain ⟨hreply, hstep, hexact⟩ := step_refines h (hcs c List.mem_cons_self)
    obtain ⟨hreplies, hrun, hexact'⟩ := ih hexact fun d hd => hcs d (List.mem_cons_of_mem c hd)
    rw [hstep] at hreplies hrun
    refine ⟨?_, hrun, hexact'⟩
    show (s.step c).1.reply :: _ = (s.supplies.step c).1 :: _
    rw [hreply, hreplies]

end Session

/-! ## One slot of a session -/

/-- The slot behind some actions. -/
def Slot.after (slot : Slot) (actions : List Action) : Slot :=
  actions.foldl (fun t a => (t.act a).2) slot

/-- What a command asks of slot `i`, if it asks anything of it. -/
def Command.actionOn (i : Nat) : Command → Option Action
  | act j action => if j = i then some action else none
  | _ => none

/-- What commands ask of slot `i`, in order. -/
def Command.actionsOn (i : Nat) (cs : List Command) : List Action :=
  cs.filterMap (actionOn i)

namespace Session

/-- **A command changes a slot by acting on it** and in no other way: opening, copying and comparing
slots, and acting on other ones, leaves it as it is. -/
theorem getElem?_step {s : Session} {i : Nat} {slot : Slot} (hi : s[i]? = some slot)
    (c : Command) : (s.step c).2[i]? = some (slot.after (c.actionOn i).toList) := by
  have hlt := (List.getElem?_eq_some_iff.mp hi).1
  have hpush : ∀ t, (s.push t).2[i]? = some slot := by
    intro t
    show (s ++ [t])[i]? = some slot
    rw [List.getElem?_append_left hlt, hi]
  cases c with
  | openOrdinals first last increment => exact hpush _
  | openPattern pattern =>
    simp only [step]
    split
    · exact hpush _
    · exact hi
  | copy j =>
    simp only [step]
    split
    · exact hpush _
    · exact hi
  | act j action =>
    simp only [step, Command.actionOn]
    by_cases hij : j = i
    · subst hij
      rw [if_pos rfl, hi]
      exact List.getElem?_set_self hlt
    · rw [if_neg hij]
      split
      · exact (List.getElem?_set_ne hij).trans hi
      · exact hi
  | compare j k =>
    simp only [step]
    split <;> exact hi

/-- By induction, what a run leaves in a slot is what the actions on this slot leave. -/
theorem getElem?_run {s : Session} {i : Nat} {slot : Slot} (hi : s[i]? = some slot)
    (cs : List Command) :
    (run s cs).2[i]? = some (slot.after (Command.actionsOn i cs)) := by
  induction cs generalizing s slot with
  | nil => exact hi
  | cons c cs ih =>
    show (run (s.step c).2 cs).2[i]? = _
    rw [ih (getElem?_step hi c), Command.actionsOn, Command.actionsOn, List.filterMap_cons]
    rcases c.actionOn i with _ | a <;> rfl

/-- **A slot at its end stays there**, whatever the session does. -/
theorem getElem?_run_of_exhausted {s : Session} {i : Nat} {slot : Slot} (hi : s[i]? = some slot)
    (hslot : slot.Exhausted) (cs : List Command) : (run s cs).2[i]? = some slot := by
  have hstays : ∀ actions, slot.after actions = slot := by
    intro actions
    induction actions with
    | nil => rfl
    | cons a actions ih =>
      show (slot.act a).2.after actions = slot
      rw [hslot.stays, ih]
  rw [getElem?_run hi, hstays]

/-! ## Runs -/

/-- **A session cannot be told from a row of lists.** However slots are opened, copied and let act,
all replies are those of the lists, and the slots stand for the lists that are left. A slot whose
list has run empty answers nothing from then on, and no further command changes it. -/
theorem run_refines {cs : List Command} (hcs : ∀ c ∈ cs, c.isComparison = false) :
    (run [] cs).1.map Answer.reply = (Supplies.run [] cs).1 ∧
      (run [] cs).2.supplies = (Supplies.run [] cs).2 ∧
      ∀ (i : Nat) (slot : Slot), (run [] cs).2[i]? = some slot → slot.supply.items = [] →
        slot.Exhausted ∧ ∀ ds, (run (run [] cs).2 ds).2[i]? = some slot := by
  obtain ⟨hreplies, hsupplies, hexact⟩ := supplies_run exact_nil hcs
  refine ⟨hreplies, hsupplies, ?_⟩
  intro i slot hi hempty
  have hslot : slot.Exhausted :=
    Slot.exhausted_of_items_eq_nil (hexact slot (List.mem_of_getElem? hi)) hempty
  exact ⟨hslot, getElem?_run_of_exhausted hi hslot⟩

/-- Commands that pass over the last ordinal of all, and that go on asking behind it. -/
def edgeCommands : List Command :=
  [.openOrdinals 2147483645 2147483647 1, .openPattern "c..a..-1", .copy 0,
    .act 0 (.nth 18446744073709551615), .act 0 .next, .act 2 (.write 2 (.decimal 12)),
    .act 2 .bounds, .act 2 .last, .act 2 .length, .act 1 (.every 2), .act 1 .count]

/-- `run_refines` at the upper end of the ordinals. -/
theorem run_refines_edge :
    (∀ c ∈ edgeCommands, c.isComparison = false) ∧
      (run [] edgeCommands).1.map Answer.reply =
        [.opened 0, .opened 1, .opened 2, .item none, .item none,
          .written ["002147483645", "002147483646"], .between 1 1,
          .item (some (.ordinal 2147483647)), .number 0, .items [.text "c", .text "a"],
          .number 0] ∧
      (run [] edgeCommands).1.map Answer.reply = (Supplies.run [] edgeCommands).1 ∧
      (run [] edgeCommands).2.supplies = (Supplies.run [] edgeCommands).2 ∧
      ∀ (i : Nat) (slot : Slot), (run [] edgeCommands).2[i]? = some slot →
        slot.supply.items = [] →
        slot.Exhausted ∧ ∀ ds, (run (run [] edgeCommands).2 ds).2[i]? = some slot :=
  ⟨by decide, by decide +kernel, run_refines (by decide)⟩

end Session

end RangePattern
