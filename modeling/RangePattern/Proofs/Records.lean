import RangePattern.Proofs.Rows

/-!
# What a session has on record

The record of a session is what it was asked, each command with its answer. Nothing else is needed
to tell what its slots did, because of three facts about a command and its answer.

* A command lets one slot act, or it opens one more, or it changes nothing (`Session.Effect`,
  `Session.effect_step`).
* A slot answers for itself. The answers that it gave are those that it would have given alone
  (`Session.answersOf_record`), and so a copy goes on as its original would have gone on
  (`Session.copy_goes_on`).
* Slots are told by their numbers, and the numbers are only names. With other numbers for the slots
  that it mentions, an entry says the same of them (`Entry.renumber`), as long as these numbers tell
  the slots apart (`Command.actionOn_renumber`).
-/

namespace RangePattern

namespace Session

/-! ## One command -/

/-- The slot that a command opens, if it opens one. -/
def opened? (s : Session) : Command → Option Slot
  | .openOrdinals first last increment => some (.ordinals (.between first last increment))
  | .openPattern pattern => (Listing.ofPattern pattern).toOption.map .texts
  | .copy i => s[i]?
  | .act _ _ => none
  | .compare _ _ => none

/-- A slot that is opened is put behind the others. -/
theorem step_of_opened? {s : Session} {c : Command} {slot : Slot} (h : s.opened? c = some slot) :
    s.step c = s.push slot := by
  cases c with
  | openOrdinals first last increment =>
    cases h
    rfl
  | openPattern pattern =>
    rcases hl : Listing.ofPattern pattern with fault | l
    · simp [opened?, hl, Except.toOption] at h
    · obtain rfl : .texts l = slot := by simpa [opened?, hl, Except.toOption] using h
      simp [step, hl]
  | copy i =>
    change s[i]? = some slot at h
    simp [step, h]
  | act i a => cases h
  | compare i j => cases h

/-- What is opened is asked nothing. -/
theorem actionOn_of_opened? {s : Session} {c : Command} {slot : Slot}
    (h : s.opened? c = some slot) (i : Nat) : c.actionOn i = none := by
  cases c with
  | act j a => cases h
  | _ => rfl

/-- What a command does to a session: how it is answered, and what the session is afterwards. -/
inductive Effect (s : Session) : Command → Answer → Session → Prop
  /-- A slot is opened. It gets the next number, and the others stay as they are. -/
  | opens {c : Command} {slot : Slot} (h : s.opened? c = some slot) :
    Effect s c ⟨.opened s.length, some slot⟩ (s ++ [slot])
  /-- A slot acts, and no other one changes. -/
  | acts {i : Nat} {slot : Slot} (h : s[i]? = some slot) (a : Action) :
    Effect s (.act i a) ⟨(slot.act a).1, some (slot.act a).2⟩ (s.set i (slot.act a).2)
  /-- A pattern with a fault opens nothing. -/
  | faulty {pattern : String} {fault : Fault} (h : Listing.ofPattern pattern = .error fault) :
    Effect s (.openPattern pattern) ⟨.faulty fault, none⟩ s
  /-- A slot that is not there cannot be copied and cannot act. -/
  | missing {c : Command} {i : Nat} (hc : c = .copy i ∨ ∃ a, c = .act i a) (h : s[i]? = none) :
    Effect s c ⟨.refused, none⟩ s
  /-- Comparing changes nothing. -/
  | compares {i j : Nat} {answer : Answer} (h : ∀ n, answer.reply ≠ .opened n) :
    Effect s (.compare i j) answer s

/-- **Every command has one of these effects.** -/
theorem effect_step (s : Session) (c : Command) : s.Effect c (s.step c).1 (s.step c).2 := by
  rcases h : s.opened? c with _ | slot
  · cases c with
    | openOrdinals first last increment => cases h
    | openPattern pattern =>
      rcases hl : Listing.ofPattern pattern with fault | l
      · simpa [step, hl] using .faulty hl
      · simp [opened?, hl, Except.toOption] at h
    | copy i =>
      change s[i]? = none at h
      simpa [step, h] using .missing (.inl rfl) h
    | act i a =>
      rcases hi : s[i]? with _ | slot
      · simpa [step, hi] using .missing (.inr ⟨a, rfl⟩) hi
      · simpa [step, hi] using .acts hi a
    | compare i j =>
      simp only [step]
      split <;> exact .compares (by simp)
  · rw [step_of_opened? h]
    exact .opens h

end Session

/-! ## Records -/

/-- A command and how it was answered. -/
structure Entry where
  /-- What the session was asked to do. -/
  command : Command
  /-- What came of it. -/
  answer : Answer
  deriving DecidableEq, Repr

namespace Session

/-- The record of a run: each command with its answer. -/
def record (s : Session) (cs : List Command) : List Entry :=
  List.zipWith Entry.mk cs (run s cs).1

/-- A record begins with the first command. -/
theorem record_cons (s : Session) (c : Command) (cs : List Command) :
    record s (c :: cs) = ⟨c, (s.step c).1⟩ :: record (s.step c).2 cs := rfl

/-- The record of a run is that of its beginning and then that of the rest. -/
theorem record_append (s : Session) (cs ds : List Command) :
    record s (cs ++ ds) = record s cs ++ record (run s cs).2 ds := by
  simp only [record, run_append]
  exact List.zipWith_append (length_run s cs).symm

end Session

/-! ## What a slot answers -/

/-- What a slot answers when actions are asked of it, one after the other. -/
def Slot.answers (slot : Slot) : List Action → List Answer
  | [] => []
  | a :: as => ⟨(slot.act a).1, some (slot.act a).2⟩ :: (slot.act a).2.answers as

namespace Session

/-- What slot `i` answered to the actions asked of it. -/
def answersOf (i : Nat) (es : List Entry) : List Answer :=
  es.filterMap fun e => (e.command.actionOn i).map fun _ => e.answer

/-- One more entry is one more answer, if it asks something of the slot. -/
theorem answersOf_concat (i : Nat) (es : List Entry) (e : Entry) :
    answersOf i (es ++ [e]) =
      answersOf i es ++ ((e.command.actionOn i).map fun _ => e.answer).toList := by
  rcases h : e.command.actionOn i with _ | a <;> simp [answersOf, h]

/-- An action that is asked of a slot is answered by this slot alone. -/
theorem answer_of_actionOn {s : Session} {i : Nat} {slot : Slot} (hi : s[i]? = some slot)
    {c : Command} {a : Action} (hc : c.actionOn i = some a) :
    (s.step c).1 = ⟨(slot.act a).1, some (slot.act a).2⟩ := by
  cases c <;> simp [Command.actionOn] at hc
  obtain ⟨rfl, rfl⟩ := hc
  simp [step, hi]

/-- **What a slot answers in a session is what it answers alone.** -/
theorem answersOf_record {s : Session} {i : Nat} {slot : Slot} (hi : s[i]? = some slot)
    (cs : List Command) :
    answersOf i (record s cs) = slot.answers (Command.actionsOn i cs) := by
  induction cs generalizing s slot with
  | nil => rfl
  | cons c cs ih =>
    have hrest := ih (getElem?_step hi c)
    rw [record_cons]
    rcases hc : c.actionOn i with _ | a
    · simpa [answersOf, Command.actionsOn, hc, Slot.after] using hrest
    · simpa [answersOf, Command.actionsOn, hc, Slot.after, Slot.answers,
        answer_of_actionOn hi hc] using hrest

/-! ### Copies -/

/-- A slot that is asked several things is asked these things. -/
theorem actionsOn_map_act (i : Nat) (as : List Action) :
    Command.actionsOn i (as.map (.act i)) = as := by
  induction as with
  | nil => rfl
  | cons a as ih => simpa [Command.actionsOn, Command.actionOn] using ih

/-- **A copy goes on as its original would have gone on**, and what is done to the original later on
does not matter to it. -/
theorem copy_goes_on {s : Session} {i : Nat} {slot : Slot} (hi : s[i]? = some slot)
    (cs : List Command) :
    answersOf s.length (record s (.copy i :: cs)) =
        answersOf i (record s ((Command.actionsOn s.length cs).map (.act i))) ∧
      (Session.run s (.copy i :: cs)).2[s.length]? =
        (Session.run s ((Command.actionsOn s.length cs).map (.act i))).2[i]? := by
  have hstep : s.step (.copy i) = s.push slot := step_of_opened? hi
  have hcopy : (s.step (.copy i)).2[s.length]? = some slot := by
    rw [hstep]
    exact List.getElem?_concat_length
  constructor
  · rw [answersOf_record hi, actionsOn_map_act]
    exact answersOf_record hcopy cs
  · rw [getElem?_run hi, actionsOn_map_act]
    exact getElem?_run hcopy cs

end Session

/-! ## Numbering slots anew -/

/-- The command with its slots numbered anew. -/
def Command.renumber (number : Nat → Nat) : Command → Command
  | copy i => copy (number i)
  | act i a => act (number i) a
  | compare i j => compare (number i) (number j)
  | openOrdinals first last increment => openOrdinals first last increment
  | openPattern pattern => openPattern pattern

/-- The slots that a command names. -/
def Command.slots : Command → List Nat
  | copy i => [i]
  | act i _ => [i]
  | compare i j => [i, j]
  | openOrdinals _ _ _ => []
  | openPattern _ => []

/-- A command names the slot that it asks something of. -/
theorem Command.mem_slots_of_actionOn {c : Command} {i : Nat} {a : Action}
    (h : c.actionOn i = some a) : i ∈ c.slots := by
  cases c with
  | act j b =>
    rw [actionOn, Option.ite_none_right_eq_some] at h
    exact List.mem_singleton.mpr h.1.symm
  | _ => cases h

/-- A command that names no slot stays as it is. -/
theorem Command.renumber_of_slots_eq_nil {c : Command} (h : c.slots = []) (number : Nat → Nat) :
    c.renumber number = c := by
  cases c <;> simp_all [slots, renumber]

/-- As long as no other slot of the command gets the same number, it asks the same of the slot. -/
theorem Command.actionOn_renumber {number : Nat → Nat} {c : Command} {i : Nat}
    (h : ∀ j ∈ c.slots, number j = number i → j = i) :
    (c.renumber number).actionOn (number i) = c.actionOn i := by
  cases c with
  | act j a =>
    have hiff : number j = number i ↔ j = i :=
      ⟨h j (List.mem_singleton_self j), congrArg number⟩
    simp only [renumber, actionOn, hiff]
  | _ => rfl

/-- The reply with the slot that was opened numbered anew. -/
def Reply.renumber (number : Nat → Nat) : Reply → Reply
  | opened i => opened (number i)
  | reply => reply

/-- The slot that a reply says was opened. -/
def Reply.slots : Reply → List Nat
  | opened i => [i]
  | _ => []

/-- A reply that opens no slot stays as it is. -/
theorem Reply.renumber_of_slots_eq_nil {reply : Reply} (h : reply.slots = [])
    (number : Nat → Nat) : reply.renumber number = reply := by
  cases reply <;> simp_all [slots, renumber]

/-- An action opens no slot. -/
theorem Slot.slots_act (slot : Slot) (a : Action) : (slot.act a).1.slots = [] := by
  cases a with
  | every n => cases n <;> rfl
  | style => cases slot <;> rfl
  | write n style => cases slot <;> rfl
  | _ => rfl

/-- What answers an action opens no slot. -/
theorem Session.slots_reply_of_mem_record {s : Session} {cs : List Command} {e : Entry}
    (he : e ∈ record s cs) {i : Nat} {a : Action} (ha : e.command.actionOn i = some a) :
    e.answer.reply.slots = [] := by
  induction cs generalizing s with
  | nil => simp [record] at he
  | cons c cs ih =>
    rw [record_cons] at he
    rcases List.mem_cons.mp he with rfl | he
    · cases c with
      | act j b =>
        simp only [step]
        split
        · exact Slot.slots_act _ b
        · rfl
      | _ => cases ha
    · exact ih he

namespace Entry

/-- The entry with its slots numbered anew. What the slots answered stays as it is. -/
def renumber (number : Nat → Nat) (e : Entry) : Entry :=
  ⟨e.command.renumber number, ⟨e.answer.reply.renumber number, e.answer.slot⟩⟩

/-- The slots that an entry mentions. -/
def slots (e : Entry) : List Nat := e.command.slots ++ e.answer.reply.slots

/-- Only the numbers of the slots that it mentions matter to an entry. -/
theorem renumber_congr {f g : Nat → Nat} {e : Entry} (h : ∀ i ∈ e.slots, f i = g i) :
    e.renumber f = e.renumber g := by
  obtain ⟨c, reply, slot⟩ := e
  have hc : c.renumber f = c.renumber g := by
    cases c <;> simp_all [slots, Command.slots, Command.renumber]
  have hreply : reply.renumber f = reply.renumber g := by
    cases reply <;> simp_all [slots, Reply.slots, Reply.renumber]
  simp [renumber, hc, hreply]

end Entry

end RangePattern
