import RangePattern.Proofs.Records

/-!
# How a slot came to be

A session interleaves the histories of its slots. Each slot has one of its own, its **lineage**: it
was opened, or it is a copy of a slot that has a lineage, and then some actions were asked of it.
What the session does besides leaves no trace in the slot.

* `Session.lineages` — the lineage of every slot, read off the record of a session. It is a part of
  that record (`Session.sublist_of_mem_lineages`);
* `Lineage.replay` — the commands of a lineage as a session of their own. The slots in between are
  missing there, so those that remain are numbered anew;
* `Session.Traced` and `Session.Complete` — the invariant: every lineage is true of its slot, and no
  answer of the slot is left out.

The main statement is `Session.slots_independent`: **a lineage tells everything about its slot.**
Replayed alone it gives the same answers and leaves the same slot. This follows from what one
command does to the lineages (`Session.Traced.step`) by induction along the session.
-/

namespace RangePattern

/-! ## Lineages -/

/-- How a slot came to be. -/
structure Lineage where
  /-- The slots on the way: one that was opened, a copy of it, a copy of this copy, and so on. -/
  chain : List Nat
  /-- The entries about them on the way, in the order of the record. -/
  entries : List Entry
  deriving DecidableEq, Repr

namespace Lineage

/-- The lineage behind one more entry, in which these slots are opened. -/
def extend (l : Lineage) (opened : List Nat) (e : Entry) : Lineage :=
  ⟨l.chain ++ opened, l.entries ++ [e]⟩

/-- The number of a slot among the slots of its lineage. -/
def number (l : Lineage) (i : Nat) : Nat := l.chain.idxOf i

/-- The commands of a lineage, as a session of their own. -/
def replay (l : Lineage) : List Command := l.entries.map fun e => e.command.renumber l.number

end Lineage

namespace Session

/-- The lineages after one more entry. An action is in the lineage of the slot that acts, and an
opening is where a lineage begins. A copy begins with all that its original has been through. -/
def trace (ls : List Lineage) (e : Entry) : List Lineage :=
  match e.command, e.answer.reply with
  | .act i _, _ => ls.modify i fun l => l.extend [] e
  | .copy i, .opened n => ls ++ (ls[i]?.map fun l => l.extend [n] e).toList
  | _, .opened n => ls ++ [Lineage.extend ⟨[], []⟩ [n] e]
  | _, _ => ls

/-- The lineage of each slot, read off a record. -/
def lineages (es : List Entry) : List Lineage := es.foldl trace []

/-- **A lineage is a part of the record**, in the same order. -/
theorem sublist_of_mem_trace {ls : List Lineage} {es : List Entry} {e : Entry}
    (h : ∀ l ∈ ls, l.entries.Sublist es) : ∀ l ∈ trace ls e, l.entries.Sublist (es ++ [e]) := by
  intro l hl
  have hold : ∀ m ∈ ls, m.entries.Sublist (es ++ [e]) := fun m hm =>
    (h m hm).trans (List.sublist_append_left es [e])
  have hnew : ∀ m ∈ ls, (m.entries ++ [e]).Sublist (es ++ [e]) := fun m hm =>
    (h m hm).append_right [e]
  unfold trace at hl
  split at hl
  · next i a _ hc =>
    obtain ⟨j, hj⟩ := List.mem_iff_getElem?.mp hl
    rw [List.getElem?_modify] at hj
    obtain ⟨m, hm, rfl⟩ := Option.map_eq_some_iff.mp hj
    have hmem := List.mem_of_getElem? hm
    split
    · exact hnew m hmem
    · exact hold m hmem
  · next i n hc hreply =>
    rcases List.mem_append.mp hl with hl | hl
    · exact hold l hl
    · obtain ⟨m, hm, rfl⟩ := Option.map_eq_some_iff.mp (Option.mem_toList.mp hl)
      exact hnew m (List.mem_of_getElem? hm)
  · next n _ hreply =>
    rcases List.mem_append.mp hl with hl | hl
    · exact hold l hl
    · rw [List.mem_singleton.mp hl]
      exact List.sublist_append_right es [e]
  · exact hold l hl

/-- So it is for every lineage of a session, by induction along the record. -/
theorem sublist_of_mem_lineages (es : List Entry) :
    ∀ l ∈ lineages es, l.entries.Sublist es := by
  induction es using List.reverseRecOn with
  | nil => simp [lineages]
  | append_singleton es e ih =>
    have hfold : lineages (es ++ [e]) = trace (lineages es) e := by simp [lineages]
    rw [hfold]
    exact sublist_of_mem_trace ih

end Session

/-! ## Lineages are true -/

namespace Lineage

/-- What it is for a lineage to be told faithfully: the replay does what the lineage says. -/
structure Faithful (l : Lineage) : Prop where
  /-- The entries are about the slots on the way and no others. -/
  mem_chain : ∀ e ∈ l.entries, ∀ j ∈ e.slots, j ∈ l.chain
  /-- The record of the replay is the lineage, with the slots numbered anew. -/
  record_replay : Session.record [] l.replay = l.entries.map (Entry.renumber l.number)
  /-- The replay opens the slots on the way and no others. -/
  length_run : (Session.run [] l.replay).2.length = l.chain.length

/-- Nothing is told faithfully before there is an entry. -/
theorem faithful_empty : Faithful ⟨[], []⟩ where
  mem_chain := by simp
  record_replay := rfl
  length_run := rfl

section

variable {l : Lineage} {e : Entry}

/-- The slots that were on the way keep their numbers. -/
theorem Faithful.renumber_extend (h : l.Faithful) (opened : List Nat) {d : Entry}
    (hd : d ∈ l.entries) :
    d.renumber (l.extend opened e).number = d.renumber l.number :=
  Entry.renumber_congr fun j hj => List.idxOf_append_of_mem (h.mem_chain d hd j hj)

/-- The replay goes on with the command of the entry. -/
theorem Faithful.replay_extend (h : l.Faithful) (opened : List Nat) :
    (l.extend opened e).replay =
      l.replay ++ [e.command.renumber (l.extend opened e).number] := by
  have hold : ∀ d ∈ l.entries,
      d.command.renumber (l.extend opened e).number = d.command.renumber l.number :=
    fun d hd => congrArg Entry.command (h.renumber_extend opened hd)
  show (l.entries ++ [e]).map _ = _
  rw [List.map_append, List.map_congr_left hold]
  rfl

/-- **One more entry.** If the session that is left by the replay so far answers the command as the
entry says, then the longer lineage is told faithfully, too. -/
theorem Faithful.extend (h : l.Faithful) (opened : List Nat)
    (hslots : ∀ j ∈ e.slots, j ∈ l.chain ++ opened) {t : Session}
    (hstep : (Session.run [] l.replay).2.step (e.command.renumber (l.extend opened e).number) =
      ((e.renumber (l.extend opened e).number).answer, t))
    (hlen : t.length = (l.chain ++ opened).length) :
    (l.extend opened e).Faithful ∧ (Session.run [] (l.extend opened e).replay).2 = t := by
  have hrun : (Session.run [] (l.extend opened e).replay).2 = t := by
    rw [h.replay_extend, Session.run_append]
    simp [Session.run, hstep]
  refine ⟨⟨?_, ?_, ?_⟩, hrun⟩
  · intro d hd j hj
    rcases List.mem_append.mp hd with hd | hd
    · exact List.mem_append_left opened (h.mem_chain d hd j hj)
    · rw [List.mem_singleton.mp hd] at hj
      exact hslots j hj
  · rw [h.replay_extend, Session.record_append, h.record_replay, Session.record_cons, hstep]
    show _ = (l.entries ++ [e]).map _
    rw [List.map_append, List.map_congr_left fun d hd => h.renumber_extend opened hd]
    rfl
  · rw [hrun, hlen]
    rfl

end

/-- What it is for a lineage to tell how slot `i` came to be what it is. -/
structure Traces (l : Lineage) (i : Nat) (slot : Slot) : Prop where
  /-- The lineage is told faithfully. -/
  faithful : l.Faithful
  /-- The slot is the last one on the way. -/
  number_add_one : l.number i + 1 = l.chain.length
  /-- The others came before it. -/
  le_of_mem : ∀ j ∈ l.chain, j ≤ i
  /-- The replay leaves the slot. -/
  getElem?_run : (Session.run [] l.replay).2[l.number i]? = some slot

variable {l : Lineage} {i : Nat} {slot : Slot}

/-- So the slot itself is on the way. -/
theorem Traces.mem_chain (h : l.Traces i slot) : i ∈ l.chain := by
  have hlast := h.number_add_one
  apply List.idxOf_lt_length_iff.mp
  unfold number at hlast
  omega

/-- A slot that is opened has a lineage that begins with it. -/
theorem traces_of_opening {c : Command} (h : Session.opened? [] c = some slot)
    (hc : c.slots = []) :
    (extend ⟨[], []⟩ [i] ⟨c, ⟨.opened i, some slot⟩⟩).Traces i slot := by
  have hnumber : (extend ⟨[], []⟩ [i] ⟨c, ⟨.opened i, some slot⟩⟩).number i = 0 :=
    List.idxOf_cons_self
  have hstep : Session.step [] c = (⟨.opened 0, some slot⟩, [slot]) := Session.step_of_opened? h
  obtain ⟨hfaithful, hrun⟩ := faithful_empty.extend [i]
    (e := ⟨c, ⟨.opened i, some slot⟩⟩) (t := [slot]) (by simp [Entry.slots, hc, Reply.slots])
    (by simp [replay, Session.run, Entry.renumber, Command.renumber_of_slots_eq_nil hc, hstep,
      Reply.renumber, hnumber])
    rfl
  refine ⟨hfaithful, ?_, by simp [extend], ?_⟩
  · rw [hnumber]
    rfl
  · rw [hrun, hnumber]
    rfl

/-- A slot that acts has the lineage that it had, and the action. -/
theorem Traces.acts (h : l.Traces i slot) (a : Action) :
    (l.extend [] ⟨.act i a, ⟨(slot.act a).1, some (slot.act a).2⟩⟩).Traces i (slot.act a).2 := by
  have hmem := h.mem_chain
  have hreply := Reply.renumber_of_slots_eq_nil (slot.slots_act a)
  have hnumber : (l.extend [] ⟨.act i a, ⟨(slot.act a).1, some (slot.act a).2⟩⟩).number i =
      l.number i := List.idxOf_append_of_mem hmem
  have hlt : l.number i < (Session.run [] l.replay).2.length := by
    rw [h.faithful.length_run, ← h.number_add_one]
    exact Nat.lt_succ_self _
  obtain ⟨hfaithful, hrun⟩ := h.faithful.extend []
    (e := ⟨.act i a, ⟨(slot.act a).1, some (slot.act a).2⟩⟩)
    (t := (Session.run [] l.replay).2.set (l.number i) (slot.act a).2)
    (by simp [Entry.slots, Command.slots, Slot.slots_act, hmem])
    (by simp [Entry.renumber, Command.renumber, hnumber, hreply, Session.step, h.getElem?_run])
    (by simp [h.faithful.length_run])
  refine ⟨hfaithful, ?_, ?_, ?_⟩
  · rw [hnumber, h.number_add_one]
    simp [extend]
  · simpa [extend] using h.le_of_mem
  · rw [hrun, hnumber]
    exact List.getElem?_set_self hlt

/-- A copy has the lineage of its original, and the copying. -/
theorem Traces.copies (h : l.Traces i slot) {n : Nat} (hn : i < n) :
    (l.extend [n] ⟨.copy i, ⟨.opened n, some slot⟩⟩).Traces n slot := by
  have hfresh : n ∉ l.chain := fun hmem => absurd (h.le_of_mem n hmem) (by omega)
  have hnumber : (l.extend [n] ⟨.copy i, ⟨.opened n, some slot⟩⟩).number i = l.number i :=
    List.idxOf_append_of_mem h.mem_chain
  have hnumber' : (l.extend [n] ⟨.copy i, ⟨.opened n, some slot⟩⟩).number n = l.chain.length := by
    simp [extend, number, List.idxOf_append_of_notMem hfresh]
  have hlength := h.faithful.length_run
  obtain ⟨hfaithful, hrun⟩ := h.faithful.extend [n]
    (e := ⟨.copy i, ⟨.opened n, some slot⟩⟩) (t := (Session.run [] l.replay).2 ++ [slot])
    (by simp [Entry.slots, Command.slots, Reply.slots, h.mem_chain])
    (by simp [Entry.renumber, Command.renumber, Reply.renumber, hnumber, hnumber', Session.step,
      h.getElem?_run, Session.push, hlength])
    (by simp [hlength])
  refine ⟨hfaithful, ?_, ?_, ?_⟩
  · rw [hnumber']
    simp [extend]
  · intro j hj
    rcases List.mem_append.mp hj with hj | hj
    · exact (h.le_of_mem j hj).trans hn.le
    · exact (List.mem_singleton.mp hj).le
  · rw [hrun, hnumber', ← hlength]
    exact List.getElem?_concat_length

end Lineage

namespace Session

/-- Each slot of the session has a lineage in the row that tells how it came to be. -/
structure Traced (s : Session) (ls : List Lineage) : Prop where
  /-- There is one lineage for each slot. -/
  length_eq : ls.length = s.length
  /-- It is the lineage of this slot. -/
  traces : ∀ (i : Nat) (slot : Slot) (l : Lineage), s[i]? = some slot → ls[i]? = some l →
    l.Traces i slot

/-- A session without slots has no lineages. -/
theorem traced_nil : Traced [] [] := ⟨rfl, by simp⟩

variable {s : Session} {ls : List Lineage}

/-- What stands in a row to which something was added was there before, or was added. -/
theorem lt_or_eq_of_getElem?_concat {α : Type} {xs : List α} {x y : α} {i : Nat}
    (h : (xs ++ [x])[i]? = some y) : i < xs.length ∨ i = xs.length := by
  have hlt := (List.getElem?_eq_some_iff.mp h).1
  rw [List.length_append] at hlt
  exact Nat.lt_or_eq_of_le (Nat.le_of_lt_succ hlt)

/-- One more slot and its lineage. -/
theorem Traced.push (h : s.Traced ls) {slot : Slot} {l : Lineage} (hl : l.Traces s.length slot) :
    Traced (s ++ [slot]) (ls ++ [l]) := by
  refine ⟨by simp [h.length_eq], ?_⟩
  intro i t m ht hm
  rcases lt_or_eq_of_getElem?_concat ht with hi | rfl
  · rw [List.getElem?_append_left hi] at ht
    rw [List.getElem?_append_left (h.length_eq ▸ hi)] at hm
    exact h.traces i t m ht hm
  · rw [List.getElem?_concat_length] at ht
    rw [← h.length_eq, List.getElem?_concat_length] at hm
    cases ht
    cases hm
    exact hl

/-- One slot changed, and its lineage. -/
theorem Traced.set (h : s.Traced ls) {i : Nat} {slot : Slot} {f : Lineage → Lineage}
    (hf : ∀ l, ls[i]? = some l → (f l).Traces i slot) : Traced (s.set i slot) (ls.modify i f) := by
  refine ⟨by simp [h.length_eq], ?_⟩
  intro j t m ht hm
  rw [List.getElem?_modify] at hm
  obtain ⟨l, hl, rfl⟩ := Option.map_eq_some_iff.mp hm
  by_cases hij : i = j
  · subst hij
    have hlt : i < s.length := h.length_eq ▸ (List.getElem?_eq_some_iff.mp hl).1
    rw [List.getElem?_set_self hlt] at ht
    cases ht
    simpa using hf l hl
  · rw [List.getElem?_set_ne hij] at ht
    simpa [hij] using h.traces j t l ht hl

/-! ### Nothing is left out -/

/-- What slot `i` itself answered, without the refusals from before there was such a slot. -/
def ownAnswers (i : Nat) (es : List Entry) : List Answer :=
  (answersOf i es).filter fun answer => answer.slot.isSome

variable {es : List Entry} {e : Entry}

/-- An entry that asks nothing of a slot, or that found none, is no answer of it. -/
theorem ownAnswers_concat_of_none {i : Nat}
    (h : e.command.actionOn i = none ∨ e.answer.slot = none) :
    ownAnswers i (es ++ [e]) = ownAnswers i es := by
  unfold ownAnswers
  rw [answersOf_concat, List.filter_append]
  rcases h with h | h
  · simp [h]
  · rcases e.command.actionOn i with _ | a <;> simp [h]

/-- Each lineage in the row holds all that its slot answered. -/
structure Complete (es : List Entry) (ls : List Lineage) : Prop where
  /-- What a slot answered is in its lineage. -/
  answersOf_eq : ∀ i l, ls[i]? = some l → answersOf i l.entries = ownAnswers i es
  /-- Other slots answered nothing. -/
  ownAnswers_eq_nil : ∀ i, ls.length ≤ i → ownAnswers i es = []

/-- Nobody has answered anything before there is an entry. -/
theorem complete_nil : Complete [] [] := ⟨by simp, fun _ _ => rfl⟩

/-- An entry that no slot answered. -/
theorem Complete.keep (h : Complete es ls)
    (he : ∀ i, e.command.actionOn i = none ∨ e.answer.slot = none) : Complete (es ++ [e]) ls where
  answersOf_eq i l hl := (h.answersOf_eq i l hl).trans (ownAnswers_concat_of_none (he i)).symm
  ownAnswers_eq_nil i hi := (ownAnswers_concat_of_none (he i)).trans (h.ownAnswers_eq_nil i hi)

/-- One more slot, which has answered nothing yet. -/
theorem Complete.push (h : Complete es ls) {l : Lineage}
    (hl : answersOf ls.length l.entries = []) : Complete es (ls ++ [l]) := by
  constructor
  · intro i m hm
    rcases lt_or_eq_of_getElem?_concat hm with hi | rfl
    · rw [List.getElem?_append_left hi] at hm
      exact h.answersOf_eq i m hm
    · rw [List.getElem?_concat_length] at hm
      cases hm
      rw [hl, h.ownAnswers_eq_nil _ le_rfl]
  · intro i hi
    rw [List.length_append] at hi
    exact h.ownAnswers_eq_nil i (Nat.le_of_add_right_le hi)

/-- One more answer of a slot. -/
theorem Complete.act (h : Complete es ls) {i : Nat} {a : Action} (hi : i < ls.length)
    (hc : e.command = .act i a) (hslot : e.answer.slot.isSome = true) :
    Complete (es ++ [e]) (ls.modify i fun l => l.extend [] e) := by
  have hother : ∀ j, i ≠ j → e.command.actionOn j = none := by
    intro j hij
    rw [hc, Command.actionOn, if_neg hij]
  constructor
  · intro j m hm
    rw [List.getElem?_modify] at hm
    obtain ⟨l, hl, rfl⟩ := Option.map_eq_some_iff.mp hm
    have hold := h.answersOf_eq j l hl
    by_cases hij : i = j
    · subst hij
      have hon : e.command.actionOn i = some a := by rw [hc, Command.actionOn, if_pos rfl]
      unfold ownAnswers at hold ⊢
      simp [Lineage.extend, answersOf_concat, hon, hold, hslot]
    · rw [ownAnswers_concat_of_none (Or.inl (hother j hij))]
      simpa [hij] using hold
  · intro j hj
    rw [List.length_modify] at hj
    rw [ownAnswers_concat_of_none (Or.inl (hother j (by omega)))]
    exact h.ownAnswers_eq_nil j hj

/-! ### Along a session -/

/-- A lineage says nothing of later slots. -/
theorem answersOf_entries_eq_nil {l : Lineage} {i j : Nat} {slot : Slot} (h : l.Traces i slot)
    (hij : i < j) : answersOf j l.entries = [] := by
  apply List.filterMap_eq_nil_iff.mpr
  intro e he
  rcases hon : e.command.actionOn j with _ | a
  · rfl
  · have hmem : j ∈ e.slots := List.mem_append_left _ (Command.mem_slots_of_actionOn hon)
    have hle := h.le_of_mem j (h.faithful.mem_chain e he j hmem)
    omega

/-- **One command keeps the lineages true and complete.** -/
theorem Traced.step (h : s.Traced ls) (hc : Complete es ls) (c : Command) :
    Traced (s.step c).2 (trace ls ⟨c, (s.step c).1⟩) ∧
      Complete (es ++ [⟨c, (s.step c).1⟩]) (trace ls ⟨c, (s.step c).1⟩) := by
  have heffect := effect_step s c
  generalize (s.step c).1 = answer, (s.step c).2 = t at heffect ⊢
  cases heffect with
  | @opens c slot hopen =>
    have hkeep : Complete (es ++ [⟨c, ⟨.opened s.length, some slot⟩⟩]) ls :=
      hc.keep fun i => Or.inl (actionOn_of_opened? hopen i)
    cases c with
    | openOrdinals first last increment =>
      exact ⟨h.push (Lineage.traces_of_opening hopen rfl), hkeep.push rfl⟩
    | openPattern pattern =>
      exact ⟨h.push (Lineage.traces_of_opening hopen rfl), hkeep.push rfl⟩
    | copy i =>
      have hi : s[i]? = some slot := hopen
      have hlt := (List.getElem?_eq_some_iff.mp hi).1
      obtain ⟨l, hl⟩ : ∃ l, ls[i]? = some l :=
        ⟨_, List.getElem?_eq_getElem (h.length_eq.symm ▸ hlt)⟩
      have htraces := h.traces i slot _ hi hl
      simp only [trace, hl]
      refine ⟨h.push (htraces.copies hlt), hkeep.push ?_⟩
      show answersOf ls.length (l.entries ++ [_]) = []
      rw [answersOf_concat, answersOf_entries_eq_nil htraces (h.length_eq ▸ hlt)]
      rfl
    | act i a => cases hopen
    | compare i j => cases hopen
  | @acts i slot hi a =>
    have hlt := (List.getElem?_eq_some_iff.mp hi).1
    exact ⟨h.set fun l hl => (h.traces _ _ l hi hl).acts a, hc.act (h.length_eq ▸ hlt) rfl rfl⟩
  | faulty hfault => exact ⟨h, hc.keep fun _ => Or.inl rfl⟩
  | @missing c i hasked hi =>
    have hkeep : Complete (es ++ [⟨c, ⟨.refused, none⟩⟩]) ls := hc.keep fun _ => Or.inr rfl
    rcases hasked with rfl | ⟨a, rfl⟩
    · exact ⟨h, hkeep⟩
    · have hout : ls.length ≤ i := by
        rw [h.length_eq]
        exact List.getElem?_eq_none_iff.mp hi
      simp only [trace]
      rw [List.modify_eq_self hout]
      exact ⟨h, hkeep⟩
  | @compares i j answer hreply =>
    have hkeep : Complete (es ++ [⟨.compare i j, answer⟩]) ls := hc.keep fun _ => Or.inl rfl
    obtain ⟨reply, slot⟩ := answer
    cases reply with
    | opened n => exact absurd rfl (hreply n)
    | _ => exact ⟨h, hkeep⟩

/-- By induction, the lineages read off a whole run are true and complete. -/
theorem Traced.run (h : s.Traced ls) (hc : Complete es ls) (cs : List Command) :
    Traced (run s cs).2 ((record s cs).foldl trace ls) ∧
      Complete (es ++ record s cs) ((record s cs).foldl trace ls) := by
  induction cs generalizing s ls es with
  | nil => exact ⟨h, by simpa [record] using hc⟩
  | cons c cs ih =>
    obtain ⟨htraced, hcomplete⟩ := h.step hc c
    rw [record_cons, List.append_cons]
    exact ih htraced hcomplete

/-! ### Answers in a replay -/

/-- **Numbering anew keeps what a slot answered**, if the lineage mentions only slots on the way. -/
theorem answersOf_map_renumber {l : Lineage} {i : Nat}
    (hmem : ∀ e ∈ l.entries, ∀ j ∈ e.slots, j ∈ l.chain)
    (hreply : ∀ e ∈ l.entries, ∀ a, e.command.actionOn i = some a → e.answer.reply.slots = []) :
    answersOf (l.number i) (l.entries.map (Entry.renumber l.number)) = answersOf i l.entries := by
  unfold answersOf
  rw [List.filterMap_map]
  apply List.filterMap_congr
  intro e he
  have hinj : ∀ j ∈ e.command.slots, l.number j = l.number i → j = i := fun j hj =>
    (List.idxOf_inj (hmem e he j (List.mem_append_left _ hj))).mp
  show ((e.command.renumber l.number).actionOn (l.number i)).map _ = _
  rw [Command.actionOn_renumber hinj]
  rcases hon : e.command.actionOn i with _ | a
  · rfl
  · simp [Entry.renumber, Reply.renumber_of_slots_eq_nil (hreply e he a hon)]

/-! ## Independence -/

/-- **A lineage tells everything about its slot.** A command changes no slot but the one that it
lets act, and it opens one slot more or none.

So a slot depends on its lineage only. The lineage is a part of the record of the session, and it
mentions no slots but those on the way. Replayed as a session of its own, its commands get the
answers that they got there, with the slots numbered anew. These are all the answers that the slot
gave, and it is left as it was left there.

In particular a copy answers from then on what its original would have answered at this point, and
it ends where the original would have ended, whatever is asked of the original later on. -/
theorem slots_independent :
    (∀ (s : Session) (c : Command), s.Effect c (s.step c).1 (s.step c).2 ∧
      ∀ (i : Nat) (slot : Slot), s[i]? = some slot → c.actionOn i = none →
        (s.step c).2[i]? = some slot) ∧
    (∀ (cs : List Command) (i : Nat) (slot : Slot), (Session.run [] cs).2[i]? = some slot →
      ∃ l, (lineages (record [] cs))[i]? = some l ∧ l.entries.Sublist (record [] cs) ∧
        (∀ e ∈ l.entries, ∀ j ∈ e.slots, j ∈ l.chain) ∧
        record [] l.replay = l.entries.map (Entry.renumber l.number) ∧
        answersOf (l.number i) (record [] l.replay) = ownAnswers i (record [] cs) ∧
        (Session.run [] l.replay).2[l.number i]? = some slot) ∧
    ∀ (s : Session) (i : Nat) (slot : Slot), s[i]? = some slot → ∀ cs : List Command,
      s.step (.copy i) = (⟨.opened s.length, some slot⟩, s ++ [slot]) ∧
      answersOf s.length (record s (.copy i :: cs)) =
        answersOf i (record s ((Command.actionsOn s.length cs).map (.act i))) ∧
      (Session.run s (.copy i :: cs)).2[s.length]? =
        (Session.run s ((Command.actionsOn s.length cs).map (.act i))).2[i]? := by
  refine ⟨fun s c => ⟨effect_step s c, ?_⟩, ?_, ?_⟩
  · intro i slot hi hc
    rw [getElem?_step hi, hc]
    rfl
  · intro cs i slot hi
    obtain ⟨htraced, hcomplete⟩ := traced_nil.run complete_nil cs
    change Traced _ (lineages (record [] cs)) at htraced
    have hlt : i < (lineages (record [] cs)).length := by
      rw [htraced.length_eq]
      exact (List.getElem?_eq_some_iff.mp hi).1
    have hl := List.getElem?_eq_getElem hlt
    have htraces := htraced.traces i slot _ hi hl
    have hpart := sublist_of_mem_lineages _ _ (List.mem_of_getElem? hl)
    refine ⟨_, hl, hpart, htraces.faithful.mem_chain, htraces.faithful.record_replay, ?_,
      htraces.getElem?_run⟩
    rw [htraces.faithful.record_replay, answersOf_map_renumber htraces.faithful.mem_chain
      fun e he a => slots_reply_of_mem_record (hpart.subset he)]
    exact hcomplete.answersOf_eq i _ hl
  · intro s i slot hi cs
    exact ⟨step_of_opened? hi, copy_goes_on hi cs⟩

/-- Two walks side by side. The second one is copied halfway, behind a pattern with a fault, and
then the original goes on by itself. -/
def crossing : List Command :=
  [.openPattern "x..y..9", .openPattern "1..9..2", .act 0 .next, .act 1 .next, .openPattern "1..y2",
    .copy 1, .act 1 .collect, .act 2 (.take 2), .copy 2, .act 3 .length]

/-- `slots_independent` for the copy of a copy. -/
theorem slots_independent_crossing :
    (Session.run [] crossing).2[3]? = some (.texts ⟨⟨55, 2, 2⟩, .character⟩) ∧
      ∃ l, (lineages (record [] crossing))[3]? = some l ∧
        l.entries.Sublist (record [] crossing) ∧
        (∀ e ∈ l.entries, ∀ j ∈ e.slots, j ∈ l.chain) ∧
        record [] l.replay = l.entries.map (Entry.renumber l.number) ∧
        answersOf (l.number 3) (record [] l.replay) = ownAnswers 3 (record [] crossing) ∧
        (Session.run [] l.replay).2[l.number 3]? = some (.texts ⟨⟨55, 2, 2⟩, .character⟩) := by
  have hslot : (Session.run [] crossing).2[3]? = some (.texts ⟨⟨55, 2, 2⟩, .character⟩) := by
    decide
  exact ⟨hslot, slots_independent.2.1 crossing 3 _ hslot⟩

example :
    (lineages (record [] crossing))[3]?.map Lineage.replay =
      some [.openPattern "1..9..2", .act 0 .next, .copy 0, .act 1 (.take 2), .copy 1,
        .act 2 .length] := by
  decide

end Session

end RangePattern
