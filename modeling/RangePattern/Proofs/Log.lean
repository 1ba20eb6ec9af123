import RangePattern.Proofs.Limits
import RangePattern.Proofs.Stages

/-!
# The log of an expansion

An expansion says what it opens before there is any item, and it says that it is refused before it
is. Both events hold numbers that are known beforehand, from the bounds alone. Here the log is held
against what comes of the expansion and against its stages.

`Accounts` lists the three logs there are, each with the only outcome that it accounts for. That an
expansion keeps one of them is `report_accounts`; it rests on the stages (`Staged`) for what the
pattern means, and on the law of limits for the number of items. The main statement is
`report_log_agrees`: **the log and the outcome determine each other**, and the length in the log is
the number of items that there are, or that there would be.
-/

namespace RangePattern

/-- The fault is one of the text of a pattern: of the number of its segments, of its increment, or
of a bound. -/
def Fault.IsOfPattern : Fault → Prop
  | segmentCount _ _ => True
  | notCharacter _ => False
  | increment _ _ => True
  | bound _ _ => True
  | tooLong _ _ _ => False

/-- What is found first at fault with a pattern is a fault of its text. -/
theorem FirstFault.isOfPattern {pattern : String} {fault : Fault} (h : FirstFault pattern fault) :
    fault.IsOfPattern := by
  cases h <;> exact True.intro

/-! ## The three logs -/

/-- The log accounts for the outcome of an expansion. -/
inductive Accounts (options : Options) (pattern : String) : List Event → Outcome → Prop
  /-- A pattern that is at fault leaves no trace. -/
  | faulty {fault : Fault} (hfault : FirstFault pattern fault) :
    Accounts options pattern [] (.error fault)
  /-- A range with more items than the limit is opened and refused. -/
  | refused {parts : Parts} {range : Range} {items : List String} {limit : Nat}
    (hstaged : Staged pattern parts range) (hall : expand pattern = .ok items)
    (hlimit : options.limit = some limit) (hlt : limit < items.length) :
    Accounts options pattern
      [.opened pattern range items.length, .refused pattern items.length limit]
      (.error (.tooLong pattern items.length limit))
  /-- Every other range is opened, and its items come of it. -/
  | complete {parts : Parts} {range : Range} {items : List String}
    (hstaged : Staged pattern parts range) (hall : expand pattern = .ok items)
    (hle : ∀ limit, options.limit = some limit → items.length ≤ limit) :
    Accounts options pattern [.opened pattern range items.length] (.ok items)

/-- **The log of an expansion accounts for its outcome.** -/
theorem report_accounts (options : Options) (pattern : String) :
    Accounts options pattern (report options pattern).events (report options pattern).outcome := by
  unfold report
  rcases hrange : Range.ofPattern pattern with fault | range
  · exact .faulty (Range.ofPattern_eq_error_iff.mp hrange)
  · obtain ⟨parts, hstaged⟩ := Range.ofPattern_eq_ok_iff_staged.mp hrange
    have hall : expand pattern = .ok range.items := expand_of_range hrange
    simp only [Range.length_eq_length_items]
    rcases hlimit : options.exceeded? range.items.length with _ | limit
    · exact .complete hstaged hall (Options.exceeded?_eq_none_iff.mp hlimit)
    · obtain ⟨hsome, hlt⟩ := Options.exceeded?_eq_some_iff.mp hlimit
      exact .refused hstaged hall hsome hlt

/-! ## The log and the outcome -/

namespace Accounts

variable {options : Options} {pattern : String} {events : List Event} {outcome : Outcome}

/-- Nothing is logged exactly if the text of the pattern is at fault. -/
theorem eq_nil_iff (h : Accounts options pattern events outcome) :
    events = [] ↔ ∃ fault, outcome = .error fault ∧ fault.IsOfPattern := by
  cases h with
  | faulty hfault => exact iff_of_true rfl ⟨_, rfl, hfault.isOfPattern⟩
  | refused =>
    apply iff_of_false (List.cons_ne_nil _ _)
    rintro ⟨fault, heq, hfault⟩
    cases heq
    exact hfault
  | complete =>
    apply iff_of_false (List.cons_ne_nil _ _)
    rintro ⟨fault, heq, -⟩
    cases heq

/-- A refusal is logged exactly if the limit is at fault. -/
theorem exists_trace_iff (h : Accounts options pattern events outcome) :
    (∃ e ∈ events, e.level = .trace) ↔ ∃ fault, outcome = .error fault ∧ fault.kind = .limit := by
  cases h with
  | faulty hfault =>
    apply iff_of_false
    · rintro ⟨e, he, -⟩
      exact List.not_mem_nil he
    · rintro ⟨fault, heq, hkind⟩
      cases heq
      cases hfault <;> cases hkind
  | refused =>
    apply iff_of_true
    · exact ⟨_, List.mem_cons_of_mem _ List.mem_cons_self, rfl⟩
    · exact ⟨_, rfl, rfl⟩
  | complete =>
    apply iff_of_false
    · rintro ⟨e, he, hlevel⟩
      obtain rfl := List.mem_singleton.mp he
      cases hlevel
    · rintro ⟨fault, heq, -⟩
      cases heq

/-- A log that is not empty begins with what the pattern has been opened as, and what stands behind
that is decided by the limit. -/
theorem exists_opened (h : Accounts options pattern events outcome) (hne : events ≠ []) :
    ∃ parts range items, Staged pattern parts range ∧ expand pattern = .ok items ∧
      ((events = [.opened pattern range items.length] ∧ outcome = .ok items) ∨
        ∃ limit, options.limit = some limit ∧ limit < items.length ∧
          events = [.opened pattern range items.length, .refused pattern items.length limit] ∧
          outcome = .error (.tooLong pattern items.length limit)) := by
  cases h with
  | faulty => exact absurd rfl hne
  | refused hstaged hall hlimit hlt =>
    exact ⟨_, _, _, hstaged, hall, .inr ⟨_, hlimit, hlt, rfl, rfl⟩⟩
  | complete hstaged hall => exact ⟨_, _, _, hstaged, hall, .inl ⟨rfl, rfl⟩⟩

end Accounts

/-- **The log agrees with the outcome.** Nothing is logged exactly if the text of the pattern is at
fault. Otherwise the log begins with one event, and that says what the stages make of the pattern
and how many items the pattern expands to without a limit. If the items come of it, that is all, and
there are as many as the event says. If they are more than the limit, the one other event says so,
with the same pattern and the same number. And whenever something of that lower level is logged, the
limit has been exceeded. -/
theorem report_log_agrees (options : Options) (pattern : String) :
    let log := (report options pattern).events
    let outcome := expandWithin options pattern
    (log = [] ↔ ∃ fault, outcome = .error fault ∧ fault.IsOfPattern) ∧
      (log ≠ [] → ∃ parts range items, Staged pattern parts range ∧ expand pattern = .ok items ∧
        ((log = [.opened pattern range items.length] ∧ outcome = .ok items) ∨
          ∃ limit, options.limit = some limit ∧ limit < items.length ∧
            log = [.opened pattern range items.length, .refused pattern items.length limit] ∧
            outcome = .error (.tooLong pattern items.length limit))) ∧
      ((∃ e ∈ log, e.level = .trace) ↔ ∃ fault, outcome = .error fault ∧ fault.kind = .limit) := by
  intro log outcome
  have h : Accounts options pattern log outcome := report_accounts options pattern
  exact ⟨h.eq_nil_iff, h.exists_opened, h.exists_trace_iff⟩

example :
    (report (.withLimits [2]) "é..ë").events =
      [.opened "é..ë" ⟨.character, 0xE9, 0xEB, 1⟩ 3, .refused "é..ë" 3 2] := by decide

end RangePattern
