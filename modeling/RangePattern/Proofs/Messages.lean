import Mathlib.Data.Fintype.Sum
import Mathlib.Data.List.DropRight
import Mathlib.Tactic.DeriveFintype
import RangePattern.Fault
import RangePattern.Proofs.Canonical

/-!
# Messages tell faults apart

A message quotes a pattern or a token as it is, without escaping anything. The text may hold
backquotes, digits or whole messages of its own, so the backquotes around it do not say where it
ends. All the same the message can be read back.

* From the left: every kind of fault has an opening of its own, up to and with the first backquote,
  and none of these is a prefix of another (`Fault.Template.opening_append_inj`).
* From the right: what stands behind the text is a word of a **suffix code**, and so it is known
  where it begins, whatever stands in front of it (`SuffixCode.append_inj`). The words are put
  together from fixed texts, causes and numbers. A number is preceded by a text that does not end
  with a digit, so its digits are the longest run of digits before the text behind it.

The main statement is `Fault.message_eq_message_iff`.
-/

namespace RangePattern

open Decimal (Misread digits)

/-! ## Words that can be read from the right -/

/-- No word stands at the end of another one. -/
def SuffixCode {α : Type} (f : α → List Char) : Prop := ∀ a b, f a <:+ f b → a = b

namespace SuffixCode

variable {α β : Type} {f : α → List Char} {g : β → List Char}

/-- **A word at the end of a text** is known, and so is the text in front of it. -/
theorem append_inj (hf : SuffixCode f) {cs ds : List Char} {a b : α}
    (h : cs ++ f a = ds ++ f b) : cs = ds ∧ a = b := by
  have ha : f a <:+ cs ++ f a := List.suffix_append _ _
  have hb : f b <:+ cs ++ f a := h ▸ List.suffix_append _ _
  -- Both words end the same text, so one of them ends the other one.
  have hab : a = b := by
    rcases List.suffix_or_suffix_of_suffix ha hb with hs | hs
    · exact hf a b hs
    · exact (hf b a hs).symm
  subst hab
  exact ⟨List.append_cancel_right h, rfl⟩

/-- The same text may follow all words. -/
theorem append_text (hf : SuffixCode f) (text : List Char) :
    SuffixCode fun a => f a ++ text := by
  rintro a b ⟨cs, h⟩
  rw [← List.append_assoc] at h
  exact hf a b ⟨cs, List.append_cancel_right h⟩

/-- The same text may precede all words. -/
theorem text_append (hf : SuffixCode f) (text : List Char) :
    SuffixCode fun a => text ++ f a := by
  rintro a b ⟨cs, h⟩
  rw [← List.append_assoc] at h
  exact (hf.append_inj h).2

/-- Words of two suffix codes may be put behind each other. -/
theorem append (hf : SuffixCode f) (hg : SuffixCode g) :
    SuffixCode fun p : α × β => f p.1 ++ g p.2 := by
  rintro ⟨a, c⟩ ⟨b, d⟩ ⟨cs, h⟩
  rw [← List.append_assoc] at h
  obtain ⟨hfront, rfl⟩ := hg.append_inj h
  obtain rfl := hf a b ⟨cs, hfront⟩
  rfl

end SuffixCode

/-- Behind a character that is no digit, the digits of a number are the longest run of digits at the
end. -/
theorem rtakeWhile_append_digits {c : Char} (hc : c.isDigit = false) (cs : List Char) (n : Nat) :
    ((cs ++ [c]) ++ digits n).rtakeWhile Char.isDigit = digits n := by
  have hreverse : ((cs ++ [c]) ++ digits n).reverse = (digits n).reverse ++ c :: cs.reverse := by
    simp
  have hdigits : ∀ d ∈ (digits n).reverse, d.isDigit = true :=
    fun d hd => Decimal.isDigit_of_mem_digits (List.mem_reverse.mp hd)
  rw [List.rtakeWhile, hreverse, List.takeWhile_append_of_pos hdigits,
    List.takeWhile_cons_of_neg (by simp [hc]), List.append_nil, List.reverse_reverse]

/-- **Numbers behind a text** are a suffix code, if the text does not end with a digit. -/
theorem suffixCode_digits {text : List Char} {c : Char} (hlast : text.getLast? = some c)
    (hc : c.isDigit = false) : SuffixCode fun n => text ++ digits n := by
  obtain ⟨front, rfl⟩ := List.getLast?_eq_some_iff.mp hlast
  rintro m n ⟨cs, h⟩
  rw [← List.append_assoc, ← List.append_assoc] at h
  have hrun := congrArg (List.rtakeWhile Char.isDigit) h
  rw [rtakeWhile_append_digits hc, rtakeWhile_append_digits hc] at hrun
  exact Decimal.digits_injective hrun

/-- There are finitely many causes, so what holds of each of them can be decided. -/
instance : Fintype Misread := derive_fintype% _

/-- **Causes** are a suffix code. There are only a few of them, so this is a matter of comparing
their texts. -/
theorem suffixCode_cause : SuffixCode fun cause : Misread => cause.text.toList := by
  unfold SuffixCode
  decide +kernel

namespace Fault

/-! ## Templates -/

/-- How a message is worded, one wording for each kind of fault. -/
inductive Template
  /-- The number of segments is wrong. -/
  | segmentCount
  /-- A token is not a single character. -/
  | notCharacter
  /-- The increment is no number. -/
  | increment
  /-- A bound is no number. -/
  | bound
  /-- There are too many items. -/
  | tooLong
  deriving DecidableEq

namespace Template

/-- There are finitely many templates, too. -/
instance : Fintype Template := derive_fintype% _

/-- What a message says beside the text that it quotes. -/
def Data : Template → Type
  | segmentCount => Nat
  | notCharacter => Unit
  | increment => Misread
  | bound => Misread
  | tooLong => Nat × Nat

/-- The message in front of the quoted text. -/
def opening : Template → List Char
  | segmentCount => "invalid pattern format: `".toList
  | notCharacter => "invalid pattern format: cannot decode rune `".toList
  | increment => "cannot decode increment `".toList
  | bound => "cannot decode number `".toList
  | tooLong => "pattern `".toList

/-- The message behind the quoted text. -/
def closing : (t : Template) → t.Data → List Char
  | segmentCount => fun n =>
    ("` has ".toList ++ digits n) ++ " `..`-separated segment(s), expected 2 or 3".toList
  | notCharacter => fun _ => "`".toList
  | increment => fun cause => "`: ".toList ++ cause.text.toList
  | bound => fun cause => "`: ".toList ++ cause.text.toList
  | tooLong => fun p =>
    (("` expands to ".toList ++ digits p.1) ++ (" items (max ".toList ++ digits p.2)) ++
      ")".toList

/-- No opening is the beginning of another one. -/
theorem eq_of_prefix_opening : ∀ {t u : Template}, t.opening <+: u.opening → t = u := by
  decide +kernel

/-- So the opening of a message is known, and what follows it. -/
theorem opening_append_inj {t u : Template} {cs ds : List Char}
    (h : t.opening ++ cs = u.opening ++ ds) : t = u ∧ cs = ds := by
  have ht : t.opening <+: t.opening ++ cs := List.prefix_append _ _
  have hu : u.opening <+: t.opening ++ cs := h ▸ List.prefix_append _ _
  have htu : t = u := by
    rcases List.prefix_or_prefix_of_prefix ht hu with hp | hp
    · exact eq_of_prefix_opening hp
    · exact (eq_of_prefix_opening hp).symm
  subst htu
  exact ⟨rfl, List.append_cancel_left h⟩

/-- **The closings of a template are a suffix code.** -/
theorem suffixCode_closing : (t : Template) → SuffixCode t.closing
  | segmentCount => (suffixCode_digits (c := ' ') rfl rfl).append_text _
  | notCharacter => fun _ _ _ => rfl
  | increment => suffixCode_cause.text_append _
  | bound => suffixCode_cause.text_append _
  | tooLong =>
    ((suffixCode_digits (c := ' ') rfl rfl).append
      (suffixCode_digits (c := ' ') rfl rfl)).append_text _

end Template

/-! ## What a message says -/

/-- A template with all that is filled into it. -/
structure Statement where
  /-- How the message is worded. -/
  template : Template
  /-- The pattern or the token that it quotes. -/
  text : String
  /-- What else it says. -/
  data : template.Data

namespace Statement

/-- The characters of the message. -/
def chars (s : Statement) : List Char :=
  s.template.opening ++ (s.text.toList ++ s.template.closing s.data)

/-- **A message says one thing only**, whatever it quotes. -/
theorem eq_of_chars_eq {s s' : Statement} (h : s.chars = s'.chars) : s = s' := by
  obtain ⟨t, text, data⟩ := s
  obtain ⟨t', text', data'⟩ := s'
  -- The opening is read from the left, and then the closing from the right. The text is what is
  -- left between the two, so nothing is asked of it.
  obtain ⟨htemplate, hrest⟩ := Template.opening_append_inj h
  obtain rfl : t = t' := htemplate
  obtain ⟨htext, hdata⟩ := t.suffixCode_closing.append_inj hrest
  obtain rfl : text = text' := String.toList_inj.mp htext
  obtain rfl : data = data' := hdata
  rfl

/-- The fault that is stated. -/
def fault : Statement → Fault
  | ⟨.segmentCount, pattern, segments⟩ => .segmentCount pattern segments
  | ⟨.notCharacter, token, _⟩ => .notCharacter token
  | ⟨.increment, token, cause⟩ => .increment token cause
  | ⟨.bound, token, cause⟩ => .bound token cause
  | ⟨.tooLong, pattern, p⟩ => .tooLong pattern p.1 p.2

end Statement

/-- What the message of a fault says. -/
def statement : Fault → Statement
  | segmentCount pattern segments => ⟨.segmentCount, pattern, segments⟩
  | notCharacter token => ⟨.notCharacter, token, ()⟩
  | increment token cause => ⟨.increment, token, cause⟩
  | bound token cause => ⟨.bound, token, cause⟩
  | tooLong pattern length limit => ⟨.tooLong, pattern, (length, limit)⟩

/-- A fault is all that its message says. -/
theorem fault_statement (f : Fault) : f.statement.fault = f := by
  cases f <;> rfl

/-- The message of a fault is worded by its template. -/
theorem toList_message (f : Fault) : f.message.toList = f.statement.chars := by
  cases f <;>
  · unfold message Statement.chars statement Template.opening Template.closing
    simp [quoted, Kind.text, Decimal.ofNat]

/-- **Messages tell faults apart.** Two faults have the same message exactly if they are the same
fault: of one kind, with the same text, numbers and cause. -/
theorem message_eq_message_iff {f g : Fault} : f.message = g.message ↔ f = g := by
  constructor
  · intro h
    have hchars : f.statement.chars = g.statement.chars := by
      rw [← toList_message, ← toList_message, h]
    rw [← fault_statement f, ← fault_statement g, Statement.eq_of_chars_eq hchars]
  · rintro rfl
    rfl

end Fault

end RangePattern
