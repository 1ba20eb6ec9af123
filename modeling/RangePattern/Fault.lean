import RangePattern.Decimal.Reader
import RangePattern.Decimal.Writer

/-!
# Faults: why an expansion is refused

A pattern is refused for one of five reasons, and a `Fault` carries what its reason is about: the
pattern, or the token at fault in the spelling it was given in. Four reasons concern the text of
the pattern. The fifth, `tooLong`, concerns a good pattern that stands for more items than the
caller allows.

* `Fault.message` — the fault in words. Patterns and tokens stand in it as they are, nothing is
  escaped; numbers are canonical decimals.
* `Fault.kind` — the coarse classification, with a name of its own in `Kind.text`.
* `Fault.cause` — why a token that should be a number is none, for the two faults that have such
  a cause.
-/

namespace RangePattern

open Decimal (Misread)

/-- Why an expansion is refused. -/
inductive Fault
  /-- The pattern has neither two nor three segments. -/
  | segmentCount (pattern : String) (segments : Nat)
  /-- A token that should be a single character is none. -/
  | notCharacter (token : String)
  /-- The third segment is no ordinal. -/
  | increment (token : String) (cause : Misread)
  /-- A bound that should be a number is no ordinal. -/
  | bound (token : String) (cause : Misread)
  /-- The pattern stands for more items than the limit allows. -/
  | tooLong (pattern : String) (length limit : Nat)
  deriving DecidableEq, Repr

namespace Fault

/-! ### Kinds -/

/-- What a fault is about. -/
inductive Kind
  /-- The form of the pattern. -/
  | format
  /-- The increment. -/
  | increment
  /-- A numeric bound. -/
  | number
  /-- The limit on the number of items. -/
  | limit
  deriving DecidableEq, Repr

/-- The name of a kind. -/
def Kind.text : Kind → String
  | .format => "invalid pattern format"
  | .increment => "increment parse error"
  | .number => "numeric parse error"
  | .limit => "limit exceeded"

/-- The kinds in the order in which they are listed for a caller. -/
def Kind.all : List Kind := [.format, .increment, .number, .limit]

/-- The kind of a fault. -/
def kind : Fault → Kind
  | segmentCount .. => .format
  | notCharacter .. => .format
  | increment .. => .increment
  | bound .. => .number
  | tooLong .. => .limit

/-! ### Messages -/

/-- Why the token is no number, if that is the fault. -/
def cause : Fault → Option Misread
  | increment _ reason => some reason
  | bound _ reason => some reason
  | _ => none

/-- A piece of text between backquotes. -/
def quoted (text : String) : String := "`" ++ text ++ "`"

/-- The fault in words. -/
def message : Fault → String
  | segmentCount pattern segments =>
    Kind.format.text ++ ": " ++ quoted pattern ++ " has " ++ Decimal.ofNat segments ++
      " `..`-separated segment(s), expected 2 or 3"
  | notCharacter token => Kind.format.text ++ ": cannot decode rune " ++ quoted token
  | increment token reason => "cannot decode increment " ++ quoted token ++ ": " ++ reason.text
  | bound token reason => "cannot decode number " ++ quoted token ++ ": " ++ reason.text
  | tooLong pattern length limit =>
    "pattern " ++ quoted pattern ++ " expands to " ++ Decimal.ofNat length ++ " items (max " ++
      Decimal.ofNat limit ++ ")"

end Fault

end RangePattern
