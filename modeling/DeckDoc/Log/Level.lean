namespace DeckDoc

/-- How much of what happens is logged, from nothing to everything. -/
inductive LogLevel where
  | off
  | error
  | warn
  | info
  | debug
  | trace
  deriving DecidableEq

namespace LogLevel

def rank : LogLevel → Nat
  | off => 0
  | error => 1
  | warn => 2
  | info => 3
  | debug => 4
  | trace => 5

def ofRank? : Nat → Option LogLevel
  | 0 => some off
  | 1 => some error
  | 2 => some warn
  | 3 => some info
  | 4 => some debug
  | 5 => some trace
  | _ => none

theorem ofRank?_rank (level : LogLevel) : ofRank? level.rank = some level := by
  cases level <;> rfl

def ofName? (name : String) : Option LogLevel :=
  match name.toLower with
  | "off" => some off
  | "error" => some error
  | "warn" => some warn
  | "info" => some info
  | "debug" => some debug
  | "trace" => some trace
  | _ => none

/-- A number in decimal digits, perhaps after a plus sign. -/
def number? (cs : List Char) : Option Nat :=
  let digits := if cs.head? = some '+' then cs.tail else cs
  if digits ≠ [] ∧ digits.all Char.isDigit then some (Nat.ofDigitChars 10 digits 0) else none

/-- A level by number, or by name in letters of either case. -/
def ofText? (cs : List Char) : Option LogLevel :=
  match number? cs with
  | some n => ofRank? n
  | none => ofName? (String.ofList cs)

end LogLevel

end DeckDoc
