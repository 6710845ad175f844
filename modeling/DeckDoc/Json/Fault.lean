import DeckDoc.Json.Value
import DeckDoc.Text.Quoted

namespace DeckDoc.Json

/-- What stands where something else was wanted. -/
inductive Found where
  | null
  | bool (value : Bool)
  | number (value : Number)
  | text (content : String)
  | list
  | object

def Value.found : Value → Found
  | null => .null
  | bool b => .bool b
  | number n => .number n
  | text s => .text s
  | list _ => .list
  | object _ => .object

def Found.message : Found → String
  | null => "null"
  | bool b => "boolean `" ++ (if b then "true" else "false") ++ "`"
  | number (.integer i) => "integer `" ++ i.repr ++ "`"
  | number (.real x) => "floating point `" ++ writtenFloat x ++ "`"
  | text s => "string " ++ Text.quoted s
  | list => "sequence"
  | object => "map"

inductive Wanted where
  | text
  | list
  | record (title : String)

def Wanted.message : Wanted → String
  | text => "a string"
  | list => "a sequence"
  | record title => "struct " ++ title

/-- Why a text is refused: first the faults of its grammar, then those of its shape. -/
inductive Cause where
  | endOfValue
  | endOfString
  | endOfList
  | endOfObject
  | expectedValue
  | expectedWord
  | expectedColon
  | expectedListComma
  | expectedObjectComma
  | trailingComma
  | trailingText
  | keyNotText
  | invalidNumber
  | numberOutOfRange
  | invalidEscape
  | controlCharacter
  | loneSurrogate
  | unfinishedSurrogate
  | tooDeep
  | wrongType (found : Found) (wanted : Wanted)
  | wrongLength (length : Nat) (title : String) (size : Nat)
  | duplicateField (label : String)
  | missingField (label : String)
  | noVariant (title : String)

def Cause.message : Cause → String
  | endOfValue => "EOF while parsing a value"
  | endOfString => "EOF while parsing a string"
  | endOfList => "EOF while parsing a list"
  | endOfObject => "EOF while parsing an object"
  | expectedValue => "expected value"
  | expectedWord => "expected ident"
  | expectedColon => "expected `:`"
  | expectedListComma => "expected `,` or `]`"
  | expectedObjectComma => "expected `,` or `\x7d`"
  | trailingComma => "trailing comma"
  | trailingText => "trailing characters"
  | keyNotText => "key must be a string"
  | invalidNumber => "invalid number"
  | numberOutOfRange => "number out of range"
  | invalidEscape => "invalid escape"
  | controlCharacter => "control character (\\u0000-\\u001F) found while parsing a string"
  | loneSurrogate => "lone leading surrogate in hex escape"
  | unfinishedSurrogate => "unexpected end of hex escape"
  | tooDeep => "recursion limit exceeded"
  | wrongType found wanted => "invalid type: " ++ found.message ++ ", expected " ++ wanted.message
  | wrongLength n title size =>
    "invalid length " ++ n.repr ++ ", expected struct " ++ title ++ " with " ++ size.repr ++
      (if size = 1 then " element" else " elements")
  | duplicateField label => "duplicate field `" ++ label ++ "`"
  | missingField label => "missing field `" ++ label ++ "`"
  | noVariant title => "data did not match any variant of untagged enum " ++ title

/-- A place in a text for people: lines count from one, columns are the bytes before the place on
its line. -/
structure Position where
  line : Nat
  column : Nat
  deriving DecidableEq, Repr

/-- The position `place` bytes further on, or at the end of the text if that comes first. -/
def Position.advance (p : Position) : Nat → List Char → Position
  | _, [] => p
  | place, c :: rest =>
    if place = 0 then p
    else if c = '\n' then advance ⟨p.line + 1, 0⟩ (place - 1) rest
    else if place < c.utf8Size then ⟨p.line, p.column + place⟩
    else advance ⟨p.line, p.column + c.utf8Size⟩ (place - c.utf8Size) rest

def Position.ofPlace (text : String) (place : Nat) : Position :=
  Position.advance ⟨1, 0⟩ place text.toList

theorem Position.ofPlace_zero (text : String) : Position.ofPlace text 0 = ⟨1, 0⟩ := by
  unfold ofPlace
  cases text.toList <;> simp [advance]

/-- A cause and the number of bytes before the place it is reported at; a place beyond the end of
the text stands for its end. -/
structure Fault where
  cause : Cause
  place : Nat

def Fault.message (f : Fault) (text : String) : String :=
  let p := Position.ofPlace text f.place
  f.cause.message ++ " at line " ++ p.line.repr ++ " column " ++ p.column.repr

/-- A fault whose place may have to be given by the record around it. -/
structure Rejection where
  cause : Cause
  place : Option Nat

namespace Rejection

def ofFault (f : Fault) : Rejection := ⟨f.cause, some f.place⟩

/-- Reports a rejection without a place of its own at the given one. -/
def settle (r : Rejection) (place : Nat) : Fault := ⟨r.cause, r.place.getD place⟩

def message (r : Rejection) (text : String) : String :=
  match r.place with
  | some p => Fault.message ⟨r.cause, p⟩ text
  | none => r.cause.message

end Rejection

end DeckDoc.Json
