import DeckDoc.Json.Fault

namespace DeckDoc.Json

/-- A part of a quoted text: a character as it is, an escaped one, or a UTF-16 code unit. -/
inductive Piece where
  | plain (c : Char)
  | escaped (c : Char)
  | unit (code : Nat)
  deriving DecidableEq

/-- The bytes a piece takes up. -/
def Piece.size : Piece → Nat
  | plain c => c.utf8Size
  | escaped _ => 2
  | unit _ => 6

/-- The bytes that pieces take up together. -/
def Piece.sizes (ps : List Piece) : Nat := ps.foldr (fun p n => p.size + n) 0

/-- What comes after the last piece of a quoted text: the closing quote and what follows it, the
end of the text, a character that must not stand in quotes, a backslash before a letter without a
meaning, or one before something else than four hexadecimal digits. -/
inductive Ending where
  | closed (rest : List Char)
  | endOfText
  | control
  | badLetter
  | badDigits
  deriving DecidableEq

/-- The inside of a quoted text. -/
structure Escaped where
  pieces : List Piece
  ending : Ending
  deriving DecidableEq

namespace Escaped

def hexDigit (c : Char) : Option Nat :=
  if c.isDigit then some (c.toNat - '0'.toNat)
  else if 'a' ≤ c ∧ c ≤ 'f' then some (c.toNat - 'a'.toNat + 10)
  else if 'A' ≤ c ∧ c ≤ 'F' then some (c.toNat - 'A'.toNat + 10)
  else none

def hexUnit (a b c d : Char) : Option Nat := do
  return (((← hexDigit a) * 16 + (← hexDigit b)) * 16 + (← hexDigit c)) * 16 + (← hexDigit d)

/-- The character that a letter after a backslash stands for. -/
def letter (c : Char) : Option Char :=
  if c = '"' ∨ c = '\\' ∨ c = '/' then some c
  else if c = 'b' then some '\x08'
  else if c = 'f' then some '\x0c'
  else if c = 'n' then some '\n'
  else if c = 'r' then some '\r'
  else if c = 't' then some '\t'
  else none

def size (cs : List Char) : Nat := cs.foldr (fun c n => c.utf8Size + n) 0

/-- Four bytes are read before they are found to be no digits. -/
def unitEnding (cs : List Char) : Ending := if size cs < 4 then .endOfText else .badDigits

def cons (p : Piece) (e : Escaped) : Escaped := ⟨p :: e.pieces, e.ending⟩

/-- Splits what follows an opening quote into pieces. -/
def scan : List Char → Escaped
  | [] => ⟨[], .endOfText⟩
  | '"' :: rest => ⟨[], .closed rest⟩
  | '\\' :: 'u' :: a :: b :: c :: d :: rest =>
    match hexUnit a b c d with
    | some code => cons (.unit code) (scan rest)
    | none => ⟨[], unitEnding (a :: b :: c :: d :: rest)⟩
  | '\\' :: 'u' :: rest => ⟨[], unitEnding rest⟩
  | '\\' :: c :: rest =>
    match letter c with
    | some e => cons (.escaped e) (scan rest)
    | none => ⟨[], .badLetter⟩
  | ['\\'] => ⟨[], .endOfText⟩
  | c :: rest => if c.toNat < 0x20 then ⟨[], .control⟩ else cons (.plain c) (scan rest)

def isLeading (code : Nat) : Bool := 0xD800 ≤ code && code < 0xDC00

def isTrailing (code : Nat) : Bool := 0xDC00 ≤ code && code < 0xE000

/-- The character that a pair of surrogates stands for. -/
def pair (leading trailing : Nat) : Char :=
  Char.ofNat (0x10000 + (leading - 0xD800) * 0x400 + (trailing - 0xDC00))

/-- The fault of an ending that starts at `place`; none for a closing quote. -/
def fault? (place : Nat) : Ending → Option Fault
  | .closed _ => none
  | .endOfText => some ⟨.endOfString, place + 6⟩
  | .control => some ⟨.controlCharacter, place + 1⟩
  | .badLetter => some ⟨.invalidEscape, place + 2⟩
  | .badDigits => some ⟨.invalidEscape, place + 6⟩

/-- The fault of an ending that starts at `place` where the second half of a pair is due. -/
def pairFault (place : Nat) : Ending → Fault
  | .closed _ => ⟨.unfinishedSurrogate, place + 1⟩
  | .endOfText => ⟨.endOfString, place + 6⟩
  | .control => ⟨.unfinishedSurrogate, place + 1⟩
  | .badLetter => ⟨.unfinishedSurrogate, place + 2⟩
  | .badDigits => ⟨.invalidEscape, place + 6⟩

/-- The characters of the pieces from `place` on. Surrogates must come in pairs. -/
def decode (ending : Ending) (place : Nat) : List Piece → Except Fault (List Char)
  | [] => match fault? place ending with
    | none => .ok []
    | some f => .error f
  | .plain c :: rest => (decode ending (place + c.utf8Size) rest).map (c :: ·)
  | .escaped c :: rest => (decode ending (place + 2) rest).map (c :: ·)
  | .unit u :: rest =>
    if isTrailing u then .error ⟨.loneSurrogate, place + 6⟩
    else if isLeading u then
      match rest with
      | .unit v :: rest =>
        if isTrailing v then (decode ending (place + 12) rest).map (pair u v :: ·)
        else .error ⟨.loneSurrogate, place + 12⟩
      | .plain _ :: _ => .error ⟨.unfinishedSurrogate, place + 7⟩
      | .escaped _ :: _ => .error ⟨.unfinishedSurrogate, place + 8⟩
      | [] => .error (pairFault (place + 6) ending)
    else (decode ending (place + 6) rest).map (Char.ofNat u :: ·)

/-- The place after the pieces of a text that starts at `place`. -/
def stop (e : Escaped) (place : Nat) : Nat := place + Piece.sizes e.pieces

/-- The text that starts at `place`, after the opening quote. -/
def content (e : Escaped) (place : Nat) : Except Fault String :=
  (decode e.ending place e.pieces).map String.ofList

/-- The fault of a text of which only the end is looked for. A character that must not stand in
quotes is reported before it is passed. -/
def looseFault (e : Escaped) (place : Nat) : Option Fault :=
  match e.ending with
  | .control => some ⟨.controlCharacter, e.stop place⟩
  | ending => fault? (e.stop place) ending

end Escaped

end DeckDoc.Json
