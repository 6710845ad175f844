import DeckDoc.Json.Escaped
import DeckDoc.Json.Numeral

namespace DeckDoc.Json

/-- The kinds of lexemes. A number may be out of range and a text may hold half a surrogate pair
without harm to what follows. A broken lexeme ends the text: it has one fault for a reader who wants
its value and one for a reader who passes over it. -/
inductive Token where
  | openList
  | closeList
  | openObject
  | closeObject
  | comma
  | colon
  | null
  | bool (value : Bool)
  | number (value : Except Fault Number)
  | text (content : Except Fault String)
  | broken (strict loose : Fault)
  | stray

/-- A lexeme with its first character and the places before and after it. -/
structure Lexeme where
  token : Token
  first : Char
  start : Nat
  stop : Nat

namespace Lexeme

/-- The blanks that may stand between lexemes. -/
def isSpace (c : Char) : Bool := c = ' ' || c = '\t' || c = '\n' || c = '\r'

/-- The first difference between a text and a word that it should begin with. -/
def wordFault (place : Nat) : List Char → List Char → Option Fault
  | [], _ => none
  | _ :: _, [] => some ⟨.endOfValue, place⟩
  | w :: word, c :: cs =>
    if w = c then wordFault (place + 1) word cs else some ⟨.expectedWord, place + 1⟩

def ofWord (place : Nat) (word : List Char) (token : Token) (c : Char) (rest : List Char) :
    Lexeme :=
  match wordFault place word (c :: rest) with
  | none => ⟨token, c, place, place + word.length⟩
  | some f => ⟨.broken f f, c, place, f.place⟩

def ofNumber (place : Nat) (c : Char) (rest : List Char) : Lexeme :=
  match Numeral.scan (c :: rest) with
  | .ok (n, _) =>
    let stop := place + n.spelling.length
    let value := match n.value with
      | some v => .ok v
      | none => .error ⟨.numberOutOfRange, stop - n.unread⟩
    ⟨.number value, c, place, stop⟩
  | .error left =>
    let stop := place + (rest.length + 1 - left.length) + 1
    ⟨.broken ⟨if left.isEmpty then .endOfValue else .invalidNumber, stop⟩ ⟨.invalidNumber, stop⟩,
      c, place, stop⟩

def ofQuoted (place : Nat) (c : Char) (rest : List Char) : Lexeme :=
  let e := Escaped.scan rest
  let content := e.content (place + 1)
  match e.looseFault (place + 1) with
  | none => ⟨.text content, c, place, e.stop (place + 1) + 1⟩
  | some loose =>
    let strict := match content with
      | .error f => f
      | .ok _ => loose
    ⟨.broken strict loose, c, place, e.stop (place + 1)⟩

/-- The lexeme that starts with `c` and perhaps goes on in `rest`. -/
def scan (place : Nat) (c : Char) (rest : List Char) : Lexeme :=
  match c with
  | '[' => ⟨.openList, c, place, place + 1⟩
  | ']' => ⟨.closeList, c, place, place + 1⟩
  | '\x7b' => ⟨.openObject, c, place, place + 1⟩
  | '\x7d' => ⟨.closeObject, c, place, place + 1⟩
  | ',' => ⟨.comma, c, place, place + 1⟩
  | ':' => ⟨.colon, c, place, place + 1⟩
  | 'n' => ofWord place ['n', 'u', 'l', 'l'] .null c rest
  | 't' => ofWord place ['t', 'r', 'u', 'e'] (.bool true) c rest
  | 'f' => ofWord place ['f', 'a', 'l', 's', 'e'] (.bool false) c rest
  | '"' => ofQuoted place c rest
  | _ =>
    if c = '-' || c.isDigit then ofNumber place c rest else ⟨.stray, c, place, place + c.utf8Size⟩

/-- Nothing after a lexeme of this kind can be read. -/
def isLast : Token → Bool
  | .broken _ _ => true
  | .stray => true
  | _ => false

/-- The lexemes of a text that begins at `place`; what stands before `resume` has been read. -/
def scanAll (place resume : Nat) : List Char → List Lexeme
  | [] => []
  | c :: rest =>
    if place < resume || isSpace c then scanAll (place + c.utf8Size) resume rest
    else
      let l := scan place c rest
      if isLast l.token then [l] else l :: scanAll (place + c.utf8Size) l.stop rest

def ofText (text : String) : List Lexeme := scanAll 0 0 text.toList

end Lexeme

end DeckDoc.Json
