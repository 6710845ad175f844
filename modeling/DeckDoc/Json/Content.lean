import DeckDoc.Json.Reader

namespace DeckDoc.Json

/-- What is kept of a value that is to be read in one of several ways. The members of an object stay
as they come, those of equal keys included. -/
inductive Content where
  | null
  | bool (value : Bool)
  | number (value : Number)
  | text (content : String)
  | list (entries : List Content)
  | object (members : List (String × Content))

mutual

/-- Keeps what a tree spells. -/
def Tree.content (room : Nat) : Tree → Except Fault Content
  | .missing place found => .error (.noValue place found)
  | .broken _ strict _ => .error strict
  | .null _ _ => .ok .null
  | .bool b _ _ => .ok (.bool b)
  | .number n _ _ => n.map .number
  | .text content _ _ => content.map .text
  | .list start items => do
    let room ← enter room start
    return .list (← items.contents room)
  | .object start members => do
    let room ← enter room start
    return .object (← members.contents room)

def Items.contents (room : Nat) : Items → Except Fault (List Content)
  | .closed _ => .ok []
  | .stray place found => .error (.noListComma place found)
  | .dangling place => .error ⟨.trailingComma, place + 1⟩
  | .cut fault => .error fault
  | .item value rest => do
    let c ← value.content room
    return c :: (← rest.contents room)

def Members.contents (room : Nat) : Members → Except Fault (List (String × Content))
  | .closed _ => .ok []
  | .stray place found => .error (.noObjectComma place found)
  | .keyless place found => .error (.noKey place found)
  | .badKey strict _ => .error strict
  | .bare key place found => do
    let _ ← key
    .error (.noColon place found)
  | .cut fault => .error fault
  | .member key _ value _ rest => do
    let k ← key
    let c ← value.content room
    return (k, c) :: (← rest.contents room)

end

namespace Content

mutual

/-- Keeps a value that has been read before. -/
def ofValue : Value → Content
  | .null => null
  | .bool b => bool b
  | .number n => number n
  | .text s => text s
  | .list vs => list (ofEntries vs)
  | .object ms => object (ofMembers ms)

def ofEntries : List Value → List Content
  | [] => []
  | v :: vs => ofValue v :: ofEntries vs

def ofMembers : List (String × Value) → List (String × Content)
  | [] => []
  | (k, v) :: ms => (k, ofValue v) :: ofMembers ms

end

mutual

/-- Any content is that of a value. Only here do members with equal keys become one. -/
def value : Content → Value
  | null => .null
  | bool b => .bool b
  | number n => .number n
  | text s => .text s
  | list cs => .list (entryValues cs)
  | object ms => .object (Value.merge (memberValues ms))

def entryValues : List Content → List Value
  | [] => []
  | c :: cs => value c :: entryValues cs

def memberValues : List (String × Content) → List (String × Value)
  | [] => []
  | (k, c) :: ms => (k, value c) :: memberValues ms

end

def bool? : Content → Option Bool
  | bool b => some b
  | _ => none

def number? : Content → Option Number
  | number n => some n
  | _ => none

def text? : Content → Option String
  | text s => some s
  | _ => none

end Content

end DeckDoc.Json
