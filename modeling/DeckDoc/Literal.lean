import DeckDoc.Json.Content

namespace DeckDoc

open Json

/-- A loosely typed scalar of a description: a default, a dimension, a position or a count. Lists
hold literals again; an object, or a `null` that is not left out, is kept as it is. -/
inductive Literal where
  | bool (value : Bool)
  | number (value : Number)
  | text (content : String)
  | list (entries : List Literal)
  | other (value : Value)

namespace Literal

def ofString (s : String) : Literal := .text s

def ofInt (i : Int) : Literal := .number (.integer i)

mutual

def toValue : Literal → Value
  | .bool b => .bool b
  | .number n => .number n
  | .text s => .text s
  | .list ls => .list (toValues ls)
  | .other v => v

def toValues : List Literal → List Value
  | [] => []
  | l :: ls => toValue l :: toValues ls

end

/-- The kinds of literals, in the order in which they are tried. -/
inductive Kind where
  | bool
  | number
  | text
  | list
  | other

namespace Kind

def all : List Kind := [bool, number, text, list, other]

/-- What a kind makes of content that it takes. The entries are the literals that a list is made of,
if the content is a list and each of its entries is a literal. -/
def take (c : Content) (entries : Option (List Literal)) : Kind → Option Literal
  | bool => c.bool?.map .bool
  | number => c.number?.map .number
  | text => c.text?.map .text
  | list => entries.map .list
  | other => some (.other c.value)

end Kind

/-- The first kind that takes the content decides. -/
def ofKinds (c : Content) (entries : Option (List Literal)) : Except Cause Literal :=
  match Kind.all.findSome? (Kind.take c entries) with
  | some l => .ok l
  | none => .error (.noVariant "Literal")

mutual

/-- Makes a literal of content. An entry that is none makes its list none, but the list may still be
of another kind. -/
def ofContent : Content → Except Cause Literal
  | .list cs => ofKinds (.list cs) (ofContents cs).toOption
  | c => ofKinds c none

def ofContents : List Content → Except Cause (List Literal)
  | [] => .ok []
  | c :: cs => do
    let l ← ofContent c
    return l :: (← ofContents cs)

end

/-- Makes a literal of a value that has been read before. -/
def ofValue (v : Value) : Except Cause Literal := ofContent (.ofValue v)

mutual

def beq : Literal → Literal → Bool
  | .bool a, .bool b => a == b
  | .number m, .number n => m == n
  | .text s, .text t => s == t
  | .list ls, .list ms => beqEntries ls ms
  | .other v, .other w => v == w
  | _, _ => false

def beqEntries : List Literal → List Literal → Bool
  | [], [] => true
  | l :: ls, m :: ms => beq l m && beqEntries ls ms
  | _, _ => false

end

instance : BEq Literal := ⟨beq⟩

mutual

/-- The text shown for a literal: strings without quotes, the entries of lists one after the other,
all else as in JSON. -/
def display : Literal → String
  | .bool b => if b then "true" else "false"
  | .number n => n.text
  | .text s => s
  | .list ls => ", ".intercalate (displays ls)
  | .other v => v.written

def displays : List Literal → List String
  | [] => []
  | l :: ls => display l :: displays ls

end

theorem displays_eq_map (ls : List Literal) : displays ls = ls.map display := by
  induction ls with
  | nil => rfl
  | cons l ls ih => simp [displays, ih]

/-- A literal is made of what a text spells, so a fault of its kind has no place of its own. -/
def reader : Reader Literal Rejection := fun room tree =>
  match tree.content room with
  | .error f => .error (.ofFault f)
  | .ok c => (ofContent c).mapError fun cause => ⟨cause, none⟩

/-- Reads a literal from a text of its own. A fault without a place is reported at the end. -/
def ofText (text : String) : Except Fault Literal :=
  (reader.readText text).mapError fun r => r.settle text.utf8ByteSize

end Literal

end DeckDoc
