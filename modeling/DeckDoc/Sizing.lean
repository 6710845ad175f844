import DeckDoc.Json.Layout
import DeckDoc.Literal

namespace DeckDoc

open Json

/-- The item of a keyword that a count is taken from. -/
structure Reference where
  keyword : Option String := none
  item : Option Literal := none

namespace Reference

inductive Key where
  | keyword
  | item
  deriving DecidableEq

namespace Key

def all : List Key := [keyword, item]

def label : Key → String
  | keyword => "keyword"
  | item => "item"

abbrev Content : Key → Type
  | keyword => Option String
  | item => Option Literal

def read : (k : Key) → Reader k.Content Rejection
  | keyword => Reader.text.optional.placed
  | item => Literal.reader.optional

end Key

def ofContents (c : Contents Key.Content) : Reference where
  keyword := (c .keyword).join
  item := (c .item).join

def layout : Layout Key Key.Content Reference where
  title := "KeywordRef"
  keys := Key.all
  label := Key.label
  read := Key.read
  optional := fun _ => false
  make := fun c => .ok (ofContents c)

theorem key?_label (k : Key) : layout.key? k.label = some k := by
  cases k <;> decide

/-- Reads a reference from a text of its own. -/
def ofText (text : String) : Except Fault Reference := layout.reader.ofText text

def itemOf (members : List (String × Value)) : Except Cause (Option Literal) :=
  match members.lookup "item" with
  | none | some .null => .ok none
  | some v => (Literal.ofValue v).map some

def keywordOf (members : List (String × Value)) : Except Cause (Option String) :=
  match members.lookup "keyword" with
  | none | some .null => .ok none
  | some (.text s) => .ok (some s)
  | some v => .error (.wrongType v.found .text)

/-- The reference among the members of an object that has been read as a value. They come in the
order of their keys. -/
def ofMembers (members : List (String × Value)) : Except Cause Reference := do
  let item ← itemOf members
  let keyword ← keywordOf members
  return ⟨keyword, item⟩

def toValue (r : Reference) : Value :=
  .object [
    ("keyword", Value.ofOption .text r.keyword),
    ("item", Value.ofOption Literal.toValue r.item)]

instance : BEq Reference where
  beq r s := r.keyword == s.keyword && r.item == s.item

end Reference

/-- How many records or tables there are: as many as an item of another keyword says, or a count of
their own. -/
inductive Sizing where
  | reference (source : Reference)
  | fixed (count : Literal)

namespace Sizing

/-- Only an object is a reference. -/
def ofValue : Value → Except Cause Sizing
  | .object members => (Reference.ofMembers members).map reference
  | v => (Literal.ofValue v).map fixed

/-- A sizing is read as a value first, so a fault of its shape has no place of its own. -/
def reader : Reader Sizing Rejection := fun room tree =>
  match tree.value room with
  | .error f => .error (.ofFault f)
  | .ok v => (ofValue v).mapError fun cause => ⟨cause, none⟩

def ofText (text : String) : Except Rejection Sizing := reader.readText text

def toValue : Sizing → Value
  | reference r => r.toValue
  | fixed l => l.toValue

instance : BEq Sizing where
  beq
    | reference r, reference s => r == s
    | fixed l, fixed m => l == m
    | _, _ => false

end Sizing

end DeckDoc
