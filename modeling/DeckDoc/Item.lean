import DeckDoc.Json.Layout
import DeckDoc.Literal

namespace DeckDoc

open Json

/-- An item of a record or of a flat list of items. -/
structure Item where
  item : Option Literal := none
  name : Option String := none
  valueType : Option String := none
  default : Option Literal := none
  defaultValue : Option Literal := none
  dimension : Option Literal := none
  dimensions : Option Literal := none
  description : Option String := none
  comment : Option String := none

namespace Item

inductive Key where
  | item
  | name
  | valueType
  | default
  | defaultValue
  | dimension
  | dimensions
  | description
  | comment
  deriving DecidableEq

namespace Key

def all : List Key :=
  [item, name, valueType, default, defaultValue, dimension, dimensions, description, comment]

def label : Key → String
  | item => "item"
  | name => "name"
  | valueType => "value_type"
  | default => "default"
  | defaultValue => "default_value"
  | dimension => "dimension"
  | dimensions => "dimensions"
  | description => "description"
  | comment => "comment"

abbrev Content : Key → Type
  | item => Option Literal
  | name => Option String
  | valueType => Option String
  | default => Option Literal
  | defaultValue => Option Literal
  | dimension => Option Literal
  | dimensions => Option Literal
  | description => Option String
  | comment => Option String

def read : (k : Key) → Reader k.Content Rejection
  | item => Literal.reader.optional
  | name => Reader.text.optional.placed
  | valueType => Reader.text.optional.placed
  | default => Literal.reader.optional
  | defaultValue => Literal.reader.optional
  | dimension => Literal.reader.optional
  | dimensions => Literal.reader.optional
  | description => Reader.text.optional.placed
  | comment => Reader.text.optional.placed

end Key

/-- A key that is missing counts as one with `null`. -/
def ofContents (c : Contents Key.Content) : Item where
  item := (c .item).join
  name := (c .name).join
  valueType := (c .valueType).join
  default := (c .default).join
  defaultValue := (c .defaultValue).join
  dimension := (c .dimension).join
  dimensions := (c .dimensions).join
  description := (c .description).join
  comment := (c .comment).join

def layout : Layout Key Key.Content Item where
  title := "Item"
  keys := Key.all
  label := Key.label
  read := Key.read
  optional := fun _ => false
  make := fun c => .ok (ofContents c)

theorem key?_label (k : Key) : layout.key? k.label = some k := by
  cases k <;> decide

def reader : Reader Item := layout.reader

def ofText (text : String) : Except Fault Item := reader.ofText text

def toValue (i : Item) : Value :=
  .object [
    ("item", Value.ofOption Literal.toValue i.item),
    ("name", Value.ofOption .text i.name),
    ("value_type", Value.ofOption .text i.valueType),
    ("default", Value.ofOption Literal.toValue i.default),
    ("default_value", Value.ofOption Literal.toValue i.defaultValue),
    ("dimension", Value.ofOption Literal.toValue i.dimension),
    ("dimensions", Value.ofOption Literal.toValue i.dimensions),
    ("description", Value.ofOption .text i.description),
    ("comment", Value.ofOption .text i.comment)]

instance : BEq Item where
  beq i j :=
    i.item == j.item && i.name == j.name && i.valueType == j.valueType &&
      i.default == j.default && i.defaultValue == j.defaultValue &&
      i.dimension == j.dimension && i.dimensions == j.dimensions &&
      i.description == j.description && i.comment == j.comment

/-- The declared position, or else the place in the list. -/
def position (i : Item) (index : Nat) : String :=
  match i.item with
  | some l => l.display
  | none => index.repr

/-- `default` counts before `default_value`. -/
def shownDefault (i : Item) : Option Literal := i.default <|> i.defaultValue

/-- `dimension` counts before `dimensions`. -/
def shownDimension (i : Item) : Option Literal := i.dimension <|> i.dimensions

/-- The description unless it is empty, or else the comment. -/
def shownDescription (i : Item) : Option String :=
  i.description.filter (· ≠ "") <|> i.comment

end Item

/-- The items of one record. -/
abbrev Record := List Item

end DeckDoc
