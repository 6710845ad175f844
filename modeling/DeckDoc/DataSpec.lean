import DeckDoc.Json.Layout
import DeckDoc.Literal

namespace DeckDoc

open Json

/-- What a flat array of data consists of. -/
structure DataSpec where
  valueType : Option String := none
  dimension : Option Literal := none
  dimensions : Option Literal := none

namespace DataSpec

inductive Key where
  | valueType
  | dimension
  | dimensions
  deriving DecidableEq

namespace Key

def all : List Key := [valueType, dimension, dimensions]

def label : Key → String
  | valueType => "value_type"
  | dimension => "dimension"
  | dimensions => "dimensions"

abbrev Content : Key → Type
  | valueType => Option String
  | dimension => Option Literal
  | dimensions => Option Literal

def read : (k : Key) → Reader k.Content Rejection
  | valueType => Reader.text.optional.placed
  | dimension => Literal.reader.optional
  | dimensions => Literal.reader.optional

end Key

def ofContents (c : Contents Key.Content) : DataSpec where
  valueType := (c .valueType).join
  dimension := (c .dimension).join
  dimensions := (c .dimensions).join

def layout : Layout Key Key.Content DataSpec where
  title := "DataSpec"
  keys := Key.all
  label := Key.label
  read := Key.read
  optional := fun _ => false
  make := fun c => .ok (ofContents c)

theorem key?_label (k : Key) : layout.key? k.label = some k := by
  cases k <;> decide

def reader : Reader DataSpec := layout.reader

def toValue (d : DataSpec) : Value :=
  .object [
    ("value_type", Value.ofOption .text d.valueType),
    ("dimension", Value.ofOption Literal.toValue d.dimension),
    ("dimensions", Value.ofOption Literal.toValue d.dimensions)]

instance : BEq DataSpec where
  beq d e :=
    d.valueType == e.valueType && d.dimension == e.dimension && d.dimensions == e.dimensions

/-- `dimension` counts before `dimensions`. -/
def shownDimension (d : DataSpec) : Option Literal := d.dimension <|> d.dimensions

end DataSpec

end DeckDoc
