import DeckDoc.CodeBlock
import DeckDoc.DataSpec
import DeckDoc.Item
import DeckDoc.Sizing

namespace DeckDoc

open Json

/-- The description of a keyword. A field is there if its key is there with something else than
`null`; the lists of items and records are there if their key is, and `some none` stands for
`null`. -/
structure Keyword where
  name : Option String := none
  description : Option String := none
  comment : Option String := none
  deckName : Option String := none
  deckNames : Option (List String) := none
  deckNameRegex : Option String := none
  sections : Option (List String) := none
  requires : Option (List String) := none
  prohibits : Option (List String) := none
  size : Option Sizing := none
  minSize : Option Literal := none
  numTables : Option Sizing := none
  code : Option CodeBlock := none
  items : Option (Option (List Item)) := none
  data : Option DataSpec := none
  records : Option (Option (List Record)) := none
  recordsSet : Option (Option (List Record)) := none
  alternatingRecords : Option (Option (List Record)) := none

namespace Keyword

inductive Key where
  | name
  | description
  | comment
  | deckName
  | deckNames
  | deckNameRegex
  | sections
  | requires
  | prohibits
  | size
  | minSize
  | numTables
  | code
  | items
  | data
  | records
  | recordsSet
  | alternatingRecords
  deriving DecidableEq

namespace Key

def all : List Key :=
  [name, description, comment, deckName, deckNames, deckNameRegex, sections, requires, prohibits,
    size, minSize, numTables, code, items, data, records, recordsSet, alternatingRecords]

def label : Key → String
  | name => "name"
  | description => "description"
  | comment => "comment"
  | deckName => "deck_name"
  | deckNames => "deck_names"
  | deckNameRegex => "deck_name_regex"
  | sections => "sections"
  | requires => "requires"
  | prohibits => "prohibits"
  | size => "size"
  | minSize => "min_size"
  | numTables => "num_tables"
  | code => "code"
  | items => "items"
  | data => "data"
  | records => "records"
  | recordsSet => "records_set"
  | alternatingRecords => "alternating_records"

abbrev Content : Key → Type
  | name => Option String
  | description => Option String
  | comment => Option String
  | deckName => Option String
  | deckNames => Option (List String)
  | deckNameRegex => Option String
  | sections => Option (List String)
  | requires => Option (List String)
  | prohibits => Option (List String)
  | size => Option Sizing
  | minSize => Option Literal
  | numTables => Option Sizing
  | code => Option CodeBlock
  | items => Option (List Item)
  | data => Option DataSpec
  | records => Option (List Record)
  | recordsSet => Option (List Record)
  | alternatingRecords => Option (List Record)

def read : (k : Key) → Reader k.Content Rejection
  | name => Reader.text.optional.placed
  | description => Reader.text.optional.placed
  | comment => Reader.text.optional.placed
  | deckName => Reader.text.optional.placed
  | deckNames => Reader.text.list.optional.placed
  | deckNameRegex => Reader.text.optional.placed
  | sections => Reader.text.list.optional.placed
  | requires => Reader.text.list.optional.placed
  | prohibits => Reader.text.list.optional.placed
  | size => Sizing.reader.optional
  | minSize => Literal.reader.optional
  | numTables => Sizing.reader.optional
  | code => CodeBlock.reader.optional.placed
  | items => Item.reader.list.optional.placed
  | data => DataSpec.reader.optional.placed
  | records => Item.reader.list.list.optional.placed
  | recordsSet => Item.reader.list.list.optional.placed
  | alternatingRecords => Item.reader.list.list.optional.placed

/-- The keys whose absence is told apart from `null`. -/
def isListing : Key → Bool
  | items => true
  | records => true
  | recordsSet => true
  | alternatingRecords => true
  | _ => false

end Key

/-- A key that is missing counts as one with `null`, except for the lists of items and records. -/
def ofContents (c : Contents Key.Content) : Keyword where
  name := (c .name).join
  description := (c .description).join
  comment := (c .comment).join
  deckName := (c .deckName).join
  deckNames := (c .deckNames).join
  deckNameRegex := (c .deckNameRegex).join
  sections := (c .sections).join
  requires := (c .requires).join
  prohibits := (c .prohibits).join
  size := (c .size).join
  minSize := (c .minSize).join
  numTables := (c .numTables).join
  code := (c .code).join
  items := c .items
  data := (c .data).join
  records := c .records
  recordsSet := c .recordsSet
  alternatingRecords := c .alternatingRecords

def layout : Layout Key Key.Content Keyword where
  title := "Keyword"
  keys := Key.all
  label := Key.label
  read := Key.read
  optional := Key.isListing
  make := fun c => .ok (ofContents c)

theorem key?_label (k : Key) : layout.key? k.label = some k := by
  cases k <;> decide

def reader : Reader Keyword := layout.reader

def ofText (text : String) : Except Fault Keyword := reader.ofText text

def texts (ss : List String) : Value := .list (ss.map .text)

def itemsValue (items : List Item) : Value := .list (items.map Item.toValue)

def recordsValue (records : List Record) : Value := .list (records.map itemsValue)

/-- The member of a list that may be missing. -/
def listing {α : Type} (label : String) (toValue : α → Value) (a : Option (Option α)) :
    List (String × Value) :=
  (a.map fun a => (label, Value.ofOption toValue a)).toList

def toValue (k : Keyword) : Value :=
  .object <|
    [("name", Value.ofOption .text k.name),
      ("description", Value.ofOption .text k.description),
      ("comment", Value.ofOption .text k.comment),
      ("deck_name", Value.ofOption .text k.deckName),
      ("deck_names", Value.ofOption texts k.deckNames),
      ("deck_name_regex", Value.ofOption .text k.deckNameRegex),
      ("sections", Value.ofOption texts k.sections),
      ("requires", Value.ofOption texts k.requires),
      ("prohibits", Value.ofOption texts k.prohibits),
      ("size", Value.ofOption Sizing.toValue k.size),
      ("min_size", Value.ofOption Literal.toValue k.minSize),
      ("num_tables", Value.ofOption Sizing.toValue k.numTables),
      ("code", Value.ofOption CodeBlock.toValue k.code)] ++
    listing "items" itemsValue k.items ++
    [("data", Value.ofOption DataSpec.toValue k.data)] ++
    listing "records" recordsValue k.records ++
    listing "records_set" recordsValue k.recordsSet ++
    listing "alternating_records" recordsValue k.alternatingRecords

instance : BEq Keyword where
  beq k l :=
    k.name == l.name && k.description == l.description && k.comment == l.comment &&
      k.deckName == l.deckName && k.deckNames == l.deckNames &&
      k.deckNameRegex == l.deckNameRegex && k.sections == l.sections &&
      k.requires == l.requires && k.prohibits == l.prohibits && k.size == l.size &&
      k.minSize == l.minSize && k.numTables == l.numTables && k.code == l.code &&
      k.items == l.items && k.data == l.data && k.records == l.records &&
      k.recordsSet == l.recordsSet && k.alternatingRecords == l.alternatingRecords

def hasSizing (k : Keyword) : Bool := k.size.isSome || k.minSize.isSome || k.numTables.isSome

def required (k : Keyword) : List String := k.requires.getD []

def prohibited (k : Keyword) : List String := k.prohibits.getD []

/-- Whether the keyword depends on others or excludes others. -/
def hasDependencies (k : Keyword) : Bool := !k.required.isEmpty || !k.prohibited.isEmpty

/-- A list that is there, `null` read as the empty one. -/
def listed {α : Type} (list : Option (Option (List α))) : Option (List α) :=
  list.map fun l => l.getD []

def itemList (k : Keyword) : Option (List Item) := listed k.items

def recordList (k : Keyword) : Option (List Record) := listed k.records

def recordsSetList (k : Keyword) : Option (List Record) := listed k.recordsSet

def alternatingRecordList (k : Keyword) : Option (List Record) := listed k.alternatingRecords

end Keyword

end DeckDoc
