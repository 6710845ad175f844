import DeckDoc.Config
import DeckDoc.Keyword

namespace DeckDoc

/-- Where the summary of a document comes from. -/
inductive SummaryKind where
  | described
  | commented
  | placeholder
  deriving DecidableEq

/-- A row of an item table. -/
structure Row where
  position : String
  name : String
  valueType : String
  default : String
  dimension : String
  description : String
  deriving DecidableEq

/-- How many records or tables there are, in words. -/
inductive Count where
  | fixed (count : String)
  | reference (item keyword : String)
  deriving DecidableEq

/-- What flat data consists of, in words. -/
structure DataNote where
  valueType : String
  dimension : String
  deriving DecidableEq

/-- The texts a document shows, and which of its sections are there. -/
structure Document where
  title : String
  summary : String
  names : List String
  pattern : Option String
  sections : List String
  requires : List String
  prohibits : List String
  size : Option Count
  minSize : Option String
  numTables : Option Count
  code : Option String
  items : Option (List Row)
  data : Option DataNote
  records : Option (List (List Row))
  recordsSet : Option (List (List Row))
  alternatingRecords : Option (List (List Row))
  notes : String
  deriving DecidableEq

/-- A text unless it is empty. -/
def nonEmpty (s : Option String) : Option String := s.filter (· ≠ "")

/-- The text shown for a literal that may be missing. -/
def displayed (l : Option Literal) : String := (l.map Literal.display).getD ""

namespace Keyword

def summaryKind (k : Keyword) : SummaryKind :=
  if (nonEmpty k.description).isSome then .described
  else if (nonEmpty k.comment).isSome then .commented
  else .placeholder

/-- Comments and placeholders are emphasised. -/
def summary (k : Keyword) (p : Placeholders) : String :=
  match k.summaryKind with
  | .described => (nonEmpty k.description).getD ""
  | .commented => "*" ++ (nonEmpty k.comment).getD "" ++ "*"
  | .placeholder => "*" ++ p.description ++ "*"

end Keyword

def Item.row (i : Item) (index : Nat) : Row where
  position := i.position index
  name := i.name.getD ""
  valueType := i.valueType.getD ""
  default := displayed i.shownDefault
  dimension := displayed i.shownDimension
  description := i.shownDescription.getD ""

/-- The rows of a list of items, the first of which has the given place. -/
def Row.ofItems (index : Nat) : List Item → List Row
  | [] => []
  | i :: items => i.row index :: ofItems (index + 1) items

theorem Row.ofItems_length (index : Nat) (items : List Item) :
    (Row.ofItems index items).length = items.length := by
  induction items generalizing index with
  | nil => rfl
  | cons i items ih => simp [ofItems, ih]

def Sizing.count : Sizing → Count
  | .fixed l => .fixed l.display
  | .reference r => .reference (displayed r.item) (r.keyword.getD "")

def DataSpec.note (d : DataSpec) : DataNote := ⟨d.valueType.getD "", displayed d.shownDimension⟩

/-- The document that shows a keyword. -/
def Document.ofKeyword (config : Config) (k : Keyword) : Document where
  title := k.name.getD config.placeholders.name
  summary := k.summary config.placeholders
  names := k.deckName.toList ++ k.deckNames.getD []
  pattern := k.deckNameRegex
  sections := k.sections.getD []
  requires := k.required
  prohibits := k.prohibited
  size := k.size.map Sizing.count
  minSize := k.minSize.map Literal.display
  numTables := k.numTables.map Sizing.count
  code := k.code.map fun b => b.terminator.getD ""
  items := k.itemList.map (Row.ofItems 1)
  data := k.data.map DataSpec.note
  records := k.recordList.map fun rs => rs.map (Row.ofItems 1)
  recordsSet := k.recordsSetList.map fun rs => rs.map (Row.ofItems 1)
  alternatingRecords := k.alternatingRecordList.map fun rs => rs.map (Row.ofItems 1)
  notes := config.placeholders.notes

end DeckDoc
