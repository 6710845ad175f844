import DeckDoc.Document
import DeckDoc.Text.Blank

namespace DeckDoc

/-- A text as code. -/
def coded (s : String) : String := "`" ++ s ++ "`"

def Row.markdown (r : Row) : String :=
  "| " ++ r.position ++ " | " ++ coded r.name ++ " | " ++ r.valueType ++ " | " ++ r.default ++
    " | " ++ r.dimension ++ " | " ++ r.description ++ " |"

def tableHeader : String := "| # | Name | Type | Default | Dimension | Description |"

def tableSeparator : String := "|---|------|------|---------|-----------|-------------|"

/-- A table has its two heading lines also without any row. -/
def tableLines (rows : List Row) : List String :=
  tableHeader :: tableSeparator :: rows.map Row.markdown

def tableMarkdown (rows : List Row) : String := "\n".intercalate (tableLines rows)

/-- The sentence about a count of `noun`. -/
def Count.sentence (noun : String) : Count → String
  | fixed count => "Fixed number of " ++ noun ++ ": " ++ count ++ "."
  | reference item keyword =>
    "Number of " ++ noun ++ " is determined by item " ++ coded item ++ " of keyword " ++
      coded keyword ++ "."

/-- The tables of records that are numbered from `index`. -/
def recordTables (index : Nat) : List (List Row) → String
  | [] => ""
  | rows :: records =>
    "\n\n### Record " ++ index.repr ++ "\n\n" ++ tableMarkdown rows ++
      recordTables (index + 1) records

namespace Document

def titlePart (d : Document) : String := "# " ++ d.title

def namesPart (d : Document) : Option String :=
  let entries := d.names.map (fun n => "- " ++ coded n) ++
    (d.pattern.map fun p => "- regex: " ++ coded p).toList
  if entries.isEmpty then none
  else some ("## Alternative Names\n\n" ++ "\n".intercalate entries)

def sectionsPart (d : Document) : Option String :=
  if d.sections.isEmpty then none
  else some ("## Sections\n\n" ++ "\n".intercalate (d.sections.map ("- " ++ ·)))

/-- A line of names, or nothing if there are none. -/
def dependencies (label : String) (names : List String) : String :=
  if names.isEmpty then ""
  else "\n\n**" ++ label ++ ":** " ++ ", ".intercalate (names.map coded)

def dependenciesPart (d : Document) : Option String :=
  if d.requires.isEmpty && d.prohibits.isEmpty then none
  else some ("## Dependencies" ++ dependencies "Requires" d.requires ++
    dependencies "Prohibits" d.prohibits)

/-- A paragraph of its own for what is there. -/
def paragraph {α : Type} (sentence : α → String) (a : Option α) : String :=
  (a.map fun a => "\n\n" ++ sentence a).getD ""

def sizingPart (d : Document) : Option String :=
  if d.size.isNone && d.minSize.isNone && d.numTables.isNone then none
  else some ("## Sizing" ++ paragraph (Count.sentence "records") d.size ++
    paragraph (fun n => "Minimum number of records: " ++ n ++ ".") d.minSize ++
    paragraph (Count.sentence "tables") d.numTables)

def codePart (d : Document) : Option String :=
  d.code.map fun terminator =>
    "## Syntax\n\nThis keyword introduces a free-form code block" ++
      (if terminator = "" then "." else " terminated by " ++ coded terminator ++ ".")

def itemsPart (d : Document) : Option String :=
  d.items.map fun rows => "## Items\n\n" ++ tableMarkdown rows

def dataPart (d : Document) : Option String :=
  d.data.map fun note =>
    "## Data\n\nThis is a *data* keyword containing a flat array of " ++ coded note.valueType ++
      " values." ++
      (if note.dimension = "" then "" else "\nDimension: " ++ note.dimension ++ ".")

def recordsPart (d : Document) : Option String :=
  d.records.map fun records => "## Records" ++ recordTables 1 records

def recordsSetPart (d : Document) : Option String :=
  d.recordsSet.map fun records =>
    "## Records Set\n\nThis keyword uses a *records set* format with the following record types:" ++
      recordTables 1 records

def alternatingRecordsPart (d : Document) : Option String :=
  d.alternatingRecords.map fun records =>
    "## Alternating Records\n\n" ++
      "This keyword uses alternating records with the following layouts:" ++
      recordTables 1 records

def notesPart (d : Document) : String := "## Notes\n\n*" ++ d.notes ++ "*"

/-- The parts that are there, in the order of the document. -/
def parts (d : Document) : List String :=
  [some d.titlePart, some d.summary, d.namesPart, d.sectionsPart, d.dependenciesPart, d.sizingPart,
    d.codePart, d.itemsPart, d.dataPart, d.recordsPart, d.recordsSetPart,
    d.alternatingRecordsPart, some d.notesPart].filterMap id

/-- A blank line after every part, and in place of all white space at the end a single line
break. -/
def markdown (d : Document) : String :=
  Text.trimEnd (String.join (d.parts.map (· ++ "\n\n"))) ++ "\n"

end Document

/-- The documentation of a keyword. -/
def Keyword.markdown (config : Config) (k : Keyword) : String :=
  (Document.ofKeyword config k).markdown

/-- There is a section on sizing exactly where there is a size of some kind. -/
theorem Keyword.isSome_sizingPart (config : Config) (k : Keyword) :
    (Document.ofKeyword config k).sizingPart.isSome = k.hasSizing := by
  unfold Document.sizingPart hasSizing Document.ofKeyword
  cases k.size <;> cases k.minSize <;> cases k.numTables <;> rfl

/-- There is a section on dependencies exactly where other keywords are required or prohibited. -/
theorem Keyword.isSome_dependenciesPart (config : Config) (k : Keyword) :
    (Document.ofKeyword config k).dependenciesPart.isSome = k.hasDependencies := by
  unfold Document.dependenciesPart hasDependencies Document.ofKeyword
  cases k.required <;> cases k.prohibited <;> rfl

end DeckDoc
