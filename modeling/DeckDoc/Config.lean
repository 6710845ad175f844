import DeckDoc.Json.Layout

namespace DeckDoc

open Json

/-- Texts for what a description does not say. -/
structure Placeholders where
  name : String := "UNKNOWN"
  description : String := "TODO: Add a short description of this keyword."
  notes : String := "TODO: Add any additional notes or examples here."
  deriving DecidableEq

namespace Placeholders

inductive Key where
  | name
  | description
  | notes
  deriving DecidableEq

namespace Key

def all : List Key := [name, description, notes]

def label : Key → String
  | name => "name"
  | description => "description"
  | notes => "notes"

abbrev Content : Key → Type
  | name => String
  | description => String
  | notes => String

def read : (k : Key) → Reader k.Content
  | name => Reader.text
  | description => Reader.text
  | notes => Reader.text

end Key

/-- All three texts must be given. -/
def ofContents (c : Contents Key.Content) : Except Key Placeholders :=
  match c .name, c .description, c .notes with
  | some name, some description, some notes => .ok ⟨name, description, notes⟩
  | none, _, _ => .error .name
  | _, none, _ => .error .description
  | _, _, none => .error .notes

def layout : Layout Key Key.Content Placeholders where
  title := "Placeholders"
  keys := Key.all
  label := Key.label
  read := fun k => (Key.read k).placed
  optional := fun _ => false
  make := ofContents

theorem key?_label (k : Key) : layout.key? k.label = some k := by
  cases k <;> decide

def toValue (p : Placeholders) : Value :=
  .object [("name", .text p.name), ("description", .text p.description), ("notes", .text p.notes)]

end Placeholders

/-- How documents are written. -/
structure Config where
  placeholders : Placeholders := {}
  deriving DecidableEq

namespace Config

inductive Key where
  | placeholders
  deriving DecidableEq

abbrev Key.Content : Key → Type
  | placeholders => Placeholders

def Key.read : (k : Key) → Reader k.Content
  | placeholders => Placeholders.layout.reader

def layout : Layout Key Key.Content Config where
  title := "Config"
  keys := [.placeholders]
  label := fun
    | .placeholders => "placeholders"
  read := fun k => (Key.read k).placed
  optional := fun _ => false
  make := fun c => match c .placeholders with
    | some p => .ok ⟨p⟩
    | none => .error .placeholders

def ofText (text : String) : Except Fault Config := layout.reader.ofText text

def toValue (c : Config) : Value := .object [("placeholders", c.placeholders.toValue)]

end Config

end DeckDoc
