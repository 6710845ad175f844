import DeckDoc.Json.Layout

namespace DeckDoc

open Json

/-- A free-form block of code, up to a keyword that ends it. -/
structure CodeBlock where
  terminator : Option String := none
  deriving BEq

namespace CodeBlock

inductive Key where
  | terminator
  deriving DecidableEq

abbrev Key.Content : Key → Type
  | terminator => Option String

def Key.read : (k : Key) → Reader k.Content Rejection
  | terminator => Reader.text.optional.placed

def layout : Layout Key Key.Content CodeBlock where
  title := "CodeBlock"
  keys := [.terminator]
  label := fun
    | .terminator => "end"
  read := Key.read
  optional := fun _ => false
  make := fun c => .ok ⟨(c .terminator).join⟩

def reader : Reader CodeBlock := layout.reader

def toValue (b : CodeBlock) : Value := .object [("end", Value.ofOption .text b.terminator)]

end CodeBlock

end DeckDoc
