import DeckDoc.Document.Markdown
import DeckDoc.FileTree

namespace DeckDoc

open Json

/-- Why a run ends without a document. -/
inductive Failure where
  | notAFile (path : String)
  | notText
  | refused (text : String) (fault : Fault)
  | unwritable (fault : PathFault)

def Failure.message : Failure → String
  | notAFile path => "'" ++ path ++ "' is not a file."
  | notText => "IO error: stream did not contain valid UTF-8"
  | refused text fault => "Failed to parse JSON: " ++ fault.message text
  | unwritable fault => "IO error: " ++ fault.message

/-- What a run reports on its way. -/
inductive Event where
  | loaded (path name : String)
  | unnamed (path : String)
  | rendered (summary : SummaryKind) (bytes : Nat)
  deriving DecidableEq

/-- The description in a file, of which the content is given if there is such a file. -/
def Keyword.ofFile (path : String) (content : Option ByteArray) : Except Failure Keyword :=
  match content with
  | none => .error (.notAFile path)
  | some bytes =>
    match String.fromUTF8? bytes with
    | none => .error .notText
    | some text => (ofText text).mapError (.refused text)

/-- The description at a path. -/
def Keyword.load (tree : FileTree) (path : String) : Except Failure Keyword :=
  ofFile path (tree.file? path)

theorem Keyword.load_eq_ofText {tree : FileTree} {path text : String} {bytes : ByteArray}
    (hfile : tree.file? path = some bytes) (htext : String.fromUTF8? bytes = some text) :
    load tree path = (ofText text).mapError (.refused text) := by
  simp only [load, ofFile, hfile, htext]

/-- What is reported about a keyword that has been loaded and written as a document. -/
def Keyword.events (k : Keyword) (path markdown : String) : List Event :=
  .loaded path (k.name.getD "") ::
    (if k.name.isNone then [.unnamed path] else []) ++
    [.rendered k.summaryKind markdown.utf8ByteSize]

/-- A document and the reports on the way to it. -/
structure Draft where
  markdown : String
  events : List Event

/-- Documents are written with the default placeholders. -/
def Draft.ofKeyword (path : String) (k : Keyword) : Draft :=
  let markdown := k.markdown {}
  ⟨markdown, k.events path markdown⟩

/-- How a run ended, what it reported, and the files after it. -/
structure RunResult where
  result : Except Failure Unit
  events : List Event
  tree : FileTree

/-- Documents the description at one path in the file at another. -/
def run (tree : FileTree) (input output : String) : RunResult :=
  match Keyword.load tree input with
  | .error f => ⟨.error f, [], tree⟩
  | .ok k =>
    let draft := Draft.ofKeyword input k
    match tree.write output draft.markdown.toUTF8 with
    | .error f => ⟨.error (.unwritable f), draft.events, tree⟩
    | .ok tree => ⟨.ok (), draft.events, tree⟩

end DeckDoc
