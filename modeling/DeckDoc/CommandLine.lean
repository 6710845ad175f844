import DeckDoc.CommandLine.Arguments
import DeckDoc.Log

namespace DeckDoc

/-- What the program leaves behind: its exit code, its output, what it says beside that, and the
files. -/
structure Outcome where
  exitCode : Nat
  stdout : String
  stderr : List String
  tree : FileTree

def Failure.line (f : Failure) : String := "Error: " ++ f.message

def writtenLine (output : String) : String := "Written to '" ++ output ++ "'."

/-- Runs the program among some files. -/
def program (tree : FileTree) (arguments : List String) (setting : Option String) : Outcome :=
  let setting := LogSetting.ofText setting
  match Command.ofArguments .none arguments with
  | .error misuse => ⟨2, "", misuse.lines, tree⟩
  | .ok .help => ⟨0, String.join (helpLines.map (· ++ "\n")), [], tree⟩
  | .ok (.document input none) =>
    match Keyword.load tree input with
    | .error f => ⟨1, "", [f.line], tree⟩
    | .ok k =>
      let draft := Draft.ofKeyword input k
      ⟨0, draft.markdown ++ "\n", logLines setting draft.events, tree⟩
  | .ok (.document input (some output)) =>
    let r := run tree input output
    match r.result with
    | .error f => ⟨1, "", logLines setting r.events ++ [f.line], r.tree⟩
    | .ok () => ⟨0, "", logLines setting r.events ++ [writtenLine output], r.tree⟩

end DeckDoc
