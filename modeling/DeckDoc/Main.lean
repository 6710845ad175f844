import DeckDoc.CommandLine

open DeckDoc

/-- Whether there is a file at a path, be it one that can be read or not. -/
def isFile (path : String) : IO Bool :=
  try return (← (← IO.FS.realPath path).metadata).type == .file catch _ => return false

/-- The content of the file at a path, if there is a file. -/
def readFile? (path : String) : IO (Option ByteArray) := do
  if ← isFile path then some <$> IO.FS.readBinFile path else return none

/-- What the system says about a file that cannot be read or written. -/
def systemMessage : IO.Error → String
  | .noFileOrDirectory _ code text => text ++ " (os error " ++ code.toNat.repr ++ ")"
  | .inappropriateType _ code text => text ++ " (os error " ++ code.toNat.repr ++ ")"
  | .invalidArgument _ code text => text ++ " (os error " ++ code.toNat.repr ++ ")"
  | .permissionDenied _ code text => text ++ " (os error " ++ code.toNat.repr ++ ")"
  | e => e.toString

def printErrors (lines : List String) : IO Unit := lines.forM fun line => IO.eprintln line

def writeOutput (draft : Draft) : Option String → IO Unit
  | none => IO.println draft.markdown
  | some path => do
    IO.FS.writeBinFile path draft.markdown.toUTF8
    IO.eprintln (writtenLine path)

/-- Documents the description at one path. -/
def document (input : String) (output : Option String) : IO UInt32 := do
  match Keyword.ofFile input (← readFile? input) with
  | .error f =>
    printErrors [f.line]
    return 1
  | .ok k =>
    let draft := Draft.ofKeyword input k
    printErrors (logLines (LogSetting.ofText (← IO.getEnv "RUST_LOG")) draft.events)
    writeOutput draft output
    return 0

def main (arguments : List String) : IO UInt32 := do
  match Command.ofArguments .none arguments with
  | .error misuse =>
    printErrors misuse.lines
    return 2
  | .ok .help =>
    helpLines.forM fun line => IO.println line
    return 0
  | .ok (.document input output) =>
    try document input output catch e =>
      printErrors ["Error: IO error: " ++ systemMessage e]
      return 1
