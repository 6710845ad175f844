import DeckDoc.Text.Parts

namespace DeckDoc

inductive FileEntry where
  | file (content : ByteArray)
  | directory

/-- Files and directories, each under the names that lead to it from the root, and the working
directory, where relative paths begin. -/
structure FileTree where
  entries : List (List String × FileEntry) := []
  directory : List String := ["work"]

/-- Why a path leads to nothing, or why a file cannot be opened for writing. -/
inductive PathFault where
  | notFound
  | notADirectory
  | isADirectory
  | nameTooLong
  | badName
  deriving DecidableEq

def PathFault.message : PathFault → String
  | notFound => "No such file or directory (os error 2)"
  | notADirectory => "Not a directory (os error 20)"
  | isADirectory => "Is a directory (os error 21)"
  | nameTooLong => "File name too long (os error 36)"
  | badName => "file name contained an unexpected NUL byte"

namespace FileTree

/-- The working directory and those above it, up to the root, are always there. -/
def get? (t : FileTree) (names : List String) : Option FileEntry :=
  if names <+: t.directory then some .directory else t.entries.lookup names

def put (t : FileTree) (names : List String) (e : FileEntry) : FileTree :=
  { t with entries := (names, e) :: t.entries.filter fun entry => entry.1 != names }

theorem get?_put_self (t : FileTree) {names : List String} (h : t.get? names ≠ some .directory)
    (e : FileEntry) : (t.put names e).get? names = some e := by
  have habove : ¬ names <+: t.directory := fun habove => h (if_pos habove)
  simp [get?, put, habove]

theorem get?_put_of_ne (t : FileTree) {names other : List String} (h : other ≠ names)
    (e : FileEntry) : (t.put names e).get? other = t.get? other := by
  have hb : (other == names) = false := beq_eq_false_iff_ne.mpr h
  simp only [get?, put, List.lookup_cons, hb]
  congr 1
  induction t.entries with
  | nil => rfl
  | cons entry rest ih =>
    obtain ⟨names', e'⟩ := entry
    by_cases hn : names' = names
    · subst hn
      simpa [List.lookup_cons, hb] using ih
    · simp only [List.filter_cons, bne_iff_ne, ne_eq, hn, not_false_eq_true, if_true,
        List.lookup_cons]
      rw [ih]

/-- Puts an entry some names below a directory in the working directory, and the directories on the
way. A dot stays, as an empty name does, and two dots lead one directory up. -/
def add (t : FileTree) (above : List String) (e : FileEntry) : List String → FileTree
  | [] => t
  | name :: rest =>
    if name = "" ∨ name = "." then t.add above e rest
    else if name = ".." then t.add above.dropLast e rest
    else
      let here := t.directory ++ above ++ [name]
      if rest = [] then t.put here e
      else (if (t.get? here).isSome then t else t.put here .directory).add (above ++ [name]) e rest

/-- The most bytes in one name. -/
def nameLimit : Nat := 255

/-- The most bytes in a path. -/
def pathLimit : Nat := 4095

/-- Follows names from a place on. A dot stays, as an empty name does, and two dots lead one
directory up, where there is one: from the root they lead nowhere else. -/
def descend (t : FileTree) (place : List String) : List String → Except PathFault (List String)
  | [] => .ok place
  | name :: rest =>
    match t.get? place with
    | none => .error .notFound
    | some (.file _) => .error .notADirectory
    | some .directory =>
      if name = "" ∨ name = "." then t.descend place rest
      else if name = ".." then t.descend place.dropLast rest
      else if nameLimit < name.utf8ByteSize then .error .nameTooLong
      else t.descend (place ++ [name]) rest

/-- The names between the slashes of a path. -/
def names (path : String) : List String := (Text.parts '/' path.toList).map String.ofList

/-- A path that begins with a slash begins at the root. -/
def start (t : FileTree) (path : String) : List String :=
  if path.toList.head? = some '/' then [] else t.directory

@[simp] theorem start_put (t : FileTree) (place : List String) (e : FileEntry) (path : String) :
    (t.put place e).start path = t.start path := rfl

/-- The content of the file at a path, if there is a file. -/
def file? (t : FileTree) (path : String) : Option ByteArray :=
  if path = "" ∨ pathLimit < path.utf8ByteSize then none
  else match t.descend (t.start path) (names path) with
    | .error _ => none
    | .ok place =>
      match t.get? place with
      | some (.file content) => some content
      | _ => none

/-- The place of a file that may be written: its directory is there and it is no directory
itself. -/
def target (t : FileTree) (path : String) : Except PathFault (List String) :=
  if '\x00' ∈ path.toList then .error .badName
  else if path = "" then .error .notFound
  else if pathLimit < path.utf8ByteSize then .error .nameTooLong
  else do
    let shown := (names path).reverse.dropWhile (· = "")
    let parent ← t.descend (t.start path) (shown.tail.reverse ++ ["."])
    let name := shown.headD "."
    if name = "." ∨ name = ".." ∨ shown.length < (names path).length then .error .isADirectory
    else if nameLimit < name.utf8ByteSize then .error .nameTooLong
    else match t.get? (parent ++ [name]) with
      | some .directory => .error .isADirectory
      | _ => .ok (parent ++ [name])

/-- Writes a whole file, in place of what it held before. -/
def write (t : FileTree) (path : String) (content : ByteArray) : Except PathFault FileTree :=
  (t.target path).map fun names => t.put names (.file content)

/-- The paths and contents of all files below the working directory. -/
def files (t : FileTree) : List (String × ByteArray) :=
  t.entries.filterMap fun entry =>
    match entry.2 with
    | .file content =>
      (t.directory.isPrefixOf? entry.1).map fun names => ("/".intercalate names, content)
    | .directory => none

end FileTree

end DeckDoc
