import DeckDoc.Json.Reader

namespace DeckDoc.Json

/-- The layout of a record: its keys in the order of a list of their contents, and how the content
of each is read. The keys in `optional` may be left off the end of such a list. A record is made of
the contents given, or else of none for want of a key. -/
structure Layout (κ : Type) (Content : κ → Type) (σ : Type) where
  title : String
  keys : List κ
  label : κ → String
  read : (k : κ) → Reader (Content k) Rejection
  optional : κ → Bool
  make : ((k : κ) → Option (Content k)) → Except κ σ

/-- The contents read so far. -/
abbrev Contents {κ : Type} (Content : κ → Type) := (k : κ) → Option (Content k)

namespace Contents

variable {κ : Type} [DecidableEq κ] {Content : κ → Type}

def none : Contents Content := fun _ => Option.none

def set (contents : Contents Content) (k : κ) (c : Content k) : Contents Content := fun l =>
  if h : k = l then some (h ▸ c) else contents l

theorem set_self (contents : Contents Content) (k : κ) (c : Content k) :
    contents.set k c k = some c := by
  simp [set]

theorem set_of_ne (contents : Contents Content) {k l : κ} (h : k ≠ l) (c : Content k) :
    contents.set k c l = contents l := by
  simp [set, h]

end Contents

namespace Layout

variable {κ : Type} [DecidableEq κ] {Content : κ → Type} {σ : Type}

def key? (layout : Layout κ Content σ) (label : String) : Option κ :=
  layout.keys.find? fun k => layout.label k = label

/-- Only a known key can come twice. -/
def isRepeated (layout : Layout κ Content σ) (contents : Contents Content) (label : String) :
    Bool :=
  match layout.key? label with
  | some k => (contents k).isSome
  | none => false

/-- Reads the members of an object in their order. Unknown ones are passed over; a known one is
refused the second time, before what follows its key is looked at. -/
def readMembers (layout : Layout κ Content σ) (room : Nat) (contents : Contents Content) :
    Members → Except Fault (Contents Content)
  | .closed _ => .ok contents
  | .stray place found => .error (.noObjectComma place found)
  | .keyless place found => .error (.noKey place found)
  | .badKey strict _ => .error strict
  | .bare key place found => do
    let label ← key
    if layout.isRepeated contents label then
      .error ⟨.duplicateField label, if found = some '\x7d' then place + 1 else place⟩
    else .error (.noColon place found)
  | .cut fault => .error fault
  | .member key colon value next rest => do
    let label ← key
    match layout.key? label with
    | none =>
      value.skip
      layout.readMembers room contents rest
    | some k =>
      if (contents k).isSome then .error ⟨.duplicateField label, colon⟩
      else
        match layout.read k room value with
        | .ok c => layout.readMembers room (contents.set k c) rest
        | .error r => .error (r.settle (rest.settled next))

/-- Reads a list as the contents of the keys in their order. -/
def readItems (layout : Layout κ Content σ) (room : Nat) (contents : Contents Content) :
    List κ → Items → Except Fault (Contents Content)
  | [], .closed _ => .ok contents
  | [], .stray place none => .error ⟨.endOfList, place + 1⟩
  | [], .stray place (some _) => .error ⟨.trailingText, place + 1⟩
  | [], .item value _ => .error ⟨.trailingText, value.start + 1⟩
  | k :: keys, .closed stop =>
    match (k :: keys).dropWhile layout.optional with
    | [] => .ok contents
    | due => .error ⟨.wrongLength (layout.keys.length - due.length) layout.title
        layout.keys.length, stop⟩
  | k :: keys, .item value rest =>
    match layout.read k room value with
    | .ok c => layout.readItems room (contents.set k c) keys rest
    | .error r => .error (r.settle rest.settled)
  | _ :: _, .stray place found => .error (.noListComma place found)
  | _, .dangling place => .error ⟨.trailingComma, place + 1⟩
  | _, .cut fault => .error fault

def finish (layout : Layout κ Content σ) (contents : Contents Content) (place : Nat) :
    Except Fault σ :=
  match layout.make contents with
  | .ok s => .ok s
  | .error k => .error ⟨.missingField (layout.label k), place⟩

/-- A record is written as an object or as the list of all its contents. -/
def reader (layout : Layout κ Content σ) : Reader σ := fun room tree =>
  match tree with
  | .object start members => do
    let room ← enter room start
    let contents ← layout.readMembers room .none members
    layout.finish contents members.stop
  | .list start items => do
    let room ← enter room start
    let contents ← layout.readItems room .none layout.keys items
    layout.finish contents items.settled
  | tree => .error (tree.misfit (.record layout.title))

end Layout

end DeckDoc.Json
