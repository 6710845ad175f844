import DeckDoc.Json.Tree

namespace DeckDoc.Json

/-- A member whose value has been read, with the place of what follows it. -/
structure Entry where
  key : Except Fault String
  colon : Nat
  value : Tree
  next : Nat

/-- An open bracket around a value that is being read: the items or members before the value, the
last one first, and the key of the value. -/
inductive Frame where
  | list (start : Nat) (items : List Tree)
  | object (start : Nat) (members : List Entry) (key : Except Fault String) (colon : Nat)

def Items.ofReversed (items : List Tree) (rest : Items) : Items :=
  items.foldl (fun rest v => .item v rest) rest

def Members.ofReversed (members : List Entry) (rest : Members) : Members :=
  members.foldl (fun rest m => .member m.key m.colon m.value m.next rest) rest

theorem Items.skip_ofReversed (items : List Tree) (rest : Items) :
    (ofReversed items rest).skip = rest.skip := by
  induction items generalizing rest with
  | nil => rfl
  | cons v items ih => exact (ih (.item v rest)).trans (skip_item v rest)

theorem Members.skip_ofReversed (members : List Entry) (rest : Members) :
    (ofReversed members rest).skip = rest.skip := by
  induction members generalizing rest with
  | nil => rfl
  | cons m members ih =>
    exact (ih (.member m.key m.colon m.value m.next rest)).trans (skip_member _ _ _ _ rest)

/-- Ends an open bracket at a value with a fault in it. -/
def Frame.cut (fault : Fault) (value : Tree) : Frame → Tree
  | list start items => .list start (Items.ofReversed (value :: items) (.cut fault))
  | object start members key colon =>
    .object start (Members.ofReversed (⟨key, colon, value, fault.place⟩ :: members) (.cut fault))

/-- The outermost value of a text and the place of what follows it, if anything does. -/
structure Source where
  tree : Tree
  excess : Option Nat

namespace Source

/-- The text ends for its readers at a value with a fault in it, inside some open brackets. -/
def ofFaulty (value : Tree) (fault : Fault) (frames : List Frame) : Source :=
  ⟨frames.foldl (fun value frame => frame.cut fault value) value, none⟩

def ofFaultyItems (start : Nat) (items : List Tree) (rest : Items) (fault : Fault)
    (frames : List Frame) : Source :=
  ofFaulty (.list start (Items.ofReversed items rest)) fault frames

def ofFaultyMembers (start : Nat) (members : List Entry) (rest : Members) (fault : Fault)
    (frames : List Frame) : Source :=
  ofFaulty (.object start (Members.ofReversed members rest)) fault frames

end Source

/-- Where a text has been read to: up to a value, the first item of a list, what follows a value, a
first or a further key, or the colon after a key. -/
inductive Progress where
  | atValue (frames : List Frame)
  | atFirstItem (start : Nat) (frames : List Frame)
  | afterValue (value : Tree) (frames : List Frame)
  | atFirstKey (start : Nat) (frames : List Frame)
  | atKey (start : Nat) (members : List Entry) (frames : List Frame)
  | atColon (start : Nat) (members : List Entry) (key : Except Fault String) (frames : List Frame)

namespace Progress

/-- Nothing that is due stands at `place`, but another character or the end of the text. -/
def stop (place : Nat) (found : Option Char) : Progress → Source
  | .atValue (.list start items :: frames) =>
    if found = some ']' then
      .ofFaultyItems start items (.dangling place) ⟨.expectedValue, place + 1⟩ frames
    else .ofFaulty (.missing place found) (.noValue place found) (.list start items :: frames)
  | .atValue frames => .ofFaulty (.missing place found) (.noValue place found) frames
  | .atFirstItem start frames =>
    if found.isNone then
      .ofFaultyItems start [] (.stray place found) (.noListComma place found) frames
    else .ofFaulty (.missing place found) (.noValue place found) (.list start [] :: frames)
  | .afterValue v [] => ⟨v, found.map fun _ => place⟩
  | .afterValue v (.list start items :: frames) =>
    .ofFaultyItems start (v :: items) (.stray place found) (.noListComma place found) frames
  | .afterValue v (.object start members key colon :: frames) =>
    .ofFaultyMembers start (⟨key, colon, v, place⟩ :: members) (.stray place found)
      (.noObjectComma place found) frames
  | .atFirstKey start frames =>
    .ofFaultyMembers start []
      (if found.isNone then .stray place found else .keyless place found)
      (.noKeyLoose place found) frames
  | .atKey start members frames =>
    .ofFaultyMembers start members (.keyless place found) (.noKeyLoose place found) frames
  | .atColon start members key frames =>
    .ofFaultyMembers start members (.bare key place found) (.noColon place found) frames

/-- A lexeme that may begin a value. -/
def beginValue (frames : List Frame) (l : Lexeme) : Option (Progress ⊕ Source) :=
  match l.token with
  | .openList => some (.inl (.atFirstItem l.start frames))
  | .openObject => some (.inl (.atFirstKey l.start frames))
  | .null => some (.inl (.afterValue (.null l.start l.stop) frames))
  | .bool b => some (.inl (.afterValue (.bool b l.start l.stop) frames))
  | .number n => some (.inl (.afterValue (.number n l.start l.stop) frames))
  | .text s => some (.inl (.afterValue (.text s l.start l.stop) frames))
  | .broken strict loose => some (.inr (.ofFaulty (.broken l.start strict loose) loose frames))
  | _ => none

/-- A lexeme that may be a key. -/
def beginKey (start : Nat) (members : List Entry) (frames : List Frame) (l : Lexeme) :
    Option (Progress ⊕ Source) :=
  match l.token with
  | .text s => some (.inl (.atColon start members s frames))
  | .broken strict loose =>
    if l.first = '"' then
      some (.inr (.ofFaultyMembers start members (.badKey strict loose) loose frames))
    else none
  | _ => none

/-- What a lexeme leads to where it is one of those due, and `none` where it is not. -/
def accept (l : Lexeme) : Progress → Option (Progress ⊕ Source)
  | .atValue frames => beginValue frames l
  | .atFirstItem start frames =>
    match l.token with
    | .closeList => some (.inl (.afterValue (.list start (.closed l.stop)) frames))
    | _ => beginValue (.list start [] :: frames) l
  | .afterValue _ [] => none
  | .afterValue v (.list start items :: frames) =>
    match l.token with
    | .comma => some (.inl (.atValue (.list start (v :: items) :: frames)))
    | .closeList =>
      let items := Items.ofReversed (v :: items) (.closed l.stop)
      some (.inl (.afterValue (.list start items) frames))
    | _ => none
  | .afterValue v (.object start members key colon :: frames) =>
    let members := ⟨key, colon, v, l.start⟩ :: members
    match l.token with
    | .comma => some (.inl (.atKey start members frames))
    | .closeObject =>
      some (.inl (.afterValue (.object start (Members.ofReversed members (.closed l.stop))) frames))
    | _ => none
  | .atFirstKey start frames =>
    match l.token with
    | .closeObject => some (.inl (.afterValue (.object start (.closed l.stop)) frames))
    | _ => beginKey start [] frames l
  | .atKey start members frames => beginKey start members frames l
  | .atColon start members key frames =>
    match l.token with
    | .colon => some (.inl (.atValue (.object start members key l.start :: frames)))
    | _ => none

end Progress

namespace Source

/-- Reads on through the lexemes of a text that ends at `size`. -/
def build (size : Nat) (p : Progress) : List Lexeme → Source
  | [] => p.stop size none
  | l :: rest =>
    match p.accept l with
    | some (.inl p) => build size p rest
    | some (.inr source) => source
    | none => p.stop l.start l.first

def ofText (text : String) : Source := build text.utf8ByteSize (.atValue []) (Lexeme.ofText text)

end Source

end DeckDoc.Json
