import DeckDoc.Json.Tree.Build
import DeckDoc.Json.Value

namespace DeckDoc.Json

/-- A reader makes something of a tree; the number says how many brackets it may still open. -/
abbrev Reader (α : Type) (ε : Type := Fault) := Nat → Tree → Except ε α

/-- Brackets are read up to this depth. -/
def depthLimit : Nat := 127

def enter (room start : Nat) : Except Fault Nat :=
  match room with
  | 0 => .error ⟨.tooDeep, start + 1⟩
  | room + 1 => .ok room

/-- The fault of a tree where something else is wanted. A scalar is read before it is complained
about, a bracket is not. -/
def Tree.misfit (wanted : Wanted) : Tree → Fault
  | missing place found => .noValue place found
  | broken _ strict _ => strict
  | null _ stop => ⟨.wrongType .null wanted, stop⟩
  | bool b _ stop => ⟨.wrongType (.bool b) wanted, stop⟩
  | number (.ok n) _ stop => ⟨.wrongType (.number n) wanted, stop⟩
  | number (.error f) _ _ => f
  | text (.ok s) _ stop => ⟨.wrongType (.text s) wanted, stop⟩
  | text (.error f) _ _ => f
  | list start _ => ⟨.wrongType .list wanted, start⟩
  | object start _ => ⟨.wrongType .object wanted, start⟩

/-- Reads every item of a list. -/
def Items.read {α : Type} (read : Tree → Except Fault α) : Items → Except Fault (List α)
  | closed _ => .ok []
  | stray place found => .error (.noListComma place found)
  | dangling place => .error ⟨.trailingComma, place + 1⟩
  | cut fault => .error fault
  | item value rest => do
    let a ← read value
    return a :: (← rest.read read)

namespace Reader

def text : Reader String := fun _ tree =>
  match tree with
  | .text content _ _ => content
  | tree => .error (tree.misfit .text)

def list {α : Type} (read : Reader α) : Reader (List α) := fun room tree =>
  match tree with
  | .list start items => do
    let room ← enter room start
    items.read (read room)
  | tree => .error (tree.misfit .list)

/-- `null` stands for nothing. -/
def optional {α ε : Type} (read : Reader α ε) : Reader (Option α) ε := fun room tree =>
  match tree with
  | .null _ _ => .ok none
  | tree => (read room tree).map some

/-- A reader whose faults all have places of their own. -/
def placed {α : Type} (read : Reader α) : Reader α Rejection := fun room tree =>
  (read room tree).mapError Rejection.ofFault

end Reader

mutual

/-- Reads a tree as the value it spells. -/
def Tree.value (room : Nat) : Tree → Except Fault Value
  | .missing place found => .error (.noValue place found)
  | .broken _ strict _ => .error strict
  | .null _ _ => .ok .null
  | .bool b _ _ => .ok (.bool b)
  | .number n _ _ => n.map .number
  | .text content _ _ => content.map .text
  | .list start items => do
    let room ← enter room start
    return .list (← items.values room)
  | .object start members => do
    let room ← enter room start
    return .object (Value.merge (← members.values room))

def Items.values (room : Nat) : Items → Except Fault (List Value)
  | .closed _ => .ok []
  | .stray place found => .error (.noListComma place found)
  | .dangling place => .error ⟨.trailingComma, place + 1⟩
  | .cut fault => .error fault
  | .item value rest => do
    let v ← value.value room
    return v :: (← rest.values room)

/-- The members as they stand in the text. -/
def Members.values (room : Nat) : Members → Except Fault (List (String × Value))
  | .closed _ => .ok []
  | .stray place found => .error (.noObjectComma place found)
  | .keyless place found => .error (.noKey place found)
  | .badKey strict _ => .error strict
  | .bare key place found => do
    let _ ← key
    .error (.noColon place found)
  | .cut fault => .error fault
  | .member key _ value _ rest => do
    let k ← key
    let v ← value.value room
    return (k, v) :: (← rest.values room)

end

theorem Items.values_eq_read (room : Nat) (items : Items) :
    items.values room = items.read (Tree.value room) := by
  match items with
  | .closed _ => rfl
  | .stray _ _ => rfl
  | .dangling _ => rfl
  | .cut _ => rfl
  | .item value rest => rw [Items.values, Items.read, Items.values_eq_read room rest]

def Reader.value : Reader Value := Tree.value

namespace Source

/-- Nothing but blanks may follow the outermost value. -/
def finish (s : Source) : Except Fault Unit :=
  match s.excess with
  | none => .ok ()
  | some place => .error ⟨.trailingText, place + 1⟩

end Source

/-- Reads a whole text. -/
def Reader.ofText {α : Type} (read : Reader α) (text : String) : Except Fault α := do
  let source := Source.ofText text
  let a ← read depthLimit source.tree
  source.finish
  return a

/-- Reads a whole text. A rejection without a place stays without one. -/
def Reader.readText {α : Type} (read : Reader α Rejection) (text : String) :
    Except Rejection α := do
  let source := Source.ofText text
  let a ← read depthLimit source.tree
  source.finish.mapError Rejection.ofFault
  return a

end DeckDoc.Json
