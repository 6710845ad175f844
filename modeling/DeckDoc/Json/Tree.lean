import DeckDoc.Json.Lexeme

namespace DeckDoc.Json

mutual

/-- What the grammar makes of a text, with the places needed to report on it. Where a value is due
and none begins, `missing` says which character was found, if any. -/
inductive Tree where
  | missing (start : Nat) (found : Option Char)
  | broken (start : Nat) (strict loose : Fault)
  | null (start stop : Nat)
  | bool (value : Bool) (start stop : Nat)
  | number (value : Except Fault Number) (start stop : Nat)
  | text (content : Except Fault String) (start stop : Nat)
  | list (start : Nat) (items : Items)
  | object (start : Nat) (members : Members)

/-- The items of a list up to its bracket, up to a character that is no comma, up to a comma before
the bracket, or up to an item with a fault in it. -/
inductive Items where
  | closed (stop : Nat)
  | stray (place : Nat) (found : Option Char)
  | dangling (place : Nat)
  | cut (fault : Fault)
  | item (value : Tree) (rest : Items)

/-- The members of an object up to its brace, up to a character that is no comma, up to something
that is no key, up to a key with a fault in it or without a colon after it, or up to a value with a
fault in it. A member has the places of its colon and of what follows its value. -/
inductive Members where
  | closed (stop : Nat)
  | stray (place : Nat) (found : Option Char)
  | keyless (place : Nat) (found : Option Char)
  | badKey (strict loose : Fault)
  | bare (key : Except Fault String) (place : Nat) (found : Option Char)
  | cut (fault : Fault)
  | member (key : Except Fault String) (colon : Nat) (value : Tree) (next : Nat) (rest : Members)

end

namespace Fault

/-- A value is due at a place where another character stands, or none at all. -/
def noValue (place : Nat) : Option Char → Fault
  | none => ⟨.endOfValue, place + 1⟩
  | some _ => ⟨.expectedValue, place + 1⟩

def noListComma (place : Nat) : Option Char → Fault
  | none => ⟨.endOfList, place + 1⟩
  | some _ => ⟨.expectedListComma, place + 1⟩

def noObjectComma (place : Nat) : Option Char → Fault
  | none => ⟨.endOfObject, place + 1⟩
  | some _ => ⟨.expectedObjectComma, place + 1⟩

def noColon (place : Nat) : Option Char → Fault
  | none => ⟨.endOfObject, place + 1⟩
  | some _ => ⟨.expectedColon, place + 1⟩

/-- A key is due; after a comma the strict reader blames the comma for a brace. -/
def noKey (place : Nat) (found : Option Char) : Fault :=
  match found with
  | none => ⟨.endOfValue, place + 1⟩
  | some c => ⟨if c = '\x7d' then .trailingComma else .keyNotText, place + 1⟩

def noKeyLoose (place : Nat) : Option Char → Fault
  | none => ⟨.endOfObject, place + 1⟩
  | some _ => ⟨.keyNotText, place + 1⟩

end Fault

def Tree.start : Tree → Nat
  | missing s _ => s
  | broken s _ _ => s
  | null s _ => s
  | bool _ s _ => s
  | number _ s _ => s
  | text _ s _ => s
  | list s _ => s
  | object s _ => s

/-- How far a reader who stops before these items still reads: past the bracket if that comes first,
and else, a comma passed, up to the next lexeme. -/
def Items.settled : Items → Nat
  | closed stop => stop
  | stray place _ => place
  | dangling place => place
  | cut fault => fault.place
  | item value _ => value.start

/-- How far a reader who stops before the lexeme at `next` still reads: past it if it is the
brace. -/
def Members.settled (next : Nat) : Members → Nat
  | closed stop => stop
  | _ => next

/-- The place after the brace of an object. -/
def Members.stop : Members → Nat
  | closed stop => stop
  | stray place _ => place
  | keyless place _ => place
  | badKey strict _ => strict.place
  | bare _ place _ => place
  | cut fault => fault.place
  | member _ _ _ _ rest => rest.stop

/-- The first fault that counts for a reader who passes over the list. -/
def Items.skip : Items → Except Fault Unit
  | closed _ => .ok ()
  | stray place found => .error (.noListComma place found)
  | dangling place => .error ⟨.expectedValue, place + 1⟩
  | cut fault => .error fault
  | item _ rest => rest.skip

def Members.skip : Members → Except Fault Unit
  | closed _ => .ok ()
  | stray place found => .error (.noObjectComma place found)
  | keyless place found => .error (.noKeyLoose place found)
  | badKey _ loose => .error loose
  | bare _ place found => .error (.noColon place found)
  | cut fault => .error fault
  | member _ _ _ _ rest => rest.skip

theorem Items.skip_item (value : Tree) (rest : Items) : (item value rest).skip = rest.skip := rfl

theorem Members.skip_member (key : Except Fault String) (colon : Nat) (value : Tree) (next : Nat)
    (rest : Members) : (member key colon value next rest).skip = rest.skip := rfl

/-- Passes over a value. Nothing inside a closed bracket can be wrong for a reader who does so. -/
def Tree.skip : Tree → Except Fault Unit
  | missing place found => .error (.noValue place found)
  | broken _ _ loose => .error loose
  | null _ _ => .ok ()
  | bool _ _ _ => .ok ()
  | number _ _ _ => .ok ()
  | text _ _ _ => .ok ()
  | list _ items => items.skip
  | object _ members => members.skip

end DeckDoc.Json
