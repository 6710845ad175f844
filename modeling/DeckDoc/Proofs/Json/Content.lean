import DeckDoc.Json.Content
import DeckDoc.Proofs.Except
import DeckDoc.Proofs.Json.Value

namespace DeckDoc.Json

/-! A tree is read as the value of its content. -/

mutual

theorem Tree.value_eq_map_content (room : Nat) :
    ∀ T : Tree, T.value room = (T.content room).map Content.value
  | .missing _ _ => rfl
  | .broken _ _ _ => rfl
  | .null _ _ => rfl
  | .bool _ _ _ => rfl
  | .number n _ _ => by cases n <;> rfl
  | .text s _ _ => by cases s <;> rfl
  | .list start items => by
    rw [Tree.value, Tree.content]
    cases enter room start with
    | error f => rfl
    | ok room =>
      have h := Items.values_eq_map_contents room items
      simp only [bind, Except.bind, h]
      cases items.contents room <;> rfl
  | .object start members => by
    rw [Tree.value, Tree.content]
    cases enter room start with
    | error f => rfl
    | ok room =>
      have h := Members.values_eq_map_contents room members
      simp only [bind, Except.bind, h]
      cases members.contents room <;> rfl

theorem Items.values_eq_map_contents (room : Nat) :
    ∀ items : Items, items.values room = (items.contents room).map Content.entryValues
  | .closed _ => rfl
  | .stray _ _ => rfl
  | .dangling _ => rfl
  | .cut _ => rfl
  | .item value rest => by
    have hv := Tree.value_eq_map_content room value
    have hr := Items.values_eq_map_contents room rest
    simp only [Items.values, Items.contents, bind, Except.bind, hv, hr]
    cases value.content room with
    | error f => rfl
    | ok c => cases rest.contents room <;> rfl

theorem Members.values_eq_map_contents (room : Nat) :
    ∀ members : Members, members.values room = (members.contents room).map Content.memberValues
  | .closed _ => rfl
  | .stray _ _ => rfl
  | .keyless _ _ => rfl
  | .badKey _ _ => rfl
  | .bare key _ _ => by cases key <;> rfl
  | .cut _ => rfl
  | .member key _ value _ rest => by
    have hv := Tree.value_eq_map_content room value
    have hr := Members.values_eq_map_contents room rest
    simp only [Members.values, Members.contents, bind, Except.bind, hv, hr]
    cases key with
    | error f => rfl
    | ok k =>
      cases value.content room with
      | error f => rfl
      | ok c => cases rest.contents room <;> rfl

end

namespace Content

/-! What is kept of a value is the value again, with the members of its objects in order. -/

mutual

theorem value_ofValue : ∀ v : Value, (ofValue v).value = v.merged
  | .null => rfl
  | .bool _ => rfl
  | .number _ => rfl
  | .text _ => rfl
  | .list vs => by rw [ofValue, value, entryValues_ofEntries vs, Value.merged]
  | .object ms => by rw [ofValue, value, memberValues_ofMembers ms, Value.merged]

theorem entryValues_ofEntries :
    ∀ vs : List Value, entryValues (ofEntries vs) = Value.mergedEntries vs
  | [] => rfl
  | v :: vs => by
    rw [ofEntries, entryValues, value_ofValue v, entryValues_ofEntries vs, Value.mergedEntries]

theorem memberValues_ofMembers :
    ∀ ms : List (String × Value), memberValues (ofMembers ms) = Value.mergedMembers ms
  | [] => rfl
  | (k, v) :: ms => by
    rw [ofMembers, memberValues, value_ofValue v, memberValues_ofMembers ms, Value.mergedMembers]

end

end Content

end DeckDoc.Json
