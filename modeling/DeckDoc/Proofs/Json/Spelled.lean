import DeckDoc.Json.Reader
import DeckDoc.Proofs.Json.Numeral
import DeckDoc.Proofs.Json.Value

namespace DeckDoc.Json

mutual

/-- The value that a tree spells, with the members of its objects as they stand in the text. A tree
with a fault in it spells none, nor does one with a number out of range or half a surrogate pair. -/
def Tree.spelled : Tree → Option Value
  | .null _ _ => some .null
  | .bool b _ _ => some (.bool b)
  | .number n _ _ => n.toOption.map .number
  | .text s _ _ => s.toOption.map .text
  | .list _ items => items.spelled.map .list
  | .object _ members => members.spelled.map .object
  | .missing _ _ => none
  | .broken _ _ _ => none

def Items.spelled : Items → Option (List Value)
  | .closed _ => some []
  | .item value rest => do
    let v ← value.spelled
    return v :: (← rest.spelled)
  | _ => none

def Members.spelled : Members → Option (List (String × Value))
  | .closed _ => some []
  | .member key _ value _ rest => do
    let k ← key.toOption
    let v ← value.spelled
    return (k, v) :: (← rest.spelled)
  | _ => none

end

theorem enter_eq_ok_iff {room start n : Nat} : enter room start = .ok n ↔ room = n + 1 := by
  cases room with
  | zero => simp [enter]
  | succ room => simp [enter]

mutual

/-- A value is read if there is room for it, and is then put in order. -/
theorem Tree.value_eq_ok_iff {room : Nat} : ∀ {T : Tree} {u : Value},
    T.value room = .ok u ↔ ∃ v, T.spelled = some v ∧ v.depth ≤ room ∧ v.merged = u
  | .missing _ _, u => by simp [Tree.value, Tree.spelled]
  | .broken _ _ _, u => by simp [Tree.value, Tree.spelled]
  | .null _ _, u => by simp [Tree.value, Tree.spelled, Value.depth, Value.merged]
  | .bool b _ _, u => by simp [Tree.value, Tree.spelled, Value.depth, Value.merged]
  | .number n _ _, u => by
    simp only [Tree.value, Tree.spelled, Option.map_eq_some_iff, Except.map_eq_ok_iff,
      Except.toOption_eq_some_iff]
    constructor
    · intro h
      obtain ⟨n, rfl, rfl⟩ := h
      exact ⟨.number n, ⟨n, rfl, rfl⟩, Nat.zero_le _, rfl⟩
    · intro h
      obtain ⟨v, ⟨n, rfl, rfl⟩, -, rfl⟩ := h
      exact ⟨n, rfl, rfl⟩
  | .text s _ _, u => by
    simp only [Tree.value, Tree.spelled, Option.map_eq_some_iff, Except.map_eq_ok_iff,
      Except.toOption_eq_some_iff]
    constructor
    · intro h
      obtain ⟨s, rfl, rfl⟩ := h
      exact ⟨.text s, ⟨s, rfl, rfl⟩, Nat.zero_le _, rfl⟩
    · intro h
      obtain ⟨v, ⟨s, rfl, rfl⟩, -, rfl⟩ := h
      exact ⟨s, rfl, rfl⟩
  | .list _ items, u => by
    simp only [Tree.value, Tree.spelled, Except.bind_eq_ok_iff, enter_eq_ok_iff,
      Option.map_eq_some_iff]
    constructor
    · intro h
      obtain ⟨n, rfl, us, h, hu⟩ := h
      obtain ⟨vs, hvs, hd, rfl⟩ := Items.values_eq_ok_iff.mp h
      obtain rfl := Except.ok.inj hu
      exact ⟨.list vs, ⟨vs, hvs, rfl⟩, Nat.succ_le_succ hd, rfl⟩
    · intro h
      obtain ⟨v, ⟨vs, hvs, rfl⟩, hd, rfl⟩ := h
      obtain ⟨n, rfl⟩ : ∃ n, room = n + 1 :=
        Nat.exists_eq_add_of_le' (Nat.le_trans (Nat.le_add_left 1 _) hd)
      exact ⟨n, rfl, _, Items.values_eq_ok_iff.mpr ⟨vs, hvs, Nat.le_of_succ_le_succ hd, rfl⟩, rfl⟩
  | .object _ members, u => by
    simp only [Tree.value, Tree.spelled, Except.bind_eq_ok_iff, enter_eq_ok_iff,
      Option.map_eq_some_iff]
    constructor
    · intro h
      obtain ⟨n, rfl, us, h, hu⟩ := h
      obtain ⟨vs, hvs, hd, rfl⟩ := Members.values_eq_ok_iff.mp h
      obtain rfl := Except.ok.inj hu
      exact ⟨.object vs, ⟨vs, hvs, rfl⟩, Nat.succ_le_succ hd, rfl⟩
    · intro h
      obtain ⟨v, ⟨vs, hvs, rfl⟩, hd, rfl⟩ := h
      obtain ⟨n, rfl⟩ : ∃ n, room = n + 1 :=
        Nat.exists_eq_add_of_le' (Nat.le_trans (Nat.le_add_left 1 _) hd)
      exact ⟨n, rfl, _, Members.values_eq_ok_iff.mpr ⟨vs, hvs, Nat.le_of_succ_le_succ hd, rfl⟩, rfl⟩

theorem Items.values_eq_ok_iff {room : Nat} : ∀ {items : Items} {us : List Value},
    items.values room = .ok us ↔ ∃ vs, items.spelled = some vs ∧ Value.depthEntries vs ≤ room ∧
      Value.mergedEntries vs = us
  | .closed _, us => by
    simp [Items.values, Items.spelled, Value.depthEntries, Value.mergedEntries]
  | .stray _ _, us => by simp [Items.values, Items.spelled]
  | .dangling _, us => by simp [Items.values, Items.spelled]
  | .cut _, us => by simp [Items.values, Items.spelled]
  | .item value rest, us => by
    simp only [Items.values, Items.spelled, Except.bind_eq_ok_iff, Option.bind_eq_bind,
      Option.bind_eq_some_iff, Tree.value_eq_ok_iff, Items.values_eq_ok_iff, pure, Except.pure]
    constructor
    · intro h
      obtain ⟨_, ⟨v, hv, hd, rfl⟩, _, ⟨vs, hvs, hds, rfl⟩, hu⟩ := h
      exact ⟨v :: vs, ⟨v, hv, vs, hvs, rfl⟩, Nat.max_le.mpr ⟨hd, hds⟩, Except.ok.inj hu⟩
    · intro h
      obtain ⟨_, ⟨v, hv, vs, hvs, h⟩, hd, rfl⟩ := h
      obtain rfl := Option.some.inj h
      obtain ⟨hd, hds⟩ := Nat.max_le.mp hd
      exact ⟨_, ⟨v, hv, hd, rfl⟩, _, ⟨vs, hvs, hds, rfl⟩, rfl⟩

theorem Members.values_eq_ok_iff {room : Nat} : ∀ {members : Members} {us : List (String × Value)},
    members.values room = .ok us ↔ ∃ vs, members.spelled = some vs ∧
      Value.depthMembers vs ≤ room ∧ Value.mergedMembers vs = us
  | .closed _, us => by
    simp [Members.values, Members.spelled, Value.depthMembers, Value.mergedMembers]
  | .stray _ _, us => by simp [Members.values, Members.spelled]
  | .keyless _ _, us => by simp [Members.values, Members.spelled]
  | .badKey _ _, us => by simp [Members.values, Members.spelled]
  | .bare key _ _, us => by simp [Members.values, Members.spelled, Except.bind_eq_ok_iff]
  | .cut _, us => by simp [Members.values, Members.spelled]
  | .member key _ value _ rest, us => by
    simp only [Members.values, Members.spelled, Except.bind_eq_ok_iff, Option.bind_eq_bind,
      Option.bind_eq_some_iff, Tree.value_eq_ok_iff, Members.values_eq_ok_iff, pure, Except.pure,
      Except.toOption_eq_some_iff]
    constructor
    · intro h
      obtain ⟨k, hk, _, ⟨v, hv, hd, rfl⟩, _, ⟨vs, hvs, hds, rfl⟩, hu⟩ := h
      exact ⟨(k, v) :: vs, ⟨k, hk, v, hv, vs, hvs, rfl⟩, Nat.max_le.mpr ⟨hd, hds⟩,
        Except.ok.inj hu⟩
    · intro h
      obtain ⟨_, ⟨k, hk, v, hv, vs, hvs, h⟩, hd, rfl⟩ := h
      obtain rfl := Option.some.inj h
      obtain ⟨hd, hds⟩ := Nat.max_le.mp hd
      exact ⟨k, hk, _, ⟨v, hv, hd, rfl⟩, _, ⟨vs, hvs, hds, rfl⟩, rfl⟩

end

end DeckDoc.Json
