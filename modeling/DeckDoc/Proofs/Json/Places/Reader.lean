import DeckDoc.Json.Layout
import DeckDoc.Proofs.Json.Places.Tree

namespace DeckDoc.Json

variable {size place room : Nat}

theorem failsOnly_enter {start : Nat} (h : start ≤ size) :
    FailsOnly (Fault.Within size) (enter room start) := by
  cases room with
  | zero => exact .error (Fault.within_after h rfl)
  | succ room => exact .ok

theorem Tree.within_misfit {T : Tree} (h : T.Within size) (wanted : Wanted) :
    (T.misfit wanted).Within size := by
  cases T with
  | missing place found =>
    exact Fault.within_after h (by cases found <;> rfl)
  | broken start strict loose => exact h.2.1
  | null start stop => exact Fault.within_at h.2
  | bool b start stop => exact Fault.within_at h.2
  | number value start stop =>
    cases value with
    | ok n => exact Fault.within_at h.2.1
    | error f => exact h.2.2 f rfl
  | text content start stop =>
    cases content with
    | ok s => exact Fault.within_at h.2.1
    | error f => exact h.2.2 f rfl
  | list start items => exact Fault.within_at h.1
  | object start members => exact Fault.within_at h.1

theorem Items.failsOnly_read {α : Type} {read : Tree → Except Fault α}
    (hread : ∀ T : Tree, T.Within size → FailsOnly (Fault.Within size) (read T)) :
    ∀ {items : Items}, items.Within size → FailsOnly (Fault.Within size) (items.read read)
  | .closed _, _ => .ok
  | .stray place found, h => .error (Fault.within_after h (by cases found <;> rfl))
  | .dangling place, h => .error (Fault.within_after h rfl)
  | .cut fault, h => .error h
  | .item value rest, h =>
    (hread value h.1).bind fun _ _ => (failsOnly_read hread h.2.2).bind fun _ _ => .ok

theorem Items.failsOnly_skip : ∀ {items : Items}, items.Within size →
    FailsOnly (Fault.Within size) items.skip
  | .closed _, _ => .ok
  | .stray place found, h => .error (Fault.within_after h (by cases found <;> rfl))
  | .dangling place, h => .error (Fault.within_after h rfl)
  | .cut fault, h => .error h
  | .item value rest, h => by
    rw [skip]
    exact failsOnly_skip h.2.2

theorem Members.failsOnly_skip : ∀ {members : Members}, members.Within size →
    FailsOnly (Fault.Within size) members.skip
  | .closed _, _ => .ok
  | .stray place found, h => .error (Fault.within_after h (by cases found <;> rfl))
  | .keyless place found, h => .error (Fault.within_after h (by cases found <;> rfl))
  | .badKey strict loose, h => .error h.2
  | .bare key place found, h => .error (Fault.within_after h.2 (by cases found <;> rfl))
  | .cut fault, h => .error h
  | .member key colon value next rest, h => by
    rw [skip]
    exact failsOnly_skip h.2

theorem Tree.failsOnly_skip {T : Tree} (h : T.Within size) :
    FailsOnly (Fault.Within size) T.skip := by
  cases T with
  | missing place found =>
    exact .error (Fault.within_after h (by cases found <;> rfl))
  | broken start strict loose => exact .error h.2.2
  | list start items => exact Items.failsOnly_skip h.2
  | object start members => exact Members.failsOnly_skip h.2
  | _ => exact .ok

mutual

theorem Tree.failsOnly_value : ∀ {T : Tree} {room : Nat}, T.Within size →
    FailsOnly (Fault.Within size) (T.value room)
  | .missing place found, _, h => .error (Fault.within_after h (by cases found <;> rfl))
  | .broken start strict loose, _, h => .error h.2.1
  | .null start stop, _, h => .ok
  | .bool b start stop, _, h => .ok
  | .number value start stop, _, h => h.2.2.map
  | .text content start stop, _, h => h.2.2.map
  | .list start items, _, h =>
    (failsOnly_enter h.1).bind fun _ _ => (Items.failsOnly_values h.2).bind fun _ _ => .ok
  | .object start members, _, h =>
    (failsOnly_enter h.1).bind fun _ _ => (Members.failsOnly_values h.2).bind fun _ _ => .ok

theorem Items.failsOnly_values : ∀ {items : Items} {room : Nat}, items.Within size →
    FailsOnly (Fault.Within size) (items.values room)
  | .closed _, _, _ => .ok
  | .stray place found, _, h => .error (Fault.within_after h (by cases found <;> rfl))
  | .dangling place, _, h => .error (Fault.within_after h rfl)
  | .cut fault, _, h => .error h
  | .item value rest, _, h =>
    (Tree.failsOnly_value h.1).bind fun _ _ => (Items.failsOnly_values h.2.2).bind fun _ _ => .ok

theorem Members.failsOnly_values : ∀ {members : Members} {room : Nat}, members.Within size →
    FailsOnly (Fault.Within size) (members.values room)
  | .closed _, _, _ => .ok
  | .stray place found, _, h => .error (Fault.within_after h (by cases found <;> rfl))
  | .keyless place found, _, h => .error (Fault.within_after h (by cases found <;> rfl))
  | .badKey strict loose, _, h => .error h.1
  | .bare key place found, _, h =>
    h.1.bind fun _ _ => .error (Fault.within_after h.2 (by cases found <;> rfl))
  | .cut fault, _, h => .error h
  | .member key colon value next rest, _, h =>
    h.1.1.bind fun _ _ => (Tree.failsOnly_value h.1.2.2.1).bind fun _ _ =>
      (Members.failsOnly_values h.2).bind fun _ _ => .ok

end

/-- A rejection has a place inside the text, or is of a tree that can be read as a value. -/
def Rejection.Within (size : Nat) (T : Tree) (r : Rejection) : Prop :=
  match r.place with
  | some place => Fault.Within size ⟨r.cause, place⟩
  | none => T.spelled ≠ none

theorem Rejection.within_settle {T : Tree} {r : Rejection} (h : r.Within size T)
    (hplace : T.spelled ≠ none → place ≤ size) : (r.settle place).Within size := by
  obtain ⟨cause, own⟩ := r
  cases own with
  | some own => exact h
  | none => exact Fault.within_at (hplace h)

/-- A reader of trees that stand inside a text: its complaints are of some kind. -/
def Reader.Complains {α ε : Type} (size : Nat) (p : Tree → ε → Prop) (read : Reader α ε) : Prop :=
  ∀ room T, T.Within size → FailsOnly (p T) (read room T)

/-- A fault in a tree is reported inside the text of the tree. -/
def Fault.Locates (size : Nat) (_ : Tree) (f : Fault) : Prop := f.Within size

namespace Reader

variable {α ε : Type}

theorem complains_text : text.Complains size (Fault.Locates size) := by
  intro room T h
  cases T with
  | text content start stop => exact h.2.2
  | _ => exact .error (Tree.within_misfit h .text)

theorem complains_value : value.Complains size (Fault.Locates size) := by
  intro room T h
  exact Tree.failsOnly_value h

theorem Complains.list {read : Reader α} (hread : read.Complains size (Fault.Locates size)) :
    read.list.Complains size (Fault.Locates size) := by
  intro room T h
  cases T with
  | list start items =>
    exact (failsOnly_enter h.1).bind fun room _ => Items.failsOnly_read (hread room) h.2
  | _ => exact .error (Tree.within_misfit h .list)

theorem Complains.optional {p : Tree → ε → Prop} {read : Reader α ε}
    (hread : read.Complains size p) : read.optional.Complains size p := by
  intro room T h
  cases T with
  | null start stop => exact .ok
  | _ => exact (hread room _ h).map

theorem Complains.placed {read : Reader α} (hread : read.Complains size (Fault.Locates size)) :
    read.placed.Complains size (Rejection.Within size) := by
  intro room T h
  exact (hread room T h).mapError fun f hf => hf

/-- Also what follows the outermost value of a text stands inside the text. -/
theorem failsOnly_ofText {read : Reader α} {text : String}
    (hread : read.Complains text.utf8ByteSize (Fault.Locates text.utf8ByteSize)) :
    FailsOnly (Fault.Within text.utf8ByteSize) (read.ofText text) := by
  obtain ⟨htree, hexcess⟩ := Source.within_ofText text
  refine (hread depthLimit _ htree).bind fun a _ => FailsOnly.bind ?_ fun _ _ => .ok
  unfold Source.finish
  split
  · exact .ok
  · next place hplace => exact .error (Fault.within_after (hexcess place hplace) rfl)

end Reader

theorem Members.settled_le {members : Members} {next : Nat} (h : members.Within size)
    (hnext : next ≤ size) : members.settled next ≤ size := by
  cases members with
  | closed stop => exact h
  | _ => exact hnext

namespace Layout

variable {κ : Type} [DecidableEq κ] {Content : κ → Type} {σ : Type}
  {layout : Layout κ Content σ}

theorem failsOnly_readMembers
    (hread : ∀ k, (layout.read k).Complains size (Rejection.Within size)) :
    ∀ {members : Members} {contents : Contents Content}, members.Within size →
      FailsOnly (Fault.Within size) (layout.readMembers room contents members)
  | .closed _, _, _ => .ok
  | .stray place found, _, h => .error (Fault.within_after h (by cases found <;> rfl))
  | .keyless place found, _, h => .error (Fault.within_after h (by cases found <;> rfl))
  | .badKey strict loose, _, h => .error h.1
  | .bare key place found, contents, h => by
    refine h.1.bind fun label _ => ?_
    split_ifs
    · exact .error (Fault.within_of_le (Nat.succ_le_succ h.2))
    · exact .error (Fault.within_at h.2)
    · exact .error (Fault.within_after h.2 (by cases found <;> rfl))
  | .cut fault, _, h => .error h
  | .member key colon value next rest, contents, h => by
    obtain ⟨⟨hkey, hcolon, hvalue, hnext⟩, hrest⟩ := h
    refine hkey.bind fun label _ => ?_
    split
    · exact (Tree.failsOnly_skip hvalue).bind fun _ _ => failsOnly_readMembers hread hrest
    · next k hk =>
      split_ifs
      · exact .error (Fault.within_at hcolon)
      · split
        · exact failsOnly_readMembers hread hrest
        · next r hr =>
          refine .error (Rejection.within_settle (hread k room value hvalue r hr) ?_)
          exact fun hspelled => Members.settled_le hrest (hnext hspelled)

theorem failsOnly_readItems
    (hread : ∀ k, (layout.read k).Complains size (Rejection.Within size)) :
    ∀ {items : Items} {keys : List κ} {contents : Contents Content}, items.Within size →
      FailsOnly (Fault.Within size) (layout.readItems room contents keys items)
  | .closed stop, [], _, _ => .ok
  | .stray place none, [], _, h => .error (Fault.within_after h rfl)
  | .stray place (some _), [], _, h => .error (Fault.within_after h rfl)
  | .item value rest, [], _, h => .error (Fault.within_after h.1.start_le rfl)
  | .dangling place, [], _, h => .error (Fault.within_after h rfl)
  | .cut fault, [], _, h => .error h
  | .closed stop, k :: keys, contents, h => by
    unfold readItems
    split
    · exact .ok
    · exact .error (Fault.within_at h)
  | .item value rest, k :: keys, contents, h => by
    obtain ⟨hvalue, hsettled, hrest⟩ := h
    unfold readItems
    split
    · exact failsOnly_readItems hread hrest
    · next r hr =>
      exact .error (Rejection.within_settle (hread k room value hvalue r hr) hsettled)
  | .stray place found, k :: keys, _, h =>
    .error (Fault.within_after h (by cases found <;> rfl))
  | .dangling place, k :: keys, _, h => .error (Fault.within_after h rfl)
  | .cut fault, k :: keys, _, h => .error h

/-- A record that can be made of any contents is refused for what its fields are refused for, or
inside the text. -/
theorem complains_reader (hread : ∀ k, (layout.read k).Complains size (Rejection.Within size))
    (hmake : ∀ contents, ∃ s, layout.make contents = .ok s) :
    layout.reader.Complains size (Fault.Locates size) := by
  have hfinish (contents : Contents Content) (place : Nat) :
      FailsOnly (Fault.Within size) (layout.finish contents place) := by
    obtain ⟨s, hs⟩ := hmake contents
    unfold finish
    rw [hs]
    exact .ok
  intro room T h
  cases T with
  | object start members =>
    exact (failsOnly_enter h.1).bind fun room _ =>
      (failsOnly_readMembers hread h.2).bind fun contents _ => hfinish contents _
  | list start items =>
    exact (failsOnly_enter h.1).bind fun room _ =>
      (failsOnly_readItems hread h.2).bind fun contents _ => hfinish contents _
  | _ => exact .error (Tree.within_misfit h _)

end Layout

end DeckDoc.Json
