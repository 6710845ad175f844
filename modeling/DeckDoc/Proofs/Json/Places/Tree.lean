import DeckDoc.Proofs.Json.Accept
import DeckDoc.Proofs.Json.Places.Lexeme

namespace DeckDoc.Json

mutual

/-- Everything in a tree stands inside a text of some bytes, its faults as far as faults do. What
follows a value is asked for only where the value has no fault in it. -/
def Tree.Within (size : Nat) : Tree → Prop
  | .missing start _ => start ≤ size
  | .broken start strict loose => start ≤ size ∧ strict.Within size ∧ loose.Within size
  | .null start stop => start ≤ size ∧ stop ≤ size
  | .bool _ start stop => start ≤ size ∧ stop ≤ size
  | .number value start stop =>
    start ≤ size ∧ stop ≤ size ∧ FailsOnly (Fault.Within size) value
  | .text content start stop =>
    start ≤ size ∧ stop ≤ size ∧ FailsOnly (Fault.Within size) content
  | .list start items => start ≤ size ∧ items.Within size
  | .object start members => start ≤ size ∧ members.Within size

def Items.Within (size : Nat) : Items → Prop
  | .closed stop => stop ≤ size
  | .stray place _ => place ≤ size
  | .dangling place => place ≤ size
  | .cut fault => fault.Within size
  | .item value rest =>
    value.Within size ∧ (value.spelled ≠ none → rest.settled ≤ size) ∧ rest.Within size

def Members.Within (size : Nat) : Members → Prop
  | .closed stop => stop ≤ size
  | .stray place _ => place ≤ size
  | .keyless place _ => place ≤ size
  | .badKey strict loose => strict.Within size ∧ loose.Within size
  | .bare key place _ => FailsOnly (Fault.Within size) key ∧ place ≤ size
  | .cut fault => fault.Within size
  | .member key colon value next rest =>
    (FailsOnly (Fault.Within size) key ∧ colon ≤ size ∧ value.Within size ∧
      (value.spelled ≠ none → next ≤ size)) ∧ rest.Within size

end

def Entry.Within (size : Nat) (m : Entry) : Prop :=
  FailsOnly (Fault.Within size) m.key ∧ m.colon ≤ size ∧ m.value.Within size ∧
    (m.value.spelled ≠ none → m.next ≤ size)

variable {size place : Nat}

theorem Tree.Within.start_le {T : Tree} (h : T.Within size) : T.start ≤ size := by
  cases T with
  | missing => exact h
  | _ => exact h.1

theorem Items.within_ofReversed {items : List Tree} {rest : Items}
    (hitems : ∀ v ∈ items, v.Within size) (hsettled : rest.settled ≤ size)
    (hrest : rest.Within size) : (ofReversed items rest).Within size := by
  induction items generalizing rest with
  | nil => exact hrest
  | cons v items ih =>
    have hv := hitems v List.mem_cons_self
    exact ih (fun w hw => hitems w (List.mem_cons_of_mem _ hw)) hv.start_le
      ⟨hv, fun _ => hsettled, hrest⟩

theorem Members.within_ofReversed {members : List Entry} {rest : Members}
    (hmembers : ∀ m ∈ members, m.Within size) (hrest : rest.Within size) :
    (ofReversed members rest).Within size := by
  induction members generalizing rest with
  | nil => exact hrest
  | cons m members ih =>
    have hm := hmembers m List.mem_cons_self
    exact ih (fun n hn => hmembers n (List.mem_cons_of_mem _ hn)) ⟨hm, hrest⟩

theorem Items.spelled_ofReversed {items : List Tree} {rest : Items} (h : rest.spelled = none) :
    (ofReversed items rest).spelled = none := by
  induction items generalizing rest with
  | nil => exact h
  | cons v items ih =>
    refine ih ?_
    rw [spelled, h]
    cases v.spelled <;> rfl

theorem Members.spelled_ofReversed {members : List Entry} {rest : Members}
    (h : rest.spelled = none) : (ofReversed members rest).spelled = none := by
  induction members generalizing rest with
  | nil => exact h
  | cons m members ih =>
    refine ih ?_
    rw [spelled, h]
    cases m.key.toOption <;> cases m.value.spelled <;> rfl

/-- What is read up to now stands inside the text. -/
def Frame.Within (size : Nat) : Frame → Prop
  | .list start items => start ≤ size ∧ ∀ v ∈ items, v.Within size
  | .object start members key colon =>
    start ≤ size ∧ (∀ m ∈ members, m.Within size) ∧ FailsOnly (Fault.Within size) key ∧
      colon ≤ size

def Progress.Within (size : Nat) : Progress → Prop
  | .atValue frames => ∀ f ∈ frames, f.Within size
  | .atFirstItem start frames => start ≤ size ∧ ∀ f ∈ frames, f.Within size
  | .afterValue value frames => value.Within size ∧ ∀ f ∈ frames, f.Within size
  | .atFirstKey start frames => start ≤ size ∧ ∀ f ∈ frames, f.Within size
  | .atKey start members frames =>
    start ≤ size ∧ (∀ m ∈ members, m.Within size) ∧ ∀ f ∈ frames, f.Within size
  | .atColon start members key frames =>
    start ≤ size ∧ (∀ m ∈ members, m.Within size) ∧ FailsOnly (Fault.Within size) key ∧
      ∀ f ∈ frames, f.Within size

def Source.Within (size : Nat) (s : Source) : Prop :=
  s.tree.Within size ∧ ∀ place ∈ s.excess, place ≤ size

/-- A value with a fault in it, which stands inside the text. -/
def Tree.Faulty (size : Nat) (T : Tree) : Prop := T.Within size ∧ T.spelled = none

theorem Frame.faulty_cut {frame : Frame} {fault : Fault} {value : Tree}
    (h : frame.Within size) (hf : fault.Within size) (hv : value.Faulty size) :
    (frame.cut fault value).Faulty size := by
  obtain ⟨hwithin, hspelled⟩ := hv
  cases frame with
  | list start items =>
    obtain ⟨hstart, hitems⟩ := h
    have hlast : (Items.item value (.cut fault)).Within size :=
      ⟨hwithin, fun hs => absurd hspelled hs, hf⟩
    have hnone : (Items.ofReversed (value :: items) (.cut fault)).spelled = none :=
      Items.spelled_ofReversed rfl
    have hcut : (Items.ofReversed items (.item value (.cut fault))).Within size :=
      Items.within_ofReversed hitems hwithin.start_le hlast
    refine ⟨⟨hstart, hcut⟩, ?_⟩
    rw [cut, Tree.spelled, hnone]
    rfl
  | object start members key colon =>
    obtain ⟨hstart, hmembers, hkey, hcolon⟩ := h
    have hlast : Entry.Within size ⟨key, colon, value, fault.place⟩ :=
      ⟨hkey, hcolon, hwithin, fun hs => absurd hspelled hs⟩
    have hnone : (Members.ofReversed (⟨key, colon, value, fault.place⟩ :: members)
        (.cut fault)).spelled = none := Members.spelled_ofReversed rfl
    refine ⟨⟨hstart, Members.within_ofReversed (List.forall_mem_cons.mpr ⟨hlast, hmembers⟩) hf⟩, ?_⟩
    rw [cut, Tree.spelled, hnone]
    rfl

theorem Source.within_ofFaulty {value : Tree} {fault : Fault} {frames : List Frame}
    (hv : value.Faulty size) (hf : fault.Within size) (h : ∀ f ∈ frames, f.Within size) :
    (ofFaulty value fault frames).Within size := by
  induction frames generalizing value with
  | nil => exact ⟨hv.1, by simp [ofFaulty]⟩
  | cons frame frames ih =>
    obtain ⟨hframe, hframes⟩ := List.forall_mem_cons.mp h
    exact ih (Frame.faulty_cut hframe hf hv) hframes

theorem Source.within_ofFaultyItems {start : Nat} {items : List Tree} {rest : Items}
    {fault : Fault} {frames : List Frame} (hstart : start ≤ size)
    (hitems : ∀ v ∈ items, v.Within size) (hsettled : rest.settled ≤ size)
    (hrest : rest.Within size) (hnone : rest.spelled = none) (hf : fault.Within size)
    (h : ∀ f ∈ frames, f.Within size) :
    (ofFaultyItems start items rest fault frames).Within size := by
  refine within_ofFaulty ⟨⟨hstart, Items.within_ofReversed hitems hsettled hrest⟩, ?_⟩ hf h
  rw [Tree.spelled, Items.spelled_ofReversed hnone]
  rfl

theorem Source.within_ofFaultyMembers {start : Nat} {members : List Entry} {rest : Members}
    {fault : Fault} {frames : List Frame} (hstart : start ≤ size)
    (hmembers : ∀ m ∈ members, m.Within size) (hrest : rest.Within size)
    (hnone : rest.spelled = none) (hf : fault.Within size) (h : ∀ f ∈ frames, f.Within size) :
    (ofFaultyMembers start members rest fault frames).Within size := by
  refine within_ofFaulty ⟨⟨hstart, Members.within_ofReversed hmembers hrest⟩, ?_⟩ hf h
  rw [Tree.spelled, Members.spelled_ofReversed hnone]
  rfl

theorem Progress.within_stop {p : Progress} {found : Option Char} (h : p.Within size)
    (hplace : place ≤ size) : (p.stop place found).Within size := by
  have hdue {f : Fault} (hf : f.place = place + 1) : f.Within size :=
    Fault.within_after hplace hf
  have hvalue : (Fault.noValue place found).Within size := hdue (by cases found <;> rfl)
  have hlist : (Fault.noListComma place found).Within size := hdue (by cases found <;> rfl)
  have hobject : (Fault.noObjectComma place found).Within size := hdue (by cases found <;> rfl)
  have hcolon : (Fault.noColon place found).Within size := hdue (by cases found <;> rfl)
  have hkey : (Fault.noKeyLoose place found).Within size := hdue (by cases found <;> rfl)
  have hmissing : (Tree.missing place found).Faulty size := ⟨hplace, rfl⟩
  cases p with
  | atValue frames =>
    cases frames with
    | nil => exact Source.within_ofFaulty hmissing hvalue h
    | cons frame frames =>
      cases frame with
      | list start items =>
        obtain ⟨⟨hstart, hitems⟩, hframes⟩ := List.forall_mem_cons.mp h
        simp only [stop]
        split_ifs
        · exact Source.within_ofFaultyItems hstart hitems hplace hplace rfl (hdue rfl) hframes
        · exact Source.within_ofFaulty hmissing hvalue h
      | object start members key colon => exact Source.within_ofFaulty hmissing hvalue h
  | atFirstItem start frames =>
    obtain ⟨hstart, hframes⟩ := h
    simp only [stop]
    split_ifs
    · exact Source.within_ofFaultyItems hstart (List.forall_mem_nil _) hplace hplace rfl hlist
        hframes
    · refine Source.within_ofFaulty hmissing hvalue (List.forall_mem_cons.mpr ⟨?_, hframes⟩)
      exact ⟨hstart, List.forall_mem_nil _⟩
  | afterValue value frames =>
    obtain ⟨hwithin, hall⟩ := h
    cases frames with
    | nil =>
      refine ⟨hwithin, ?_⟩
      intro excess hexcess
      obtain ⟨c, -, rfl⟩ := Option.map_eq_some_iff.mp hexcess
      exact hplace
    | cons frame frames =>
      cases frame with
      | list start items =>
        obtain ⟨⟨hstart, hitems⟩, hframes⟩ := List.forall_mem_cons.mp hall
        exact Source.within_ofFaultyItems hstart (List.forall_mem_cons.mpr ⟨hwithin, hitems⟩)
          hplace hplace rfl hlist hframes
      | object start members key colon =>
        obtain ⟨⟨hstart, hmembers, hkey, hcolon⟩, hframes⟩ := List.forall_mem_cons.mp hall
        have hlast : Entry.Within size ⟨key, colon, value, place⟩ :=
          ⟨hkey, hcolon, hwithin, fun _ => hplace⟩
        exact Source.within_ofFaultyMembers hstart (List.forall_mem_cons.mpr ⟨hlast, hmembers⟩)
          hplace rfl hobject hframes
  | atFirstKey start frames =>
    obtain ⟨hstart, hframes⟩ := h
    simp only [stop]
    split_ifs
    · exact Source.within_ofFaultyMembers hstart (List.forall_mem_nil _) hplace rfl hkey hframes
    · exact Source.within_ofFaultyMembers hstart (List.forall_mem_nil _) hplace rfl hkey hframes
  | atKey start members frames =>
    obtain ⟨hstart, hmembers, hframes⟩ := h
    exact Source.within_ofFaultyMembers hstart hmembers hplace rfl hkey hframes
  | atColon start members key frames =>
    obtain ⟨hstart, hmembers, hkey, hframes⟩ := h
    exact Source.within_ofFaultyMembers hstart hmembers ⟨hkey, hplace⟩ rfl hcolon hframes

/-- What a lexeme leads to stands inside the text. -/
def Progress.LeadsWithin (size : Nat) : Progress ⊕ Source → Prop
  | .inl p => p.Within size
  | .inr source => source.Within size

variable {l : Lexeme} {frames : List Frame} {next : Progress ⊕ Source}

theorem Progress.within_beginValue (hl : l.Within size) (h : ∀ f ∈ frames, f.Within size)
    (hnext : beginValue frames l = some next) : LeadsWithin size next := by
  obtain ⟨hstart, hstop, htoken⟩ := hl
  cases ht : l.token with
  | openList | openObject =>
    simp only [beginValue, ht, Option.some.injEq] at hnext
    subst hnext
    exact ⟨hstart, h⟩
  | null | bool =>
    simp only [beginValue, ht, Option.some.injEq] at hnext
    subst hnext
    exact ⟨⟨hstart, hstop (ht ▸ rfl)⟩, h⟩
  | number | text =>
    simp only [beginValue, ht, Option.some.injEq] at hnext
    subst hnext
    rw [ht] at htoken
    exact ⟨⟨hstart, hstop (ht ▸ rfl), htoken⟩, h⟩
  | broken strict loose =>
    simp only [beginValue, ht, Option.some.injEq] at hnext
    subst hnext
    rw [ht] at htoken
    exact Source.within_ofFaulty ⟨⟨hstart, htoken⟩, rfl⟩ htoken.2 h
  | _ => simp [beginValue, ht] at hnext

theorem Progress.within_beginKey {start : Nat} {members : List Entry} (hl : l.Within size)
    (hstart : start ≤ size) (hmembers : ∀ m ∈ members, m.Within size)
    (h : ∀ f ∈ frames, f.Within size) (hnext : beginKey start members frames l = some next) :
    LeadsWithin size next := by
  have htoken := hl.token
  unfold beginKey at hnext
  split at hnext
  · next s ht =>
    cases hnext
    rw [ht] at htoken
    exact ⟨hstart, hmembers, htoken, h⟩
  · next strict loose ht =>
    split at hnext
    · cases hnext
      rw [ht] at htoken
      exact Source.within_ofFaultyMembers hstart hmembers htoken rfl htoken.2 h
    · cases hnext
  · cases hnext

theorem Progress.within_accept {p : Progress} (hl : l.Within size) (h : p.Within size)
    (hnext : p.accept l = some next) : LeadsWithin size next := by
  have hstart := hl.start
  have hstop := hl.stop
  cases accepts_of_accept hnext with
  | value begun => exact within_beginValue hl h begun
  | firstItem begun =>
    obtain ⟨hlist, hframes⟩ := h
    refine within_beginValue hl (List.forall_mem_cons.mpr ⟨?_, hframes⟩) begun
    exact ⟨hlist, List.forall_mem_nil _⟩
  | emptyList ht =>
    obtain ⟨hlist, hframes⟩ := h
    exact ⟨⟨hlist, hstop (ht ▸ rfl)⟩, hframes⟩
  | nextItem _ =>
    obtain ⟨hvalue, hall⟩ := h
    obtain ⟨⟨hlist, hitems⟩, hframes⟩ := List.forall_mem_cons.mp hall
    exact List.forall_mem_cons.mpr ⟨⟨hlist, List.forall_mem_cons.mpr ⟨hvalue, hitems⟩⟩, hframes⟩
  | endOfList ht =>
    obtain ⟨hvalue, hall⟩ := h
    obtain ⟨⟨hlist, hitems⟩, hframes⟩ := List.forall_mem_cons.mp hall
    have hclosed : l.stop ≤ size := hstop (ht ▸ rfl)
    have hitems' := List.forall_mem_cons.mpr ⟨hvalue, hitems⟩
    exact ⟨⟨hlist, Items.within_ofReversed hitems' hclosed hclosed⟩, hframes⟩
  | @nextMember v _ _ key colon _ _ =>
    obtain ⟨hvalue, hall⟩ := h
    obtain ⟨⟨hobject, hmembers, hkey, hcolon⟩, hframes⟩ := List.forall_mem_cons.mp hall
    have hlast : Entry.Within size ⟨key, colon, v, l.start⟩ :=
      ⟨hkey, hcolon, hvalue, fun _ => hstart⟩
    exact ⟨hobject, List.forall_mem_cons.mpr ⟨hlast, hmembers⟩, hframes⟩
  | @endOfObject v _ _ key colon _ ht =>
    obtain ⟨hvalue, hall⟩ := h
    obtain ⟨⟨hobject, hmembers, hkey, hcolon⟩, hframes⟩ := List.forall_mem_cons.mp hall
    have hlast : Entry.Within size ⟨key, colon, v, l.start⟩ :=
      ⟨hkey, hcolon, hvalue, fun _ => hstart⟩
    have hclosed : l.stop ≤ size := hstop (ht ▸ rfl)
    have hmembers' := List.forall_mem_cons.mpr ⟨hlast, hmembers⟩
    exact ⟨⟨hobject, Members.within_ofReversed hmembers' hclosed⟩, hframes⟩
  | emptyObject ht =>
    obtain ⟨hobject, hframes⟩ := h
    exact ⟨⟨hobject, hstop (ht ▸ rfl)⟩, hframes⟩
  | firstKey begun =>
    obtain ⟨hobject, hframes⟩ := h
    exact within_beginKey hl hobject (List.forall_mem_nil _) hframes begun
  | key begun =>
    obtain ⟨hobject, hmembers, hframes⟩ := h
    exact within_beginKey hl hobject hmembers hframes begun
  | colon _ =>
    obtain ⟨hobject, hmembers, hkey, hframes⟩ := h
    exact List.forall_mem_cons.mpr ⟨⟨hobject, hmembers, hkey, hstart⟩, hframes⟩

theorem Source.within_build {p : Progress} {ls : List Lexeme} (hp : p.Within size)
    (hls : ∀ l ∈ ls, l.Within size) : (build size p ls).Within size := by
  induction ls generalizing p with
  | nil => exact Progress.within_stop hp (Nat.le_refl size)
  | cons l ls ih =>
    obtain ⟨hl, hrest⟩ := List.forall_mem_cons.mp hls
    unfold build
    cases hnext : p.accept l with
    | none => exact Progress.within_stop hp hl.start
    | some next =>
      have hwithin := Progress.within_accept hl hp hnext
      cases next with
      | inl q => exact ih hwithin hrest
      | inr source => exact hwithin

/-- What a text is taken for stands inside the text. -/
theorem Source.within_ofText (text : String) : (ofText text).Within text.utf8ByteSize := by
  refine within_build (List.forall_mem_nil _) fun l hl => Lexeme.within_of_mem_scanAll ?_ hl
  rw [Nat.zero_add, Escaped.utf8ByteSize_eq]

end DeckDoc.Json
