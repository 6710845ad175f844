import DeckDoc.Proofs.Json.Accept
import DeckDoc.Proofs.Json.Record

namespace DeckDoc.Json

/-! The numbers that stand in a tree, also where nobody reads them. -/

mutual

def Tree.numbers : Tree → List Number
  | .number (.ok n) _ _ => [n]
  | .list _ items => items.numbers
  | .object _ members => members.numbers
  | _ => []

def Items.numbers : Items → List Number
  | .item value rest => value.numbers ++ rest.numbers
  | _ => []

def Members.numbers : Members → List Number
  | .member _ _ value _ rest => value.numbers ++ rest.numbers
  | _ => []

end

theorem Items.numbers_subset_of_trees? : ∀ {items : Items} {ts : List Tree},
    items.trees? = some ts → ∀ t ∈ ts, t.numbers ⊆ items.numbers
  | .closed _, ts, h => by
    obtain rfl : [] = ts := Option.some.inj h
    exact nofun
  | .item value rest, ts, h => by
    obtain ⟨us, hus, rfl⟩ := Option.map_eq_some_iff.mp h
    intro t ht
    rcases List.mem_cons.mp ht with rfl | ht
    · exact List.subset_append_left _ _
    · exact List.subset_append_of_subset_right _ (numbers_subset_of_trees? hus t ht)
  | .stray _ _, _, h => nomatch h
  | .dangling _, _, h => nomatch h
  | .cut _, _, h => nomatch h

theorem Tree.numbers_subset_of_trees? {T : Tree} {ts : List Tree} (h : T.trees? = some ts) :
    ∀ t ∈ ts, t.numbers ⊆ T.numbers := by
  cases T with
  | list _ items => exact Items.numbers_subset_of_trees? h
  | _ => cases h

theorem Members.numbers_subset_of_pairs? : ∀ {members : Members} {ms : List (String × Tree)},
    members.pairs? = some ms → ∀ m ∈ ms, m.2.numbers ⊆ members.numbers
  | .closed _, ms, h => by
    obtain rfl : [] = ms := Option.some.inj h
    exact nofun
  | .member (.ok key) _ value _ rest, ms, h => by
    obtain ⟨us, hus, rfl⟩ := Option.map_eq_some_iff.mp h
    intro m hm
    rcases List.mem_cons.mp hm with rfl | hm
    · exact List.subset_append_left _ _
    · exact List.subset_append_of_subset_right _ (numbers_subset_of_pairs? hus m hm)
  | .member (.error _) _ _ _ _, _, h => nomatch h
  | .stray _ _, _, h => nomatch h
  | .keyless _ _, _, h => nomatch h
  | .badKey _ _, _, h => nomatch h
  | .bare _ _ _, _, h => nomatch h
  | .cut _, _, h => nomatch h

mutual

theorem Tree.numbers_of_spelled : ∀ {T : Tree} {v : Value}, T.spelled = some v →
    v.numbers ⊆ T.numbers
  | .null _ _, v, h => by
    obtain rfl := Option.some.inj h
    exact List.nil_subset _
  | .bool b _ _, v, h => by
    obtain rfl := Option.some.inj h
    exact List.nil_subset _
  | .number (.ok n) _ _, v, h => by
    obtain rfl := Option.some.inj h
    exact List.Subset.refl _
  | .text s _ _, v, h => by
    obtain ⟨_, -, rfl⟩ := Option.map_eq_some_iff.mp h
    exact List.nil_subset _
  | .list _ items, v, h => by
    obtain ⟨vs, hvs, rfl⟩ := Option.map_eq_some_iff.mp h
    exact Items.numbers_of_spelled hvs
  | .object _ members, v, h => by
    obtain ⟨vs, hvs, rfl⟩ := Option.map_eq_some_iff.mp h
    exact Members.numbers_of_spelled hvs
  | .number (.error _) _ _, _, h => nomatch h
  | .missing _ _, _, h => nomatch h
  | .broken _ _ _, _, h => nomatch h

theorem Items.numbers_of_spelled : ∀ {items : Items} {vs : List Value},
    items.spelled = some vs → Value.numbersEntries vs ⊆ items.numbers
  | .closed _, vs, h => by
    obtain rfl := Option.some.inj h
    exact List.nil_subset _
  | .item value rest, vs, h => by
    simp only [Items.spelled, Option.bind_eq_bind, Option.bind_eq_some_iff] at h
    obtain ⟨v, hv, us, hus, h⟩ := h
    obtain rfl := Option.some.inj h
    exact List.append_subset.mpr
      ⟨List.subset_append_of_subset_left _ (Tree.numbers_of_spelled hv),
        List.subset_append_of_subset_right _ (Items.numbers_of_spelled hus)⟩
  | .stray _ _, _, h => nomatch h
  | .dangling _, _, h => nomatch h
  | .cut _, _, h => nomatch h

theorem Members.numbers_of_spelled : ∀ {members : Members} {vs : List (String × Value)},
    members.spelled = some vs → Value.numbersMembers vs ⊆ members.numbers
  | .closed _, vs, h => by
    obtain rfl := Option.some.inj h
    exact List.nil_subset _
  | .member key _ value _ rest, vs, h => by
    simp only [Members.spelled, Option.bind_eq_bind, Option.bind_eq_some_iff] at h
    obtain ⟨k, -, v, hv, us, hus, h⟩ := h
    obtain rfl := Option.some.inj h
    exact List.append_subset.mpr
      ⟨List.subset_append_of_subset_left _ (Tree.numbers_of_spelled hv),
        List.subset_append_of_subset_right _ (Members.numbers_of_spelled hus)⟩
  | .stray _ _, _, h => nomatch h
  | .keyless _ _, _, h => nomatch h
  | .badKey _ _, _, h => nomatch h
  | .bare _ _ _, _, h => nomatch h
  | .cut _, _, h => nomatch h

end

theorem Items.numbers_ofReversed {items : List Tree} {rest : Items} {n : Number} :
    n ∈ (ofReversed items rest).numbers ↔ (∃ t ∈ items, n ∈ t.numbers) ∨ n ∈ rest.numbers := by
  induction items generalizing rest with
  | nil => simp [ofReversed]
  | cons v items ih =>
    have hstep : ofReversed (v :: items) rest = ofReversed items (.item v rest) := rfl
    rw [hstep, ih, numbers, List.mem_append, List.exists_mem_cons_iff, or_left_comm, ← or_assoc]

theorem Members.numbers_ofReversed {members : List Entry} {rest : Members} {n : Number} :
    n ∈ (ofReversed members rest).numbers ↔
      (∃ m ∈ members, n ∈ m.value.numbers) ∨ n ∈ rest.numbers := by
  induction members generalizing rest with
  | nil => simp [ofReversed]
  | cons m members ih =>
    have hstep : ofReversed (m :: members) rest =
        ofReversed members (.member m.key m.colon m.value m.next rest) := rfl
    rw [hstep, ih, numbers, List.mem_append, List.exists_mem_cons_iff, or_left_comm, ← or_assoc]

attribute [simp] Tree.numbers Items.numbers Members.numbers Items.numbers_ofReversed
  Members.numbers_ofReversed

/-- The number stands in what a bracket holds up to now. -/
@[simp]
def Frame.Holds (n : Number) : Frame → Prop
  | .list _ items => ∃ t ∈ items, n ∈ t.numbers
  | .object _ members _ _ => ∃ m ∈ members, n ∈ m.value.numbers

def Frame.AnyHolds (n : Number) (frames : List Frame) : Prop := ∃ f ∈ frames, f.Holds n

/-- The number stands in what has been read up to now. -/
@[simp]
def Progress.Holds (n : Number) : Progress → Prop
  | .atValue frames => Frame.AnyHolds n frames
  | .atFirstItem _ frames => Frame.AnyHolds n frames
  | .afterValue value frames => n ∈ value.numbers ∨ Frame.AnyHolds n frames
  | .atFirstKey _ frames => Frame.AnyHolds n frames
  | .atKey _ members frames => (∃ m ∈ members, n ∈ m.value.numbers) ∨ Frame.AnyHolds n frames
  | .atColon _ members _ frames =>
    (∃ m ∈ members, n ∈ m.value.numbers) ∨ Frame.AnyHolds n frames

section

variable {n : Number} {frame : Frame} {frames : List Frame}

@[simp]
theorem Frame.anyHolds_nil : ¬ AnyHolds n [] := by simp [AnyHolds]

@[simp]
theorem Frame.anyHolds_cons : AnyHolds n (frame :: frames) ↔ frame.Holds n ∨ AnyHolds n frames := by
  simp [AnyHolds]

@[simp]
theorem Frame.numbers_cut {fault : Fault} {value : Tree} :
    n ∈ (frame.cut fault value).numbers ↔ n ∈ value.numbers ∨ frame.Holds n := by
  cases frame <;> simp [cut]

theorem Source.numbers_ofFaulty {value : Tree} {fault : Fault} :
    n ∈ (ofFaulty value fault frames).tree.numbers ↔
      n ∈ value.numbers ∨ Frame.AnyHolds n frames := by
  induction frames generalizing value with
  | nil => simp [ofFaulty]
  | cons frame frames ih =>
    have hstep : ofFaulty value fault (frame :: frames) =
        ofFaulty (frame.cut fault value) fault frames := rfl
    rw [hstep, ih, Frame.numbers_cut, Frame.anyHolds_cons, or_assoc]

/-- Nothing that has been read is lost where the text ends. -/
theorem Progress.numbers_stop {place : Nat} {found : Option Char} {p : Progress} :
    n ∈ (p.stop place found).tree.numbers ↔ p.Holds n := by
  cases p with
  | atValue frames =>
    cases frames with
    | nil => simp [stop, Source.numbers_ofFaulty]
    | cons frame frames =>
      cases frame with
      | list start items =>
        by_cases h : found = some ']'
        · simp [stop, h, Source.ofFaultyItems, Source.numbers_ofFaulty]
        · simp [stop, h, Source.numbers_ofFaulty]
      | object start members key colon => simp [stop, Source.numbers_ofFaulty]
  | atFirstItem start frames =>
    by_cases h : found.isNone
    · simp [stop, h, Source.ofFaultyItems, Source.numbers_ofFaulty]
    · simp [stop, h, Source.numbers_ofFaulty]
  | afterValue value frames =>
    cases frames with
    | nil => simp [stop]
    | cons frame frames =>
      cases frame <;> simp [stop, Source.ofFaultyItems, Source.ofFaultyMembers,
        Source.numbers_ofFaulty, or_assoc]
  | atFirstKey start frames =>
    by_cases h : found.isNone <;> simp [stop, h, Source.ofFaultyMembers, Source.numbers_ofFaulty]
  | atKey start members frames => simp [stop, Source.ofFaultyMembers, Source.numbers_ofFaulty]
  | atColon start members key frames =>
    simp [stop, Source.ofFaultyMembers, Source.numbers_ofFaulty]

/-- What a lexeme leads to holds the number. -/
@[simp]
def Progress.Leads (n : Number) : Progress ⊕ Source → Prop
  | .inl p => p.Holds n
  | .inr source => n ∈ source.tree.numbers

variable {l : Lexeme} {next : Progress ⊕ Source}

theorem Progress.leads_beginValue (h : beginValue frames l = some next) (hn : Leads n next) :
    Frame.AnyHolds n frames ∨ l.token = .number (.ok n) := by
  cases ht : l.token with
  | number v =>
    simp only [beginValue, ht, Option.some.injEq] at h
    subst h
    cases v with
    | ok m =>
      rcases hn with hm | hn
      · exact .inr (List.mem_singleton.mp hm ▸ rfl)
      · exact .inl hn
    | error f => exact .inl (by simpa using hn)
  | openList | openObject | null | bool _ | text _ =>
    simp only [beginValue, ht, Option.some.injEq] at h
    subst h
    exact .inl (by simpa using hn)
  | broken _ _ =>
    simp only [beginValue, ht, Option.some.injEq] at h
    subst h
    exact .inl (by simpa [Source.numbers_ofFaulty] using hn)
  | _ => simp [beginValue, ht] at h

theorem Progress.leads_beginKey {start : Nat} {members : List Entry}
    (h : beginKey start members frames l = some next) (hn : Leads n next) :
    (∃ m ∈ members, n ∈ m.value.numbers) ∨ Frame.AnyHolds n frames := by
  unfold beginKey at h
  split at h
  · cases h
    exact hn
  · split at h
    · cases h
      simpa [Source.ofFaultyMembers, Source.numbers_ofFaulty] using hn
    · cases h
  · cases h

/-- A lexeme brings at most the number that it is. -/
theorem Progress.leads_accept {p : Progress} (h : p.accept l = some next) (hn : Leads n next) :
    p.Holds n ∨ l.token = .number (.ok n) := by
  cases accepts_of_accept h with
  | value begun => exact leads_beginValue begun hn
  | firstItem begun => simpa using leads_beginValue begun hn
  | emptyList _ => exact .inl (by simpa using hn)
  | nextItem _ => exact .inl (by simpa [or_assoc] using hn)
  | endOfList _ => exact .inl (by simpa [or_assoc] using hn)
  | nextMember _ => exact .inl (by simpa [or_assoc] using hn)
  | endOfObject _ => exact .inl (by simpa [or_assoc] using hn)
  | emptyObject _ => exact .inl (by simpa using hn)
  | firstKey begun => exact .inl (by simpa using leads_beginKey begun hn)
  | key begun => exact .inl (leads_beginKey begun hn)
  | colon _ => exact .inl (by simpa using hn)

/-- Every number in what is built of a text is a lexeme of the text. -/
theorem Source.numbers_build {size : Nat} {p : Progress} {ls : List Lexeme}
    (h : n ∈ (build size p ls).tree.numbers) :
    p.Holds n ∨ ∃ l ∈ ls, l.token = .number (.ok n) := by
  induction ls generalizing p with
  | nil => exact .inl (Progress.numbers_stop.mp h)
  | cons l ls ih =>
    unfold build at h
    cases ha : p.accept l with
    | none =>
      rw [ha] at h
      exact .inl (Progress.numbers_stop.mp h)
    | some next =>
      rw [ha] at h
      have hl : p.Holds n ∨ l.token = .number (.ok n) ∨ ∃ l ∈ ls, l.token = .number (.ok n) := by
        cases next with
        | inl q =>
          rcases ih h with hq | hls
          · exact (Progress.leads_accept ha hq).imp id .inl
          · exact .inr (.inr hls)
        | inr source => exact (Progress.leads_accept ha h).imp id .inl
      exact hl.imp id (List.exists_mem_cons_iff _ _ _).mpr

end

namespace Lexeme

theorem inRange_ofNumber {place : Nat} {c : Char} {rest : List Char} {n : Number}
    (h : (ofNumber place c rest).token = .number (.ok n)) : n.InRange := by
  unfold ofNumber at h
  cases hm : Numeral.scan (c :: rest) with
  | error left => simp [hm] at h
  | ok r =>
    cases hv : r.1.value with
    | none => simp [hm, hv] at h
    | some m =>
      have hn : m = n := by simpa [hm, hv] using h
      exact hn ▸ Number.inRange_value hv

theorem ofWord_ne_number {place : Nat} {word : List Char} {t : Token} {c : Char}
    {rest : List Char} {v : Except Fault Number} (ht : t ≠ .number v) :
    (ofWord place word t c rest).token ≠ .number v := by
  unfold ofWord
  split
  · exact ht
  · exact nofun

theorem ofQuoted_ne_number {place : Nat} {c : Char} {rest : List Char}
    {v : Except Fault Number} : (ofQuoted place c rest).token ≠ .number v := by
  simp only [ofQuoted]
  split <;> exact nofun

theorem inRange_scan {place : Nat} {c : Char} {rest : List Char} {n : Number}
    (h : (scan place c rest).token = .number (.ok n)) : n.InRange := by
  unfold scan at h
  split at h
  case h_7 | h_8 | h_9 => exact absurd h (ofWord_ne_number nofun)
  case h_10 => exact absurd h ofQuoted_ne_number
  case h_11 =>
    split at h
    · exact inRange_ofNumber h
    · cases h
  all_goals cases h

theorem inRange_scanAll {place resume : Nat} {cs : List Char} {l : Lexeme} {n : Number}
    (hl : l ∈ scanAll place resume cs) (h : l.token = .number (.ok n)) : n.InRange := by
  induction cs generalizing place resume with
  | nil => cases hl
  | cons c cs ih =>
    unfold scanAll at hl
    split at hl
    · exact ih hl
    · simp only at hl
      split at hl
      · obtain rfl := List.mem_singleton.mp hl
        exact inRange_scan h
      · rcases List.mem_cons.mp hl with rfl | hl
        · exact inRange_scan h
        · exact ih hl

end Lexeme

/-- The numbers of a text have 64 bits. -/
theorem Source.inRange_ofText {text : String} {n : Number} (h : n ∈ (ofText text).tree.numbers) :
    n.InRange := by
  rcases numbers_build h with h | ⟨l, hl, ht⟩
  · exact absurd h Frame.anyHolds_nil
  · exact Lexeme.inRange_scanAll hl ht

end DeckDoc.Json
