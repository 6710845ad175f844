import DeckDoc.Proofs.Json.Stable
import DeckDoc.Proofs.Literal
import DeckDoc.Sizing

namespace DeckDoc

open Json

namespace Literal

theorem reader_eq_ok_iff {room : Nat} {T : Tree} {l : Literal} :
    reader room T = .ok l ↔ ∃ v, Reader.value room T = .ok v ∧ classify v = l := by
  rw [reader_eq_placed, Reader.placed_eq_ok_iff, Except.map_eq_ok_iff]

theorem stable_reader : reader.Stable toValue where
  numbers {room T l} hl := by
    obtain ⟨v, hv, rfl⟩ := reader_eq_ok_iff.mp hl
    rw [toValue_classify]
    exact Reader.stable_value.numbers hv
  null {room T l} hl hnull := by
    obtain ⟨v, hv, rfl⟩ := reader_eq_ok_iff.mp hl
    rw [toValue_classify] at hnull
    exact Reader.stable_value.null hv hnull
  reread {room T T' l} hl hT' := by
    obtain ⟨v, hv, rfl⟩ := reader_eq_ok_iff.mp hl
    rw [toValue_classify] at hT'
    exact reader_eq_ok_iff.mpr ⟨v, Reader.stable_value.reread hv hT', rfl⟩

end Literal

namespace Reference

/-- The item among the members of an object; `null` stands for none. -/
def item? (members : List (String × Value)) : Option Literal :=
  match members.lookup "item" with
  | none | some .null => none
  | some v => some (.classify v.merged)

theorem item?_eq_some_iff {members : List (String × Value)} {l : Literal} :
    item? members = some l ↔
      ∃ v, members.lookup "item" = some v ∧ v ≠ .null ∧ .classify v.merged = l := by
  unfold item?
  cases h : members.lookup "item" with
  | none => simp
  | some v => cases v <;> simp

theorem itemOf_eq_ok (members : List (String × Value)) : itemOf members = .ok (item? members) := by
  unfold itemOf item?
  cases members.lookup "item" with
  | none => rfl
  | some v =>
    cases v with
    | null => rfl
    | _ =>
      dsimp only
      rw [Literal.ofValue_eq_ok]
      rfl

theorem keywordOf_eq_ok_iff {members : List (String × Value)} {o : Option String} :
    keywordOf members = .ok o ↔ members.lookup "keyword" = none ∧ o = none ∨
      members.lookup "keyword" = some (Value.ofOption .text o) := by
  unfold keywordOf
  cases members.lookup "keyword" with
  | none => simp [eq_comm]
  | some v => cases v <;> cases o <;> simp [Value.ofOption]

theorem ofMembers_eq_ok_iff {members : List (String × Value)} {r : Reference} :
    ofMembers members = .ok r ↔ r.item = item? members ∧
      (members.lookup "keyword" = none ∧ r.keyword = none ∨
        members.lookup "keyword" = some (Value.ofOption .text r.keyword)) := by
  simp only [ofMembers, itemOf_eq_ok, Except.bind_eq_ok_iff, Except.ok.injEq, exists_eq_left',
    ← keywordOf_eq_ok_iff, pure, Except.pure]
  constructor
  · rintro ⟨keyword, hkeyword, rfl⟩
    exact ⟨rfl, hkeyword⟩
  · rintro ⟨hitem, hkeyword⟩
    exact ⟨_, hkeyword, hitem ▸ rfl⟩

variable {members : List (String × Value)} {r : Reference}

/-- The item of a reference stood among the members that the reference was read from. -/
theorem item_of_ofMembers (h : ofMembers members = .ok r) : r.item = none ∨
    ∃ v, members.lookup "item" = some v ∧ v ≠ .null ∧ r.item = some (.classify v.merged) := by
  have hitem := (ofMembers_eq_ok_iff.mp h).1
  cases hl : item? members with
  | none => exact .inl (hitem.trans hl)
  | some l =>
    obtain ⟨v, hv, hne, rfl⟩ := item?_eq_some_iff.mp hl
    exact .inr ⟨v, hv, hne, hitem.trans hl⟩

theorem numbers_toValue (h : ofMembers members = .ok r) :
    r.toValue.numbers ⊆ (Value.object members).numbers := by
  have hkeyword : (Value.ofOption .text r.keyword).numbers = [] := by cases r.keyword <;> rfl
  intro n hn
  simp only [toValue, Value.numbers, Value.numbersMembers, hkeyword, List.nil_append,
    List.append_nil] at hn
  rcases item_of_ofMembers h with hnone | ⟨v, hv, -, hsome⟩
  · rw [hnone] at hn
    cases hn
  · rw [hsome] at hn
    change n ∈ (Literal.classify v.merged).toValue.numbers at hn
    rw [Literal.toValue_classify] at hn
    exact Value.mem_numbersMembers.mpr
      ⟨_, Layout.mem_of_lookup hv, Value.numbers_merged_subset v hn⟩

theorem depth_toValue (h : ofMembers members = .ok r) :
    r.toValue.depth ≤ (Value.object members).depth := by
  have hkeyword : (Value.ofOption .text r.keyword).depth = 0 := by cases r.keyword <;> rfl
  have hitem : (Value.ofOption Literal.toValue r.item).depth ≤ Value.depthMembers members := by
    rcases item_of_ofMembers h with hnone | ⟨v, hv, -, hsome⟩
    · rw [hnone]
      exact Nat.zero_le _
    · rw [hsome]
      change (Literal.classify v.merged).toValue.depth ≤ _
      rw [Literal.toValue_classify]
      exact Nat.le_trans (Value.depth_merged_le v) (Value.depth_le_of_mem (Layout.mem_of_lookup hv))
  simp only [toValue, Value.depth, Value.depthMembers, hkeyword]
  omega

/-- A reference is written as an object that makes the reference again. -/
theorem ofMembers_toValue (horder : (Value.object members).InOrder)
    (h : ofMembers members = .ok r) :
    ∃ ms, r.toValue.merged = .object ms ∧ ofMembers ms = .ok r := by
  refine ⟨_, rfl, ofMembers_eq_ok_iff.mpr ⟨?_, .inr ?_⟩⟩
  · rcases item_of_ofMembers h with hnone | ⟨v, hv, hne, hsome⟩
    · rw [item?, Value.lookup_merge_mergedMembers, hnone]
      rfl
    · rw [hsome]
      symm
      refine item?_eq_some_iff.mpr ⟨v, ?_, hne, rfl⟩
      rw [Value.lookup_merge_mergedMembers]
      change some (Literal.classify v.merged).toValue.merged = some v
      rw [Literal.toValue_classify, Value.merged_merged, Value.inOrder_of_lookup horder hv]
  · rw [Value.lookup_merge_mergedMembers]
    cases r.keyword <;> rfl

end Reference

namespace Sizing

theorem reader_eq_ok_iff {room : Nat} {T : Tree} {s : Sizing} :
    reader room T = .ok s ↔ ∃ v, Reader.value room T = .ok v ∧ ofValue v = .ok s := by
  unfold reader Reader.value
  cases T.value room with
  | error f => simp
  | ok v =>
    simp only [Except.ok.injEq, exists_eq_left']
    cases ofValue v <;> simp [Except.mapError]

theorem ofValue_eq_ok_iff {v : Value} {s : Sizing} : ofValue v = .ok s ↔
    (∃ members r, v = .object members ∧ Reference.ofMembers members = .ok r ∧ reference r = s) ∨
      (∀ members, v ≠ .object members) ∧ fixed (.classify v.merged) = s := by
  cases v <;> simp [ofValue, Literal.ofValue_eq_ok, Except.map_eq_ok_iff]

theorem stable_reader : reader.Stable toValue where
  numbers {room T s} hs := by
    obtain ⟨v, hv, hs⟩ := reader_eq_ok_iff.mp hs
    have hnumbers := Reader.stable_value.numbers hv
    rcases ofValue_eq_ok_iff.mp hs with ⟨members, r, rfl, hr, rfl⟩ | ⟨-, rfl⟩
    · exact List.Subset.trans (Reference.numbers_toValue hr) hnumbers
    · rw [toValue, Literal.toValue_classify, Reader.inOrder_of_value hv]
      exact hnumbers
  null {room T s} hs hnull := by
    obtain ⟨v, hv, hs⟩ := reader_eq_ok_iff.mp hs
    rcases ofValue_eq_ok_iff.mp hs with ⟨members, r, rfl, -, rfl⟩ | ⟨-, rfl⟩
    · cases hnull
    · rw [toValue, Literal.toValue_classify, Reader.inOrder_of_value hv] at hnull
      exact Reader.stable_value.null hv hnull
  reread {room T T' s} hs hT' := by
    obtain ⟨v, hv, hs⟩ := reader_eq_ok_iff.mp hs
    rcases ofValue_eq_ok_iff.mp hs with ⟨members, r, rfl, hr, rfl⟩ | ⟨hne, rfl⟩
    · obtain ⟨ms, hms, hr'⟩ := Reference.ofMembers_toValue (Reader.inOrder_of_value hv) hr
      have hdepth : r.toValue.depth ≤ room :=
        Nat.le_trans (Reference.depth_toValue hr) (Reader.depth_of_value hv)
      have hread : Reader.value room T' = .ok (.object ms) :=
        Tree.value_eq_ok_iff.mpr ⟨r.toValue, hT', hdepth, hms⟩
      exact reader_eq_ok_iff.mpr ⟨_, hread, ofValue_eq_ok_iff.mpr (.inl ⟨ms, r, rfl, hr', rfl⟩)⟩
    · rw [toValue, Literal.toValue_classify, Reader.inOrder_of_value hv] at hT'
      exact reader_eq_ok_iff.mpr ⟨v, Reader.stable_value.reread hv hT', hs⟩

end Sizing

end DeckDoc
