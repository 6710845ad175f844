import DeckDoc.Proofs.Json.Last
import DeckDoc.Proofs.Json.Stable

namespace DeckDoc.Json

/-- What a list is read as, one entry after the other; `null` counts as an empty list. -/
def Tree.Lists {α : Type} (R : Tree → α → Prop) (T : Tree) (as : List α) : Prop :=
  (T.isNull = true ∧ as = []) ∨ ∃ ts, T.trees? = some ts ∧ List.Forall₂ R ts as

theorem Tree.isNull_iff {T : Tree} : T.isNull = true ↔ T.spelled = some .null := by
  rw [spelled_eq_null_iff]
  cases T <;> simp [isNull]

namespace Reader

variable {α ε : Type}

/-- The reader gives something unless it is given `null`. -/
def TellsNull (read : Reader (Option α) ε) : Prop :=
  ∀ (room : Nat) (T : Tree) (o : Option α), read room T = .ok o → o.isSome = !T.isNull

theorem tellsNull_optional (read : Reader α ε) : read.optional.TellsNull := by
  intro room T o h
  rcases optional_eq_ok_iff.mp h with ⟨hT, rfl⟩ | ⟨hT, a, -, rfl⟩
  · simp [Tree.isNull_iff.mpr hT]
  · have hnull : T.isNull = false := by
      rw [← Bool.not_eq_true, Tree.isNull_iff]
      exact hT
    simp [hnull]

theorem TellsNull.placed {read : Reader (Option α)} (h : read.TellsNull) :
    read.placed.TellsNull :=
  fun _ _ _ hread => h _ _ _ (placed_eq_ok_iff.mp hread)

theorem lists_of_optional {read : Reader α} {R : Tree → α → Prop}
    (hR : ∀ room t a, read room t = .ok a → R t a) {room : Nat} {T : Tree}
    {o : Option (List α)} (h : read.list.optional.placed room T = .ok o) :
    T.Lists R (o.getD []) := by
  rcases optional_eq_ok_iff.mp (placed_eq_ok_iff.mp h) with ⟨hT, rfl⟩ | ⟨-, as, has, rfl⟩
  · exact .inl ⟨Tree.isNull_iff.mpr hT, rfl⟩
  · obtain ⟨_, ts, -, hts, hall⟩ := list_eq_ok_iff.mp has
    exact .inr ⟨ts, hts, hall.imp (hR _)⟩

end Reader

/-- Of a field that is there if its key is there with something else than `null`. -/
theorem isSome_join_iff {α : Type} {o : Option (Option α)} {label : String}
    {ms : List (String × Tree)} (hnone : o.isSome = true ↔ label ∈ ms.map Prod.fst)
    (hsome : ∀ T, (label, T) ∈ ms → ∃ c, o = some c ∧ c.isSome = !T.isNull) :
    o.join.isSome = true ↔ ∃ T, (label, T) ∈ ms ∧ T.isNull = false := by
  constructor
  · intro h
    have ho : o.isSome = true := by
      cases o with
      | none => cases h
      | some c => rfl
    obtain ⟨⟨_, T⟩, hT, rfl⟩ := List.mem_map.mp (hnone.mp ho)
    obtain ⟨c, rfl, hc⟩ := hsome T hT
    exact ⟨T, hT, by simpa [hc] using h⟩
  · rintro ⟨T, hT, hnull⟩
    obtain ⟨c, rfl, hc⟩ := hsome T hT
    simpa [hnull] using hc

namespace Layout

variable {κ : Type} {Content : κ → Type} {σ : Type} {layout : Layout κ Content σ}

theorem mem_keys_members_iff {writes : (k : κ) → Content k → Value} {contents : Contents Content}
    (hlabel : ∀ k, layout.key? (layout.label k) = some k) (k : κ) :
    layout.label k ∈ (layout.members writes contents).map Prod.fst ↔
      (contents k).isSome = true := by
  rw [members, List.map_filterMap, List.mem_filterMap]
  constructor
  · rintro ⟨l, -, hl⟩
    obtain ⟨m, hm, hmk⟩ := Option.map_eq_some_iff.mp hl
    obtain ⟨c, hc, rfl⟩ := Option.map_eq_some_iff.mp hm
    have hkl : k = l := Option.some.inj ((hlabel k).symm.trans (hmk ▸ hlabel l))
    rw [hkl, hc]
    rfl
  · intro h
    obtain ⟨c, hc⟩ := Option.isSome_iff_exists.mp h
    exact ⟨k, List.mem_of_find?_eq_some (hlabel k), by rw [hc]; rfl⟩

variable [DecidableEq κ] {room : Nat} {T : Tree} {s : σ}

/-- An object is made of a content for every key that it has, read from the member with the key. -/
theorem contents_of_object (hkeys : layout.keys.Nodup)
    (hlabel : ∀ k, layout.key? (layout.label k) = some k) (hT : T.isObject = true)
    (h : layout.reader room T = .ok s) : ∃ n contents, layout.make contents = .ok s ∧
      (∀ k, (contents k).isSome = true ↔ layout.label k ∈ T.members.map Prod.fst) ∧
      ∀ k t, (layout.label k, t) ∈ T.members →
        ∃ c, contents k = some c ∧ layout.read k n t = .ok c := by
  obtain ⟨n, fields, -, hf, hnd, hall, hmake⟩ := (layout.reader_eq_ok_iff hkeys).mp h
  cases hf with
  | list _ _ _ => cases hT
  | @object start members ms hms _ =>
    have hmembers : (Tree.object start members).members = ms := Tree.members_of_pairs? hms
    rw [hmembers]
    have hread (k : κ) (t : Tree) (ht : (layout.label k, t) ∈ ms) :
        ∃ c, layout.contentsOf n (layout.known ms) k = some c ∧ layout.read k n t = .ok c := by
      have hk : (k, t) ∈ layout.known ms := List.mem_filterMap.mpr ⟨_, ht, by simp [hlabel]⟩
      obtain ⟨c, hc⟩ := hall _ hk
      refine ⟨c, ?_, hc⟩
      rw [contentsOf, lookup_of_mem hnd hk, Option.bind_some, hc, Except.toOption]
    refine ⟨n, _, hmake, fun k => ⟨fun hk => ?_, fun hk => ?_⟩, hread⟩
    · obtain ⟨c, hc⟩ := Option.isSome_iff_exists.mp hk
      obtain ⟨t, ht, -⟩ := mem_of_contentsOf hc
      obtain ⟨label, hlt, hkey⟩ := layout.mem_of_mem_known ht
      exact List.mem_map.mpr ⟨_, hlt, (label_of_key? hkey).symm⟩
    · obtain ⟨⟨_, t⟩, ht, rfl⟩ := List.mem_map.mp hk
      obtain ⟨c, hc, -⟩ := hread k t ht
      rw [hc, Option.isSome_some]

end Layout

end DeckDoc.Json
