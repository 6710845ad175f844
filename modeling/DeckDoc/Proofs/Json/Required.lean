import DeckDoc.Proofs.Json.Present
import DeckDoc.Proofs.Json.Unknown

namespace DeckDoc.Json

/-- There is a single entry with a key, and this is what stands for it. -/
def Once {κ α : Type} [DecidableEq κ] (ms : List (κ × α)) (k : κ) (a : α) : Prop :=
  (k, a) ∈ ms ∧ (ms.map Prod.fst).count k = 1

namespace Once

variable {κ α β : Type} [DecidableEq κ] {R : α → β → Prop} {fs : List (κ × α)}
  {gs : List (κ × β)} {k : κ}

theorem right (h : Alike R fs gs) {a : α} (ha : Once fs k a) : ∃ b, Once gs k b ∧ R a b := by
  obtain ⟨⟨_, b⟩, hb, rfl, hab⟩ := exists_of_mem_left h _ ha.1
  exact ⟨b, ⟨hb, h.map_fst ▸ ha.2⟩, hab⟩

theorem left (h : Alike R fs gs) {b : β} (hb : Once gs k b) : ∃ a, Once fs k a ∧ R a b := by
  obtain ⟨⟨_, a⟩, ha, rfl, hab⟩ := exists_of_mem_right h _ hb.1
  exact ⟨a, ⟨ha, h.map_fst.symm ▸ hb.2⟩, hab⟩

end Once

/-- The members of an object, their keys being texts. -/
def Phrase.record (ms : List (String × Phrase)) : Phrase :=
  .object (ms.map fun m => (some m.1, m.2))

theorem Phrase.record_inj {ms ns : List (String × Phrase)} : record ms = record ns ↔ ms = ns := by
  have hinj : Function.Injective fun m : String × Phrase => (some m.1, m.2) := by
    intro m n h
    obtain ⟨hkey, hphrase⟩ := Prod.mk.inj h
    exact Prod.ext (Option.some.inj hkey) hphrase
  rw [record, record, Phrase.object.injEq, (List.map_injective_iff.mpr hinj).eq_iff]

namespace Layout

variable {κ : Type} {Content : κ → Type} {σ : Type} {layout : Layout κ Content σ}

/-- A record is made of the contents of all its keys, and of nothing less. -/
def MadeOf (layout : Layout κ Content σ) (field : σ → (k : κ) → Content k) : Prop :=
  ∀ contents s, layout.make contents = .ok s ↔ ∀ k, contents k = some (field s k)

variable [DecidableEq κ]

theorem count_known {α : Type} {k : κ} (hk : layout.key? (layout.label k) = some k)
    (ms : List (String × α)) :
    ((layout.known ms).map Prod.fst).count k = (ms.map Prod.fst).count (layout.label k) := by
  induction ms with
  | nil => rfl
  | cons m ms ih =>
    obtain ⟨label, a⟩ := m
    cases hl : layout.key? label with
    | none =>
      have hne : label ≠ layout.label k := by
        rintro rfl
        cases hk.symm.trans hl
      rw [known_cons_of_none hl, ih, List.map_cons, List.count_cons_of_ne hne]
    | some l =>
      rw [known_cons_of_some hl, List.map_cons, List.map_cons, List.count_cons, List.count_cons, ih]
      have hiff : l = k ↔ label = layout.label k := by
        constructor
        · rintro rfl
          exact (label_of_key? hl).symm
        · rintro rfl
          exact Option.some.inj (hl.symm.trans hk)
      simp only [beq_iff_eq, hiff]

theorem once_known_iff {α : Type} {k : κ} (hk : layout.key? (layout.label k) = some k)
    {ms : List (String × α)} {a : α} :
    Once (layout.known ms) k a ↔ Once ms (layout.label k) a := by
  rw [Once, Once, count_known hk]
  refine and_congr_left' ⟨fun h => ?_, fun h => ?_⟩
  · obtain ⟨label, hm, hl⟩ := layout.mem_of_mem_known h
    obtain rfl := label_of_key? hl
    exact hm
  · exact List.mem_filterMap.mpr ⟨_, h, by simp [hk]⟩

variable {field : σ → (k : κ) → Content k} {room : Nat} {T : Tree} {s : σ}

/-- Fields are read as a record if and only if each key is there once and is read as what the record
has for it. -/
theorem fields_made_iff (hmade : layout.MadeOf field) {fields : List (κ × Tree)} :
    ((fields.map Prod.fst).Nodup ∧ (∀ f ∈ fields, ∃ c, layout.read f.1 room f.2 = .ok c) ∧
      layout.make (layout.contentsOf room fields) = .ok s) ↔
      ∀ k, ∃ U, Once fields k U ∧ layout.read k room U = .ok (field s k) := by
  constructor
  · rintro ⟨hnodup, -, hmake⟩ k
    obtain ⟨U, hU, hread⟩ := mem_of_contentsOf ((hmade _ s).mp hmake k)
    exact ⟨U, ⟨hU, List.count_eq_one_of_mem hnodup (List.mem_map_of_mem hU)⟩, hread⟩
  · intro h
    -- there is nothing but keys among the fields, and each of them counts once
    have hnodup : (fields.map Prod.fst).Nodup := by
      refine List.nodup_iff_count_le_one.mpr fun k => ?_
      obtain ⟨U, hU, -⟩ := h k
      exact hU.2.le
    have hlookup (k : κ) : ∃ U, fields.lookup k = some U ∧
        layout.read k room U = .ok (field s k) := by
      obtain ⟨U, hU, hread⟩ := h k
      exact ⟨U, lookup_of_mem hnodup hU.1, hread⟩
    refine ⟨hnodup, ?_, (hmade _ s).mpr fun k => ?_⟩
    · rintro ⟨k, V⟩ hV
      obtain ⟨U, hU, hread⟩ := hlookup k
      obtain rfl := Option.some.inj ((lookup_of_mem hnodup hV).symm.trans hU)
      exact ⟨_, hread⟩
    · obtain ⟨U, hU, hread⟩ := hlookup k
      rw [contentsOf, hU, Option.bind_some, hread, Except.toOption]

/-- A record without optional keys is read from an object if and only if each of its keys is there
once and has the content that the record has for it. Other members make no difference. -/
theorem reader_record_iff (hkeys : layout.keys.Nodup)
    (hlabel : ∀ k, layout.key? (layout.label k) = some k) (hmade : layout.MadeOf field)
    {ms : List (String × Phrase)} (hT : T.phrase? = some (.record ms))
    {S : (k : κ) → Phrase → Content k → Prop}
    (hread : ∀ k Q, (layout.label k, Q) ∈ ms → ∀ (U : Tree) c, U.phrase? = some Q →
      (layout.read k room U = .ok c ↔ S k Q c)) :
    layout.reader (room + 1) T = .ok s ↔
      ∀ k, ∃ Q, Once ms (layout.label k) Q ∧ S k Q (field s k) := by
  obtain ⟨es, hes, halike⟩ := Tree.exists_pairs?_of_phrase? hT
  have hknown : layout.Fields T (layout.known es) := .of_pairs? hes halike
  have hfields : layout.reader (room + 1) T = .ok s ↔
      ∀ k, ∃ U, Once (layout.known es) k U ∧ layout.read k room U = .ok (field s k) := by
    rw [layout.reader_eq_ok_iff hkeys, ← fields_made_iff hmade]
    constructor
    · rintro ⟨n, fields, hroom, hfields, hmade⟩
      obtain rfl := Nat.succ.inj hroom
      obtain rfl := hfields.unique hknown
      exact hmade
    · intro hmade
      exact ⟨room, _, rfl, hknown, hmade⟩
  rw [hfields]
  refine forall_congr' fun k => ?_
  constructor
  · rintro ⟨U, hU, hc⟩
    obtain ⟨Q, hQ, hphrase⟩ := ((once_known_iff (hlabel k)).mp hU).right halike
    exact ⟨Q, hQ, (hread k Q hQ.1 U _ hphrase).mp hc⟩
  · rintro ⟨Q, hQ, hc⟩
    obtain ⟨U, hU, hphrase⟩ := hQ.left halike
    exact ⟨U, (once_known_iff (hlabel k)).mpr hU, (hread k Q hQ.1 U _ hphrase).mpr hc⟩

end Layout

end DeckDoc.Json
