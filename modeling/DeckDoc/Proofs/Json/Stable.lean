import DeckDoc.Proofs.Json.Numbers

namespace DeckDoc.Json

namespace Reader

variable {α ε : Type}

/-- What is read of a tree is written with the numbers of the tree and, where there is as much room,
read back as it was. Only `null` is written as `null`. -/
structure Stable (read : Reader α ε) (write : α → Value) : Prop where
  numbers {room : Nat} {T : Tree} {a : α} : read room T = .ok a → (write a).numbers ⊆ T.numbers
  null {room : Nat} {T : Tree} {a : α} :
    read room T = .ok a → write a = .null → T.spelled = some .null
  reread {room : Nat} {T T' : Tree} {a : α} :
    read room T = .ok a → T'.spelled = some (write a) → read room T' = .ok a

theorem stable_text : text.Stable .text where
  numbers _ := List.nil_subset _
  null := nofun
  reread _ hT' := text_eq_ok_iff.mpr hT'

theorem inOrder_of_value {room : Nat} {T : Tree} {u : Value} (h : value room T = .ok u) :
    u.InOrder := by
  obtain ⟨v, -, -, rfl⟩ := Tree.value_eq_ok_iff.mp h
  exact Value.inOrder_merged v

theorem depth_of_value {room : Nat} {T : Tree} {u : Value} (h : value room T = .ok u) :
    u.depth ≤ room := by
  obtain ⟨v, -, hd, rfl⟩ := Tree.value_eq_ok_iff.mp h
  exact Nat.le_trans (Value.depth_merged_le v) hd

theorem stable_value : value.Stable id where
  numbers {room T u} hu := by
    obtain ⟨v, hv, -, rfl⟩ := Tree.value_eq_ok_iff.mp hu
    exact List.Subset.trans (Value.numbers_merged_subset v) (Tree.numbers_of_spelled hv)
  null {room T u} hu hnull := by
    obtain ⟨v, hv, -, rfl⟩ := Tree.value_eq_ok_iff.mp hu
    cases v with
    | null => exact hv
    | _ => cases hnull
  reread hu hT' := Tree.value_eq_ok_iff.mpr ⟨_, hT', depth_of_value hu, inOrder_of_value hu⟩

theorem Stable.placed {read : Reader α} {write : α → Value} (h : read.Stable write) :
    read.placed.Stable write where
  numbers ha := h.numbers (placed_eq_ok_iff.mp ha)
  null ha := h.null (placed_eq_ok_iff.mp ha)
  reread ha hT' := placed_eq_ok_iff.mpr (h.reread (placed_eq_ok_iff.mp ha) hT')

theorem Stable.optional {read : Reader α ε} {write : α → Value} (h : read.Stable write) :
    read.optional.Stable (Value.ofOption write) where
  numbers {room T o} ho := by
    rcases optional_eq_ok_iff.mp ho with ⟨-, rfl⟩ | ⟨-, a, ha, rfl⟩
    · exact List.nil_subset _
    · exact h.numbers ha
  null {room T o} ho hnull := by
    rcases optional_eq_ok_iff.mp ho with ⟨hT, rfl⟩ | ⟨-, a, ha, rfl⟩
    · exact hT
    · exact h.null ha hnull
  reread {room T T' o} ho hT' := by
    apply optional_eq_ok_iff.mpr
    rcases optional_eq_ok_iff.mp ho with ⟨-, rfl⟩ | ⟨hT, a, ha, rfl⟩
    · exact .inl ⟨hT', rfl⟩
    · refine .inr ⟨fun hn => hT (h.null ha ?_), a, h.reread ha hT', rfl⟩
      exact Option.some.inj (hT'.symm.trans hn)

theorem Stable.list {read : Reader α} {write : α → Value} (h : read.Stable write) :
    read.list.Stable fun as => .list (as.map write) where
  numbers {room T as} has := by
    obtain ⟨n, ts, -, hts, hall⟩ := list_eq_ok_iff.mp has
    intro m hm
    obtain ⟨v, hv, hm⟩ := Value.mem_numbersEntries.mp hm
    obtain ⟨a, ha, rfl⟩ := List.mem_map.mp hv
    obtain ⟨t, ht, hta⟩ := exists_of_mem_right hall a ha
    exact Tree.numbers_subset_of_trees? hts t ht (h.numbers hta hm)
  null := nofun
  reread {room T T' as} has hT' := by
    obtain ⟨n, ts, hn, -, hall⟩ := list_eq_ok_iff.mp has
    obtain ⟨ts', hts', hall'⟩ := Tree.spelled_eq_list_iff.mp hT'
    refine list_eq_ok_iff.mpr ⟨n, ts', hn, hts', ?_⟩
    have hread : ∀ a ∈ as, ∃ t, read n t = .ok a := fun a ha =>
      have ⟨t, _, hta⟩ := exists_of_mem_right hall a ha
      ⟨t, hta⟩
    have hwritten := (List.forall₂_map_right_iff.mp hall').flip
    have hboth := (List.forall₂_and_left as ts').mpr ⟨hread, hwritten⟩
    exact (hboth.imp fun a t' ha => have ⟨_, hta⟩ := ha.1; h.reread hta ha.2).flip

end Reader

namespace Layout

variable {κ : Type} {Content : κ → Type} {σ : Type} {layout : Layout κ Content σ}
  {writes : (k : κ) → Content k → Value} {contents : Contents Content}

/-- The members that contents are written as, in the order of the keys. -/
def members (layout : Layout κ Content σ) (writes : (k : κ) → Content k → Value)
    (contents : Contents Content) : List (String × Value) :=
  layout.keys.filterMap fun k => (contents k).map fun c => (layout.label k, writes k c)

theorem known_members (hlabel : ∀ k, layout.key? (layout.label k) = some k) :
    layout.known (layout.members writes contents) =
      layout.keys.filterMap fun k => (contents k).map fun c => (k, writes k c) := by
  rw [known, members, List.filterMap_filterMap]
  congr 1
  funext k
  cases contents k with
  | none => rfl
  | some c => simp [hlabel]

theorem mem_known_members (hlabel : ∀ k, layout.key? (layout.label k) = some k) {f : κ × Value} :
    f ∈ layout.known (layout.members writes contents) ↔
      ∃ c, contents f.1 = some c ∧ f.2 = writes f.1 c := by
  obtain ⟨k, v⟩ := f
  rw [known_members hlabel, List.mem_filterMap]
  constructor
  · intro h
    obtain ⟨l, -, hl⟩ := h
    obtain ⟨c, hc, he⟩ := Option.map_eq_some_iff.mp hl
    cases he
    exact ⟨c, hc, rfl⟩
  · intro h
    obtain ⟨c, hc, hv⟩ := h
    exact ⟨k, List.mem_of_find?_eq_some (hlabel k),
      Option.map_eq_some_iff.mpr ⟨c, hc, Prod.ext rfl hv.symm⟩⟩

theorem nodup_known_members (hkeys : layout.keys.Nodup)
    (hlabel : ∀ k, layout.key? (layout.label k) = some k) :
    ((layout.known (layout.members writes contents)).map Prod.fst).Nodup := by
  rw [known_members hlabel, List.map_filterMap]
  refine List.Nodup.filterMap (fun k l m hk hl => ?_) hkeys
  cases hc : contents k with
  | none => simp [hc] at hk
  | some c =>
    cases hd : contents l with
    | none => simp [hd] at hl
    | some d =>
      have hkm : k = m := by simpa [hc] using hk
      have hlm : l = m := by simpa [hd] using hl
      exact hkm.trans hlm.symm

theorem numbers_of_fields {T : Tree} {fields : List (κ × Tree)} (h : layout.Fields T fields) :
    ∀ f ∈ fields, f.2.numbers ⊆ T.numbers := by
  intro f hf
  cases h with
  | object hms _ =>
    obtain ⟨label, hm, -⟩ := layout.mem_of_mem_known hf
    exact Members.numbers_subset_of_pairs? hms _ hm
  | list hts _ _ => exact Items.numbers_subset_of_trees? hts _ (List.of_mem_zip hf).2

/-- The object that contents are written as is made of fields for just these contents. -/
theorem fields_of_members {T : Tree} (hkeys : layout.keys.Nodup)
    (hlabel : ∀ k, layout.key? (layout.label k) = some k)
    (h : T.spelled = some (.object (layout.members writes contents))) :
    ∃ fields, layout.Fields T fields ∧ (fields.map Prod.fst).Nodup ∧
      (∀ f ∈ fields, ∃ c, contents f.1 = some c ∧ f.2.spelled = some (writes f.1 c)) ∧
      ∀ k c, contents k = some c → k ∈ fields.map Prod.fst := by
  obtain ⟨fields, hf, hsame, hknown⟩ := layout.fields_of_spelled h
  refine ⟨fields, hf, ?_, fun f hf => ?_, fun k c hc => ?_⟩
  · rw [hsame]
    exact nodup_known_members hkeys hlabel
  · obtain ⟨k, t⟩ := f
    obtain ⟨⟨_, v⟩, hg, rfl, ht⟩ := exists_of_mem_left hknown _ hf
    obtain ⟨c, hc, hv⟩ := (mem_known_members hlabel).mp hg
    exact ⟨c, hc, ht.trans (congrArg some hv)⟩
  · have hg := (mem_known_members (f := (k, writes k c)) hlabel).mpr ⟨c, hc, rfl⟩
    obtain ⟨f, hf, hfg, -⟩ := exists_of_mem_right hknown _ hg
    exact List.mem_map.mpr ⟨f, hf, hfg⟩

/-- What a reader for a missing key stands in with: it is written as `null` and read of it. -/
def StandsIn (layout : Layout κ Content σ) (writes : (k : κ) → Content k → Value) (k : κ)
    (c : Content k) : Prop :=
  writes k c = .null ∧ ∀ room T, T.spelled = some .null → layout.read k room T = .ok c

theorem StandsIn.of_null {k : κ} {c : Content k} (hw : writes k c = .null)
    (hr : ∀ room start stop, layout.read k room (.null start stop) = .ok c) :
    layout.StandsIn writes k c := by
  refine ⟨hw, fun room T hT => ?_⟩
  obtain ⟨start, stop, rfl⟩ := Tree.spelled_eq_null_iff.mp hT
  exact hr room start stop

/-- How a layout is written: a record has parts that it can be made of again, each of them read
or standing in for a missing key. -/
structure Writes (layout : Layout κ Content σ) (write : σ → Value)
    (writes : (k : κ) → Content k → Value) (parts : σ → Contents Content) : Prop where
  nodup : layout.keys.Nodup
  key_label (k : κ) : layout.key? (layout.label k) = some k
  stable (k : κ) : (layout.read k).Stable (writes k)
  write_eq (s : σ) : write s = .object (layout.members writes (parts s))
  make_parts (s : σ) : layout.make (parts s) = .ok s
  parts_make {contents : Contents Content} {s : σ} : layout.make contents = .ok s →
    ∀ k c, parts s k = some c → contents k = some c ∨ layout.StandsIn writes k c

variable [DecidableEq κ]

theorem mem_of_lookup {α : Type} {fields : List (κ × α)} {k : κ} {a : α}
    (h : fields.lookup k = some a) : (k, a) ∈ fields := by
  obtain ⟨_, _, rfl, -⟩ := List.lookup_eq_some_iff.mp h
  exact List.mem_append_right _ List.mem_cons_self

theorem mem_of_contentsOf {room : Nat} {fields : List (κ × Tree)} {k : κ} {c : Content k}
    (h : layout.contentsOf room fields k = some c) :
    ∃ T, (k, T) ∈ fields ∧ layout.read k room T = .ok c := by
  obtain ⟨T, hT, hc⟩ := Option.bind_eq_some_iff.mp h
  exact ⟨T, mem_of_lookup hT, Except.toOption_eq_some_iff.mp hc⟩

theorem Writes.stable_reader {write : σ → Value} {parts : σ → Contents Content}
    (h : layout.Writes write writes parts) : layout.reader.Stable write where
  numbers {room T s} hs := by
    obtain ⟨n, fields, -, hf, -, -, hmake⟩ := (layout.reader_eq_ok_iff h.nodup).mp hs
    intro m hm
    rw [h.write_eq] at hm
    obtain ⟨v, hv, hm⟩ := Value.mem_numbersMembers.mp hm
    obtain ⟨k, -, hk⟩ := List.mem_filterMap.mp hv
    obtain ⟨c, hc, rfl⟩ := Option.map_eq_some_iff.mp hk
    rcases h.parts_make hmake k c hc with hread | hnull
    · obtain ⟨t, ht, hc⟩ := mem_of_contentsOf hread
      exact numbers_of_fields hf _ ht ((h.stable k).numbers hc hm)
    · have hempty : m ∈ Value.null.numbers := hnull.1 ▸ hm
      cases hempty
  null {room T s} _ hnull := by
    rw [h.write_eq] at hnull
    cases hnull
  reread {room T T' s} hs hT' := by
    obtain ⟨n, fields, hn, -, -, -, hmake⟩ := (layout.reader_eq_ok_iff h.nodup).mp hs
    rw [h.write_eq] at hT'
    obtain ⟨fields', hf', hnd', hwritten, hall'⟩ := fields_of_members h.nodup h.key_label hT'
    have hread {k : κ} {c : Content k} {t : Tree} (hc : parts s k = some c)
        (ht : t.spelled = some (writes k c)) : layout.read k n t = .ok c := by
      rcases h.parts_make hmake k c hc with hread | hnull
      · obtain ⟨u, -, hu⟩ := mem_of_contentsOf hread
        exact (h.stable k).reread hu ht
      · exact hnull.2 n t (hnull.1 ▸ ht)
    have hcontents : layout.contentsOf n fields' = parts s := by
      funext k
      rw [Layout.contentsOf]
      cases hl : fields'.lookup k with
      | none =>
        cases hk : parts s k with
        | none => rfl
        | some c =>
          obtain ⟨f, hf, rfl⟩ := List.mem_map.mp (hall' k c hk)
          have hne := List.lookup_eq_none_iff.mp hl f hf
          simp at hne
      | some t =>
        obtain ⟨c, hk, ht⟩ := hwritten _ (mem_of_lookup hl)
        rw [hk, Option.bind_some, hread hk ht, Except.toOption]
    refine (layout.reader_eq_ok_iff h.nodup).mpr ⟨n, fields', hn, hf', hnd', fun f hf => ?_, ?_⟩
    · obtain ⟨c, hc, ht⟩ := hwritten f hf
      exact ⟨c, hread hc ht⟩
    · rw [hcontents]
      exact h.make_parts s

end Layout

end DeckDoc.Json
