import DeckDoc.Proofs.Json.Order
import DeckDoc.Proofs.Json.Root
import DeckDoc.Proofs.Json.Shape

namespace DeckDoc.Json

theorem Alike.lookup {κ α β : Type} [DecidableEq κ] {R : α → β → Prop} {fs : List (κ × α)}
    {gs : List (κ × β)} (h : Alike R fs gs) (k : κ) :
    Option.Rel R (fs.lookup k) (gs.lookup k) := by
  induction h with
  | nil => exact .none
  | @cons f g fs gs hfg _ ih =>
    obtain ⟨l, a⟩ := f
    obtain ⟨_, b⟩ := g
    obtain ⟨rfl, hab⟩ := hfg
    rw [List.lookup_cons, List.lookup_cons]
    cases k == l with
    | true => exact .some hab
    | false => exact ih

theorem Alike.reverse {κ α β : Type} {R : α → β → Prop} {fs : List (κ × α)}
    {gs : List (κ × β)} (h : Alike R fs gs) : Alike R fs.reverse gs.reverse :=
  List.forall₂_reverse_iff.mpr h

theorem lookup_reverse {κ α : Type} [DecidableEq κ] {fs : List (κ × α)}
    (h : (fs.map Prod.fst).Nodup) (k : κ) : fs.reverse.lookup k = fs.lookup k :=
  (lookup_eq_of_perm (List.reverse_perm fs).symm h k).symm

theorem lookup_of_mem {κ α : Type} [DecidableEq κ] {fs : List (κ × α)}
    (h : (fs.map Prod.fst).Nodup) {f : κ × α} (hf : f ∈ fs) : fs.lookup f.1 = some f.2 := by
  induction fs with
  | nil => cases hf
  | cons g fs ih =>
    obtain ⟨hg, hfs⟩ := List.nodup_cons.mp h
    rw [List.lookup_cons]
    rcases List.mem_cons.mp hf with rfl | hf
    · rw [BEq.rfl]
    · have hne : f.1 ≠ g.1 := fun e => hg (e ▸ List.mem_map_of_mem hf)
      rw [beq_eq_false_iff_ne.mpr hne]
      exact ih hfs hf

namespace Reader

/-- Reads a member that may be missing, or `null`. -/
def given {α ε : Type} (read : Reader α ε) (room : Nat) : Option Tree → Except ε (Option α)
  | none => .ok none
  | some T => read.optional room T

/-- Reads the last member with a label. -/
def last {α ε : Type} (read : Reader α ε) (label : String) (room : Nat)
    (ms : List (String × Tree)) : Except ε (Option α) :=
  read.given room (ms.reverse.lookup label)

end Reader

namespace Layout

variable {κ : Type} {Content : κ → Type} {σ : Type} {layout : Layout κ Content σ}

theorem label_of_key? {label : String} {k : κ} (h : layout.key? label = some k) :
    layout.label k = label := by
  simpa using List.find?_some h

variable [DecidableEq κ]

theorem lookup_known {α : Type} {k : κ} (hk : layout.key? (layout.label k) = some k)
    (ms : List (String × α)) : (layout.known ms).lookup k = ms.lookup (layout.label k) := by
  induction ms with
  | nil => rfl
  | cons m ms ih =>
    obtain ⟨label, a⟩ := m
    rw [List.lookup_cons, ← ih]
    by_cases hlabel : layout.label k = label
    · subst hlabel
      simp [known, hk]
    · rw [beq_eq_false_iff_ne.mpr hlabel]
      cases hl : layout.key? label with
      | none => simp [known, hl]
      | some l =>
        have hne : k ≠ l := by
          intro e
          exact hlabel (e ▸ label_of_key? hl)
        simp [known, hl, List.lookup_cons, beq_eq_false_iff_ne.mpr hne]

/-- Where no known key comes twice, the last member with a key is the only one. -/
theorem lookup_known_of_nodup {α : Type} {k : κ} (hk : layout.key? (layout.label k) = some k)
    {ms : List (String × α)} (h : ((layout.known ms).map Prod.fst).Nodup) :
    (layout.known ms).lookup k = ms.reverse.lookup (layout.label k) := by
  have hreverse : layout.known ms.reverse = (layout.known ms).reverse := List.filterMap_reverse
  rw [← lookup_known hk, hreverse, lookup_reverse h]

end Layout

theorem exists_alike_iff {κ α β : Type} {R : α → β → Prop} {ms : List (κ × α)} :
    (∃ vs, Alike R ms vs) ↔ ∀ m ∈ ms, ∃ v, R m.2 v := by
  rw [exists_forall₂_iff]
  refine forall₂_congr fun m _ => ⟨?_, ?_⟩
  · rintro ⟨g, -, hg⟩
    exact ⟨g.2, hg⟩
  · rintro ⟨v, hv⟩
    exact ⟨(m.1, v), rfl, hv⟩

theorem Tree.skip_of_value {room : Nat} {T : Tree} {v : Value} (h : T.value room = .ok v) :
    T.skip = .ok () := by
  obtain ⟨w, hw, -, -⟩ := value_eq_ok_iff.mp h
  exact skip_of_spelled hw

namespace Reader

variable {room : Nat} {T : Tree} {v : Value}

theorem isObject_of_value {ms : List (String × Value)} (h : T.value room = .ok (.object ms)) :
    T.isObject = true := by
  obtain ⟨w, hw, -, hmerged⟩ := Tree.value_eq_ok_iff.mp h
  cases w with
  | object us =>
    obtain ⟨_, _, _, rfl, -⟩ := Tree.spelled_eq_object_iff.mp hw
    rfl
  | _ => cases hmerged

/-- An object is read as a value if all of its members are, and of equal keys the last one
counts. -/
theorem value_object_iff (h : T.isObject = true) :
    value (room + 1) T = .ok v ↔ ∃ ms vs, T.pairs? = some ms ∧
      Alike (fun T v => T.value room = .ok v) ms vs ∧ .object (Value.merge vs) = v := by
  obtain ⟨start, members, rfl⟩ := Tree.isObject_iff.mp h
  have hread : value (room + 1) (.object start members) = .ok v ↔
      ∃ vs, members.values room = .ok vs ∧ .object (Value.merge vs) = v := by
    simp [value, Tree.value, Except.bind_eq_ok_iff, enter, pure, Except.pure]
  simp only [hread, Members.values_eq_ok_iff_pairs]
  constructor
  · rintro ⟨vs, ⟨ms, hms, hall⟩, hv⟩
    exact ⟨ms, vs, hms, hall, hv⟩
  · rintro ⟨ms, vs, hms, hall, hv⟩
    exact ⟨vs, ⟨ms, hms, hall⟩, hv⟩

/-- A value that has been read is `null` if and only if it stands as `null`. -/
theorem spelled_eq_null_iff (h : T.value room = .ok v) : T.spelled = some .null ↔ v = .null := by
  obtain ⟨w, hw, -, rfl⟩ := Tree.value_eq_ok_iff.mp h
  rw [hw]
  cases w <;> simp [Value.merged]

theorem optional_text_iff (h : T.value room = .ok v) {o : Option String} :
    text.optional room T = .ok o ↔ v = Value.ofOption .text o := by
  obtain ⟨w, hw, -, rfl⟩ := Tree.value_eq_ok_iff.mp h
  simp only [optional_eq_ok_iff, text_eq_ok_iff, hw]
  cases w <;> cases o <;> simp [Value.merged, Value.ofOption, eq_comm]

theorem exists_value_iff (room : Nat) (h : T.isObject = true) : (∃ v, value (room + 1) T = .ok v) ↔
    ∃ ms, T.pairs? = some ms ∧ ∀ m ∈ ms, ∃ v, m.2.value room = .ok v := by
  simp only [value_object_iff h, ← exists_alike_iff (R := fun (T : Tree) v => T.value room = .ok v)]
  constructor
  · rintro ⟨v, ms, vs, hms, hall, -⟩
    exact ⟨ms, hms, vs, hall⟩
  · rintro ⟨ms, hms, vs, hall⟩
    exact ⟨_, ms, vs, hms, hall, rfl⟩

theorem exists_value_of_optional {α ε : Type} {read : Reader α ε} {o : Option α}
    (hread : ∀ a, read room T = .ok a → ∃ v, T.value room = .ok v)
    (h : read.optional room T = .ok o) : ∃ v, T.value room = .ok v := by
  rcases optional_eq_ok_iff.mp h with ⟨hnull, -⟩ | ⟨-, a, ha, -⟩
  · exact ⟨.null, Tree.value_eq_ok_iff.mpr ⟨.null, hnull, Nat.zero_le _, rfl⟩⟩
  · exact hread a ha

theorem given_eq_ok_iff {α ε : Type} {read : Reader α ε} {T? : Option Tree} {o : Option α} :
    read.given room T? = .ok o ↔ (∀ T, T? = some T → ∃ c, read.optional room T = .ok c) ∧
      (T?.bind fun T => (read.optional room T).toOption).join = o := by
  cases T? with
  | none => simp [given]
  | some T =>
    simp only [given, Option.some.injEq, forall_eq', Option.bind_some]
    cases read.optional room T <;> simp [Except.toOption]

theorem toOption_placed {α : Type} (read : Reader α) (room : Nat) (T : Tree) :
    (read.placed room T).toOption = (read room T).toOption := by
  unfold placed
  cases read room T <;> rfl

end Reader

/-- The text is that of an object whose keys are texts, and nothing follows its brace. -/
def Source.IsWhole (source : Source) : Prop :=
  source.tree.pairs? = some source.tree.members ∧ source.excess = none

theorem Source.exists_pairs?_iff {source : Source} {p : List (String × Tree) → Prop} :
    (∃ ms, source.tree.pairs? = some ms ∧ p ms) ∧ source.excess = none ↔
      source.IsWhole ∧ p source.tree.members := by
  constructor
  · rintro ⟨⟨ms, hms, hp⟩, hexcess⟩
    rw [IsWhole, Tree.members_of_pairs? hms]
    exact ⟨⟨hms, hexcess⟩, hp⟩
  · rintro ⟨⟨hms, hexcess⟩, hp⟩
    exact ⟨⟨_, hms, hp⟩, hexcess⟩

theorem Reader.exists_ofText_iff {text : String} (h : (Source.ofText text).tree.isObject = true) :
    (∃ v, value.ofText text = .ok v) ↔ (Source.ofText text).IsWhole ∧
      ∀ m ∈ (Source.ofText text).tree.members, ∃ v, m.2.value (depthLimit - 1) = .ok v := by
  simp only [ofText_eq_ok_iff, exists_and_right]
  exact (and_congr_left' (exists_value_iff (depthLimit - 1) h)).trans Source.exists_pairs?_iff

end DeckDoc.Json
