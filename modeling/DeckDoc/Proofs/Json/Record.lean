import DeckDoc.Json.Layout
import DeckDoc.Proofs.Json.Spelled

namespace DeckDoc.Json

theorem exists_of_mem_left {α β : Type} {R : α → β → Prop} {as : List α} {bs : List β}
    (h : List.Forall₂ R as bs) : ∀ a ∈ as, ∃ b ∈ bs, R a b := by
  induction h with
  | nil => exact nofun
  | @cons a b as bs hab hall ih =>
    intro c hc
    rcases List.mem_cons.mp hc with rfl | hc
    · exact ⟨b, List.mem_cons_self, hab⟩
    · obtain ⟨d, hd, hcd⟩ := ih c hc
      exact ⟨d, List.mem_cons_of_mem _ hd, hcd⟩

theorem exists_of_mem_right {α β : Type} {R : α → β → Prop} {as : List α} {bs : List β}
    (h : List.Forall₂ R as bs) : ∀ b ∈ bs, ∃ a ∈ as, R a b :=
  exists_of_mem_left (List.Forall₂.flip h)

/-- Entries with the same keys and with values in a relation, one by one. -/
abbrev Alike {κ α β : Type} (R : α → β → Prop) : List (κ × α) → List (κ × β) → Prop :=
  List.Forall₂ fun f g => f.1 = g.1 ∧ R f.2 g.2

theorem Alike.map_fst {κ α β : Type} {R : α → β → Prop} {fs : List (κ × α)} {gs : List (κ × β)}
    (h : Alike R fs gs) : fs.map Prod.fst = gs.map Prod.fst := by
  rw [← List.forall₂_eq_eq_eq, List.forall₂_map_left_iff, List.forall₂_map_right_iff]
  exact h.imp fun _ _ hfg => hfg.1

/-- The items of a list that is closed. -/
def Items.trees? : Items → Option (List Tree)
  | .closed _ => some []
  | .item value rest => rest.trees?.map (value :: ·)
  | _ => none

/-- The members of an object that is closed and whose keys are texts. -/
def Members.pairs? : Members → Option (List (String × Tree))
  | .closed _ => some []
  | .member (.ok key) _ value _ rest => rest.pairs?.map ((key, value) :: ·)
  | _ => none

theorem Items.skip_of_trees? : ∀ {items : Items} {ts : List Tree},
    items.trees? = some ts → items.skip = .ok ()
  | .closed _, _, _ => rfl
  | .stray _ _, _, h => by simp [trees?] at h
  | .dangling _, _, h => by simp [trees?] at h
  | .cut _, _, h => by simp [trees?] at h
  | .item _ rest, _, h =>
    have ⟨_, hts, _⟩ := Option.map_eq_some_iff.mp h
    @skip_of_trees? rest _ hts

theorem Members.skip_of_pairs? : ∀ {members : Members} {ms : List (String × Tree)},
    members.pairs? = some ms → members.skip = .ok ()
  | .closed _, _, _ => rfl
  | .stray _ _, _, h => by simp [pairs?] at h
  | .keyless _ _, _, h => by simp [pairs?] at h
  | .badKey _ _, _, h => by simp [pairs?] at h
  | .bare _ _ _, _, h => by simp [pairs?] at h
  | .cut _, _, h => by simp [pairs?] at h
  | .member (.error _) _ _ _ _, _, h => by simp [pairs?] at h
  | .member (.ok _) _ _ _ rest, _, h =>
    have ⟨_, hms, _⟩ := Option.map_eq_some_iff.mp h
    @skip_of_pairs? rest _ hms

theorem Items.spelled_eq_some_iff : ∀ {items : Items} {vs : List Value},
    items.spelled = some vs ↔
      ∃ ts, items.trees? = some ts ∧ List.Forall₂ (fun T v => T.spelled = some v) ts vs
  | .item value rest, vs => by
    simp only [spelled, trees?, Option.bind_eq_bind, Option.bind_eq_some_iff,
      Option.map_eq_some_iff, @spelled_eq_some_iff rest, pure]
    constructor
    · intro h
      obtain ⟨v, hv, vs, ⟨ts, hts, hall⟩, h⟩ := h
      exact Option.some.inj h ▸ ⟨value :: ts, ⟨ts, hts, rfl⟩, .cons hv hall⟩
    · intro h
      obtain ⟨_, ⟨ts, hts, rfl⟩, hall⟩ := h
      cases hall with
      | cons hv hall => exact ⟨_, hv, _, ⟨ts, hts, hall⟩, rfl⟩
  | .closed _, vs => by simp [spelled, trees?]
  | .stray _ _, vs => by simp [spelled, trees?]
  | .dangling _, vs => by simp [spelled, trees?]
  | .cut _, vs => by simp [spelled, trees?]

theorem Members.spelled_eq_some_iff : ∀ {members : Members} {vs : List (String × Value)},
    members.spelled = some vs ↔ ∃ ms, members.pairs? = some ms ∧
      List.Forall₂ (fun m v => m.1 = v.1 ∧ m.2.spelled = some v.2) ms vs
  | .closed _, vs => by simp [spelled, pairs?]
  | .stray _ _, vs => by simp [spelled, pairs?]
  | .keyless _ _, vs => by simp [spelled, pairs?]
  | .badKey _ _, vs => by simp [spelled, pairs?]
  | .bare _ _ _, vs => by simp [spelled, pairs?]
  | .cut _, vs => by simp [spelled, pairs?]
  | .member (.error _) _ _ _ rest, vs => by simp [spelled, pairs?, Except.toOption]
  | .member (.ok key) _ value _ rest, vs => by
    simp only [spelled, pairs?, Option.bind_eq_bind, Option.bind_eq_some_iff,
      Option.map_eq_some_iff, @spelled_eq_some_iff rest, pure, Except.toOption,
      Option.some.injEq, exists_eq_left']
    constructor
    · intro h
      obtain ⟨v, hv, vs, ⟨ms, hms, hall⟩, rfl⟩ := h
      exact ⟨(key, value) :: ms, ⟨ms, hms, rfl⟩, .cons ⟨rfl, hv⟩ hall⟩
    · intro h
      obtain ⟨_, ⟨ms, hms, rfl⟩, hall⟩ := h
      cases hall with
      | cons hv hall =>
        obtain ⟨rfl, hv⟩ := hv
        exact ⟨_, hv, _, ⟨ms, hms, hall⟩, rfl⟩

theorem Tree.skip_of_spelled {T : Tree} {v : Value} (h : T.spelled = some v) : T.skip = .ok () := by
  cases T with
  | missing _ _ => simp [spelled] at h
  | broken _ _ _ => simp [spelled] at h
  | null _ _ => rfl
  | bool _ _ _ => rfl
  | number _ _ _ => rfl
  | text _ _ _ => rfl
  | list _ items =>
    obtain ⟨vs, hvs, -⟩ := Option.map_eq_some_iff.mp h
    obtain ⟨ts, hts, -⟩ := Items.spelled_eq_some_iff.mp hvs
    exact Items.skip_of_trees? hts
  | object _ members =>
    obtain ⟨vs, hvs, -⟩ := Option.map_eq_some_iff.mp h
    obtain ⟨ms, hms, -⟩ := Members.spelled_eq_some_iff.mp hvs
    exact Members.skip_of_pairs? hms

theorem Tree.spelled_eq_null_iff {T : Tree} : T.spelled = some .null ↔ ∃ a b, T = .null a b := by
  cases T <;> simp [spelled]

theorem Items.read_eq_ok_iff {α : Type} {read : Tree → Except Fault α} :
    ∀ {items : Items} {as : List α}, items.read read = .ok as ↔
      ∃ ts, items.trees? = some ts ∧ List.Forall₂ (fun T a => read T = .ok a) ts as
  | .closed _, as => by simp [Items.read, trees?, eq_comm]
  | .stray _ _, as => by simp [Items.read, trees?]
  | .dangling _, as => by simp [Items.read, trees?]
  | .cut _, as => by simp [Items.read, trees?]
  | .item value rest, as => by
    simp only [Items.read, trees?, Except.bind_eq_ok_iff, Option.map_eq_some_iff,
      @read_eq_ok_iff _ _ rest, pure, Except.pure]
    constructor
    · intro h
      obtain ⟨a, ha, as, ⟨ts, hts, hall⟩, h⟩ := h
      exact Except.ok.inj h ▸ ⟨value :: ts, ⟨ts, hts, rfl⟩, .cons ha hall⟩
    · intro h
      obtain ⟨_, ⟨ts, hts, rfl⟩, hall⟩ := h
      cases hall with
      | cons ha hall => exact ⟨_, ha, _, ⟨ts, hts, hall⟩, rfl⟩

/-- The items of a tree that is a list and closed. -/
def Tree.trees? : Tree → Option (List Tree)
  | .list _ items => items.trees?
  | _ => none

theorem Tree.spelled_eq_list_iff {T : Tree} {vs : List Value} : T.spelled = some (.list vs) ↔
    ∃ ts, T.trees? = some ts ∧ List.Forall₂ (fun t v => t.spelled = some v) ts vs := by
  cases T with
  | list _ items => simp [spelled, trees?, Items.spelled_eq_some_iff]
  | _ => simp [spelled, trees?]

theorem Tree.spelled_eq_object_iff {T : Tree} {vs : List (String × Value)} :
    T.spelled = some (.object vs) ↔ ∃ start members ms, T = .object start members ∧
      members.pairs? = some ms ∧
      List.Forall₂ (fun m v => m.1 = v.1 ∧ m.2.spelled = some v.2) ms vs := by
  cases T with
  | object _ members => simp [spelled, Members.spelled_eq_some_iff]
  | _ => simp [spelled]

namespace Reader

variable {α ε : Type} {room : Nat} {T : Tree}

theorem text_eq_ok_iff {s : String} : text room T = .ok s ↔ T.spelled = some (.text s) := by
  cases T with
  | text content _ _ => cases content <;> simp [text, Tree.spelled, Except.toOption]
  | number n _ _ => cases n <;> simp [text, Tree.spelled, Except.toOption]
  | _ => simp [text, Tree.spelled]

theorem list_eq_ok_iff {read : Reader α} {as : List α} :
    list read room T = .ok as ↔ ∃ n ts, room = n + 1 ∧ T.trees? = some ts ∧
      List.Forall₂ (fun T a => read n T = .ok a) ts as := by
  cases T with
  | list _ items =>
    simp only [list, Tree.trees?, Except.bind_eq_ok_iff, enter_eq_ok_iff, Items.read_eq_ok_iff]
    constructor
    · intro h
      obtain ⟨n, hn, ts, hts, hall⟩ := h
      exact ⟨n, ts, hn, hts, hall⟩
    · intro h
      obtain ⟨n, ts, hn, hts, hall⟩ := h
      exact ⟨n, hn, ts, hts, hall⟩
  | _ => simp [list, Tree.trees?]

theorem optional_eq_ok_iff {read : Reader α ε} {o : Option α} :
    optional read room T = .ok o ↔ (T.spelled = some .null ∧ o = none) ∨
      (T.spelled ≠ some .null ∧ ∃ a, read room T = .ok a ∧ o = some a) := by
  by_cases h : T.spelled = some .null
  · obtain ⟨_, _, rfl⟩ := Tree.spelled_eq_null_iff.mp h
    simp [optional, Tree.spelled, eq_comm]
  · have hT : optional read room T = (read room T).map some := by
      cases T with
      | null _ _ => exact absurd rfl h
      | _ => rfl
    rw [hT, Except.map_eq_ok_iff]
    simp [h, eq_comm]

theorem placed_eq_ok_iff {read : Reader α} {a : α} :
    placed read room T = .ok a ↔ read room T = .ok a := by
  unfold placed
  cases read room T <;> simp [Except.mapError]

theorem ofText_eq_ok_iff {read : Reader α} {source : String} {a : α} :
    read.ofText source = .ok a ↔ read depthLimit (Source.ofText source).tree = .ok a ∧
      (Source.ofText source).excess = none := by
  simp only [ofText, Except.bind_eq_ok_iff, Source.finish, pure, Except.pure]
  cases (Source.ofText source).excess <;> simp

end Reader

namespace Layout

variable {κ : Type} {Content : κ → Type} {σ : Type} {layout : Layout κ Content σ} {room : Nat}

/-- The known ones among the members of an object. -/
def known {α : Type} (layout : Layout κ Content σ) (ms : List (String × α)) : List (κ × α) :=
  ms.filterMap fun m => (layout.key? m.1).map fun k => (k, m.2)

theorem mem_of_mem_known {α : Type} {ms : List (String × α)} {f : κ × α}
    (h : f ∈ layout.known ms) : ∃ label, (label, f.2) ∈ ms ∧ layout.key? label = some f.1 := by
  obtain ⟨m, hm, hf⟩ := List.mem_filterMap.mp h
  obtain ⟨k, hk, rfl⟩ := Option.map_eq_some_iff.mp hf
  exact ⟨m.1, hm, hk⟩

theorem forall₂_known {α β : Type} (R : α → β → Prop) {ms : List (String × α)}
    {vs : List (String × β)} (h : List.Forall₂ (fun m v => m.1 = v.1 ∧ R m.2 v.2) ms vs) :
    List.Forall₂ (fun f g => f.1 = g.1 ∧ R f.2 g.2) (layout.known ms) (layout.known vs) := by
  induction h with
  | nil => exact .nil
  | @cons m v ms vs hmv hall ih =>
    obtain ⟨label, a⟩ := m
    obtain ⟨_, b⟩ := v
    obtain ⟨rfl, hab⟩ := hmv
    unfold known at ih ⊢
    simp only [List.filterMap_cons]
    cases layout.key? label with
    | none => exact ih
    | some k => exact .cons ⟨rfl, hab⟩ ih

theorem keys_known {α β : Type} (R : α → β → Prop) {ms : List (String × α)}
    {vs : List (String × β)} (h : List.Forall₂ (fun m v => m.1 = v.1 ∧ R m.2 v.2) ms vs) :
    (layout.known ms).map Prod.fst = (layout.known vs).map Prod.fst := by
  exact Alike.map_fst (forall₂_known R h)

/-- What stands in a tree for the fields of a record: the known members of an object, all others
being passed over, or the items of a list for the keys in their order. -/
inductive Fields (layout : Layout κ Content σ) : Tree → List (κ × Tree) → Prop
  | object {start : Nat} {members : Members} {ms : List (String × Tree)}
      (closed : members.pairs? = some ms)
      (skipped : ∀ m ∈ ms, layout.key? m.1 = none → m.2.skip = .ok ()) :
      Fields layout (.object start members) (layout.known ms)
  | list {start : Nat} {items : Items} {ts : List Tree} (closed : items.trees? = some ts)
      (fits : ts.length ≤ layout.keys.length)
      (rest : ∀ k ∈ layout.keys.drop ts.length, layout.optional k = true) :
      Fields layout (.list start items) (layout.keys.zip ts)

theorem Fields.unique {T : Tree} {fields fields' : List (κ × Tree)} (h : layout.Fields T fields)
    (h' : layout.Fields T fields') : fields = fields' := by
  cases h with
  | object hms _ =>
    cases h' with
    | object hms' _ => rw [Option.some.inj (hms.symm.trans hms')]
  | list hts _ _ =>
    cases h' with
    | list hts' _ _ => rw [Option.some.inj (hts.symm.trans hts')]

/-- An object without faults has its known members as fields. -/
theorem fields_of_spelled {T : Tree} {vs : List (String × Value)}
    (h : T.spelled = some (.object vs)) : ∃ fields, layout.Fields T fields ∧
      fields.map Prod.fst = (layout.known vs).map Prod.fst ∧
      List.Forall₂ (fun f g => f.1 = g.1 ∧ f.2.spelled = some g.2) fields (layout.known vs) := by
  obtain ⟨start, members, ms, rfl, hms, hall⟩ := Tree.spelled_eq_object_iff.mp h
  refine ⟨_, .object hms fun m hm _ => ?_, keys_known (Tree.spelled · = some ·) hall,
    forall₂_known (Tree.spelled · = some ·) hall⟩
  obtain ⟨v, -, hv⟩ := exists_of_mem_left hall m hm
  exact Tree.skip_of_spelled hv.2

variable [DecidableEq κ]

/-- Reads fields one after the other, none of them twice. -/
def collect (layout : Layout κ Content σ) (room : Nat) (contents : Contents Content) :
    List (κ × Tree) → Option (Contents Content)
  | [] => some contents
  | (k, T) :: fields =>
    if (contents k).isSome then none
    else match layout.read k room T with
      | .ok c => layout.collect room (contents.set k c) fields
      | .error _ => none

/-- What is read from fields. -/
def contentsOf (layout : Layout κ Content σ) (room : Nat) (fields : List (κ × Tree)) :
    Contents Content :=
  fun k => (fields.lookup k).bind fun T => (layout.read k room T).toOption

theorem collect_eq_some_iff {contents contents' : Contents Content} {fields : List (κ × Tree)} :
    layout.collect room contents fields = some contents' ↔ (fields.map Prod.fst).Nodup ∧
      (∀ f ∈ fields, contents f.1 = none ∧ ∃ c, layout.read f.1 room f.2 = .ok c) ∧
      contents' = fun k => contents k <|> layout.contentsOf room fields k := by
  induction fields generalizing contents with
  | nil => simp [collect, contentsOf, eq_comm]
  | cons f fields ih =>
    obtain ⟨k, T⟩ := f
    unfold collect
    cases hk : contents k with
    | some c => simp [hk]
    | none =>
      cases hc : layout.read k room T with
      | error e => simp [hc]
      | ok c =>
        have fresh (l : κ) : contents.set k c l = none ↔ contents l = none ∧ k ≠ l := by
          by_cases hl : k = l
          · subst hl
            simp [Contents.set_self]
          · simp [Contents.set_of_ne, hl]
        have overlay : (fun l => contents.set k c l <|> layout.contentsOf room fields l) =
            fun l => contents l <|> layout.contentsOf room ((k, T) :: fields) l := by
          funext l
          by_cases hl : l = k
          · subst hl
            simp [Contents.set_self, hk, contentsOf, hc, Except.toOption]
          · have hb : (l == k) = false := beq_eq_false_iff_ne.mpr hl
            simp [Contents.set_of_ne _ (Ne.symm hl), contentsOf, List.lookup_cons, hb]
        simp only [Option.isSome_none, Bool.false_eq_true, if_false, ih, overlay, fresh,
          List.map_cons, List.nodup_cons, List.mem_map, not_exists, not_and, List.forall_mem_cons,
          hk, hc, true_and, Except.ok.injEq, exists_eq']
        constructor
        · intro h
          obtain ⟨hnd, hall, h⟩ := h
          exact ⟨⟨fun g hg he => (hall g hg).1.2 he.symm, hnd⟩,
            fun g hg => ⟨(hall g hg).1.1, (hall g hg).2⟩, h⟩
        · intro h
          obtain ⟨⟨hne, hnd⟩, hall, h⟩ := h
          exact ⟨hnd, fun g hg => ⟨⟨(hall g hg).1, fun he => hne g hg he.symm⟩, (hall g hg).2⟩, h⟩

theorem readMembers_eq_ok_iff : ∀ {members : Members} {contents contents' : Contents Content},
    layout.readMembers room contents members = .ok contents' ↔ ∃ ms, members.pairs? = some ms ∧
      (∀ m ∈ ms, layout.key? m.1 = none → m.2.skip = .ok ()) ∧
      layout.collect room contents (layout.known ms) = some contents'
  | .closed _, _, _ => by simp [readMembers, Members.pairs?, known, collect]
  | .stray _ _, _, _ => by simp [readMembers, Members.pairs?]
  | .keyless _ _, _, _ => by simp [readMembers, Members.pairs?]
  | .badKey _ _, _, _ => by simp [readMembers, Members.pairs?]
  | .bare (.error _) _ _, _, _ => by simp [readMembers, Members.pairs?, bind, Except.bind]
  | .bare (.ok label) _ _, contents, _ => by
    simp only [readMembers, Members.pairs?, bind, Except.bind]
    split <;> simp
  | .cut _, _, _ => by simp [readMembers, Members.pairs?]
  | .member (.error _) _ _ _ _, _, _ => by
    simp [readMembers, Members.pairs?, bind, Except.bind]
  | .member (.ok label) _ value next rest, contents, contents' => by
    simp only [readMembers, Members.pairs?, Option.map_eq_some_iff, exists_exists_and_eq_and,
      List.forall_mem_cons, bind, Except.bind]
    cases hk : layout.key? label with
    | none =>
      have hknown (ms : List (String × Tree)) :
          layout.known ((label, value) :: ms) = layout.known ms := by simp [known, hk]
      simp only [hknown, true_imp_iff]
      cases value.skip with
      | error e => simp
      | ok u =>
        change layout.readMembers room contents rest = .ok contents' ↔ _
        simp only [readMembers_eq_ok_iff, true_and]
    | some k =>
      have hknown (ms : List (String × Tree)) :
          layout.known ((label, value) :: ms) = (k, value) :: layout.known ms := by simp [known, hk]
      simp only [hknown, collect, reduceCtorEq, false_imp_iff, true_and]
      cases hc : (contents k).isSome with
      | true => simp
      | false =>
        cases hr : layout.read k room value with
        | error e => simp
        | ok c => simp [readMembers_eq_ok_iff]

theorem readItems_eq_ok_iff : ∀ {items : Items} {keys : List κ}
    {contents contents' : Contents Content}, keys.Nodup → (∀ k ∈ keys, contents k = none) →
    (layout.readItems room contents keys items = .ok contents' ↔
      ∃ ts, items.trees? = some ts ∧ ts.length ≤ keys.length ∧
        (∀ k ∈ keys.drop ts.length, layout.optional k = true) ∧
        layout.collect room contents (keys.zip ts) = some contents')
  | .closed _, [], _, _, _, _ => by simp [readItems, Items.trees?, collect]
  | .closed _, k :: keys, _, _, _, _ => by
    simp only [readItems, Items.trees?, Option.some.injEq, exists_eq_left', List.length_nil,
      Nat.zero_le, true_and, List.drop_zero, List.zip_nil_right, collect]
    have hall := List.dropWhile_eq_nil_iff (p := layout.optional) (l := k :: keys)
    cases hd : (k :: keys).dropWhile layout.optional with
    | nil => rw [Except.ok.injEq, and_iff_right (hall.mp hd)]
    | cons l due =>
      simp only [hd, reduceCtorEq, false_iff] at hall
      simp only [hall, false_and, reduceCtorEq]
  | .stray _ none, [], _, _, _, _ => by simp [readItems, Items.trees?]
  | .stray _ (some _), [], _, _, _, _ => by simp [readItems, Items.trees?]
  | .stray _ _, _ :: _, _, _, _, _ => by simp [readItems, Items.trees?]
  | .dangling _, _, _, _, _, _ => by simp [readItems, Items.trees?]
  | .cut _, _, _, _, _, _ => by simp [readItems, Items.trees?]
  | .item _ rest, [], _, _, _, _ => by simp [readItems, Items.trees?]
  | .item value rest, k :: keys, contents, contents', hnd, hfresh => by
    obtain ⟨hk, hnd⟩ := List.nodup_cons.mp hnd
    obtain ⟨hc, hfresh⟩ := List.forall_mem_cons.mp hfresh
    simp only [readItems, Items.trees?, Option.map_eq_some_iff, exists_exists_and_eq_and,
      List.length_cons, Nat.add_le_add_iff_right, List.drop_succ_cons, List.zip_cons_cons, collect,
      hc, Option.isSome_none, Bool.false_eq_true, if_false]
    cases hr : layout.read k room value with
    | error e => simp
    | ok c =>
      refine readItems_eq_ok_iff hnd fun l hl => ?_
      have hne : k ≠ l := fun he => hk (he ▸ hl)
      rw [Contents.set_of_ne _ hne, hfresh l hl]

/-- A record is made of fields that have different keys and can be read. -/
theorem reader_eq_ok_iff (hkeys : layout.keys.Nodup) {T : Tree} {s : σ} :
    layout.reader room T = .ok s ↔ ∃ n fields, room = n + 1 ∧ layout.Fields T fields ∧
      (fields.map Prod.fst).Nodup ∧ (∀ f ∈ fields, ∃ c, layout.read f.1 n f.2 = .ok c) ∧
      layout.make (layout.contentsOf n fields) = .ok s := by
  have finish {contents : Contents Content} {place : Nat} :
      layout.finish contents place = .ok s ↔ layout.make contents = .ok s := by
    unfold finish
    cases layout.make contents <;> simp
  have read {n : Nat} {fields : List (κ × Tree)} {contents : Contents Content} :
      layout.collect n .none fields = some contents ↔ (fields.map Prod.fst).Nodup ∧
        (∀ f ∈ fields, ∃ c, layout.read f.1 n f.2 = .ok c) ∧
        contents = layout.contentsOf n fields := by
    simp [collect_eq_some_iff, Contents.none]
  cases T with
  | object start members =>
    simp only [reader, Except.bind_eq_ok_iff, enter_eq_ok_iff, readMembers_eq_ok_iff, finish, read]
    constructor
    · intro h
      obtain ⟨n, hn, _, ⟨ms, hms, hskip, hnd, hall, rfl⟩, h⟩ := h
      exact ⟨n, _, hn, .object hms hskip, hnd, hall, h⟩
    · intro h
      obtain ⟨n, _, hn, hf, hnd, hall, h⟩ := h
      cases hf with
      | object hms hskip => exact ⟨n, hn, _, ⟨_, hms, hskip, hnd, hall, rfl⟩, h⟩
  | list start items =>
    simp only [reader, Except.bind_eq_ok_iff, enter_eq_ok_iff, finish,
      readItems_eq_ok_iff hkeys fun k _ => (rfl : Contents.none k = none), read]
    constructor
    · intro h
      obtain ⟨n, hn, _, ⟨ts, hts, hlen, hopt, hnd, hall, rfl⟩, h⟩ := h
      exact ⟨n, _, hn, .list hts hlen hopt, hnd, hall, h⟩
    · intro h
      obtain ⟨n, _, hn, hf, hnd, hall, h⟩ := h
      cases hf with
      | list hts hlen hopt => exact ⟨n, hn, _, ⟨_, hts, hlen, hopt, hnd, hall, rfl⟩, h⟩
  | _ =>
    simp only [reader, reduceCtorEq, false_iff]
    intro h
    obtain ⟨_, _, _, ⟨⟩, _⟩ := h

end Layout

end DeckDoc.Json
