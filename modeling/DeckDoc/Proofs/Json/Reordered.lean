import DeckDoc.Proofs.Json.Record

namespace DeckDoc.Json

/-- The members of an object that is closed. A key may hold half a surrogate pair, and is then no
text. -/
def Members.entries? : Members → Option (List (Option String × Tree))
  | .closed _ => some []
  | .member key _ value _ rest => rest.entries?.map ((key.toOption, value) :: ·)
  | _ => none

def Tree.entries? : Tree → Option (List (Option String × Tree))
  | .object _ members => members.entries?
  | _ => none

/-- The keys that are texts, as they stand in an object. -/
def Members.keys : Members → List String
  | .member (.ok key) _ _ _ rest => key :: rest.keys
  | .member (.error _) _ _ _ rest => rest.keys
  | _ => []

mutual

/-- Two trees without faults in their grammar that differ in nothing but the order of the members of
their objects, at any depth, and in the places where all this stands in a text. -/
def Tree.Reordered : Tree → Tree → Prop
  | .null _ _, U => ∃ start stop, U = .null start stop
  | .bool b _ _, U => ∃ start stop, U = .bool b start stop
  | .number n _ _, U => ∃ m start stop, U = .number m start stop ∧ n.toOption = m.toOption
  | .text s _ _, U => ∃ t start stop, U = .text t start stop ∧ s.toOption = t.toOption
  | .list _ items, U => ∃ us, U.trees? = some us ∧ items.Reordered us
  | .object _ members, U => ∃ es, U.entries? = some es ∧ members.Reordered es
  | .missing _ _, _ => False
  | .broken _ _ _, _ => False

def Items.Reordered : Items → List Tree → Prop
  | .closed _, us => us = []
  | .item value rest, us => ∃ u us', us = u :: us' ∧ value.Reordered u ∧ rest.Reordered us'
  | _, _ => False

def Members.Reordered : Members → List (Option String × Tree) → Prop
  | .closed _, es => es = []
  | .member key _ value _ rest, es => ∃ u es', es.Perm ((key.toOption, u) :: es') ∧
      value.Reordered u ∧ rest.Reordered es'
  | _, _ => False

end

mutual

/-- No object repeats a key, at any depth. -/
def Tree.Distinct : Tree → Prop
  | .list _ items => items.Distinct
  | .object _ members => members.keys.Nodup ∧ members.Distinct
  | _ => True

def Items.Distinct : Items → Prop
  | .item value rest => value.Distinct ∧ rest.Distinct
  | _ => True

def Members.Distinct : Members → Prop
  | .member _ _ value _ rest => value.Distinct ∧ rest.Distinct
  | _ => True

end

/-- Closed lists are built up item by item. -/
@[elab_as_elim]
theorem Items.trees_induction
    {motive : ∀ (items : Items) (ts : List Tree), items.trees? = some ts → Prop}
    (closed : ∀ stop, motive (.closed stop) [] rfl)
    (item : ∀ value rest ts (h : rest.trees? = some ts), motive rest ts h →
      motive (.item value rest) (value :: ts) (Option.map_eq_some_iff.mpr ⟨ts, h, rfl⟩)) :
    ∀ (items : Items) (ts : List Tree) (h : items.trees? = some ts), motive items ts h
  | .closed stop, ts, h => by
    obtain rfl := Option.some.inj h
    exact closed stop
  | .stray _ _, _, h => by simp [trees?] at h
  | .dangling _, _, h => by simp [trees?] at h
  | .cut _, _, h => by simp [trees?] at h
  | .item value rest, _, h => by
    obtain ⟨ts, hrest, rfl⟩ := Option.map_eq_some_iff.mp h
    exact item value rest ts hrest (trees_induction closed item rest ts hrest)

/-- Closed objects are built up member by member. -/
@[elab_as_elim]
theorem Members.entries_induction
    {motive : ∀ (members : Members) (es : List (Option String × Tree)),
      members.entries? = some es → Prop}
    (closed : ∀ stop, motive (.closed stop) [] rfl)
    (member : ∀ key colon value next rest es (h : rest.entries? = some es), motive rest es h →
      motive (.member key colon value next rest) ((key.toOption, value) :: es)
        (Option.map_eq_some_iff.mpr ⟨es, h, rfl⟩)) :
    ∀ (members : Members) (es : List (Option String × Tree)) (h : members.entries? = some es),
      motive members es h
  | .closed stop, es, h => by
    obtain rfl := Option.some.inj h
    exact closed stop
  | .stray _ _, _, h => by simp [entries?] at h
  | .keyless _ _, _, h => by simp [entries?] at h
  | .badKey _ _, _, h => by simp [entries?] at h
  | .bare _ _ _, _, h => by simp [entries?] at h
  | .cut _, _, h => by simp [entries?] at h
  | .member key colon value next rest, _, h => by
    obtain ⟨es, hrest, rfl⟩ := Option.map_eq_some_iff.mp h
    exact member key colon value next rest es hrest (entries_induction closed member rest es hrest)

theorem Items.reordered_of_forall₂ {items : Items} {ts us : List Tree}
    (hts : items.trees? = some ts) (hall : List.Forall₂ Tree.Reordered ts us) :
    items.Reordered us := by
  induction items, ts, hts using Items.trees_induction generalizing us with
  | closed stop =>
    cases hall
    rfl
  | item value rest ts hts ih =>
    cases hall with
    | @cons _ u _ us hu hall => exact ⟨u, us, rfl, hu, ih hall⟩

theorem Members.reordered_of_alike {members : Members} {fs es gs : List (Option String × Tree)}
    (hfs : members.entries? = some fs) (hperm : es.Perm gs) (hall : Alike Tree.Reordered fs gs) :
    members.Reordered es := by
  induction members, fs, hfs using Members.entries_induction generalizing es gs with
  | closed stop =>
    cases hall
    exact hperm.eq_nil
  | member key colon value next rest fs hfs ih =>
    cases hall with
    | @cons _ g _ gs hu hall =>
      obtain ⟨k, u⟩ := g
      obtain ⟨rfl, hu⟩ := hu
      exact ⟨u, gs, hperm, hu, ih (.refl gs) hall⟩

/-- What a relation needs to hold of all trees that differ in the order of members: it holds of
scalars, and of brackets if it holds of what stands in them. -/
structure Steps (P : Tree → Tree → Prop) : Prop where
  null (start stop start' stop' : Nat) : P (.null start stop) (.null start' stop')
  bool (b : Bool) (start stop start' stop' : Nat) : P (.bool b start stop) (.bool b start' stop')
  number {n m : Except Fault Number} (start stop start' stop' : Nat) (h : n.toOption = m.toOption) :
    P (.number n start stop) (.number m start' stop')
  text {s t : Except Fault String} (start stop start' stop' : Nat) (h : s.toOption = t.toOption) :
    P (.text s start stop) (.text t start' stop')
  list {items items' : Items} {ts us : List Tree} (start start' : Nat)
    (hts : items.trees? = some ts) (hus : items'.trees? = some us)
    (hall : List.Forall₂ (fun t u => t.Reordered u ∧ P t u) ts us) :
    P (.list start items) (.list start' items')
  object {members members' : Members} {fs es gs : List (Option String × Tree)} (start start' : Nat)
    (hfs : members.entries? = some fs) (hes : members'.entries? = some es) (hperm : es.Perm gs)
    (hall : Alike (fun t u => t.Reordered u ∧ P t u) fs gs) :
    P (.object start members) (.object start' members')

theorem Tree.exists_of_trees? {T : Tree} {ts : List Tree} (h : T.trees? = some ts) :
    ∃ start items, T = .list start items ∧ items.trees? = some ts := by
  cases T with
  | list start items => exact ⟨start, items, rfl, h⟩
  | _ => simp [trees?] at h

theorem Tree.exists_of_entries? {T : Tree} {es : List (Option String × Tree)}
    (h : T.entries? = some es) : ∃ start members, T = .object start members ∧
      members.entries? = some es := by
  cases T with
  | object start members => exact ⟨start, members, rfl, h⟩
  | _ => simp [entries?] at h

variable {P : Tree → Tree → Prop}

mutual

theorem Steps.tree (steps : Steps P) : ∀ {T U : Tree}, T.Reordered U → P T U
  | .null start stop, U, h => by
    obtain ⟨start', stop', rfl⟩ := h
    exact steps.null start stop start' stop'
  | .bool b start stop, U, h => by
    obtain ⟨start', stop', rfl⟩ := h
    exact steps.bool b start stop start' stop'
  | .number n start stop, U, h => by
    obtain ⟨m, start', stop', rfl, h⟩ := h
    exact steps.number start stop start' stop' h
  | .text s start stop, U, h => by
    obtain ⟨t, start', stop', rfl, h⟩ := h
    exact steps.text start stop start' stop' h
  | .list start items, U, h => by
    obtain ⟨us, hus, h⟩ := h
    obtain ⟨start', items', rfl, hus⟩ := Tree.exists_of_trees? hus
    obtain ⟨ts, hts, hall⟩ := steps.items h
    exact steps.list start start' hts hus hall
  | .object start members, U, h => by
    obtain ⟨es, hes, h⟩ := h
    obtain ⟨start', members', rfl, hes⟩ := Tree.exists_of_entries? hes
    obtain ⟨fs, gs, hfs, hperm, hall⟩ := steps.members h
    exact steps.object start start' hfs hes hperm hall
  | .missing _ _, U, h => h.elim
  | .broken _ _ _, U, h => h.elim

theorem Steps.items (steps : Steps P) : ∀ {items : Items} {us : List Tree}, items.Reordered us →
    ∃ ts, items.trees? = some ts ∧ List.Forall₂ (fun t u => t.Reordered u ∧ P t u) ts us
  | .closed _, us, h => h ▸ ⟨[], rfl, .nil⟩
  | .stray _ _, us, h => h.elim
  | .dangling _, us, h => h.elim
  | .cut _, us, h => h.elim
  | .item value rest, us, h => by
    obtain ⟨u, us, rfl, hu, h⟩ := h
    obtain ⟨ts, hts, hall⟩ := steps.items h
    exact ⟨value :: ts, Option.map_eq_some_iff.mpr ⟨ts, hts, rfl⟩, .cons ⟨hu, steps.tree hu⟩ hall⟩

theorem Steps.members (steps : Steps P) : ∀ {members : Members} {es : List (Option String × Tree)},
    members.Reordered es → ∃ fs gs, members.entries? = some fs ∧ es.Perm gs ∧
      Alike (fun t u => t.Reordered u ∧ P t u) fs gs
  | .closed _, es, h => h ▸ ⟨[], [], rfl, .nil, .nil⟩
  | .stray _ _, es, h => h.elim
  | .keyless _ _, es, h => h.elim
  | .badKey _ _, es, h => h.elim
  | .bare _ _ _, es, h => h.elim
  | .cut _, es, h => h.elim
  | .member key _ value _ rest, es, h => by
    obtain ⟨u, es', hes, hu, h⟩ := h
    obtain ⟨fs, gs, hfs, hperm, hall⟩ := steps.members h
    exact ⟨(key.toOption, value) :: fs, (key.toOption, u) :: gs,
      Option.map_eq_some_iff.mpr ⟨fs, hfs, rfl⟩, hes.trans (hperm.cons _),
      .cons ⟨rfl, hu, steps.tree hu⟩ hall⟩

end

theorem steps_trivial : Steps fun _ _ => True where
  null _ _ _ _ := trivial
  bool _ _ _ _ _ := trivial
  number _ _ _ _ _ := trivial
  text _ _ _ _ _ := trivial
  list _ _ _ _ _ := trivial
  object _ _ _ _ _ _ := trivial

theorem Items.forall₂_of_reordered {items : Items} {us : List Tree} (h : items.Reordered us) :
    ∃ ts, items.trees? = some ts ∧ List.Forall₂ Tree.Reordered ts us := by
  obtain ⟨ts, hts, hall⟩ := steps_trivial.items h
  exact ⟨ts, hts, hall.imp fun _ _ h => h.1⟩

theorem Members.alike_of_reordered {members : Members} {es : List (Option String × Tree)}
    (h : members.Reordered es) : ∃ fs gs, members.entries? = some fs ∧ es.Perm gs ∧
      Alike Tree.Reordered fs gs := by
  obtain ⟨fs, gs, hfs, hperm, hall⟩ := steps_trivial.members h
  exact ⟨fs, gs, hfs, hperm, hall.imp fun _ _ h => ⟨h.1, h.2.1⟩⟩

/-- What differs in order differs so both ways. -/
theorem steps_symm : Steps fun T U => U.Reordered T where
  null start stop _ _ := ⟨start, stop, rfl⟩
  bool _ start stop _ _ := ⟨start, stop, rfl⟩
  number start stop _ _ h := ⟨_, start, stop, rfl, h.symm⟩
  text start stop _ _ h := ⟨_, start, stop, rfl, h.symm⟩
  list start start' hts hus hall := by
    have hback := (hall.imp fun _ _ h => h.2).flip
    exact ⟨_, hts, Items.reordered_of_forall₂ hus hback⟩
  object start start' hfs hes hperm hall := by
    have hback : Alike Tree.Reordered _ _ := (hall.imp fun _ _ h => ⟨h.1.symm, h.2.2⟩).flip
    obtain ⟨fs', hback, hfs'⟩ := List.perm_comp_forall₂ hperm hback
    exact ⟨_, hfs, Members.reordered_of_alike hes hfs'.symm hback⟩

theorem Tree.Reordered.symm {T U : Tree} (h : T.Reordered U) : U.Reordered T := steps_symm.tree h

theorem Items.distinct_iff {items : Items} {ts : List Tree} (hts : items.trees? = some ts) :
    items.Distinct ↔ ∀ t ∈ ts, t.Distinct := by
  induction items, ts, hts using Items.trees_induction with
  | closed stop => simp [Items.Distinct]
  | item value rest ts hts ih => rw [Items.Distinct, List.forall_mem_cons, ih]

theorem Members.distinct_iff {members : Members} {fs : List (Option String × Tree)}
    (hfs : members.entries? = some fs) : members.Distinct ↔ ∀ f ∈ fs, f.2.Distinct := by
  induction members, fs, hfs using Members.entries_induction with
  | closed stop => simp [Members.Distinct]
  | member key colon value next rest fs hfs ih =>
    rw [Members.Distinct, List.forall_mem_cons, ih]

theorem Members.keys_of_entries? {members : Members} {fs : List (Option String × Tree)}
    (hfs : members.entries? = some fs) : members.keys = fs.filterMap Prod.fst := by
  induction members, fs, hfs using Members.entries_induction with
  | closed stop => rfl
  | member key colon value next rest fs hfs ih =>
    cases key with
    | ok key => exact congrArg (key :: ·) ih
    | error _ => exact ih

theorem Alike.filterMap_fst {κ α β : Type} {R : α → β → Prop} {fs : List (Option κ × α)}
    {gs : List (Option κ × β)} (h : Alike R fs gs) :
    fs.filterMap Prod.fst = gs.filterMap Prod.fst := by
  induction h with
  | nil => rfl
  | cons hfg _ ih => rw [List.filterMap_cons, List.filterMap_cons, hfg.1, ih]

/-- Whatever the order, the keys of an object are as distinct as they were. -/
theorem steps_distinct : Steps fun T U => T.Distinct → U.Distinct where
  null _ _ _ _ _ := trivial
  bool _ _ _ _ _ _ := trivial
  number _ _ _ _ _ _ := trivial
  text _ _ _ _ _ _ := trivial
  list _ _ hts hus hall hd := by
    rw [Tree.Distinct, Items.distinct_iff hus]
    rw [Tree.Distinct, Items.distinct_iff hts] at hd
    intro u hu
    obtain ⟨t, ht, -, htu⟩ := exists_of_mem_right hall u hu
    exact htu (hd t ht)
  object _ _ hfs hes hperm hall hd := by
    rw [Tree.Distinct, Members.distinct_iff hes, Members.keys_of_entries? hes]
    rw [Tree.Distinct, Members.distinct_iff hfs, Members.keys_of_entries? hfs,
      hall.filterMap_fst] at hd
    refine ⟨(hperm.filterMap Prod.fst).nodup_iff.mpr hd.1, ?_⟩
    intro e he
    obtain ⟨f, hf, -, -, hfe⟩ := exists_of_mem_right hall e (hperm.mem_iff.mp he)
    exact hfe (hd.2 f hf)

theorem Tree.Distinct.of_reordered {T U : Tree} (hd : T.Distinct) (h : T.Reordered U) :
    U.Distinct := steps_distinct.tree h hd

end DeckDoc.Json
