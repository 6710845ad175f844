import DeckDoc.Proofs.Json.Reordered

namespace DeckDoc.Json

theorem Members.pairs?_eq_some_iff : ∀ {members : Members} {ms : List (String × Tree)},
    members.pairs? = some ms ↔ members.entries? = some (ms.map fun m => (some m.1, m.2))
  | .closed _, ms => by cases ms <;> simp [pairs?, entries?]
  | .stray _ _, ms => by simp [pairs?, entries?]
  | .keyless _ _, ms => by simp [pairs?, entries?]
  | .badKey _ _, ms => by simp [pairs?, entries?]
  | .bare _ _ _, ms => by simp [pairs?, entries?]
  | .cut _, ms => by simp [pairs?, entries?]
  | .member (.ok key) _ value _ rest, ms => by
    simp only [pairs?, entries?, Option.map_eq_some_iff, @pairs?_eq_some_iff rest]
    constructor
    · intro h
      obtain ⟨ms, hms, rfl⟩ := h
      exact ⟨_, hms, rfl⟩
    · intro h
      obtain ⟨fs, hfs, h⟩ := h
      obtain ⟨m, ms, rfl, hm, rfl⟩ := List.map_eq_cons_iff.mp h.symm
      obtain ⟨hkey, rfl⟩ := Prod.mk.inj hm
      obtain rfl := Option.some.inj hkey
      exact ⟨ms, hfs, rfl⟩
  | .member (.error _) _ value _ rest, ms => by
    simp only [pairs?, entries?, Option.map_eq_some_iff, reduceCtorEq, false_iff]
    intro h
    obtain ⟨fs, -, h⟩ := h
    obtain ⟨m, _, -, hm, -⟩ := List.map_eq_cons_iff.mp h.symm
    cases (Prod.mk.inj hm).1

theorem Alike.exists_map {α β : Type} {R : α → β → Prop} {ms : List (String × α)}
    {gs : List (Option String × β)} (h : Alike R (ms.map fun m => (some m.1, m.2)) gs) :
    ∃ ns, gs = ns.map (fun n => (some n.1, n.2)) ∧ Alike R ms ns := by
  induction ms generalizing gs with
  | nil =>
    cases h
    exact ⟨[], rfl, .nil⟩
  | cons m ms ih =>
    cases h with
    | @cons _ g _ gs hmg hall =>
      obtain ⟨k, b⟩ := g
      obtain ⟨rfl, hmb⟩ := hmg
      obtain ⟨ns, rfl, hns⟩ := ih hall
      exact ⟨(m.1, b) :: ns, rfl, .cons ⟨rfl, hmb⟩ hns⟩

theorem exists_perm_of_perm_map {α β : Type} {f : α → β} {bs : List β} {as : List α}
    (h : bs.Perm (as.map f)) : ∃ as' : List α, bs = as'.map f ∧ as'.Perm as := by
  have hmap : List.Forall₂ (fun b a => b = f a) (as.map f) as := by
    simp [List.forall₂_map_left_iff, List.forall₂_same]
  obtain ⟨as', hall, hperm⟩ := List.perm_comp_forall₂ h hmap
  refine ⟨as', ?_, hperm⟩
  rw [← List.forall₂_eq_eq_eq, List.forall₂_map_right_iff]
  exact hall

/-- The members of an object whose keys are texts, and those of one that differs from it in their
order. -/
theorem Members.pairs?_of_alike {members members' : Members} {ms : List (String × Tree)}
    {fs es gs : List (Option String × Tree)} {R : Tree → Tree → Prop}
    (hfs : members.entries? = some fs) (hes : members'.entries? = some es) (hperm : es.Perm gs)
    (hall : Alike R fs gs) (hms : members.pairs? = some ms) :
    ∃ ms' ns, members'.pairs? = some ms' ∧ ms'.Perm ns ∧ Alike R ms ns := by
  obtain rfl := Option.some.inj (hfs.symm.trans (pairs?_eq_some_iff.mp hms))
  obtain ⟨ns, rfl, hns⟩ := hall.exists_map
  obtain ⟨ms', rfl, hms'⟩ := exists_perm_of_perm_map hperm
  exact ⟨ms', ns, pairs?_eq_some_iff.mpr hes, hms', hns⟩

theorem Members.keys_of_pairs? {members : Members} {ms : List (String × Tree)}
    (h : members.pairs? = some ms) : members.keys = ms.map Prod.fst := by
  rw [keys_of_entries? (pairs?_eq_some_iff.mp h), List.filterMap_map]
  simp

theorem Members.values_eq_ok_iff_pairs {room : Nat} : ∀ {members : Members}
    {us : List (String × Value)}, members.values room = .ok us ↔
      ∃ ms, members.pairs? = some ms ∧ Alike (fun T u => T.value room = .ok u) ms us
  | .closed _, us => by simp [values, pairs?, eq_comm]
  | .stray _ _, us => by simp [values, pairs?]
  | .keyless _ _, us => by simp [values, pairs?]
  | .badKey _ _, us => by simp [values, pairs?]
  | .bare key _ _, us => by simp [values, pairs?, Except.bind_eq_ok_iff]
  | .cut _, us => by simp [values, pairs?]
  | .member (.error _) _ value _ rest, us => by simp [values, pairs?, Except.bind_eq_ok_iff]
  | .member (.ok key) _ value _ rest, us => by
    simp only [values, pairs?, Except.bind_eq_ok_iff, Option.map_eq_some_iff,
      @values_eq_ok_iff_pairs _ rest, pure, Except.pure, Except.ok.injEq, exists_eq_left']
    constructor
    · intro h
      obtain ⟨u, hu, us, ⟨ms, hms, hall⟩, rfl⟩ := h
      exact ⟨(key, value) :: ms, ⟨ms, hms, rfl⟩, .cons ⟨rfl, hu⟩ hall⟩
    · intro h
      obtain ⟨_, ⟨ms, hms, rfl⟩, hall⟩ := h
      cases hall with
      | @cons _ u _ us hu hall =>
        obtain ⟨k, u⟩ := u
        obtain ⟨rfl, hu⟩ := hu
        exact ⟨u, hu, us, ⟨ms, hms, hall⟩, rfl⟩

theorem Members.skip_of_entries? {members : Members} {es : List (Option String × Tree)}
    (hes : members.entries? = some es) : members.skip = .ok () := by
  induction members, es, hes using Members.entries_induction with
  | closed stop => rfl
  | member key colon value next rest es hes ih => exact ih

theorem alike_zip {κ α β : Type} {R : α → β → Prop} {as : List α} {bs : List β}
    (h : List.Forall₂ R as bs) (keys : List κ) : Alike R (keys.zip as) (keys.zip bs) := by
  induction h generalizing keys with
  | nil =>
    rw [List.zip_nil_right, List.zip_nil_right]
    exact .nil
  | cons hab _ ih =>
    cases keys with
    | nil => exact .nil
    | cons k keys => exact .cons ⟨rfl, hab⟩ (ih keys)

theorem lookup_eq_of_perm {κ α : Type} [DecidableEq κ] {fs gs : List (κ × α)} (h : fs.Perm gs)
    (hnd : (fs.map Prod.fst).Nodup) (k : κ) : fs.lookup k = gs.lookup k := by
  induction h with
  | nil => rfl
  | cons f _ ih =>
    obtain ⟨l, a⟩ := f
    rw [List.lookup_cons, List.lookup_cons, ih (List.nodup_cons.mp hnd).2]
  | swap f g _ =>
    obtain ⟨l, a⟩ := f
    obtain ⟨m, b⟩ := g
    have hlm : m ≠ l := fun e => (List.nodup_cons.mp hnd).1 (e ▸ List.mem_cons_self)
    simp only [List.lookup_cons]
    by_cases hl : k = l
    · have hm : k ≠ m := fun e => hlm (e.symm.trans hl)
      simp only [beq_eq_false_iff_ne.mpr hm]
    · simp only [beq_eq_false_iff_ne.mpr hl]
  | trans hfg _ ihf ihg => exact (ihf hnd).trans (ihg ((hfg.map Prod.fst).nodup_iff.mp hnd))

theorem forall₂_trans {α β γ : Type} {R : α → β → Prop} {S : β → γ → Prop} {Q : α → γ → Prop}
    (hRS : ∀ a b c, R a b → S b c → Q a c) {as : List α} {bs : List β} {cs : List γ}
    (hab : List.Forall₂ R as bs) (hbc : List.Forall₂ S bs cs) : List.Forall₂ Q as cs := by
  induction hab generalizing cs with
  | nil =>
    cases hbc
    exact .nil
  | cons h _ ih =>
    cases hbc with
    | cons h' hbc => exact .cons (hRS _ _ _ h h') (ih hbc)

theorem map_eq_ok_of_toOption {ε α β : Type} {f : α → β} {x y : Except ε α} {b : β}
    (h : x.toOption = y.toOption) (hx : x.map f = .ok b) : y.map f = .ok b := by
  obtain ⟨a, ha, rfl⟩ := Except.map_eq_ok_iff.mp hx
  have hy := h.symm.trans (Except.toOption_eq_some_iff.mpr ha)
  exact Except.map_eq_ok_iff.mpr ⟨a, Except.toOption_eq_some_iff.mp hy, rfl⟩

/-- A value does not depend on the order of the members in the text. -/
theorem steps_value : Steps fun T U => T.Distinct → ∀ room v, T.value room = .ok v →
    U.value room = .ok v where
  null _ _ _ _ _ _ _ hv := hv
  bool _ _ _ _ _ _ _ _ hv := hv
  number _ _ _ _ h _ _ _ hv := map_eq_ok_of_toOption h hv
  text _ _ _ _ h _ _ _ hv := map_eq_ok_of_toOption h hv
  list _ _ hts hus hall hd room v hv := by
    rw [Tree.Distinct, Items.distinct_iff hts] at hd
    simp only [Tree.value, Except.bind_eq_ok_iff, enter_eq_ok_iff, Items.values_eq_read,
      Items.read_eq_ok_iff] at hv ⊢
    obtain ⟨n, hn, vs, ⟨ts', hts', hvs⟩, hv⟩ := hv
    obtain rfl := Option.some.inj (hts.symm.trans hts')
    have hback := ((List.forall₂_and_left _ _).mpr ⟨hd, hall⟩).flip
    have hread := forall₂_trans (fun _ _ v h hv => h.2.2 h.1 n v hv) hback hvs
    exact ⟨n, hn, vs, ⟨_, hus, hread⟩, hv⟩
  object _ _ hfs hes hperm hall hd room v hv := by
    rw [Tree.Distinct, Members.distinct_iff hfs] at hd
    simp only [Tree.value, Except.bind_eq_ok_iff, enter_eq_ok_iff,
      Members.values_eq_ok_iff_pairs] at hv ⊢
    obtain ⟨n, hn, us, ⟨ms, hms, hus⟩, hv⟩ := hv
    have hentries : Alike (fun (t u : Tree) => ∀ v, t.value n = .ok v → u.value n = .ok v) _ _ :=
      ((List.forall₂_and_left _ _).mpr ⟨hd.2, hall⟩).imp fun _ _ h => ⟨h.2.1, h.2.2.2 h.1 n⟩
    obtain ⟨ms', ns, hms', hns, halike⟩ := Members.pairs?_of_alike hfs hes hperm hentries hms
    have hread : Alike (fun (u : Tree) v => u.value n = .ok v) ns us :=
      forall₂_trans (fun _ _ v h hv => ⟨h.1.symm.trans hv.1, h.2 v.2 hv.2⟩) halike.flip hus
    obtain ⟨us', hread', hus'⟩ := List.perm_comp_forall₂ hns hread
    have hnd : (us.map Prod.fst).Nodup := by
      rw [← hus.map_fst, ← Members.keys_of_pairs? hms]
      exact hd.1
    refine ⟨n, hn, us', ⟨ms', hms', hread'⟩, ?_⟩
    rw [← hv, Value.merge_eq_of_perm hus'.symm hnd]

/-- The items of a list whose members come in another order. -/
theorem Tree.Reordered.trees? {T U : Tree} {ts : List Tree} (h : T.Reordered U) (hd : T.Distinct)
    (hts : T.trees? = some ts) : ∃ us, U.trees? = some us ∧ List.Forall₂ Tree.Reordered ts us ∧
      ∀ t ∈ ts, t.Distinct := by
  obtain ⟨start, items, rfl, hts⟩ := Tree.exists_of_trees? hts
  obtain ⟨us, hus, h⟩ := h
  obtain ⟨ts', hts', hall⟩ := Items.forall₂_of_reordered h
  obtain rfl := Option.some.inj (hts.symm.trans hts')
  exact ⟨us, hus, hall, (Items.distinct_iff hts).mp hd⟩

/-- The members of an object with its members in another order. -/
theorem Tree.Reordered.pairs? {start : Nat} {members : Members} {U : Tree}
    {ms : List (String × Tree)} (h : (Tree.object start members).Reordered U)
    (hd : (Tree.object start members).Distinct) (hms : members.pairs? = some ms) :
    ∃ start' members' ms' ns, U = .object start' members' ∧ members'.pairs? = some ms' ∧
      ms'.Perm ns ∧ Alike Tree.Reordered ms ns ∧ (ms.map Prod.fst).Nodup ∧
      ∀ m ∈ ms, m.2.Distinct := by
  obtain ⟨es, hes, h⟩ := h
  obtain ⟨start', members', rfl, hes⟩ := Tree.exists_of_entries? hes
  obtain ⟨fs, gs, hfs, hperm, hall⟩ := Members.alike_of_reordered h
  obtain ⟨ms', ns, hms', hns, halike⟩ := Members.pairs?_of_alike hfs hes hperm hall hms
  obtain ⟨hnd, hd⟩ := hd
  obtain rfl := Option.some.inj (hfs.symm.trans (Members.pairs?_eq_some_iff.mp hms))
  refine ⟨start', members', ms', ns, rfl, hms', hns, halike, ?_, ?_⟩
  · rw [← Members.keys_of_pairs? hms]
    exact hnd
  · intro m hm
    exact (Members.distinct_iff hfs).mp hd _ (List.mem_map_of_mem hm)

theorem steps_null : Steps fun T U => T.spelled = some .null ↔ U.spelled = some .null where
  null _ _ _ _ := .rfl
  bool _ _ _ _ _ := .rfl
  number _ _ _ _ h := by simp [Tree.spelled]
  text _ _ _ _ h := by simp [Tree.spelled]
  list _ _ _ _ _ := by simp [Tree.spelled]
  object _ _ _ _ _ _ := by simp [Tree.spelled]

theorem steps_text : Steps fun T U => ∀ s, T.spelled = some (.text s) →
    U.spelled = some (.text s) where
  null _ _ _ _ _ hs := hs
  bool _ _ _ _ _ _ hs := hs
  number _ _ _ _ h _ hs := by simp [Tree.spelled] at hs
  text _ _ _ _ h _ hs := by
    rw [Tree.spelled, h] at hs
    exact hs
  list _ _ _ _ _ _ hs := by simp [Tree.spelled] at hs
  object _ _ _ _ _ _ _ hs := by simp [Tree.spelled] at hs

/-- Whatever differs from another tree in its order can be passed over. -/
theorem steps_skip : Steps fun _ U => U.skip = .ok () where
  null _ _ _ _ := rfl
  bool _ _ _ _ _ := rfl
  number _ _ _ _ _ := rfl
  text _ _ _ _ _ := rfl
  list _ _ _ hus _ := Items.skip_of_trees? hus
  object _ _ _ hes _ _ := Members.skip_of_entries? hes

namespace Reader

variable {α ε : Type}

/-- A reader for which the order of the members makes no difference. -/
def IgnoresOrder (read : Reader α ε) : Prop :=
  ∀ room T U a, T.Reordered U → T.Distinct → read room T = .ok a → read room U = .ok a

theorem ignoresOrder_text : text.IgnoresOrder := by
  intro room T U s h _ hs
  exact text_eq_ok_iff.mpr (steps_text.tree h s (text_eq_ok_iff.mp hs))

theorem ignoresOrder_value : value.IgnoresOrder := by
  intro room T U v h hd hv
  exact steps_value.tree h hd room v hv

theorem IgnoresOrder.placed {read : Reader α} (h : read.IgnoresOrder) :
    read.placed.IgnoresOrder := by
  intro room T U a hTU hd ha
  exact placed_eq_ok_iff.mpr (h room T U a hTU hd (placed_eq_ok_iff.mp ha))

theorem IgnoresOrder.optional {read : Reader α ε} (h : read.IgnoresOrder) :
    read.optional.IgnoresOrder := by
  intro room T U o hTU hd ho
  have hnull := steps_null.tree hTU
  apply optional_eq_ok_iff.mpr
  rcases optional_eq_ok_iff.mp ho with ⟨hn, rfl⟩ | ⟨hn, a, ha, rfl⟩
  · exact .inl ⟨hnull.mp hn, rfl⟩
  · exact .inr ⟨hnull.not.mp hn, a, h room T U a hTU hd ha, rfl⟩

theorem IgnoresOrder.list {read : Reader α} (h : read.IgnoresOrder) : read.list.IgnoresOrder := by
  intro room T U as hTU hd has
  obtain ⟨n, ts, hn, hts, hall⟩ := list_eq_ok_iff.mp has
  obtain ⟨us, hus, htus, hdistinct⟩ := hTU.trees? hd hts
  have hback := ((List.forall₂_and_left _ _).mpr ⟨hdistinct, htus⟩).flip
  have hread : List.Forall₂ (fun u a => read n u = .ok a) us as :=
    forall₂_trans (fun u t a htu ha => h n t u a htu.2 htu.1 ha) hback hall
  exact list_eq_ok_iff.mpr ⟨n, us, hn, hus, hread⟩

end Reader

namespace Layout

variable {κ : Type} {Content : κ → Type} {σ : Type} {layout : Layout κ Content σ}

/-- The fields of a record whose members come in another order. -/
theorem Fields.reordered {T U : Tree} {fields : List (κ × Tree)} (hf : layout.Fields T fields)
    (h : T.Reordered U) (hd : T.Distinct) : ∃ fields' gs, layout.Fields U fields' ∧
      fields'.Perm gs ∧ Alike Tree.Reordered fields gs ∧ ∀ f ∈ fields, f.2.Distinct := by
  cases hf with
  | @object start members ms hms hskip =>
    obtain ⟨start', members', ms', ns, rfl, hms', hperm, hall, -, hdistinct⟩ := h.pairs? hd hms
    have hskip' : ∀ m ∈ ms', layout.key? m.1 = none → m.2.skip = .ok () := by
      intro m hm _
      obtain ⟨n, -, -, hnm⟩ := exists_of_mem_right hall m (hperm.mem_iff.mp hm)
      exact steps_skip.tree hnm
    refine ⟨_, layout.known ns, .object hms' hskip', hperm.filterMap _, forall₂_known _ hall, ?_⟩
    intro f hf
    obtain ⟨label, hm, -⟩ := layout.mem_of_mem_known hf
    exact hdistinct _ hm
  | @list start items ts hts fits rest =>
    obtain ⟨us, hus, hall, hdistinct⟩ := h.trees? hd hts
    obtain ⟨start', items', rfl, hus⟩ := Tree.exists_of_trees? hus
    rw [hall.length_eq] at fits rest
    exact ⟨_, _, .list hus fits rest, .refl _, alike_zip hall layout.keys,
      fun f hf => hdistinct _ (List.of_mem_zip hf).2⟩

variable {n : Nat} {fields gs : List (κ × Tree)}

/-- Two lists of fields of which the same can be read, one by one. -/
def ReadAlike (layout : Layout κ Content σ) (n : Nat) : List (κ × Tree) → List (κ × Tree) → Prop :=
  List.Forall₂ fun f g => f.1 = g.1 ∧
    ∃ c, layout.read f.1 n f.2 = .ok c ∧ layout.read f.1 n g.2 = .ok c

theorem ReadAlike.readable (h : layout.ReadAlike n fields gs) :
    ∀ g ∈ gs, ∃ c, layout.read g.1 n g.2 = .ok c := by
  intro g hg
  obtain ⟨f, -, hfg, c, -, hc⟩ := exists_of_mem_right h g hg
  exact ⟨hfg ▸ c, by cases f; cases g; cases hfg; exact hc⟩

variable [DecidableEq κ]

theorem ReadAlike.contentsOf_eq (h : layout.ReadAlike n fields gs) :
    layout.contentsOf n fields = layout.contentsOf n gs := by
  funext k
  unfold contentsOf
  induction h with
  | nil => rfl
  | @cons f g _ _ hfg _ ih =>
    obtain ⟨l, t⟩ := f
    obtain ⟨_, u⟩ := g
    obtain ⟨rfl, c, ht, hu⟩ := hfg
    by_cases hk : k = l
    · subst hk
      simp only [List.lookup_cons, BEq.rfl, Option.bind_some, ht, hu]
    · simp only [List.lookup_cons, beq_eq_false_iff_ne.mpr hk, ih]

/-- A record does not depend on the order of its members if none of its fields does. -/
theorem ignoresOrder_reader (hkeys : layout.keys.Nodup) (h : ∀ k, (layout.read k).IgnoresOrder) :
    layout.reader.IgnoresOrder := by
  intro room T U s hTU hd hs
  obtain ⟨n, fields, hn, hf, hnd, hall, hmake⟩ := (layout.reader_eq_ok_iff hkeys).mp hs
  obtain ⟨fields', gs, hf', hperm, halike, hdistinct⟩ := hf.reordered hTU hd
  have hread : layout.ReadAlike n fields gs := by
    have hreadable : ∀ f ∈ fields, f.2.Distinct ∧ ∃ c, layout.read f.1 n f.2 = .ok c :=
      fun f hf => ⟨hdistinct f hf, hall f hf⟩
    refine ((List.forall₂_and_left fields gs).mpr ⟨hreadable, halike⟩).imp fun f g hfg => ?_
    obtain ⟨⟨hdf, c, hc⟩, hkey, hfg⟩ := hfg
    exact ⟨hkey, c, hc, h f.1 n f.2 g.2 c hfg hdf hc⟩
  have hnd' : (fields'.map Prod.fst).Nodup := by
    rw [(hperm.map Prod.fst).nodup_iff, ← halike.map_fst]
    exact hnd
  have hcontents : layout.contentsOf n fields' = layout.contentsOf n fields := by
    rw [hread.contentsOf_eq]
    funext k
    unfold contentsOf
    rw [lookup_eq_of_perm hperm hnd']
  refine (layout.reader_eq_ok_iff hkeys).mpr ⟨n, fields', hn, hf', hnd', ?_, hcontents ▸ hmake⟩
  intro f hf
  exact hread.readable f (hperm.mem_iff.mp hf)

end Layout

end DeckDoc.Json
