import DeckDoc.Proofs.Json.Grammar.Sound
import DeckDoc.Proofs.Json.Root

namespace DeckDoc.Json

/-- Lists whose entries are in a relation, one by one. -/
inductive Phrase.Entrywise (R : Phrase → Phrase → Prop) : Phrase → Phrase → Prop
  | same (P : Phrase) : Entrywise R P P
  | list {ps qs : List Phrase} (entries : List.Forall₂ R ps qs) :
      Entrywise R (.list ps) (.list qs)

theorem Phrase.Entrywise.null_iff {R : Phrase → Phrase → Prop} {P Q : Phrase}
    (h : Entrywise R P Q) : P = .null ↔ Q = .null := by
  cases h with
  | same => exact Iff.rfl
  | list _ => simp

namespace Layout

variable {κ : Type} {Content : κ → Type} {σ : Type}

/-- Members of an object, and the same ones with others among them whose keys are not known. What
known keys stand for may change as `R` says. -/
inductive Widens (layout : Layout κ Content σ) (R : κ → Phrase → Phrase → Prop) :
    List (Option String × Phrase) → List (Option String × Phrase) → Prop
  | nil : Widens layout R [] []
  | kept (m : Option String × Phrase) {ms ns : List (Option String × Phrase)}
      (rest : Widens layout R ms ns) : Widens layout R (m :: ms) (m :: ns)
  | changed {label : String} {k : κ} {P Q : Phrase} {ms ns : List (Option String × Phrase)}
      (known : layout.key? label = some k) (change : R k P Q) (rest : Widens layout R ms ns) :
      Widens layout R ((some label, P) :: ms) ((some label, Q) :: ns)
  | unknown {label : String} (Q : Phrase) {ms ns : List (Option String × Phrase)}
      (unknown : layout.key? label = none) (rest : Widens layout R ms ns) :
      Widens layout R ms ((some label, Q) :: ns)

/-- A record, and the same one with further members whose keys are not known. A record that is
written as a list of contents has no place for them, but its contents may. -/
inductive Grows (layout : Layout κ Content σ) (R : κ → Phrase → Phrase → Prop) :
    Phrase → Phrase → Prop
  | same (P : Phrase) : Grows layout R P P
  | object {ms ns : List (Option String × Phrase)} (members : layout.Widens R ms ns) :
      Grows layout R (.object ms) (.object ns)
  | list {ps qs : List Phrase} (length : ps.length = qs.length)
      (contents : List.Forall₂ (fun f g => f.1 = g.1 ∧ R f.1 f.2 g.2)
        (layout.keys.zip ps) (layout.keys.zip qs)) :
      Grows layout R (.list ps) (.list qs)

theorem Grows.null_iff {layout : Layout κ Content σ} {R : κ → Phrase → Phrase → Prop}
    {P Q : Phrase} (h : layout.Grows R P Q) : P = .null ↔ Q = .null := by
  cases h with
  | same => exact Iff.rfl
  | object _ => simp
  | list _ _ => simp

end Layout

/-- What two trees have been read from is in a relation. -/
def Tree.Related (R : Phrase → Phrase → Prop) (T U : Tree) : Prop :=
  ∃ P Q, T.phrase? = some P ∧ R P Q ∧ U.phrase? = some Q

theorem forall₂_chain {α β γ δ : Type} {R : α → β → Prop} {S : β → γ → Prop} {Q : δ → γ → Prop}
    {as : List α} {bs : List β} {cs : List γ} {ds : List δ} (hab : List.Forall₂ R as bs)
    (hbc : List.Forall₂ S bs cs) (hdc : List.Forall₂ Q ds cs) :
    List.Forall₂ (fun a d => ∃ b c, R a b ∧ S b c ∧ Q d c) as ds := by
  induction hab generalizing cs ds with
  | nil =>
    cases hbc
    cases hdc
    exact .nil
  | cons h _ ih =>
    cases hbc with
    | cons h' hbc =>
      cases hdc with
      | cons h'' hdc => exact .cons ⟨_, _, h, h', h''⟩ (ih hbc hdc)

namespace Tree.Related

variable {R S : Phrase → Phrase → Prop} {T U : Tree}

theorem mono (h : T.Related S U) (hSR : ∀ P Q, S P Q → R P Q) : T.Related R U := by
  obtain ⟨P, Q, hT, hPQ, hU⟩ := h
  exact ⟨P, Q, hT, hSR P Q hPQ, hU⟩

theorem spelled_eq (h : T.Related Eq U) : T.spelled = U.spelled := by
  obtain ⟨P, _, hT, rfl, hU⟩ := h
  rw [spelled_of_phrase? hT, spelled_of_phrase? hU]

theorem null_iff (h : T.Related R U) (hR : ∀ P Q, R P Q → (P = .null ↔ Q = .null)) :
    T.spelled = some .null ↔ U.spelled = some .null := by
  obtain ⟨P, Q, hT, hPQ, hU⟩ := h
  rw [← phrase?_eq_null_iff, ← phrase?_eq_null_iff, hT, hU, Option.some.injEq, Option.some.injEq,
    hR P Q hPQ]

theorem trees? (h : T.Related (Phrase.Entrywise R) U) (hR : ∀ P, R P P) {ts : List Tree}
    (hts : T.trees? = some ts) :
    ∃ us, U.trees? = some us ∧ List.Forall₂ (Tree.Related R) ts us := by
  obtain ⟨P, Q, hT, hPQ, hU⟩ := h
  obtain ⟨start, items, rfl, -⟩ := Tree.exists_of_trees? hts
  obtain ⟨ps, -, rfl⟩ := Option.map_eq_some_iff.mp hT
  have hentries : ∃ qs, Q = .list qs ∧ List.Forall₂ R ps qs := by
    cases hPQ with
    | same => exact ⟨ps, rfl, List.forall₂_same.mpr fun P _ => hR P⟩
    | list entries => exact ⟨_, rfl, entries⟩
  obtain ⟨qs, rfl, hpq⟩ := hentries
  obtain ⟨ts', hts', hps⟩ := phrase?_eq_list_iff.mp hT
  obtain rfl := Option.some.inj (hts.symm.trans hts')
  obtain ⟨us, hus, hqs⟩ := phrase?_eq_list_iff.mp hU
  exact ⟨us, hus, forall₂_chain hps hpq hqs⟩

end Tree.Related

/-! Readers that make the same of a value after it has changed. -/

namespace Reader

variable {α ε : Type} {R S : Phrase → Phrase → Prop}

/-- A reader for which changes of some kind make no difference. -/
def Tolerates (read : Reader α ε) (R : Phrase → Phrase → Prop) : Prop :=
  ∀ room T U a, T.Related R U → read room T = .ok a → read room U = .ok a

theorem Tolerates.mono {read : Reader α ε} (h : read.Tolerates R) (hSR : ∀ P Q, S P Q → R P Q) :
    read.Tolerates S :=
  fun room T U a hTU ha => h room T U a (hTU.mono hSR) ha

theorem tolerates_text : text.Tolerates Eq := by
  intro room T U s hTU hs
  rw [text_eq_ok_iff] at hs ⊢
  exact hTU.spelled_eq ▸ hs

theorem tolerates_value : value.Tolerates Eq := by
  intro room T U v hTU hv
  rw [value, Tree.value_eq_ok_iff] at hv ⊢
  exact hTU.spelled_eq ▸ hv

theorem Tolerates.placed {read : Reader α} (h : read.Tolerates R) : read.placed.Tolerates R :=
  fun room T U a hTU ha => placed_eq_ok_iff.mpr (h room T U a hTU (placed_eq_ok_iff.mp ha))

theorem Tolerates.optional {read : Reader α ε} (h : read.Tolerates R)
    (hnull : ∀ P Q, R P Q → (P = .null ↔ Q = .null)) : read.optional.Tolerates R := by
  intro room T U o hTU ho
  have hnull := hTU.null_iff hnull
  apply optional_eq_ok_iff.mpr
  rcases optional_eq_ok_iff.mp ho with ⟨hn, rfl⟩ | ⟨hn, a, ha, rfl⟩
  · exact .inl ⟨hnull.mp hn, rfl⟩
  · exact .inr ⟨hnull.not.mp hn, a, h room T U a hTU ha, rfl⟩

theorem Tolerates.list {read : Reader α} (h : read.Tolerates R) (hR : ∀ P, R P P) :
    read.list.Tolerates (Phrase.Entrywise R) := by
  intro room T U as hTU has
  obtain ⟨n, ts, hn, hts, hread⟩ := list_eq_ok_iff.mp has
  obtain ⟨us, hus, hall⟩ := hTU.trees? hR hts
  have hread : List.Forall₂ (fun U a => read n U = .ok a) us as :=
    forall₂_trans (fun U T a hTU ha => h n T U a hTU ha) hall.flip hread
  exact list_eq_ok_iff.mpr ⟨n, us, hn, hus, hread⟩

end Reader

/-- What an object whose keys are texts has been read from, member by member. -/
theorem Tree.exists_pairs?_of_phrase? {T : Tree} {ms : List (String × Phrase)}
    (h : T.phrase? = some (.object (ms.map fun m => (some m.1, m.2)))) :
    ∃ es, T.pairs? = some es ∧ Alike (fun U Q => U.phrase? = some Q) es ms := by
  obtain ⟨ds, hds, hall⟩ := phrase?_eq_object_iff.mp h
  obtain ⟨start, members, rfl, hds⟩ := exists_of_entries? hds
  have hback : Alike (fun Q (U : Tree) => U.phrase? = some Q) _ ds :=
    (hall.imp fun _ _ h => ⟨h.1.symm, h.2⟩).flip
  obtain ⟨es, rfl, hes⟩ := hback.exists_map
  exact ⟨es, Members.pairs?_eq_some_iff.mpr hds, (hes.imp fun _ _ h => ⟨h.1.symm, h.2⟩).flip⟩

namespace Layout

variable {κ : Type} {Content : κ → Type} {σ : Type} {layout : Layout κ Content σ}
  {R : κ → Phrase → Phrase → Prop}

/-- Whatever an unknown member of an object holds, it is of the grammar and is passed over. -/
theorem Fields.of_pairs? {T : Tree} {es : List (String × Tree)} {ms : List (String × Phrase)}
    (hes : T.pairs? = some es) (hall : Alike (fun U Q => U.phrase? = some Q) es ms) :
    layout.Fields T (layout.known es) := by
  have hskip : ∀ e ∈ es, layout.key? e.1 = none → e.2.skip = .ok () := by
    intro e he _
    obtain ⟨m, -, -, hm⟩ := exists_of_mem_left hall e he
    exact Tree.skip_of_phrase? hm
  cases T with
  | object start members => exact .object hes hskip
  | _ => cases hes

theorem known_cons_of_none {α : Type} {label : String} (h : layout.key? label = none) (a : α)
    (ms : List (String × α)) : layout.known ((label, a) :: ms) = layout.known ms := by
  rw [known, List.filterMap_cons, h]
  rfl

theorem known_cons_of_some {α : Type} {label : String} {k : κ} (h : layout.key? label = some k)
    (a : α) (ms : List (String × α)) :
    layout.known ((label, a) :: ms) = (k, a) :: layout.known ms := by
  rw [known, List.filterMap_cons, h]
  rfl

/-- Of members and those they have been widened to, the known ones go together. -/
theorem Widens.known (hR : ∀ k P, R k P P) {ps qs : List (Option String × Phrase)}
    (h : layout.Widens R ps qs) {ms : List (String × Phrase)}
    (hps : ps = ms.map fun m => (some m.1, m.2)) :
    ∃ ns, qs = ns.map (fun n => (some n.1, n.2)) ∧
      List.Forall₂ (fun f g => f.1 = g.1 ∧ R f.1 f.2 g.2) (layout.known ms) (layout.known ns) := by
  induction h generalizing ms with
  | nil =>
    obtain rfl := List.map_eq_nil_iff.mp hps.symm
    exact ⟨[], rfl, .nil⟩
  | kept _ _ ih =>
    obtain ⟨⟨label, P⟩, ms, rfl, rfl, hms⟩ := List.map_eq_cons_iff.mp hps.symm
    obtain ⟨ns, rfl, hall⟩ := ih hms.symm
    refine ⟨(label, P) :: ns, rfl, ?_⟩
    cases hk : layout.key? label with
    | none => rwa [known_cons_of_none hk, known_cons_of_none hk]
    | some k =>
      rw [known_cons_of_some hk, known_cons_of_some hk]
      exact .cons ⟨rfl, hR k P⟩ hall
  | @changed label k P Q _ _ hk hPQ _ ih =>
    obtain ⟨⟨label', _⟩, ms, rfl, hm, hms⟩ := List.map_eq_cons_iff.mp hps.symm
    obtain ⟨hlabel, rfl⟩ := Prod.mk.inj hm
    obtain rfl : label = label' := (Option.some.inj hlabel).symm
    obtain ⟨ns, rfl, hall⟩ := ih hms.symm
    refine ⟨(label, Q) :: ns, rfl, ?_⟩
    rw [known_cons_of_some hk, known_cons_of_some hk]
    exact .cons ⟨rfl, hPQ⟩ hall
  | @unknown label Q _ _ hk _ ih =>
    obtain ⟨ns, rfl, hall⟩ := ih hps
    refine ⟨(label, Q) :: ns, rfl, ?_⟩
    rwa [known_cons_of_none hk]

/-- What stands for the fields of a record still does so after it has grown. -/
theorem Fields.grows (hR : ∀ k P, R k P P) {T U : Tree} {fields : List (κ × Tree)}
    (h : T.Related (layout.Grows R) U) (hf : layout.Fields T fields) : ∃ gs, layout.Fields U gs ∧
      List.Forall₂ (fun f g => f.1 = g.1 ∧ f.2.Related (R f.1) g.2) fields gs := by
  obtain ⟨P, Q, hT, hPQ, hU⟩ := h
  have related {fs gs : List (κ × Tree)} {ps qs : List (κ × Phrase)}
      (hfs : Alike (fun T P => T.phrase? = some P) fs ps)
      (hpq : List.Forall₂ (fun f g => f.1 = g.1 ∧ R f.1 f.2 g.2) ps qs)
      (hgs : Alike (fun U Q => U.phrase? = some Q) gs qs) :
      List.Forall₂ (fun f g => f.1 = g.1 ∧ f.2.Related (R f.1) g.2) fs gs := by
    refine (forall₂_chain hfs hpq hgs).imp fun f g h => ?_
    obtain ⟨p, q, ⟨hfp, hp⟩, ⟨hpq, hR⟩, hgq, hq⟩ := h
    exact ⟨hfp.trans (hpq.trans hgq.symm), _, _, hp, hfp ▸ hR, hq⟩
  cases hf with
  | @object start members ms hms hskip =>
    obtain ⟨ps, -, rfl⟩ := Option.map_eq_some_iff.mp hT
    obtain ⟨es, hes, hps⟩ := Tree.phrase?_eq_object_iff.mp hT
    obtain rfl := Option.some.inj ((Members.pairs?_eq_some_iff.mp hms).symm.trans hes)
    obtain ⟨ps, rfl, hms'⟩ := hps.exists_map
    have hmembers : ∃ qs, Q = .object (qs.map fun q => (some q.1, q.2)) ∧
        List.Forall₂ (fun f g => f.1 = g.1 ∧ R f.1 f.2 g.2) (layout.known ps)
          (layout.known qs) := by
      cases hPQ with
      | same => exact ⟨ps, rfl, List.forall₂_same.mpr fun f _ => ⟨rfl, hR f.1 f.2⟩⟩
      | object members =>
        obtain ⟨qs, rfl, hpq⟩ := members.known hR rfl
        exact ⟨qs, rfl, hpq⟩
    obtain ⟨qs, rfl, hpq⟩ := hmembers
    obtain ⟨ns, hns, hns'⟩ := Tree.exists_pairs?_of_phrase? hU
    exact ⟨_, .of_pairs? hns hns', related (forall₂_known (Tree.phrase? · = some ·) hms') hpq
      (forall₂_known (Tree.phrase? · = some ·) hns')⟩
  | @list start items ts hts hfits hrest =>
    obtain ⟨ps, -, rfl⟩ := Option.map_eq_some_iff.mp hT
    obtain ⟨ts', hts', hps⟩ := Tree.phrase?_eq_list_iff.mp hT
    obtain rfl := Option.some.inj (hts.symm.trans hts')
    have hcontents : ∃ qs, Q = .list qs ∧ ps.length = qs.length ∧
        List.Forall₂ (fun f g => f.1 = g.1 ∧ R f.1 f.2 g.2) (layout.keys.zip ps)
          (layout.keys.zip qs) := by
      cases hPQ with
      | same => exact ⟨ps, rfl, rfl, List.forall₂_same.mpr fun f _ => ⟨rfl, hR f.1 f.2⟩⟩
      | list length contents => exact ⟨_, rfl, length, contents⟩
    obtain ⟨qs, rfl, hlength, hpq⟩ := hcontents
    obtain ⟨us, hus, hqs⟩ := Tree.phrase?_eq_list_iff.mp hU
    obtain ⟨start', items', rfl, hus⟩ := Tree.exists_of_trees? hus
    have hlength : ts.length = us.length :=
      hps.length_eq.trans (hlength.trans hqs.length_eq.symm)
    rw [hlength] at hfits hrest
    exact ⟨_, .list hus hfits hrest,
      related (alike_zip hps layout.keys) hpq (alike_zip hqs layout.keys)⟩

theorem Fields.skip {T : Tree} {fields : List (κ × Tree)} (h : layout.Fields T fields) :
    T.skip = .ok () := by
  cases h with
  | object closed _ => exact Members.skip_of_pairs? closed
  | list closed _ _ => exact Items.skip_of_trees? closed

variable [DecidableEq κ]

/-- A record is read the same with further members if its fields are read the same. -/
theorem tolerates_reader (hkeys : layout.keys.Nodup) (hR : ∀ k P, R k P P)
    (h : ∀ k, (layout.read k).Tolerates (R k)) : layout.reader.Tolerates (layout.Grows R) := by
  intro room T U s hTU hs
  obtain ⟨n, fields, hn, hf, hnd, hall, hmake⟩ := (layout.reader_eq_ok_iff hkeys).mp hs
  obtain ⟨gs, hg, hrelated⟩ := hf.grows hR hTU
  have hread : layout.ReadAlike n fields gs := by
    refine ((List.forall₂_and_left fields gs).mpr ⟨hall, hrelated⟩).imp fun f g hfg => ?_
    obtain ⟨⟨c, hc⟩, hkey, hfg⟩ := hfg
    exact ⟨hkey, c, hc, h f.1 n f.2 g.2 c hfg hc⟩
  have hkeys' : fields.map Prod.fst = gs.map Prod.fst :=
    Alike.map_fst (R := fun _ _ => True) (hrelated.imp fun _ _ h => ⟨h.1, trivial⟩)
  refine (layout.reader_eq_ok_iff hkeys).mpr ⟨n, gs, hn, hg, hkeys' ▸ hnd, hread.readable, ?_⟩
  exact hread.contentsOf_eq ▸ hmake

/-- Whatever a record is read from is a text of the grammar. -/
theorem exists_mem_document (hkeys : layout.keys.Nodup) {text : String} {s : σ}
    (h : layout.reader.ofText text = .ok s) : ∃ P : Phrase, text.toList ∈ P.document := by
  obtain ⟨hread, hexcess⟩ := Reader.ofText_eq_ok_iff.mp h
  obtain ⟨_, _, -, hf, -⟩ := (layout.reader_eq_ok_iff hkeys).mp hread
  exact Source.exists_mem_document hf.skip hexcess

end Layout

/-- A text whose phrase has changed is read the same by whoever tolerates the change. -/
theorem Reader.Tolerates.ofText {α : Type} {read : Reader α} {R : Phrase → Phrase → Prop}
    (h : read.Tolerates R) {P Q : Phrase} (hPQ : R P Q) {s t : String} {a : α}
    (hs : s.toList ∈ P.document) (ht : t.toList ∈ Q.document) (ha : read.ofText s = .ok a) :
    read.ofText t = .ok a := by
  obtain ⟨hP, -⟩ := Source.mem_document_iff.mp hs
  obtain ⟨hQ, hexcess⟩ := Source.mem_document_iff.mp ht
  obtain ⟨hread, -⟩ := ofText_eq_ok_iff.mp ha
  exact ofText_eq_ok_iff.mpr ⟨h _ _ _ _ ⟨P, Q, hP, hPQ, hQ⟩ hread, hexcess⟩

end DeckDoc.Json
