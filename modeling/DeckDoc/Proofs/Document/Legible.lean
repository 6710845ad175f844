import DeckDoc.Proofs.Document.Outline

namespace DeckDoc

/-- A text without a line break. -/
def Text.OneLine (s : String) : Prop := '\n' ∉ s.toList

instance (s : String) : Decidable (Text.OneLine s) := inferInstanceAs (Decidable (_ ∉ _))

open Text

/-- The layout of its row can be told from the texts in it. A description, the last of them, may
hold bars. -/
structure Row.Legible (r : Row) : Prop where
  oneLine : ∀ s ∈ [r.position, r.name, r.valueType, r.default, r.dimension, r.description],
    OneLine s
  unbarred : ∀ s ∈ [r.position, r.name, r.valueType, r.default, r.dimension], '|' ∉ s.toList

def Count.Legible : Count → Prop
  | fixed count => OneLine count
  | reference item keyword => OneLine item ∧ OneLine keyword ∧ '`' ∉ item.toList

instance (r : Row) : Decidable r.Legible :=
  decidable_of_iff (_ ∧ _) ⟨fun h => ⟨h.1, h.2⟩, fun h => ⟨h.oneLine, h.unbarred⟩⟩

instance : (c : Count) → Decidable c.Legible
  | .fixed count => inferInstanceAs (Decidable (OneLine count))
  | .reference item keyword =>
    inferInstanceAs (Decidable (OneLine item ∧ OneLine keyword ∧ '`' ∉ item.toList))

/-- The layout of the document can be told from the texts in it. Only a summary may have more than
one line, and none but its first may look like the heading of a section. -/
structure Document.Legible (d : Document) : Prop where
  title : OneLine d.title
  summary : ∀ l ∈ (Text.lines d.summary).tail, Block.isHeading l = false
  names : ∀ n ∈ d.names, OneLine n
  pattern : ∀ p ∈ d.pattern, OneLine p
  sections : ∀ s ∈ d.sections, OneLine s
  dependencies : ∀ n ∈ d.requires ++ d.prohibits, OneLine n ∧ '`' ∉ n.toList
  counts : ∀ c ∈ d.size.toList ++ d.numTables.toList, c.Legible
  minSize : ∀ n ∈ d.minSize, OneLine n
  code : ∀ t ∈ d.code, OneLine t
  items : ∀ rows ∈ d.items, ∀ r ∈ rows, r.Legible
  data : ∀ n ∈ d.data, OneLine n.valueType ∧ OneLine n.dimension
  records : ∀ records ∈ d.records, ∀ rows ∈ records, ∀ r ∈ rows, r.Legible
  recordsSet : ∀ records ∈ d.recordsSet, ∀ rows ∈ records, ∀ r ∈ rows, r.Legible
  alternatingRecords :
    ∀ records ∈ d.alternatingRecords, ∀ rows ∈ records, ∀ r ∈ rows, r.Legible

theorem map_inj_of_mem {α β : Type} {f : α → β} {as bs : List α}
    (hf : ∀ a ∈ as, ∀ b ∈ bs, f a = f b → a = b) (h : as.map f = bs.map f) : as = bs := by
  induction as generalizing bs with
  | nil => exact (List.map_eq_nil_iff.mp h.symm).symm
  | cons a as ih =>
    cases bs with
    | nil => simp at h
    | cons b bs =>
      obtain ⟨hab, ht⟩ := List.cons.inj h
      rw [hf a List.mem_cons_self b List.mem_cons_self hab,
        ih (fun x hx y hy => hf x (List.mem_cons_of_mem _ hx) y (List.mem_cons_of_mem _ hy)) ht]

theorem map_inj_of_some {α β : Type} {f : α → β} {a b : Option α}
    (hf : ∀ x ∈ a, ∀ y ∈ b, f x = f y → x = y) (h : a.map f = b.map f) : a = b := by
  cases a with
  | none => exact (Option.map_eq_none_iff.mp h.symm).symm
  | some x =>
    cases b with
    | none => cases h
    | some y => rw [hf x rfl y rfl (Option.some.inj h)]

theorem exists_kind {α : Type} {kinds : List (α → Prop)} {os : List (Option α)} {a : α}
    (ho : List.Forall₂ (fun p o => ∀ a ∈ o, p a) kinds os) (ha : a ∈ os.filterMap id) :
    ∃ p ∈ kinds, p a := by
  induction ho with
  | nil => simp at ha
  | @cons p o kinds os hp _ ih =>
    obtain ⟨o', hm, hoa⟩ := List.mem_filterMap.mp ha
    obtain rfl : o' = some a := hoa
    rcases List.mem_cons.mp hm with hm | hm
    · exact ⟨p, List.mem_cons_self, hp a hm.symm⟩
    · obtain ⟨q, hq, hqa⟩ := ih (List.mem_filterMap.mpr ⟨_, hm, rfl⟩)
      exact ⟨q, List.mem_cons_of_mem _ hq, hqa⟩

/-- Options of kinds that exclude each other are told by those that are there. -/
theorem somes_inj {α : Type} {kinds : List (α → Prop)} {os ps : List (Option α)}
    (apart : kinds.Pairwise fun p q => ∀ a, p a → ¬ q a)
    (ho : List.Forall₂ (fun p o => ∀ a ∈ o, p a) kinds os)
    (hp : List.Forall₂ (fun p o => ∀ a ∈ o, p a) kinds ps)
    (h : os.filterMap id = ps.filterMap id) : os = ps := by
  induction ho generalizing ps with
  | nil =>
    cases hp
    rfl
  | @cons p o kinds os hpo ho ih =>
    cases hp with
    | @cons _ o' _ ps hpo' hp =>
      obtain ⟨first, rest⟩ := List.pairwise_cons.mp apart
      cases o with
      | none =>
        cases o' with
        | none => rw [ih rest hp h]
        | some a =>
          obtain ⟨q, hq, hqa⟩ := exists_kind ho (a := a) (h ▸ List.mem_cons_self)
          exact absurd hqa (first q hq a (hpo' a rfl))
      | some a =>
        cases o' with
        | none =>
          obtain ⟨q, hq, hqa⟩ := exists_kind hp (a := a) (h ▸ List.mem_cons_self)
          exact absurd hqa (first q hq a (hpo a rfl))
        | some b =>
          obtain ⟨hab, ht⟩ := List.cons.inj h
          rw [show a = b from hab, ih rest hp ht]

@[simp] theorem coded_inj {s t : String} : coded s = coded t ↔ s = t := by
  simp [coded]

/-- Names between backticks are told apart by the first backtick after each. -/
theorem intercalate_coded_inj {ns ms : List String} (hn : ∀ n ∈ ns, '`' ∉ n.toList)
    (hm : ∀ m ∈ ms, '`' ∉ m.toList)
    (h : ", ".intercalate (ns.map coded) = ", ".intercalate (ms.map coded)) : ns = ms := by
  induction ns generalizing ms with
  | nil =>
    cases ms with
    | nil => rfl
    | cons m ms =>
      have hc := congrArg String.toList h
      cases ms <;> simp [coded, String.intercalate_cons_cons] at hc
  | cons n ns ih =>
    cases ms with
    | nil =>
      have hc := congrArg String.toList h
      cases ns <;> simp [coded, String.intercalate_cons_cons] at hc
    | cons m ms =>
      have rest (l : List String) (x : String) :
          (", ".intercalate ((x :: l).map coded)).toList = '`' :: (x.toList ++ '`' ::
            if l = [] then [] else [',', ' '] ++ (", ".intercalate (l.map coded)).toList) := by
        cases l <;> simp [coded, String.intercalate_cons_cons]
      have hc := congrArg String.toList h
      rw [rest, rest] at hc
      obtain ⟨hnm, ht⟩ := append_mark_inj (hn n List.mem_cons_self) (hm m List.mem_cons_self)
        (List.cons.inj hc).2
      have tails : ns = ms := by
        refine ih (fun x hx => hn x (List.mem_cons_of_mem _ hx))
          (fun x hx => hm x (List.mem_cons_of_mem _ hx)) ?_
        by_cases hns : ns = [] <;> by_cases hms : ms = []
        · rw [hns, hms]
        · simp [hns, hms] at ht
        · simp [hns, hms] at ht
        · exact String.toList_inj.mp (by simpa [hns, hms] using ht)
      rw [String.toList_inj.mp hnm, tails]

/-- A cell ends before the bar after it. -/
theorem cell_inj {a b : String} {as bs : List Char} (pad : List Char) (hp : '|' ∉ pad)
    (ha : '|' ∉ a.toList) (hb : '|' ∉ b.toList)
    (h : a.toList ++ (pad ++ '|' :: as) = b.toList ++ (pad ++ '|' :: bs)) : a = b ∧ as = bs := by
  rw [← List.append_assoc, ← List.append_assoc] at h
  obtain ⟨hc, hr⟩ := append_mark_inj (by simp [ha, hp]) (by simp [hb, hp]) h
  exact ⟨String.toList_inj.mp (List.append_cancel_right hc), hr⟩

theorem Row.markdown_inj {r s : Row} (hr : r.Legible) (hs : s.Legible)
    (h : r.markdown = s.markdown) : r = s := by
  have cells (r : Row) : r.markdown.toList = ['|', ' '] ++ (r.position.toList ++ ([' '] ++ '|' ::
      ' ' :: '`' :: (r.name.toList ++ (['`', ' '] ++ '|' :: ' ' :: (r.valueType.toList ++
      ([' '] ++ '|' :: ' ' :: (r.default.toList ++ ([' '] ++ '|' :: ' ' :: (r.dimension.toList ++
      ([' '] ++ '|' :: ' ' :: (r.description.toList ++ [' ', '|']))))))))))) := by
    unfold Row.markdown
    simp [coded]
  have ht := congrArg String.toList h
  rw [cells, cells] at ht
  obtain ⟨hpos, ht⟩ := cell_inj _ (by simp) (hr.unbarred _ (by simp)) (hs.unbarred _ (by simp))
    (List.append_cancel_left ht)
  obtain ⟨hname, ht⟩ := cell_inj _ (by simp) (hr.unbarred _ (by simp)) (hs.unbarred _ (by simp))
    (List.cons.inj (List.cons.inj ht).2).2
  obtain ⟨htype, ht⟩ := cell_inj _ (by simp) (hr.unbarred _ (by simp)) (hs.unbarred _ (by simp))
    (List.cons.inj ht).2
  obtain ⟨hdef, ht⟩ := cell_inj _ (by simp) (hr.unbarred _ (by simp)) (hs.unbarred _ (by simp))
    (List.cons.inj ht).2
  obtain ⟨hdim, ht⟩ := cell_inj _ (by simp) (hr.unbarred _ (by simp)) (hs.unbarred _ (by simp))
    (List.cons.inj ht).2
  have hdesc := String.toList_inj.mp (List.append_cancel_right (List.cons.inj ht).2)
  cases r
  cases s
  simp_all

theorem tableLines_inj {rows rows' : List Row} (h : ∀ r ∈ rows, r.Legible)
    (h' : ∀ r ∈ rows', r.Legible) (ht : tableLines rows = tableLines rows') : rows = rows' := by
  injection ht with _ ht
  injection ht with _ ht
  exact map_inj_of_mem (fun r hr s hs => Row.markdown_inj (h r hr) (h' s hs)) ht

namespace Document

variable {d e : Document}

theorem nameLines_inj (h : d.nameLines = e.nameLines) :
    d.names = e.names ∧ d.pattern = e.pattern := by
  have entry (names : List String) :
      ∀ l ∈ names.map (fun n => "- " ++ coded n), "- r".toList.isPrefixOf l.toList = false := by
    intro l hl
    obtain ⟨n, -, rfl⟩ := List.mem_map.mp hl
    simp [coded, List.isPrefixOf]
  have regex (pattern : Option String) :
      ∀ l ∈ (pattern.map fun p => "- regex: " ++ coded p).toList.head?,
        "- r".toList.isPrefixOf l.toList = true := by
    cases pattern <;> simp
  obtain ⟨hn, hp⟩ := append_inj_of_head (p := fun l => "- r".toList.isPrefixOf l.toList)
    (entry d.names) (entry e.names) (regex d.pattern) (regex e.pattern) h
  refine ⟨map_inj_of_mem (fun n _ m _ hnm => by simpa using hnm) hn, ?_⟩
  cases hd : d.pattern <;> cases he : e.pattern <;> simp [hd, he] at hp ⊢
  exact hp

theorem dependencyLine_inj {label : String} {ns ms : List String}
    (hn : ∀ n ∈ ns, '`' ∉ n.toList) (hm : ∀ m ∈ ms, '`' ∉ m.toList)
    (h : dependencyLine label ns = dependencyLine label ms) : ns = ms := by
  unfold dependencyLine at h
  split at h
  · next hns =>
    split at h
    · next hms => rw [List.isEmpty_iff.mp hns, List.isEmpty_iff.mp hms]
    · cases h
  · split at h
    · cases h
    · injection h with h
      exact intercalate_coded_inj hn hm ((String.append_right_inj _).mp h)

theorem dependencyLines_inj (hd : d.Legible) (he : e.Legible)
    (h : d.dependencyLines = e.dependencyLines) :
    d.requires = e.requires ∧ d.prohibits = e.prohibits := by
  have kinds (d : Document) : List.Forall₂ (fun p o => ∀ a ∈ o, p a)
      [fun s : String => "**R".toList <+: s.toList, fun s => "**P".toList <+: s.toList]
      [dependencyLine "Requires" d.requires, dependencyLine "Prohibits" d.prohibits] := by
    have starts (label : String) (names : List String) :
        ∀ s ∈ dependencyLine label names, ("**" ++ label).toList <+: s.toList := by
      intro s hs
      unfold dependencyLine at hs
      split at hs
      · cases hs
      · obtain rfl := Option.some.inj hs
        exact ⟨(":** " ++ ", ".intercalate (names.map coded)).toList, by simp⟩
    refine .cons (fun s hs => ?_) (.cons (fun s hs => ?_) .nil)
    · exact List.IsPrefix.trans (by simp) (starts _ _ s hs)
    · exact List.IsPrefix.trans (by simp) (starts _ _ s hs)
  have apart : [fun s : String => "**R".toList <+: s.toList,
      fun s => "**P".toList <+: s.toList].Pairwise fun p q => ∀ a, p a → ¬ q a := by
    simp only [List.pairwise_cons, List.mem_singleton, forall_eq, List.Pairwise.nil, and_true,
      List.not_mem_nil, false_implies, implies_true]
    intro a ht hu
    obtain ⟨t, ht⟩ := ht
    obtain ⟨u, hu⟩ := hu
    rw [← ht] at hu
    simp at hu
  have hs := somes_inj apart (kinds d) (kinds e) h
  injection hs with hr hs
  injection hs with hp
  have quoted {d : Document} (hd : d.Legible) (n : String) (hn : n ∈ d.requires ++ d.prohibits) :=
    (hd.dependencies n hn).2
  exact ⟨dependencyLine_inj (fun n hn => quoted hd n (by simp [hn]))
      (fun n hn => quoted he n (by simp [hn])) hr,
    dependencyLine_inj (fun n hn => quoted hd n (by simp [hn]))
      (fun n hn => quoted he n (by simp [hn])) hp⟩

theorem sentence_fixed (noun count : String) :
    (Count.fixed count).sentence noun = "Fixed number of " ++ noun ++ ": " ++ count ++ "." := rfl

theorem sentence_reference (noun item keyword : String) :
    (Count.reference item keyword).sentence noun =
      "Number of " ++ noun ++ " is determined by item " ++ coded item ++ " of keyword " ++
        coded keyword ++ "." := rfl

theorem sentence_ne (noun : String) (c : Count) (n : String) :
    Count.sentence noun c ≠ minimumSentence n := by
  intro h
  have hc := congrArg String.toList h
  unfold minimumSentence at hc
  cases c <;> simp [sentence_fixed, sentence_reference] at hc

theorem sentence_records_ne_tables (c k : Count) :
    Count.sentence "records" c ≠ Count.sentence "tables" k := by
  intro h
  have hc := congrArg String.toList h
  cases c <;> cases k <;> simp [sentence_fixed, sentence_reference] at hc

theorem sentence_inj {noun : String} {c k : Count} (hc : c.Legible) (hk : k.Legible)
    (h : c.sentence noun = k.sentence noun) : c = k := by
  have ht := congrArg String.toList h
  cases c with
  | fixed count =>
    cases k with
    | fixed count' =>
      have hcount : count = count' := by simpa [sentence_fixed, String.toList_inj] using ht
      rw [hcount]
    | reference item keyword => simp [sentence_fixed, sentence_reference] at ht
  | reference item keyword =>
    cases k with
    | fixed count => simp [sentence_fixed, sentence_reference] at ht
    | reference item' keyword' =>
      have hr : item.toList ++ '`' :: (" of keyword `".toList ++ keyword.toList ++ ['`', '.']) =
          item'.toList ++ '`' :: (" of keyword `".toList ++ keyword'.toList ++ ['`', '.']) := by
        simpa [sentence_reference, coded] using ht
      obtain ⟨hi, hw⟩ := append_mark_inj hc.2.2 hk.2.2 hr
      have hkeyword : keyword = keyword' := by simpa [String.toList_inj] using hw
      rw [String.toList_inj.mp hi, hkeyword]

theorem sizingLines_inj (hd : d.Legible) (he : e.Legible) (h : d.sizingLines = e.sizingLines) :
    d.size = e.size ∧ d.minSize = e.minSize ∧ d.numTables = e.numTables := by
  let kinds : List (String → Prop) := [fun s => ∃ c, s = Count.sentence "records" c,
    fun s => ∃ n, s = minimumSentence n, fun s => ∃ c, s = Count.sentence "tables" c]
  have kind (d : Document) : List.Forall₂ (fun p o => ∀ a ∈ o, p a) kinds
      [d.size.map (Count.sentence "records"), d.minSize.map minimumSentence,
        d.numTables.map (Count.sentence "tables")] := by
    refine .cons ?_ (.cons ?_ (.cons ?_ .nil)) <;> intro s hs <;>
      obtain ⟨a, -, rfl⟩ := Option.map_eq_some_iff.mp hs <;> exact ⟨a, rfl⟩
  have apart : kinds.Pairwise fun p q => ∀ a, p a → ¬ q a := by
    simp only [kinds, List.pairwise_cons, List.mem_cons, List.not_mem_nil, or_false,
      forall_eq_or_imp, forall_eq, List.Pairwise.nil, and_true, false_implies, implies_true]
    refine ⟨⟨?_, ?_⟩, ?_⟩
    · intro s hc hn
      obtain ⟨c, rfl⟩ := hc
      obtain ⟨n, hn⟩ := hn
      exact sentence_ne _ c n hn
    · intro s hc hk
      obtain ⟨c, rfl⟩ := hc
      obtain ⟨k, hk⟩ := hk
      exact sentence_records_ne_tables c k hk
    · intro s hn hc
      obtain ⟨n, rfl⟩ := hn
      obtain ⟨c, hc⟩ := hc
      exact sentence_ne _ c n hc.symm
  have hs := somes_inj apart (kind d) (kind e) h
  injection hs with hsize hs
  injection hs with hmin hs
  injection hs with htables
  have minimum (n m : String) (h : minimumSentence n = minimumSentence m) : n = m := by
    unfold minimumSentence at h
    simpa using h
  refine ⟨map_inj_of_some ?_ hsize, map_inj_of_some (fun n _ m _ => minimum n m) hmin,
    map_inj_of_some ?_ htables⟩ <;> intro c hc k hk
  · exact sentence_inj (hd.counts c (by simp [Option.mem_def.mp hc]))
      (he.counts k (by simp [Option.mem_def.mp hk]))
  · exact sentence_inj (hd.counts c (by simp [Option.mem_def.mp hc]))
      (he.counts k (by simp [Option.mem_def.mp hk]))

theorem codeSentence_inj {t u : String} (h : codeSentence t = codeSentence u) : t = u := by
  unfold codeSentence at h
  have he := (String.append_right_inj _).mp h
  by_cases ht : t = ""
  · by_cases hu : u = ""
    · rw [ht, hu]
    · have hc := congrArg String.toList he
      simp [ht, hu] at hc
  · by_cases hu : u = ""
    · have hc := congrArg String.toList he
      simp [ht, hu] at hc
    · simpa [ht, hu] using he

theorem dataLines_inj {n m : DataNote} (h : dataLines n = dataLines m) : n = m := by
  unfold dataLines at h
  obtain ⟨htype, hdim⟩ := List.cons.inj h
  have htype : n.valueType = m.valueType := by simpa using htype
  have hdim : n.dimension = m.dimension := by
    by_cases hn : n.dimension = "" <;> by_cases hm : m.dimension = ""
    · rw [hn, hm]
    · simp [hn, hm] at hdim
    · simp [hn, hm] at hdim
    · simpa [hn, hm] using hdim
  cases n
  cases m
  simp_all

/-- A line of a table, also of its head. -/
def isTableLine (line : String) : Bool := line.toList.head? == some '|'

theorem isTableLine_of_mem {rows : List Row} {l : String} (h : l ∈ tableLines rows) :
    isTableLine l = true := by
  simp only [tableLines, List.mem_cons, List.mem_map] at h
  rcases h with rfl | rfl | ⟨r, -, rfl⟩
  · decide
  · decide
  · unfold Row.markdown
    simp [isTableLine]

theorem recordLines_inj {index : Nat} {rs qs : List (List Row)}
    (hr : ∀ rows ∈ rs, ∀ r ∈ rows, r.Legible) (hq : ∀ rows ∈ qs, ∀ r ∈ rows, r.Legible)
    (h : recordLines index rs = recordLines index qs) : rs = qs := by
  induction rs generalizing index qs with
  | nil =>
    cases qs with
    | nil => rfl
    | cons rows' qs => cases h
  | cons rows rs ih =>
    cases qs with
    | nil => cases h
    | cons rows' qs =>
      have ht : tableLines rows ++ recordLines (index + 1) rs =
          tableLines rows' ++ recordLines (index + 1) qs := by
        simpa [recordLines] using h
      have next (rs : List (List Row)) :
          ∀ l ∈ (recordLines (index + 1) rs).head?, (!isTableLine l) = true := by
        cases rs <;> simp [recordLines, isTableLine]
      obtain ⟨hrows, hrest⟩ := append_inj_of_head (p := fun l => !isTableLine l)
        (fun l hl => by simp [isTableLine_of_mem hl]) (fun l hl => by simp [isTableLine_of_mem hl])
        (next rs) (next qs) ht
      have rows_eq : rows = rows' :=
        tableLines_inj (hr _ List.mem_cons_self) (hq _ List.mem_cons_self) hrows
      have rest_eq : rs = qs := ih (fun x hx => hr x (List.mem_cons_of_mem _ hx))
        (fun x hx => hq x (List.mem_cons_of_mem _ hx)) hrest
      rw [rows_eq, rest_eq]

end Document

end DeckDoc
