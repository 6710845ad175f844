import DeckDoc.Proofs.Document.Legible

namespace DeckDoc

open Text Block

def Row.OneLined (r : Row) : Prop :=
  ∀ s ∈ [r.position, r.name, r.valueType, r.default, r.dimension, r.description], OneLine s

def Count.OneLined : Count → Prop
  | fixed count => OneLine count
  | reference item keyword => OneLine item ∧ OneLine keyword

/-- No text in the document has a line break, the summary and the notes apart. -/
structure Document.OneLined (d : Document) : Prop where
  title : OneLine d.title
  names : ∀ n ∈ d.names, OneLine n
  pattern : ∀ p ∈ d.pattern, OneLine p
  sections : ∀ s ∈ d.sections, OneLine s
  dependencies : ∀ n ∈ d.requires ++ d.prohibits, OneLine n
  counts : ∀ c ∈ d.size.toList ++ d.numTables.toList, c.OneLined
  minSize : ∀ n ∈ d.minSize, OneLine n
  code : ∀ t ∈ d.code, OneLine t
  items : ∀ rows ∈ d.items, ∀ r ∈ rows, r.OneLined
  data : ∀ n ∈ d.data, OneLine n.valueType ∧ OneLine n.dimension
  records : ∀ records ∈ d.records, ∀ rows ∈ records, ∀ r ∈ rows, r.OneLined
  recordsSet : ∀ records ∈ d.recordsSet, ∀ rows ∈ records, ∀ r ∈ rows, r.OneLined
  alternatingRecords : ∀ records ∈ d.alternatingRecords, ∀ rows ∈ records, ∀ r ∈ rows, r.OneLined

theorem Count.Legible.oneLined {c : Count} (h : c.Legible) : c.OneLined := by
  cases c with
  | fixed count => exact h
  | reference item keyword => exact ⟨h.1, h.2.1⟩

theorem Document.Legible.oneLined {d : Document} (h : d.Legible) : d.OneLined where
  title := h.title
  names := h.names
  pattern := h.pattern
  sections := h.sections
  dependencies n hn := (h.dependencies n hn).1
  counts c hc := (h.counts c hc).oneLined
  minSize := h.minSize
  code := h.code
  items rows hrows r hr := (h.items rows hrows r hr).oneLine
  data := h.data
  records rs hrs rows hrows r hr := (h.records rs hrs rows hrows r hr).oneLine
  recordsSet rs hrs rows hrows r hr := (h.recordsSet rs hrs rows hrows r hr).oneLine
  alternatingRecords rs hrs rows hrows r hr := (h.alternatingRecords rs hrs rows hrows r hr).oneLine

theorem oneLine_repr (n : Nat) : OneLine n.repr := by
  intro hm
  rw [Nat.toList_repr] at hm
  exact absurd (Nat.isDigit_of_mem_toDigits (by decide) (by decide) hm) (by decide)

/-- Whether a line begins like a heading of some level. -/
def Block.isMarked (line : String) : Bool := line.toList.head? == some '#'

/-- A line that is no heading. -/
def Block.IsPlainLine (l : String) : Prop := isMarked l = false ∧ OneLine l

namespace Document

variable {d : Document} {l : String}

theorem isPlainLine_blank : IsPlainLine "" := ⟨by decide, by unfold OneLine; decide⟩

theorem isPlainLine_of_mem_paragraphs {ss : List String} (h : ∀ s ∈ ss, IsPlainLine s)
    (hl : l ∈ paragraphs ss) : IsPlainLine l := by
  obtain ⟨s, hs, hl⟩ := List.mem_flatMap.mp hl
  rcases List.mem_cons.mp hl with rfl | hl
  · exact isPlainLine_blank
  · exact List.mem_singleton.mp hl ▸ h s hs

theorem isPlainLine_of_mem_nameLines (hd : d.OneLined) (hl : l ∈ d.nameLines) :
    IsPlainLine l := by
  rcases List.mem_append.mp hl with hl | hl
  · obtain ⟨n, hn, rfl⟩ := List.mem_map.mp hl
    have := hd.names n hn
    simpa [IsPlainLine, isMarked, OneLine, coded] using this
  · obtain ⟨p, hp, rfl⟩ : ∃ p ∈ d.pattern, "- regex: " ++ coded p = l := by simpa using hl
    have := hd.pattern p hp
    simpa [IsPlainLine, isMarked, OneLine, coded] using this

theorem isPlainLine_of_mem_sectionLines (hd : d.OneLined) (hl : l ∈ d.sections.map ("- " ++ ·)) :
    IsPlainLine l := by
  obtain ⟨s, hs, rfl⟩ := List.mem_map.mp hl
  have h : '\n' ∉ s.toList := hd.sections s hs
  simp [IsPlainLine, isMarked, OneLine, h]

theorem oneLine_intercalate_coded {names : List String} (h : ∀ n ∈ names, OneLine n) :
    OneLine (", ".intercalate (names.map coded)) := by
  induction names with
  | nil => simp [OneLine]
  | cons n names ih =>
    have hn : '\n' ∉ n.toList := h n List.mem_cons_self
    have ih := ih fun m hm => h m (List.mem_cons_of_mem _ hm)
    cases names with
    | nil => simpa [OneLine, coded] using hn
    | cons m names =>
      simp only [OneLine, List.map_cons, String.intercalate_cons_cons, String.toList_append,
        List.mem_append, not_or] at ih ⊢
      exact ⟨⟨by simpa [coded] using hn, by simp⟩, ih⟩

theorem isPlainLine_dependencyLine {label : String} (hl : OneLine label) {names : List String}
    (hn : ∀ n ∈ names, OneLine n) : ∀ l ∈ dependencyLine label names, IsPlainLine l := by
  intro l h
  unfold dependencyLine at h
  split at h
  · cases h
  · obtain rfl := Option.some.inj h
    have hi := oneLine_intercalate_coded hn
    simp only [OneLine] at hl hi
    simp [IsPlainLine, isMarked, OneLine, hl, hi, -String.toList_intercalate]

theorem isPlainLine_of_mem_dependencyLines (hd : d.OneLined) (hl : l ∈ d.dependencyLines) :
    IsPlainLine l := by
  obtain ⟨o, ho, rfl⟩ := List.mem_filterMap.mp hl
  rcases List.mem_cons.mp ho with ho | ho
  · exact isPlainLine_dependencyLine (by simp [OneLine])
      (fun n hn => hd.dependencies n (by simp [hn])) l ho.symm
  · exact isPlainLine_dependencyLine (by simp [OneLine])
      (fun n hn => hd.dependencies n (by simp [hn])) l (List.mem_singleton.mp ho).symm

theorem isPlainLine_sentence {noun : String} (hn : OneLine noun) {c : Count} (hc : c.OneLined) :
    IsPlainLine (c.sentence noun) := by
  cases c with
  | fixed count =>
    have h : '\n' ∉ count.toList := hc
    simp_all [IsPlainLine, isMarked, OneLine, sentence_fixed]
  | reference item keyword =>
    obtain ⟨hi, hk⟩ := hc
    simp_all [IsPlainLine, isMarked, OneLine, sentence_reference, coded]

theorem isPlainLine_of_mem_tableLines {rows : List Row} (h : ∀ r ∈ rows, r.OneLined)
    (hl : l ∈ tableLines rows) : IsPlainLine l := by
  simp only [tableLines, List.mem_cons, List.mem_map] at hl
  rcases hl with rfl | rfl | ⟨r, hr, rfl⟩
  · exact ⟨by decide, by unfold OneLine; decide⟩
  · exact ⟨by decide, by unfold OneLine; decide⟩
  · have := h r hr
    unfold Row.OneLined at this
    unfold Row.markdown
    simp_all [IsPlainLine, isMarked, OneLine, coded]

theorem isPlainLine_of_mem_sizingLines (hd : d.OneLined) (hl : l ∈ d.sizingLines) :
    IsPlainLine l := by
  obtain ⟨o, ho, rfl⟩ := List.mem_filterMap.mp hl
  simp only [List.mem_cons, List.not_mem_nil, or_false] at ho
  rcases ho with ho | ho | ho <;> obtain ⟨a, ha, rfl⟩ := Option.map_eq_some_iff.mp ho.symm
  · exact isPlainLine_sentence (by simp [OneLine]) (hd.counts a (by simp [ha]))
  · have h : '\n' ∉ a.toList := hd.minSize a ha
    unfold minimumSentence
    simp [IsPlainLine, isMarked, OneLine, h]
  · exact isPlainLine_sentence (by simp [OneLine]) (hd.counts a (by simp [ha]))

theorem isPlainLine_codeSentence {t : String} (ht : OneLine t) : IsPlainLine (codeSentence t) := by
  have h : '\n' ∉ t.toList := ht
  unfold codeSentence
  split <;> simp [IsPlainLine, isMarked, OneLine, coded, h]

theorem isPlainLine_of_mem_dataLines {n : DataNote} (hn : OneLine n.valueType ∧ OneLine n.dimension)
    (hl : l ∈ dataLines n) : IsPlainLine l := by
  obtain ⟨ht, hd⟩ := hn
  simp only [OneLine] at ht hd
  unfold dataLines at hl
  rcases List.mem_cons.mp hl with rfl | hl
  · simp [IsPlainLine, isMarked, OneLine, coded, ht]
  · split at hl
    · cases hl
    · obtain rfl := List.mem_singleton.mp hl
      simp [IsPlainLine, isMarked, OneLine, hd]

end Document

end DeckDoc
