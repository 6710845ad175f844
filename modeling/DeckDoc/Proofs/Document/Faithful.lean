import DeckDoc.Proofs.Document.PlainLines

namespace DeckDoc

open Text Block

namespace Document

variable {d e : Document}

/-- A line that may stand below the heading of a section. -/
def IsBodyLine (l : String) : Prop := isHeading l = false ∧ OneLine l

theorem isBodyLine_of_isPlainLine {l : String} (h : IsPlainLine l) : IsBodyLine l := by
  refine ⟨?_, h.2⟩
  have hmark := h.1
  unfold isMarked at hmark
  unfold isHeading
  cases hl : l.toList with
  | nil => rfl
  | cons c cs =>
    have hc : c ≠ '#' := by simpa [hl] using hmark
    simp [List.isPrefixOf, Ne.symm hc]

theorem isBodyLine_blank : IsBodyLine "" := isBodyLine_of_isPlainLine isPlainLine_blank

theorem isBodyLine_of_mem_recordLines {index : Nat} {records : List (List Row)}
    (h : ∀ rows ∈ records, ∀ r ∈ rows, r.OneLined) {l : String}
    (hl : l ∈ recordLines index records) : IsBodyLine l := by
  induction records generalizing index with
  | nil => cases hl
  | cons rows records ih =>
    have number : '\n' ∉ index.repr.toList := oneLine_repr index
    simp only [recordLines, List.cons_append, List.mem_cons, List.mem_append] at hl
    rcases hl with rfl | rfl | rfl | hl | hl
    · exact isBodyLine_blank
    · simp only [IsBodyLine, isHeading, OneLine, String.toList_append]
      simp [List.isPrefixOf, number, -Nat.toList_repr]
    · exact isBodyLine_blank
    · exact isBodyLine_of_isPlainLine (isPlainLine_of_mem_tableLines (h rows List.mem_cons_self) hl)
    · exact ih (fun x hx => h x (List.mem_cons_of_mem _ hx)) hl

theorem mem_ofLines {heading : String} {layout : List String → List String} {ls : List String}
    {b : Block} (h : b ∈ ofLines heading layout ls) : b = ⟨heading, layout ls⟩ := by
  unfold ofLines at h
  split at h
  · cases h
  · exact (Option.some.inj h).symm

theorem isBodyLine_of_mem_blocks (hd : d.OneLined) {b : Block} (hb : b ∈ d.blocks) {l : String}
    (hl : l ∈ b.body) : IsBodyLine l := by
  obtain ⟨o, ho, hob⟩ := List.mem_filterMap.mp hb
  obtain rfl : o = some b := hob
  have blank {ls : List String} (h : ∀ l ∈ ls, IsBodyLine l) : ∀ l ∈ "" :: ls, IsBodyLine l :=
    fun l hl => (List.mem_cons.mp hl).elim (fun he => he ▸ isBodyLine_blank) (h l)
  have plain {ls : List String} (h : ∀ l ∈ ls, IsPlainLine l) : ∀ l ∈ "" :: ls, IsBodyLine l :=
    blank fun l hl => isBodyLine_of_isPlainLine (h l hl)
  simp only [blockOptions, List.mem_cons, List.not_mem_nil, or_false] at ho
  rcases ho with ho | ho | ho | ho | ho | ho | ho | ho | ho | ho
  · rw [mem_ofLines ho.symm] at hl
    exact plain (fun l => isPlainLine_of_mem_nameLines hd) l hl
  · rw [mem_ofLines ho.symm] at hl
    exact plain (fun l => isPlainLine_of_mem_sectionLines hd) l hl
  · rw [mem_ofLines ho.symm] at hl
    exact isBodyLine_of_isPlainLine
      (isPlainLine_of_mem_paragraphs (fun s => isPlainLine_of_mem_dependencyLines hd) hl)
  · rw [mem_ofLines ho.symm] at hl
    exact isBodyLine_of_isPlainLine
      (isPlainLine_of_mem_paragraphs (fun s => isPlainLine_of_mem_sizingLines hd) hl)
  · obtain ⟨t, ht, rfl⟩ := Option.map_eq_some_iff.mp ho.symm
    refine plain (fun l hl => ?_) l hl
    exact List.mem_singleton.mp hl ▸ isPlainLine_codeSentence (hd.code t ht)
  · obtain ⟨rows, hr, rfl⟩ := Option.map_eq_some_iff.mp ho.symm
    exact plain (fun l => isPlainLine_of_mem_tableLines (hd.items rows hr)) l hl
  · obtain ⟨n, hn, rfl⟩ := Option.map_eq_some_iff.mp ho.symm
    exact plain (fun l => isPlainLine_of_mem_dataLines (hd.data n hn)) l hl
  · obtain ⟨rs, hr, rfl⟩ := Option.map_eq_some_iff.mp ho.symm
    exact isBodyLine_of_mem_recordLines (hd.records rs hr) hl
  · obtain ⟨rs, hr, rfl⟩ := Option.map_eq_some_iff.mp ho.symm
    refine blank (fun l hl => ?_) l hl
    rcases List.mem_cons.mp hl with rfl | hl
    · exact ⟨by decide, by unfold OneLine; decide⟩
    · exact isBodyLine_of_mem_recordLines (hd.recordsSet rs hr) hl
  · obtain ⟨rs, hr, rfl⟩ := Option.map_eq_some_iff.mp ho.symm
    refine blank (fun l hl => ?_) l hl
    rcases List.mem_cons.mp hl with rfl | hl
    · exact ⟨by decide, by unfold OneLine; decide⟩
    · exact isBodyLine_of_mem_recordLines (hd.alternatingRecords rs hr) hl

def headings : List String :=
  ["Alternative Names", "Sections", "Dependencies", "Sizing", "Syntax", "Items", "Data", "Records",
    "Records Set", "Alternating Records"]

/-- Every section has a heading of its own. -/
theorem heading_of_mem_blockOptions (d : Document) :
    List.Forall₂ (fun p o => ∀ b ∈ o, p b) (headings.map fun h (b : Block) => b.heading = h)
      d.blockOptions := by
  have lines {heading : String} {layout : List String → List String} {ls : List String} :
      ∀ b ∈ ofLines heading layout ls, b.heading = heading :=
    fun b hb => by rw [mem_ofLines hb]
  have mapped {α : Type} {heading : String} {body : α → List String} {a : Option α} :
      ∀ b ∈ a.map (fun a => (⟨heading, body a⟩ : Block)), b.heading = heading := by
    intro b hb
    obtain ⟨a, -, rfl⟩ := Option.map_eq_some_iff.mp hb
    rfl
  exact .cons lines (.cons lines (.cons lines (.cons lines (.cons mapped (.cons mapped
    (.cons mapped (.cons mapped (.cons mapped (.cons mapped .nil)))))))))

theorem blockOptions_inj (h : d.blocks = e.blocks) : d.blockOptions = e.blockOptions := by
  refine somes_inj ?_ (heading_of_mem_blockOptions d) (heading_of_mem_blockOptions e) h
  rw [List.pairwise_map]
  have apart : headings.Pairwise (· ≠ ·) := by decide
  exact apart.imp fun hne (b : Block) (hb : b.heading = _) (hb' : b.heading = _) =>
    hne (hb.symm.trans hb')

theorem isHeading_of_mem_head (bs : List Block) :
    ∀ l ∈ (bs.flatMap fun b => b.lines ++ [""]).head?, isHeading l = true := by
  cases bs with
  | nil => simp
  | cons b bs => simp [Block.lines, isHeading]

theorem isHeading_of_mem_append_blank {ls : List String} (h : ∀ l ∈ ls, isHeading l = false) :
    ∀ l ∈ ls ++ [""], isHeading l = false := by
  intro l hl
  rcases List.mem_append.mp hl with hl | hl
  · exact h l hl
  · exact List.mem_singleton.mp hl ▸ isBodyLine_blank.1

/-- Sections are told apart by their headings. -/
theorem sections_inj {bs cs : List Block} (hb : ∀ b ∈ bs, ∀ l ∈ b.body, IsBodyLine l)
    (hc : ∀ c ∈ cs, ∀ l ∈ c.body, IsBodyLine l)
    (h : (bs.flatMap fun b => b.lines ++ [""]) = cs.flatMap fun c => c.lines ++ [""]) :
    bs = cs := by
  induction bs generalizing cs with
  | nil =>
    cases cs with
    | nil => rfl
    | cons c cs => cases h
  | cons b bs ih =>
    cases cs with
    | nil => cases h
    | cons c cs =>
      obtain ⟨hhead, ht⟩ := List.cons.inj h
      obtain ⟨hbody, hrest⟩ := append_inj_of_head
        (isHeading_of_mem_append_blank fun l hl => (hb b List.mem_cons_self l hl).1)
        (isHeading_of_mem_append_blank fun l hl => (hc c List.mem_cons_self l hl).1)
        (isHeading_of_mem_head bs) (isHeading_of_mem_head cs) ht
      have first : b = c := by
        cases b
        cases c
        simp_all
      have others : bs = cs := ih (fun x hx => hb x (List.mem_cons_of_mem _ hx))
        (fun x hx => hc x (List.mem_cons_of_mem _ hx)) hrest
      rw [first, others]

theorem heading_mem_headings {b : Block} (hb : b ∈ d.blocks) : b.heading ∈ headings := by
  obtain ⟨p, hp, hpb⟩ := exists_kind (heading_of_mem_blockOptions d) hb
  obtain ⟨h, hh, rfl⟩ := List.mem_map.mp hp
  exact hpb ▸ hh

theorem oneLine_of_mem_lines (hd : d.OneLined) {l : String} (hl : l ∈ d.lines) : OneLine l := by
  simp only [lines, List.cons_append, List.mem_cons, List.mem_append, List.mem_flatMap,
    Block.lines, List.not_mem_nil, or_false] at hl
  rcases hl with rfl | rfl | hl | rfl | ⟨b, hb, rfl | hl | rfl⟩
  · have h : '\n' ∉ d.title.toList := hd.title
    simp [OneLine, h]
  · exact isBodyLine_blank.2
  · exact notMem_of_mem_lines hl
  · exact isBodyLine_blank.2
  · have all : ∀ h ∈ headings, '\n' ∉ h.toList := by decide
    have h : '\n' ∉ b.heading.toList := all _ (heading_mem_headings hb)
    simp [OneLine, h]
  · exact (isBodyLine_of_mem_blocks hd hb hl).2
  · exact isBodyLine_blank.2

theorem lines_inj (hd : d.Legible) (he : e.Legible) (h : d.lines = e.lines) :
    d.title = e.title ∧ d.summary = e.summary ∧ d.blockOptions = e.blockOptions := by
  obtain ⟨s, rest, hs⟩ := List.exists_cons_of_ne_nil (lines_ne_nil d.summary)
  obtain ⟨s', rest', hs'⟩ := List.exists_cons_of_ne_nil (lines_ne_nil e.summary)
  have hr := hd.summary
  have hr' := he.summary
  rw [hs, List.tail_cons] at hr
  rw [hs', List.tail_cons] at hr'
  have cut : (rest ++ [""]) ++ (d.blocks.flatMap fun b => b.lines ++ [""]) =
      (rest' ++ [""]) ++ (e.blocks.flatMap fun b => b.lines ++ [""]) ∧ s = s' ∧
      d.title = e.title := by
    simp only [lines, hs, hs', List.cons_append, List.cons.injEq, String.append_right_inj] at h
    exact ⟨by simpa using h.2.2.2, h.2.2.1, h.1⟩
  obtain ⟨hrest, hblocks⟩ := append_inj_of_head (isHeading_of_mem_append_blank hr)
    (isHeading_of_mem_append_blank hr')
    (isHeading_of_mem_head d.blocks) (isHeading_of_mem_head e.blocks) cut.1
  refine ⟨cut.2.2, lines_injective ?_, blockOptions_inj (sections_inj
    (fun b hb l => isBodyLine_of_mem_blocks hd.oneLined hb)
    (fun b hb l => isBodyLine_of_mem_blocks he.oneLined hb)
    hblocks)⟩
  rw [hs, hs', cut.2.1, List.append_cancel_right hrest]

/-- Legible documents with the same notes and the same text are the same. -/
theorem markdown_injective (hd : d.Legible) (he : e.Legible) (hnotes : d.notes = e.notes)
    (h : d.markdown = e.markdown) : d = e := by
  have hlines : d.lines = e.lines := by
    rw [markdown_eq, markdown_eq, notesPart, notesPart, hnotes] at h
    exact unlines_injective (fun l => oneLine_of_mem_lines hd.oneLined)
      (fun l => oneLine_of_mem_lines he.oneLined)
      ((String.append_left_inj _).mp ((String.append_left_inj _).mp h))
  obtain ⟨htitle, hsummary, hblocks⟩ := lines_inj hd he hlines
  simp only [blockOptions, List.cons.injEq, and_true] at hblocks
  obtain ⟨hnames, hsections, hdependencies, hsizing, hcode, hitems, hdata, hrecords, hset,
    halternating⟩ := hblocks
  have spaced (ls ms : List String) (h : "" :: ls = "" :: ms) : ls = ms := (List.cons.inj h).2
  obtain ⟨hnames, hpattern⟩ := nameLines_inj (ofLines_injective spaced hnames)
  have hsections : d.sections = e.sections :=
    map_inj_of_mem (fun s _ t _ hst => by simpa using hst) (ofLines_injective spaced hsections)
  obtain ⟨hrequires, hprohibits⟩ := dependencyLines_inj hd he
    (ofLines_injective (fun ls ms => paragraphs_injective) hdependencies)
  obtain ⟨hsize, hmin, htables⟩ := sizingLines_inj hd he
    (ofLines_injective (fun ls ms => paragraphs_injective) hsizing)
  have first {heading l l' : String} {ls ms : List String}
      (h : (⟨heading, "" :: l :: ls⟩ : Block) = ⟨heading, "" :: l' :: ms⟩) : l = l' ∧ ls = ms :=
    List.cons.inj (List.cons.inj (Block.mk.inj h).2).2
  have hcode : d.code = e.code :=
    map_inj_of_some (fun t _ u _ h => codeSentence_inj (first h).1) hcode
  have hitems : d.items = e.items := map_inj_of_some (fun rows hr rows' hr' h =>
    tableLines_inj (hd.items rows hr) (he.items rows' hr')
      (List.cons.inj (Block.mk.inj h).2).2) hitems
  have hdata : d.data = e.data := map_inj_of_some (fun n _ m _ h =>
    dataLines_inj (List.cons.inj (Block.mk.inj h).2).2) hdata
  have hrecords : d.records = e.records := map_inj_of_some (fun rs hr qs hq h =>
    recordLines_inj (hd.records rs hr) (he.records qs hq) (Block.mk.inj h).2) hrecords
  have hset : d.recordsSet = e.recordsSet := map_inj_of_some (fun rs hr qs hq h =>
    recordLines_inj (hd.recordsSet rs hr) (he.recordsSet qs hq) (first h).2) hset
  have halternating : d.alternatingRecords = e.alternatingRecords :=
    map_inj_of_some (fun rs hr qs hq h => recordLines_inj (hd.alternatingRecords rs hr)
      (he.alternatingRecords qs hq) (first h).2) halternating
  cases d
  cases e
  simp_all

end Document

namespace Keyword

/-- Keywords that show the same have one document between them, and a document tells what it shows
as long as no text in it can be taken for its layout. -/
theorem markdown_determines_document (config : Config) (k l : Keyword) :
    (Document.ofKeyword config k = Document.ofKeyword config l →
      k.markdown config = l.markdown config) ∧
    ((Document.ofKeyword config k).Legible → (Document.ofKeyword config l).Legible →
      k.markdown config = l.markdown config →
      Document.ofKeyword config k = Document.ofKeyword config l) := by
  refine ⟨fun h => ?_, fun hk hl h => ?_⟩
  · rw [markdown, markdown, h]
  · exact Document.markdown_injective hk hl rfl h

theorem markdown_determines_document_of_items :
    let k : Keyword :=
      { name := some "PART", deckName := some "PART", requires := some ["NODE", "ELEMENT"],
        size := some (.fixed (.text "2")), code := some {},
        items := some (some [{ item := some (.text "7"), name := some "ID" }, {}]) }
    let l : Keyword :=
      { k with deckName := none, deckNames := some ["PART"] }
    let m : Keyword :=
      { k with size := some (.reference { keyword := some "2" }) }
    k.markdown {} = l.markdown {} ∧ k.markdown {} ≠ m.markdown {} := by
  intro k l m
  have hk : (Document.ofKeyword {} k).Legible := by constructor <;> decide +kernel
  have hm : (Document.ofKeyword {} m).Legible := by constructor <;> decide +kernel
  exact ⟨(markdown_determines_document {} k l).1 rfl, fun h =>
    absurd ((markdown_determines_document {} k m).2 hk hm h) (by decide +kernel)⟩

end Keyword

end DeckDoc
