import DeckDoc.Proofs.Document.Faithful

namespace DeckDoc

open Text Block

/-! The strings of a description, and the texts that its literals are displayed as. -/

def Item.strings (i : Item) : List String :=
  [i.name, i.valueType, i.description, i.comment].filterMap id ++
    [i.item, i.default, i.defaultValue, i.dimension, i.dimensions].filterMap
      (·.map Literal.display)

def Sizing.strings : Sizing → List String
  | fixed count => [count.display]
  | reference source => source.keyword.toList ++ (source.item.map Literal.display).toList

def DataSpec.strings (d : DataSpec) : List String :=
  d.valueType.toList ++ [d.dimension, d.dimensions].filterMap (·.map Literal.display)

def Config.strings (c : Config) : List String :=
  [c.placeholders.name, c.placeholders.description, c.placeholders.notes]

def Keyword.strings (k : Keyword) : List String :=
  [k.name, k.description, k.comment, k.deckName, k.deckNameRegex].filterMap id ++
    [k.deckNames, k.sections, k.requires, k.prohibits].flatMap (·.getD []) ++
    (k.size.toList ++ k.numTables.toList).flatMap Sizing.strings ++
    (k.minSize.map Literal.display).toList ++ (k.code.bind CodeBlock.terminator).toList ++
    k.data.toList.flatMap DataSpec.strings ++ (k.itemList.getD []).flatMap Item.strings ++
    [k.recordList, k.recordsSetList, k.alternatingRecordList].flatMap fun records =>
      (records.getD []).flatten.flatMap Item.strings

namespace Document

/-- The heading of a section if the section is there. -/
def headingIf (present : Prop) [Decidable present] (title : String) : List String :=
  if present then ["## " ++ title] else []

def recordHeading (number : Nat) : String := "### Record " ++ number.repr

/-- The heading of a section of records if the section is there, and one for each record. -/
def recordHeadings (title : String) : Option Nat → List String
  | none => []
  | some count => ("## " ++ title) :: (List.range' 1 count).map recordHeading

end Document

namespace Keyword

open Document

/-- How many records a list has that is there; `null` has none. -/
def recordCount (records : Option (Option (List Record))) : Option Nat :=
  records.map fun list => (list.getD []).length

/-- The headings that a keyword is documented under. -/
def outline (config : Config) (k : Keyword) : List String :=
  ["# " ++ k.name.getD config.placeholders.name] ++
    headingIf (k.deckName.isSome ∨ k.deckNameRegex.isSome ∨ k.deckNames.getD [] ≠ [])
      "Alternative Names" ++
    headingIf (k.sections.getD [] ≠ []) "Sections" ++
    headingIf (k.requires.getD [] ≠ [] ∨ k.prohibits.getD [] ≠ []) "Dependencies" ++
    headingIf (k.size.isSome ∨ k.minSize.isSome ∨ k.numTables.isSome) "Sizing" ++
    headingIf k.code.isSome "Syntax" ++
    headingIf k.items.isSome "Items" ++
    headingIf k.data.isSome "Data" ++
    recordHeadings "Records" (recordCount k.records) ++
    recordHeadings "Records Set" (recordCount k.recordsSet) ++
    recordHeadings "Alternating Records" (recordCount k.alternatingRecords) ++
    ["## Notes"]

end Keyword

namespace Block

open Document (headingIf)

/-- The headings in a section, its own and those below it. -/
def outline (b : Block) : List String := b.lines.filter isMarked

theorem filter_isMarked_of_plain {ls : List String} (h : ∀ l ∈ ls, IsPlainLine l) :
    ls.filter isMarked = [] :=
  List.filter_eq_nil_iff.mpr fun l hl => by simp [(h l hl).1]

theorem outline_eq (b : Block) : b.outline = ("## " ++ b.heading) :: b.body.filter isMarked := by
  have hmark : isMarked ("## " ++ b.heading) = true := by simp [isMarked]
  rw [outline, lines, List.filter_cons_of_pos hmark]

theorem outline_of_plain {title : String} {body : List String} (h : ∀ l ∈ body, IsPlainLine l) :
    outline ⟨title, body⟩ = ["## " ++ title] := by
  rw [outline_eq, filter_isMarked_of_plain h]

theorem outline_ofLines {title : String} {layout : List String → List String} {ls : List String}
    (h : ∀ l ∈ layout ls, IsPlainLine l) :
    (ofLines title layout ls).toList.flatMap outline = headingIf (ls ≠ []) title := by
  cases ls with
  | nil => rfl
  | cons l ls =>
    change outline ⟨title, layout (l :: ls)⟩ ++ [] = _
    rw [outline_of_plain h]
    rfl

theorem outline_map {α : Type} {title : String} {body : α → List String} {a : Option α}
    (h : ∀ x ∈ a, ∀ l ∈ body x, IsPlainLine l) :
    (a.map fun x => (⟨title, body x⟩ : Block)).toList.flatMap outline =
      headingIf a.isSome title := by
  cases a with
  | none => rfl
  | some x =>
    change outline ⟨title, body x⟩ ++ [] = _
    rw [outline_of_plain (h x rfl)]
    rfl

theorem flatMap_somes {α β : Type} (f : α → List β) (os : List (Option α)) :
    (os.filterMap id).flatMap f = os.flatMap fun o => o.toList.flatMap f := by
  induction os with
  | nil => rfl
  | cons o os ih =>
    cases o with
    | none => exact ih
    | some a => simpa using ih

end Block

namespace Document

variable {d : Document}

/-- Of the lines of records only the numbered ones are headings. -/
theorem filter_isMarked_recordLines {index : Nat} {records : List (List Row)}
    (h : ∀ rows ∈ records, ∀ r ∈ rows, r.OneLined) :
    (recordLines index records).filter isMarked =
      (List.range' index records.length).map recordHeading := by
  induction records generalizing index with
  | nil => rfl
  | cons rows records ih =>
    have hblank : ¬ isMarked "" = true := by simp [isPlainLine_blank.1]
    have hmark : isMarked (recordHeading index) = true := by
      simp [isMarked, recordHeading, -Nat.toList_repr]
    have htable : (tableLines rows).filter isMarked = [] :=
      filter_isMarked_of_plain fun l => isPlainLine_of_mem_tableLines (h rows List.mem_cons_self)
    have hrest := @ih (index + 1) fun x hx => h x (List.mem_cons_of_mem _ hx)
    change ("" :: recordHeading index :: "" :: (tableLines rows ++
      recordLines (index + 1) records)).filter isMarked = _
    rw [List.filter_cons_of_neg hblank, List.filter_cons_of_pos hmark,
      List.filter_cons_of_neg hblank, List.filter_append, htable, hrest]
    rfl

theorem outline_recordBlock {title : String} {intro : List String}
    (hintro : ∀ l ∈ intro, IsPlainLine l) {records : Option (List (List Row))}
    (h : ∀ rs ∈ records, ∀ rows ∈ rs, ∀ r ∈ rows, r.OneLined) :
    (records.map fun rs => (⟨title, intro ++ recordLines 1 rs⟩ : Block)).toList.flatMap outline =
      recordHeadings title (records.map List.length) := by
  cases records with
  | none => rfl
  | some rs =>
    change outline ⟨title, intro ++ recordLines 1 rs⟩ ++ [] = _
    rw [outline_eq, List.filter_append, filter_isMarked_of_plain hintro,
      filter_isMarked_recordLines (h rs rfl), List.append_nil]
    rfl

theorem nameLines_ne_nil : d.nameLines ≠ [] ↔ d.names ≠ [] ∨ d.pattern.isSome := by
  cases hp : d.pattern <;> simp [nameLines, hp]

theorem dependencyLines_ne_nil : d.dependencyLines ≠ [] ↔ d.requires ≠ [] ∨ d.prohibits ≠ [] := by
  by_cases hr : d.requires = [] <;> by_cases hp : d.prohibits = [] <;>
    simp [dependencyLines, dependencyLine, hr, hp]

theorem sizingLines_ne_nil :
    d.sizingLines ≠ [] ↔ d.size.isSome ∨ d.minSize.isSome ∨ d.numTables.isSome := by
  cases hs : d.size <;> cases hm : d.minSize <;> cases ht : d.numTables <;>
    simp [sizingLines, hs, hm, ht]

theorem headingIf_congr {p q : Prop} [Decidable p] [Decidable q] (h : p ↔ q) (title : String) :
    headingIf p title = headingIf q title := by
  unfold headingIf
  split <;> split <;> simp_all

/-- The headings between the summary and the notes. -/
theorem outline_blocks (hd : d.OneLined) : d.blocks.flatMap outline =
    headingIf (d.names ≠ [] ∨ d.pattern.isSome) "Alternative Names" ++
      headingIf (d.sections ≠ []) "Sections" ++
      headingIf (d.requires ≠ [] ∨ d.prohibits ≠ []) "Dependencies" ++
      headingIf (d.size.isSome ∨ d.minSize.isSome ∨ d.numTables.isSome) "Sizing" ++
      headingIf d.code.isSome "Syntax" ++ headingIf d.items.isSome "Items" ++
      headingIf d.data.isSome "Data" ++ recordHeadings "Records" (d.records.map List.length) ++
      recordHeadings "Records Set" (d.recordsSet.map List.length) ++
      recordHeadings "Alternating Records" (d.alternatingRecords.map List.length) := by
  have spaced {ls : List String} (h : ∀ l ∈ ls, IsPlainLine l) : ∀ l ∈ "" :: ls, IsPlainLine l :=
    List.forall_mem_cons.mpr ⟨isPlainLine_blank, h⟩
  have names : d.namesBlock.toList.flatMap outline =
      headingIf (d.names ≠ [] ∨ d.pattern.isSome) "Alternative Names" := by
    rw [namesBlock, outline_ofLines (spaced fun l => isPlainLine_of_mem_nameLines hd)]
    exact headingIf_congr nameLines_ne_nil _
  have sections : d.sectionsBlock.toList.flatMap outline =
      headingIf (d.sections ≠ []) "Sections" := by
    rw [sectionsBlock, outline_ofLines (spaced fun l => isPlainLine_of_mem_sectionLines hd)]
    exact headingIf_congr (by simp) _
  have dependencies : d.dependenciesBlock.toList.flatMap outline =
      headingIf (d.requires ≠ [] ∨ d.prohibits ≠ []) "Dependencies" := by
    rw [dependenciesBlock, outline_ofLines fun l => isPlainLine_of_mem_paragraphs fun s =>
      isPlainLine_of_mem_dependencyLines hd]
    exact headingIf_congr dependencyLines_ne_nil _
  have sizing : d.sizingBlock.toList.flatMap outline =
      headingIf (d.size.isSome ∨ d.minSize.isSome ∨ d.numTables.isSome) "Sizing" := by
    rw [sizingBlock, outline_ofLines fun l => isPlainLine_of_mem_paragraphs fun s =>
      isPlainLine_of_mem_sizingLines hd]
    exact headingIf_congr sizingLines_ne_nil _
  have code : d.codeBlock.toList.flatMap outline = headingIf d.code.isSome "Syntax" :=
    outline_map fun t ht => spaced (List.forall_mem_singleton.mpr
      (isPlainLine_codeSentence (hd.code t ht)))
  have items : d.itemsBlock.toList.flatMap outline = headingIf d.items.isSome "Items" :=
    outline_map fun rows hr => spaced fun l => isPlainLine_of_mem_tableLines (hd.items rows hr)
  have data : d.dataBlock.toList.flatMap outline = headingIf d.data.isSome "Data" :=
    outline_map fun n hn => spaced fun l => isPlainLine_of_mem_dataLines (hd.data n hn)
  have records : d.recordsBlock.toList.flatMap outline =
      recordHeadings "Records" (d.records.map List.length) :=
    outline_recordBlock (List.forall_mem_nil _) hd.records
  have opening : ∀ s, IsPlainLine s → ∀ l ∈ ["", s], IsPlainLine l := fun s hs =>
    spaced (List.forall_mem_singleton.mpr hs)
  have set : d.recordsSetBlock.toList.flatMap outline =
      recordHeadings "Records Set" (d.recordsSet.map List.length) :=
    outline_recordBlock (opening _ ⟨by decide, by unfold OneLine; decide⟩) hd.recordsSet
  have alternating : d.alternatingRecordsBlock.toList.flatMap outline =
      recordHeadings "Alternating Records" (d.alternatingRecords.map List.length) :=
    outline_recordBlock (opening _ ⟨by decide, by unfold OneLine; decide⟩) hd.alternatingRecords
  rw [blocks, flatMap_somes, blockOptions]
  simp only [List.flatMap_cons, List.flatMap_nil, List.append_nil, names, sections, dependencies,
    sizing, code, items, data, records, set, alternating, List.append_assoc]

theorem lines_of_oneLine {s : String} (h : OneLine s) : Text.lines s = [s] := by
  rw [Text.lines, parts_of_notMem h, List.map_singleton, String.ofList_toList]

theorem filter_isMarked_lines (hs : IsPlainLine d.summary) :
    d.lines.filter isMarked = ("# " ++ d.title) :: d.blocks.flatMap outline := by
  have htitle : isMarked ("# " ++ d.title) = true := by simp [isMarked]
  have hblank : isMarked "" = false := isPlainLine_blank.1
  have hblock (b : Block) : (b.lines ++ [""]).filter isMarked = b.outline := by
    rw [List.filter_append, filter_isMarked_of_plain
      (List.forall_mem_singleton.mpr isPlainLine_blank), List.append_nil, outline]
  rw [lines, lines_of_oneLine hs.2]
  simp only [List.cons_append, List.nil_append, List.filter_cons, htitle, hblank, hs.1, if_true,
    Bool.false_eq_true, if_false, List.filter_flatMap, hblock]

/-- The notes stand below the other parts, and nothing follows the last line break. -/
theorem lines_markdown (hd : d.OneLined) (hn : OneLine d.notes) :
    Text.lines d.markdown = d.lines ++ ["## Notes", "", "*" ++ d.notes ++ "*", ""] := by
  have hnotes : ∀ l ∈ ["## Notes", "", "*" ++ d.notes ++ "*"], OneLine l := by
    have h : '\n' ∉ d.notes.toList := hn
    simp [OneLine, h]
  have hall : ∀ l ∈ d.lines ++ ["## Notes", "", "*" ++ d.notes ++ "*"], '\n' ∉ l.toList :=
    List.forall_mem_append.mpr ⟨fun l => oneLine_of_mem_lines hd, hnotes⟩
  have hmarkdown : d.markdown =
      unlines (d.lines ++ ["## Notes", "", "*" ++ d.notes ++ "*"]) := by
    rw [markdown_eq, notesPart, unlines_append]
    apply String.toList_inj.mp
    simp
  rw [hmarkdown, lines_unlines hall, List.append_assoc]
  rfl

theorem filter_isMarked_markdown (hd : d.OneLined) (hs : IsPlainLine d.summary)
    (hn : OneLine d.notes) : (Text.lines d.markdown).filter isMarked =
      ("# " ++ d.title) :: d.blocks.flatMap outline ++ ["## Notes"] := by
  have hmark : isMarked "## Notes" = true := by decide
  have hblank : isMarked "" = false := isPlainLine_blank.1
  have hnotes : isMarked ("*" ++ d.notes ++ "*") = false := by simp [isMarked]
  rw [lines_markdown hd hn, List.filter_append, filter_isMarked_lines hs]
  simp only [List.filter_cons, List.filter_nil, hmark, hblank, hnotes, if_true, Bool.false_eq_true,
    if_false]

end Document

/-! A description without line breaks is shown without line breaks. -/

theorem oneLine_getD {s : Option String} (h : ∀ t ∈ s, OneLine t) : OneLine (s.getD "") := by
  cases s with
  | none => simp [OneLine]
  | some t => exact h t rfl

theorem oneLine_displayed {l : Option Literal} (h : ∀ x ∈ l, OneLine x.display) :
    OneLine (displayed l) := by
  refine oneLine_getD fun t ht => ?_
  obtain ⟨x, hx, rfl⟩ := Option.map_eq_some_iff.mp ht
  exact h x hx

theorem mem_orElse {α : Type} {a b : Option α} {x : α} (h : x ∈ (a <|> b)) : x ∈ a ∨ x ∈ b := by
  cases a with
  | none => exact .inr h
  | some y => exact .inl h

theorem Item.oneLined_row {i : Item} (h : ∀ s ∈ i.strings, OneLine s) (index : Nat) :
    (i.row index).OneLined := by
  have text {s : Option String} (hs : s ∈ [i.name, i.valueType, i.description, i.comment]) :
      ∀ t ∈ s, OneLine t := fun t ht =>
    h t (List.mem_append_left _ (List.mem_filterMap.mpr ⟨s, hs, ht⟩))
  have literal {l : Option Literal}
      (hl : l ∈ [i.item, i.default, i.defaultValue, i.dimension, i.dimensions]) :
      ∀ x ∈ l, OneLine x.display := fun x hx =>
    h _ (List.mem_append_right _ (List.mem_filterMap.mpr ⟨l, hl, Option.map_eq_some_iff.mpr
      ⟨x, hx, rfl⟩⟩))
  have position : OneLine (i.position index) := by
    unfold Item.position
    split
    · next l hl => exact literal (by simp) l hl
    · exact oneLine_repr index
  have default : OneLine (displayed i.shownDefault) := oneLine_displayed fun x hx =>
    (mem_orElse hx).elim (literal (by simp) x) (literal (by simp) x)
  have dimension : OneLine (displayed i.shownDimension) := oneLine_displayed fun x hx =>
    (mem_orElse hx).elim (literal (by simp) x) (literal (by simp) x)
  have description : OneLine (i.shownDescription.getD "") := oneLine_getD fun t ht =>
    (mem_orElse ht).elim (fun ht => text (by simp) t (Option.filter_eq_some_iff.mp ht).1)
      (text (by simp) t)
  have name : OneLine (i.name.getD "") := oneLine_getD (text (by simp))
  have valueType : OneLine (i.valueType.getD "") := oneLine_getD (text (by simp))
  simp [Row.OneLined, Item.row, position, name, valueType, default, dimension, description]

theorem Row.oneLined_of_mem_ofItems {items : List Item}
    (h : ∀ i ∈ items, ∀ s ∈ i.strings, OneLine s) {index : Nat} {r : Row}
    (hr : r ∈ Row.ofItems index items) : r.OneLined := by
  induction items generalizing index with
  | nil => cases hr
  | cons i items ih =>
    rcases List.mem_cons.mp hr with rfl | hr
    · exact i.oneLined_row (h i List.mem_cons_self) index
    · exact ih (fun j hj => h j (List.mem_cons_of_mem _ hj)) hr

theorem Sizing.oneLined_count {s : Sizing} (h : ∀ t ∈ s.strings, OneLine t) :
    s.count.OneLined := by
  cases s with
  | fixed l => exact h _ (List.mem_singleton.mpr rfl)
  | reference r =>
    refine ⟨oneLine_displayed fun x hx => h _ (List.mem_append_right _ ?_),
      oneLine_getD fun t ht => h t (List.mem_append_left _ (Option.mem_toList.mpr ht))⟩
    exact Option.mem_toList.mpr (Option.map_eq_some_iff.mpr ⟨x, hx, rfl⟩)

theorem DataSpec.oneLined_note {d : DataSpec} (h : ∀ s ∈ d.strings, OneLine s) :
    OneLine d.note.valueType ∧ OneLine d.note.dimension := by
  have literal {l : Option Literal} (hl : l ∈ [d.dimension, d.dimensions]) :
      ∀ x ∈ l, OneLine x.display := fun x hx =>
    h _ (List.mem_append_right _ (List.mem_filterMap.mpr ⟨l, hl, Option.map_eq_some_iff.mpr
      ⟨x, hx, rfl⟩⟩))
  refine ⟨oneLine_getD fun t ht => h t (List.mem_append_left _ (Option.mem_toList.mpr ht)),
    oneLine_displayed fun x hx => ?_⟩
  exact (mem_orElse hx).elim (literal (by simp) x) (literal (by simp) x)

namespace Keyword

variable {config : Config} {k : Keyword}

theorem oneLined_ofKeyword (h : ∀ s ∈ k.strings, OneLine s)
    (hname : OneLine config.placeholders.name) : (Document.ofKeyword config k).OneLined := by
  simp only [strings, List.forall_mem_append] at h
  obtain ⟨⟨⟨⟨⟨⟨⟨texts, lists⟩, sizings⟩, minimum⟩, terminator⟩, data⟩, items⟩, records⟩ := h
  have text {s : Option String}
      (hs : s ∈ [k.name, k.description, k.comment, k.deckName, k.deckNameRegex]) :
      ∀ t ∈ s, OneLine t := fun t ht => texts t (List.mem_filterMap.mpr ⟨s, hs, ht⟩)
  have list {ss : Option (List String)}
      (hs : ss ∈ [k.deckNames, k.sections, k.requires, k.prohibits]) :
      ∀ t ∈ ss.getD [], OneLine t := fun t ht => lists t (List.mem_flatMap.mpr ⟨ss, hs, ht⟩)
  have recordRows {list : Option (List Record)}
      (hl : list ∈ [k.recordList, k.recordsSetList, k.alternatingRecordList]) :
      ∀ rs ∈ list.map fun rs => rs.map (Row.ofItems 1), ∀ rows ∈ rs, ∀ r ∈ rows, r.OneLined := by
    intro rs hrs rows hrows r hr
    obtain ⟨rs, rfl, rfl⟩ := Option.map_eq_some_iff.mp hrs
    obtain ⟨record, hrecord, rfl⟩ := List.mem_map.mp hrows
    refine Row.oneLined_of_mem_ofItems (fun i hi s hs => ?_) hr
    exact records s (List.mem_flatMap.mpr ⟨_, hl, List.mem_flatMap.mpr
      ⟨i, List.mem_flatten.mpr ⟨record, hrecord, hi⟩, hs⟩⟩)
  constructor
  case title =>
    intro hm
    cases hk : k.name with
    | none => exact hname (by simpa [Document.ofKeyword, hk] using hm)
    | some name =>
      exact @text k.name (by simp) name hk (by simpa [Document.ofKeyword, hk] using hm)
  case names =>
    refine List.forall_mem_append.mpr ⟨fun n hn => ?_, @list k.deckNames (by simp)⟩
    exact @text k.deckName (by simp) n (Option.mem_toList.mp hn)
  case pattern => exact @text k.deckNameRegex (by simp)
  case sections => exact @list k.sections (by simp)
  case dependencies =>
    exact List.forall_mem_append.mpr ⟨@list k.requires (by simp), @list k.prohibits (by simp)⟩
  case counts =>
    have count {s : Option Sizing} (hs : ∀ x ∈ s, x ∈ k.size.toList ++ k.numTables.toList) :
        ∀ c ∈ (s.map Sizing.count).toList, c.OneLined := by
      intro c hc
      obtain ⟨x, hx, rfl⟩ := Option.map_eq_some_iff.mp (Option.mem_toList.mp hc)
      exact x.oneLined_count fun t ht => sizings t (List.mem_flatMap.mpr ⟨x, hs x hx, ht⟩)
    exact List.forall_mem_append.mpr ⟨count fun x hx => by simp [Option.mem_def.mp hx],
      count fun x hx => by simp [Option.mem_def.mp hx]⟩
  case minSize => exact fun n hn => minimum n (Option.mem_toList.mpr hn)
  case code =>
    intro t ht
    obtain ⟨b, hb, rfl⟩ := Option.map_eq_some_iff.mp ht
    exact oneLine_getD fun t ht => terminator t (by simp [hb, Option.mem_def.mp ht])
  case items =>
    intro rows hrows r hr
    obtain ⟨is, his, rfl⟩ := Option.map_eq_some_iff.mp hrows
    refine Row.oneLined_of_mem_ofItems (fun i hi s hs => items s ?_) hr
    exact List.mem_flatMap.mpr ⟨i, by simpa [his] using hi, hs⟩
  case data =>
    intro n hn
    obtain ⟨d, hd, rfl⟩ := Option.map_eq_some_iff.mp hn
    have shown (s : String) (hs : s ∈ d.strings) : OneLine s :=
      data s (List.mem_flatMap.mpr ⟨d, Option.mem_toList.mpr hd, hs⟩)
    exact d.oneLined_note shown
  case records => exact recordRows (by simp)
  case recordsSet => exact recordRows (by simp)
  case alternatingRecords => exact recordRows (by simp)

/-- A comment or a placeholder is shown after an asterisk. -/
theorem isPlainLine_summary (h : ∀ s ∈ k.strings, OneLine s)
    (hp : OneLine config.placeholders.description)
    (hd : ∀ s ∈ k.description, isMarked s = false) :
    IsPlainLine (k.summary config.placeholders) := by
  have emphasised {s : String} (hs : OneLine s) : IsPlainLine ("*" ++ s ++ "*") := by
    have h : '\n' ∉ s.toList := hs
    simp [IsPlainLine, isMarked, OneLine, h]
  have text {s : Option String} (hs : s ∈ [k.name, k.description, k.comment]) :
      ∀ t ∈ nonEmpty s, t ∈ s ∧ OneLine t := by
    intro t ht
    have hst := (Option.filter_eq_some_iff.mp ht).1
    refine ⟨hst, h t ?_⟩
    simp only [strings, List.mem_append, List.mem_filterMap, or_assoc]
    simp only [List.mem_cons, List.not_mem_nil, or_false] at hs
    exact .inl ⟨s, by rcases hs with rfl | rfl | rfl <;> simp, hst⟩
  unfold summary
  split
  · next hk =>
    cases hs : nonEmpty k.description with
    | none => simp [summaryKind, hs] at hk; split at hk <;> cases hk
    | some s =>
      obtain ⟨hmem, hone⟩ := text (by simp) s hs
      exact ⟨hd s hmem, hone⟩
  · exact emphasised (oneLine_getD fun t ht => (text (by simp) t ht).2)
  · exact emphasised hp

/-- The lines of a document that begin with a hash mark are its headings, if no text in it has a
line break and the description does not begin with such a mark. -/
theorem outline_markdown (config : Config) (k : Keyword)
    (hc : ∀ s ∈ config.strings, OneLine s) (hk : ∀ s ∈ k.strings, OneLine s)
    (hd : ∀ s ∈ k.description, isMarked s = false) :
    (Text.lines (k.markdown config)).filter isMarked = k.outline config := by
  obtain ⟨hname, hdescription, hnotes⟩ : OneLine config.placeholders.name ∧
      OneLine config.placeholders.description ∧ OneLine config.placeholders.notes := by
    simpa [Config.strings] using hc
  have hone := oneLined_ofKeyword hk hname
  have hsummary := isPlainLine_summary hk hdescription hd
  have names : (Document.ofKeyword config k).names ≠ [] ∨
      (Document.ofKeyword config k).pattern.isSome ↔
        k.deckName.isSome ∨ k.deckNameRegex.isSome ∨ k.deckNames.getD [] ≠ [] := by
    change k.deckName.toList ++ k.deckNames.getD [] ≠ [] ∨ k.deckNameRegex.isSome ↔ _
    cases k.deckName <;> simp [or_comm]
  have counts (records : Option (Option (List Record))) :
      ((listed records).map fun rs => rs.map (Row.ofItems 1)).map List.length =
        recordCount records := by
    cases records <;> simp [listed, recordCount]
  have records : (Document.ofKeyword config k).records.map List.length = recordCount k.records :=
    counts _
  have set : (Document.ofKeyword config k).recordsSet.map List.length = recordCount k.recordsSet :=
    counts _
  have alternating : (Document.ofKeyword config k).alternatingRecords.map List.length =
      recordCount k.alternatingRecords := counts _
  rw [markdown, Document.filter_isMarked_markdown hone hsummary hnotes,
    Document.outline_blocks hone, records, set, alternating, Document.headingIf_congr names]
  simp [outline, Document.ofKeyword, itemList, listed, required, prohibited]

theorem outline_markdown_of_records :
    let k : Keyword :=
      { name := some "PART", comment := some "#", deckNames := some [], requires := some ["NODE"],
        minSize := some (.list [.text "#"]), items := some none, data := some {},
        records := some (some [[], [{ name := some "ID" }]]), alternatingRecords := some none }
    (Text.lines (k.markdown {})).filter isMarked =
      ["# PART", "## Dependencies", "## Sizing", "## Items", "## Data", "## Records",
        "### Record 1", "### Record 2", "## Alternating Records", "## Notes"] := by
  intro k
  rw [outline_markdown {} k (by decide +kernel) (by decide +kernel) (by decide)]
  decide +kernel

end Keyword

end DeckDoc
