import DeckDoc.Document.Markdown
import DeckDoc.Proofs.Text.Lines

namespace DeckDoc

/-- A section of a document: its heading and the lines below. -/
structure Block where
  heading : String
  body : List String

namespace Block

def lines (b : Block) : List String := ("## " ++ b.heading) :: b.body

def text (b : Block) : String := "\n".intercalate b.lines

/-- Lines that follow another one. -/
def below (ls : List String) : String := String.join (ls.map ("\n" ++ ·))

@[simp] theorem below_nil : below [] = "" := rfl

@[simp] theorem below_cons (l : String) (ls : List String) :
    below (l :: ls) = "\n" ++ l ++ below ls := by
  apply String.toList_inj.mp
  simp [below]

@[simp] theorem below_append (ls ms : List String) : below (ls ++ ms) = below ls ++ below ms := by
  apply String.toList_inj.mp
  simp [below]

theorem intercalate_cons (l : String) (ls : List String) :
    "\n".intercalate (l :: ls) = l ++ below ls := by
  induction ls generalizing l with
  | nil => simp
  | cons m ls ih => simp only [String.intercalate_cons_cons, ih, below_cons, String.append_assoc]

theorem text_eq (b : Block) : b.text = "## " ++ b.heading ++ below b.body :=
  intercalate_cons _ _

theorem below_of_ne_nil {ls : List String} (h : ls ≠ []) :
    below ls = "\n" ++ "\n".intercalate ls := by
  cases ls with
  | nil => exact absurd rfl h
  | cons l ls => rw [intercalate_cons, below_cons, String.append_assoc]

theorem text_spaced (heading : String) {ls : List String} (h : ls ≠ []) :
    text ⟨heading, "" :: ls⟩ = "## " ++ heading ++ "\n\n" ++ "\n".intercalate ls := by
  apply String.toList_inj.mp
  simp [text_eq, below_of_ne_nil h]

/-- Whether a line is the heading of a section. -/
def isHeading (line : String) : Bool := "## ".toList.isPrefixOf line.toList

/-- Paragraphs, each after a blank line. -/
def paragraphs (ss : List String) : List String := ss.flatMap fun s => ["", s]

theorem paragraphs_somes (o : Option String) (os : List (Option String)) :
    paragraphs ((o :: os).filterMap id) =
      paragraphs o.toList ++ paragraphs (os.filterMap id) := by
  cases o <;> simp [paragraphs]

theorem paragraphs_injective {ss ts : List String} (h : paragraphs ss = paragraphs ts) :
    ss = ts := by
  induction ss generalizing ts with
  | nil =>
    cases ts with
    | nil => rfl
    | cons t ts => simp [paragraphs] at h
  | cons s ss ih =>
    cases ts with
    | nil => simp [paragraphs] at h
    | cons t ts =>
      have hc : s = t ∧ paragraphs ss = paragraphs ts := by simpa [paragraphs] using h
      rw [hc.1, ih hc.2]

/-- A section that is there if it has anything to list. -/
def ofLines (heading : String) (layout : List String → List String) (ls : List String) :
    Option Block :=
  if ls.isEmpty then none else some ⟨heading, layout ls⟩

theorem ofLines_injective {heading : String} {layout : List String → List String}
    (hl : ∀ ls ms, layout ls = layout ms → ls = ms) {ls ms : List String}
    (h : ofLines heading layout ls = ofLines heading layout ms) : ls = ms := by
  unfold ofLines at h
  split at h
  · next hls =>
    split at h
    · next hms => rw [List.isEmpty_iff.mp hls, List.isEmpty_iff.mp hms]
    · cases h
  · split at h
    · cases h
    · injection h with h
      injection h with _ h
      exact hl ls ms h

end Block

namespace Document

open Block

def nameLines (d : Document) : List String :=
  d.names.map (fun n => "- " ++ coded n) ++ (d.pattern.map fun p => "- regex: " ++ coded p).toList

def namesBlock (d : Document) : Option Block :=
  ofLines "Alternative Names" ("" :: ·) d.nameLines

def sectionsBlock (d : Document) : Option Block :=
  ofLines "Sections" ("" :: ·) (d.sections.map ("- " ++ ·))

def dependencyLine (label : String) (names : List String) : Option String :=
  if names.isEmpty then none
  else some ("**" ++ label ++ ":** " ++ ", ".intercalate (names.map coded))

def dependencyLines (d : Document) : List String :=
  [dependencyLine "Requires" d.requires, dependencyLine "Prohibits" d.prohibits].filterMap id

def dependenciesBlock (d : Document) : Option Block :=
  ofLines "Dependencies" paragraphs d.dependencyLines

def minimumSentence (n : String) : String := "Minimum number of records: " ++ n ++ "."

def sizingLines (d : Document) : List String :=
  [d.size.map (Count.sentence "records"), d.minSize.map minimumSentence,
    d.numTables.map (Count.sentence "tables")].filterMap id

def sizingBlock (d : Document) : Option Block := ofLines "Sizing" paragraphs d.sizingLines

def codeSentence (terminator : String) : String :=
  "This keyword introduces a free-form code block" ++
    (if terminator = "" then "." else " terminated by " ++ coded terminator ++ ".")

def codeBlock (d : Document) : Option Block :=
  d.code.map fun terminator => ⟨"Syntax", ["", codeSentence terminator]⟩

def itemsBlock (d : Document) : Option Block :=
  d.items.map fun rows => ⟨"Items", "" :: tableLines rows⟩

def dataLines (note : DataNote) : List String :=
  ("This is a *data* keyword containing a flat array of " ++ coded note.valueType ++ " values.") ::
    (if note.dimension = "" then [] else ["Dimension: " ++ note.dimension ++ "."])

def dataBlock (d : Document) : Option Block :=
  d.data.map fun note => ⟨"Data", "" :: dataLines note⟩

/-- The headings and tables of records that are numbered from `index`. -/
def recordLines (index : Nat) : List (List Row) → List String
  | [] => []
  | rows :: records =>
    "" :: ("### Record " ++ index.repr) :: "" :: tableLines rows ++ recordLines (index + 1) records

def recordsBlock (d : Document) : Option Block :=
  d.records.map fun records => ⟨"Records", recordLines 1 records⟩

def recordsSetBlock (d : Document) : Option Block :=
  d.recordsSet.map fun records => ⟨"Records Set",
    "" :: "This keyword uses a *records set* format with the following record types:" ::
      recordLines 1 records⟩

def alternatingRecordsBlock (d : Document) : Option Block :=
  d.alternatingRecords.map fun records => ⟨"Alternating Records",
    "" :: "This keyword uses alternating records with the following layouts:" ::
      recordLines 1 records⟩

/-- The sections that may stand between the summary and the notes, in their order. -/
def blockOptions (d : Document) : List (Option Block) :=
  [d.namesBlock, d.sectionsBlock, d.dependenciesBlock, d.sizingBlock, d.codeBlock, d.itemsBlock,
    d.dataBlock, d.recordsBlock, d.recordsSetBlock, d.alternatingRecordsBlock]

def blocks (d : Document) : List Block := d.blockOptions.filterMap id

/-- The lines of a document up to the notes, a blank one after each part. -/
def lines (d : Document) : List String :=
  ("# " ++ d.title) :: "" :: Text.lines d.summary ++ "" ::
    d.blocks.flatMap fun b => b.lines ++ [""]

/-! The parts are the texts of the blocks. -/

theorem namesPart_eq (d : Document) : d.namesPart = d.namesBlock.map text := by
  change (if d.nameLines.isEmpty then none
    else some ("## Alternative Names\n\n" ++ "\n".intercalate d.nameLines)) = _
  rw [namesBlock, ofLines]
  split
  · rfl
  · next h => simp [text_spaced _ (by simpa using h)]

theorem sectionsPart_eq (d : Document) : d.sectionsPart = d.sectionsBlock.map text := by
  rw [sectionsPart, sectionsBlock, ofLines, List.isEmpty_map]
  split
  · rfl
  · next h => simp [text_spaced _ (show d.sections.map ("- " ++ ·) ≠ [] by simpa using h)]

theorem dependencies_eq (label : String) (names : List String) :
    dependencies label names = below (paragraphs (dependencyLine label names).toList) := by
  rw [dependencies, dependencyLine]
  split
  · rfl
  · apply String.toList_inj.mp
    simp [paragraphs]

theorem dependenciesPart_eq (d : Document) :
    d.dependenciesPart = d.dependenciesBlock.map text := by
  have he : d.dependencyLines.isEmpty = (d.requires.isEmpty && d.prohibits.isEmpty) := by
    simp only [dependencyLines, dependencyLine]
    cases d.requires.isEmpty <;> cases d.prohibits.isEmpty <;> rfl
  rw [dependenciesPart, dependenciesBlock, ofLines, he]
  split
  · rfl
  · simp only [Option.map_some, text_eq, dependencies_eq, dependencyLines, paragraphs_somes,
      below_append]
    apply congrArg
    apply String.toList_inj.mp
    simp [paragraphs]

theorem paragraph_eq {α : Type} (sentence : α → String) (a : Option α) :
    paragraph sentence a = below (paragraphs (a.map sentence).toList) := by
  cases a with
  | none => rfl
  | some a =>
    apply String.toList_inj.mp
    simp [paragraph, paragraphs]

theorem sizingPart_eq (d : Document) : d.sizingPart = d.sizingBlock.map text := by
  have he : d.sizingLines.isEmpty = (d.size.isNone && d.minSize.isNone && d.numTables.isNone) := by
    rw [sizingLines]
    cases d.size <;> cases d.minSize <;> cases d.numTables <;> rfl
  rw [sizingPart, sizingBlock, ofLines, he]
  split
  · rfl
  · change some ("## Sizing" ++ paragraph (Count.sentence "records") d.size ++
      paragraph minimumSentence d.minSize ++ paragraph (Count.sentence "tables") d.numTables) = _
    simp only [Option.map_some, text_eq, paragraph_eq, sizingLines, paragraphs_somes, below_append]
    apply congrArg
    apply String.toList_inj.mp
    simp [paragraphs]

theorem codePart_eq (d : Document) : d.codePart = d.codeBlock.map text := by
  rw [codePart, codeBlock]
  cases d.code with
  | none => rfl
  | some terminator =>
    simp only [Option.map_some, text_eq, below_cons, below_nil]
    unfold codeSentence
    apply congrArg
    apply String.toList_inj.mp
    simp

theorem itemsPart_eq (d : Document) : d.itemsPart = d.itemsBlock.map text := by
  rw [itemsPart, itemsBlock]
  cases d.items with
  | none => rfl
  | some rows =>
    simp [text_spaced _ (show tableLines rows ≠ [] by simp [tableLines]), tableMarkdown]

theorem dataPart_eq (d : Document) : d.dataPart = d.dataBlock.map text := by
  rw [dataPart, dataBlock]
  cases d.data with
  | none => rfl
  | some note =>
    simp only [Option.map_some, text_eq, dataLines, below_cons]
    apply congrArg
    apply String.toList_inj.mp
    split <;> simp

theorem recordTables_eq (index : Nat) (records : List (List Row)) :
    recordTables index records = below (recordLines index records) := by
  induction records generalizing index with
  | nil => rfl
  | cons rows records ih =>
    change "\n\n### Record " ++ index.repr ++ "\n\n" ++ tableMarkdown rows ++
      recordTables (index + 1) records = _
    have hne : tableLines rows ≠ [] := List.cons_ne_nil _ _
    simp only [recordLines, ih, List.cons_append, below_cons, below_append, below_of_ne_nil hne,
      tableMarkdown]
    apply String.toList_inj.mp
    simp

theorem recordsPart_eq (d : Document) : d.recordsPart = d.recordsBlock.map text := by
  rw [recordsPart, recordsBlock]
  cases d.records <;> simp [text_eq, recordTables_eq]

theorem recordsSetPart_eq (d : Document) : d.recordsSetPart = d.recordsSetBlock.map text := by
  rw [recordsSetPart, recordsSetBlock]
  cases d.recordsSet with
  | none => rfl
  | some records =>
    apply congrArg some
    apply String.toList_inj.mp
    simp [text_eq, recordTables_eq]

theorem alternatingRecordsPart_eq (d : Document) :
    d.alternatingRecordsPart = d.alternatingRecordsBlock.map text := by
  rw [alternatingRecordsPart, alternatingRecordsBlock]
  cases d.alternatingRecords with
  | none => rfl
  | some records =>
    apply congrArg some
    apply String.toList_inj.mp
    simp [text_eq, recordTables_eq]

theorem parts_eq (d : Document) :
    d.parts = d.titlePart :: d.summary :: d.blocks.map text ++ [d.notesPart] := by
  have h : d.parts = [some d.titlePart, some d.summary].filterMap id ++
      (d.blockOptions.map (Option.map text)).filterMap id ++ [some d.notesPart].filterMap id := by
    rw [← List.filterMap_append, ← List.filterMap_append]
    simp only [parts, blockOptions, namesPart_eq, sectionsPart_eq, dependenciesPart_eq,
      sizingPart_eq, codePart_eq, itemsPart_eq, dataPart_eq, recordsPart_eq, recordsSetPart_eq,
      alternatingRecordsPart_eq]
    rfl
  rw [h, blocks, List.filterMap_map, List.map_filterMap]
  rfl

theorem join_blocks (bs : List Block) :
    String.join ((bs.map text).map (· ++ "\n\n")) =
      Text.unlines (bs.flatMap fun b => b.lines ++ [""]) := by
  induction bs with
  | nil => rfl
  | cons b bs ih =>
    have ht : b.text ++ "\n" = Text.unlines b.lines :=
      Text.intercalate_append_break (List.cons_ne_nil _ _)
    rw [List.flatMap_cons, Text.unlines_append, Text.unlines_append, ← ht, ← ih]
    apply String.toList_inj.mp
    simp

theorem join_parts (d : Document) :
    String.join (d.parts.map (· ++ "\n\n")) = Text.unlines d.lines ++ d.notesPart ++ "\n\n" := by
  have hs : d.summary ++ "\n" = Text.unlines (Text.lines d.summary) := by
    rw [← Text.intercalate_append_break (Text.lines_ne_nil d.summary), Text.intercalate_lines]
  rw [parts_eq, lines, Text.unlines_append, Text.unlines_cons, Text.unlines_cons,
    Text.unlines_cons, ← join_blocks, ← hs]
  apply String.toList_inj.mp
  simp [titlePart]

/-- Of the white space at the end only what was put after the last part is removed. -/
theorem markdown_eq (d : Document) : d.markdown = Text.unlines d.lines ++ d.notesPart ++ "\n" := by
  have hs : Text.unlines d.lines ++ d.notesPart =
      Text.unlines d.lines ++ ("## Notes\n\n*" ++ d.notes) ++ String.singleton '*' := by
    apply String.toList_inj.mp
    simp [notesPart]
  have hblank : ∀ c ∈ "\n\n".toList, Text.isBlank c = true := List.all_eq_true.mp (by decide)
  rw [markdown, join_parts, Text.trimEnd_append_blank _ _ hblank, hs,
    Text.trimEnd_append_singleton _ _ (by decide)]

end Document

end DeckDoc
