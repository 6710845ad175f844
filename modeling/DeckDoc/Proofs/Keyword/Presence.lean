import DeckDoc.Proofs.Document.Faithful
import DeckDoc.Proofs.Json.Present
import DeckDoc.Proofs.Keyword.RoundTrip

namespace DeckDoc

open Json

namespace Document

variable {d : Document}

theorem mem_map_heading_iff {titles : List String} {os : List (Option Block)}
    (h : List.Forall₂ (fun title o => ∀ b ∈ o, b.heading = title) titles os) (title : String) :
    title ∈ (os.filterMap id).map Block.heading ↔
      ∃ o, (title, o) ∈ titles.zip os ∧ o.isSome = true := by
  induction h with
  | nil => simp
  | @cons t o titles os ho _ ih =>
    have head : title ∈ (o.toList).map Block.heading ↔ title = t ∧ o.isSome = true := by
      cases o with
      | none => simp
      | some b => simp [ho b rfl]
    have split : ((o :: os).filterMap id).map Block.heading =
        o.toList.map Block.heading ++ (os.filterMap id).map Block.heading := by
      cases o <;> rfl
    rw [split, List.mem_append, head, ih]
    simp [or_and_right, exists_or]

/-- A section is among those of a document if and only if it is there as the section of its
heading. -/
theorem mem_headings_iff (title : String) : title ∈ d.blocks.map Block.heading ↔
    ∃ o, (title, o) ∈ headings.zip d.blockOptions ∧ o.isSome = true :=
  mem_map_heading_iff (List.forall₂_map_left_iff.mp (heading_of_mem_blockOptions d)) title

theorem isSome_sizingBlock (d : Document) : d.sizingBlock.isSome =
    (d.size.isSome || d.minSize.isSome || d.numTables.isSome) := by
  obtain ⟨_, _, _, _, _, _, _, size, minSize, numTables⟩ := d
  cases size <;> cases minSize <;> cases numTables <;> rfl

end Document

/-- What an item is read from. -/
def Item.ReadFrom (T : Tree) (i : Item) : Prop := ∃ room, Item.reader room T = .ok i

/-- What the items of a record are read from, in their order. -/
def Record.ReadFrom (T : Tree) (r : Record) : Prop :=
  ∃ ts, T.trees? = some ts ∧ List.Forall₂ Item.ReadFrom ts r

theorem Record.readFrom_of_read (room : Nat) (T : Tree) (r : Record)
    (h : Item.reader.list room T = .ok r) : Record.ReadFrom T r := by
  obtain ⟨n, ts, -, hts, hall⟩ := Reader.list_eq_ok_iff.mp h
  exact ⟨ts, hts, hall.imp fun _ _ hi => ⟨n, hi⟩⟩

namespace Keyword

/-- Whether a field is there; of the lists of items and records the accessors tell. -/
def has (k : Keyword) : Key → Bool
  | .name => k.name.isSome
  | .description => k.description.isSome
  | .comment => k.comment.isSome
  | .deckName => k.deckName.isSome
  | .deckNames => k.deckNames.isSome
  | .deckNameRegex => k.deckNameRegex.isSome
  | .sections => k.sections.isSome
  | .requires => k.requires.isSome
  | .prohibits => k.prohibits.isSome
  | .size => k.size.isSome
  | .minSize => k.minSize.isSome
  | .numTables => k.numTables.isSome
  | .code => k.code.isSome
  | .items => k.itemList.isSome
  | .data => k.data.isSome
  | .records => k.recordList.isSome
  | .recordsSet => k.recordsSetList.isSome
  | .alternatingRecords => k.alternatingRecordList.isSome

/-- The members of a document give a key: with anything for a list of items or records, with
something else than `null` for all other keys. -/
def Key.Given (key : Key) (ms : List (String × Tree)) : Prop :=
  ∃ T, (key.label, T) ∈ ms ∧ (key.isListing = true ∨ T.isNull = false)

/-- The sections that are there if one of their keys is. -/
def sectionKeys : List (String × List Key) :=
  [("Sizing", [.size, .minSize, .numTables]), ("Syntax", [.code]), ("Items", [.items]),
    ("Data", [.data]), ("Records", [.records]), ("Records Set", [.recordsSet]),
    ("Alternating Records", [.alternatingRecords])]

/-- What is there of a keyword is what the members of its document give: field by field, list by
list, in what the keyword is written as, and in the sections that document it. -/
structure Mirrors (k : Keyword) (ms : List (String × Tree)) : Prop where
  has_iff (key : Key) : k.has key = true ↔ key.Given ms
  items (T : Tree) : (Key.items.label, T) ∈ ms →
    ∃ is, k.itemList = some is ∧ T.Lists Item.ReadFrom is
  records (T : Tree) : (Key.records.label, T) ∈ ms →
    ∃ rs, k.recordList = some rs ∧ T.Lists Record.ReadFrom rs
  recordsSet (T : Tree) : (Key.recordsSet.label, T) ∈ ms →
    ∃ rs, k.recordsSetList = some rs ∧ T.Lists Record.ReadFrom rs
  alternatingRecords (T : Tree) : (Key.alternatingRecords.label, T) ∈ ms →
    ∃ rs, k.alternatingRecordList = some rs ∧ T.Lists Record.ReadFrom rs
  written : ∃ vs, k.toValue = .object vs ∧ ∀ key : Key, key.isListing = true →
    (key.label ∈ vs.map Prod.fst ↔ key.label ∈ ms.map Prod.fst)
  parts (config : Config) : let d := Document.ofKeyword config k
    d.parts = d.titlePart :: d.summary :: d.blocks.map Block.text ++ [d.notesPart]
  sections (config : Config) : ∀ s ∈ sectionKeys,
    s.1 ∈ (Document.ofKeyword config k).blocks.map Block.heading ↔ ∃ key ∈ s.2, key.Given ms

variable {k : Keyword} {ms : List (String × Tree)}

theorem Key.given_iff_of_listing {key : Key} (h : key.isListing = true) :
    key.Given ms ↔ key.label ∈ ms.map Prod.fst := by
  simp [Given, h]

theorem Key.given_iff_of_not_listing {key : Key} (h : key.isListing = false) :
    key.Given ms ↔ ∃ T, (key.label, T) ∈ ms ∧ T.isNull = false := by
  simp [Given, h]

theorem has_ofContents {n : Nat} {contents : Contents Key.Content}
    (hnone : ∀ key : Key, (contents key).isSome = true ↔ key.label ∈ ms.map Prod.fst)
    (hsome : ∀ (key : Key) T, (key.label, T) ∈ ms →
      ∃ c, contents key = some c ∧ key.read n T = .ok c) (key : Key) :
    (ofContents contents).has key = true ↔ key.Given ms := by
  have listing {α : Type} {key : Key} (h : key.isListing = true) {o : Option (Option (List α))}
      (ho : o.isSome = (contents key).isSome) : (listed o).isSome = true ↔ key.Given ms := by
    rw [Key.given_iff_of_listing h, ← hnone, listed, Option.isSome_map, ho]
  have optional {key : Key} (h : key.isListing = false) {α ε : Type} {read : Reader (Option α) ε}
      (hread : read.TellsNull) {o : Option (Option α)} (hn : o.isSome = (contents key).isSome)
      (ho : ∀ T, (key.label, T) ∈ ms → ∃ c, o = some c ∧ read n T = .ok c) :
      o.join.isSome = true ↔ key.Given ms := by
    rw [Key.given_iff_of_not_listing h]
    refine isSome_join_iff (hn ▸ hnone key) fun T hT => ?_
    obtain ⟨c, hc, hT⟩ := ho T hT
    exact ⟨c, hc, hread n T c hT⟩
  cases key with
  | items | records | recordsSet | alternatingRecords => exact listing rfl rfl
  | size | numTables | minSize =>
    exact optional rfl (Reader.tellsNull_optional _) rfl (hsome _)
  | _ => exact optional rfl (Reader.tellsNull_optional _).placed rfl (hsome _)

theorem isSome_parts (k : Keyword) {key : Key} (h : key.isListing = true) :
    (k.parts key).isSome = k.has key := by
  cases key with
  | items | records | recordsSet | alternatingRecords => exact Option.isSome_map.symm
  | _ => cases h

theorem written_keys (k : Keyword) (h : ∀ key, k.has key = true ↔ key.Given ms) :
    ∃ vs, k.toValue = .object vs ∧ ∀ key : Key, key.isListing = true →
      (key.label ∈ vs.map Prod.fst ↔ key.label ∈ ms.map Prod.fst) := by
  refine ⟨_, k.toValue_eq, fun key hkey => ?_⟩
  rw [← Key.given_iff_of_listing hkey, ← h, ← k.isSome_parts hkey]
  exact Layout.mem_keys_members_iff key?_label key

/-- The sections of a keyword that are there if a field is. -/
theorem mem_headings_ofKeyword (config : Config) (k : Keyword) : ∀ s ∈ sectionKeys,
    s.1 ∈ (Document.ofKeyword config k).blocks.map Block.heading ↔
      ∃ key ∈ s.2, k.has key = true := by
  have block (title : String) :=
    Document.mem_headings_iff (d := Document.ofKeyword config k) title
  simp only [sectionKeys, List.forall_mem_cons, block]
  simp [Document.headings, Document.blockOptions, Document.isSome_sizingBlock, or_assoc,
    Document.codeBlock, Document.itemsBlock, Document.dataBlock, Document.recordsBlock,
    Document.recordsSetBlock, Document.alternatingRecordsBlock, Document.ofKeyword, has]

/-- What is there of an accepted object is what its members give: any member of its name for a list
of items or records, and for all else a member that is not `null`. -/
theorem mirrors_of_ofText {text : String} (hobject : Lexeme.first? text = some '\x7b')
    (h : ofText text = .ok k) : k.Mirrors (Source.ofText text).tree.members := by
  obtain ⟨n, contents, hmake, hnone, hsome⟩ :=
    Layout.contents_of_object (by decide) key?_label ((Source.isObject_ofText_iff text).mpr hobject)
      (Reader.ofText_eq_ok_iff.mp h).1
  obtain rfl := Except.ok.inj hmake
  have hhas := has_ofContents hnone hsome
  have lists {α : Type} {read : Reader α} {R : Tree → α → Prop}
      (hR : ∀ room t a, read room t = .ok a → R t a) {o : Option (Option (List α))} {T : Tree}
      (h : ∃ c, o = some c ∧ read.list.optional.placed n T = .ok c) :
      ∃ as, listed o = some as ∧ T.Lists R as := by
    obtain ⟨c, rfl, hc⟩ := h
    exact ⟨_, rfl, Reader.lists_of_optional hR hc⟩
  exact {
    has_iff := hhas
    items := fun T hT => lists (fun room _ _ h => ⟨room, h⟩) (hsome .items T hT)
    records := fun T hT => lists Record.readFrom_of_read (hsome .records T hT)
    recordsSet := fun T hT => lists Record.readFrom_of_read (hsome .recordsSet T hT)
    alternatingRecords := fun T hT => lists Record.readFrom_of_read
      (hsome .alternatingRecords T hT)
    written := written_keys _ hhas
    parts := fun config => Document.parts_eq _
    sections := by
      intro config s hs
      rw [mem_headings_ofKeyword config _ s hs]
      exact exists_congr fun key => and_congr_right' (hhas key) }

/-- Of these a count of zero, an empty block of code, a list of items that is `null` and an empty
record are there; the name is not. -/
def sparse : Keyword where
  size := some (.fixed (.number (.integer 0)))
  items := some none
  records := some (some [[]])
  code := some ⟨none⟩

theorem mirrors_of_sparse :
    let text :=
      "\x7b\"name\":null,\"size\":0,\"items\":null,\"records\":[[]],\"code\":\x7b\x7d\x7d"
    Lexeme.first? text = some '\x7b' ∧ ofText text = .ok sparse ∧
      sparse.Mirrors (Source.ofText text).tree.members := by
  intro text
  have hfirst : Lexeme.first? text = some '\x7b' := by decide
  have hread : ofText text = .ok sparse := by
    unfold text
    cbv
  exact ⟨hfirst, hread, mirrors_of_ofText hfirst hread⟩

end Keyword

end DeckDoc
