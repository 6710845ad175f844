import DeckDoc.Document.Markdown
import DeckDoc.Proofs.Json.Equal

namespace DeckDoc

open Json

namespace Literal

/-- The numbers in a literal, in their order. -/
def numbers (l : Literal) : List Number := l.toValue.numbers

def numbersEntries (ls : List Literal) : List Number := Value.numbersEntries (toValues ls)

mutual

theorem settles : ∀ {l m : Literal}, l.beq m = true → Settles l.numbers m.numbers (l = m)
  | .bool _, .bool _, h => .nil (congrArg Literal.bool (beq_iff_eq.mp h))
  | .number _, .number _, h => (Settles.number h).imp (congrArg Literal.number)
  | .text _, .text _, h => .nil (congrArg Literal.text (beq_iff_eq.mp h))
  | .list _, .list _, h => (settles_entries h).imp (congrArg Literal.list)
  | .other _, .other _, h => (Value.settles h).imp (congrArg Literal.other)

theorem settles_entries : ∀ {ls ms : List Literal}, beqEntries ls ms = true →
    Settles (numbersEntries ls) (numbersEntries ms) (ls = ms)
  | [], [], _ => .nil rfl
  | _ :: _, _ :: _, h => by
    obtain ⟨hl, hls⟩ := Bool.and_eq_true_iff.mp h
    refine ((settles hl).append (settles_entries hls)).imp ?_
    rintro ⟨rfl, rfl⟩
    rfl

end

end Literal

theorem Literal.zerosDecide : ZerosDecide Literal.numbers Literal.display :=
  fun _ _ h => (Literal.settles h).imp (congrArg Literal.display)

theorem Literal.zerosDecide_displayed :
    ZerosDecide (numbersOfOption Literal.numbers) displayed :=
  Literal.zerosDecide.option.comp fun o => o.getD ""

theorem beq_orElse {α : Type} [BEq α] {a b c d : Option α} (hab : (a == b) = true)
    (hcd : (c == d) = true) : ((a <|> c) == (b <|> d)) = true := by
  cases a with
  | none =>
    cases b with
    | none => exact hcd
    | some _ => cases hab
  | some _ =>
    cases b with
    | none => cases hab
    | some _ => exact hab

namespace Item

/-- The numbers in the texts of a row, in their order. -/
def shownNumbers (i : Item) : List Number :=
  numbersOfOption Literal.numbers i.item ++ numbersOfOption Literal.numbers i.shownDefault ++
    numbersOfOption Literal.numbers i.shownDimension

theorem position_eq (i : Item) (index : Nat) :
    i.position index = (i.item.map Literal.display).getD index.repr := by
  unfold position
  cases i.item <;> rfl

theorem zerosDecide : ZerosDecide Item.shownNumbers Item.row := by
  intro i j h
  have hfields : ((((((((i.item == j.item) && i.name == j.name) && i.valueType == j.valueType) &&
    i.default == j.default) && i.defaultValue == j.defaultValue) && i.dimension == j.dimension) &&
    i.dimensions == j.dimensions) && i.description == j.description) && i.comment == j.comment := h
  simp only [Bool.and_eq_true] at hfields
  obtain ⟨⟨⟨⟨⟨⟨⟨⟨hitem, hname⟩, htype⟩, hdefault⟩, hdefaultValue⟩, hdimension⟩, hdimensions⟩,
    hdescription⟩, hcomment⟩ := hfields
  have hposition := Literal.zerosDecide.option i.item j.item hitem
  have hshownDefault := Literal.zerosDecide_displayed i.shownDefault j.shownDefault
    (beq_orElse hdefault hdefaultValue)
  have hshownDimension := Literal.zerosDecide_displayed i.shownDimension j.shownDimension
    (beq_orElse hdimension hdimensions)
  refine ((hposition.append hshownDefault).append hshownDimension).imp ?_
  rintro ⟨⟨hitem, hdefault⟩, hdimension⟩
  funext index
  simp only [row, position_eq, shownDescription]
  rw [hitem, hdefault, hdimension, eq_of_beq hname, eq_of_beq htype, eq_of_beq hdescription,
    eq_of_beq hcomment]

end Item

theorem Row.ofItems_congr {items items' : List Item} (h : items.map Item.row = items'.map Item.row)
    (index : Nat) : Row.ofItems index items = Row.ofItems index items' := by
  induction items generalizing items' index with
  | nil =>
    cases items' with
    | nil => rfl
    | cons _ _ => cases h
  | cons i items ih =>
    cases items' with
    | nil => cases h
    | cons j items' =>
      obtain ⟨hrow, hrest⟩ := List.cons.inj h
      rw [ofItems, ofItems, hrow, ih hrest]

theorem Row.zerosDecide_ofItems :
    ZerosDecide (fun items => items.flatMap Item.shownNumbers) (Row.ofItems 1) := by
  intro items items' h
  refine (Item.zerosDecide.list items items' h).imp fun hrows => ?_
  exact Row.ofItems_congr hrows 1

namespace Sizing

def shownNumbers : Sizing → List Number
  | .fixed l => l.numbers
  | .reference r => numbersOfOption Literal.numbers r.item

theorem zerosDecide : ZerosDecide Sizing.shownNumbers Sizing.count := by
  intro s t h
  cases s with
  | fixed l =>
    cases t with
    | fixed m => exact (Literal.zerosDecide l m h).imp (congrArg Count.fixed)
    | reference r => cases h
  | reference r =>
    cases t with
    | fixed m => cases h
    | reference r' =>
      obtain ⟨hkeyword, hitem⟩ := Bool.and_eq_true_iff.mp h
      refine (Literal.zerosDecide_displayed r.item r'.item hitem).imp fun hshown => ?_
      rw [count, count, hshown, eq_of_beq hkeyword]

end Sizing

namespace DataSpec

def shownNumbers (d : DataSpec) : List Number := numbersOfOption Literal.numbers d.shownDimension

theorem zerosDecide : ZerosDecide DataSpec.shownNumbers DataSpec.note := by
  intro d e h
  have hfields : ((d.valueType == e.valueType) && d.dimension == e.dimension) &&
    d.dimensions == e.dimensions := h
  simp only [Bool.and_eq_true] at hfields
  obtain ⟨⟨htype, hdimension⟩, hdimensions⟩ := hfields
  refine (Literal.zerosDecide_displayed d.shownDimension e.shownDimension
    (beq_orElse hdimension hdimensions)).imp fun hshown => ?_
  rw [note, note, hshown, eq_of_beq htype]

end DataSpec

theorem CodeBlock.eq_of_beq {b c : CodeBlock} (h : (b == c) = true) : b = c := by
  obtain ⟨s⟩ := b
  obtain ⟨t⟩ := c
  have hst : (s == t) = true := h
  rw [beq_iff_eq.mp hst]

theorem CodeBlock.eq_of_option_beq {o o' : Option CodeBlock} (h : (o == o') = true) : o = o' := by
  cases o with
  | none =>
    cases o' with
    | none => rfl
    | some _ => cases h
  | some b =>
    cases o' with
    | none => cases h
    | some c => exact congrArg some (CodeBlock.eq_of_beq h)

namespace Keyword

def itemNumbers (items : List Item) : List Number := items.flatMap Item.shownNumbers

def recordNumbers (records : List Record) : List Number := records.flatMap itemNumbers

/-- The numbers in the texts of a document, in their order. -/
def shownNumbers (k : Keyword) : List Number :=
  numbersOfOption Sizing.shownNumbers k.size ++
    numbersOfOption Literal.numbers k.minSize ++
    numbersOfOption Sizing.shownNumbers k.numTables ++
    numbersOfOption (numbersOfOption itemNumbers) k.items ++
    numbersOfOption DataSpec.shownNumbers k.data ++
    numbersOfOption (numbersOfOption recordNumbers) k.records ++
    numbersOfOption (numbersOfOption recordNumbers) k.recordsSet ++
    numbersOfOption (numbersOfOption recordNumbers) k.alternatingRecords

theorem listed_map {α β : Type} {f : List α → List β} (hf : f [] = [])
    (list : Option (Option (List α))) :
    (listed list).map f = (list.map (Option.map f)).map fun o => o.getD [] := by
  rcases list with - | - | list <;> simp [listed, hf]

theorem zerosDecide_itemList : ZerosDecide (numbersOfOption (numbersOfOption itemNumbers))
    fun list => (listed list).map (Row.ofItems 1) := by
  have h := Row.zerosDecide_ofItems.option.option.comp (Option.map fun o => o.getD [])
  intro a b hab
  simp only [listed_map (rfl : Row.ofItems 1 [] = [])]
  exact h a b hab

theorem zerosDecide_recordList : ZerosDecide (numbersOfOption (numbersOfOption recordNumbers))
    fun list => (listed list).map (List.map (Row.ofItems 1)) := by
  have h := Row.zerosDecide_ofItems.list.option.option.comp (Option.map fun o => o.getD [])
  intro a b hab
  simp only [listed_map List.map_nil]
  exact h a b hab

theorem ofKeyword_eq (config : Config) {k l : Keyword} (h : (k == l) = true)
    (hzeros : zeros k.shownNumbers = zeros l.shownNumbers) :
    Document.ofKeyword config k = Document.ofKeyword config l := by
  have hfields : (k.name == l.name && k.description == l.description && k.comment == l.comment &&
      k.deckName == l.deckName && k.deckNames == l.deckNames &&
      k.deckNameRegex == l.deckNameRegex && k.sections == l.sections &&
      k.requires == l.requires && k.prohibits == l.prohibits && k.size == l.size &&
      k.minSize == l.minSize && k.numTables == l.numTables && k.code == l.code &&
      k.items == l.items && k.data == l.data && k.records == l.records &&
      k.recordsSet == l.recordsSet && k.alternatingRecords == l.alternatingRecords) = true := h
  simp only [Bool.and_eq_true, and_assoc] at hfields
  obtain ⟨hname, hdescription, hcomment, hdeckName, hdeckNames, hregex, hsections, hrequires,
    hprohibits, hsize, hminSize, hnumTables, hcode, hitems, hdata, hrecords, hrecordsSet,
    halternating⟩ := hfields
  have hshown :=
    ((((((Sizing.zerosDecide.option _ _ hsize).append
      (Literal.zerosDecide.option _ _ hminSize)).append
      (Sizing.zerosDecide.option _ _ hnumTables)).append
      (zerosDecide_itemList _ _ hitems)).append
      (DataSpec.zerosDecide.option _ _ hdata)).append
      (zerosDecide_recordList _ _ hrecords)).append
      (zerosDecide_recordList _ _ hrecordsSet) |>.append
      (zerosDecide_recordList _ _ halternating)
  obtain ⟨⟨⟨⟨⟨⟨⟨hsize, hminSize⟩, hnumTables⟩, hitems⟩, hdata⟩, hrecords⟩, hrecordsSet⟩,
    halternating⟩ := hshown.holds hzeros
  have hsummary : k.summary config.placeholders = l.summary config.placeholders := by
    simp only [summary, summaryKind, eq_of_beq hdescription, eq_of_beq hcomment]
  simp only [Document.ofKeyword, itemList, recordList, recordsSetList, alternatingRecordList,
    required, prohibited, hsummary, hsize, hminSize, hnumTables, CodeBlock.eq_of_option_beq hcode,
    hitems, hdata, hrecords, hrecordsSet, halternating, eq_of_beq hname, eq_of_beq hdeckName,
    eq_of_beq hdeckNames, eq_of_beq hregex, eq_of_beq hsections, eq_of_beq hrequires,
    eq_of_beq hprohibits]

/-- Equal keywords that show their negative zeros at the same places have the same document. -/
theorem markdown_eq_of_beq (config : Config) {k l : Keyword} (h : (k == l) = true)
    (hzeros : zeros k.shownNumbers = zeros l.shownNumbers) :
    k.markdown config = l.markdown config :=
  congrArg Document.markdown (ofKeyword_eq config h hzeros)

/-- A negative zero that is shown, and a default value that is not, for another one counts. -/
def overruled (x : Float) : Keyword where
  minSize := some (.number (.real (-0.0)))
  items := some (some
    [{ default := some (.number (.real 1.5)), defaultValue := some (.number (.real x)) }])

theorem markdown_overruled :
    (overruled 0.0 == overruled (-0.0)) = true ∧
      (overruled 0.0).markdown {} = (overruled (-0.0)).markdown {} := by
  have h : (overruled 0.0 == overruled (-0.0)) = true := by decide +kernel
  exact ⟨h, markdown_eq_of_beq {} h (by decide +kernel)⟩

/-- The two zeros are equal and are shown differently. -/
theorem markdown_ne_of_beq : ¬ ∀ (config : Config) (s t : String) (k l : Keyword),
    ofText s = .ok k → ofText t = .ok l → (k == l) = true →
    k.markdown config = l.markdown config := by
  intro hclaim
  have hread : ((ofText "\x7b\"min_size\":0.0\x7d").toOption.bind fun k =>
      (ofText "\x7b\"min_size\":-0.0\x7d").toOption.map fun l =>
        (k == l) && k.markdown {} != l.markdown {}) = some true := by decide +kernel
  obtain ⟨k, hk, hread⟩ := Option.bind_eq_some_iff.mp hread
  obtain ⟨l, hl, hread⟩ := Option.map_eq_some_iff.mp hread
  obtain ⟨heq, hne⟩ := Bool.and_eq_true_iff.mp hread
  have hk := Except.toOption_eq_some_iff.mp hk
  have hl := Except.toOption_eq_some_iff.mp hl
  exact bne_iff_ne.mp hne (hclaim {} _ _ k l hk hl heq)

end Keyword

end DeckDoc
