import DeckDoc.Keyword
import DeckDoc.Proofs.Json.Real
import DeckDoc.Proofs.Json.Written
import DeckDoc.Proofs.Keyword.Sizing

namespace DeckDoc

open Json

theorem eq_some_or_eq_none {α : Type} {o : Option (Option α)} {a : Option α}
    (h : some o.join = some a) : o = some a ∨ a = none := by
  cases o with
  | none => exact .inr (Option.some.inj h).symm
  | some b => exact .inl h

namespace CodeBlock

def Key.write : (k : Key) → k.Content → Value
  | .terminator => Value.ofOption .text

def parts (b : CodeBlock) : Contents Key.Content
  | .terminator => some b.terminator

theorem writes : layout.Writes toValue Key.write parts where
  nodup := by decide
  key_label k := by cases k; decide
  stable k := by
    cases k with
    | terminator => exact Reader.stable_text.optional.placed
  write_eq _ := rfl
  make_parts _ := rfl
  parts_make {contents b} h k c hc := by
    obtain rfl := Except.ok.inj h
    cases k with
    | terminator =>
      rcases eq_some_or_eq_none hc with hread | rfl
      · exact .inl hread
      · exact .inr (.of_null rfl fun _ _ _ => rfl)

end CodeBlock

namespace Item

def Key.write : (k : Key) → k.Content → Value
  | .item => Value.ofOption Literal.toValue
  | .name => Value.ofOption .text
  | .valueType => Value.ofOption .text
  | .default => Value.ofOption Literal.toValue
  | .defaultValue => Value.ofOption Literal.toValue
  | .dimension => Value.ofOption Literal.toValue
  | .dimensions => Value.ofOption Literal.toValue
  | .description => Value.ofOption .text
  | .comment => Value.ofOption .text

def parts (i : Item) : Contents Key.Content
  | .item => some i.item
  | .name => some i.name
  | .valueType => some i.valueType
  | .default => some i.default
  | .defaultValue => some i.defaultValue
  | .dimension => some i.dimension
  | .dimensions => some i.dimensions
  | .description => some i.description
  | .comment => some i.comment

theorem writes : layout.Writes toValue Key.write parts where
  nodup := by decide
  key_label := key?_label
  stable k := by
    cases k with
    | name | valueType | description | comment => exact Reader.stable_text.optional.placed
    | _ => exact Literal.stable_reader.optional
  write_eq _ := rfl
  make_parts _ := rfl
  parts_make {contents i} h k c hc := by
    obtain rfl := Except.ok.inj h
    cases k with
    | _ =>
      rcases eq_some_or_eq_none hc with hread | rfl
      · exact .inl hread
      · exact .inr (.of_null rfl fun _ _ _ => rfl)

end Item

namespace DataSpec

def Key.write : (k : Key) → k.Content → Value
  | .valueType => Value.ofOption .text
  | .dimension => Value.ofOption Literal.toValue
  | .dimensions => Value.ofOption Literal.toValue

def parts (d : DataSpec) : Contents Key.Content
  | .valueType => some d.valueType
  | .dimension => some d.dimension
  | .dimensions => some d.dimensions

theorem writes : layout.Writes toValue Key.write parts where
  nodup := by decide
  key_label := key?_label
  stable k := by
    cases k with
    | valueType => exact Reader.stable_text.optional.placed
    | _ => exact Literal.stable_reader.optional
  write_eq _ := rfl
  make_parts _ := rfl
  parts_make {contents d} h k c hc := by
    obtain rfl := Except.ok.inj h
    cases k with
    | _ =>
      rcases eq_some_or_eq_none hc with hread | rfl
      · exact .inl hread
      · exact .inr (.of_null rfl fun _ _ _ => rfl)

end DataSpec

namespace Keyword

def Key.write : (k : Key) → k.Content → Value
  | .name => Value.ofOption .text
  | .description => Value.ofOption .text
  | .comment => Value.ofOption .text
  | .deckName => Value.ofOption .text
  | .deckNames => Value.ofOption texts
  | .deckNameRegex => Value.ofOption .text
  | .sections => Value.ofOption texts
  | .requires => Value.ofOption texts
  | .prohibits => Value.ofOption texts
  | .size => Value.ofOption Sizing.toValue
  | .minSize => Value.ofOption Literal.toValue
  | .numTables => Value.ofOption Sizing.toValue
  | .code => Value.ofOption CodeBlock.toValue
  | .items => Value.ofOption itemsValue
  | .data => Value.ofOption DataSpec.toValue
  | .records => Value.ofOption recordsValue
  | .recordsSet => Value.ofOption recordsValue
  | .alternatingRecords => Value.ofOption recordsValue

/-- A list of items or records that is missing has no part in what is written. -/
def parts (k : Keyword) : Contents Key.Content
  | .name => some k.name
  | .description => some k.description
  | .comment => some k.comment
  | .deckName => some k.deckName
  | .deckNames => some k.deckNames
  | .deckNameRegex => some k.deckNameRegex
  | .sections => some k.sections
  | .requires => some k.requires
  | .prohibits => some k.prohibits
  | .size => some k.size
  | .minSize => some k.minSize
  | .numTables => some k.numTables
  | .code => some k.code
  | .items => k.items
  | .data => some k.data
  | .records => k.records
  | .recordsSet => k.recordsSet
  | .alternatingRecords => k.alternatingRecords

theorem stable_items : Item.reader.list.optional.Stable (Value.ofOption itemsValue) :=
  Item.writes.stable_reader.list.optional

theorem stable_records : Item.reader.list.list.optional.Stable (Value.ofOption recordsValue) :=
  Item.writes.stable_reader.list.list.optional

theorem toValue_eq (k : Keyword) : k.toValue = .object (layout.members Key.write k.parts) := by
  have hkeys : layout.keys = Key.all.take 13 ++ [Key.items] ++ [Key.data] ++ [Key.records] ++
      [Key.recordsSet] ++ [Key.alternatingRecords] := rfl
  have single (f : Key → Option (String × Value)) (l : Key) :
      [l].filterMap f = (f l).toList := by
    rw [List.filterMap_cons]
    cases f l <;> rfl
  rw [Layout.members, hkeys]
  simp only [List.filterMap_append, single]
  rfl

theorem writes : layout.Writes toValue Key.write parts where
  nodup := by decide
  key_label := key?_label
  stable k := by
    cases k with
    | name | description | comment | deckName | deckNameRegex =>
      exact Reader.stable_text.optional.placed
    | deckNames | sections | requires | prohibits =>
      exact Reader.stable_text.list.optional.placed
    | size | numTables => exact Sizing.stable_reader.optional
    | minSize => exact Literal.stable_reader.optional
    | code => exact CodeBlock.writes.stable_reader.optional.placed
    | data => exact DataSpec.writes.stable_reader.optional.placed
    | items => exact stable_items.placed
    | records | recordsSet | alternatingRecords => exact stable_records.placed
  write_eq := toValue_eq
  make_parts _ := rfl
  parts_make {contents s} h k c hc := by
    obtain rfl := Except.ok.inj h
    cases k with
    | items | records | recordsSet | alternatingRecords => exact .inl hc
    | _ =>
      rcases eq_some_or_eq_none hc with hread | rfl
      · exact .inl hread
      · exact .inr (.of_null rfl fun _ _ _ => rfl)

/-- A description is written as a text that is read as the same description, provided that its reals
are read as themselves from the texts that they are written as. -/
theorem ofText_written_toValue {text : String} {k : Keyword} (h : ofText text = .ok k)
    (hreals : ∀ x, .real x ∈ k.toValue.numbers →
      Reader.value.ofText (writtenFloat x) = .ok (.number (.real x))) :
    ofText k.toValue.written = .ok k := by
  have hread := (Reader.ofText_eq_ok_iff.mp h).1
  have hnumbers : ∀ n ∈ k.toValue.numbers, n.Readable := by
    intro n hn
    cases n with
    | integer i =>
      apply Number.readable_integer
      exact Source.inRange_ofText (writes.stable_reader.numbers hread hn)
    | real x => exact readable_real (hreals x hn)
  obtain ⟨T, hT, hsource⟩ := Source.ofText_written hnumbers
  apply Reader.ofText_eq_ok_iff.mpr
  rw [hsource]
  exact ⟨writes.stable_reader.reread hread hT, rfl⟩

-- Here reals are equal if they are the same double, while `==` compares the two zeros as equal.
deriving instance DecidableEq for Number

/-- The text has a reference, a real count, nested literals, and two of the lists of items and
records, one of them `null`. -/
theorem ofText_written_toValue_of_mixed :
    let text := "\x7b\"size\":\x7b\"item\":[1,[\"n\"]],\"x\":0\x7d,\"num_tables\":1.5," ++
      "\"items\":null,\"records\":[[\x7b\"default\":[null]\x7d]]\x7d"
    ∃ k, ofText text = .ok k ∧ k.toValue.numbers = [.integer 1, .real 1.5] ∧
      (∀ x, .real x ∈ k.toValue.numbers →
        Reader.value.ofText (writtenFloat x) = .ok (.number (.real x))) ∧
      ofText k.toValue.written = .ok k := by
  intro text
  have hread : (ofText text).toOption.any
      (fun k => k.toValue.numbers = [.integer 1, .real 1.5]) = true := by decide +kernel
  cases hk : ofText text with
  | error fault =>
    rw [hk] at hread
    cases hread
  | ok k =>
    rw [hk] at hread
    have hnumbers : k.toValue.numbers = [.integer 1, .real 1.5] := of_decide_eq_true hread
    have hreals : ∀ x, .real x ∈ k.toValue.numbers →
        Reader.value.ofText (writtenFloat x) = .ok (.number (.real x)) := by
      intro x hx
      rw [hnumbers] at hx
      obtain rfl : x = 1.5 := by simpa using hx
      rw [show writtenFloat 1.5 = "1.5" by decide +kernel]
      rfl
    exact ⟨k, rfl, hnumbers, hreals, ofText_written_toValue hk hreals⟩

end Keyword

end DeckDoc
