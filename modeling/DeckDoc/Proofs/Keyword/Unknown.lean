import DeckDoc.Document.Markdown
import DeckDoc.Proofs.Json.Unknown
import DeckDoc.Proofs.Keyword.Sizing

namespace DeckDoc

open Json

theorem Literal.tolerates_reader : Literal.reader.Tolerates Eq := by
  intro room T U l hTU hl
  obtain ⟨v, hv, rfl⟩ := reader_eq_ok_iff.mp hl
  exact reader_eq_ok_iff.mpr ⟨v, Reader.tolerates_value room T U v hTU hv, rfl⟩

theorem Sizing.tolerates_reader : Sizing.reader.Tolerates Eq := by
  intro room T U s hTU hs
  cases hv : T.value room with
  | error f => simp [reader, hv] at hs
  | ok v =>
    have hv' : U.value room = .ok v := Reader.tolerates_value room T U v hTU hv
    simp only [reader, hv] at hs
    simp only [reader, hv']
    exact hs

theorem tolerates_optionalText : Reader.text.optional.Tolerates Eq :=
  Reader.tolerates_text.optional fun _ _ h => h ▸ Iff.rfl

theorem tolerates_optionalLiteral : Literal.reader.optional.Tolerates Eq :=
  Literal.tolerates_reader.optional fun _ _ h => h ▸ Iff.rfl

/-! Records with further members whose keys are not theirs. -/

def Item.Grows : Phrase → Phrase → Prop := layout.Grows fun _ => Eq

def CodeBlock.Grows : Phrase → Phrase → Prop := layout.Grows fun _ => Eq

def DataSpec.Grows : Phrase → Phrase → Prop := layout.Grows fun _ => Eq

theorem Item.tolerates_reader : Item.reader.Tolerates Item.Grows := by
  refine layout.tolerates_reader (by decide) (fun _ _ => rfl) fun k => ?_
  have htext := tolerates_optionalText.placed
  have hliteral := tolerates_optionalLiteral
  cases k with
  | name | valueType | description | comment => exact htext
  | _ => exact hliteral

theorem CodeBlock.tolerates_reader : CodeBlock.reader.Tolerates CodeBlock.Grows := by
  refine layout.tolerates_reader (by decide) (fun _ _ => rfl) fun k => ?_
  cases k with
  | terminator => exact tolerates_optionalText.placed

theorem DataSpec.tolerates_reader : DataSpec.reader.Tolerates DataSpec.Grows := by
  refine layout.tolerates_reader (by decide) (fun _ _ => rfl) fun k => ?_
  cases k with
  | valueType => exact tolerates_optionalText.placed
  | dimension | dimensions => exact tolerates_optionalLiteral

namespace Keyword

/-- How the content of a key may grow: by further members of the items and records in it, of a block
of code or of a description of data. -/
def Key.Grows : Key → Phrase → Phrase → Prop
  | .items => Phrase.Entrywise Item.Grows
  | .records => Phrase.Entrywise (Phrase.Entrywise Item.Grows)
  | .recordsSet => Phrase.Entrywise (Phrase.Entrywise Item.Grows)
  | .alternatingRecords => Phrase.Entrywise (Phrase.Entrywise Item.Grows)
  | .code => CodeBlock.Grows
  | .data => DataSpec.Grows
  | _ => Eq

/-- A description of a keyword, and the same one with further members whose keys are not known, in
any of its records. -/
def Grows : Phrase → Phrase → Prop := layout.Grows Key.Grows

theorem Key.grows_self (k : Key) (P : Phrase) : k.Grows P P := by
  cases k with
  | items | records | recordsSet | alternatingRecords => exact .same P
  | code | data => exact .same P
  | _ => rfl

theorem tolerates_reader : Keyword.reader.Tolerates Keyword.Grows := by
  refine layout.tolerates_reader (by decide) Key.grows_self fun k => ?_
  have htext := tolerates_optionalText.placed
  have htexts : Reader.text.list.optional.placed.Tolerates Eq := by
    have hlist := (Reader.tolerates_text.list fun _ => rfl).mono (S := Eq)
      fun P _ h => h ▸ .same P
    exact (hlist.optional fun _ _ h => h ▸ Iff.rfl).placed
  have hitems : Item.reader.list.Tolerates (Phrase.Entrywise Item.Grows) :=
    Item.tolerates_reader.list fun P => .same P
  have hrecords : Item.reader.list.list.optional.placed.Tolerates
      (Phrase.Entrywise (Phrase.Entrywise Item.Grows)) :=
    ((hitems.list fun P => .same P).optional fun _ _ => Phrase.Entrywise.null_iff).placed
  cases k with
  | name | description | comment | deckName | deckNameRegex => exact htext
  | deckNames | sections | requires | prohibits => exact htexts
  | size | numTables => exact Sizing.tolerates_reader.optional fun _ _ h => h ▸ Iff.rfl
  | minSize => exact tolerates_optionalLiteral
  | code => exact (CodeBlock.tolerates_reader.optional fun _ _ => Layout.Grows.null_iff).placed
  | items => exact (hitems.optional fun _ _ => Phrase.Entrywise.null_iff).placed
  | data => exact (DataSpec.tolerates_reader.optional fun _ _ => Layout.Grows.null_iff).placed
  | records | recordsSet | alternatingRecords => exact hrecords

/-- A description of a keyword is a text of the grammar. Whatever members with unknown keys come
into it, or into the items, records, code or data in it, it describes the same keyword, and the
document is the same. -/
theorem ofText_of_grows {s : String} {k : Keyword} (hk : ofText s = .ok k) :
    (∃ P : Phrase, s.toList ∈ P.document) ∧
      ∀ (P Q : Phrase) (t : String), s.toList ∈ P.document → Grows P Q → t.toList ∈ Q.document →
        ∃ l, ofText t = .ok l ∧ l = k ∧ ∀ config, l.markdown config = k.markdown config := by
  refine ⟨layout.exists_mem_document (by decide) hk, fun P Q t hs hPQ ht => ?_⟩
  exact ⟨k, tolerates_reader.ofText hPQ hs ht hk, rfl, fun _ => rfl⟩

theorem ofText_of_grows_items :
    let s := "\x7b\"items\":[\x7b\"name\":\"A\"\x7d]\x7d"
    let t := "\x7b\"items\":[\x7b\"x\":[1e999,\"\\ud800\"],\"name\":\"A\"\x7d],\"y\":0,\"y\":[]\x7d"
    let k : Keyword := { items := some (some [{ name := some "A" }]) }
    ofText s = .ok k ∧
      ∃ l, ofText t = .ok l ∧ l = k ∧ ∀ config, l.markdown config = k.markdown config := by
  intro s t k
  have hk : ofText s = .ok k := by cbv
  have hs : (Source.ofText s).tree.phrase? = some (.object
      [(some "items", .list [.object [(some "name", .text (some "A"))]])]) := by cbv
  have ht : (Source.ofText t).tree.phrase? = some (.object
      [(some "items", .list [.object
          [(some "x", .list [.number none, .text none]), (some "name", .text (some "A"))]]),
        (some "y", .number (some (.integer 0))), (some "y", .list [])]) := by cbv
  have hs : s.toList ∈ Phrase.document _ := Source.mem_document_iff.mpr ⟨hs, by cbv⟩
  have ht : t.toList ∈ Phrase.document _ := Source.mem_document_iff.mpr ⟨ht, by cbv⟩
  refine ⟨hk, (ofText_of_grows hk).2 _ _ t hs (.object ?_) ht⟩
  have hitem : Item.Grows (.object [(some "name", .text (some "A"))]) (.object
      [(some "x", .list [.number none, .text none]), (some "name", .text (some "A"))]) :=
    .object (.unknown _ (by decide) (.kept _ .nil))
  have hitems : Key.items.Grows (.list [_]) (.list [_]) := .list (.cons hitem .nil)
  exact .changed (by decide) hitems (.unknown _ (by decide) (.unknown _ (by decide) .nil))

end Keyword

end DeckDoc
