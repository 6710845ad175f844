import DeckDoc.Proofs.CommandLine
import DeckDoc.Proofs.Json.Position
import DeckDoc.Proofs.Json.Places.Reader
import DeckDoc.Proofs.Keyword.Sizing

namespace DeckDoc

open Json

variable {size : Nat}

theorem Literal.complains_reader : Literal.reader.Complains size (Rejection.Within size) := by
  rw [reader_eq_placed]
  refine Reader.Complains.placed fun room T h => ?_
  exact (Reader.complains_value room T h).map

/-- What has no place when it is refused has been read as a value before. -/
theorem Sizing.complains_reader : Sizing.reader.Complains size (Rejection.Within size) := by
  intro room T h
  unfold reader
  cases hv : T.value room with
  | error f => exact .error (Reader.complains_value room T h f hv)
  | ok v =>
    obtain ⟨w, hspelled, -, -⟩ := Tree.value_eq_ok_iff.mp hv
    have hread : T.spelled ≠ none := by simp [hspelled]
    dsimp only
    cases ofValue v with
    | error cause => exact .error hread
    | ok s => exact .ok

theorem Item.complains_reader : Item.reader.Complains size (Fault.Locates size) := by
  refine layout.complains_reader (fun k => ?_) fun contents => ⟨_, rfl⟩
  have htext := (@Reader.complains_text size).optional.placed
  have hliteral := (@Literal.complains_reader size).optional
  cases k with
  | name | valueType | description | comment => exact htext
  | _ => exact hliteral

theorem CodeBlock.complains_reader : CodeBlock.reader.Complains size (Fault.Locates size) := by
  refine layout.complains_reader (fun k => ?_) fun contents => ⟨_, rfl⟩
  cases k with
  | terminator => exact Reader.complains_text.optional.placed

theorem DataSpec.complains_reader : DataSpec.reader.Complains size (Fault.Locates size) := by
  refine layout.complains_reader (fun k => ?_) fun contents => ⟨_, rfl⟩
  cases k with
  | valueType => exact Reader.complains_text.optional.placed
  | dimension | dimensions => exact Literal.complains_reader.optional

namespace Keyword

theorem complains_reader : Keyword.reader.Complains size (Fault.Locates size) := by
  refine layout.complains_reader (fun k => ?_) fun contents => ⟨_, rfl⟩
  have htext := (@Reader.complains_text size).optional.placed
  have htexts := (@Reader.complains_text size).list.optional.placed
  have hrecords := (@Item.complains_reader size).list.list.optional.placed
  cases k with
  | name | description | comment | deckName | deckNameRegex => exact htext
  | deckNames | sections | requires | prohibits => exact htexts
  | size | numTables => exact Sizing.complains_reader.optional
  | minSize => exact Literal.complains_reader.optional
  | code => exact CodeBlock.complains_reader.optional.placed
  | items => exact Item.complains_reader.list.optional.placed
  | data => exact DataSpec.complains_reader.optional.placed
  | records | recordsSet | alternatingRecords => exact hrecords

/-- What is said about a file that holds no description tells the line and the column of the fault,
and they are those of a place in the text of the file. -/
theorem refusal_is_located {tree : FileTree} {path text : String} {fault : Fault}
    (h : load tree path = .error (.refused text fault)) :
    (∃ bytes, tree.file? path = some bytes ∧ String.fromUTF8? bytes = some text) ∧
      fault.Within text.utf8ByteSize ∧
      ∃ p : Position, p.IsAt text fault.place ∧
        (Failure.refused text fault).message = "Failed to parse JSON: " ++ fault.cause.message ++
          " at line " ++ p.line.repr ++ " column " ++ p.column.repr := by
  have hfails : Fails tree path none (.refused text fault) := fails_of_load h
  cases hfails with
  | refused hfile htext hk =>
    have hwithin := Reader.failsOnly_ofText complains_reader fault hk
    let p := Position.ofPlace text fault.place
    refine ⟨⟨_, hfile, htext⟩, hwithin, p, Position.isAt_ofPlace text fault.place, ?_⟩
    change "Failed to parse JSON: " ++ (fault.cause.message ++ " at line " ++ p.line.repr ++
      " column " ++ p.column.repr) = _
    simp only [String.append_assoc]

/-- The number that stands for a keyword is found out when the object is read a second time, and
reported after the object. -/
theorem refusal_is_located_of_size :
    let text := "\x7b\n\"size\":\x7b\"keyword\":1\x7d\x7d"
    let files : FileTree := ⟨[(["work", "a"], .file text.toUTF8)], ["work"]⟩
    let fault : Fault := ⟨.wrongType (.number (.integer 1)) .text, 23⟩
    load files "a" = .error (.refused text fault) ∧ fault.Within text.utf8ByteSize ∧
      (∃ p : Position, p.IsAt text 23 ∧
        (Failure.refused text fault).message = "Failed to parse JSON: " ++ fault.cause.message ++
          " at line " ++ p.line.repr ++ " column " ++ p.column.repr) ∧
      (Failure.refused text fault).message = "Failed to parse JSON: " ++
        "invalid type: integer `1`, expected a string at line 2 column 21" := by
  intro text files fault
  have hk : ofText text = .error fault := by
    unfold text fault
    cbv
  have hload : load files "a" = .error (.refused text fault) := by
    have htext : String.fromUTF8? text.toUTF8 = some text := by decide +kernel
    rw [load_eq_ofText (show files.file? "a" = some text.toUTF8 from rfl) htext, hk]
    rfl
  obtain ⟨-, hwithin, hp⟩ := refusal_is_located hload
  exact ⟨hload, hwithin, hp, by decide +kernel⟩

end Keyword

end DeckDoc
