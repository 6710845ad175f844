import DeckDoc.Json.Tree.Build

namespace DeckDoc.Json.Progress

/-- What a lexeme leads to at each place of a text where it is one of those due. Nothing is due
after the outermost value. -/
inductive Accepts (l : Lexeme) : Progress → Progress ⊕ Source → Prop
  | value {frames : List Frame} {next : Progress ⊕ Source}
      (begun : beginValue frames l = some next) : Accepts l (.atValue frames) next
  | firstItem {start : Nat} {frames : List Frame} {next : Progress ⊕ Source}
      (begun : beginValue (.list start [] :: frames) l = some next) :
      Accepts l (.atFirstItem start frames) next
  | emptyList {start : Nat} {frames : List Frame} (token : l.token = .closeList) :
      Accepts l (.atFirstItem start frames)
        (.inl (.afterValue (.list start (.closed l.stop)) frames))
  | nextItem {v : Tree} {start : Nat} {items : List Tree} {frames : List Frame}
      (token : l.token = .comma) :
      Accepts l (.afterValue v (.list start items :: frames))
        (.inl (.atValue (.list start (v :: items) :: frames)))
  | endOfList {v : Tree} {start : Nat} {items : List Tree} {frames : List Frame}
      (token : l.token = .closeList) :
      Accepts l (.afterValue v (.list start items :: frames))
        (.inl (.afterValue (.list start (Items.ofReversed (v :: items) (.closed l.stop))) frames))
  | nextMember {v : Tree} {start : Nat} {members : List Entry} {key : Except Fault String}
      {colon : Nat} {frames : List Frame} (token : l.token = .comma) :
      Accepts l (.afterValue v (.object start members key colon :: frames))
        (.inl (.atKey start (⟨key, colon, v, l.start⟩ :: members) frames))
  | endOfObject {v : Tree} {start : Nat} {members : List Entry} {key : Except Fault String}
      {colon : Nat} {frames : List Frame} (token : l.token = .closeObject) :
      Accepts l (.afterValue v (.object start members key colon :: frames))
        (.inl (.afterValue (.object start
          (Members.ofReversed (⟨key, colon, v, l.start⟩ :: members) (.closed l.stop))) frames))
  | emptyObject {start : Nat} {frames : List Frame} (token : l.token = .closeObject) :
      Accepts l (.atFirstKey start frames)
        (.inl (.afterValue (.object start (.closed l.stop)) frames))
  | firstKey {start : Nat} {frames : List Frame} {next : Progress ⊕ Source}
      (begun : beginKey start [] frames l = some next) : Accepts l (.atFirstKey start frames) next
  | key {start : Nat} {members : List Entry} {frames : List Frame} {next : Progress ⊕ Source}
      (begun : beginKey start members frames l = some next) :
      Accepts l (.atKey start members frames) next
  | colon {start : Nat} {members : List Entry} {key : Except Fault String} {frames : List Frame}
      (token : l.token = .colon) :
      Accepts l (.atColon start members key frames)
        (.inl (.atValue (.object start members key l.start :: frames)))

theorem accepts_of_accept {l : Lexeme} {p : Progress} {next : Progress ⊕ Source}
    (h : p.accept l = some next) : Accepts l p next := by
  cases p with
  | atValue frames => exact .value h
  | atFirstItem start frames =>
    simp only [accept] at h
    split at h
    · next ht =>
      cases h
      exact .emptyList ht
    · exact .firstItem h
  | afterValue v frames =>
    cases frames with
    | nil => cases h
    | cons frame frames =>
      cases frame with
      | list start items =>
        simp only [accept] at h
        split at h
        · next ht =>
          cases h
          exact .nextItem ht
        · next ht =>
          cases h
          exact .endOfList ht
        · cases h
      | object start members key colon =>
        simp only [accept] at h
        split at h
        · next ht =>
          cases h
          exact .nextMember ht
        · next ht =>
          cases h
          exact .endOfObject ht
        · cases h
  | atFirstKey start frames =>
    simp only [accept] at h
    split at h
    · next ht =>
      cases h
      exact .emptyObject ht
    · exact .firstKey h
  | atKey start members frames => exact .key h
  | atColon start members key frames =>
    simp only [accept] at h
    split at h
    · next ht =>
      cases h
      exact .colon ht
    · cases h

/-! What each mark leads to where it is due. -/

theorem accept_closeList_atFirstItem (start : Nat) (frames : List Frame) (l : Lexeme)
    (hl : l.token = .closeList) : accept l (.atFirstItem start frames) =
      some (.inl (.afterValue (.list start (.closed l.stop)) frames)) := by
  simp only [accept, hl]

theorem accept_closeObject_atFirstKey (start : Nat) (frames : List Frame) (l : Lexeme)
    (hl : l.token = .closeObject) : accept l (.atFirstKey start frames) =
      some (.inl (.afterValue (.object start (.closed l.stop)) frames)) := by
  simp only [accept, hl]

theorem accept_closeList_afterValue (start : Nat) (frames : List Frame) (T : Tree)
    (done : List Tree) (l : Lexeme) (hl : l.token = .closeList) :
    accept l (.afterValue T (.list start done :: frames)) = some (.inl (.afterValue
      (.list start (Items.ofReversed (T :: done) (.closed l.stop))) frames)) := by
  simp only [accept, hl]

theorem accept_comma_list (start : Nat) (frames : List Frame) (T : Tree) (done : List Tree)
    (l : Lexeme) (hl : l.token = .comma) :
    accept l (.afterValue T (.list start done :: frames)) =
      some (.inl (.atValue (.list start (T :: done) :: frames))) := by
  simp only [accept, hl]

theorem accept_closeObject_afterValue (start : Nat) (frames : List Frame)
    (key : Except Fault String) (colon : Nat) (T : Tree) (done : List Entry) (l : Lexeme)
    (hl : l.token = .closeObject) :
    accept l (.afterValue T (.object start done key colon :: frames)) =
      some (.inl (.afterValue (.object start (Members.ofReversed (⟨key, colon, T, l.start⟩ :: done)
        (.closed l.stop))) frames)) := by
  simp only [accept, hl]

theorem accept_comma_object (start : Nat) (frames : List Frame) (key : Except Fault String)
    (colon : Nat) (T : Tree) (done : List Entry) (l : Lexeme) (hl : l.token = .comma) :
    accept l (.afterValue T (.object start done key colon :: frames)) =
      some (.inl (.atKey start (⟨key, colon, T, l.start⟩ :: done) frames)) := by
  simp only [accept, hl]

theorem accept_text_atKey (start : Nat) (frames : List Frame) (members : List Entry) (l : Lexeme)
    (s : Except Fault String) (hl : l.token = .text s) :
    accept l (.atKey start members frames) =
      some (.inl (.atColon start members s frames)) := by
  simp only [accept, beginKey, hl]

theorem accept_text_atFirstKey (start : Nat) (frames : List Frame) (l : Lexeme)
    (s : Except Fault String) (hl : l.token = .text s) :
    accept l (.atFirstKey start frames) = some (.inl (.atColon start [] s frames)) := by
  simp only [accept, beginKey, hl]

end DeckDoc.Json.Progress
