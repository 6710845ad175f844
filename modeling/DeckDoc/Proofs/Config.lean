import DeckDoc.Document.Markdown
import DeckDoc.Proofs.Json.Required
import DeckDoc.Proofs.Json.Written

namespace DeckDoc

open Json

/-- A text is read from what spells it, and from nothing else. -/
theorem Json.Reader.text_phrase_iff (room : Nat) {U : Tree} {Q : Phrase} {s : String}
    (hU : U.phrase? = some Q) : text room U = .ok s ↔ Q = .text (some s) := by
  rw [text_eq_ok_iff, Tree.spelled_of_phrase? hU]
  cases Q <;> simp [Phrase.spelled]

namespace Placeholders

def field (p : Placeholders) : (k : Key) → k.Content
  | .name => p.name
  | .description => p.description
  | .notes => p.notes

theorem madeOf_field : layout.MadeOf field := by
  intro contents p
  change ofContents contents = .ok p ↔ _
  constructor
  · intro h k
    unfold ofContents at h
    split at h
    · cases h
      cases k <;> assumption
    · cases h
    · cases h
    · cases h
  · intro h
    simp only [ofContents, h .name, h .description, h .notes]
    rfl

def Key.phrase : (k : Key) → k.Content → Phrase
  | .name, s => .text (some s)
  | .description, s => .text (some s)
  | .notes, s => .text (some s)

theorem Key.read_phrase_iff {k : Key} {room : Nat} {U : Tree} {Q : Phrase} {c : k.Content}
    (hU : U.phrase? = some Q) : layout.read k room U = .ok c ↔ Q = k.phrase c := by
  cases k <;> exact Reader.placed_eq_ok_iff.trans (Reader.text_phrase_iff room hU)

/-- Each of the texts stands once among the members of an object. -/
structure GivenBy (p : Placeholders) (ms : List (String × Phrase)) : Prop where
  name : Once ms "name" (.text (some p.name))
  description : Once ms "description" (.text (some p.description))
  notes : Once ms "notes" (.text (some p.notes))

theorem givenBy_iff {p : Placeholders} {ms : List (String × Phrase)} :
    (∀ k : Key, ∃ Q, Once ms (layout.label k) Q ∧ Q = k.phrase (p.field k)) ↔ p.GivenBy ms := by
  simp only [exists_eq_right]
  constructor
  · intro h
    exact ⟨h .name, h .description, h .notes⟩
  · intro h k
    cases k with
    | name => exact h.name
    | description => exact h.description
    | notes => exact h.notes

theorem reader_record_iff {room : Nat} {T : Tree} {ms : List (String × Phrase)}
    (hT : T.phrase? = some (.record ms)) {p : Placeholders} :
    layout.reader (room + 1) T = .ok p ↔ p.GivenBy ms := by
  rw [layout.reader_record_iff (by decide) key?_label madeOf_field hT
    fun _ _ _ _ _ hU => Key.read_phrase_iff hU]
  exact givenBy_iff

theorem reader_null {room : Nat} {T : Tree} (hT : T.phrase? = some .null) (p : Placeholders) :
    layout.reader room T ≠ .ok p := by
  obtain ⟨_, _, rfl⟩ := Tree.spelled_eq_null_iff.mp (Tree.phrase?_eq_null_iff.mp hT)
  simp [Layout.reader]

end Placeholders

namespace Config

def field (c : Config) : (k : Key) → k.Content
  | .placeholders => c.placeholders

theorem madeOf_field : layout.MadeOf field := by
  intro contents c
  constructor
  · intro h k
    cases k with
    | placeholders =>
      cases hp : contents .placeholders with
      | none => simp [layout, hp] at h
      | some p =>
        simp only [layout, hp] at h
        cases h
        rfl
  · intro h
    simp only [layout, h .placeholders]
    rfl

/-- The placeholders stand once among the members of an object, and are an object themselves. -/
def GivenBy (c : Config) (ms : List (String × Phrase)) : Prop :=
  ∃ ps, Once ms "placeholders" (.record ps) ∧ c.placeholders.GivenBy ps

/-- Placeholders are read from an object that gives them. -/
def Key.ReadAs : (k : Key) → Phrase → k.Content → Prop
  | .placeholders, Q, p => ∃ ps, Q = .record ps ∧ p.GivenBy ps

theorem Key.readAs_record_iff {ps : List (String × Phrase)} {p : Placeholders} :
    Key.placeholders.ReadAs (.record ps) p ↔ p.GivenBy ps := by
  simp [ReadAs, Phrase.record_inj]

theorem Key.read_phrase_iff {k : Key} {room : Nat} {U : Tree} {Q : Phrase} {c : k.Content}
    (hQ : Q = .null ∨ ∃ ps, Q = .record ps) (hU : U.phrase? = some Q) :
    layout.read k (room + 1) U = .ok c ↔ k.ReadAs Q c := by
  cases k with
  | placeholders =>
    refine Reader.placed_eq_ok_iff.trans ?_
    rcases hQ with rfl | ⟨ps, rfl⟩
    · exact iff_of_false (Placeholders.reader_null hU c) (by simp [ReadAs, Phrase.record])
    · exact (Placeholders.reader_record_iff hU).trans readAs_record_iff.symm

theorem key?_label (k : Key) : layout.key? (layout.label k) = some k := by
  cases k
  decide

theorem reader_record_iff {room : Nat} {T : Tree} {ms : List (String × Phrase)}
    (hT : T.phrase? = some (.record ms))
    (hplaceholders : ∀ Q, ("placeholders", Q) ∈ ms → Q = .null ∨ ∃ ps, Q = .record ps)
    {c : Config} : layout.reader (room + 2) T = .ok c ↔ c.GivenBy ms := by
  have hread (k : Key) (Q : Phrase) (hQ : (layout.label k, Q) ∈ ms) (U : Tree) (p : k.Content)
      (hU : U.phrase? = some Q) : layout.read k (room + 1) U = .ok p ↔ k.ReadAs Q p := by
    cases k with
    | placeholders => exact Key.read_phrase_iff (hplaceholders Q hQ) hU
  rw [layout.reader_record_iff (by decide) key?_label madeOf_field hT hread]
  constructor
  · intro h
    obtain ⟨_, honce, ps, rfl, hps⟩ := h .placeholders
    exact ⟨ps, honce, hps⟩
  · rintro ⟨ps, honce, hps⟩ k
    cases k with
    | placeholders => exact ⟨_, honce, ps, rfl, hps⟩

theorem ofText_record_iff {text : String} {ms : List (String × Phrase)}
    (htext : text.toList ∈ (Phrase.record ms).document)
    (hplaceholders : ∀ Q, ("placeholders", Q) ∈ ms → Q = .null ∨ ∃ ps, Q = .record ps)
    {c : Config} : ofText text = .ok c ↔ c.GivenBy ms := by
  obtain ⟨hphrase, hexcess⟩ := Source.mem_document_iff.mp htext
  rw [ofText, Reader.ofText_eq_ok_iff, and_iff_left hexcess]
  exact reader_record_iff hphrase hplaceholders

/-- The members that a configuration is written as. -/
def members (c : Config) : List (String × Phrase) :=
  [("placeholders", .record [("name", .text (some c.placeholders.name)),
    ("description", .text (some c.placeholders.description)),
    ("notes", .text (some c.placeholders.notes))])]

theorem written_mem_document (c : Config) :
    c.toValue.written.toList ∈ (Phrase.record c.members).document :=
  c.toValue.written_mem_document (List.forall_mem_nil _)

theorem givenBy_members (c : Config) : c.GivenBy c.members := by
  refine ⟨_, ⟨List.mem_singleton.mpr rfl, rfl⟩, ⟨?_, rfl⟩, ⟨?_, rfl⟩, ⟨?_, rfl⟩⟩ <;> simp

theorem ofText_written (c : Config) : ofText c.toValue.written = .ok c := by
  refine (ofText_record_iff c.written_mem_document fun Q hQ => .inr ?_).mpr c.givenBy_members
  obtain rfl := (Prod.mk.inj (List.mem_singleton.mp hQ)).2
  exact ⟨_, rfl⟩

/-- A configuration is read back from what it is written as, and writes the same documents. Whatever
other members stand in an object, in whatever order, a configuration is read from it if and only if
the placeholders stand in it once and each of their texts once in them; these are then its texts.
The keys of both objects are texts, which half a surrogate pair in a key is not. -/
theorem survives_saving :
    (∀ c : Config, ∃ d, ofText c.toValue.written = .ok d ∧ d = c ∧
      ∀ k : Keyword, k.markdown d = k.markdown c) ∧
    ∀ (text : String) (ms : List (String × Phrase)),
      text.toList ∈ (Phrase.record ms).document →
      (∀ Q, ("placeholders", Q) ∈ ms → Q = .null ∨ ∃ ps, Q = .record ps) →
      ∀ c, ofText text = .ok c ↔ c.GivenBy ms := by
  constructor
  · intro c
    exact ⟨c, ofText_written c, rfl, fun _ => rfl⟩
  · intro text ms htext hplaceholders c
    exact ofText_record_iff htext hplaceholders

theorem survives_saving_of_reordered :
    let text := "\x7b\"x\":1e999,\"placeholders\":\x7b\"notes\":\"\",\"y\":\"\\ud800\"," ++
      "\"description\":\" \",\"name\":\"\\\"\"\x7d\x7d"
    let ps := [("notes", Phrase.text (some "")), ("y", .text none),
      ("description", .text (some " ")), ("name", .text (some "\""))]
    let ms := [("x", Phrase.number none), ("placeholders", .record ps)]
    text.toList ∈ (Phrase.record ms).document ∧
      (∀ Q, ("placeholders", Q) ∈ ms → Q = .null ∨ ∃ ps, Q = .record ps) ∧
      ofText text = .ok ⟨⟨"\"", " ", ""⟩⟩ := by
  intro text ps ms
  have htext : text.toList ∈ (Phrase.record ms).document := by
    refine Source.mem_document_iff.mpr ?_
    unfold text
    exact ⟨by cbv, by cbv⟩
  have hplaceholders : ∀ Q, ("placeholders", Q) ∈ ms → Q = .null ∨ ∃ ps, Q = .record ps := by
    intro Q hQ
    have hmember : Q = .record ps := by simpa [ms] using hQ
    exact .inr ⟨ps, hmember⟩
  refine ⟨htext, hplaceholders, (survives_saving.2 text ms htext hplaceholders _).mpr ?_⟩
  refine ⟨ps, ⟨?_, rfl⟩, ⟨?_, rfl⟩, ⟨?_, rfl⟩, ⟨?_, rfl⟩⟩ <;> simp [ms, ps]

end Config

end DeckDoc
