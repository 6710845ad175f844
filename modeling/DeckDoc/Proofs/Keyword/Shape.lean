import DeckDoc.Keyword
import DeckDoc.Proofs.Json.Shape
import DeckDoc.Proofs.Keyword.Sizing

namespace DeckDoc

open Json

theorem Literal.accepts_reader : Literal.reader.optional.Accepts Form.value := by
  have accepts : Literal.reader.Accepts Form.value := by
    intro room T
    rw [← Reader.accepts_value room T]
    simp only [Literal.reader_eq_ok_iff]
    constructor
    · intro h
      obtain ⟨_, v, hv, -⟩ := h
      exact ⟨v, hv⟩
    · intro h
      obtain ⟨v, hv⟩ := h
      exact ⟨_, v, hv, rfl⟩
  intro room T
  rw [accepts.optional room T]
  constructor
  · intro h
    rcases h with h | h
    · exact ⟨.null, h, Nat.zero_le _⟩
    · exact h
  · exact .inr

namespace Item

def Key.form : Key → Form
  | .name => Form.text.orNull
  | .valueType => Form.text.orNull
  | .description => Form.text.orNull
  | .comment => Form.text.orNull
  | _ => Form.value

/-- Names, types, descriptions and comments are texts. -/
def Key.Shape : Key → Value → Prop
  | .name => Value.OrNull Value.IsText
  | .valueType => Value.OrNull Value.IsText
  | .description => Value.OrNull Value.IsText
  | .comment => Value.OrNull Value.IsText
  | _ => fun _ => True

def form : Form := Form.record layout Key.form

def Shape : Value → Prop := Value.IsRecord layout Key.Shape

theorem accepts_reader : reader.Accepts form := by
  refine Reader.accepts_record (by decide) (fun c => ⟨_, rfl⟩) fun k => ?_
  cases k with
  | name | valueType | description | comment => exact Reader.accepts_text.optional.placed
  | _ => exact Literal.accepts_reader

theorem form_agrees {v : Value} (h : ∀ vs, v ≠ .list vs) : form.Agrees Shape v := by
  refine Form.agrees_record h fun ms _ f _ => ?_
  obtain ⟨k, u⟩ := f
  cases k with
  | name | valueType | description | comment => exact Form.agrees_text.orNull
  | _ => exact Form.agrees_value

end Item

namespace CodeBlock

def form : Form := Form.record layout fun _ => Form.text.orNull

def Shape : Value → Prop := Value.IsRecord layout fun _ => Value.OrNull Value.IsText

theorem accepts_reader : reader.Accepts form :=
  Reader.accepts_record (by decide) (fun c => ⟨_, rfl⟩) fun _ =>
    Reader.accepts_text.optional.placed

theorem form_agrees {v : Value} (h : ∀ vs, v ≠ .list vs) : form.Agrees Shape v :=
  Form.agrees_record h fun _ _ _ _ => Form.agrees_text.orNull

end CodeBlock

namespace DataSpec

def Key.form : Key → Form
  | .valueType => Form.text.orNull
  | _ => Form.value

def Key.Shape : Key → Value → Prop
  | .valueType => Value.OrNull Value.IsText
  | _ => fun _ => True

def form : Form := Form.record layout Key.form

def Shape : Value → Prop := Value.IsRecord layout Key.Shape

theorem accepts_reader : reader.Accepts form := by
  refine Reader.accepts_record (by decide) (fun c => ⟨_, rfl⟩) fun k => ?_
  cases k with
  | valueType => exact Reader.accepts_text.optional.placed
  | _ => exact Literal.accepts_reader

theorem form_agrees {v : Value} (h : ∀ vs, v ≠ .list vs) : form.Agrees Shape v := by
  refine Form.agrees_record h fun ms _ f _ => ?_
  obtain ⟨k, u⟩ := f
  cases k with
  | valueType => exact Form.agrees_text.orNull
  | _ => exact Form.agrees_value

end DataSpec

namespace Sizing

/-- Of an object the last `keyword` must be a text. -/
def Shape (v : Value) : Prop :=
  ∀ ms, v = .object ms → ∀ u, ms.reverse.lookup "keyword" = some u → u.OrNull Value.IsText

def form : Form := fun room T => ∃ v, T.spelled = some v ∧ v.depth ≤ room ∧ Shape v

theorem ofMembers_isOk_iff {members : List (String × Value)} :
    (∃ r, Reference.ofMembers members = .ok r) ↔
      ∀ u, members.lookup "keyword" = some u → u.OrNull Value.IsText := by
  have hkeyword : (∃ r, Reference.ofMembers members = .ok r) ↔
      ∃ o, Reference.keywordOf members = .ok o := by
    simp [Reference.ofMembers, Reference.itemOf_eq_ok, Except.bind_eq_ok_iff, pure, Except.pure,
      exists_comm]
  rw [hkeyword, Reference.keywordOf]
  cases members.lookup "keyword" with
  | none => simp
  | some u => cases u <;> simp [Value.OrNull, Value.IsText]

theorem merged_orNull_isText {v : Value} :
    v.merged.OrNull Value.IsText ↔ v.OrNull Value.IsText := by
  cases v <;> simp [Value.merged, Value.OrNull, Value.IsText]

theorem ofValue_isOk_iff {v : Value} : (∃ s, ofValue v.merged = .ok s) ↔ Shape v := by
  cases v with
  | object ms =>
    have hmembers := @ofMembers_isOk_iff (Value.merge (Value.mergedMembers ms))
    simp only [Value.lookup_merge_mergedMembers, Option.map_eq_some_iff, forall_exists_index,
      and_imp, forall_apply_eq_imp_iff₂, merged_orNull_isText] at hmembers
    simp [Value.merged, ofValue, Except.map_eq_ok_iff, Shape, ← hmembers]
  | _ => simp [Value.merged, ofValue, Literal.ofValue_eq_ok, Except.map, Shape]

theorem accepts_reader : reader.optional.Accepts form := by
  have accepts : reader.Accepts form := by
    intro room T
    simp only [reader_eq_ok_iff, form, ← ofValue_isOk_iff]
    constructor
    · intro h
      obtain ⟨s, u, hu, hs⟩ := h
      obtain ⟨v, hv, hd, rfl⟩ := Tree.value_eq_ok_iff.mp hu
      exact ⟨v, hv, hd, s, hs⟩
    · intro h
      obtain ⟨v, hv, hd, s, hs⟩ := h
      exact ⟨s, _, Tree.value_eq_ok_iff.mpr ⟨v, hv, hd, rfl⟩, hs⟩
  intro room T
  rw [accepts.optional room T]
  constructor
  · intro h
    rcases h with h | h
    · exact ⟨.null, h, Nat.zero_le _, fun ms he => nomatch he⟩
    · exact h
  · exact .inr

theorem form_agrees {v : Value} : form.Agrees Shape v := by
  intro room T hT hd
  simp [form, hT, hd]

end Sizing

namespace Keyword

namespace Key

def form : Key → Form
  | .name => Form.text.orNull
  | .description => Form.text.orNull
  | .comment => Form.text.orNull
  | .deckName => Form.text.orNull
  | .deckNames => Form.text.list.orNull
  | .deckNameRegex => Form.text.orNull
  | .sections => Form.text.list.orNull
  | .requires => Form.text.list.orNull
  | .prohibits => Form.text.list.orNull
  | .size => Sizing.form
  | .minSize => Form.value
  | .numTables => Sizing.form
  | .code => CodeBlock.form.orNull
  | .items => Item.form.list.orNull
  | .data => DataSpec.form.orNull
  | .records => Item.form.list.list.orNull
  | .recordsSet => Item.form.list.list.orNull
  | .alternatingRecords => Item.form.list.list.orNull

/-- What the value of a key must look like. -/
def Shape : Key → Value → Prop
  | .name => Value.OrNull Value.IsText
  | .description => Value.OrNull Value.IsText
  | .comment => Value.OrNull Value.IsText
  | .deckName => Value.OrNull Value.IsText
  | .deckNames => Value.OrNull (Value.IsListOf Value.IsText)
  | .deckNameRegex => Value.OrNull Value.IsText
  | .sections => Value.OrNull (Value.IsListOf Value.IsText)
  | .requires => Value.OrNull (Value.IsListOf Value.IsText)
  | .prohibits => Value.OrNull (Value.IsListOf Value.IsText)
  | .size => Sizing.Shape
  | .minSize => fun _ => True
  | .numTables => Sizing.Shape
  | .code => Value.OrNull CodeBlock.Shape
  | .items => Value.OrNull (Value.IsListOf Item.Shape)
  | .data => Value.OrNull DataSpec.Shape
  | .records => Value.OrNull (Value.IsListOf (Value.IsListOf Item.Shape))
  | .recordsSet => Value.OrNull (Value.IsListOf (Value.IsListOf Item.Shape))
  | .alternatingRecords => Value.OrNull (Value.IsListOf (Value.IsListOf Item.Shape))

/-- Where in the value of a key the text should hold records. -/
def places {α : Type} (entries : α → List α) : Key → α → List α
  | .code, a => [a]
  | .items, a => entries a
  | .data, a => [a]
  | .records, a => (entries a).flatMap entries
  | .recordsSet, a => (entries a).flatMap entries
  | .alternatingRecords, a => (entries a).flatMap entries
  | _, _ => []

end Key

def form : Form := Form.record layout Key.form

theorem accepts_reader : reader.Accepts form := by
  refine Reader.accepts_record (by decide) (fun c => ⟨_, rfl⟩) fun k => ?_
  cases k with
  | name | description | comment | deckName | deckNameRegex =>
    exact Reader.accepts_text.optional.placed
  | deckNames | sections | requires | prohibits =>
    exact Reader.accepts_text.list.optional.placed
  | size | numTables => exact Sizing.accepts_reader
  | minSize => exact Literal.accepts_reader
  | code => exact CodeBlock.accepts_reader.optional.placed
  | items => exact Item.accepts_reader.list.optional.placed
  | data => exact DataSpec.accepts_reader.optional.placed
  | records | recordsSet | alternatingRecords =>
    exact Item.accepts_reader.list.list.optional.placed

theorem form_agrees_records {v : Value}
    (h : ∀ u ∈ v.entries.flatMap Value.entries, ∀ ws, u ≠ .list ws) :
    Item.form.list.list.orNull.Agrees
      (Value.OrNull (Value.IsListOf (Value.IsListOf Item.Shape))) v := by
  refine Form.Agrees.orNull (Form.Agrees.list_of_entries fun u hu => ?_)
  refine Form.Agrees.list_of_entries fun w hw => Item.form_agrees (h w ?_)
  exact List.mem_flatMap.mpr ⟨u, hu, hw⟩

theorem Key.form_agrees {k : Key} {v : Value}
    (h : ∀ u ∈ k.places Value.entries v, ∀ ws, u ≠ .list ws) : k.form.Agrees k.Shape v := by
  cases k with
  | name | description | comment | deckName | deckNameRegex => exact Form.agrees_text.orNull
  | deckNames | sections | requires | prohibits =>
    exact (Form.Agrees.list_of_entries fun _ _ => Form.agrees_text).orNull
  | size | numTables => exact Sizing.form_agrees
  | minSize => exact Form.agrees_value
  | code => exact (CodeBlock.form_agrees (h v (List.mem_singleton.mpr rfl))).orNull
  | items => exact (Form.Agrees.list_of_entries fun u hu => Item.form_agrees (h u hu)).orNull
  | data => exact (DataSpec.form_agrees (h v (List.mem_singleton.mpr rfl))).orNull
  | records | recordsSet | alternatingRecords => exact form_agrees_records h

/-- A text that is an object, without lists where records should be, is a description if no key of
a description comes twice and each has its shape. -/
theorem accepted_iff_shape {text : String} {v : Value} {members : List (String × Value)}
    (hv : Reader.value.ofText text = .ok v)
    (hs : (Source.ofText text).tree.spelled = some (.object members))
    (hl : ∀ f ∈ layout.known members, ∀ u ∈ f.1.places Value.entries f.2, ∀ ws, u ≠ .list ws) :
    (∃ k, ofText text = .ok k) ↔ ((layout.known members).map Prod.fst).Nodup ∧
      ∀ f ∈ layout.known members, f.1.Shape f.2 := by
  obtain ⟨hv, hx⟩ := Reader.ofText_eq_ok_iff.mp hv
  obtain ⟨u, hu, hd, -⟩ := Tree.value_eq_ok_iff.mp hv
  obtain rfl := Option.some.inj (hs.symm.trans hu)
  have agrees : form.Agrees (Value.IsRecord layout Key.Shape) (.object members) := by
    refine Form.agrees_record (fun ms he => nomatch he) fun ms he f hf => ?_
    obtain rfl := Value.object.inj he
    exact Key.form_agrees (hl f hf)
  simp only [ofText, Reader.ofText_eq_ok_iff, hx, and_true, accepts_reader _ _,
    agrees _ _ hs hd, Value.IsRecord, Value.object.injEq, exists_eq_left']

theorem accepted_iff_shape_of_repeated_keys :
    (∃ k, ofText "\x7b\"size\":\x7b\"keyword\":1,\"keyword\":\"N\"\x7d,\"items\":[]\x7d" = .ok k) ∧
      ¬ ∃ k, ofText "\x7b\"items\":[\x7b\"name\":\"I\",\"name\":null\x7d]\x7d" = .ok k := by
  constructor
  · have known (size : Value) : layout.known [("size", size), ("items", .list [])] =
        [(.size, size), (.items, .list [])] := rfl
    have read : Reader.value.ofText
        "\x7b\"size\":\x7b\"keyword\":1,\"keyword\":\"N\"\x7d,\"items\":[]\x7d" =
        .ok (.object [("items", .list []), ("size", .object [("keyword", .text "N")])]) := by cbv
    refine (accepted_iff_shape read (by cbv) ?_).mpr ⟨?_, ?_⟩ <;> rw [known]
    · simp [Key.places, Value.entries]
    · decide
    · simp [Key.Shape, Sizing.Shape, Value.OrNull, Value.IsText, Value.IsListOf]
  · have known (item : Value) : layout.known [("items", Value.list [item])] =
        [(.items, .list [item])] := rfl
    have fields : Item.layout.known [("name", Value.text "I"), ("name", .null)] =
        [(.name, .text "I"), (.name, .null)] := rfl
    have read : Reader.value.ofText
        "\x7b\"items\":[\x7b\"name\":\"I\",\"name\":null\x7d]\x7d" =
        .ok (.object [("items", .list [.object [("name", .null)]])]) := by cbv
    refine mt (accepted_iff_shape read (by cbv) ?_).mp ?_ <;> rw [known]
    · simp [Key.places, Value.entries]
    · simp [Key.Shape, Value.OrNull, Value.IsListOf, Item.Shape, Value.IsRecord, fields]

end Keyword

end DeckDoc
