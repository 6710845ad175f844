import DeckDoc.Literal
import DeckDoc.Proofs.Json.Content

namespace DeckDoc

open Json

namespace Json.Reader

/-- What is made of a reading is made of it after the text has been read to its end. -/
theorem ofText_map {α β : Type} (read : Reader α) (f : α → β) (text : String) :
    Reader.ofText (fun room T => (read room T).map f) text = (read.ofText text).map f := by
  unfold Reader.ofText
  dsimp only
  cases read depthLimit (Source.ofText text).tree with
  | error e => rfl
  | ok a => cases (Source.ofText text).finish <;> rfl

theorem readText_placed {α : Type} (read : Reader α) (text : String) :
    read.placed.readText text = (read.ofText text).mapError Rejection.ofFault := by
  unfold readText Reader.ofText placed
  dsimp only
  cases read depthLimit (Source.ofText text).tree with
  | error e => rfl
  | ok a => cases (Source.ofText text).finish <;> rfl

end Json.Reader

namespace Literal

/-- What a literal says of the value it was made of: a scalar is kept under its kind, the entries of
a list are literals again, and all else is kept as it is. -/
inductive Carries : Literal → Value → Prop
  | bool (b : Bool) : Carries (.bool b) (.bool b)
  | number (n : Number) : Carries (.number n) (.number n)
  | text (s : String) : Carries (.text s) (.text s)
  | list {ls : List Literal} {vs : List Value} (entries : List.Forall₂ Carries ls vs) :
    Carries (.list ls) (.list vs)
  | null : Carries (.other .null) .null
  | object (ms : List (String × Value)) : Carries (.other (.object ms)) (.object ms)

/-- A literal that keeps no value for which there is a kind of its own. The objects that it keeps
have their members in order. -/
inductive Proper : Literal → Prop
  | bool (b : Bool) : Proper (.bool b)
  | number (n : Number) : Proper (.number n)
  | text (s : String) : Proper (.text s)
  | list {ls : List Literal} (entries : ∀ l ∈ ls, Proper l) : Proper (.list ls)
  | null : Proper (.other .null)
  | object {ms : List (String × Value)} (h : (Value.object ms).InOrder) :
    Proper (.other (.object ms))

theorem toValues_eq_map (ls : List Literal) : toValues ls = ls.map toValue := by
  induction ls with
  | nil => rfl
  | cons l ls ih => simp [toValues, ih]

mutual

/-- The literal of a value by its kind alone, without any trial. -/
def classify : Value → Literal
  | .bool b => .bool b
  | .number n => .number n
  | .text s => .text s
  | .list vs => .list (classifyEntries vs)
  | .null => .other .null
  | .object ms => .other (.object ms)

def classifyEntries : List Value → List Literal
  | [] => []
  | v :: vs => classify v :: classifyEntries vs

end

theorem classifyEntries_eq_map (vs : List Value) : classifyEntries vs = vs.map classify := by
  induction vs with
  | nil => rfl
  | cons v vs ih => simp [classifyEntries, ih]

mutual

/-- A value is a literal without loss. -/
theorem toValue_classify : ∀ v : Value, (classify v).toValue = v
  | .bool _ => rfl
  | .number _ => rfl
  | .text _ => rfl
  | .null => rfl
  | .object _ => rfl
  | .list vs => by simp [classify, toValue, toValues_classifyEntries vs]

theorem toValues_classifyEntries : ∀ vs : List Value, toValues (classifyEntries vs) = vs
  | [] => rfl
  | v :: vs => by
    simp [classifyEntries, toValues, toValue_classify v, toValues_classifyEntries vs]

end

mutual

theorem carries_classify : ∀ v : Value, (classify v).Carries v
  | .bool b => .bool b
  | .number n => .number n
  | .text s => .text s
  | .null => .null
  | .object ms => .object ms
  | .list vs => .list (carries_classifyEntries vs)

theorem carries_classifyEntries : ∀ vs : List Value, List.Forall₂ Carries (classifyEntries vs) vs
  | [] => .nil
  | v :: vs => .cons (carries_classify v) (carries_classifyEntries vs)

end

mutual

theorem proper_classify_merged : ∀ v : Value, (classify v.merged).Proper
  | .bool b => .bool b
  | .number n => .number n
  | .text s => .text s
  | .null => .null
  | .object ms => .object (Value.inOrder_merged (.object ms))
  | .list vs => .list (proper_classifyEntries_merged vs)

theorem proper_classifyEntries_merged :
    ∀ vs : List Value, ∀ l ∈ classifyEntries (Value.mergedEntries vs), l.Proper
  | [] => List.forall_mem_nil _
  | v :: vs => List.forall_mem_cons.mpr
    ⟨proper_classify_merged v, proper_classifyEntries_merged vs⟩

end

theorem Proper.inOrder_toValue {l : Literal} (h : l.Proper) : l.toValue.InOrder := by
  induction h with
  | bool b => rfl
  | number n => rfl
  | text s => rfl
  | null => rfl
  | object h => exact h
  | list entries ih =>
    rw [toValue, Value.InOrder, Value.merged, toValues_eq_map, Value.mergedEntries_eq_map,
      List.map_map]
    exact congrArg Value.list (List.map_congr_left ih)

theorem Proper.classify_toValue {l : Literal} (h : l.Proper) : classify l.toValue = l := by
  induction h with
  | bool b => rfl
  | number n => rfl
  | text s => rfl
  | null => rfl
  | object h => rfl
  | list entries ih =>
    rw [toValue, classify, toValues_eq_map, classifyEntries_eq_map, List.map_map]
    exact congrArg Literal.list ((List.map_congr_left ih).trans (List.map_id _))

/-! The kinds that are tried in order agree with the kind of the value. -/

mutual

theorem ofContent_eq_ok : ∀ c : Content, ofContent c = .ok (classify c.value)
  | .bool _ => rfl
  | .number _ => rfl
  | .text _ => rfl
  | .null => rfl
  | .object _ => rfl
  | .list cs => by
    rw [ofContent, ofContents_eq_ok cs]
    rfl

theorem ofContents_eq_ok :
    ∀ cs : List Content, ofContents cs = .ok (classifyEntries (Content.entryValues cs))
  | [] => rfl
  | c :: cs => by
    rw [ofContents, ofContent_eq_ok c, ofContents_eq_ok cs]
    rfl

end

theorem ofValue_eq_ok (v : Value) : ofValue v = .ok (classify v.merged) := by
  rw [ofValue, ofContent_eq_ok, Content.value_ofValue]

/-- A literal is made again of the value it is written as if and only if it is proper. -/
theorem ofValue_toValue_iff {l : Literal} : ofValue l.toValue = .ok l ↔ l.Proper := by
  rw [ofValue_eq_ok, Except.ok.injEq]
  constructor
  · intro h
    rw [← h]
    exact proper_classify_merged l.toValue
  · intro h
    rw [h.inOrder_toValue, h.classify_toValue]

/-- What is kept and tried kind by kind is read as a value, and fails as one. -/
theorem reader_eq_placed :
    reader = Reader.placed fun room T => (Reader.value room T).map classify := by
  funext room T
  unfold reader Reader.placed Reader.value
  dsimp only
  rw [Tree.value_eq_map_content]
  cases T.content room with
  | error f => rfl
  | ok c =>
    dsimp only
    rw [ofContent_eq_ok]
    rfl

theorem readText_reader (text : String) :
    reader.readText text =
      ((Reader.value.ofText text).map classify).mapError Rejection.ofFault := by
  rw [reader_eq_placed, Reader.readText_placed, Reader.ofText_map]

/-- A text is read as a literal where it is read as a value, and fails alike where it is not. -/
theorem ofText_eq_map (text : String) :
    ofText text = (Reader.value.ofText text).map classify := by
  rw [ofText, readText_reader]
  cases Reader.value.ofText text <;> rfl

/-- Every text of a value is that of a literal, which carries the value and is written as it. A
literal is made again of what it is written as if and only if it is proper. -/
theorem ofText_carries (text : String) :
    ((∃ l, ofText text = .ok l) ↔ ∃ v, Reader.value.ofText text = .ok v) ∧
      (∀ v, Reader.value.ofText text = .ok v →
        ∃ l, ofText text = .ok l ∧ l.toValue = v ∧ l.Carries v) ∧
      ∀ l : Literal, ofValue l.toValue = .ok l ↔ l.Proper := by
  have hread : ∀ v, Reader.value.ofText text = .ok v → ofText text = .ok (classify v) := by
    intro v hv
    rw [ofText_eq_map, hv]
    rfl
  refine ⟨⟨?_, ?_⟩, ?_, fun l => ofValue_toValue_iff⟩
  · rintro ⟨l, hl⟩
    rw [ofText_eq_map] at hl
    obtain ⟨v, hv, -⟩ := Except.map_eq_ok_iff.mp hl
    exact ⟨v, hv⟩
  · rintro ⟨v, hv⟩
    exact ⟨classify v, hread v hv⟩
  · intro v hv
    exact ⟨classify v, hread v hv, toValue_classify v, carries_classify v⟩

theorem ofText_carries_nested :
    ∃ v, Reader.value.ofText "[[-1,null],\x7b\"a\":[true]\x7d]" = .ok v ∧
      ∃ l, ofText "[[-1,null],\x7b\"a\":[true]\x7d]" = .ok l ∧ l.toValue = v ∧ l.Carries v := by
  have hread : Reader.value.ofText "[[-1,null],\x7b\"a\":[true]\x7d]" =
      .ok (.list [.list [.number (.integer (-1)), .null],
        .object [("a", .list [.bool true])]]) := by
    cbv
  exact ⟨_, hread, (ofText_carries _).2.1 _ hread⟩

end Literal

end DeckDoc
