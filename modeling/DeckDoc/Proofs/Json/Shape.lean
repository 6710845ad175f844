import DeckDoc.Proofs.Json.Record

namespace DeckDoc.Json

theorem exists_forall₂_iff {α β : Type} {R : α → β → Prop} {as : List α} :
    (∃ bs, List.Forall₂ R as bs) ↔ ∀ a ∈ as, ∃ b, R a b := by
  induction as with
  | nil => simp
  | cons a as ih =>
    rw [List.forall_mem_cons, ← ih]
    constructor
    · intro h
      obtain ⟨_, hall⟩ := h
      cases hall with
      | cons hb hall => exact ⟨⟨_, hb⟩, _, hall⟩
    · intro h
      obtain ⟨⟨b, hb⟩, bs, hall⟩ := h
      exact ⟨b :: bs, .cons hb hall⟩

theorem forall_mem_congr {α β : Type} {R : α → β → Prop} {p : α → Prop} {q : β → Prop}
    {as : List α} {bs : List β} (h : List.Forall₂ R as bs)
    (hpq : ∀ a, ∀ b ∈ bs, R a b → (p a ↔ q b)) : (∀ a ∈ as, p a) ↔ ∀ b ∈ bs, q b := by
  induction h with
  | nil => simp
  | cons hab hall ih =>
    rw [List.forall_mem_cons, List.forall_mem_cons, hpq _ _ List.mem_cons_self hab,
      ih fun a b hb => hpq a b (List.mem_cons_of_mem _ hb)]

/-- A condition on a tree that is to be read with some room for brackets. -/
abbrev Form := Nat → Tree → Prop

namespace Form

def text : Form := fun _ T => ∃ s, T.spelled = some (.text s)

def value : Form := fun room T => ∃ v, T.spelled = some v ∧ v.depth ≤ room

def orNull (form : Form) : Form := fun room T => T.spelled = some .null ∨ form room T

def list (form : Form) : Form := fun room T =>
  ∃ n ts, room = n + 1 ∧ T.trees? = some ts ∧ ∀ t ∈ ts, form n t

variable {κ : Type} {Content : κ → Type} {σ : Type}

/-- Fields with different keys, each in its form. -/
def record (layout : Layout κ Content σ) (form : κ → Form) : Form := fun room T =>
  ∃ n fields, room = n + 1 ∧ layout.Fields T fields ∧ (fields.map Prod.fst).Nodup ∧
    ∀ f ∈ fields, form f.1 n f.2

end Form

namespace Reader

variable {α ε : Type}

/-- The form of the trees that a reader accepts. -/
def Accepts (read : Reader α ε) (form : Form) : Prop :=
  ∀ room T, (∃ a, read room T = .ok a) ↔ form room T

theorem accepts_text : Accepts text Form.text := by
  intro room T
  simp only [text_eq_ok_iff, Form.text]

theorem accepts_value : Accepts value Form.value := by
  intro room T
  simp only [value, Tree.value_eq_ok_iff, Form.value]
  constructor
  · intro h
    obtain ⟨_, v, hv, hd, -⟩ := h
    exact ⟨v, hv, hd⟩
  · intro h
    obtain ⟨v, hv, hd⟩ := h
    exact ⟨_, v, hv, hd, rfl⟩

theorem Accepts.placed {read : Reader α} {form : Form} (h : read.Accepts form) :
    read.placed.Accepts form := by
  intro room T
  simp only [placed_eq_ok_iff, h room T]

theorem Accepts.optional {read : Reader α ε} {form : Form} (h : read.Accepts form) :
    read.optional.Accepts form.orNull := by
  intro room T
  simp only [optional_eq_ok_iff, Form.orNull, ← h room T]
  constructor
  · intro hr
    obtain ⟨_, ⟨hn, -⟩ | ⟨-, a, ha, -⟩⟩ := hr
    · exact .inl hn
    · exact .inr ⟨a, ha⟩
  · intro hr
    rcases hr with hn | ⟨a, ha⟩
    · exact ⟨none, .inl ⟨hn, rfl⟩⟩
    · by_cases hn : T.spelled = some .null
      · exact ⟨none, .inl ⟨hn, rfl⟩⟩
      · exact ⟨some a, .inr ⟨hn, a, ha, rfl⟩⟩

theorem Accepts.list {read : Reader α} {form : Form} (h : read.Accepts form) :
    read.list.Accepts form.list := by
  intro room T
  simp only [list_eq_ok_iff, Form.list, ← h _ _, ← exists_forall₂_iff]
  constructor
  · intro hr
    obtain ⟨as, n, ts, hn, hts, hall⟩ := hr
    exact ⟨n, ts, hn, hts, as, hall⟩
  · intro hr
    obtain ⟨n, ts, hn, hts, as, hall⟩ := hr
    exact ⟨as, n, ts, hn, hts, hall⟩

variable {κ : Type} [DecidableEq κ] {Content : κ → Type} {σ : Type}

theorem accepts_record {layout : Layout κ Content σ} {form : κ → Form}
    (hkeys : layout.keys.Nodup) (hmake : ∀ contents, ∃ s, layout.make contents = .ok s)
    (h : ∀ k, (layout.read k).Accepts (form k)) :
    layout.reader.Accepts (Form.record layout form) := by
  intro room T
  simp only [layout.reader_eq_ok_iff hkeys, Form.record, ← h _ _ _]
  constructor
  · intro hr
    obtain ⟨s, n, fields, hn, hf, hnd, hall, -⟩ := hr
    exact ⟨n, fields, hn, hf, hnd, hall⟩
  · intro hr
    obtain ⟨n, fields, hn, hf, hnd, hall⟩ := hr
    obtain ⟨s, hs⟩ := hmake (layout.contentsOf n fields)
    exact ⟨s, n, fields, hn, hf, hnd, hall, hs⟩

end Reader

namespace Value

def IsText (v : Value) : Prop := ∃ s, v = .text s

def OrNull (shape : Value → Prop) (v : Value) : Prop := v = .null ∨ shape v

/-- The entries of a list, none for anything else. -/
def entries : Value → List Value
  | .list vs => vs
  | _ => []

def IsListOf (shape : Value → Prop) (v : Value) : Prop := ∃ vs, v = .list vs ∧ ∀ u ∈ vs, shape u

variable {κ : Type} {Content : κ → Type} {σ : Type}

/-- An object in which no known key comes twice and each has its shape. -/
def IsRecord (layout : Layout κ Content σ) (shape : κ → Value → Prop) (v : Value) : Prop :=
  ∃ ms, v = .object ms ∧ ((layout.known ms).map Prod.fst).Nodup ∧
    ∀ f ∈ layout.known ms, shape f.1 f.2

end Value

/-- A tree that spells the value is in the form if and only if the value has the shape. -/
def Form.Agrees (form : Form) (shape : Value → Prop) (v : Value) : Prop :=
  ∀ room T, T.spelled = some v → v.depth ≤ room → (form room T ↔ shape v)

namespace Form

variable {form : Form} {shape : Value → Prop} {v : Value}

theorem agrees_text : text.Agrees Value.IsText v := by
  intro room T hT _
  simp [text, Value.IsText, hT]

theorem agrees_value : value.Agrees (fun _ => True) v := by
  intro room T hT hd
  simp [value, hT, hd]

theorem Agrees.orNull (h : form.Agrees shape v) : form.orNull.Agrees (Value.OrNull shape) v := by
  intro room T hT hd
  simp [Form.orNull, Value.OrNull, hT, h room T hT hd]

theorem agrees_list {vs : List Value} (h : ∀ u ∈ vs, form.Agrees shape u) :
    form.list.Agrees (Value.IsListOf shape) (.list vs) := by
  intro room T hT hd
  obtain ⟨ts, hts, hall⟩ := Tree.spelled_eq_list_iff.mp hT
  obtain ⟨n, rfl⟩ : ∃ n, room = n + 1 :=
    Nat.exists_eq_add_of_le' (Nat.le_trans (Nat.le_add_left 1 _) hd)
  have hdepth := Value.depthEntries_le_iff.mp (Nat.le_of_succ_le_succ hd)
  have hentries : (∀ t ∈ ts, form n t) ↔ ∀ u ∈ vs, shape u :=
    forall_mem_congr hall fun t u hu ht => h u hu n t ht (hdepth u hu)
  simp [Form.list, Value.IsListOf, hts, hentries]

theorem Agrees.list_of_entries (h : ∀ u ∈ v.entries, form.Agrees shape u) :
    form.list.Agrees (Value.IsListOf shape) v := by
  cases v with
  | list vs => exact agrees_list h
  | _ =>
    intro room T hT _
    have hts : T.trees? = none := by
      cases T with
      | list _ items => simp [Tree.spelled] at hT
      | _ => rfl
    simp [Form.list, Value.IsListOf, hts]

variable {κ : Type} {Content : κ → Type} {σ : Type}

theorem agrees_record {layout : Layout κ Content σ} {form : κ → Form} {shape : κ → Value → Prop}
    (hlist : ∀ vs, v ≠ .list vs)
    (h : ∀ ms, v = .object ms → ∀ f ∈ layout.known ms, (form f.1).Agrees (shape f.1) f.2) :
    (record layout form).Agrees (Value.IsRecord layout shape) v := by
  intro room T hT hd
  cases v with
  | object vs =>
    obtain ⟨fields, hf, hkeys, hknown⟩ := layout.fields_of_spelled hT
    obtain ⟨n, rfl⟩ : ∃ n, room = n + 1 :=
      Nat.exists_eq_add_of_le' (Nat.le_trans (Nat.le_add_left 1 _) hd)
    have hdepth := Value.depthMembers_le_iff.mp (Nat.le_of_succ_le_succ hd)
    have hfields : (∀ f ∈ fields, form f.1 n f.2) ↔ ∀ f ∈ layout.known vs, shape f.1 f.2 := by
      refine forall_mem_congr hknown fun f g hg hfg => ?_
      obtain ⟨label, hm, -⟩ := layout.mem_of_mem_known hg
      rw [hfg.1, h vs rfl g hg n f.2 hfg.2 (hdepth _ hm)]
    constructor
    · intro hform
      obtain ⟨m, fields', hm, hf', hnd, hform⟩ := hform
      obtain rfl := Nat.succ.inj hm
      obtain rfl := hf.unique hf'
      exact ⟨vs, rfl, hkeys ▸ hnd, hfields.mp hform⟩
    · intro hshape
      obtain ⟨ws, hws, hnd, hshape⟩ := hshape
      obtain rfl := Value.object.inj hws
      exact ⟨n, fields, rfl, hf, hkeys ▸ hnd, hfields.mpr hshape⟩
  | list vs => exact absurd rfl (hlist vs)
  | _ =>
    constructor
    · intro hr
      obtain ⟨n, fields, -, hf, -⟩ := hr
      cases hf <;> simp [Tree.spelled] at hT
    · intro hr
      obtain ⟨_, he, -⟩ := hr
      cases he

end Form

end DeckDoc.Json
