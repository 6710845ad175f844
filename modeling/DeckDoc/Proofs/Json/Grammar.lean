import DeckDoc.Json.Tree.Build
import DeckDoc.Proofs.Json.Proper
import DeckDoc.Proofs.Json.Order

namespace DeckDoc.Json

/-- A JSON value as it is written, but for blanks and escapes. A number out of range and a text with
half a surrogate pair are written like any other, and have no content. -/
inductive Phrase where
  | null
  | bool (value : Bool)
  | number (value : Option Number)
  | text (content : Option String)
  | list (entries : List Phrase)
  | object (members : List (Option String × Phrase))

/-! The grammar of JSON: the texts of each phrase. -/

namespace Grammar

def blanks : Language Char := {cs | ∀ c ∈ cs, Lexeme.isSpace c = true}

theorem nil_mem_blanks : [] ∈ blanks := nofun

def mark (c : Char) : Language Char := {cs | cs = [c]}

theorem mem_mark (c : Char) : [c] ∈ mark c := rfl

theorem mem_mark_blanks (c : Char) : [c] ∈ mark c * blanks :=
  Language.append_mem_mul (mem_mark c) nil_mem_blanks

def word (w : String) : Language Char := {cs | cs = w.toList}

/-- The numerals of a number. -/
def numeral (v : Option Number) : Language Char :=
  {cs | ∃ n : Numeral, n.IsProper ∧ n.value = v ∧ cs = n.spelling}

/-- A character as it is, a letter after a backslash, or four hexadecimal digits. -/
def piece : Piece → Language Char
  | .plain c => {cs | c ≠ '"' ∧ c ≠ '\\' ∧ ¬ c.toNat < 0x20 ∧ cs = [c]}
  | .escaped c => {cs | ∃ l, Escaped.letter l = some c ∧ cs = ['\\', l]}
  | .unit u => {cs | ∃ a b c d, Escaped.hexUnit a b c d = some u ∧ cs = ['\\', 'u', a, b, c, d]}

/-- The text that pieces stand for, if their surrogates come in pairs. -/
def content (ps : List Piece) : Option String := (Escaped.content ⟨ps, .closed []⟩ 0).toOption

/-- The quoted texts with some content. -/
def quoted (s : Option String) : Language Char :=
  {cs | ∃ ps, content ps = s ∧ cs ∈ mark '"' * (ps.map piece).prod * mark '"'}

/-- Texts one after the other with commas between them. -/
def separated : List (Language Char) → Language Char
  | [] => 1
  | L :: Ls => L * (Ls.map (mark ',' * blanks * ·)).prod

theorem separated_cons_cons (L K : Language Char) (Ls : List (Language Char)) :
    separated (L :: K :: Ls) = L * (mark ',' * blanks * separated (K :: Ls)) := by
  simp only [separated, List.map_cons, List.prod_cons, mul_assoc]

/-- A key and the colon after it, up to its value. -/
def key (k : Option String) : Language Char := quoted k * blanks * mark ':' * blanks

end Grammar

open Grammar

mutual

/-- The texts of a phrase. -/
def Phrase.language : Phrase → Language Char
  | .null => word "null"
  | .bool b => word (if b then "true" else "false")
  | .number v => numeral v
  | .text s => quoted s
  | .list ps => mark '[' * blanks * separated (languages ps) * mark ']'
  | .object ms => mark '\x7b' * blanks * separated (memberLanguages ms) * mark '\x7d'

/-- The texts of entries, each with the blanks after it. -/
def Phrase.languages : List Phrase → List (Language Char)
  | [] => []
  | p :: ps => p.language * blanks :: languages ps

def Phrase.memberLanguages : List (Option String × Phrase) → List (Language Char)
  | [] => []
  | (k, p) :: ms => key k * (p.language * blanks) :: memberLanguages ms

end

/-- The texts that are a phrase and nothing else. -/
def Phrase.document (P : Phrase) : Language Char := blanks * P.language * blanks

theorem Phrase.languages_eq_map (ps : List Phrase) :
    languages ps = ps.map fun p => p.language * blanks := by
  induction ps with
  | nil => rfl
  | cons p ps ih => rw [languages, ih, List.map_cons]

theorem Phrase.memberLanguages_eq_map (ms : List (Option String × Phrase)) :
    memberLanguages ms = ms.map fun m => key m.1 * (m.2.language * blanks) := by
  induction ms with
  | nil => rfl
  | cons m ms ih => rw [memberLanguages, ih, List.map_cons]

mutual

/-- What a tree without faults in its grammar has been read from. -/
def Tree.phrase? : Tree → Option Phrase
  | .missing _ _ => none
  | .broken _ _ _ => none
  | .null _ _ => some .null
  | .bool b _ _ => some (.bool b)
  | .number v _ _ => some (.number v.toOption)
  | .text s _ _ => some (.text s.toOption)
  | .list _ items => items.phrases?.map .list
  | .object _ members => members.phrases?.map .object

def Items.phrases? : Items → Option (List Phrase)
  | .closed _ => some []
  | .item value rest => do return (← value.phrase?) :: (← rest.phrases?)
  | _ => none

def Members.phrases? : Members → Option (List (Option String × Phrase))
  | .closed _ => some []
  | .member key _ value _ rest => do
    return (key.toOption, ← value.phrase?) :: (← rest.phrases?)
  | _ => none

end

theorem Items.phrases?_eq_some_iff : ∀ {items : Items} {ps : List Phrase},
    items.phrases? = some ps ↔
      ∃ ts, items.trees? = some ts ∧ List.Forall₂ (fun T P => T.phrase? = some P) ts ps
  | .closed _, ps => by simp [phrases?, trees?]
  | .stray _ _, ps => by simp [phrases?, trees?]
  | .dangling _, ps => by simp [phrases?, trees?]
  | .cut _, ps => by simp [phrases?, trees?]
  | .item value rest, ps => by
    simp only [phrases?, trees?, Option.bind_eq_bind, Option.bind_eq_some_iff,
      Option.map_eq_some_iff, @phrases?_eq_some_iff rest, pure, Option.some.injEq]
    constructor
    · rintro ⟨p, hp, ps, ⟨ts, hts, hall⟩, rfl⟩
      exact ⟨value :: ts, ⟨ts, hts, rfl⟩, .cons hp hall⟩
    · rintro ⟨_, ⟨ts, hts, rfl⟩, hall⟩
      cases hall with
      | cons hp hall => exact ⟨_, hp, _, ⟨ts, hts, hall⟩, rfl⟩

theorem Members.phrases?_eq_some_iff : ∀ {members : Members} {ps : List (Option String × Phrase)},
    members.phrases? = some ps ↔
      ∃ es, members.entries? = some es ∧ Alike (fun T P => T.phrase? = some P) es ps
  | .closed _, ps => by simp [phrases?, entries?]
  | .stray _ _, ps => by simp [phrases?, entries?]
  | .keyless _ _, ps => by simp [phrases?, entries?]
  | .badKey _ _, ps => by simp [phrases?, entries?]
  | .bare _ _ _, ps => by simp [phrases?, entries?]
  | .cut _, ps => by simp [phrases?, entries?]
  | .member key _ value _ rest, ps => by
    simp only [phrases?, entries?, Option.bind_eq_bind, Option.bind_eq_some_iff,
      Option.map_eq_some_iff, @phrases?_eq_some_iff rest, pure, Option.some.injEq]
    constructor
    · rintro ⟨p, hp, ps, ⟨es, hes, hall⟩, rfl⟩
      exact ⟨(key.toOption, value) :: es, ⟨es, hes, rfl⟩, .cons ⟨rfl, hp⟩ hall⟩
    · rintro ⟨_, ⟨es, hes, rfl⟩, hall⟩
      cases hall with
      | @cons _ p _ ps hp hall =>
        obtain ⟨k, p⟩ := p
        obtain ⟨rfl, hp⟩ := hp
        exact ⟨p, hp, ps, ⟨es, hes, hall⟩, rfl⟩

namespace Tree

variable {T : Tree}

theorem phrase?_eq_list_iff {ps : List Phrase} : T.phrase? = some (.list ps) ↔
    ∃ ts, T.trees? = some ts ∧ List.Forall₂ (fun T P => T.phrase? = some P) ts ps := by
  cases T with
  | list _ items => simp [phrase?, trees?, Items.phrases?_eq_some_iff]
  | _ => simp [phrase?, trees?]

theorem phrase?_eq_object_iff {ps : List (Option String × Phrase)} :
    T.phrase? = some (.object ps) ↔
      ∃ es, T.entries? = some es ∧ Alike (fun T P => T.phrase? = some P) es ps := by
  cases T with
  | object _ members => simp [phrase?, entries?, Members.phrases?_eq_some_iff]
  | _ => simp [phrase?, entries?]

theorem phrase?_eq_null_iff : T.phrase? = some .null ↔ T.spelled = some .null := by
  cases T <;> simp [phrase?, spelled]

/-- What has been read from a phrase can be passed over. -/
theorem skip_of_phrase? {P : Phrase} (h : T.phrase? = some P) : T.skip = .ok () := by
  cases T with
  | missing _ _ => simp [phrase?] at h
  | broken _ _ _ => simp [phrase?] at h
  | null _ _ => rfl
  | bool _ _ _ => rfl
  | number _ _ _ => rfl
  | text _ _ _ => rfl
  | list _ items =>
    obtain ⟨ps, hps, -⟩ := Option.map_eq_some_iff.mp h
    obtain ⟨ts, hts, -⟩ := Items.phrases?_eq_some_iff.mp hps
    exact Items.skip_of_trees? hts
  | object _ members =>
    obtain ⟨ps, hps, -⟩ := Option.map_eq_some_iff.mp h
    obtain ⟨es, hes, -⟩ := Members.phrases?_eq_some_iff.mp hps
    exact Members.skip_of_entries? hes

end Tree

mutual

/-- The value that a phrase spells, if there is nothing in it without content. -/
def Phrase.spelled : Phrase → Option Value
  | .null => some .null
  | .bool b => some (.bool b)
  | .number v => v.map .number
  | .text s => s.map .text
  | .list ps => (spelledEntries ps).map .list
  | .object ms => (spelledMembers ms).map .object

def Phrase.spelledEntries : List Phrase → Option (List Value)
  | [] => some []
  | p :: ps => do
    let v ← p.spelled
    return v :: (← spelledEntries ps)

def Phrase.spelledMembers : List (Option String × Phrase) → Option (List (String × Value))
  | [] => some []
  | (k, p) :: ms => do
    let k ← k
    let v ← p.spelled
    return (k, v) :: (← spelledMembers ms)

end

mutual

theorem Tree.spelled_of_phrase? : ∀ {T : Tree} {P : Phrase},
    T.phrase? = some P → T.spelled = P.spelled
  | .missing _ _, _, h => by cases h
  | .broken _ _ _, _, h => by cases h
  | .null _ _, _, h => by
    cases h
    rfl
  | .bool _ _ _, _, h => by
    cases h
    rfl
  | .number _ _ _, _, h => by
    cases h
    rfl
  | .text _ _ _, _, h => by
    cases h
    rfl
  | .list _ items, _, h => by
    obtain ⟨ps, hps, rfl⟩ := Option.map_eq_some_iff.mp h
    rw [Tree.spelled, Phrase.spelled, Items.spelled_of_phrases? hps]
  | .object _ members, _, h => by
    obtain ⟨ms, hms, rfl⟩ := Option.map_eq_some_iff.mp h
    rw [Tree.spelled, Phrase.spelled, Members.spelled_of_phrases? hms]

theorem Items.spelled_of_phrases? : ∀ {items : Items} {ps : List Phrase},
    items.phrases? = some ps → items.spelled = Phrase.spelledEntries ps
  | .closed _, _, h => by
    cases h
    rfl
  | .stray _ _, _, h => by cases h
  | .dangling _, _, h => by cases h
  | .cut _, _, h => by cases h
  | .item value rest, _, h => by
    simp only [Items.phrases?, Option.bind_eq_bind, Option.bind_eq_some_iff, pure,
      Option.some.injEq] at h
    obtain ⟨p, hp, ps, hps, rfl⟩ := h
    rw [Items.spelled, Phrase.spelledEntries, Tree.spelled_of_phrase? hp,
      Items.spelled_of_phrases? hps]

theorem Members.spelled_of_phrases? : ∀ {members : Members} {ms : List (Option String × Phrase)},
    members.phrases? = some ms → members.spelled = Phrase.spelledMembers ms
  | .closed _, _, h => by
    cases h
    rfl
  | .stray _ _, _, h => by cases h
  | .keyless _ _, _, h => by cases h
  | .badKey _ _, _, h => by cases h
  | .bare _ _ _, _, h => by cases h
  | .cut _, _, h => by cases h
  | .member key _ value _ rest, _, h => by
    simp only [Members.phrases?, Option.bind_eq_bind, Option.bind_eq_some_iff, pure,
      Option.some.injEq] at h
    obtain ⟨p, hp, ms, hms, rfl⟩ := h
    rw [Members.spelled, Phrase.spelledMembers, Tree.spelled_of_phrase? hp,
      Members.spelled_of_phrases? hms]

end

end DeckDoc.Json
