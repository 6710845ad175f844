import DeckDoc.Proofs.Json.Grammar.Complete

namespace DeckDoc.Json

open Grammar

/-! What is written is a text of the grammar. -/

namespace Grammar

theorem escape_mem_piece (c : Char) : escape c ∈ piece (Escaped.pieceOf c) := by
  rcases Escaped.escape_cases c with ⟨l, he, hl, hp⟩ | ⟨hlow, he, hp⟩ | ⟨hq, hb, hlow, he, hp⟩
  · rw [he, hp]
    exact ⟨l, hl, rfl⟩
  · rw [he, hp]
    exact ⟨_, _, _, _, Escaped.hexUnit_control hlow, rfl⟩
  · rw [he, hp]
    exact ⟨hq, hb, hlow, rfl⟩

theorem quote_mem_quoted (s : String) : (quote s).toList ∈ quoted (some s) := by
  have hpieces (cs : List Char) :
      cs.flatMap escape ∈ ((cs.map Escaped.pieceOf).map piece).prod := by
    induction cs with
    | nil => exact Language.nil_mem_one
    | cons c cs ih => exact Language.append_mem_mul (escape_mem_piece c) ih
  have hcontent : content (s.toList.map Escaped.pieceOf) = some s := by
    simp [content, Escaped.content, Escaped.decode_map_pieceOf, Except.map, Except.toOption]
  refine ⟨_, hcontent, ?_⟩
  rw [Escaped.toList_quote, ← List.cons_append]
  exact Language.append_mem_mul
    (Language.append_mem_mul (mem_mark '"') (hpieces s.toList)) (mem_mark '"')

theorem text_mem_numeral {n : Number} (h : n.Readable) : n.text.toList ∈ numeral (some n) := by
  obtain ⟨m, hscan, hm⟩ := h
  refine ⟨m, Numeral.isProper_of_scan hscan, hm, ?_⟩
  rw [Numeral.scan_append hscan, List.append_nil]

theorem toList_intercalate_mem_separated {ss : List String} {Ls : List (Language Char)}
    (h : List.Forall₂ (fun s L => s.toList ∈ L) ss Ls) :
    (",".intercalate ss).toList ∈ separated Ls := by
  induction h with
  | nil => exact Language.nil_mem_one
  | @cons s L ss Ls hs hall ih =>
    cases hall with
    | nil =>
      rw [String.intercalate_singleton, separated, List.map_nil, List.prod_nil, mul_one]
      exact hs
    | @cons t K ts Ks _ _ =>
      rw [String.intercalate_cons_cons, String.toList_append, String.toList_append,
        separated_cons_cons, List.append_assoc]
      exact Language.append_mem_mul hs (Language.append_mem_mul (mem_mark_blanks ',') ih)

end Grammar

namespace Value

mutual

def phrase : Value → Phrase
  | .null => .null
  | .bool b => .bool b
  | .number n => .number (some n)
  | .text s => .text (some s)
  | .list vs => .list (phrases vs)
  | .object ms => .object (memberPhrases ms)

def phrases : List Value → List Phrase
  | [] => []
  | v :: vs => v.phrase :: phrases vs

def memberPhrases : List (String × Value) → List (Option String × Phrase)
  | [] => []
  | (k, v) :: ms => (some k, v.phrase) :: memberPhrases ms

end

mutual

theorem spelled_phrase : ∀ v : Value, v.phrase.spelled = some v
  | .null => rfl
  | .bool _ => rfl
  | .number _ => rfl
  | .text _ => rfl
  | .list vs => by rw [phrase, Phrase.spelled, spelledEntries_phrases vs, Option.map_some]
  | .object ms => by rw [phrase, Phrase.spelled, spelledMembers_phrases ms, Option.map_some]

theorem spelledEntries_phrases : ∀ vs : List Value, Phrase.spelledEntries (phrases vs) = some vs
  | [] => rfl
  | v :: vs => by
    rw [phrases, Phrase.spelledEntries, spelled_phrase v, spelledEntries_phrases vs]
    rfl

theorem spelledMembers_phrases : ∀ ms : List (String × Value),
    Phrase.spelledMembers (memberPhrases ms) = some ms
  | [] => rfl
  | (k, v) :: ms => by
    rw [memberPhrases, Phrase.spelledMembers, spelled_phrase v, spelledMembers_phrases ms]
    rfl

end

mutual

theorem written_mem : ∀ v : Value, (∀ n ∈ v.numbers, n.Readable) →
    v.written.toList ∈ v.phrase.language
  | .null, _ => rfl
  | .bool true, _ => rfl
  | .bool false, _ => rfl
  | .number n, hn => text_mem_numeral (hn n (List.mem_singleton.mpr rfl))
  | .text s, _ => quote_mem_quoted s
  | .list vs, hn => by
    have hentries := toList_intercalate_mem_separated (writtenEntries_mem vs hn)
    rw [written, String.toList_append, String.toList_append]
    exact Language.append_mem_mul (Language.append_mem_mul (mem_mark_blanks '[') hentries)
      (mem_mark ']')
  | .object ms, hn => by
    have hmembers := toList_intercalate_mem_separated (writtenMembers_mem ms hn)
    rw [written, String.toList_append, String.toList_append]
    exact Language.append_mem_mul (Language.append_mem_mul (mem_mark_blanks '\x7b') hmembers)
      (mem_mark '\x7d')

theorem writtenEntries_mem : ∀ vs : List Value, (∀ n ∈ numbersEntries vs, n.Readable) →
    List.Forall₂ (fun s L => s.toList ∈ L) (writtenEntries vs) (Phrase.languages (phrases vs))
  | [], _ => .nil
  | v :: vs, hn => by
    obtain ⟨hv, hvs⟩ := List.forall_mem_append.mp hn
    have hentry := Language.append_mem_mul (written_mem v hv) nil_mem_blanks
    rw [List.append_nil] at hentry
    exact .cons hentry (writtenEntries_mem vs hvs)

theorem writtenMembers_mem : ∀ ms : List (String × Value),
    (∀ n ∈ numbersMembers ms, n.Readable) → List.Forall₂ (fun s L => s.toList ∈ L)
      (writtenMembers ms) (Phrase.memberLanguages (memberPhrases ms))
  | [], _ => .nil
  | (k, v) :: ms, hn => by
    obtain ⟨hv, hms⟩ := List.forall_mem_append.mp hn
    have hkey : (quote k).toList ++ [':'] ∈ key (some k) := by
      have h := Language.append_mem_mul (quote_mem_quoted k) nil_mem_blanks
      rw [List.append_nil] at h
      rw [key, mul_assoc]
      exact Language.append_mem_mul h (mem_mark_blanks ':')
    have hvalue := Language.append_mem_mul (written_mem v hv) nil_mem_blanks
    rw [List.append_nil] at hvalue
    refine .cons ?_ (writtenMembers_mem ms hms)
    rw [String.toList_append, String.toList_append]
    exact Language.append_mem_mul hkey hvalue

end

theorem written_mem_document (v : Value) (hn : ∀ n ∈ v.numbers, n.Readable) :
    v.written.toList ∈ v.phrase.document := by
  have hmem := Language.append_mem_mul
    (Language.append_mem_mul nil_mem_blanks (v.written_mem hn)) nil_mem_blanks
  rwa [List.nil_append, List.append_nil] at hmem

end Value

/-- A written value is read as a tree that spells it, with nothing after it. -/
theorem Source.ofText_written {v : Value} (hn : ∀ n ∈ v.numbers, n.Readable) :
    ∃ T, T.spelled = some v ∧ ofText v.written = ⟨T, none⟩ := by
  obtain ⟨hphrase, hexcess⟩ := ofText_of_mem (v.written_mem_document hn)
  have hspelled := (Tree.spelled_of_phrase? hphrase).trans v.spelled_phrase
  exact ⟨_, hspelled, congrArg (Source.mk _) hexcess⟩

end DeckDoc.Json
