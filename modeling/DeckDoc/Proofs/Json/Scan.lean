import DeckDoc.Json.Lexeme
import DeckDoc.Proofs.Json.Numeral
import DeckDoc.Proofs.Json.Quote

namespace DeckDoc.Json

namespace Lexeme

open Escaped (size)

theorem scanAll_skip {place resume : Nat} (cs rest : List Char) (h : place + size cs ≤ resume) :
    scanAll place resume (cs ++ rest) = scanAll (place + size cs) resume rest := by
  induction cs generalizing place with
  | nil => rfl
  | cons c cs ih =>
    have hc : 0 < c.utf8Size := Char.utf8Size_pos c
    rw [Escaped.size_cons, ← Nat.add_assoc] at h ⊢
    have hplace : (decide (place < resume) || isSpace c) = true := by
      rw [decide_eq_true (by omega), Bool.true_or]
    rw [List.cons_append, scanAll, if_pos hplace, ih h]

theorem exists_scanAll_cons (place : Nat) {c : Char} (cs : List Char) (hc : isSpace c = false) :
    ∃ ls, scanAll place place (c :: cs) = scan place c cs :: ls := by
  rw [scanAll, hc, Bool.or_false, if_neg (by simp)]
  dsimp only
  split <;> exact ⟨_, rfl⟩

theorem scanAll_ne_nil {place : Nat} {c : Char} {cs : List Char} (hc : isSpace c = false) :
    scanAll place place (c :: cs) ≠ [] := by
  obtain ⟨ls, hls⟩ := exists_scanAll_cons place cs hc
  rw [hls]
  exact List.cons_ne_nil _ _

theorem scanAll_of_scan {place : Nat} {c : Char} {cs rest : List Char} {l : Lexeme}
    (hc : isSpace c = false) (h : scan place c (cs ++ rest) = l) (ht : isLast l.token = false)
    (hstop : l.stop = place + size (c :: cs)) :
    scanAll place place (c :: cs ++ rest) = l :: scanAll l.stop l.stop rest := by
  have hplace : (decide (place < place) || isSpace c) = false := by
    rw [decide_eq_false (Nat.lt_irrefl place), hc, Bool.false_or]
  have hs : place + c.utf8Size + size cs = l.stop := by
    rw [hstop, Escaped.size_cons, Nat.add_assoc]
  rw [List.cons_append, scanAll, hplace, if_neg (by decide), h]
  change (if isLast l.token = true then _ else _) = _
  rw [ht, if_neg (by decide), scanAll_skip cs rest (Nat.le_of_eq hs), hs]

/-- In front of `rest` the characters are one lexeme of this kind. -/
def Lexes (cs : List Char) (t : Token) (rest : List Char) : Prop :=
  ∀ place, ∃ l stop, l.token = t ∧
    scanAll place place (cs ++ rest) = l :: scanAll stop stop rest

theorem lexes_of_scan {c : Char} {cs : List Char} {t : Token} {rest : List Char}
    (hc : isSpace c = false) (ht : isLast t = false)
    (h : ∀ place, scan place c (cs ++ rest) = ⟨t, c, place, place + size (c :: cs)⟩) :
    Lexes (c :: cs) t rest := fun place =>
  ⟨_, _, rfl, scanAll_of_scan hc (h place) ht rfl⟩

variable {rest : List Char}

theorem lexes_openList : Lexes ['['] .openList rest :=
  lexes_of_scan (by decide) rfl fun _ => rfl

theorem lexes_closeList : Lexes [']'] .closeList rest :=
  lexes_of_scan (by decide) rfl fun _ => rfl

theorem lexes_openObject : Lexes ['\x7b'] .openObject rest :=
  lexes_of_scan (by decide) rfl fun _ => rfl

theorem lexes_closeObject : Lexes ['\x7d'] .closeObject rest :=
  lexes_of_scan (by decide) rfl fun _ => rfl

theorem lexes_comma : Lexes [','] .comma rest :=
  lexes_of_scan (by decide) rfl fun _ => rfl

theorem lexes_colon : Lexes [':'] .colon rest :=
  lexes_of_scan (by decide) rfl fun _ => rfl

theorem lexes_null : Lexes ['n', 'u', 'l', 'l'] .null rest :=
  lexes_of_scan (by decide) rfl fun _ => rfl

theorem lexes_true : Lexes ['t', 'r', 'u', 'e'] (.bool true) rest :=
  lexes_of_scan (by decide) rfl fun _ => rfl

theorem lexes_false : Lexes ['f', 'a', 'l', 's', 'e'] (.bool false) rest :=
  lexes_of_scan (by decide) rfl fun _ => rfl

theorem scan_number {c : Char} (hc : c = '-' ∨ c.isDigit) (place : Nat) (rest : List Char) :
    scan place c rest = ofNumber place c rest := by
  have hif : (c = '-' || c.isDigit) = true := by simpa using hc
  unfold scan
  split <;> exact if_pos hif

theorem isSpace_number {c : Char} (hc : c = '-' ∨ c.isDigit) : isSpace c = false := by
  have hne (d : Char) (hd : ¬ (d = '-' ∨ d.isDigit)) : c ≠ d := fun he => hd (he ▸ hc)
  simp [isSpace, hne ' ' (by decide), hne '\t' (by decide), hne '\n' (by decide),
    hne '\r' (by decide)]

theorem size_spelling {cs r : List Char} {n : Numeral} (h : Numeral.scan cs = .ok (n, r)) :
    size n.spelling = n.spelling.length := by
  have hall : ∀ c ∈ n.spelling, c.utf8Size = 1 := fun c hc => Numeral.utf8Size_of_mem_spelling h hc
  generalize n.spelling = ds at hall
  induction ds with
  | nil => rfl
  | cons d ds ih =>
    rw [Escaped.size_cons, hall d List.mem_cons_self, ih fun c hc =>
      hall c (List.mem_cons_of_mem _ hc), List.length_cons, Nat.add_comm]

theorem scanAll_number {cs rest : List Char} {m : Numeral} (h : Numeral.scan cs = .ok (m, rest))
    (place : Nat) : ∃ l v, l.token = .number v ∧ (∀ n, v = .ok n ↔ m.value = some n) ∧
      scanAll place place cs = l :: scanAll l.stop l.stop rest := by
  obtain ⟨c, ds, hspelling, hc⟩ := Numeral.head_of_scan h
  have hsize : m.spelling.length = size (c :: ds) := by rw [← hspelling, size_spelling h]
  obtain rfl : cs = c :: ds ++ rest := hspelling ▸ Numeral.scan_append h
  rw [List.cons_append] at h
  have hnumber : ∃ v, (∀ n, v = .ok n ↔ m.value = some n) ∧ ofNumber place c (ds ++ rest) =
      ⟨.number v, c, place, place + size (c :: ds)⟩ := by
    simp only [ofNumber, h, hsize]
    cases m.value with
    | some x => exact ⟨.ok x, fun n => by simp, rfl⟩
    | none => exact ⟨.error _, fun n => by simp, rfl⟩
  obtain ⟨v, hv, hl⟩ := hnumber
  have hscan := (scan_number hc place (ds ++ rest)).trans hl
  exact ⟨_, v, rfl, hv, scanAll_of_scan (isSpace_number hc) hscan rfl rfl⟩

end Lexeme

end DeckDoc.Json
