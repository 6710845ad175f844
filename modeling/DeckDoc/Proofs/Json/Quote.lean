import DeckDoc.Json.Escaped
import DeckDoc.Json.Quote
import Mathlib

namespace DeckDoc.Json

namespace Escaped

/-- The piece that a character is written as. -/
def pieceOf (c : Char) : Piece :=
  if c = '"' ∨ c = '\\' ∨ c = '\x08' ∨ c = '\x0c' ∨ c = '\n' ∨ c = '\r' ∨ c = '\t' then .escaped c
  else if c.toNat < 0x20 then .unit c.toNat
  else .plain c

theorem hexDigit_digitChar : ∀ n, n < 16 → hexDigit n.digitChar = some n := by decide

theorem scan_plain {c : Char} (hq : c ≠ '"') (hb : c ≠ '\\') (hc : ¬ c.toNat < 0x20)
    (rest : List Char) : scan (c :: rest) = cons (.plain c) (scan rest) := by
  rw [scan, if_neg hc] <;> simp_all

theorem hexUnit_control {n : Nat} (hn : n < 0x20) :
    hexUnit '0' '0' (n / 16).digitChar (n % 16).digitChar = some n := by
  have hzero : hexDigit '0' = some 0 := by decide
  simp only [hexUnit, hzero, hexDigit_digitChar (n / 16) (by omega),
    hexDigit_digitChar (n % 16) (by omega), Option.bind_eq_bind, Option.bind_some, pure,
    Option.some.injEq]
  omega

/-- A character is escaped by a letter or by its code, or stands for itself. -/
theorem escape_cases (c : Char) :
    (∃ l, escape c = ['\\', l] ∧ letter l = some c ∧ pieceOf c = .escaped c) ∨
    (c.toNat < 0x20 ∧ escape c =
        ['\\', 'u', '0', '0', (c.toNat / 16).digitChar, (c.toNat % 16).digitChar] ∧
      pieceOf c = .unit c.toNat) ∨
    (c ≠ '"' ∧ c ≠ '\\' ∧ ¬ c.toNat < 0x20 ∧ escape c = [c] ∧ pieceOf c = .plain c) := by
  unfold escape pieceOf
  by_cases h : c = '"' ∨ c = '\\' ∨ c = '\x08' ∨ c = '\x0c' ∨ c = '\n' ∨ c = '\r' ∨ c = '\t'
  · left
    rw [if_pos h]
    rcases h with rfl | rfl | rfl | rfl | rfl | rfl | rfl <;>
      exact ⟨_, rfl, by decide, rfl⟩
  · right
    obtain ⟨hq, hb, h8, hc, hn, hr, ht⟩ := by simpa only [not_or] using h
    rw [if_neg h, if_neg hq, if_neg hb, if_neg h8, if_neg hc, if_neg hn, if_neg hr, if_neg ht]
    by_cases hlow : c.toNat < 0x20
    · rw [if_pos hlow, if_pos hlow]
      exact .inl ⟨hlow, rfl, rfl⟩
    · rw [if_neg hlow, if_neg hlow]
      exact .inr ⟨hq, hb, hlow, rfl, rfl⟩

@[simp] theorem size_nil : size [] = 0 := rfl

@[simp] theorem size_cons (c : Char) (cs : List Char) : size (c :: cs) = c.utf8Size + size cs := rfl

@[simp] theorem size_append (cs ds : List Char) : size (cs ++ ds) = size cs + size ds := by
  induction cs with
  | nil => rw [List.nil_append, size_nil, Nat.zero_add]
  | cons c cs ih => rw [List.cons_append, size_cons, size_cons, ih, Nat.add_assoc]

theorem utf8ByteSize_ofList (cs : List Char) : (String.ofList cs).utf8ByteSize = size cs := by
  induction cs with
  | nil => rfl
  | cons c cs ih =>
    have hsplit : String.ofList (c :: cs) = String.singleton c ++ String.ofList cs := by
      apply String.toList_inj.mp
      simp
    rw [hsplit, String.utf8ByteSize_append, String.utf8ByteSize_singleton, ih, size_cons]

theorem utf8ByteSize_eq (s : String) : s.utf8ByteSize = size s.toList := by
  rw [← utf8ByteSize_ofList, String.ofList_toList]

theorem decode_map_pieceOf (rest cs : List Char) (place : Nat) :
    decode (.closed rest) place (cs.map pieceOf) = .ok cs := by
  induction cs generalizing place with
  | nil => rfl
  | cons c cs ih =>
    rw [List.map_cons]
    rcases escape_cases c with ⟨l, -, -, hp⟩ | ⟨hlow, -, hp⟩ | ⟨-, -, -, -, hp⟩
    · rw [hp, decode, ih]
      rfl
    · have hlead : isLeading c.toNat = false := by
        simp only [isLeading, Bool.and_eq_false_iff, decide_eq_false_iff_not]
        omega
      have htrail : isTrailing c.toNat = false := by
        simp only [isTrailing, Bool.and_eq_false_iff, decide_eq_false_iff_not]
        omega
      rw [hp, decode.eq_def]
      simp [htrail, hlead, ih, Except.map]
    · rw [hp, decode, ih]
      rfl

theorem toList_quote (s : String) :
    (quote s).toList = '"' :: (s.toList.flatMap escape ++ ['"']) := by
  simp [quote]

end Escaped

end DeckDoc.Json
