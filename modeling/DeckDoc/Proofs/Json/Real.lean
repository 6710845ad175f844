import DeckDoc.Json.Tree.Build
import DeckDoc.Proofs.Json.Record
import DeckDoc.Proofs.Json.Scan

namespace DeckDoc

/-- A character that a real may be written with: it begins a number or stands in one. -/
def IsRealMark (c : Char) : Prop := (c = '-' ∨ c.isDigit) ∨ (c = '+' ∨ c = '.' ∨ c = 'e')

theorem isRealMark_of_isDigit {c : Char} (h : c.isDigit) : IsRealMark c := .inl (.inr h)

namespace Decimal

variable {d : Decimal} {c : Char}

theorem isDigit_of_mem_digits (h : c ∈ d.digits) : c.isDigit :=
  Nat.isDigit_of_mem_toDigits (by decide) (by decide) h

theorem isDigit_of_mem_zeros {n : Nat} (h : c ∈ List.replicate n '0') : c.isDigit := by
  rw [(List.mem_replicate.mp h).2]
  decide

theorem isRealMark_of_mem_positional (h : c ∈ d.positional) : IsRealMark c := by
  unfold positional at h
  split at h
  · simp only [List.mem_append, or_assoc] at h
    rcases h with h | h | h
    · exact isRealMark_of_isDigit (isDigit_of_mem_digits h)
    · exact isRealMark_of_isDigit (isDigit_of_mem_zeros h)
    · rcases List.mem_cons.mp h with rfl | h
      · exact .inr (by decide)
      · exact isRealMark_of_isDigit (List.mem_singleton.mp h ▸ rfl)
  · split at h
    · rcases List.mem_append.mp h with h | h
      · exact isRealMark_of_isDigit (isDigit_of_mem_digits (List.mem_of_mem_take h))
      · rcases List.mem_cons.mp h with rfl | h
        · exact .inr (by decide)
        · exact isRealMark_of_isDigit (isDigit_of_mem_digits (List.mem_of_mem_drop h))
    · simp only [List.cons_append, List.mem_cons, List.mem_append] at h
      rcases h with rfl | rfl | h | h
      · exact isRealMark_of_isDigit rfl
      · exact .inr (by decide)
      · exact isRealMark_of_isDigit (isDigit_of_mem_zeros h)
      · exact isRealMark_of_isDigit (isDigit_of_mem_digits h)

theorem isRealMark_of_mem_scientific (h : c ∈ d.scientific) : IsRealMark c := by
  unfold scientific at h
  simp only [List.mem_append, List.mem_cons, or_assoc] at h
  rcases h with h | h | rfl | h | h
  · exact isRealMark_of_isDigit (isDigit_of_mem_digits (List.mem_of_mem_take h))
  · cases ht : d.digits.tail with
    | nil =>
      rw [ht] at h
      cases h
    | cons e es =>
      rw [ht] at h
      rcases List.mem_cons.mp h with rfl | h
      · exact .inr (by decide)
      · exact isRealMark_of_isDigit (isDigit_of_mem_digits (List.mem_of_mem_tail (ht ▸ h)))
  · exact .inr (by decide)
  · split at h
    · exact .inl (.inl h)
    · exact .inr (.inl h)
  · exact isRealMark_of_isDigit (Nat.isDigit_of_mem_toDigits (by decide) (by decide) h)

end Decimal

theorem isRealMark_of_mem_writtenFloat {x : Float} {c : Char} (h : c ∈ (writtenFloat x).toList) :
    IsRealMark c := by
  simp only [writtenFloat, String.toList_ofList, List.mem_append] at h
  rcases h with h | h
  · split at h
    · cases h
    · exact .inl (.inl (List.mem_singleton.mp h))
  · split at h
    · simp only [List.mem_cons, List.not_mem_nil, or_false] at h
      rcases h with rfl | rfl | rfl
      · exact isRealMark_of_isDigit rfl
      · exact .inr (by decide)
      · exact isRealMark_of_isDigit rfl
    · unfold Decimal.written at h
      split at h
      · exact Decimal.isRealMark_of_mem_positional h
      · exact Decimal.isRealMark_of_mem_scientific h

theorem isSpace_of_isRealMark {c : Char} (h : IsRealMark c) : Json.Lexeme.isSpace c = false := by
  rcases h with h | h
  · exact Json.Lexeme.isSpace_number h
  · rcases h with rfl | rfl | rfl <;> rfl

namespace Json

open Lexeme

theorem Lexeme.scan_stray {c : Char} (hmark : IsRealMark c) (hc : ¬ (c = '-' ∨ c.isDigit))
    (place : Nat) (rest : List Char) : (scan place c rest).token = .stray := by
  rcases hmark.resolve_left hc with rfl | rfl | rfl <;> rfl

/-- No value is read from a text of a real's characters that is no number. -/
theorem value_ne_ok_of_scan_error {cs left : List Char} {room size : Nat}
    (hmarks : ∀ c ∈ cs, IsRealMark c) (h : Numeral.scan cs = .error left) (v : Value) :
    (Source.build size (.atValue []) (scanAll 0 0 cs)).tree.value room ≠ .ok v := by
  cases cs with
  | nil =>
    intro hv
    cases hv
  | cons c cs =>
    have hmark : IsRealMark c := hmarks c List.mem_cons_self
    have hspace : isSpace c = false := isSpace_of_isRealMark hmark
    by_cases hc : c = '-' ∨ c.isDigit
    · simp only [scanAll, hspace, scan_number hc, ofNumber, h]
      intro hv
      cases hv
    · have hstray : (scan 0 c cs).token = .stray := scan_stray hmark hc 0 cs
      have hlexemes : scanAll 0 0 (c :: cs) = [scan 0 c cs] := by
        simp [scanAll, hspace, hstray, isLast]
      have haccept : Progress.accept (scan 0 c cs) (.atValue []) = none := by
        simp only [Progress.accept, Progress.beginValue, hstray]
      rw [hlexemes, Source.build, haccept]
      intro hv
      cases hv

/-- Nothing follows the outermost value. -/
theorem Source.excess_afterValue {size : Nat} {T : Tree} {ls : List Lexeme}
    (h : (build size (.afterValue T []) ls).excess = none) : ls = [] := by
  cases ls with
  | nil => rfl
  | cons l ls => cases h

/-- A real that is read from its own text is spelled there from the first character to the
last. -/
theorem readable_real {x : Float}
    (h : Reader.value.ofText (writtenFloat x) = .ok (.number (.real x))) :
    (Number.real x).Readable := by
  obtain ⟨hvalue, hexcess⟩ := Reader.ofText_eq_ok_iff.mp h
  have hmarks : ∀ c ∈ (writtenFloat x).toList, IsRealMark c := fun c hc =>
    isRealMark_of_mem_writtenFloat hc
  rw [Source.ofText, Lexeme.ofText] at hvalue hexcess
  cases hscan : Numeral.scan (writtenFloat x).toList with
  | error left => exact absurd hvalue (value_ne_ok_of_scan_error hmarks hscan _)
  | ok r =>
    obtain ⟨m, left⟩ := r
    obtain ⟨l, v, hl, hv, hall⟩ := scanAll_number hscan 0
    have haccept : Progress.accept l (.atValue []) =
        some (.inl (.afterValue (.number v l.start l.stop) [])) := by
      simp only [Progress.accept, Progress.beginValue, hl]
    rw [hall, Source.build, haccept] at hvalue hexcess
    have hleft : left = [] := by
      cases left with
      | nil => rfl
      | cons d ds =>
        have hd : d ∈ (writtenFloat x).toList := by
          rw [Numeral.scan_append hscan]
          exact List.mem_append_right _ List.mem_cons_self
        have hnil := Source.excess_afterValue hexcess
        exact absurd hnil (scanAll_ne_nil (isSpace_of_isRealMark (hmarks d hd)))
    subst hleft
    have hread : v.map Value.number = .ok (.number (.real x)) := hvalue
    obtain ⟨y, hy, he⟩ := Except.map_eq_ok_iff.mp hread
    cases he
    exact ⟨m, hscan, (hv _).mp hy⟩

end Json

end DeckDoc
