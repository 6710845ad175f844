import DeckDoc.Proofs.Json.Quote
import DeckDoc.Proofs.Text.Lines

namespace DeckDoc.Json

open Text
open Escaped (size)

namespace Position

/-- The second position is on one of the lines that come from the first position on, and so many
bytes further as there are up to the place or the end. A line break counts as one byte. -/
def Precedes (p : Position) (place : Nat) (cs : List Char) (q : Position) : Prop :=
  ∃ i part, (parts '\n' cs)[i]? = some part ∧ q.line = p.line + i ∧
    q.column ≤ (if i = 0 then p.column else 0) + size part ∧
    (((parts '\n' cs).take i).map (size · + 1)).sum + q.column =
      (if i = 0 then p.column else 0) + min place (size cs)

variable {p q : Position} {place : Nat} {c : Char} {cs : List Char}

theorem Precedes.nil : p.Precedes place [] p :=
  ⟨0, [], rfl, rfl, Nat.le_refl _, by simp⟩

theorem Precedes.zero : p.Precedes 0 cs p := by
  obtain ⟨first, others, hparts⟩ := List.exists_cons_of_ne_nil (parts_ne_nil '\n' cs)
  exact ⟨0, first, by rw [hparts]; rfl, rfl, Nat.le_add_right _ _, by simp⟩

theorem Precedes.inside (hc : c ≠ '\n') (h : place ≤ c.utf8Size) :
    p.Precedes place (c :: cs) ⟨p.line, p.column + place⟩ := by
  obtain ⟨first, others, -, hparts⟩ := exists_parts_cons hc cs
  refine ⟨0, c :: first, by rw [hparts]; rfl, rfl, ?_, ?_⟩
  · rw [if_pos rfl, Escaped.size_cons]
    dsimp only
    omega
  · rw [if_pos rfl, List.take_zero, List.map_nil, List.sum_nil, Escaped.size_cons]
    dsimp only
    omega

theorem Precedes.afterBreak (hplace : place ≠ 0)
    (h : Precedes ⟨p.line + 1, 0⟩ (place - 1) cs q) : p.Precedes place ('\n' :: cs) q := by
  obtain ⟨i, part, hpart, hline, hcolumn, hsum⟩ := h
  have hbreak : '\n'.utf8Size = 1 := rfl
  simp only [ite_self, Nat.zero_add] at hline hcolumn hsum
  rw [Precedes, parts, if_pos rfl]
  refine ⟨i + 1, part, hpart, by omega, ?_, ?_⟩
  · rwa [if_neg (Nat.succ_ne_zero i), Nat.zero_add]
  · rw [if_neg (Nat.succ_ne_zero i), List.take_succ_cons, List.map_cons, List.sum_cons,
      Escaped.size_nil, Escaped.size_cons]
    omega

theorem Precedes.after (hc : c ≠ '\n') (hplace : c.utf8Size ≤ place)
    (h : Precedes ⟨p.line, p.column + c.utf8Size⟩ (place - c.utf8Size) cs q) :
    p.Precedes place (c :: cs) q := by
  obtain ⟨i, part, hpart, hline, hcolumn, hsum⟩ := h
  obtain ⟨first, others, hparts, hcons⟩ := exists_parts_cons hc cs
  dsimp only at hline hcolumn hsum
  rw [hparts] at hpart hsum
  rw [Precedes, hcons]
  cases i with
  | zero =>
    obtain rfl := Option.some.inj hpart
    rw [if_pos rfl] at hcolumn hsum
    rw [List.take_zero, List.map_nil, List.sum_nil] at hsum
    refine ⟨0, c :: first, rfl, hline, ?_, ?_⟩
    · rw [if_pos rfl, Escaped.size_cons]
      omega
    · rw [if_pos rfl, List.take_zero, List.map_nil, List.sum_nil, Escaped.size_cons]
      omega
  | succ i =>
    rw [if_neg (Nat.succ_ne_zero i)] at hcolumn hsum
    rw [List.take_succ_cons, List.map_cons, List.sum_cons] at hsum
    refine ⟨i + 1, part, hpart, hline, ?_, ?_⟩
    · rwa [if_neg (Nat.succ_ne_zero i)]
    · rw [if_neg (Nat.succ_ne_zero i), List.take_succ_cons, List.map_cons, List.sum_cons,
        Escaped.size_cons, Escaped.size_cons]
      omega

theorem precedes_advance (p : Position) (place : Nat) (cs : List Char) :
    p.Precedes place cs (p.advance place cs) := by
  induction cs generalizing p place with
  | nil => exact .nil
  | cons c cs ih =>
    unfold advance
    split_ifs with hzero hbreak hinside
    · exact hzero ▸ .zero
    · exact hbreak ▸ .afterBreak hzero (ih ⟨p.line + 1, 0⟩ (place - 1))
    · exact .inside hbreak (Nat.le_of_lt hinside)
    · exact .after hbreak (Nat.le_of_not_lt hinside) (ih _ _)

/-- A position on one of the lines of a text, with as many bytes before it as a place has. A place
beyond the end of the text is taken for its end. -/
structure IsAt (text : String) (place : Nat) (p : Position) : Prop where
  line_pos : 1 ≤ p.line
  line_le : p.line ≤ 1 + text.toList.count '\n'
  column_le : ∃ line, (lines text)[p.line - 1]? = some line ∧ p.column ≤ line.utf8ByteSize
  bytes : (((lines text).take (p.line - 1)).map (·.utf8ByteSize + 1)).sum + p.column =
    min place text.utf8ByteSize

theorem isAt_ofPlace (text : String) (place : Nat) : (ofPlace text place).IsAt text place := by
  obtain ⟨i, part, hpart, hline, hcolumn, hsum⟩ := precedes_advance ⟨1, 0⟩ place text.toList
  change (ofPlace text place).line = 1 + i at hline
  change (ofPlace text place).column ≤ _ at hcolumn
  change _ + (ofPlace text place).column = _ at hsum
  simp only [ite_self, Nat.zero_add] at hcolumn hsum
  have hlength : i < (parts '\n' text.toList).length := (List.getElem?_eq_some_iff.mp hpart).1
  rw [length_parts] at hlength
  have hindex : (ofPlace text place).line - 1 = i := by omega
  refine ⟨by omega, by omega, ⟨String.ofList part, ?_, ?_⟩, ?_⟩
  · rw [hindex, lines, List.getElem?_map, hpart]
    rfl
  · rw [Escaped.utf8ByteSize_ofList]
    exact hcolumn
  · have hmap : ((lines text).take i).map (·.utf8ByteSize + 1) =
        ((parts '\n' text.toList).take i).map (size · + 1) := by
      rw [lines, ← List.map_take, List.map_map]
      simp [Function.comp_def, Escaped.utf8ByteSize_ofList]
    rw [hindex, hmap, Escaped.utf8ByteSize_eq, hsum]

end Position

end DeckDoc.Json
