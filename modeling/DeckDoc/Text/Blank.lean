namespace DeckDoc.Text

/-- The white space characters: the ASCII ones, the two of Latin-1, and the space separators. -/
def isBlank (c : Char) : Bool :=
  let n := c.toNat
  (9 ≤ n && n ≤ 13) || n = 0x20 || n = 0x85 || n = 0xA0 || n = 0x1680 ||
    (0x2000 ≤ n && n ≤ 0x200A) || n = 0x2028 || n = 0x2029 || n = 0x202F || n = 0x205F ||
    n = 0x3000

theorem isBlank_of_isWhitespace {c : Char} (h : c.isWhitespace = true) : isBlank c = true := by
  simp only [Char.isWhitespace, Bool.or_eq_true, decide_eq_true_eq] at h
  rcases h with ((rfl | rfl) | rfl) | rfl <;> decide

/-- Removes the white space at the end. -/
def trimEnd (s : String) : String :=
  String.ofList (s.toList.reverse.dropWhile isBlank).reverse

theorem trimEnd_append_blank (s t : String) (h : ∀ c ∈ t.toList, isBlank c = true) :
    trimEnd (s ++ t) = trimEnd s := by
  simp only [trimEnd, String.toList_append, List.reverse_append]
  rw [List.dropWhile_append_of_pos (by simpa using h)]

theorem trimEnd_append_singleton (s : String) (c : Char) (h : isBlank c = false) :
    trimEnd (s ++ String.singleton c) = s ++ String.singleton c := by
  apply String.toList_inj.mp
  simp [trimEnd, h]

end DeckDoc.Text
