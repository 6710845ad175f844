namespace DeckDoc.Text

/-- Marks the first place of a character that has no mark yet, from `low` to below `high`. -/
def mark (c : Char) (low high : Nat) : Nat → List (Char × Bool) → Option (List (Char × Bool))
  | _, [] => none
  | i, (d, marked) :: rest =>
    if low ≤ i ∧ i < high ∧ c = d ∧ marked = false then some ((d, true) :: rest)
    else (mark c low high (i + 1) rest).map ((d, marked) :: ·)

/-- The characters that are also found elsewhere, in places at most `reach` apart, and the places
elsewhere with those marked that were found. -/
def shared (reach : Nat) : Nat → List Char → List (Char × Bool) → List Char × List (Char × Bool)
  | _, [], places => ([], places)
  | i, c :: cs, places =>
    match mark c (i - reach) (i + reach + 1) 0 places with
    | none => shared reach (i + 1) cs places
    | some marked =>
      let rest := shared reach (i + 1) cs marked
      (c :: rest.1, rest.2)

/-- Two texts are similar when the shares of their characters that are found in the other, and the
share of those that come in the same order there, are seven tenths on average. -/
def isSimilar (s t : String) : Bool :=
  let a := s.toList
  let b := t.toList
  let found := shared (max a.length b.length / 2 - 1) 0 a (b.map (·, false))
  let m := found.1.length
  let there := (found.2.filter (·.2)).map (·.1)
  let inOrder := m - (found.1.zip there).countP (fun p => p.1 ≠ p.2) / 2
  m ≠ 0 &&
    21 * a.length * b.length * m ≤
      10 * (m * m * b.length + m * m * a.length + inOrder * a.length * b.length)

example : isSimilar "hlep" "help" = true ∧ isSimilar "l" "help" = false := by decide +kernel

end DeckDoc.Text
