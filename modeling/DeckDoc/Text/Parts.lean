namespace DeckDoc.Text

/-- The parts of a text between the places of one character. -/
def parts (mark : Char) : List Char → List (List Char)
  | [] => [[]]
  | c :: cs =>
    if c = mark then [] :: parts mark cs
    else match parts mark cs with
      | [] => [[c]]
      | part :: rest => (c :: part) :: rest

theorem parts_ne_nil (mark : Char) (cs : List Char) : parts mark cs ≠ [] := by
  cases cs with
  | nil => simp [parts]
  | cons c cs =>
    rw [parts]
    split
    · simp
    · split <;> simp

theorem parts_of_notMem {mark : Char} {cs : List Char} (h : mark ∉ cs) : parts mark cs = [cs] := by
  induction cs with
  | nil => rfl
  | cons c cs ih =>
    have hc : c ≠ mark := fun e => h (e ▸ List.mem_cons_self)
    rw [parts, if_neg hc, ih fun hm => h (List.mem_cons_of_mem _ hm)]

theorem intercalate_parts (mark : Char) (cs : List Char) :
    [mark].intercalate (parts mark cs) = cs := by
  induction cs with
  | nil => rfl
  | cons c cs ih =>
    rw [parts]
    split
    · next hc =>
      rw [List.intercalate_cons_of_ne_nil (parts_ne_nil mark cs), ih, hc]
      rfl
    · split
      · next hn => exact absurd hn (parts_ne_nil mark cs)
      · next part rest hp =>
        rw [hp] at ih
        cases rest with
        | nil => simpa using ih
        | cons part' rest => simpa using ih

end DeckDoc.Text
