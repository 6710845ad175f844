namespace DeckDoc.Json

/-- How a character is written between quotes; only what a string may not hold is escaped. -/
def escape (c : Char) : List Char :=
  if c = '"' then ['\\', '"']
  else if c = '\\' then ['\\', '\\']
  else if c = '\x08' then ['\\', 'b']
  else if c = '\x0c' then ['\\', 'f']
  else if c = '\n' then ['\\', 'n']
  else if c = '\r' then ['\\', 'r']
  else if c = '\t' then ['\\', 't']
  else if c.toNat < 0x20 then
    ['\\', 'u', '0', '0', (c.toNat / 16).digitChar, (c.toNat % 16).digitChar]
  else [c]

def quote (s : String) : String :=
  String.ofList ('"' :: s.toList.flatMap escape ++ ['"'])

theorem escape_of_plain {c : Char} (h : 0x20 ≤ c.toNat) (hq : c ≠ '"') (hb : c ≠ '\\') :
    escape c = [c] := by
  have low : ∀ d : Char, d.toNat < 0x20 → c ≠ d := by
    rintro d hd rfl; omega
  simp [escape, hq, hb, low '\x08' (by decide), low '\x0c' (by decide), low '\n' (by decide),
    low '\r' (by decide), low '\t' (by decide), Nat.not_lt.mpr h]

end DeckDoc.Json
