import DeckDoc.Text.Hidden

namespace DeckDoc.Text

/-- How a character is shown between double quotes: every character that would not be seen, or
would end the quotation, is named instead. -/
def shown (c : Char) : String :=
  if c = '\x00' then "\\0"
  else if c = '\t' then "\\t"
  else if c = '\n' then "\\n"
  else if c = '\r' then "\\r"
  else if c = '"' then "\\\""
  else if c = '\\' then "\\\\"
  else if isHidden c then "\\u\x7b" ++ String.ofList (Nat.toDigits 16 c.toNat) ++ "\x7d"
  else String.singleton c

/-- A text between double quotes, on one line whatever it holds. -/
def quoted (s : String) : String :=
  "\"" ++ String.join (s.toList.map shown) ++ "\""

end DeckDoc.Text
