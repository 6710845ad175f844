import DeckDoc.Decimal.Written

namespace DeckDoc.Json

/-- A number of a description: a whole one is kept exactly, any other as the double it stands
for. -/
inductive Number where
  | integer (value : Int)
  | real (value : Float)

namespace Number

/-- Whole numbers differ from reals whatever their size; reals compare as doubles do, so the two
zeros are equal. -/
def beq : Number → Number → Bool
  | integer i, integer j => i == j
  | real x, real y => x == y
  | _, _ => false

instance : BEq Number := ⟨beq⟩

def text : Number → String
  | integer i => i.repr
  | real x => writtenFloat x

theorem text_ofNat (n : Nat) : (integer n).text = n.repr := rfl

end Number

end DeckDoc.Json
