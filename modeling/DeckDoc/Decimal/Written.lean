import DeckDoc.Decimal.Shortest

namespace DeckDoc

namespace Decimal

def digits (d : Decimal) : List Char := Nat.toDigits 10 d.coefficient

/-- How many digits stand before the point; zero or less if the first digit comes after it. -/
def point (d : Decimal) : Int := d.digits.length + d.exponent

/-- All places written out, with at least one digit on either side of the point. -/
def positional (d : Decimal) : List Char :=
  if 0 ≤ d.exponent then d.digits ++ List.replicate d.exponent.toNat '0' ++ ['.', '0']
  else if 0 < d.point then d.digits.take d.point.toNat ++ '.' :: d.digits.drop d.point.toNat
  else '0' :: '.' :: List.replicate (-d.point).toNat '0' ++ d.digits

/-- One digit before the point, no point after a single digit, and a signed power of ten. -/
def scientific (d : Decimal) : List Char :=
  let power := d.point - 1
  let fraction := match d.digits.tail with
    | [] => []
    | ds => '.' :: ds
  d.digits.take 1 ++ fraction ++ 'e' :: (if power < 0 then '-' else '+') ::
    Nat.toDigits 10 power.natAbs

/-- Positional from `1e-5` up to but not including `1e16`. -/
def written (d : Decimal) : List Char :=
  if -5 ≤ d.point - 1 ∧ d.point - 1 < 16 then d.positional else d.scientific

example : (Decimal.mk 1 (-5)).written = "0.00001".toList := by decide
example : (Decimal.mk 1 (-6)).written = "1e-6".toList := by decide
example : (Decimal.mk 25 (-8)).written = "2.5e-7".toList := by decide
example : (Decimal.mk 1 2).written = "100.0".toList := by decide
example : (Decimal.mk 1234 (-2)).written = "12.34".toList := by decide
example : (Decimal.mk 1 15).written = "1000000000000000.0".toList := by decide
example : (Decimal.mk 15 299).written = "1.5e+300".toList := by decide

end Decimal

/-- A double as the shortest decimal that rounds to it; zeros keep their sign. -/
def writtenFloat (x : Float) : String :=
  let size := Binary.ofFloat x
  let sign := if x.toBits.toNat < UInt64.size / 2 then [] else ['-']
  String.ofList (sign ++ if size.mantissa = 0 then ['0', '.', '0'] else size.shortest.written)

end DeckDoc
