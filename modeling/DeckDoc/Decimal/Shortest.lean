namespace DeckDoc

/-- The number `mantissa * 2 ^ exponent`; `narrow` says that the next smaller number of its format
is only half as far away as the next larger one. -/
structure Binary where
  mantissa : Nat
  exponent : Int
  narrow : Bool
  deriving DecidableEq

/-- The size of a finite double, its sign left out. -/
def Binary.ofFloat (x : Float) : Binary :=
  let bits := x.toBits.toNat
  let fraction : Nat := bits % Nat.pow 2 52
  let level : Nat := bits / Nat.pow 2 52 % Nat.pow 2 11
  if level = 0 then ⟨fraction, -1074, false⟩
  else ⟨Nat.pow 2 52 + fraction, (level : Int) - 1075, fraction = 0 && 1 < level⟩

/-- The number `coefficient * 10 ^ exponent`. -/
structure Decimal where
  coefficient : Nat
  exponent : Int
  deriving DecidableEq

namespace Binary

/-- The number in quarters of the mantissa's unit; `low` and `high` are halfway to its two
neighbours. -/
def mid (b : Binary) : Nat := 4 * b.mantissa

def low (b : Binary) : Nat := if b.narrow then b.mid - 1 else b.mid - 2

def high (b : Binary) : Nat := b.mid + 2

/-- A quarter of the mantissa's unit, and `10 ^ e` in `decimalUnit`, both as multiples of one small
enough unit. -/
def binaryUnit (b : Binary) (e : Int) : Nat :=
  Nat.pow 2 (b.exponent - 2).toNat * Nat.pow 10 (-e).toNat

def decimalUnit (b : Binary) (e : Int) : Nat :=
  Nat.pow 10 e.toNat * Nat.pow 2 (2 - b.exponent).toNat

/-- Whether `d * 10 ^ e` lies among the reals that round to the number. The two ends of that
interval round to the neighbour with the even mantissa. -/
def Covers (b : Binary) (d : Nat) (e : Int) : Prop :=
  let x := d * b.decimalUnit e
  if b.mantissa % 2 = 0 then b.low * b.binaryUnit e ≤ x ∧ x ≤ b.high * b.binaryUnit e
  else b.low * b.binaryUnit e < x ∧ x < b.high * b.binaryUnit e

instance (b : Binary) (d : Nat) (e : Int) : Decidable (b.Covers d e) := by
  unfold Covers; infer_instance

/-- The largest `d` such that `d * 10 ^ e` is not above the number. -/
def floorAt (b : Binary) (e : Int) : Nat := b.mid * b.binaryUnit e / b.decimalUnit e

/-- Of the two neighbours of the number among the multiples of `10 ^ e` the one that rounds to it,
the nearer one if both do, and of two equally near the even one. -/
def coefficientAt (b : Binary) (e : Int) : Option Nat :=
  let d := b.floorAt e
  if b.Covers d e then
    if b.Covers (d + 1) e then
      let twice := 2 * (b.mid * b.binaryUnit e)
      let middle := (2 * d + 1) * b.decimalUnit e
      if twice < middle then some d
      else if middle < twice then some (d + 1)
      else some (if d % 2 = 0 then d else d + 1)
    else some d
  else if b.Covers (d + 1) e then some (d + 1)
  else none

/-- The first hit on the grids `10 ^ e`, `10 ^ (e - 1)` and so on. -/
def search (b : Binary) (e : Int) : Nat → Decimal
  | 0 => ⟨b.floorAt e, e⟩
  | n + 1 =>
    match b.coefficientAt e with
    | some d => ⟨d, e⟩
    | none => b.search (e - 1) n

/-- An exponent of ten with `10 ^ b.ceiling` not below the number. -/
def ceiling (b : Binary) : Int :=
  ((b.mantissa.log2 : Int) + b.exponent + 1) * 30103 / 100000 + 2

/-- The decimal with the fewest digits that rounds to the number, the nearest one of those.
Seventeen digits always suffice, and the search begins at most three grids above the first digit. -/
def shortest (b : Binary) : Decimal := b.search b.ceiling 21

theorem covers_of_coefficientAt {b : Binary} {e : Int} {d : Nat} (h : b.coefficientAt e = some d) :
    b.Covers d e := by
  unfold coefficientAt at h
  simp only at h
  split at h
  · split at h
    · split at h
      · simp_all
      · split at h
        · simp_all
        · split at h <;> simp_all
    · simp_all
  · split at h <;> simp_all

end Binary

end DeckDoc
