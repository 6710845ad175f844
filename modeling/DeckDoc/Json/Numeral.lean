import DeckDoc.Json.Number

namespace DeckDoc.Json

/-- The exponent of a number as it is spelled. -/
structure Exponent where
  mark : Char
  sign : Option Char
  digits : List Char
  deriving DecidableEq

/-- A number as it is spelled. Without a point there is no fraction. -/
structure Numeral where
  negative : Bool
  whole : List Char
  fraction : List Char
  exponent : Option Exponent
  deriving DecidableEq

def Exponent.spelling (e : Exponent) : List Char := e.mark :: e.sign.toList ++ e.digits

namespace Numeral

def spelling (n : Numeral) : List Char :=
  (if n.negative then ['-'] else []) ++ n.whole ++
    (if n.fraction.isEmpty then [] else '.' :: n.fraction) ++
    (n.exponent.map Exponent.spelling).getD []

/-- The digits a text begins with and what follows them. A text without a digit in front is an
error. -/
def scanDigits (cs : List Char) : Except (List Char) (List Char × List Char) :=
  let digits := cs.takeWhile Char.isDigit
  if digits.isEmpty then .error cs else .ok (digits, cs.dropWhile Char.isDigit)

/-- No digit follows a leading zero. -/
def scanWhole (cs : List Char) : Except (List Char) (List Char × List Char) := do
  let (digits, rest) ← scanDigits cs
  if digits.head? = some '0' ∧ 1 < digits.length then .error (cs.drop 1) else .ok (digits, rest)

def scanFraction : List Char → Except (List Char) (List Char × List Char)
  | [] => .ok ([], [])
  | c :: cs => if c = '.' then scanDigits cs else .ok ([], c :: cs)

def scanSign : List Char → Option Char × List Char
  | [] => (none, [])
  | c :: cs => if c = '-' ∨ c = '+' then (some c, cs) else (none, c :: cs)

def scanExponent : List Char → Except (List Char) (Option Exponent × List Char)
  | [] => .ok (none, [])
  | c :: cs =>
    if c = 'e' ∨ c = 'E' then do
      let (sign, cs) := scanSign cs
      let (digits, rest) ← scanDigits cs
      .ok (some ⟨c, sign, digits⟩, rest)
    else .ok (none, c :: cs)

def scanMinus : List Char → Bool × List Char
  | [] => (false, [])
  | c :: cs => if c = '-' then (true, cs) else (false, c :: cs)

/-- The numeral a text begins with and what follows it. The error is the rest of the text from the
character on that cannot continue the numeral. -/
def scan (cs : List Char) : Except (List Char) (Numeral × List Char) := do
  let (negative, cs) := scanMinus cs
  let (whole, cs) ← scanWhole cs
  let (fraction, cs) ← scanFraction cs
  let (exponent, cs) ← scanExponent cs
  return (⟨negative, whole, fraction, exponent⟩, cs)

/-- A text is split without loss into digits and the rest. -/
theorem scanDigits_append {cs ds rest : List Char} (h : scanDigits cs = .ok (ds, rest)) :
    cs = ds ++ rest ∧ ds ≠ [] := by
  simp only [scanDigits] at h
  split at h
  · simp at h
  · next hd =>
    obtain ⟨rfl, rfl⟩ := Prod.mk.inj (Except.ok.inj h)
    exact ⟨List.takeWhile_append_dropWhile.symm, by simpa using hd⟩

theorem scanMinus_append (cs : List Char) :
    cs = (if (scanMinus cs).1 then ['-'] else []) ++ (scanMinus cs).2 := by
  cases cs with
  | nil => rfl
  | cons c cs => simp only [scanMinus]; split <;> simp_all

theorem scanSign_append (cs : List Char) : cs = (scanSign cs).1.toList ++ (scanSign cs).2 := by
  cases cs with
  | nil => rfl
  | cons c cs => simp only [scanSign]; split <;> simp

theorem scanWhole_append {cs ds rest : List Char} (h : scanWhole cs = .ok (ds, rest)) :
    cs = ds ++ rest := by
  simp only [scanWhole] at h
  cases hd : scanDigits cs with
  | error e => simp [hd, bind, Except.bind] at h
  | ok p =>
    obtain ⟨d, r⟩ := p
    simp only [hd, bind, Except.bind] at h
    split at h
    · simp at h
    · obtain ⟨rfl, rfl⟩ := Prod.mk.inj (Except.ok.inj h)
      exact (scanDigits_append hd).1

theorem scanFraction_append {cs ds rest : List Char} (h : scanFraction cs = .ok (ds, rest)) :
    cs = (if ds.isEmpty then [] else '.' :: ds) ++ rest := by
  cases cs with
  | nil =>
    obtain ⟨rfl, rfl⟩ := Prod.mk.inj (Except.ok.inj h)
    rfl
  | cons c cs =>
    simp only [scanFraction] at h
    split at h
    · next hc =>
      obtain ⟨rfl, hne⟩ := scanDigits_append h
      simp [hc, hne]
    · obtain ⟨rfl, rfl⟩ := Prod.mk.inj (Except.ok.inj h)
      rfl

theorem scanExponent_append {cs rest : List Char} {e : Option Exponent}
    (h : scanExponent cs = .ok (e, rest)) : cs = (e.map Exponent.spelling).getD [] ++ rest := by
  cases cs with
  | nil =>
    obtain ⟨rfl, rfl⟩ := Prod.mk.inj (Except.ok.inj h)
    rfl
  | cons c cs =>
    simp only [scanExponent] at h
    split at h
    · cases hd : scanDigits (scanSign cs).2 with
      | error r => simp [hd, bind, Except.bind] at h
      | ok p =>
        obtain ⟨d, r⟩ := p
        simp only [hd, bind, Except.bind] at h
        obtain ⟨rfl, rfl⟩ := Prod.mk.inj (Except.ok.inj h)
        have hs := scanSign_append cs
        rw [(scanDigits_append hd).1] at hs
        simp only [Option.map_some, Option.getD_some, Exponent.spelling]
        rw [List.cons_append, List.cons_append, List.append_assoc, ← hs]
    · obtain ⟨rfl, rfl⟩ := Prod.mk.inj (Except.ok.inj h)
      rfl

/-- Nothing of the text is lost: it is the spelling of the numeral, then the rest. -/
theorem scan_append {cs rest : List Char} {n : Numeral} (h : scan cs = .ok (n, rest)) :
    cs = n.spelling ++ rest := by
  simp only [scan] at h
  cases hw : scanWhole (scanMinus cs).2 with
  | error r => simp [hw, bind, Except.bind] at h
  | ok w =>
    obtain ⟨whole, cs₁⟩ := w
    cases hf : scanFraction cs₁ with
    | error r => simp [hw, hf, bind, Except.bind] at h
    | ok f =>
      obtain ⟨fraction, cs₂⟩ := f
      cases he : scanExponent cs₂ with
      | error r => simp [hw, hf, he, bind, Except.bind] at h
      | ok x =>
        obtain ⟨exponent, cs₃⟩ := x
        simp only [hw, hf, he, bind, Except.bind] at h
        obtain ⟨rfl, rfl⟩ := Prod.mk.inj (Except.ok.inj h)
        have hm := scanMinus_append cs
        rw [scanWhole_append hw, scanFraction_append hf, scanExponent_append he] at hm
        simpa [spelling] using hm

/-- Appends digits to a number as long as it fits 64 bits, and counts the digits left. -/
def absorb (s : Nat) : List Char → Nat × Nat
  | [] => (s, 0)
  | d :: ds =>
    let t := 10 * s + (d.toNat - '0'.toNat)
    if t < UInt64.size then absorb t ds else (s, ds.length + 1)

/-- The digits after the one that takes the number to `2 ^ 31`, if one does. -/
def excess (n : Nat) : List Char → Option (List Char)
  | [] => none
  | d :: ds =>
    let m := 10 * n + (d.toNat - '0'.toNat)
    if m < UInt32.size / 2 then excess m ds else some ds

def powerOfTen (n : Nat) : Float := Float.ofScientific 1 false n

/-- Divides by `1e308` a number of times, or until nothing is left. -/
def shrink : Nat → Float → Float
  | 0, x => x
  | n + 1, x => if x == 0 then x else shrink n (x / 1e308)

/-- `s * 10 ^ e` in double arithmetic: one multiplication, or as many divisions as it takes with
divisors up to `1e308`. There is no result beyond the finite doubles. -/
def scale (s : Nat) (e : Int) : Option Float :=
  let x := s.toUInt64.toFloat
  if 308 < e then if s = 0 then some x else none
  else if 0 ≤ e then
    let y := x * powerOfTen e.toNat
    if y.isInf then none else some y
  else
    let n := (-e).toNat
    let steps := (n - 1) / 308
    some (shrink steps x / powerOfTen (n - 308 * steps))

/-- The largest prefix of the whole part and the fraction that fits 64 bits, and the power of ten
that makes up for the point and the digits dropped. A fraction is read on against the same limit
after a whole part that did not fit. -/
def significand (n : Numeral) : Nat × Int :=
  let (s, dropped) := absorb 0 n.whole
  let (t, left) := absorb s n.fraction
  (t, (dropped : Int) - ((n.fraction.length - left : Nat) : Int))

def signed (n : Numeral) (x : Float) : Number := .real (if n.negative then -x else x)

def isWhole (n : Numeral) : Bool :=
  n.fraction.isEmpty && n.exponent.isNone && (absorb 0 n.whole).2 == 0

/-- The number a numeral stands for: exactly if it is whole and fits 64 bits, signed below zero and
unsigned above, and as a double otherwise, also for the negative zero. An exponent of more than 31
bits leads out of range or to zero. -/
def value (n : Numeral) : Option Number :=
  let (s, e) := n.significand
  if n.isWhole then
    if !n.negative then some (.integer s)
    else if 0 < s ∧ s ≤ UInt64.size / 2 then some (.integer (-s))
    else some (n.signed s.toUInt64.toFloat)
  else match n.exponent with
    | none => (scale s e).map n.signed
    | some x =>
      match excess 0 x.digits with
      | some _ => if x.sign != some '-' && s != 0 then none else some (n.signed 0)
      | none =>
        let p : Int := Nat.ofDigitChars 10 x.digits 0
        (scale s (if x.sign = some '-' then e - p else e + p)).map n.signed

/-- How many digits at the end of a numeral out of range need not be read to find that out. -/
def unread (n : Numeral) : Nat :=
  match n.exponent with
  | some x => ((excess 0 x.digits).getD []).length
  | none => 0

end Numeral

end DeckDoc.Json
