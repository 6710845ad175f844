import DeckDoc.Proofs.Json.Numeral

namespace DeckDoc.Json.Numeral

/-- A numeral as the grammar of JSON has it: digits without a leading zero, perhaps a fraction and
perhaps an exponent, each with a digit at least. -/
structure IsProper (n : Numeral) : Prop where
  whole_ne_nil : n.whole ≠ []
  whole : ∀ c ∈ n.whole, c.isDigit = true
  leading : ¬ (n.whole.head? = some '0' ∧ 1 < n.whole.length)
  fraction : ∀ c ∈ n.fraction, c.isDigit = true
  mark : ∀ e ∈ n.exponent, e.mark = 'e' ∨ e.mark = 'E'
  sign : ∀ e ∈ n.exponent, ∀ c ∈ e.sign, c = '-' ∨ c = '+'
  digits_ne_nil : ∀ e ∈ n.exponent, e.digits ≠ []
  digits : ∀ e ∈ n.exponent, ∀ c ∈ e.digits, c.isDigit = true

variable {cs ds r rest : List Char} {n : Numeral}

theorem digits_ne_nil_of_scanExponent {e : Exponent} (h : scanExponent cs = .ok (some e, r)) :
    e.digits ≠ [] := by
  cases cs with
  | nil => cases h
  | cons d cs =>
    simp only [scanExponent] at h
    split at h
    · obtain ⟨p, hp, h⟩ := Except.bind_eq_ok_iff.mp h
      obtain ⟨he, -⟩ := Prod.mk.inj (Except.ok.inj h)
      obtain rfl := Option.some.inj he
      exact (scanDigits_append hp).2
    · cases h

theorem isProper_of_scan (h : scan cs = .ok (n, r)) : n.IsProper := by
  obtain ⟨-, cs₁, cs₂, hw, hf, he⟩ := scan_eq_ok_iff.mp h
  obtain ⟨hd, hz⟩ := scanWhole_eq_ok_iff.mp hw
  have exponent (e : Exponent) (hx : e ∈ n.exponent) : scanExponent cs₂ = .ok (some e, r) := by
    rw [he, Option.mem_def.mp hx]
  exact {
    whole_ne_nil := (scanDigits_append hd).2
    whole := fun _ hc => isDigit_of_mem_scanDigits hd hc
    leading := hz
    fraction := fun _ hc => isDigit_of_mem_scanFraction hf hc
    mark := fun e hx => (scanExponent_some (exponent e hx)).1
    sign := fun e hx => (scanExponent_some (exponent e hx)).2.1
    digits_ne_nil := fun e hx => digits_ne_nil_of_scanExponent (exponent e hx)
    digits := fun e hx => (scanExponent_some (exponent e hx)).2.2 }

theorem scanDigits_of_all (hds : ∀ c ∈ ds, c.isDigit = true) (hne : ds ≠ [])
    (hrest : ∀ c ∈ rest.head?, c.isDigit = false) : scanDigits (ds ++ rest) = .ok (ds, rest) := by
  have hstop : rest.takeWhile Char.isDigit = [] ∧ rest.dropWhile Char.isDigit = rest := by
    cases rest with
    | nil => exact ⟨rfl, rfl⟩
    | cons c rest =>
      have hc : c.isDigit = false := hrest c rfl
      simp [hc]
  refine scanDigits_eq_ok_iff.mpr ⟨?_, ?_, hne⟩
  · rw [List.takeWhile_append_of_pos hds, hstop.1, List.append_nil]
  · rw [List.dropWhile_append_of_pos hds, hstop.2]

theorem scanExponent_spelling (hn : n.IsProper) (hr : Ends rest) :
    scanExponent ((n.exponent.map Exponent.spelling).getD [] ++ rest) = .ok (n.exponent, rest) := by
  cases he : n.exponent with
  | none =>
    cases rest with
    | nil => rfl
    | cons c rest => simp [scanExponent, (hr c rfl).2.2]
  | some e =>
    have hdigits : scanDigits (e.digits ++ rest) = .ok (e.digits, rest) :=
      scanDigits_of_all (hn.digits e he) (hn.digits_ne_nil e he) fun c hc => (hr c hc).1
    have hsign : scanSign (e.sign.toList ++ (e.digits ++ rest)) = (e.sign, e.digits ++ rest) := by
      cases hs : e.sign with
      | some s => simp [scanSign, hn.sign e he s hs]
      | none =>
        obtain ⟨d, ds, hds⟩ := List.exists_cons_of_ne_nil (hn.digits_ne_nil e he)
        have hd : d.isDigit = true := hn.digits e he d (hds ▸ List.mem_cons_self)
        have hne : ¬ (d = '-' ∨ d = '+') := by
          rintro (rfl | rfl) <;> cases hd
        simp [scanSign, hds, hne]
    simp only [Option.map_some, Option.getD_some, Exponent.spelling, List.cons_append,
      List.append_assoc, scanExponent, if_pos (hn.mark e he), hsign, hdigits, bind, Except.bind]

theorem scanFraction_spelling (hn : n.IsProper) (hr : Ends rest) :
    scanFraction ((if n.fraction.isEmpty then [] else '.' :: n.fraction) ++
        ((n.exponent.map Exponent.spelling).getD [] ++ rest)) =
      .ok (n.fraction, (n.exponent.map Exponent.spelling).getD [] ++ rest) := by
  have hhead : ∀ c ∈ ((n.exponent.map Exponent.spelling).getD [] ++ rest).head?,
      c.isDigit = false ∧ c ≠ '.' := by
    cases he : n.exponent with
    | none => exact fun c hc => ⟨(hr c hc).1, (hr c hc).2.1⟩
    | some e =>
      intro c hc
      obtain rfl : e.mark = c := Option.some.inj hc
      rcases hn.mark e he with hm | hm <;> rw [hm] <;> exact ⟨rfl, by decide⟩
  generalize (n.exponent.map Exponent.spelling).getD [] ++ rest = left at hhead ⊢
  cases hf : n.fraction with
  | cons d ds =>
    change scanDigits ((d :: ds) ++ left) = _
    exact scanDigits_of_all (hf ▸ hn.fraction) (List.cons_ne_nil d ds) fun c hc => (hhead c hc).1
  | nil =>
    change scanFraction left = _
    cases left with
    | nil => rfl
    | cons c left => exact if_neg (hhead c rfl).2

/-- A proper numeral is found where it is spelled, unless what follows goes on with it. -/
theorem scan_spelling (hn : n.IsProper) (hr : Ends rest) :
    scan (n.spelling ++ rest) = .ok (n, rest) := by
  obtain ⟨d, ds, hds⟩ := List.exists_cons_of_ne_nil hn.whole_ne_nil
  have hd : d.isDigit = true := hn.whole d (hds ▸ List.mem_cons_self)
  have hdigits (c : Char) (h : c = '.' ∨ c = 'e' ∨ c = 'E') : c.isDigit = false := by
    rcases h with rfl | rfl | rfl <;> rfl
  have hleft : ∀ c ∈ ((if n.fraction.isEmpty then [] else '.' :: n.fraction) ++
      ((n.exponent.map Exponent.spelling).getD [] ++ rest)).head?, c.isDigit = false := by
    cases n.fraction with
    | cons f fs => exact fun c hc => Option.some.inj hc ▸ rfl
    | nil =>
      cases he : n.exponent with
      | none => exact fun c hc => (hr c hc).1
      | some e => exact fun c hc => Option.some.inj hc ▸ hdigits _ (.inr (hn.mark e he))
  have hminus : scanMinus (n.spelling ++ rest) = (n.negative, n.whole ++
      ((if n.fraction.isEmpty then [] else '.' :: n.fraction) ++
        ((n.exponent.map Exponent.spelling).getD [] ++ rest))) := by
    have hne : d ≠ '-' := by
      rintro rfl
      cases hd
    unfold spelling
    cases n.negative <;> simp [scanMinus, hds, hne]
  refine scan_eq_ok_iff.mpr ⟨congrArg Prod.fst hminus, _, _, ?_, scanFraction_spelling hn hr,
    scanExponent_spelling hn hr⟩
  rw [hminus]
  exact scanWhole_eq_ok_iff.mpr
    ⟨scanDigits_of_all hn.whole hn.whole_ne_nil hleft, hn.leading⟩

/-! Whole numbers. -/

theorem digitChar_toNat_sub {d : Char} (h : d.isDigit = true) :
    (d.toNat - '0'.toNat).digitChar = d ∧ d.toNat - '0'.toNat < 10 := by
  have hrange : 48 ≤ d.toNat ∧ d.toNat ≤ 57 := by
    simp only [Char.isDigit, Bool.and_eq_true, decide_eq_true_eq] at h
    exact ⟨UInt32.le_iff_toNat_le.mp h.1, UInt32.le_iff_toNat_le.mp h.2⟩
  have all : ∀ m, m < 10 → m.digitChar = Char.ofNat (48 + m) := by decide
  have hd : d = Char.ofNat (48 + (d.toNat - 48)) := by
    rw [Nat.add_sub_cancel' hrange.1, Char.ofNat_toNat]
  have hlt : d.toNat - 48 < 10 := by omega
  exact ⟨(all _ hlt).trans hd.symm, hlt⟩

/-- Digits without a leading zero are those of the number that they stand for. -/
theorem toDigits_ofDigitChars (hds : ∀ c ∈ ds, c.isDigit = true) (hne : ds ≠ [])
    (hzero : ¬ (ds.head? = some '0' ∧ 1 < ds.length)) :
    Nat.toDigits 10 (Nat.ofDigitChars 10 ds 0) = ds := by
  induction ds using List.reverseRecOn with
  | nil => exact absurd rfl hne
  | append_singleton ds d ih =>
    obtain ⟨hchar, hlt⟩ := digitChar_toNat_sub (hds d (List.mem_append_right _ List.mem_cons_self))
    rw [Nat.ofDigitChars_append, Nat.ofDigitChars_cons, Nat.ofDigitChars_nil]
    cases ds with
    | nil =>
      rw [Nat.ofDigitChars_nil, Nat.mul_zero, Nat.zero_add, Nat.toDigits_of_lt_base hlt, hchar]
      rfl
    | cons c cs =>
      have hc : c ≠ '0' := fun h => hzero ⟨congrArg some h, by simp⟩
      have hinit := ih (fun x hx => hds x (List.mem_append_left _ hx)) (List.cons_ne_nil c cs)
        fun h => hc (Option.some.inj h.1)
      have hpos : 0 < Nat.ofDigitChars 10 (c :: cs) 0 := by
        rw [Nat.pos_iff_ne_zero]
        intro h
        rw [h, Nat.toDigits_zero] at hinit
        exact hc (List.cons.inj hinit).1.symm
      generalize Nat.ofDigitChars 10 (c :: cs) 0 = v at hinit hpos
      have hdiv : (10 * v + (d.toNat - '0'.toNat)) / 10 = v := by omega
      have hmod : (10 * v + (d.toNat - '0'.toNat)) % 10 = d.toNat - '0'.toNat := by omega
      rw [Nat.toDigits_of_base_le (by decide) (by omega), hdiv, hmod, hinit, hchar]

theorem ofDigitChars_lt_of_absorb {s : Nat} (hs : s < UInt64.size) (h : (absorb s ds).2 = 0) :
    Nat.ofDigitChars 10 ds s < UInt64.size := by
  induction ds generalizing s with
  | nil => exact hs
  | cons d ds ih =>
    rw [Nat.ofDigitChars_cons]
    unfold absorb at h
    dsimp only at h
    split at h
    · next ht => exact ih ht h
    · cases h

/-- The number that the whole part stands for. -/
def magnitude (n : Numeral) : Nat := Nat.ofDigitChars 10 n.whole 0

theorem isWhole_iff : n.isWhole = true ↔
    n.fraction = [] ∧ n.exponent = none ∧ n.magnitude < UInt64.size := by
  have habsorb : (absorb 0 n.whole).2 = 0 ↔ n.magnitude < UInt64.size := by
    constructor
    · exact ofDigitChars_lt_of_absorb (by decide)
    · intro h
      rw [absorb_eq h]
  simp [isWhole, habsorb, and_assoc]

/-- A whole numeral that fits is kept as a whole number, apart from the negative zero. -/
def IsExact (n : Numeral) : Prop :=
  n.fraction = [] ∧ n.exponent = none ∧
    if n.negative then 0 < n.magnitude ∧ n.magnitude ≤ 2 ^ 63 else n.magnitude < 2 ^ 64

theorem value_of_whole (h : n.isWhole = true) : n.value =
    if !n.negative then some (.integer n.magnitude)
    else if 0 < n.magnitude ∧ n.magnitude ≤ UInt64.size / 2 then some (.integer (-n.magnitude))
    else some (n.signed n.magnitude.toUInt64.toFloat) := by
  obtain ⟨hf, -, hlt⟩ := isWhole_iff.mp h
  have hs : n.significand = (n.magnitude, 0) := by
    simp [significand, absorb_eq hlt, hf, absorb, magnitude]
  simp only [value, hs, h, if_true]

theorem value_ne_integer {i : Int} (h : n.isWhole = false) : n.value ≠ some (.integer i) := by
  have reals {y : Option Float} : y.map n.signed ≠ some (.integer i) := by
    cases y <;> simp [signed]
  simp only [value, h]
  rw [if_neg (by decide)]
  split
  · exact reals
  · split
    · split
      · simp
      · simp [signed]
    · exact reals

/-- The exact numerals are those that are read as whole numbers. -/
theorem value_eq_integer_iff {i : Int} : n.value = some (.integer i) ↔
    n.IsExact ∧ i = if n.negative then -(n.magnitude : Int) else n.magnitude := by
  have hsize : UInt64.size = 2 ^ 64 := rfl
  have hhalf : UInt64.size / 2 = 2 ^ 63 := rfl
  cases hw : n.isWhole with
  | false =>
    refine iff_of_false (value_ne_integer hw) fun h => ?_
    have hlt : n.magnitude < UInt64.size := by
      have hrange := h.1.2.2
      split at hrange <;> omega
    rw [isWhole_iff.mpr ⟨h.1.1, h.1.2.1, hlt⟩] at hw
    cases hw
  | true =>
    obtain ⟨hf, he, hlt⟩ := isWhole_iff.mp hw
    rw [value_of_whole hw, IsExact, hhalf]
    cases n.negative with
    | false => simp [hf, he, hlt, ← hsize, eq_comm]
    | true =>
      by_cases hrange : 0 < n.magnitude ∧ n.magnitude ≤ 2 ^ 63
      · rw [if_neg (by decide), if_pos hrange, if_pos rfl, if_pos rfl, Option.some.injEq,
          Number.integer.injEq, and_iff_right ⟨hf, he, hrange⟩, eq_comm]
      · rw [if_neg (by decide), if_neg hrange, if_pos rfl]
        exact iff_of_false (by simp [signed]) fun h => hrange h.1.2.2

end DeckDoc.Json.Numeral
