import DeckDoc.Json.Numeral
import DeckDoc.Proofs.Except

namespace DeckDoc.Json

namespace Numeral

variable {cs ds r rest : List Char}

theorem scanDigits_eq_ok_iff : scanDigits cs = .ok (ds, r) ↔
    cs.takeWhile Char.isDigit = ds ∧ cs.dropWhile Char.isDigit = r ∧ ds ≠ [] := by
  simp only [scanDigits]
  split
  · next h =>
    simp only [reduceCtorEq, false_iff]
    intro hd
    exact hd.2.2 (hd.1 ▸ List.isEmpty_iff.mp h)
  · next h =>
    simp only [Except.ok.injEq, Prod.mk.injEq]
    constructor
    · intro hd
      exact ⟨hd.1, hd.2, hd.1 ▸ fun he => h (List.isEmpty_iff.mpr he)⟩
    · intro hd
      exact ⟨hd.1, hd.2.1⟩

theorem scanWhole_eq_ok_iff : scanWhole cs = .ok (ds, r) ↔
    scanDigits cs = .ok (ds, r) ∧ ¬ (ds.head? = some '0' ∧ 1 < ds.length) := by
  simp only [scanWhole, Except.bind_eq_ok_iff, Prod.exists]
  constructor
  · intro h
    obtain ⟨ds', r', hd, h⟩ := h
    split at h
    · cases h
    · next hz =>
      obtain ⟨rfl, rfl⟩ := Prod.mk.inj (Except.ok.inj h)
      exact ⟨hd, hz⟩
  · intro h
    exact ⟨ds, r, h.1, if_neg h.2⟩

theorem scan_eq_ok_iff {n : Numeral} : scan cs = .ok (n, r) ↔ (scanMinus cs).1 = n.negative ∧
    ∃ cs₁ cs₂, scanWhole (scanMinus cs).2 = .ok (n.whole, cs₁) ∧
      scanFraction cs₁ = .ok (n.fraction, cs₂) ∧ scanExponent cs₂ = .ok (n.exponent, r) := by
  obtain ⟨negative, whole, fraction, exponent⟩ := n
  simp only [scan, Except.bind_eq_ok_iff, Prod.exists, pure, Except.pure, Except.ok.injEq,
    Prod.mk.injEq, mk.injEq]
  constructor
  · intro h
    obtain ⟨_, cs₁, hw, _, cs₂, hf, _, _, he, ⟨hn, rfl, rfl, rfl⟩, rfl⟩ := h
    exact ⟨hn, cs₁, cs₂, hw, hf, he⟩
  · intro h
    obtain ⟨hn, cs₁, cs₂, hw, hf, he⟩ := h
    exact ⟨whole, cs₁, hw, fraction, cs₂, hf, exponent, r, he, ⟨hn, rfl, rfl, rfl⟩, rfl⟩

theorem isDigit_of_mem_scanDigits (h : scanDigits cs = .ok (ds, r)) {c : Char} (hc : c ∈ ds) :
    c.isDigit :=
  List.mem_takeWhile_imp ((scanDigits_eq_ok_iff.mp h).1 ▸ hc)

theorem isDigit_of_mem_scanFraction (h : scanFraction cs = .ok (ds, r)) {c : Char} (hc : c ∈ ds) :
    c.isDigit := by
  cases cs with
  | nil =>
    obtain ⟨rfl, -⟩ := Prod.mk.inj (Except.ok.inj h)
    cases hc
  | cons d cs =>
    simp only [scanFraction] at h
    split at h
    · exact isDigit_of_mem_scanDigits h hc
    · obtain ⟨rfl, -⟩ := Prod.mk.inj (Except.ok.inj h)
      cases hc

theorem mem_scanSign {c : Char} (h : c ∈ (scanSign cs).1) : c = '-' ∨ c = '+' := by
  cases cs with
  | nil => cases h
  | cons d cs =>
    simp only [scanSign] at h
    split at h
    · next hd => exact Option.some.inj h ▸ hd
    · cases h

theorem scanExponent_some {e : Exponent} (h : scanExponent cs = .ok (some e, r)) :
    (e.mark = 'e' ∨ e.mark = 'E') ∧ (∀ c ∈ e.sign, c = '-' ∨ c = '+') ∧
      ∀ c ∈ e.digits, c.isDigit := by
  cases cs with
  | nil => cases h
  | cons d cs =>
    simp only [scanExponent] at h
    split at h
    · next hd =>
      obtain ⟨p, hp, h⟩ := Except.bind_eq_ok_iff.mp h
      obtain ⟨he, -⟩ := Prod.mk.inj (Except.ok.inj h)
      obtain rfl := Option.some.inj he
      exact ⟨hd, fun c hc => mem_scanSign hc, fun c hc => isDigit_of_mem_scanDigits hp hc⟩
    · cases h

theorem utf8Size_of_isDigit {c : Char} (h : c.isDigit) : c.utf8Size = 1 := by
  simp only [Char.isDigit, Bool.and_eq_true, decide_eq_true_eq] at h
  have hle : c.val ≤ 127 := UInt32.le_trans h.2 (by decide)
  simp [Char.utf8Size, hle]

/-- Numerals are written in one byte a character. -/
theorem utf8Size_of_mem_spelling {n : Numeral} (h : scan cs = .ok (n, r)) {c : Char}
    (hc : c ∈ n.spelling) : c.utf8Size = 1 := by
  obtain ⟨-, cs₁, cs₂, hw, hf, he⟩ := scan_eq_ok_iff.mp h
  simp only [spelling, List.mem_append, or_assoc] at hc
  rcases hc with hc | hc | hc | hc
  · split at hc
    · exact List.mem_singleton.mp hc ▸ rfl
    · cases hc
  · exact utf8Size_of_isDigit (isDigit_of_mem_scanDigits (scanWhole_eq_ok_iff.mp hw).1 hc)
  · split at hc
    · cases hc
    · rcases List.mem_cons.mp hc with rfl | hc
      · rfl
      · exact utf8Size_of_isDigit (isDigit_of_mem_scanFraction hf hc)
  · cases hx : n.exponent with
    | none =>
      rw [hx] at hc
      cases hc
    | some e =>
      rw [hx] at hc he
      obtain ⟨hmark, hsign, hdigits⟩ := scanExponent_some he
      rcases List.mem_cons.mp hc with rfl | hc
      · rcases hmark with hm | hm <;> rw [hm] <;> rfl
      · rcases List.mem_append.mp hc with hc | hc
        · rcases hsign c (Option.mem_toList.mp hc) with rfl | rfl <;> rfl
        · exact utf8Size_of_isDigit (hdigits c hc)

/-- A numeral in front of the text does not go on into it. -/
def Ends (rest : List Char) : Prop :=
  ∀ c ∈ rest.head?, c.isDigit = false ∧ c ≠ '.' ∧ c ≠ 'e' ∧ c ≠ 'E'

theorem ends_nil : Ends [] := by
  intro c hc
  cases hc

/-- A numeral begins with its sign or a digit. -/
theorem head_of_scan {n : Numeral} (h : scan cs = .ok (n, r)) :
    ∃ c ds, n.spelling = c :: ds ∧ (c = '-' ∨ c.isDigit) := by
  obtain ⟨-, _, _, hwhole, -⟩ := scan_eq_ok_iff.mp h
  have hdigits := (scanWhole_eq_ok_iff.mp hwhole).1
  cases hw : n.whole with
  | nil => exact absurd hw (scanDigits_append hdigits).2
  | cons d ds =>
    have hd : d.isDigit := isDigit_of_mem_scanDigits hdigits (hw ▸ List.mem_cons_self)
    unfold spelling
    rw [hw]
    cases n.negative with
    | true => exact ⟨_, _, rfl, .inl rfl⟩
    | false => exact ⟨_, _, rfl, .inr hd⟩

/-! Whole numbers. -/

theorem absorb_eq {ds : List Char} {s : Nat} (h : Nat.ofDigitChars 10 ds s < UInt64.size) :
    absorb s ds = (Nat.ofDigitChars 10 ds s, 0) := by
  induction ds generalizing s with
  | nil => rfl
  | cons d ds ih =>
    rw [Nat.ofDigitChars_cons] at h ⊢
    have hle : 10 * s + (d.toNat - '0'.toNat) ≤
        Nat.ofDigitChars 10 ds (10 * s + (d.toNat - '0'.toNat)) := by
      rw [Nat.ofDigitChars_eq_ofDigitChars_zero]
      exact Nat.le_trans (Nat.le_mul_of_pos_left _ (Nat.pow_pos (by decide))) (Nat.le_add_right _ _)
    rw [absorb, if_pos (Nat.lt_of_le_of_lt hle h), ih h]

theorem head?_toDigits {n : Nat} (hn : 0 < n) : (Nat.toDigits 10 n).head? ≠ some '0' := by
  induction n using Nat.strongRecOn with
  | ind n ih =>
    by_cases h : n < 10
    · rw [Nat.toDigits_of_lt_base h]
      have all : ∀ m, m < 10 → 0 < m → [m.digitChar].head? ≠ some '0' := by decide
      exact all n h hn
    · have hne : Nat.toDigits 10 (n / 10) ≠ [] := Nat.toDigits_ne_nil
      obtain ⟨c, cs, hc⟩ := List.exists_cons_of_ne_nil hne
      have hhead := ih (n / 10) (by omega) (by omega)
      rw [hc] at hhead
      rw [Nat.toDigits_of_base_le (by decide) (Nat.le_of_not_lt h), hc]
      exact hhead

theorem scanWhole_toDigits (n : Nat) :
    scanWhole (Nat.toDigits 10 n) = .ok (Nat.toDigits 10 n, []) := by
  have hall : ∀ c ∈ Nat.toDigits 10 n, c.isDigit = true := fun c hc =>
    Nat.isDigit_of_mem_toDigits (by decide) (by decide) hc
  have htake : (Nat.toDigits 10 n).takeWhile Char.isDigit = Nat.toDigits 10 n :=
    List.takeWhile_eq_self_iff.mpr hall
  have hzero : ¬ ((Nat.toDigits 10 n).head? = some '0' ∧ 1 < (Nat.toDigits 10 n).length) := by
    intro h
    cases n with
    | zero => simp at h
    | succ n => exact head?_toDigits (Nat.succ_pos n) h.1
  have hdrop : (Nat.toDigits 10 n).dropWhile Char.isDigit = [] := by
    have happend := List.takeWhile_append_dropWhile (p := Char.isDigit) (l := Nat.toDigits 10 n)
    rw [htake] at happend
    exact List.append_right_eq_self.mp happend
  simp [scanWhole, scanDigits, htake, hdrop, hzero, bind, Except.bind]

theorem absorb_lt {s : Nat} (hs : s < UInt64.size) (ds : List Char) :
    (absorb s ds).1 < UInt64.size := by
  induction ds generalizing s with
  | nil => exact hs
  | cons d ds ih =>
    unfold absorb
    by_cases h : 10 * s + (d.toNat - '0'.toNat) < UInt64.size
    · simp only [if_pos h]
      exact ih h
    · simp only [if_neg h]
      exact hs

theorem significand_lt (n : Numeral) : n.significand.1 < UInt64.size :=
  absorb_lt (absorb_lt (by decide) n.whole) n.fraction

/-- The numeral of a whole number. -/
def ofNat (negative : Bool) (n : Nat) : Numeral := ⟨negative, Nat.toDigits 10 n, [], none⟩

theorem scan_toDigits (n : Nat) : scan (Nat.toDigits 10 n) = .ok (ofNat false n, []) := by
  have hminus : scanMinus (Nat.toDigits 10 n) = (false, Nat.toDigits 10 n) := by
    have hall : ∀ c ∈ Nat.toDigits 10 n, c.isDigit = true := fun c hc =>
      Nat.isDigit_of_mem_toDigits (by decide) (by decide) hc
    cases h : Nat.toDigits 10 n with
    | nil => rfl
    | cons c cs =>
      have hc : c.isDigit = true := hall c (h ▸ List.mem_cons_self)
      have hne : c ≠ '-' := by
        intro he
        subst he
        cases hc
      simp [scanMinus, hne]
  simp [scan, hminus, scanWhole_toDigits, scanFraction, scanExponent, ofNat, bind, Except.bind,
    pure, Except.pure]

theorem scan_minus_toDigits (n : Nat) :
    scan ('-' :: Nat.toDigits 10 n) = .ok (ofNat true n, []) := by
  simp [scan, scanMinus, scanWhole_toDigits, scanFraction, scanExponent, ofNat, bind, Except.bind,
    pure, Except.pure]

theorem value_ofNat {n : Nat} (hn : n < UInt64.size) (negative : Bool) :
    (ofNat negative n).value = if !negative then some (.integer n)
      else if 0 < n ∧ n ≤ UInt64.size / 2 then some (.integer (-n))
      else some ((ofNat negative n).signed n.toUInt64.toFloat) := by
  have habsorb : absorb 0 (Nat.toDigits 10 n) = (n, 0) := by
    have h := @absorb_eq (Nat.toDigits 10 n) 0
    rw [Nat.ofDigitChars_ten_toDigits] at h
    exact h hn
  have hs : (ofNat negative n).significand = (n, 0) := by
    simp [significand, ofNat, habsorb, absorb]
  have hw : (ofNat negative n).isWhole = true := by simp [isWhole, ofNat, habsorb]
  simp only [value, hs, hw, if_true]
  rfl

end Numeral

namespace Number

/-- Whole numbers have 64 bits, signed or unsigned. -/
def InRange : Number → Prop
  | integer i => -2 ^ 63 ≤ i ∧ i < 2 ^ 64
  | real _ => True

theorem inRange_value {n : Numeral} {x : Number} (h : n.value = some x) : x.InRange := by
  have hs := n.significand_lt
  have hsize : UInt64.size = 2 ^ 64 := rfl
  cases x with
  | real _ => trivial
  | integer i =>
    have reals {y : Option Float} : y.map n.signed ≠ some (.integer i) := by
      cases y <;> simp [Numeral.signed]
    simp only [Numeral.value] at h
    split at h
    · split at h
      · have hi : (n.significand.1 : Int) = i := Number.integer.inj (Option.some.inj h)
        constructor <;> omega
      · split at h
        · next hrange =>
          have hi : -(n.significand.1 : Int) = i := Number.integer.inj (Option.some.inj h)
          constructor <;> omega
        · simp [Numeral.signed] at h
    · split at h
      · exact absurd h reals
      · split at h
        · split at h
          · cases h
          · simp [Numeral.signed] at h
        · exact absurd h reals

/-- The text of the number is read as the number. -/
def Readable (n : Number) : Prop :=
  ∃ m, Numeral.scan n.text.toList = .ok (m, []) ∧ m.value = some n

theorem readable_integer {i : Int} (h : (integer i).InRange) : (integer i).Readable := by
  obtain ⟨hlow, hhigh⟩ := h
  cases i with
  | ofNat n =>
    have hn : n < 2 ^ 64 := Int.ofNat_lt.mp hhigh
    refine ⟨.ofNat false n, ?_, Numeral.value_ofNat hn false⟩
    rw [Int.ofNat_eq_natCast, text_ofNat, Nat.toList_repr, Numeral.scan_toDigits]
  | negSucc n =>
    have hn : n + 1 ≤ 2 ^ 63 := by omega
    refine ⟨.ofNat true (n + 1), ?_, ?_⟩
    · have ht : (integer (Int.negSucc n)).text.toList = '-' :: Nat.toDigits 10 (n + 1) := by
        simp [text, Int.repr_eq_if]
      rw [ht, Numeral.scan_minus_toDigits]
    · rw [Numeral.value_ofNat (Nat.lt_of_le_of_lt hn (by decide)), if_neg (by decide),
        if_pos ⟨Nat.succ_pos n, hn⟩, Int.negSucc_eq]
      rfl

end Number

end DeckDoc.Json
