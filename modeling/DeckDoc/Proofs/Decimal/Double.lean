import DeckDoc.Decimal.Written
import DeckDoc.Proofs.Except

namespace DeckDoc

open Float.Model UnpackedFloat

/-- A double that is equal to another one is the same, unless both are zeros. -/
theorem eq_or_zeros_of_compare {u v : UnpackedFloat} (h : u.compare v = some .eq) :
    (u = v ∧ u ≠ .notANumber) ∨ (∃ s, u = .zero s) ∧ ∃ t, v = .zero t := by
  cases u with
  | notANumber => cases v <;> cases h
  | infinity s =>
    cases v with
    | infinity t => cases s <;> cases t <;> simp_all [UnpackedFloat.compare]
    | _ => cases s <;> simp_all [UnpackedFloat.compare]
  | zero s =>
    cases v with
    | zero t => exact .inr ⟨⟨s, rfl⟩, t, rfl⟩
    | infinity t => cases t <;> simp_all [UnpackedFloat.compare]
    | finite t _ _ _ => cases t <;> simp_all [UnpackedFloat.compare]
    | notANumber => cases h
  | finite s m e _ =>
    cases v with
    | finite t n f _ =>
      left
      cases s <;> cases t <;>
        simp_all [UnpackedFloat.compare, Ordering.then_eq_eq, Ordering.swap_eq_eq]
    | infinity t => cases t <;> cases s <;> simp_all [UnpackedFloat.compare]
    | zero t => cases s <;> simp_all [UnpackedFloat.compare]
    | notANumber => cases s <;> cases h

variable (b : BitVec Format.binary64.numBits)

theorem toNat_unpackMantissa : (unpackMantissa b).toNat = b.toNat % 2 ^ 52 := by
  simp [unpackMantissa, BitVec.extractLsb]

theorem toNat_unpackExponent : (unpackExponent b).toNat = b.toNat / 2 ^ 52 % 2 ^ 11 := by
  simp [unpackExponent, BitVec.extractLsb, Nat.shiftRight_eq_div_pow]

theorem toNat_unpackSign : (unpackSign b).toNat = b.toNat / 2 ^ 63 := by
  have hlt : b.toNat < 2 ^ 64 := b.isLt
  simp [unpackSign, BitVec.extractLsb, Nat.shiftRight_eq_div_pow]
  omega

variable {b} {c : BitVec Format.binary64.numBits} {s : Sign}

theorem eq_of_components (hsign : unpackSign b = unpackSign c)
    (hexponent : unpackExponent b = unpackExponent c)
    (hmantissa : unpackMantissa b = unpackMantissa c) : b = c := by
  apply BitVec.eq_of_toNat_eq
  have hs := congrArg BitVec.toNat hsign
  have he := congrArg BitVec.toNat hexponent
  have hm := congrArg BitVec.toNat hmantissa
  rw [toNat_unpackSign, toNat_unpackSign] at hs
  rw [toNat_unpackExponent, toNat_unpackExponent] at he
  rw [toNat_unpackMantissa, toNat_unpackMantissa] at hm
  omega

theorem components_of_infinity (h : UnpackedFloat.unpack .binary64 b = .infinity s) :
    s = Sign.ofBitVec (unpackSign b) ∧ unpackExponent b = -1#_ ∧ unpackMantissa b = 0#_ := by
  unfold UnpackedFloat.unpack at h
  dsimp only at h
  split at h
  · split at h
    · next he hm => exact ⟨(UnpackedFloat.infinity.inj h).symm, he, hm⟩
    · cases h
  · split at h
    · split at h <;> cases h
    · cases h

theorem components_of_zero (h : UnpackedFloat.unpack .binary64 b = .zero s) :
    s = Sign.ofBitVec (unpackSign b) ∧ unpackExponent b = 0#_ ∧ unpackMantissa b = 0#_ := by
  unfold UnpackedFloat.unpack at h
  dsimp only at h
  split at h
  · split at h <;> cases h
  · split at h
    · split at h
      · next he hm => exact ⟨(UnpackedFloat.zero.inj h).symm, he, hm⟩
      · cases h
    · cases h

/-- A mantissa without the implicit bit comes with the exponent of the smallest doubles. -/
theorem components_of_finite {m : Nat} {e : Int} {hm : 0 < m}
    (h : UnpackedFloat.unpack .binary64 b = .finite s m e hm) : s = Sign.ofBitVec (unpackSign b) ∧
      (unpackExponent b).toNat = (if m < 2 ^ 52 then 0 else (e + 1075).toNat) ∧
      (unpackMantissa b).toNat = m % 2 ^ 52 := by
  have hlt : (unpackMantissa b).toNat < 2 ^ 52 := (unpackMantissa b).isLt
  unfold UnpackedFloat.unpack at h
  dsimp only at h
  split at h
  · split at h <;> cases h
  · split at h
    · split at h
      · cases h
      · next he _ =>
        obtain ⟨rfl, rfl, rfl⟩ := UnpackedFloat.finite.inj h
        rw [if_pos hlt, he, Nat.mod_eq_of_lt hlt]
        exact ⟨rfl, rfl, rfl⟩
    · obtain ⟨rfl, rfl, rfl⟩ := UnpackedFloat.finite.inj h
      have happend : (1#1 ++ unpackMantissa b).toNat = 2 ^ 52 + (unpackMantissa b).toNat := by
        rw [BitVec.toNat_append, ← Nat.shiftLeft_add_eq_or_of_lt hlt]
        rfl
      have hbias : (Format.binary64.exponentBias : Int) + 52 = 1075 := by decide
      rw [happend, if_neg (by omega)]
      refine ⟨rfl, ?_, by omega⟩
      rw [Nat.cast_ofNat, hbias]
      omega

theorem ofBitVec_injective {v w : BitVec 1} (h : Sign.ofBitVec v = Sign.ofBitVec w) : v = w := by
  have hback : ∀ v : BitVec 1, (Sign.ofBitVec v).toBitVec = v := by decide
  rw [← hback v, h, hback w]

theorem eq_of_unpack_eq (h : UnpackedFloat.unpack .binary64 b = UnpackedFloat.unpack .binary64 c)
    (hb : UnpackedFloat.unpack .binary64 b ≠ .notANumber) : b = c := by
  cases hu : UnpackedFloat.unpack .binary64 b with
  | notANumber => exact absurd hu hb
  | infinity s =>
    obtain ⟨hs, he, hm⟩ := components_of_infinity hu
    obtain ⟨hs', he', hm'⟩ := components_of_infinity (h.symm.trans hu)
    exact eq_of_components (ofBitVec_injective (hs.symm.trans hs')) (he.trans he'.symm)
      (hm.trans hm'.symm)
  | zero s =>
    obtain ⟨hs, he, hm⟩ := components_of_zero hu
    obtain ⟨hs', he', hm'⟩ := components_of_zero (h.symm.trans hu)
    exact eq_of_components (ofBitVec_injective (hs.symm.trans hs')) (he.trans he'.symm)
      (hm.trans hm'.symm)
  | finite s m e _ =>
    obtain ⟨hs, he, hm⟩ := components_of_finite hu
    obtain ⟨hs', he', hm'⟩ := components_of_finite (h.symm.trans hu)
    exact eq_of_components (ofBitVec_injective (hs.symm.trans hs'))
      (BitVec.eq_of_toNat_eq (he.trans he'.symm)) (BitVec.eq_of_toNat_eq (hm.trans hm'.symm))

theorem eq_of_toBits_eq {x y : Float} (h : x.toBits = y.toBits) : x = y := by
  obtain ⟨a, ha⟩ := x
  obtain ⟨b, hb⟩ := y
  obtain rfl : a = b := h
  rfl

/-- There are two zeros, which differ in their first bit. -/
theorem toBits_of_unpack_eq_zero {x : Float} (h : x.toModel.unpack = .zero s) :
    x.toBits = 0 ∨ x.toBits = 0x8000000000000000 := by
  obtain ⟨-, he, hm⟩ := @components_of_zero x.toBits.toBitVec s h
  have hexponent := toNat_unpackExponent x.toBits.toBitVec
  have hmantissa := toNat_unpackMantissa x.toBits.toBitVec
  have hlt : x.toBits.toNat < 2 ^ 64 := x.toBits.toBitVec.isLt
  rw [he] at hexponent
  rw [hm] at hmantissa
  change 0 = x.toBits.toNat / 2 ^ 52 % 2 ^ 11 at hexponent
  change 0 = x.toBits.toNat % 2 ^ 52 at hmantissa
  have hbits : x.toBits.toNat = 0 ∨ x.toBits.toNat = 2 ^ 63 := by omega
  rcases hbits with hbits | hbits
  · exact .inl (UInt64.toNat_inj.mp hbits)
  · exact .inr (UInt64.toNat_inj.mp hbits)

/-- Whether a double is the zero that is written with a sign. -/
def isNegativeZero (x : Float) : Bool := x.toBits == 0x8000000000000000

/-- Equal doubles are the same unless they are two different zeros. -/
theorem eq_of_beq_of_isNegativeZero {x y : Float} (h : (x == y) = true)
    (hzero : isNegativeZero x = isNegativeZero y) : x = y := by
  have hcompare : x.toModel.unpack.compare y.toModel.unpack = some .eq := beq_iff_eq.mp h
  rcases eq_or_zeros_of_compare hcompare with ⟨hunpack, hnan⟩ | ⟨⟨s, hx⟩, t, hy⟩
  · have hbits : x.toBits.toBitVec = y.toBits.toBitVec := eq_of_unpack_eq hunpack hnan
    exact eq_of_toBits_eq (UInt64.toBitVec_inj.mp hbits)
  · apply eq_of_toBits_eq
    unfold isNegativeZero at hzero
    rcases toBits_of_unpack_eq_zero hx with hx | hx <;>
      rcases toBits_of_unpack_eq_zero hy with hy | hy <;> rw [hx, hy] at hzero ⊢ <;>
      exact absurd hzero (by decide)

end DeckDoc
