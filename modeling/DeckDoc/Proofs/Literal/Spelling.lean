import DeckDoc.Proofs.Json.Proper
import DeckDoc.Proofs.Json.Real
import DeckDoc.Proofs.Literal
import DeckDoc.Proofs.Text.Lines

namespace DeckDoc

open Json

/-- The two layouts of reals: a point and no `e`, or an `e` that a sign follows. -/
def RealLayout (cs : List Char) : Prop :=
  ('.' ∈ cs ∧ 'e' ∉ cs) ∨
    ∃ front sign ds, cs = front ++ 'e' :: sign :: ds ∧ 'e' ∉ front ∧ (sign = '-' ∨ sign = '+')

theorem RealLayout.append_left {cs front : List Char} (h : RealLayout cs) (hfront : 'e' ∉ front) :
    RealLayout (front ++ cs) := by
  rcases h with ⟨hpoint, hplain⟩ | ⟨before, sign, ds, rfl, hbefore, hsign⟩
  · exact .inl ⟨List.mem_append_right front hpoint, by simp [hfront, hplain]⟩
  · exact .inr ⟨front ++ before, sign, ds, (List.append_assoc ..).symm, by simp [hfront, hbefore],
      hsign⟩

theorem notMem_of_isDigit {ds : List Char} {c : Char} (hds : ∀ d ∈ ds, d.isDigit = true)
    (hc : c.isDigit = false) : c ∉ ds := by
  intro h
  rw [hds c h] at hc
  cases hc

namespace Decimal

variable (d : Decimal)

theorem notMem_digits : 'e' ∉ d.digits :=
  notMem_of_isDigit (fun _ => isDigit_of_mem_digits) rfl

theorem realLayout_positional : RealLayout d.positional := by
  have hdigits := d.notMem_digits
  unfold positional
  split
  · have hzeros : 'e' ∉ List.replicate d.exponent.toNat '0' :=
      notMem_of_isDigit (fun _ => isDigit_of_mem_zeros) rfl
    have hpoint : RealLayout ['.', '0'] := .inl ⟨by decide, by decide⟩
    exact hpoint.append_left (by simp [hdigits, hzeros])
  · split
    · have hback : 'e' ∉ d.digits.drop d.point.toNat := fun h => hdigits (List.mem_of_mem_drop h)
      have hpoint : RealLayout ('.' :: d.digits.drop d.point.toNat) :=
        .inl ⟨List.mem_cons_self, by simp [hback]⟩
      exact hpoint.append_left fun h => hdigits (List.mem_of_mem_take h)
    · exact .inl ⟨by simp, by simp [hdigits]⟩

theorem realLayout_scientific : RealLayout d.scientific := by
  have hdigits := d.notMem_digits
  refine .inr ⟨_, _, _, rfl, ?_, by split <;> simp⟩
  have hfirst : 'e' ∉ d.digits.take 1 := fun h => hdigits (List.mem_of_mem_take h)
  have htail : 'e' ∉ d.digits.tail := fun h => hdigits (List.mem_of_mem_tail h)
  rw [List.mem_append, not_or]
  refine ⟨hfirst, ?_⟩
  split
  · exact List.not_mem_nil
  · simpa using htail

end Decimal

theorem realLayout_writtenFloat (x : Float) : RealLayout (writtenFloat x).toList := by
  rw [writtenFloat, String.toList_ofList]
  refine RealLayout.append_left ?_ (by split <;> decide)
  split
  · exact .inl ⟨by decide, by decide⟩
  · unfold Decimal.written
    split
    · exact Decimal.realLayout_positional _
    · exact Decimal.realLayout_scientific _

namespace Json.Numeral

variable {n : Numeral}

/-- A numeral with a fraction and no exponent, or with an exponent after a small `e` and a sign. -/
def HasRealLayout (n : Numeral) : Prop :=
  (n.exponent = none ∧ n.fraction ≠ []) ∨ ∃ s ds, n.exponent = some ⟨'e', some s, ds⟩

/-- The spelling up to the exponent. -/
def mantissa (n : Numeral) : List Char :=
  (if n.negative then ['-'] else []) ++ n.whole ++
    (if n.fraction.isEmpty then [] else '.' :: n.fraction)

theorem notMem_mantissa (hn : n.IsProper) {c : Char} (hc : c.isDigit = false) (hminus : c ≠ '-')
    (hpoint : c = '.' → n.fraction = []) : c ∉ n.mantissa := by
  have hwhole : c ∉ n.whole := notMem_of_isDigit hn.whole hc
  have hfraction : c ∉ n.fraction := notMem_of_isDigit hn.fraction hc
  have hsign : c ∉ if n.negative then ['-'] else [] := by
    split <;> simp [hminus]
  simp only [mantissa, List.mem_append, hwhole, hsign, false_or]
  split
  · exact List.not_mem_nil
  · next hne =>
    intro h
    rcases List.mem_cons.mp h with rfl | h
    · exact hne (List.isEmpty_iff.mpr (hpoint rfl))
    · exact hfraction h

theorem spelling_eq_mantissa (n : Numeral) :
    n.spelling = n.mantissa ++ (n.exponent.map Exponent.spelling).getD [] := rfl

theorem hasRealLayout_of_spelling (hn : n.IsProper) (h : RealLayout n.spelling)
    (hmark : 'E' ∉ n.spelling) : n.HasRealLayout := by
  have hplain : 'e' ∉ n.mantissa := notMem_mantissa hn rfl (by decide) nofun
  rw [spelling_eq_mantissa] at h hmark
  cases hx : n.exponent with
  | none =>
    rw [hx, Option.map_none, Option.getD_none, List.append_nil] at h
    refine .inl ⟨hx, fun hfraction => ?_⟩
    rcases h with ⟨hpoint, -⟩ | ⟨front, sign, ds, hcs, -⟩
    · exact notMem_mantissa hn rfl (by decide) (fun _ => hfraction) hpoint
    · exact hplain (hcs ▸ by simp)
  | some e =>
    obtain ⟨mark, sign, digits⟩ := e
    have hdigits : ∀ c ∈ digits, c.isDigit = true := hn.digits _ hx
    have hspelling : (n.exponent.map Exponent.spelling).getD [] =
        mark :: (sign.toList ++ digits) := by
      rw [hx]
      rfl
    rw [hspelling] at h hmark
    obtain rfl : mark = 'e' := by
      refine (hn.mark _ hx).resolve_right fun hE => hmark ?_
      simp [show mark = 'E' from hE]
    rcases h with ⟨-, h⟩ | ⟨front, s, ds, hcs, hfront, hs⟩
    · simp at h
    · obtain ⟨-, htail⟩ := Text.append_mark_inj hplain hfront hcs
      cases sign with
      | some s => exact .inr ⟨s, digits, hx⟩
      | none =>
        -- without a sign the first digit would be one
        have hdigit : s.isDigit = true := hdigits s (by
          rw [show digits = s :: ds from htail]
          exact List.mem_cons_self)
        rcases hs with rfl | rfl <;> cases hdigit

/-- Exact numerals are spelled as the whole numbers that they stand for. -/
theorem text_of_isExact (hn : n.IsProper) (h : n.IsExact) :
    (Number.integer (if n.negative then -n.magnitude else n.magnitude)).text.toList =
      n.spelling := by
  obtain ⟨hfraction, hexponent, hrange⟩ := h
  have hdigits : Nat.toDigits 10 n.magnitude = n.whole :=
    toDigits_ofDigitChars hn.whole hn.whole_ne_nil hn.leading
  have hspelling : n.spelling = (if n.negative then ['-'] else []) ++ n.whole := by
    simp [spelling, hfraction, hexponent]
  rw [hspelling, ← hdigits]
  cases hneg : n.negative with
  | false => simp [Number.text, Int.repr_eq_if]
  | true =>
    rw [hneg, if_pos rfl] at hrange
    have hne : n.magnitude ≠ 0 := Nat.pos_iff_ne_zero.mp hrange.1
    simp [Number.text, Int.repr_eq_if, hne]

end Json.Numeral

/-- The text of a proper numeral is one number. -/
theorem Json.Source.ofText_spelling {n : Numeral} (hn : n.IsProper) :
    ∃ v start stop, (∀ x, v = .ok x ↔ n.value = some x) ∧
      Source.ofText (String.ofList n.spelling) = ⟨.number v start stop, none⟩ := by
  have hscan : Numeral.scan n.spelling = .ok (n, []) := by
    simpa using Numeral.scan_spelling hn Numeral.ends_nil
  obtain ⟨l, v, hl, hv, hall⟩ := Lexeme.scanAll_number hscan 0
  have haccept : Progress.accept l (.atValue []) =
      some (.inl (.afterValue (.number v l.start l.stop) [])) := by
    simp only [Progress.accept, Progress.beginValue, hl]
  refine ⟨v, l.start, l.stop, hv, ?_⟩
  rw [Source.ofText, Lexeme.ofText, String.toList_ofList, hall, Source.build, haccept]
  rfl

namespace Literal

variable {n : Numeral} {l : Literal}

theorem ofText_spelling_eq_ok_iff (hn : n.IsProper) :
    ofText (String.ofList n.spelling) = .ok l ↔ ∃ x, n.value = some x ∧ l = .number x := by
  obtain ⟨v, start, stop, hv, hsource⟩ := Source.ofText_spelling hn
  have hread : Reader.value depthLimit (.number v start stop) = v.map Value.number := rfl
  rw [ofText_eq_map, Except.map_eq_ok_iff]
  simp only [Reader.ofText_eq_ok_iff, hsource, hread, Except.map_eq_ok_iff, hv, and_true]
  constructor
  · rintro ⟨_, ⟨x, hx, rfl⟩, rfl⟩
    exact ⟨x, hx, rfl⟩
  · rintro ⟨x, hx, rfl⟩
    exact ⟨_, ⟨x, hx, rfl⟩, rfl⟩

/-- A number shows as it is spelled if it is whole and has 64 bits, but for the negative zero. Any
other is kept as a double, and shows as it is spelled only where that is how the double is
written: with a point, or with a small `e` and a sign. -/
theorem display_eq_spelling_iff (hn : n.IsProper)
    (h : ofText (String.ofList n.spelling) = .ok l) :
    l.display = String.ofList n.spelling ↔ n.IsExact ∨
      (n.HasRealLayout ∧ ∃ x, n.value = some (.real x) ∧
        writtenFloat x = String.ofList n.spelling) := by
  obtain ⟨v, hv, rfl⟩ := (ofText_spelling_eq_ok_iff hn).mp h
  cases v with
  | integer i =>
    obtain ⟨hexact, rfl⟩ := Numeral.value_eq_integer_iff.mp hv
    refine iff_of_true ?_ (.inl hexact)
    rw [← Numeral.text_of_isExact hn hexact, String.ofList_toList]
    rfl
  | real x =>
    change writtenFloat x = _ ↔ _
    constructor
    · intro hx
      refine .inr ⟨Numeral.hasRealLayout_of_spelling hn ?_ ?_, x, hv, hx⟩
      · simpa [hx] using realLayout_writtenFloat x
      · intro hE
        have hshown : 'E' ∈ (writtenFloat x).toList := by simpa [hx] using hE
        have hmark : IsRealMark 'E' := isRealMark_of_mem_writtenFloat hshown
        unfold IsRealMark at hmark
        revert hmark
        decide
    · rintro (hexact | ⟨-, y, hy, hwritten⟩)
      · rw [Numeral.value_eq_integer_iff.mpr ⟨hexact, rfl⟩] at hv
        cases hv
      · rw [hv] at hy
        cases hy
        exact hwritten

theorem display_eq_spelling_of_fraction :
    let n : Numeral := ⟨true, ['2'], ['5'], none⟩
    n.IsProper ∧ ∃ l, ofText (String.ofList n.spelling) = .ok l ∧
      (l.display = String.ofList n.spelling ↔ n.IsExact ∨
        (n.HasRealLayout ∧ ∃ x, n.value = some (.real x) ∧
          writtenFloat x = String.ofList n.spelling)) := by
  intro n
  have hscan : Numeral.scan n.spelling = .ok (n, []) := rfl
  have hn : n.IsProper := Numeral.isProper_of_scan hscan
  have hvalue : n.value.isSome = true := by decide +kernel
  obtain ⟨x, hx⟩ := Option.isSome_iff_exists.mp hvalue
  have h := (ofText_spelling_eq_ok_iff hn).mpr ⟨x, hx, rfl⟩
  exact ⟨hn, _, h, display_eq_spelling_iff hn h⟩

/-- A power of ten is shown written out, and a negative zero with a point. -/
theorem display_ne_spelling : ∃ hundred zero : Literal, ofText "1e2" = .ok hundred ∧
    ofText "-0" = .ok zero ∧ hundred.display = "100.0" ∧ zero.display = "-0.0" := by
  have read {n : Numeral} {cs : List Char} (text : String) (hn : Numeral.scan cs = .ok (n, []))
      (h : n.value.map Number.text = some text) :
      ∃ l, ofText (String.ofList cs) = .ok l ∧ l.display = text := by
    obtain ⟨x, hx, rfl⟩ := Option.map_eq_some_iff.mp h
    have hcs : cs = n.spelling := by simpa using Numeral.scan_append hn
    rw [hcs]
    exact ⟨_, (ofText_spelling_eq_ok_iff (Numeral.isProper_of_scan hn)).mpr ⟨x, hx, rfl⟩, rfl⟩
  have hhundred : Numeral.scan ['1', 'e', '2'] =
      .ok (⟨false, ['1'], [], some ⟨'e', none, ['2']⟩⟩, []) := rfl
  have hzero : Numeral.scan ['-', '0'] = .ok (⟨true, ['0'], [], none⟩, []) := rfl
  obtain ⟨hundred, hread, hshown⟩ := read "100.0" hhundred (by decide +kernel)
  obtain ⟨zero, hread', hshown'⟩ := read "-0.0" hzero (by decide +kernel)
  exact ⟨hundred, zero, hread, hread', hshown, hshown'⟩

end Literal

end DeckDoc
