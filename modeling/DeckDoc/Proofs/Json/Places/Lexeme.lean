import DeckDoc.Proofs.Json.Grammar.Lexeme

namespace DeckDoc.Json

/-- A fault of a text of some bytes is reported at most one byte after its end, where a further byte
was due. Only where a quoted text breaks off may the place count more bytes that are missing. -/
def Fault.Within (size : Nat) (f : Fault) : Prop := f.place ≤ size + 1 ∨ f.cause = .endOfString

theorem Fault.within_of_le {size place : Nat} {cause : Cause} (h : place ≤ size + 1) :
    Fault.Within size ⟨cause, place⟩ := .inl h

theorem Fault.within_at {size place : Nat} {cause : Cause} (h : place ≤ size) :
    Fault.Within size ⟨cause, place⟩ := within_of_le (Nat.le_succ_of_le h)

theorem Fault.within_after {size place : Nat} {f : Fault} (h : place ≤ size)
    (hf : f.place = place + 1) : f.Within size := by
  left
  omega

namespace Escaped

/-- The bytes that an ending has at least. -/
def leastSize : Ending → Nat
  | .closed _ => 1
  | .endOfText => 0
  | .control => 1
  | .badLetter => 2
  | .badDigits => 6

theorem leastSize_unitEnding_le (cs : List Char) : leastSize (unitEnding cs) ≤ 2 + size cs := by
  unfold unitEnding
  split_ifs with h
  · exact Nat.zero_le _
  · simp only [leastSize]
    omega

/-- The bytes of pieces and of their ending. -/
def extent (e : Escaped) : Nat := Piece.sizes e.pieces + leastSize e.ending

theorem extent_cons (p : Piece) (e : Escaped) : (cons p e).extent = p.size + e.extent :=
  Nat.add_assoc _ _ _

theorem extent_nil (ending : Ending) : extent ⟨[], ending⟩ = leastSize ending := Nat.zero_add _

theorem extent_scan_le (cs : List Char) : (scan cs).extent ≤ size cs := by
  have hpos (c : Char) : 0 < c.utf8Size := Char.utf8Size_pos c
  have hslash : '\\'.utf8Size = 1 := rfl
  have hu : 'u'.utf8Size = 1 := rfl
  fun_induction scan cs with
  | case1 => exact Nat.le_refl 0
  | case2 rest =>
    rw [extent_nil, size_cons]
    exact Nat.le_add_right 1 _
  | case3 a b c d rest code hcode ih =>
    have ha := hpos a
    have hb := hpos b
    have hc := hpos c
    have hd := hpos d
    simp only [extent_cons, Piece.size, size_cons]
    omega
  | case4 a b c d rest hcode =>
    have h := leastSize_unitEnding_le (a :: b :: c :: d :: rest)
    rw [extent_nil, size_cons, size_cons]
    omega
  | case5 rest =>
    have h := leastSize_unitEnding_le rest
    rw [extent_nil, size_cons, size_cons]
    omega
  | case6 c rest _ _ e he ih =>
    have hc := hpos c
    simp only [extent_cons, Piece.size, size_cons]
    omega
  | case7 c rest =>
    have hc := hpos c
    simp only [extent_nil, leastSize, size_cons]
    omega
  | case8 => exact Nat.zero_le _
  | case9 c rest =>
    have hc := hpos c
    simp only [extent_nil, leastSize, size_cons]
    omega
  | case10 c rest _ _ _ _ _ _ ih =>
    simp only [extent_cons, Piece.size, size_cons]
    omega

variable {size place : Nat} {ending : Ending}

theorem within_of_fault? (h : place + leastSize ending ≤ size) {f : Fault}
    (hf : fault? place ending = some f) : f.Within size := by
  cases ending with
  | closed => cases hf
  | endOfText =>
    cases hf
    exact .inr rfl
  | _ =>
    cases hf
    exact Fault.within_at h

theorem within_pairFault (h : place + leastSize ending ≤ size) :
    (pairFault place ending).Within size := by
  cases ending with
  | endOfText => exact .inr rfl
  | _ => exact Fault.within_at h

theorem sizes_cons (p : Piece) (ps : List Piece) :
    Piece.sizes (p :: ps) = p.size + Piece.sizes ps := rfl

theorem failsOnly_decode {ps : List Piece} (h : place + Piece.sizes ps + leastSize ending ≤ size) :
    FailsOnly (Fault.Within size) (decode ending place ps) := by
  fun_induction decode ending place ps with
  | case1 => exact .ok
  | case2 place f hf =>
    exact .error (within_of_fault? h hf)
  | case3 place c rest ih =>
    simp only [sizes_cons, Piece.size] at h
    exact (ih (by omega)).map
  | case4 place c rest ih =>
    simp only [sizes_cons, Piece.size] at h
    exact (ih (by omega)).map
  | case5 place u rest =>
    simp only [sizes_cons, Piece.size] at h
    exact .error (Fault.within_of_le (by omega))
  | case6 place u _ _ v rest _ ih =>
    simp only [sizes_cons, Piece.size] at h
    exact (ih (by omega)).map
  | case7 place u _ _ v rest =>
    simp only [sizes_cons, Piece.size] at h
    exact .error (Fault.within_of_le (by omega))
  | case8 place u _ _ c rest =>
    have hc : 0 < c.utf8Size := Char.utf8Size_pos c
    simp only [sizes_cons, Piece.size] at h
    exact .error (Fault.within_of_le (by omega))
  | case9 place u _ _ c rest =>
    simp only [sizes_cons, Piece.size] at h
    exact .error (Fault.within_of_le (by omega))
  | case10 place u =>
    exact .error (within_pairFault h)
  | case11 place u rest _ _ ih =>
    simp only [sizes_cons, Piece.size] at h
    exact (ih (by omega)).map

theorem failsOnly_content {e : Escaped} (h : place + e.extent ≤ size) :
    FailsOnly (Fault.Within size) (e.content place) := by
  refine (failsOnly_decode ?_).map
  rwa [Nat.add_assoc]

theorem within_of_looseFault {e : Escaped} (h : place + e.extent ≤ size) {f : Fault}
    (hf : e.looseFault place = some f) : f.Within size := by
  have hstop : e.stop place + leastSize e.ending ≤ size := by rwa [stop, Nat.add_assoc]
  unfold looseFault at hf
  split at hf
  · cases hf
    exact Fault.within_of_le (by omega)
  · exact within_of_fault? hstop hf

/-- Without a fault there is a closing quote. -/
theorem stop_succ_of_looseFault {e : Escaped} (h : e.looseFault place = none) :
    e.stop place + 1 = place + e.extent := by
  obtain ⟨pieces, ending⟩ := e
  cases ending with
  | closed rest => exact Nat.add_assoc place (Piece.sizes pieces) 1
  | _ => cases h

end Escaped

/-- The faults in a lexeme are reported within a text. -/
def Token.Within (size : Nat) : Token → Prop
  | .number value => FailsOnly (Fault.Within size) value
  | .text content => FailsOnly (Fault.Within size) content
  | .broken strict loose => strict.Within size ∧ loose.Within size
  | _ => True

namespace Lexeme

open Escaped (size_cons size_append)

/-- A lexeme starts inside a text and, if anything can be read after it, ends there. -/
structure Within (size : Nat) (l : Lexeme) : Prop where
  start : l.start ≤ size
  stop : isLast l.token = false → l.stop ≤ size
  token : l.token.Within size

variable {size place : Nat} {c : Char} {rest : List Char}

theorem length_le_size (cs : List Char) : cs.length ≤ Escaped.size cs := by
  induction cs with
  | nil => exact Nat.le_refl 0
  | cons c cs ih =>
    have hc : 0 < c.utf8Size := Char.utf8Size_pos c
    rw [List.length_cons, size_cons]
    omega

theorem within_of_wordFault {word cs : List Char} (h : place + Escaped.size cs ≤ size) {f : Fault}
    (hf : wordFault place word cs = some f) : f.Within size := by
  induction word generalizing place cs with
  | nil => cases hf
  | cons w word ih =>
    cases cs with
    | nil =>
      cases hf
      exact Fault.within_at h
    | cons c cs =>
      have hc : 0 < c.utf8Size := Char.utf8Size_pos c
      rw [size_cons] at h
      unfold wordFault at hf
      split_ifs at hf
      · exact ih (by omega) hf
      · cases hf
        exact Fault.within_of_le (by omega)

theorem within_ofWord {word : List Char} {token : Token} (ht : token.Within size)
    (h : place + Escaped.size (c :: rest) ≤ size) :
    (ofWord place word token c rest).Within size := by
  have hlength := length_le_size (c :: rest)
  unfold ofWord
  split
  · next hword =>
    obtain ⟨_, hrest⟩ := append_of_wordFault hword
    have hword : (c :: rest).length = word.length + _ := hrest ▸ List.length_append
    exact ⟨by dsimp only; omega, fun _ => by dsimp only; omega, ht⟩
  · next f hf =>
    have hwithin := within_of_wordFault h hf
    refine ⟨by dsimp only; omega, ?_, hwithin, hwithin⟩
    intro hlast
    cases hlast

theorem within_ofNumber (h : place + Escaped.size (c :: rest) ≤ size) :
    (ofNumber place c rest).Within size := by
  have hlength := length_le_size (c :: rest)
  unfold ofNumber
  cases hn : Numeral.scan (c :: rest) with
  | error left =>
    rw [List.length_cons] at hlength
    have hplace : place + (rest.length + 1 - left.length) + 1 ≤ size + 1 := by omega
    refine ⟨by dsimp only; omega, ?_, Fault.within_of_le hplace, Fault.within_of_le hplace⟩
    intro hlast
    cases hlast
  | ok r =>
    have hspelling := congrArg List.length (Numeral.scan_append hn)
    rw [List.length_append] at hspelling
    refine ⟨by dsimp only; omega, fun _ => by dsimp only; omega, ?_⟩
    dsimp only
    cases r.1.value with
    | some v => exact .ok
    | none => exact .error (Fault.within_of_le (by omega))

theorem within_ofQuoted (h : place + Escaped.size (c :: rest) ≤ size) :
    (ofQuoted place c rest).Within size := by
  have hc : 0 < c.utf8Size := Char.utf8Size_pos c
  have hextent := Escaped.extent_scan_le rest
  rw [size_cons] at h
  have hplace : place + 1 + (Escaped.scan rest).extent ≤ size := by omega
  have hcontent := Escaped.failsOnly_content hplace
  simp only [ofQuoted]
  split
  · next hloose =>
    have hstop := Escaped.stop_succ_of_looseFault hloose
    exact ⟨by dsimp only; omega, fun _ => by dsimp only; omega, hcontent⟩
  · next loose hloose =>
    have hwithin := Escaped.within_of_looseFault hplace hloose
    refine ⟨by dsimp only; omega, ?_, ?_, hwithin⟩
    · intro hlast
      cases hlast
    · split
      · next f hf => exact hcontent f hf
      · exact hwithin

theorem within_scan (h : place + Escaped.size (c :: rest) ≤ size) :
    (scan place c rest).Within size := by
  have hc : 0 < c.utf8Size := Char.utf8Size_pos c
  have hsize := h
  rw [size_cons] at hsize
  unfold scan
  split
  case h_7 | h_8 | h_9 => exact within_ofWord trivial h
  case h_10 => exact within_ofQuoted h
  case h_11 =>
    split_ifs
    · exact within_ofNumber h
    · exact ⟨by dsimp only; omega, fun _ => by dsimp only; omega, trivial⟩
  all_goals exact ⟨by dsimp only; omega, fun _ => by dsimp only; omega, trivial⟩

theorem within_of_mem_scanAll {resume : Nat} {cs : List Char}
    (h : place + Escaped.size cs ≤ size) {l : Lexeme} (hl : l ∈ scanAll place resume cs) :
    l.Within size := by
  induction cs generalizing place resume with
  | nil => cases hl
  | cons c cs ih =>
    have hrest : place + c.utf8Size + Escaped.size cs ≤ size := by
      rwa [Nat.add_assoc, ← size_cons]
    have hscan := within_scan h
    unfold scanAll at hl
    split at hl
    · exact ih hrest hl
    · simp only at hl
      split at hl
      · obtain rfl := List.mem_singleton.mp hl
        exact hscan
      · rcases List.mem_cons.mp hl with rfl | hl
        · exact hscan
        · exact ih hrest hl

end Lexeme

end DeckDoc.Json
