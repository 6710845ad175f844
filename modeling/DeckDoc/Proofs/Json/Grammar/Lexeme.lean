import DeckDoc.Proofs.Json.Grammar
import DeckDoc.Proofs.Json.Scan

namespace DeckDoc.Json

open Grammar

namespace Escaped

/-! Quoted texts are split into the pieces of the grammar. -/

theorem utf8Size_of_le {c d : Char} (hd : d.val ≤ 127) (h : c ≤ d) : c.utf8Size = 1 := by
  have hle : c.val ≤ 127 := UInt32.le_trans h hd
  simp [Char.utf8Size, hle]

theorem utf8Size_of_hexDigit {c : Char} {n : Nat} (h : hexDigit c = some n) : c.utf8Size = 1 := by
  unfold hexDigit at h
  split_ifs at h with hdigit hlow hup
  · exact Numeral.utf8Size_of_isDigit hdigit
  · exact utf8Size_of_le (by decide) hlow.2
  · exact utf8Size_of_le (by decide) hup.2

theorem size_of_hexUnit {a b c d : Char} {u : Nat} (h : hexUnit a b c d = some u) :
    size [a, b, c, d] = 4 := by
  simp only [hexUnit, Option.bind_eq_bind, Option.bind_eq_some_iff] at h
  obtain ⟨_, ha, _, hb, _, hc, _, hd, -⟩ := h
  simp [utf8Size_of_hexDigit ha, utf8Size_of_hexDigit hb, utf8Size_of_hexDigit hc,
    utf8Size_of_hexDigit hd]

theorem utf8Size_of_letter {l c : Char} (h : letter l = some c) : l.utf8Size = 1 ∧ l ≠ 'u' := by
  unfold letter at h
  split_ifs at h with hself hb hf hn hr ht
  · rcases hself with rfl | rfl | rfl <;> exact ⟨rfl, by decide⟩
  all_goals subst_vars; exact ⟨rfl, by decide⟩

theorem scan_piece {p : Piece} {w : List Char} (h : w ∈ piece p) (rest : List Char) :
    scan (w ++ rest) = cons p (scan rest) ∧ size w = p.size := by
  cases p with
  | plain c =>
    obtain ⟨hq, hb, hc, rfl⟩ := h
    exact ⟨scan_plain hq hb hc rest, rfl⟩
  | escaped c =>
    obtain ⟨l, hl, rfl⟩ := h
    obtain ⟨hsize, hu⟩ := utf8Size_of_letter hl
    refine ⟨?_, ?_⟩
    · rw [List.cons_append, List.singleton_append, scan, hl] <;> simp [hu]
    · rw [size_cons, size_cons, hsize]
      rfl
  | unit u =>
    obtain ⟨a, b, c, d, hu, rfl⟩ := h
    refine ⟨?_, ?_⟩
    · simp only [List.cons_append, List.nil_append]
      rw [scan, hu]
    · rw [size_cons, size_cons, size_of_hexUnit hu]
      rfl

theorem scan_pieces {ps : List Piece} {w : List Char} (h : w ∈ (ps.map piece).prod)
    (rest : List Char) : scan (w ++ '"' :: rest) = ⟨ps, .closed rest⟩ ∧
      size w = Piece.sizes ps := by
  induction ps generalizing w with
  | nil =>
    obtain rfl := (Language.mem_one w).mp h
    exact ⟨by rw [List.nil_append, scan], rfl⟩
  | cons p ps ih =>
    rw [List.map_cons, List.prod_cons] at h
    obtain ⟨v, hv, w, hw, rfl⟩ := Language.mem_mul.mp h
    obtain ⟨hscan, hsize⟩ := ih hw
    obtain ⟨hpiece, hp⟩ := scan_piece hv (w ++ '"' :: rest)
    rw [List.append_assoc, hpiece, hscan, size_append, hsize, hp]
    exact ⟨rfl, rfl⟩

/-- What has been split up to a closing quote is spelled by its pieces. -/
theorem mem_pieces_of_scan {cs rest : List Char} (h : (scan cs).ending = .closed rest) :
    ∃ w ∈ ((scan cs).pieces.map piece).prod, cs = w ++ '"' :: rest := by
  fun_induction scan cs with
  | case2 tail =>
    cases h
    exact ⟨[], Language.nil_mem_one, rfl⟩
  | case3 a b c d tail code hcode ih =>
    obtain ⟨w, hw, rfl⟩ := ih h
    have hpiece : ['\\', 'u', a, b, c, d] ∈ piece (.unit code) := ⟨a, b, c, d, hcode, rfl⟩
    exact ⟨_, Language.append_mem_mul hpiece hw, rfl⟩
  | case4 a b c d tail hcode =>
    simp only [unitEnding] at h
    split at h <;> cases h
  | case5 tail =>
    simp only [unitEnding] at h
    split at h <;> cases h
  | case6 c tail _ _ e he ih =>
    obtain ⟨w, hw, rfl⟩ := ih h
    have hpiece : ['\\', c] ∈ piece (.escaped e) := ⟨c, he, rfl⟩
    exact ⟨_, Language.append_mem_mul hpiece hw, rfl⟩
  | case10 c tail hq _ _ hcons hnil hc ih =>
    obtain ⟨w, hw, rfl⟩ := ih h
    -- a backslash would have been taken with what follows it
    have hb : c ≠ '\\' := by
      intro he
      cases htail : w ++ '"' :: rest with
      | nil => exact hnil he htail
      | cons d ds => exact hcons d ds he htail
    have hpiece : [c] ∈ piece (.plain c) := ⟨hq, hb, hc, rfl⟩
    exact ⟨_, Language.append_mem_mul hpiece hw, rfl⟩
  | _ => cases h

theorem toOption_decode (rest rest' : List Char) (ps : List Piece) (place place' : Nat) :
    (decode (.closed rest) place ps).toOption = (decode (.closed rest') place' ps).toOption := by
  have map {x y : Except Fault (List Char)} {f : List Char → List Char}
      (h : x.toOption = y.toOption) : (x.map f).toOption = (y.map f).toOption := by
    cases x <;> cases y <;> simp_all [Except.map, Except.toOption]
  fun_induction decode (.closed rest) place ps generalizing place' with
  | case1 => rfl
  | case2 place f hf => cases hf
  | case3 place c ps ih => exact map (ih _)
  | case4 place c ps ih => exact map (ih _)
  | case5 place u ps hu =>
    rw [decode.eq_def]
    simp only [hu, if_true]
    rfl
  | case6 place u hu hl v ps hv ih =>
    conv_rhs => rw [decode.eq_def]
    simp only [hu, hl, hv, if_true]
    exact map (ih _)
  | case7 place u hu hl v ps hv =>
    rw [decode.eq_def]
    simp only [hu, hl, hv, if_true]
    rfl
  | case8 place u hu hl c ps =>
    rw [decode.eq_def]
    simp only [hu, hl, if_true]
    rfl
  | case9 place u hu hl c ps =>
    rw [decode.eq_def]
    simp only [hu, hl, if_true]
    rfl
  | case10 place u hu hl =>
    rw [decode.eq_def]
    simp only [hu, hl, if_true]
    rfl
  | case11 place u ps hu hl ih =>
    conv_rhs => rw [decode.eq_def]
    simp only [hu, hl]
    exact map (ih _)

/-- What pieces stand for does not depend on where they stand. -/
theorem toOption_content (ps : List Piece) (rest : List Char) (place : Nat) :
    (Escaped.content ⟨ps, .closed rest⟩ place).toOption = Grammar.content ps := by
  have h := toOption_decode rest [] ps place 0
  unfold Grammar.content Escaped.content
  dsimp only at h ⊢
  cases hx : decode (.closed rest) place ps <;> cases hy : decode (.closed []) 0 ps <;>
    simp_all [Except.map, Except.toOption]

end Escaped

namespace Lexeme

open Escaped (size)

/-! Blanks are passed over. -/

theorem scanAll_resume {place resume : Nat} (h : resume ≤ place) (cs : List Char) :
    scanAll place resume cs = scanAll place place cs := by
  induction cs generalizing place resume with
  | nil => rfl
  | cons c cs ih =>
    have hplace : place ≤ place + c.utf8Size := Nat.le_add_right _ _
    have hresume : ¬ place < resume := Nat.not_lt.mpr h
    rw [scanAll, scanAll, decide_eq_false hresume, decide_eq_false (Nat.lt_irrefl place),
      ih (Nat.le_trans h hplace), ih hplace]

theorem scanAll_blanks {bs : List Char} (h : bs ∈ blanks) (place : Nat) (rest : List Char) :
    ∃ stop, scanAll place place (bs ++ rest) = scanAll stop stop rest := by
  induction bs generalizing place with
  | nil => exact ⟨place, rfl⟩
  | cons b bs ih =>
    obtain ⟨hb, hbs⟩ := List.forall_mem_cons.mp h
    have hstep : scanAll place place (b :: bs ++ rest) =
        scanAll (place + b.utf8Size) place (bs ++ rest) := by
      rw [List.cons_append, scanAll, if_pos (by simp [hb])]
    obtain ⟨stop, hstop⟩ := ih hbs (place + b.utf8Size)
    exact ⟨stop, hstep.trans ((scanAll_resume (Nat.le_add_right _ _) _).trans hstop)⟩

end Lexeme

/-- The phrase that a lexeme is by itself. -/
def Token.phrase? : Token → Option Phrase
  | .null => some .null
  | .bool b => some (.bool b)
  | .number v => some (.number v.toOption)
  | .text s => some (.text s.toOption)
  | _ => none

/-- The characters of a lexeme that can be read. -/
def Token.language : Token → Language Char
  | .openList => mark '['
  | .closeList => mark ']'
  | .openObject => mark '\x7b'
  | .closeObject => mark '\x7d'
  | .comma => mark ','
  | .colon => mark ':'
  | .null => word "null"
  | .bool b => word (if b then "true" else "false")
  | .number v => numeral v.toOption
  | .text s => quoted s.toOption
  | .broken _ _ => 0
  | .stray => 0

namespace Lexeme

open Escaped (size)

variable {place : Nat} {c : Char} {cs rest : List Char}

theorem ofQuoted_eq {ps : List Piece} {w : List Char} (h : w ∈ (ps.map piece).prod) (c : Char)
    (place : Nat) (rest : List Char) : ofQuoted place c (w ++ '"' :: rest) =
      ⟨.text (Escaped.content ⟨ps, .closed rest⟩ (place + 1)), c, place,
        place + 1 + size w + 1⟩ := by
  obtain ⟨hscan, hsize⟩ := Escaped.scan_pieces h rest
  simp only [ofQuoted, hscan, hsize]
  rfl

/-- Quoted texts are lexemes, whatever follows. -/
theorem scanAll_quoted {s : Option String} (h : cs ∈ quoted s) (place : Nat) (rest : List Char) :
    ∃ l x, l.token = .text x ∧ x.toOption = s ∧
      scanAll place place (cs ++ rest) = l :: scanAll l.stop l.stop rest := by
  obtain ⟨ps, hs, h⟩ := h
  obtain ⟨_, hopen, _, rfl, rfl⟩ := Language.mem_mul.mp h
  obtain ⟨_, rfl, w, hw, rfl⟩ := Language.mem_mul.mp hopen
  have hsize : place + 1 + size w + 1 = place + size ('"' :: (w ++ ['"'])) := by
    have hquote : '"'.utf8Size = 1 := rfl
    rw [Escaped.size_cons, Escaped.size_append, Escaped.size_cons, hquote, Escaped.size_nil]
    omega
  have happend : w ++ '"' :: rest = w ++ ['"'] ++ rest := by simp
  have hscan : scan place '"' (w ++ ['"'] ++ rest) = _ :=
    happend ▸ ofQuoted_eq hw '"' place rest
  have hall := scanAll_of_scan (by decide) hscan rfl hsize
  exact ⟨⟨.text _, '"', place, _⟩, _, rfl,
    (Escaped.toOption_content ps rest (place + 1)).trans hs, hall⟩

theorem scanAll_numeral {v : Option Number} (h : cs ∈ numeral v) (hr : Numeral.Ends rest)
    (place : Nat) : ∃ l x, l.token = .number x ∧ x.toOption = v ∧
      scanAll place place (cs ++ rest) = l :: scanAll l.stop l.stop rest := by
  obtain ⟨n, hn, rfl, rfl⟩ := h
  obtain ⟨l, x, hl, hx, hall⟩ := scanAll_number (Numeral.scan_spelling hn hr) place
  refine ⟨l, x, hl, Option.ext fun y => ?_, hall⟩
  rw [Except.toOption_eq_some_iff, hx]

/-- The characters `c :: w` are a lexeme that can be read. -/
structure Covers (place : Nat) (c : Char) (w : List Char) (l : Lexeme) : Prop where
  language : c :: w ∈ l.token.language
  stop : l.stop = place + size (c :: w)

theorem append_of_wordFault {w : List Char} (h : wordFault place w cs = none) :
    ∃ rest, cs = w ++ rest := by
  induction w generalizing place cs with
  | nil => exact ⟨cs, rfl⟩
  | cons d w ih =>
    cases cs with
    | nil => cases h
    | cons c cs =>
      unfold wordFault at h
      split_ifs at h with hd
      obtain ⟨rest, rfl⟩ := ih h
      exact ⟨rest, by rw [hd, List.cons_append]⟩

theorem covers_ofWord {w : List Char} {t : Token} (hw : c :: w ∈ t.language)
    (hsize : size (c :: w) = (c :: w).length)
    (h : isLast (ofWord place (c :: w) t c cs).token = false) :
    ∃ v rest, cs = v ++ rest ∧ Covers place c v (ofWord place (c :: w) t c cs) := by
  unfold ofWord at h ⊢
  cases hfault : wordFault place (c :: w) (c :: cs) with
  | none =>
    obtain ⟨rest, hrest⟩ := append_of_wordFault hfault
    exact ⟨w, rest, (List.cons.inj hrest).2, hw, by rw [hsize]⟩
  | some f =>
    rw [hfault] at h
    cases h

theorem covers_ofNumber (h : isLast (ofNumber place c cs).token = false) :
    ∃ w rest, cs = w ++ rest ∧ Covers place c w (ofNumber place c cs) := by
  unfold ofNumber at h
  cases hscan : Numeral.scan (c :: cs) with
  | error left =>
    rw [hscan] at h
    cases h
  | ok r =>
    obtain ⟨n, rest⟩ := r
    obtain ⟨d, w, hspelling, -⟩ := Numeral.head_of_scan hscan
    have hcs := Numeral.scan_append hscan
    rw [hspelling] at hcs
    obtain ⟨rfl, rfl⟩ := List.cons.inj hcs
    have hsize := size_spelling hscan
    refine ⟨w, rest, rfl, ?_⟩
    have hn : n.IsProper := Numeral.isProper_of_scan hscan
    simp only [ofNumber, hscan]
    refine ⟨⟨n, hn, ?_, hspelling.symm⟩, ?_⟩
    · cases n.value <;> rfl
    · rw [← hspelling, hsize]

theorem covers_ofQuoted (h : isLast (ofQuoted place '"' cs).token = false) :
    ∃ w rest, cs = w ++ rest ∧ Covers place '"' w (ofQuoted place '"' cs) := by
  cases hending : (Escaped.scan cs).ending with
  | closed rest =>
    obtain ⟨w, hw, rfl⟩ := Escaped.mem_pieces_of_scan hending
    refine ⟨w ++ ['"'], rest, by simp, ?_⟩
    rw [ofQuoted_eq hw]
    have hquoted : ['"'] ++ w ++ ['"'] ∈ mark '"' * _ * mark '"' :=
      Language.append_mem_mul (Language.append_mem_mul rfl hw) rfl
    refine ⟨⟨_, (Escaped.toOption_content _ rest (place + 1)).symm, hquoted⟩, ?_⟩
    have hquote : '"'.utf8Size = 1 := rfl
    rw [Escaped.size_cons, Escaped.size_append, Escaped.size_cons, hquote, Escaped.size_nil]
    dsimp only
    omega
  | _ =>
    simp only [ofQuoted, Escaped.looseFault, hending, Escaped.fault?] at h
    cases h

/-- A lexeme that can be read consists of the characters up to where it stops. -/
theorem covers_scan (h : isLast (scan place c cs).token = false) :
    ∃ w rest, cs = w ++ rest ∧ Covers place c w (scan place c cs) := by
  have single {t : Token} {c : Char} (ht : [c] ∈ t.language) (hc : c.utf8Size = 1) :
      ∃ w rest, cs = w ++ rest ∧ Covers place c w ⟨t, c, place, place + 1⟩ :=
    ⟨[], cs, rfl, ht, by rw [Escaped.size_cons, hc, Escaped.size_nil]⟩
  unfold scan at h ⊢
  split at h
  case h_7 => exact covers_ofWord rfl rfl h
  case h_8 => exact covers_ofWord rfl rfl h
  case h_9 => exact covers_ofWord rfl rfl h
  case h_10 => exact covers_ofQuoted h
  case h_11 =>
    split
    · next hnumber =>
      rw [if_pos hnumber] at h
      exact covers_ofNumber h
    · next hnumber =>
      rw [if_neg hnumber] at h
      cases h
  all_goals exact single rfl rfl

end Lexeme

end DeckDoc.Json
