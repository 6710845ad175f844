import DeckDoc.Proofs.Json.Accept
import DeckDoc.Proofs.Json.Grammar.Lexeme

namespace DeckDoc.Json

open Grammar

theorem Items.trees?_ofReversed {ts : List Tree} {rest : Items} {us : List Tree}
    (h : rest.trees? = some us) : (ofReversed ts rest).trees? = some (ts.reverse ++ us) := by
  induction ts generalizing rest us with
  | nil => exact h
  | cons t ts ih =>
    have hi : (item t rest).trees? = some (t :: us) := by rw [trees?, h, Option.map_some]
    rw [List.reverse_cons, List.append_assoc]
    exact ih hi

theorem Members.entries?_ofReversed {es : List Entry} {rest : Members}
    {us : List (Option String × Tree)} (h : rest.entries? = some us) :
    (ofReversed es rest).entries? =
      some ((es.map fun e => (e.key.toOption, e.value)).reverse ++ us) := by
  induction es generalizing rest us with
  | nil => exact h
  | cons e es ih =>
    have hmember : (member e.key e.colon e.value e.next rest).entries? =
        some ((e.key.toOption, e.value) :: us) := by
      rw [entries?, h, Option.map_some]
    rw [List.map_cons, List.reverse_cons, List.append_assoc]
    exact ih hmember

namespace Grammar

variable {rest : List Char}

theorem ends_cons {c : Char} (h : c.isDigit = false ∧ c ≠ '.' ∧ c ≠ 'e' ∧ c ≠ 'E')
    (rest : List Char) : Numeral.Ends (c :: rest) := by
  intro d hd
  obtain rfl := Option.some.inj hd
  exact h

theorem ends_blanks {bs : List Char} (h : bs ∈ blanks) (hr : Numeral.Ends rest) :
    Numeral.Ends (bs ++ rest) := by
  cases bs with
  | nil => exact hr
  | cons b bs =>
    refine ends_cons ?_ _
    have hb : Lexeme.isSpace b = true := h b List.mem_cons_self
    simp only [Lexeme.isSpace, Bool.or_eq_true, decide_eq_true_eq] at hb
    rcases hb with ((rfl | rfl) | rfl) | rfl <;> decide

/-- What follows an entry: further ones after commas, then the bracket. -/
def tail (c : Char) (Ls : List (Language Char)) : Language Char :=
  (Ls.map (mark ',' * blanks * ·)).prod * (mark c * blanks)

theorem tail_nil (c : Char) : tail c [] = mark c * blanks := one_mul _

theorem tail_cons (c : Char) (L : Language Char) (Ls : List (Language Char)) :
    tail c (L :: Ls) = mark ',' * blanks * (L * tail c Ls) := by
  simp only [tail, List.map_cons, List.prod_cons, mul_assoc]

theorem bracket_nil (b c : Char) :
    mark b * blanks * separated [] * mark c * blanks = mark b * blanks * (mark c * blanks) := by
  rw [separated, mul_one, mul_assoc]

theorem bracket_cons (b c : Char) (L : Language Char) (Ls : List (Language Char)) :
    mark b * blanks * separated (L :: Ls) * mark c * blanks =
      mark b * blanks * (L * tail c Ls) := by
  simp only [separated, tail, mul_assoc]

theorem ends_tail {c : Char} (hc : c = ']' ∨ c = '\x7d') {Ls : List (Language Char)}
    {cs : List Char} (h : cs ∈ tail c Ls) (rest : List Char) : Numeral.Ends (cs ++ rest) := by
  cases Ls with
  | nil =>
    rw [tail_nil] at h
    obtain ⟨_, rfl, _, -, rfl⟩ := Language.mem_mul.mp h
    rcases hc with rfl | rfl <;> exact ends_cons (by decide) _
  | cons L Ls =>
    rw [tail_cons, mul_assoc] at h
    obtain ⟨_, rfl, _, -, rfl⟩ := Language.mem_mul.mp h
    exact ends_cons (by decide) _

end Grammar

namespace Source

open Lexeme (scanAll Lexes)

variable {rest : List Char} {p : Progress} {frames : List Frame}

theorem build_mark (size : Nat) {c : Char} {t : Token} {next : Lexeme → Progress}
    (h : Lexes [c] t rest) (hp : ∀ l, l.token = t → p.accept l = some (.inl (next l)))
    (place : Nat) : ∃ l stop, build size p (scanAll place place (c :: rest)) =
      build size (next l) (scanAll stop stop rest) := by
  obtain ⟨l, stop, hl, hscan⟩ := h place
  refine ⟨l, stop, ?_⟩
  rw [← List.singleton_append, hscan, build, hp l hl]

/-- Where a value may begin that stands in these frames. -/
def Begins (p : Progress) (frames : List Frame) : Prop :=
  ∀ l : Lexeme, l.token ≠ .closeList → p.accept l = Progress.beginValue frames l

theorem begins_atValue (frames : List Frame) : Begins (.atValue frames) frames :=
  fun _ _ => rfl

theorem begins_atFirstItem (start : Nat) (frames : List Frame) :
    Begins (.atFirstItem start frames) (.list start [] :: frames) := by
  intro l hl
  simp only [Progress.accept]

theorem Begins.openList {p : Progress} {frames : List Frame} (hp : Begins p frames) (l : Lexeme)
    (hl : l.token = .openList) : p.accept l = some (.inl (.atFirstItem l.start frames)) := by
  rw [hp l (by rw [hl]; nofun)]
  simp only [Progress.beginValue, hl]

theorem Begins.openObject {p : Progress} {frames : List Frame} (hp : Begins p frames) (l : Lexeme)
    (hl : l.token = .openObject) : p.accept l = some (.inl (.atFirstKey l.start frames)) := by
  rw [hp l (by rw [hl]; nofun)]
  simp only [Progress.beginValue, hl]

/-- A mark that is due leads on, past the blanks after it. -/
theorem build_mark_blanks (size : Nat) {c : Char} {t : Token} {next : Lexeme → Progress}
    {cs : List Char} (hcs : cs ∈ mark c * blanks) (h : ∀ rest, Lexes [c] t rest)
    (hp : ∀ l, l.token = t → p.accept l = some (.inl (next l))) (place : Nat)
    (rest : List Char) : ∃ l stop, build size p (scanAll place place (cs ++ rest)) =
      build size (next l) (scanAll stop stop rest) := by
  obtain ⟨_, rfl, bs, hbs, rfl⟩ := Language.mem_mul.mp hcs
  obtain ⟨l, stop, hbuild⟩ := build_mark size (h (bs ++ rest)) hp place
  obtain ⟨stop', hblanks⟩ := Lexeme.scanAll_blanks hbs stop rest
  rw [List.append_assoc, List.singleton_append]
  exact ⟨l, stop', by rw [hbuild, hblanks]⟩

/-- A lexeme that is a phrase by itself. -/
theorem build_single (size : Nat) {P : Phrase} {l : Lexeme} (ls : List Lexeme)
    (hp : Begins p frames) (hl : l.token.phrase? = some P) :
    ∃ T, T.phrase? = some P ∧ build size p (l :: ls) = build size (.afterValue T frames) ls := by
  have begins (T : Tree) (hT : T.phrase? = some P) (hclose : l.token ≠ .closeList)
      (hbegin : Progress.beginValue frames l = some (.inl (.afterValue T frames))) :
      ∃ T, T.phrase? = some P ∧ build size p (l :: ls) = build size (.afterValue T frames) ls :=
    ⟨T, hT, by rw [build, hp l hclose, hbegin]⟩
  cases ht : l.token with
  | null =>
    rw [ht] at hl
    exact begins (.null l.start l.stop) hl (by simp [ht]) (by simp only [Progress.beginValue, ht])
  | bool b =>
    rw [ht] at hl
    exact begins (.bool b l.start l.stop) hl (by simp [ht]) (by simp only [Progress.beginValue, ht])
  | number v =>
    rw [ht] at hl
    exact begins (.number v l.start l.stop) hl (by simp [ht])
      (by simp only [Progress.beginValue, ht])
  | text s =>
    rw [ht] at hl
    exact begins (.text s l.start l.stop) hl (by simp [ht]) (by simp only [Progress.beginValue, ht])
  | _ =>
    rw [ht] at hl
    cases hl

/-- A key and the colon after it lead up to its value. -/
theorem build_phraseKey (size : Nat) {start : Nat} {members : List Entry}
    (hp : ∀ l s, l.token = .text s → p.accept l = some (.inl (.atColon start members s frames)))
    {k : Option String} {cs : List Char} (hcs : cs ∈ key k) (place : Nat) (rest : List Char) :
    ∃ x colon stop, x.toOption = k ∧ build size p (scanAll place place (cs ++ rest)) =
      build size (.atValue (.object start members x colon :: frames)) (scanAll stop stop rest) := by
  unfold key at hcs
  rw [mul_assoc] at hcs
  obtain ⟨_, hquoted, ds, hcolon, rfl⟩ := Language.mem_mul.mp hcs
  obtain ⟨ks, hks, bs, hbs, rfl⟩ := Language.mem_mul.mp hquoted
  obtain ⟨l, x, hl, hx, hall⟩ := Lexeme.scanAll_quoted hks place (bs ++ (ds ++ rest))
  obtain ⟨stop, hblanks⟩ := Lexeme.scanAll_blanks hbs l.stop (ds ++ rest)
  have haccept : ∀ m : Lexeme, m.token = .colon →
      Progress.accept m (.atColon start members x frames) =
        some (.inl (.atValue (.object start members x m.start :: frames))) := by
    intro m hm
    simp only [Progress.accept, hm]
  obtain ⟨m, stop', hbuild⟩ :=
    build_mark_blanks size hcolon (fun _ => Lexeme.lexes_colon) haccept stop rest
  refine ⟨x, m.start, stop', hx, ?_⟩
  rw [List.append_assoc, List.append_assoc, hall, build, hp l x hl]
  exact (congrArg _ hblanks).trans hbuild

/-- A phrase that is one lexeme is read, past the blanks after it. -/
theorem build_lexeme_blanks (size : Nat) {P : Phrase} {L : Language Char} {cs : List Char}
    (hcs : cs ∈ L * blanks) (hp : Begins p frames) {rest : List Char}
    (h : ∀ w ∈ L, ∀ bs ∈ blanks, ∀ place, ∃ l stop, l.token.phrase? = some P ∧
      scanAll place place (w ++ (bs ++ rest)) = l :: scanAll stop stop (bs ++ rest)) (place : Nat) :
    ∃ T stop, T.phrase? = some P ∧ build size p (scanAll place place (cs ++ rest)) =
      build size (.afterValue T frames) (scanAll stop stop rest) := by
  obtain ⟨w, hw, bs, hbs, rfl⟩ := Language.mem_mul.mp hcs
  obtain ⟨l, stop, hl, hall⟩ := h w hw bs hbs place
  obtain ⟨T, hT, hbuild⟩ := build_single size (scanAll stop stop (bs ++ rest)) hp hl
  obtain ⟨stop', hblanks⟩ := Lexeme.scanAll_blanks hbs stop rest
  rw [List.append_assoc, hall, hbuild, hblanks]
  exact ⟨T, stop', hT, rfl⟩

/-- The words of the grammar. -/
theorem build_word (size : Nat) {P : Phrase} {w : String} {t : Token} {cs : List Char}
    (hcs : cs ∈ word w * blanks) (hp : Begins p frames) (ht : t.phrase? = some P)
    (h : ∀ rest, Lexes w.toList t rest) (rest : List Char) (place : Nat) :
    ∃ T stop, T.phrase? = some P ∧ build size p (scanAll place place (cs ++ rest)) =
      build size (.afterValue T frames) (scanAll stop stop rest) := by
  refine build_lexeme_blanks size hcs hp (fun _ hw bs _ place => ?_) place
  obtain rfl := hw
  obtain ⟨l, stop, hl, hall⟩ := h (bs ++ rest) place
  exact ⟨l, stop, hl ▸ ht, hall⟩

mutual

/-- A phrase and the blanks after it are read as a tree of the phrase, whatever follows. -/
theorem build_phrase (size : Nat) : ∀ (P : Phrase) {cs : List Char}, cs ∈ P.language * blanks →
    ∀ {rest : List Char} {p : Progress} {frames : List Frame}, Numeral.Ends rest →
    Begins p frames → ∀ place, ∃ T stop, T.phrase? = some P ∧
      build size p (scanAll place place (cs ++ rest)) =
        build size (.afterValue T frames) (scanAll stop stop rest)
  | .null, _, hcs, rest, _, _, _, hp, place =>
    build_word size hcs hp (t := .null) rfl (fun _ => Lexeme.lexes_null) rest place
  | .bool true, _, hcs, rest, _, _, _, hp, place =>
    build_word size hcs hp (t := .bool true) rfl (fun _ => Lexeme.lexes_true) rest place
  | .bool false, _, hcs, rest, _, _, _, hp, place =>
    build_word size hcs hp (t := .bool false) rfl (fun _ => Lexeme.lexes_false) rest place
  | .number v, _, hcs, rest, _, _, hr, hp, place => by
    refine build_lexeme_blanks size hcs hp (fun w hw bs hbs place => ?_) place
    obtain ⟨l, x, hl, hx, hall⟩ := Lexeme.scanAll_numeral hw (ends_blanks hbs hr) place
    exact ⟨l, l.stop, by rw [hl, Token.phrase?, hx], hall⟩
  | .text s, _, hcs, rest, _, _, _, hp, place => by
    refine build_lexeme_blanks size hcs hp (fun w hw bs _ place => ?_) place
    obtain ⟨l, x, hl, hx, hall⟩ := Lexeme.scanAll_quoted hw place (bs ++ rest)
    exact ⟨l, l.stop, by rw [hl, Token.phrase?, hx], hall⟩
  | .list [], _, hcs, rest, p, frames, _, hp, place => by
    rw [Phrase.language, Phrase.languages, bracket_nil] at hcs
    obtain ⟨as, has, bs, hbs, rfl⟩ := Language.mem_mul.mp hcs
    obtain ⟨l, stop, hopen⟩ := build_mark_blanks size has (fun _ => Lexeme.lexes_openList)
      hp.openList place (bs ++ rest)
    obtain ⟨m, stop', hclose⟩ := build_mark_blanks size hbs (fun _ => Lexeme.lexes_closeList)
      (Progress.accept_closeList_atFirstItem l.start frames) stop rest
    rw [List.append_assoc, hopen, hclose]
    exact ⟨_, stop', rfl, rfl⟩
  | .list (P :: ps), _, hcs, rest, p, frames, _, hp, place => by
    -- the bracket, the first entry, and the further ones up to the other bracket
    rw [Phrase.language, Phrase.languages, bracket_cons] at hcs
    obtain ⟨as, has, _, hentries, rfl⟩ := Language.mem_mul.mp hcs
    obtain ⟨bs, hbs, ds, hds, rfl⟩ := Language.mem_mul.mp hentries
    obtain ⟨l, stop, hopen⟩ := build_mark_blanks size has (fun _ => Lexeme.lexes_openList)
      hp.openList place (bs ++ (ds ++ rest))
    obtain ⟨T, stop₁, hT, hfirst⟩ := build_phrase size P hbs (ends_tail (.inl rfl) hds rest)
      (begins_atFirstItem l.start frames) stop
    obtain ⟨ts, closed, stop₂, hts, hrest⟩ :=
      build_morePhrases size ps hds rest l.start frames T [] stop₁
    rw [List.append_assoc, List.append_assoc, hopen, hfirst, hrest]
    have htrees : (Tree.list l.start (Items.ofReversed (ts.reverse ++ [T])
        (.closed closed))).trees? = some _ := Items.trees?_ofReversed rfl
    refine ⟨_, stop₂, Tree.phrase?_eq_list_iff.mpr ⟨_, htrees, ?_⟩, rfl⟩
    simpa using And.intro hT hts
  | .object [], _, hcs, rest, p, frames, _, hp, place => by
    rw [Phrase.language, Phrase.memberLanguages, bracket_nil] at hcs
    obtain ⟨as, has, bs, hbs, rfl⟩ := Language.mem_mul.mp hcs
    obtain ⟨l, stop, hopen⟩ := build_mark_blanks size has (fun _ => Lexeme.lexes_openObject)
      hp.openObject place (bs ++ rest)
    obtain ⟨m, stop', hclose⟩ := build_mark_blanks size hbs (fun _ => Lexeme.lexes_closeObject)
      (Progress.accept_closeObject_atFirstKey l.start frames) stop rest
    rw [List.append_assoc, hopen, hclose]
    exact ⟨_, stop', rfl, rfl⟩
  | .object ((k, P) :: ms), _, hcs, rest, p, frames, _, hp, place => by
    rw [Phrase.language, Phrase.memberLanguages, bracket_cons, mul_assoc (key k)] at hcs
    obtain ⟨as, has, _, hmembers, rfl⟩ := Language.mem_mul.mp hcs
    obtain ⟨ks, hks, _, hmember, rfl⟩ := Language.mem_mul.mp hmembers
    obtain ⟨bs, hbs, ds, hds, rfl⟩ := Language.mem_mul.mp hmember
    obtain ⟨l, stop, hopen⟩ := build_mark_blanks size has (fun _ => Lexeme.lexes_openObject)
      hp.openObject place (ks ++ (bs ++ (ds ++ rest)))
    obtain ⟨x, colon, stop₁, hx, hkey⟩ := build_phraseKey size
      (Progress.accept_text_atFirstKey l.start frames) hks stop (bs ++ (ds ++ rest))
    obtain ⟨T, stop₂, hT, hfirst⟩ := build_phrase size P hbs (ends_tail (.inr rfl) hds rest)
      (begins_atValue (.object l.start [] x colon :: frames)) stop₁
    obtain ⟨es, next, closed, stop₃, hes, hrest⟩ :=
      build_moreMembers size ms hds rest l.start frames x colon T [] stop₂
    rw [List.append_assoc, List.append_assoc, List.append_assoc, hopen, hkey, hfirst, hrest]
    have hentries : (Tree.object l.start (Members.ofReversed (es.reverse ++ [⟨x, colon, T, next⟩])
        (.closed closed))).entries? = some _ := Members.entries?_ofReversed rfl
    refine ⟨_, stop₃, Tree.phrase?_eq_object_iff.mpr ⟨_, hentries, ?_⟩, rfl⟩
    simpa using And.intro ⟨hx, hT⟩ hes

/-- Further entries are read up to the bracket. -/
theorem build_morePhrases (size : Nat) : ∀ (ps : List Phrase) {cs : List Char},
    cs ∈ tail ']' (Phrase.languages ps) →
    ∀ (rest : List Char) (start : Nat) (frames : List Frame) (T : Tree) (done : List Tree)
      (place : Nat), ∃ ts closed stop, List.Forall₂ (fun T P => T.phrase? = some P) ts ps ∧
      build size (.afterValue T (.list start done :: frames))
          (scanAll place place (cs ++ rest)) =
        build size (.afterValue (.list start (Items.ofReversed (ts.reverse ++ T :: done)
          (.closed closed))) frames) (scanAll stop stop rest)
  | [], _, hcs, rest, start, frames, T, done, place => by
    rw [Phrase.languages, tail_nil] at hcs
    obtain ⟨l, stop, hclose⟩ := build_mark_blanks size hcs (fun _ => Lexeme.lexes_closeList)
      (Progress.accept_closeList_afterValue start frames T done) place rest
    exact ⟨[], l.stop, stop, .nil, hclose⟩
  | P :: ps, _, hcs, rest, start, frames, T, done, place => by
    rw [Phrase.languages, tail_cons] at hcs
    obtain ⟨as, has, _, hentries, rfl⟩ := Language.mem_mul.mp hcs
    obtain ⟨bs, hbs, ds, hds, rfl⟩ := Language.mem_mul.mp hentries
    obtain ⟨l, stop, hcomma⟩ := build_mark_blanks size has (fun _ => Lexeme.lexes_comma)
      (Progress.accept_comma_list start frames T done) place (bs ++ (ds ++ rest))
    obtain ⟨U, stop₁, hU, hnext⟩ := build_phrase size P hbs (ends_tail (.inl rfl) hds rest)
      (begins_atValue (.list start (T :: done) :: frames)) stop
    obtain ⟨ts, closed, stop₂, hts, hrest⟩ :=
      build_morePhrases size ps hds rest start frames U (T :: done) stop₁
    refine ⟨U :: ts, closed, stop₂, .cons hU hts, ?_⟩
    rw [List.append_assoc, List.append_assoc, hcomma, hnext, hrest, List.reverse_cons,
      List.append_assoc, List.singleton_append]

/-- Further members are read up to the brace. -/
theorem build_moreMembers (size : Nat) : ∀ (ms : List (Option String × Phrase)) {cs : List Char},
    cs ∈ tail '\x7d' (Phrase.memberLanguages ms) →
    ∀ (rest : List Char) (start : Nat) (frames : List Frame) (x : Except Fault String)
      (colon : Nat) (T : Tree) (done : List Entry) (place : Nat), ∃ es next closed stop,
      List.Forall₂ (fun (e : Entry) m => e.key.toOption = m.1 ∧ e.value.phrase? = some m.2) es ms ∧
      build size (.afterValue T (.object start done x colon :: frames))
          (scanAll place place (cs ++ rest)) =
        build size (.afterValue (.object start (Members.ofReversed
          (es.reverse ++ ⟨x, colon, T, next⟩ :: done) (.closed closed))) frames)
          (scanAll stop stop rest)
  | [], _, hcs, rest, start, frames, x, colon, T, done, place => by
    rw [Phrase.memberLanguages, tail_nil] at hcs
    obtain ⟨l, stop, hclose⟩ := build_mark_blanks size hcs (fun _ => Lexeme.lexes_closeObject)
      (Progress.accept_closeObject_afterValue start frames x colon T done) place rest
    exact ⟨[], l.start, l.stop, stop, .nil, hclose⟩
  | (k, P) :: ms, _, hcs, rest, start, frames, x, colon, T, done, place => by
    rw [Phrase.memberLanguages, tail_cons, mul_assoc (key k)] at hcs
    obtain ⟨as, has, _, hmembers, rfl⟩ := Language.mem_mul.mp hcs
    obtain ⟨ks, hks, _, hmember, rfl⟩ := Language.mem_mul.mp hmembers
    obtain ⟨bs, hbs, ds, hds, rfl⟩ := Language.mem_mul.mp hmember
    obtain ⟨l, stop, hcomma⟩ := build_mark_blanks size has (fun _ => Lexeme.lexes_comma)
      (Progress.accept_comma_object start frames x colon T done) place (ks ++ (bs ++ (ds ++ rest)))
    let members : List Entry := ⟨x, colon, T, l.start⟩ :: done
    obtain ⟨y, colon', stop₁, hy, hkey⟩ := build_phraseKey size
      (Progress.accept_text_atKey start frames members) hks stop (bs ++ (ds ++ rest))
    obtain ⟨U, stop₂, hU, hnext⟩ := build_phrase size P hbs (ends_tail (.inr rfl) hds rest)
      (begins_atValue (.object start members y colon' :: frames)) stop₁
    obtain ⟨es, next, closed, stop₃, hes, hrest⟩ :=
      build_moreMembers size ms hds rest start frames y colon' U members stop₂
    refine ⟨⟨y, colon', U, next⟩ :: es, l.start, closed, stop₃, .cons ⟨hy, hU⟩ hes, ?_⟩
    rw [List.append_assoc, List.append_assoc, List.append_assoc, hcomma, hkey, hnext, hrest,
      List.reverse_cons, List.append_assoc, List.singleton_append]

end

/-- A text of a phrase is read as a tree of the phrase, with nothing after it. -/
theorem ofText_of_mem {text : String} {P : Phrase} (h : text.toList ∈ P.document) :
    (ofText text).tree.phrase? = some P ∧ (ofText text).excess = none := by
  rw [Phrase.document, mul_assoc] at h
  obtain ⟨bs, hbs, cs, hcs, htext⟩ := Language.mem_mul.mp h
  obtain ⟨start, hblanks⟩ := Lexeme.scanAll_blanks hbs 0 cs
  obtain ⟨T, stop, hT, hbuild⟩ := build_phrase text.utf8ByteSize P hcs Numeral.ends_nil
    (begins_atValue []) start
  have hsource : ofText text = ⟨T, none⟩ := by
    rw [ofText, Lexeme.ofText, ← htext, hblanks]
    rw [List.append_nil] at hbuild
    exact hbuild
  rw [hsource]
  exact ⟨hT, rfl⟩

end Source

end DeckDoc.Json
