import DeckDoc.Proofs.Json.Grammar.Complete

namespace DeckDoc.Json

namespace Grammar

theorem blanks_mul_blanks : blanks * blanks ≤ blanks := by
  intro cs h
  obtain ⟨as, has, bs, hbs, rfl⟩ := Language.mem_mul.mp h
  exact fun c hc => (List.mem_append.mp hc).elim (has c) (hbs c)

theorem mul_blanks_le {L : Language Char} (K : Language Char) (h : L * blanks ≤ L) :
    K * L * blanks ≤ K * L := by
  rw [mul_assoc]
  exact mul_le_mul_right h K

/-- Texts with a comma after each, the last text first. -/
def followed : List (Language Char) → Language Char
  | [] => 1
  | L :: Ls => followed Ls * (L * (mark ',' * blanks))

theorem followed_blanks {K : Language Char} (h : K * blanks ≤ K) (Ls : List (Language Char)) :
    K * followed Ls * blanks ≤ K * followed Ls := by
  cases Ls with
  | nil => rwa [followed, mul_one]
  | cons L Ls =>
    have hcomma := mul_blanks_le (mark ',') blanks_mul_blanks
    exact mul_blanks_le K (mul_blanks_le (followed Ls) (mul_blanks_le L hcomma))

theorem followed_mul_separated (Ls : List (Language Char)) (L : Language Char)
    (rest : List (Language Char)) :
    followed Ls * separated (L :: rest) = separated (Ls.reverse ++ L :: rest) := by
  induction Ls generalizing L rest with
  | nil => exact one_mul _
  | cons K Ls ih =>
    rw [List.reverse_cons, List.append_assoc, List.singleton_append, ← ih, separated_cons_cons,
      followed, mul_assoc, mul_assoc]

theorem followed_mul (Ls : List (Language Char)) (L : Language Char) :
    followed Ls * L = separated (L :: Ls).reverse := by
  have h := followed_mul_separated Ls L []
  rwa [separated, List.map_nil, List.prod_nil, mul_one, ← List.reverse_cons] at h

/-- Texts that are each of some kind are of some kinds together. -/
theorem mem_separated_map {α β : Type} {R : α → β → Prop} {f : α → Language Char}
    {g : β → Language Char} (h : ∀ a, ∀ cs ∈ f a, ∃ b, R a b ∧ cs ∈ g b) {as : List α}
    {cs : List Char} (hcs : cs ∈ separated (as.map f)) :
    ∃ bs, List.Forall₂ R as bs ∧ cs ∈ separated (bs.map g) := by
  have more {as : List α} {cs : List Char}
      (hcs : cs ∈ ((as.map f).map (mark ',' * blanks * ·)).prod) :
      ∃ bs, List.Forall₂ R as bs ∧ cs ∈ ((bs.map g).map (mark ',' * blanks * ·)).prod := by
    induction as generalizing cs with
    | nil => exact ⟨[], .nil, hcs⟩
    | cons a as ih =>
      obtain ⟨_, hentry, rest, hrest, rfl⟩ := Language.mem_mul.mp hcs
      obtain ⟨comma, hcomma, first, ha, rfl⟩ := Language.mem_mul.mp hentry
      obtain ⟨b, hb, hfirst⟩ := h a first ha
      obtain ⟨bs, hbs, hrest⟩ := ih hrest
      exact ⟨b :: bs, .cons hb hbs,
        Language.append_mem_mul (Language.append_mem_mul hcomma hfirst) hrest⟩
  cases as with
  | nil => exact ⟨[], .nil, hcs⟩
  | cons a as =>
    obtain ⟨first, ha, rest, hrest, rfl⟩ := Language.mem_mul.mp hcs
    obtain ⟨b, hb, hfirst⟩ := h a first ha
    obtain ⟨bs, hbs, hrest⟩ := more hrest
    exact ⟨b :: bs, .cons hb hbs, Language.append_mem_mul hfirst hrest⟩

end Grammar

open Grammar

/-! What has been read up to some place is known there. -/

/-- The texts that a tree may have been read from. -/
def Tree.language (T : Tree) : Language Char := {cs | ∃ P, T.phrase? = some P ∧ cs ∈ P.language}

def Tree.entry (T : Tree) : Language Char := T.language * blanks

def Entry.member (e : Entry) : Language Char := Grammar.key e.key.toOption * e.value.entry

namespace Frame

def openList (items : List Tree) : Language Char :=
  mark '[' * blanks * followed (items.map Tree.entry)

def openObject (members : List Entry) : Language Char :=
  mark '\x7b' * blanks * followed (members.map Entry.member)

/-- The texts from an open bracket to the value in it that is being read. -/
def language : Frame → Language Char
  | .list _ items => openList items
  | .object _ members k _ => openObject members * key k.toOption

def languages : List Frame → Language Char
  | [] => blanks
  | frame :: frames => languages frames * frame.language

end Frame

def Progress.language : Progress → Language Char
  | .atValue frames => Frame.languages frames
  | .atFirstItem _ frames => Frame.languages frames * (mark '[' * blanks)
  | .afterValue v frames => Frame.languages frames * v.entry
  | .atFirstKey _ frames => Frame.languages frames * (mark '\x7b' * blanks)
  | .atKey _ members frames => Frame.languages frames * Frame.openObject members
  | .atColon _ members k frames =>
    Frame.languages frames * Frame.openObject members * (quoted k.toOption * blanks)

namespace Tree

theorem language_of_phrase? {T : Tree} {P : Phrase} (h : T.phrase? = some P) :
    T.language = P.language := by
  ext cs
  constructor
  · rintro ⟨Q, hQ, hcs⟩
    exact Option.some.inj (h.symm.trans hQ) ▸ hcs
  · intro hcs
    exact ⟨P, h, hcs⟩

theorem exists_of_mem_entry (T : Tree) (cs : List Char) (h : cs ∈ T.entry) :
    ∃ P, T.phrase? = some P ∧ cs ∈ P.language * blanks := by
  obtain ⟨as, ⟨P, hP, has⟩, bs, hbs, rfl⟩ := Language.mem_mul.mp h
  exact ⟨P, hP, Language.append_mem_mul has hbs⟩

/-- A bracket closes a list. -/
theorem list_closed (start stop : Nat) (v : Tree) (items : List Tree) :
    Frame.openList items * v.entry * mark ']' ≤
      (list start (Items.ofReversed (v :: items) (.closed stop))).language := by
  intro cs h
  have hopen : Frame.openList items * v.entry =
      mark '[' * blanks * separated ((v :: items).reverse.map entry) := by
    rw [Frame.openList, mul_assoc, followed_mul, List.map_reverse, List.map_cons]
  rw [hopen] at h
  obtain ⟨_, hbody, bracket, hbracket, rfl⟩ := Language.mem_mul.mp h
  obtain ⟨first, hfirst, entries, hentries, rfl⟩ := Language.mem_mul.mp hbody
  obtain ⟨ps, hps, hentries⟩ := mem_separated_map exists_of_mem_entry hentries
  rw [← Phrase.languages_eq_map] at hentries
  have htrees : (list start (Items.ofReversed (v :: items) (.closed stop))).trees? =
      some ((v :: items).reverse ++ []) := Items.trees?_ofReversed rfl
  rw [List.append_nil] at htrees
  exact ⟨.list ps, phrase?_eq_list_iff.mpr ⟨_, htrees, hps⟩,
    Language.append_mem_mul (Language.append_mem_mul hfirst hentries) hbracket⟩

/-- A brace closes an object. -/
theorem object_closed (start stop : Nat) (e : Entry) (members : List Entry) :
    Frame.openObject members * e.member * mark '\x7d' ≤
      (object start (Members.ofReversed (e :: members) (.closed stop))).language := by
  intro cs h
  have hopen : Frame.openObject members * e.member =
      mark '\x7b' * blanks * separated ((e :: members).reverse.map Entry.member) := by
    rw [Frame.openObject, mul_assoc, followed_mul, List.map_reverse, List.map_cons]
  have hmember (e : Entry) (cs : List Char) (hcs : cs ∈ e.member) :
      ∃ m : Option String × Phrase, (e.key.toOption = m.1 ∧ e.value.phrase? = some m.2) ∧
        cs ∈ key m.1 * (m.2.language * blanks) := by
    obtain ⟨as, has, bs, hbs, rfl⟩ := Language.mem_mul.mp hcs
    obtain ⟨P, hP, hbs⟩ := exists_of_mem_entry e.value bs hbs
    exact ⟨(e.key.toOption, P), ⟨rfl, hP⟩, Language.append_mem_mul has hbs⟩
  rw [hopen] at h
  obtain ⟨_, hbody, bracket, hbracket, rfl⟩ := Language.mem_mul.mp h
  obtain ⟨first, hfirst, entries, hentries, rfl⟩ := Language.mem_mul.mp hbody
  obtain ⟨ms, hms, hentries⟩ := mem_separated_map hmember hentries
  rw [← Phrase.memberLanguages_eq_map] at hentries
  have hmembers : (object start (Members.ofReversed (e :: members) (.closed stop))).entries? =
      some (((e :: members).map fun e => (e.key.toOption, e.value)).reverse ++ []) :=
    Members.entries?_ofReversed rfl
  rw [List.append_nil, ← List.map_reverse] at hmembers
  exact ⟨.object ms, phrase?_eq_object_iff.mpr ⟨_, hmembers, List.forall₂_map_left_iff.mpr hms⟩,
    Language.append_mem_mul (Language.append_mem_mul hfirst hentries) hbracket⟩

end Tree

namespace Progress

variable {l : Lexeme} {p q : Progress}

/-- A lexeme that may begin a value is known from there on. -/
theorem language_beginValue {frames : List Frame} (h : beginValue frames l = some (.inl q)) :
    Frame.languages frames * (l.token.language * blanks) ≤ q.language := by
  have single (T : Tree) (hT : l.token.language = T.language) :
      Frame.languages frames * (l.token.language * blanks) ≤
        (afterValue T frames).language := by
    rw [language, Tree.entry, hT]
  unfold beginValue at h
  split at h
  case h_1 ht => cases h; rw [ht]; rfl
  case h_2 ht => cases h; rw [ht]; rfl
  case h_3 ht =>
    cases h
    exact single _ (by rw [ht, Tree.language_of_phrase? rfl]; rfl)
  case h_4 ht =>
    cases h
    exact single _ (by rw [ht, Tree.language_of_phrase? rfl]; rfl)
  case h_5 ht =>
    cases h
    exact single _ (by rw [ht, Tree.language_of_phrase? rfl]; rfl)
  case h_6 ht =>
    cases h
    exact single _ (by rw [ht, Tree.language_of_phrase? rfl]; rfl)
  all_goals cases h

theorem language_beginKey {start : Nat} {members : List Entry} {frames : List Frame}
    (h : beginKey start members frames l = some (.inl q)) :
    Frame.languages frames * Frame.openObject members * (l.token.language * blanks) ≤
      q.language := by
  unfold beginKey at h
  split at h
  · next ht => cases h; rw [ht]; rfl
  · split at h <;> cases h
  · cases h

/-- What has been read up to a lexeme that is due, and the lexeme, are known after it. -/
theorem language_accept (h : p.accept l = some (.inl q)) :
    p.language * (l.token.language * blanks) ≤ q.language := by
  cases accepts_of_accept h with
  | value begun => exact language_beginValue begun
  | firstItem begun =>
    have hbegin := language_beginValue begun
    rwa [Frame.languages, Frame.language, Frame.openList, List.map_nil, followed, mul_one]
      at hbegin
  | @emptyList start frames token =>
    have hphrase : (Tree.list start (.closed l.stop)).phrase? = some (.list []) := rfl
    simp only [language, token, Token.language, Tree.entry, Tree.language_of_phrase? hphrase,
      Phrase.language, Phrase.languages, separated, mul_one, mul_assoc, le_refl]
  | nextItem token =>
    simp only [language, token, Token.language, Frame.languages, Frame.language, Frame.openList,
      List.map_cons, followed, mul_assoc, le_refl]
  | @endOfList v start items frames token =>
    have hclosed := Tree.list_closed start l.stop v items
    calc _ = Frame.languages frames *
          (Frame.openList items * v.entry * mark ']' * blanks) := by
          simp only [language, token, Token.language, Frame.languages, Frame.language, mul_assoc]
      _ ≤ _ := mul_le_mul_right (mul_le_mul_left hclosed _) _
  | nextMember token =>
    simp only [language, token, Token.language, Frame.languages, Frame.language, Frame.openObject,
      List.map_cons, followed, Entry.member, mul_assoc, le_refl]
  | @endOfObject v start members k colon frames token =>
    have hclosed := Tree.object_closed start l.stop ⟨k, colon, v, l.start⟩ members
    calc _ = Frame.languages frames * (Frame.openObject members *
          Entry.member ⟨k, colon, v, l.start⟩ * mark '\x7d' * blanks) := by
          simp only [language, token, Token.language, Frame.languages, Frame.language,
            Entry.member, mul_assoc]
      _ ≤ _ := mul_le_mul_right (mul_le_mul_left hclosed _) _
  | @emptyObject start frames token =>
    have hphrase : (Tree.object start (.closed l.stop)).phrase? = some (.object []) := rfl
    simp only [language, token, Token.language, Tree.entry, Tree.language_of_phrase? hphrase,
      Phrase.language, Phrase.memberLanguages, separated, mul_one, mul_assoc, le_refl]
  | firstKey begun =>
    have hbegin := language_beginKey begun
    rwa [Frame.openObject, List.map_nil, followed, mul_one] at hbegin
  | key begun => exact language_beginKey begun
  | colon token =>
    simp only [language, token, Token.language, Frame.languages, Frame.language, Grammar.key,
      mul_assoc, le_refl]

/-- Blanks after what has been read change nothing. -/
theorem language_blanks (p : Progress) : p.language * blanks ≤ p.language := by
  have hblanks := blanks_mul_blanks
  have hbracket (c : Char) : mark c * blanks * blanks ≤ mark c * blanks := mul_blanks_le _ hblanks
  cases p with
  | atValue frames =>
    cases frames with
    | nil => exact hblanks
    | cons frame frames =>
      cases frame with
      | list start items => exact mul_blanks_le _ (followed_blanks (hbracket '[') _)
      | object start members k colon =>
        have hkey : key k.toOption * blanks ≤ key k.toOption := mul_blanks_le _ hblanks
        exact mul_blanks_le _ (mul_blanks_le _ hkey)
  | atFirstItem start frames => exact mul_blanks_le _ (hbracket '[')
  | afterValue v frames => exact mul_blanks_le _ (mul_blanks_le _ hblanks)
  | atFirstKey start frames => exact mul_blanks_le _ (hbracket '\x7b')
  | atKey start members frames => exact mul_blanks_le _ (followed_blanks (hbracket '\x7b') _)
  | atColon start members k frames => exact mul_blanks_le _ (mul_blanks_le _ hblanks)

theorem isLast_of_accept (h : p.accept l = some (.inl q)) : Lexeme.isLast l.token = false := by
  have begins {frames : List Frame} (h : beginValue frames l = some (.inl q)) :
      Lexeme.isLast l.token = false := by
    cases ht : l.token <;> simp [beginValue, ht] at h <;> rfl
  have beginsKey {start : Nat} {members : List Entry} {frames : List Frame}
      (h : beginKey start members frames l = some (.inl q)) : Lexeme.isLast l.token = false := by
    cases ht : l.token <;> simp [beginKey, ht] at h
    rfl
  cases accepts_of_accept h with
  | value begun => exact begins begun
  | firstItem begun => exact begins begun
  | firstKey begun => exact beginsKey begun
  | key begun => exact beginsKey begun
  | _ token => rw [token]; rfl

end Progress

namespace Source

/-! A text with a fault in it cannot be passed over. -/

theorem skip_ofFaulty {value : Tree} (fault : Fault) (frames : List Frame)
    (h : value.skip ≠ .ok ()) : (ofFaulty value fault frames).tree.skip ≠ .ok () := by
  have hcut (frame : Frame) (value : Tree) : (frame.cut fault value).skip = .error fault := by
    cases frame with
    | list start items => exact Items.skip_ofReversed (value :: items) (.cut fault)
    | object start members k colon => exact Members.skip_ofReversed _ (.cut fault)
  unfold ofFaulty
  induction frames generalizing value with
  | nil => exact h
  | cons frame frames ih => exact ih (by rw [hcut]; exact nofun)

theorem skip_ofFaultyItems (start : Nat) (items : List Tree) {rest : Items} (fault : Fault)
    (frames : List Frame) (h : rest.skip ≠ .ok ()) :
    (ofFaultyItems start items rest fault frames).tree.skip ≠ .ok () :=
  skip_ofFaulty fault frames (by rwa [Tree.skip, Items.skip_ofReversed])

theorem skip_ofFaultyMembers (start : Nat) (members : List Entry) {rest : Members} (fault : Fault)
    (frames : List Frame) (h : rest.skip ≠ .ok ()) :
    (ofFaultyMembers start members rest fault frames).tree.skip ≠ .ok () :=
  skip_ofFaulty fault frames (by rwa [Tree.skip, Members.skip_ofReversed])

theorem skip_of_accept {p : Progress} {l : Lexeme} {s : Source} (h : p.accept l = some (.inr s)) :
    s.tree.skip ≠ .ok () := by
  have value {frames : List Frame} (h : Progress.beginValue frames l = some (.inr s)) :
      s.tree.skip ≠ .ok () := by
    unfold Progress.beginValue at h
    split at h <;> cases h
    exact skip_ofFaulty _ _ nofun
  have key {start : Nat} {members : List Entry} {frames : List Frame}
      (h : Progress.beginKey start members frames l = some (.inr s)) : s.tree.skip ≠ .ok () := by
    unfold Progress.beginKey at h
    split at h
    · cases h
    · split at h <;> cases h
      exact skip_ofFaultyMembers _ _ _ _ nofun
    · cases h
  cases Progress.accepts_of_accept h with
  | value begun => exact value begun
  | firstItem begun => exact value begun
  | firstKey begun => exact key begun
  | key begun => exact key begun

/-- Only after the outermost value may a text end, and nothing may follow. -/
theorem exists_of_stop {p : Progress} {place : Nat} {found : Option Char}
    (hskip : (p.stop place found).tree.skip = .ok ())
    (hexcess : (p.stop place found).excess = none) :
    ∃ T, p = .afterValue T [] ∧ found = none := by
  have hmissing (frames : List Frame) :
      (ofFaulty (.missing place found) (.noValue place found) frames).tree.skip ≠ .ok () :=
    skip_ofFaulty _ _ nofun
  have hkey (start : Nat) (members : List Entry) (frames : List Frame) :
      (ofFaultyMembers start members (.keyless place found) (.noKeyLoose place found)
        frames).tree.skip ≠ .ok () :=
    skip_ofFaultyMembers _ _ _ _ nofun
  unfold Progress.stop at hskip hexcess
  split at hskip
  · split at hskip
    · exact absurd hskip (skip_ofFaultyItems _ _ _ _ nofun)
    · exact absurd hskip (hmissing _)
  · exact absurd hskip (hmissing _)
  · split at hskip
    · exact absurd hskip (skip_ofFaultyItems _ _ _ _ nofun)
    · exact absurd hskip (hmissing _)
  · exact ⟨_, rfl, Option.map_eq_none_iff.mp hexcess⟩
  · exact absurd hskip (skip_ofFaultyItems _ _ _ _ nofun)
  · exact absurd hskip (skip_ofFaultyMembers _ _ _ _ nofun)
  · refine absurd hskip (skip_ofFaultyMembers _ _ _ _ ?_)
    split <;> exact nofun
  · exact absurd hskip (hkey _ _ _)
  · exact absurd hskip (skip_ofFaultyMembers _ _ _ _ nofun)

open Lexeme (scan scanAll isSpace)

/-- A text that is read to its end is one of the phrase of its tree; `done` has been read. -/
theorem mem_document_of_build (size place : Nat) (rest : List Char) {p : Progress}
    {done : List Char} (hdone : done ∈ p.language)
    (hskip : (build size p (scanAll place place rest)).tree.skip = .ok ())
    (hexcess : (build size p (scanAll place place rest)).excess = none) :
    ∃ P, (build size p (scanAll place place rest)).tree.phrase? = some P ∧
      done ++ rest ∈ P.document := by
  cases rest with
  | nil =>
    -- the text may end only after its value, which is then known
    obtain ⟨T, rfl, -⟩ := exists_of_stop hskip hexcess
    obtain ⟨bs, hbs, cs, hcs, rfl⟩ := Language.mem_mul.mp hdone
    obtain ⟨P, hP, hcs⟩ := Tree.exists_of_mem_entry T cs hcs
    refine ⟨P, hP, ?_⟩
    rw [List.append_nil, Phrase.document, mul_assoc]
    exact Language.append_mem_mul hbs hcs
  | cons c cs =>
    cases hc : isSpace c with
    | true =>
      have hall : scanAll place place (c :: cs) =
          scanAll (place + c.utf8Size) (place + c.utf8Size) cs := by
        rw [scanAll, if_pos (by simp [hc]), Lexeme.scanAll_resume (Nat.le_add_right _ _)]
      have hblank : [c] ∈ blanks := fun d hd => List.mem_singleton.mp hd ▸ hc
      have hread := p.language_blanks (Language.append_mem_mul hdone hblank)
      rw [hall] at hskip hexcess ⊢
      obtain ⟨P, hP, hmem⟩ := mem_document_of_build size _ cs hread hskip hexcess
      rw [List.append_assoc, List.singleton_append] at hmem
      exact ⟨P, hP, hmem⟩
    | false =>
      -- only a lexeme that leads on can be followed by anything
      cases haccept : p.accept (scan place c cs) with
      | none =>
        obtain ⟨ls, hls⟩ := Lexeme.exists_scanAll_cons place cs hc
        rw [hls, build, haccept] at hskip hexcess
        obtain ⟨_, -, hfound⟩ := exists_of_stop hskip hexcess
        cases hfound
      | some next =>
        cases next with
        | inr s =>
          obtain ⟨ls, hls⟩ := Lexeme.exists_scanAll_cons place cs hc
          rw [hls, build, haccept] at hskip
          exact absurd hskip (skip_of_accept haccept)
        | inl q =>
          have hlast := Progress.isLast_of_accept haccept
          obtain ⟨w, rest, rfl, hcovers⟩ := Lexeme.covers_scan hlast
          have hall := Lexeme.scanAll_of_scan hc rfl hlast hcovers.stop
          rw [← List.cons_append, hall, build, haccept] at hskip hexcess ⊢
          have hlexeme := Language.append_mem_mul hcovers.language nil_mem_blanks
          have hread := Progress.language_accept haccept (Language.append_mem_mul hdone hlexeme)
          have hlt : rest.length < (c :: (w ++ rest)).length := by simp
          obtain ⟨P, hP, hmem⟩ := mem_document_of_build size _ rest hread hskip hexcess
          rw [List.append_nil, List.append_assoc] at hmem
          exact ⟨P, hP, hmem⟩
termination_by rest.length

/-- The texts that are read as a phrase, and nothing else, are those of the grammar. -/
theorem mem_document_iff {text : String} {P : Phrase} : text.toList ∈ P.document ↔
    (ofText text).tree.phrase? = some P ∧ (ofText text).excess = none := by
  refine ⟨ofText_of_mem, fun h => ?_⟩
  obtain ⟨hP, hexcess⟩ := h
  have hskip := Tree.skip_of_phrase? hP
  obtain ⟨Q, hQ, hmem⟩ := mem_document_of_build text.utf8ByteSize 0 text.toList
    (p := .atValue []) nil_mem_blanks hskip hexcess
  obtain rfl := Option.some.inj (hP.symm.trans hQ)
  exact hmem

/-- A text that can be passed over is one of the grammar. -/
theorem exists_mem_document {text : String} (hskip : (ofText text).tree.skip = .ok ())
    (hexcess : (ofText text).excess = none) : ∃ P : Phrase, text.toList ∈ P.document := by
  obtain ⟨P, -, hmem⟩ := mem_document_of_build text.utf8ByteSize 0 text.toList
    (p := .atValue []) nil_mem_blanks hskip hexcess
  exact ⟨P, hmem⟩

end Source

end DeckDoc.Json
