import DeckDoc.Proofs.Json.Last
import DeckDoc.Proofs.Keyword.Sizing

namespace DeckDoc

open Json

namespace Reference

/-- The keyword and the item are those of the last members with these labels. -/
structure LastRead (room : Nat) (ms : List (String × Tree)) (r : Reference) : Prop where
  keyword : Reader.text.last "keyword" room ms = .ok r.keyword
  item : Literal.reader.last "item" room ms = .ok r.item

variable {room : Nat} {T : Tree} {v : Value} {ms : List (String × Tree)}
  {vs : List (String × Value)} {r : Reference}

theorem last_keyword_iff (h : Alike (fun T v => T.value room = .ok v) ms vs) {o : Option String} :
    Reader.text.last "keyword" room ms = .ok o ↔
      (Value.merge vs).lookup "keyword" = none ∧ o = none ∨
        (Value.merge vs).lookup "keyword" = some (Value.ofOption .text o) := by
  have hrel := h.reverse.lookup "keyword"
  rw [Reader.last, Value.lookup_merge]
  generalize ms.reverse.lookup "keyword" = a, vs.reverse.lookup "keyword" = b at hrel
  cases hrel with
  | none => simp [Reader.given, eq_comm]
  | some hT => simp [Reader.given, Reader.optional_text_iff hT]

theorem last_item_iff (h : Alike (fun T v => T.value room = .ok v) ms vs) {o : Option Literal} :
    Literal.reader.last "item" room ms = .ok o ↔ o = item? (Value.merge vs) := by
  have hrel := h.reverse.lookup "item"
  rw [Reader.last, item?, Value.lookup_merge]
  generalize ms.reverse.lookup "item" = a, vs.reverse.lookup "item" = b at hrel
  cases hrel with
  | none => simp [Reader.given, eq_comm]
  | @some T v hT =>
    have hread : Literal.reader room T = .ok (Literal.classify v.merged) := by
      rw [Reader.inOrder_of_value hT]
      exact Literal.reader_eq_ok_iff.mpr ⟨v, hT, rfl⟩
    simp only [Reader.given, Reader.optional_eq_ok_iff, ne_eq, Reader.spelled_eq_null_iff hT, hread]
    cases v <;> simp

/-- Where all members are values, the reference is made of the last ones. -/
theorem ofMembers_merge_iff (h : Alike (fun T v => T.value room = .ok v) ms vs) :
    ofMembers (Value.merge vs) = .ok r ↔ LastRead room ms r := by
  rw [ofMembers_eq_ok_iff, ← last_item_iff h, ← last_keyword_iff h]
  constructor
  · intro hr
    exact ⟨hr.2, hr.1⟩
  · intro hr
    exact ⟨hr.item, hr.keyword⟩

section

variable (h : ((layout.known ms).map Prod.fst).Nodup)
include h

theorem forall_known_iff : (∀ f ∈ layout.known ms, ∃ c, layout.read f.1 room f.2 = .ok c) ↔
    (∀ T, (layout.known ms).lookup .keyword = some T →
      ∃ c, Reader.text.optional room T = .ok c) ∧
    ∀ T, (layout.known ms).lookup .item = some T →
      ∃ c, Literal.reader.optional room T = .ok c := by
  have htext (T : Tree) : (∃ c, layout.read .keyword room T = .ok c) ↔
      ∃ c, Reader.text.optional room T = .ok c := exists_congr fun _ => Reader.placed_eq_ok_iff
  simp only [← htext]
  constructor
  · intro hall
    have hread (k : Key) (T : Tree) (hT : (layout.known ms).lookup k = some T) :
        ∃ c, layout.read k room T = .ok c := hall (k, T) (Layout.mem_of_lookup hT)
    exact ⟨hread .keyword, hread .item⟩
  · rintro ⟨hkeyword, hitem⟩ ⟨k, T⟩ hf
    have hT := lookup_of_mem h hf
    cases k with
    | keyword => exact hkeyword T hT
    | item => exact hitem T hT

theorem lookup_known_eq (k : Key) :
    (layout.known ms).lookup k = ms.reverse.lookup k.label :=
  Layout.lookup_known_of_nodup (key?_label k) h

theorem last_keyword_eq_given : Reader.text.last "keyword" room ms =
    Reader.text.given room ((layout.known ms).lookup .keyword) := by
  rw [lookup_known_eq h]
  rfl

theorem last_item_eq_given : Literal.reader.last "item" room ms =
    Literal.reader.given room ((layout.known ms).lookup .item) := by
  rw [lookup_known_eq h]
  rfl

omit h in
theorem contentsOf_keyword (fields : List (Key × Tree)) : layout.contentsOf room fields .keyword =
    (fields.lookup .keyword).bind fun T => (Reader.text.optional room T).toOption := by
  simp only [← Reader.toOption_placed]
  rfl

/-- Where no key comes twice, a reference made of the known members is that of the last ones. -/
theorem make_known_iff : (∀ f ∈ layout.known ms, ∃ c, layout.read f.1 room f.2 = .ok c) ∧
    layout.make (layout.contentsOf room (layout.known ms)) = .ok r ↔ LastRead room ms r := by
  rw [forall_known_iff h]
  constructor
  · rintro ⟨⟨keyword, item⟩, hmake⟩
    have hmade : ofContents (layout.contentsOf room (layout.known ms)) = r := Except.ok.inj hmake
    constructor
    · rw [last_keyword_eq_given h, Reader.given_eq_ok_iff]
      rw [← contentsOf_keyword]
      exact ⟨keyword, congrArg Reference.keyword hmade⟩
    · rw [last_item_eq_given h, Reader.given_eq_ok_iff]
      exact ⟨item, congrArg Reference.item hmade⟩
  · rintro ⟨keyword, item⟩
    rw [last_keyword_eq_given h, Reader.given_eq_ok_iff, ← contentsOf_keyword] at keyword
    rw [last_item_eq_given h, Reader.given_eq_ok_iff] at item
    exact ⟨⟨keyword.1, item.1⟩, congrArg Except.ok (congrArg₂ Reference.mk keyword.2 item.2)⟩

end

/-- A reference is read from an object none of whose known keys comes twice. -/
theorem reader_object_iff (room : Nat) (h : T.isObject = true) :
    layout.reader (room + 1) T = .ok r ↔ ∃ ms, T.pairs? = some ms ∧
      (∀ m ∈ ms, layout.key? m.1 = none → m.2.skip = .ok ()) ∧
      ((layout.known ms).map Prod.fst).Nodup ∧ LastRead room ms r := by
  obtain ⟨start, members, rfl⟩ := Tree.isObject_iff.mp h
  rw [Layout.reader_eq_ok_iff (by decide)]
  constructor
  · rintro ⟨n, fields, hroom, hfields, hnodup, hmade⟩
    cases hroom
    cases hfields with
    | object hms hskip => exact ⟨_, hms, hskip, hnodup, (make_known_iff hnodup).mp hmade⟩
  · rintro ⟨ms, hms, hskip, hnodup, hlast⟩
    exact ⟨room, _, rfl, .object hms hskip, hnodup, (make_known_iff hnodup).mpr hlast⟩

end Reference

namespace Sizing

variable {room : Nat} {T : Tree}

/-- A sizing is read from an object all of whose members are values, whatever their keys. -/
theorem reader_object_iff (room : Nat) (h : T.isObject = true) {s : Sizing} :
    reader (room + 1) T = .ok s ↔ ∃ ms, T.pairs? = some ms ∧
      (∀ m ∈ ms, ∃ v, m.2.value room = .ok v) ∧
      ∃ r, s = .reference r ∧ Reference.LastRead room ms r := by
  simp only [reader_eq_ok_iff, Reader.value_object_iff h]
  constructor
  · rintro ⟨_, ⟨ms, vs, hms, hall, rfl⟩, hs⟩
    obtain ⟨r, hr, rfl⟩ := Except.map_eq_ok_iff.mp hs
    exact ⟨ms, hms, exists_alike_iff.mp ⟨vs, hall⟩, r, rfl,
      (Reference.ofMembers_merge_iff hall).mp hr⟩
  · rintro ⟨ms, hms, hvalues, r, rfl, hlast⟩
    obtain ⟨vs, hall⟩ :=
      (exists_alike_iff (R := fun (T : Tree) v => T.value room = .ok v)).mpr hvalues
    exact ⟨_, ⟨ms, vs, hms, hall, rfl⟩,
      Except.map_eq_ok_iff.mpr ⟨r, (Reference.ofMembers_merge_iff hall).mpr hlast, rfl⟩⟩

theorem ofText_eq_ok_iff {text : String} {s : Sizing} : ofText text = .ok s ↔
    reader depthLimit (Source.ofText text).tree = .ok s ∧ (Source.ofText text).excess = none := by
  simp only [ofText, Reader.readText, Except.bind_eq_ok_iff, Source.finish, pure, Except.pure]
  cases (Source.ofText text).excess <;> simp [Except.mapError]

/-- Anything but an object is a literal, and is refused as one. -/
theorem reader_of_not_object (h : T.isObject = false) :
    reader room T = (Literal.reader room T).map fixed := by
  rw [Literal.reader_eq_placed]
  unfold reader Reader.placed Reader.value
  dsimp only
  cases hv : T.value room with
  | error f => rfl
  | ok v =>
    have hne : ∀ members, v ≠ .object members := by
      rintro members rfl
      rw [Reader.isObject_of_value hv] at h
      cases h
    have hfixed : ofValue v = .ok (fixed (.classify v.merged)) :=
      ofValue_eq_ok_iff.mpr (.inr ⟨hne, rfl⟩)
    dsimp only
    rw [hfixed, Reader.inOrder_of_value hv]
    rfl

theorem ofText_of_not_object {text : String} (h : (Source.ofText text).tree.isObject = false) :
    ofText text = (Literal.reader.readText text).map fixed := by
  unfold ofText Reader.readText
  dsimp only
  rw [reader_of_not_object h]
  cases Literal.reader depthLimit (Source.ofText text).tree with
  | error r => rfl
  | ok l => cases (Source.ofText text).finish <;> rfl

end Sizing

/-! The two ways to read a reference from a text that is an object. -/

section

variable {text : String} (h : (Source.ofText text).tree.isObject = true)
include h

theorem Sizing.ofText_object_iff {s : Sizing} : Sizing.ofText text = .ok s ↔
    (Source.ofText text).IsWhole ∧
      (∀ m ∈ (Source.ofText text).tree.members, ∃ v, m.2.value (depthLimit - 1) = .ok v) ∧
      ∃ r, s = .reference r ∧
        Reference.LastRead (depthLimit - 1) (Source.ofText text).tree.members r := by
  rw [Sizing.ofText_eq_ok_iff]
  exact (and_congr_left' (Sizing.reader_object_iff (depthLimit - 1) h)).trans
    Source.exists_pairs?_iff

theorem Reference.ofText_object_iff {r : Reference} : Reference.ofText text = .ok r ↔
    (Source.ofText text).IsWhole ∧
      (∀ m ∈ (Source.ofText text).tree.members,
        Reference.layout.key? m.1 = none → m.2.skip = .ok ()) ∧
      ((Reference.layout.known (Source.ofText text).tree.members).map Prod.fst).Nodup ∧
      Reference.LastRead (depthLimit - 1) (Source.ofText text).tree.members r := by
  rw [Reference.ofText, Reader.ofText_eq_ok_iff]
  exact (and_congr_left' (Reference.reader_object_iff (depthLimit - 1) h)).trans
    Source.exists_pairs?_iff

end

namespace Reference

variable {room : Nat} {ms : List (String × Tree)} {r : Reference}

theorem exists_value_of_read {k : Key} {T : Tree} {c : k.Content}
    (h : layout.read k room T = .ok c) : ∃ v, T.value room = .ok v := by
  cases k with
  | keyword =>
    refine Reader.exists_value_of_optional ?_ (Reader.placed_eq_ok_iff.mp h)
    intro s hs
    exact ⟨.text s, Tree.value_eq_ok_iff.mpr
      ⟨.text s, Reader.text_eq_ok_iff.mp hs, Nat.zero_le _, rfl⟩⟩
  | item =>
    refine Reader.exists_value_of_optional ?_ h
    intro l hl
    obtain ⟨v, hv, -⟩ := Literal.reader_eq_ok_iff.mp hl
    exact ⟨v, hv⟩

theorem exists_value_of_lastRead (h : LastRead room ms r)
    (hnodup : ((layout.known ms).map Prod.fst).Nodup) {m : String × Tree} (hm : m ∈ ms) {k : Key}
    (hk : layout.key? m.1 = some k) : ∃ v, m.2.value room = .ok v := by
  have hf : (k, m.2) ∈ layout.known ms :=
    List.mem_filterMap.mpr ⟨m, hm, by rw [hk]; rfl⟩
  obtain ⟨c, hc⟩ := ((make_known_iff hnodup).mpr h).1 (k, m.2) hf
  exact exists_value_of_read hc

end Reference

namespace Sizing

/-- Anything but an object is a literal, read and refused as one. An object is a reference if it is
a value, and is made of the last members for its keyword and its item. -/
theorem ofText_eq_literal_or_reference (text : String) :
    (Lexeme.first? text ≠ some '\x7b' →
      ofText text = (Literal.reader.readText text).map fixed) ∧
    (Lexeme.first? text = some '\x7b' → ∀ s, ofText text = .ok s ↔
      (∃ v, Reader.value.ofText text = .ok v) ∧ ∃ r, s = .reference r ∧
        Reference.LastRead (depthLimit - 1) (Source.ofText text).tree.members r) := by
  rw [ne_eq, ← Source.isObject_ofText_iff, Bool.not_eq_true]
  refine ⟨ofText_of_not_object, ?_⟩
  intro h s
  rw [ofText_object_iff h, Reader.exists_ofText_iff h, and_assoc]

/-- The last keyword counts, and a list of objects is a literal. -/
theorem ofText_eq_literal_or_reference_of_repeated :
    let list := "[\x7b\"keyword\":\"A\"\x7d]"
    let object := "\x7b\"keyword\":\"A\",\"keyword\":\"B\"\x7d"
    Lexeme.first? list = some '[' ∧
      ofText list = (Literal.reader.readText list).map fixed ∧
      Lexeme.first? object = some '\x7b' ∧ ofText object = .ok (.reference ⟨some "B", none⟩) := by
  intro list object
  have hlist : Lexeme.first? list = some '[' := by decide
  have hobject : Lexeme.first? object = some '\x7b' := by decide
  have hvalue : Reader.value.ofText object = .ok (.object [("keyword", .text "B")]) := by
    unfold object
    cbv
  have hsource : Source.ofText object =
      ⟨.object 0 (.member (.ok "keyword") 10 (.text (.ok "A") 11 14) 14
        (.member (.ok "keyword") 24 (.text (.ok "B") 25 28) 28 (.closed 29))), none⟩ := by
    unfold object
    cbv
  refine ⟨hlist, (ofText_eq_literal_or_reference list).1 ?_, hobject,
    ((ofText_eq_literal_or_reference object).2 hobject _).mpr ⟨⟨_, hvalue⟩, _, rfl, ?_⟩⟩
  · rw [hlist]
    decide
  · rw [hsource]
    exact ⟨rfl, rfl⟩

/-- An object is read alike as a sizing and as a reference by itself if and only if the one does not
accept a key that comes twice and the other does not pass over a member that is no value. -/
theorem reads_reference_iff {text : String} (h : Lexeme.first? text = some '\x7b') :
    (∀ r, ofText text = .ok (.reference r) ↔ Reference.ofText text = .ok r) ↔
      ((∃ s, ofText text = .ok s) →
        ((Reference.layout.known (Source.ofText text).tree.members).map Prod.fst).Nodup) ∧
      ((∃ r, Reference.ofText text = .ok r) → ∀ m ∈ (Source.ofText text).tree.members,
        Reference.layout.key? m.1 = none → ∃ v, m.2.value (depthLimit - 1) = .ok v) := by
  have hobject := (Source.isObject_ofText_iff text).mpr h
  constructor
  · intro hagree
    constructor
    · rintro ⟨s, hs⟩
      obtain ⟨-, -, r, rfl, -⟩ := (ofText_object_iff hobject).mp hs
      obtain ⟨-, -, hnodup, -⟩ := (Reference.ofText_object_iff hobject).mp ((hagree r).mp hs)
      exact hnodup
    · rintro ⟨r, hr⟩ m hm -
      obtain ⟨-, hvalues, -⟩ := (ofText_object_iff hobject).mp ((hagree r).mpr hr)
      exact hvalues m hm
  · rintro ⟨hdistinct, hreadable⟩ r
    constructor
    · intro hs
      have hnodup := hdistinct ⟨_, hs⟩
      obtain ⟨hwhole, hvalues, r', hr', hlast⟩ := (ofText_object_iff hobject).mp hs
      cases hr'
      refine (Reference.ofText_object_iff hobject).mpr ⟨hwhole, ?_, hnodup, hlast⟩
      intro m hm _
      obtain ⟨v, hv⟩ := hvalues m hm
      exact Tree.skip_of_value hv
    · intro hr
      obtain ⟨hwhole, -, hnodup, hlast⟩ := (Reference.ofText_object_iff hobject).mp hr
      refine (ofText_object_iff hobject).mpr ⟨hwhole, ?_, r, rfl, hlast⟩
      intro m hm
      cases hk : Reference.layout.key? m.1 with
      | none => exact hreadable ⟨r, hr⟩ m hm hk
      | some k => exact Reference.exists_value_of_lastRead hlast hnodup hm hk

/-- An unknown member that is a value does no harm. -/
theorem reads_reference_of_unknown :
    let text := "\x7b\"keyword\":\"A\",\"x\":[1]\x7d"
    Lexeme.first? text = some '\x7b' ∧
      ∀ r, ofText text = .ok (.reference r) ↔ Reference.ofText text = .ok r := by
  intro text
  have hfirst : Lexeme.first? text = some '\x7b' := by decide
  have hsource : Source.ofText text =
      ⟨.object 0 (.member (.ok "keyword") 10 (.text (.ok "A") 11 14) 14
        (.member (.ok "x") 18 (.list 19 (.item (.number (.ok (.integer 1)) 20 21) (.closed 22))) 22
          (.closed 23))), none⟩ := by
    unfold text
    cbv
  refine ⟨hfirst, (reads_reference_iff hfirst).mpr ?_⟩
  rw [hsource]
  refine ⟨fun _ => by decide, fun _ => List.forall_mem_cons.mpr ⟨?_, ?_⟩⟩
  · intro _
    exact ⟨.text "A", rfl⟩
  · refine List.forall_mem_singleton.mpr fun _ => ?_
    exact ⟨.list [.number (.integer 1)], rfl⟩

/-- A key that comes twice is refused in a reference by itself only, and a number out of range that
no key asks for is refused in a sizing only. -/
theorem reads_reference_differently :
    ofText "\x7b\"keyword\":\"A\",\"keyword\":\"B\"\x7d" = .ok (.reference ⟨some "B", none⟩) ∧
      Reference.ofText "\x7b\"keyword\":\"A\",\"keyword\":\"B\"\x7d" =
        .error ⟨.duplicateField "keyword", 24⟩ ∧
      ofText "\x7b\"keyword\":\"A\",\"x\":1e999\x7d" =
        .error (.ofFault ⟨.numberOutOfRange, 24⟩) ∧
      Reference.ofText "\x7b\"keyword\":\"A\",\"x\":1e999\x7d" = .ok ⟨some "A", none⟩ := by
  refine ⟨?_, ?_, ?_, ?_⟩ <;> cbv

end Sizing

end DeckDoc
