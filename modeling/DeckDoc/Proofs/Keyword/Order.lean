import DeckDoc.Document.Markdown
import DeckDoc.Proofs.Json.Order
import DeckDoc.Proofs.Keyword.Sizing

namespace DeckDoc

open Json

theorem Literal.ignoresOrder_reader : Literal.reader.IgnoresOrder := by
  intro room T U l h hd hl
  obtain ⟨v, hv, rfl⟩ := reader_eq_ok_iff.mp hl
  exact reader_eq_ok_iff.mpr ⟨v, Reader.ignoresOrder_value room T U v h hd hv, rfl⟩

/-- A reference is read out of members that have been put in order. -/
theorem Sizing.ignoresOrder_reader : Sizing.reader.IgnoresOrder := by
  intro room T U s h hd hs
  cases hv : T.value room with
  | error f => simp [reader, hv] at hs
  | ok v =>
    have hv' : U.value room = .ok v := Reader.ignoresOrder_value room T U v h hd hv
    simp only [reader, hv] at hs
    simp only [reader, hv']
    exact hs

theorem Item.ignoresOrder_reader : Item.reader.IgnoresOrder := by
  refine layout.ignoresOrder_reader (by decide) fun k => ?_
  have htext := Reader.ignoresOrder_text.optional.placed
  have hliteral := Literal.ignoresOrder_reader.optional
  cases k with
  | name | valueType | description | comment => exact htext
  | _ => exact hliteral

theorem CodeBlock.ignoresOrder_reader : CodeBlock.reader.IgnoresOrder := by
  refine layout.ignoresOrder_reader (by decide) fun k => ?_
  cases k with
  | terminator => exact Reader.ignoresOrder_text.optional.placed

theorem DataSpec.ignoresOrder_reader : DataSpec.reader.IgnoresOrder := by
  refine layout.ignoresOrder_reader (by decide) fun k => ?_
  cases k with
  | valueType => exact Reader.ignoresOrder_text.optional.placed
  | dimension | dimensions => exact Literal.ignoresOrder_reader.optional

namespace Keyword

theorem ignoresOrder_reader : Keyword.reader.IgnoresOrder := by
  refine layout.ignoresOrder_reader (by decide) fun k => ?_
  have htext := Reader.ignoresOrder_text.optional.placed
  have htexts := Reader.ignoresOrder_text.list.optional.placed
  have hrecords := Item.ignoresOrder_reader.list.list.optional.placed
  cases k with
  | name | description | comment | deckName | deckNameRegex => exact htext
  | deckNames | sections | requires | prohibits => exact htexts
  | size | numTables => exact Sizing.ignoresOrder_reader.optional
  | minSize => exact Literal.ignoresOrder_reader.optional
  | code => exact CodeBlock.ignoresOrder_reader.optional.placed
  | items => exact Item.ignoresOrder_reader.list.optional.placed
  | data => exact DataSpec.ignoresOrder_reader.optional.placed
  | records | recordsSet | alternatingRecords => exact hrecords

theorem ofText_eq_ok_of_reordered {s t : String} {k : Keyword}
    (ht : (Source.ofText t).excess = none)
    (h : (Source.ofText s).tree.Reordered (Source.ofText t).tree)
    (hd : (Source.ofText s).tree.Distinct) (hk : ofText s = .ok k) : ofText t = .ok k := by
  obtain ⟨hread, -⟩ := Reader.ofText_eq_ok_iff.mp hk
  exact Reader.ofText_eq_ok_iff.mpr ⟨ignoresOrder_reader _ _ _ _ h hd hread, ht⟩

/-- Of two texts that differ in nothing but the order of members, no key being repeated, either none
is a description or both are the same one, with the same document and the same JSON. -/
theorem ofText_of_reordered {s t : String} (hs : (Source.ofText s).excess = none)
    (ht : (Source.ofText t).excess = none)
    (h : (Source.ofText s).tree.Reordered (Source.ofText t).tree)
    (hd : (Source.ofText s).tree.Distinct) :
    (∃ f g, ofText s = .error f ∧ ofText t = .error g) ∨
      ∃ k l, ofText s = .ok k ∧ ofText t = .ok l ∧ k = l ∧
        (∀ config, k.markdown config = l.markdown config) ∧
        k.toValue.written = l.toValue.written := by
  cases hk : ofText s with
  | ok k =>
    have hl := ofText_eq_ok_of_reordered ht h hd hk
    exact .inr ⟨k, k, rfl, hl, rfl, fun _ => rfl, rfl⟩
  | error f =>
    cases hl : ofText t with
    | ok l =>
      have hk' := ofText_eq_ok_of_reordered hs h.symm (hd.of_reordered h) hl
      rw [hk] at hk'
      cases hk'
    | error g => exact .inl ⟨f, g, rfl, rfl⟩

theorem ofText_of_reordered_size :
    let s := "\x7b\"name\":\"A\",\"size\":\x7b\"keyword\":\"B\",\"item\":1\x7d\x7d"
    let t := "\x7b\"size\":\x7b\"item\":1,\"keyword\":\"B\"\x7d,\"name\":\"A\"\x7d"
    (Source.ofText s).tree.Reordered (Source.ofText t).tree ∧
      ((∃ f g, ofText s = .error f ∧ ofText t = .error g) ∨
        ∃ k l, ofText s = .ok k ∧ ofText t = .ok l ∧ k = l ∧
          (∀ config, k.markdown config = l.markdown config) ∧
          k.toValue.written = l.toValue.written) := by
  intro s t
  have hs : Source.ofText s =
      ⟨.object 0 (.member (.ok "name") 7 (.text (.ok "A") 8 11) 11
        (.member (.ok "size") 18
          (.object 19 (.member (.ok "keyword") 29 (.text (.ok "B") 30 33) 33
            (.member (.ok "item") 40 (.number (.ok (.integer 1)) 41 42) 42 (.closed 43)))) 43
          (.closed 44))), none⟩ := by cbv
  have ht : Source.ofText t =
      ⟨.object 0 (.member (.ok "size") 7
        (.object 8 (.member (.ok "item") 15 (.number (.ok (.integer 1)) 16 17) 17
          (.member (.ok "keyword") 27 (.text (.ok "B") 28 31) 31 (.closed 32)))) 32
        (.member (.ok "name") 39 (.text (.ok "A") 40 43) 43 (.closed 44))), none⟩ := by cbv
  have reordered : (Source.ofText s).tree.Reordered (Source.ofText t).tree := by
    rw [hs, ht]
    refine ⟨_, rfl, _, _, .swap _ _ [], ⟨_, _, _, rfl, rfl⟩, _, _, .refl _, ?_, rfl⟩
    exact ⟨_, rfl, _, _, .swap _ _ [], ⟨_, _, _, rfl, rfl⟩, _, _, .refl _, ⟨_, _, _, rfl, rfl⟩, rfl⟩
  have distinct : (Source.ofText s).tree.Distinct := by
    rw [hs]
    simp [Tree.Distinct, Members.Distinct, Members.keys]
  exact ⟨reordered, ofText_of_reordered (by rw [hs]) (by rw [ht]) reordered distinct⟩

end Keyword

end DeckDoc
