import DeckDoc.Proofs.Document.Joined

namespace DeckDoc

namespace Placeholders

def text (p : Placeholders) : Key → String
  | .name => p.name
  | .description => p.description
  | .notes => p.notes

/-- The two have different texts for the given placeholder and the same ones for all others. -/
def DifferOnlyIn (key : Key) (p q : Placeholders) : Prop :=
  ∀ other, p.text other = q.text other ↔ other ≠ key

theorem DifferOnlyIn.ne {key : Key} {p q : Placeholders} (h : DifferOnlyIn key p q) :
    p.text key ≠ q.text key := fun he => (h key).mp he rfl

theorem DifferOnlyIn.eq_of_ne {key other : Key} {p q : Placeholders} (h : DifferOnlyIn key p q)
    (hother : other ≠ key) : p.text other = q.text other := (h other).mpr hother

end Placeholders

namespace Document

/-- The sections between the summary and the notes, a blank line after each. -/
def middle (d : Document) : String := String.join (d.blocks.map fun b => b.text ++ "\n\n")

theorem markdown_eq_middle (d : Document) :
    d.markdown = "# " ++ d.title ++ "\n\n" ++ d.summary ++ "\n\n" ++ d.middle ++
      "## Notes\n\n*" ++ d.notes ++ "*\n" := by
  have hfront : String.join (d.frontParts.map (· ++ "\n\n")) =
      "# " ++ d.title ++ "\n\n" ++ d.summary ++ "\n\n" ++ d.middle := by
    apply String.toList_inj.mp
    simp [frontParts, middle, titlePart, Function.comp_def]
  have hne : d.frontParts ≠ [] := List.cons_ne_nil _ _
  rw [markdown_eq_intercalate, parts_eq_append,
    String.intercalate_append_of_ne_nil hne (List.cons_ne_nil _ _), String.intercalate_singleton,
    ← Text.join_append_separator _ hne, hfront]
  apply String.toList_inj.mp
  simp [notesPart]

end Document

theorem nonEmpty_eq_none_iff {o : Option String} : nonEmpty o = none ↔ o = none ∨ o = some "" := by
  cases o <;> simp [nonEmpty]

theorem nonEmpty_eq_some_iff {o : Option String} {s : String} :
    nonEmpty o = some s ↔ o = some s ∧ s ≠ "" := by
  simp [nonEmpty, Option.filter_eq_some_iff]

namespace Keyword

theorem summaryKind_eq_placeholder_iff (k : Keyword) :
    k.summaryKind = .placeholder ↔ (k.description = none ∨ k.description = some "") ∧
      (k.comment = none ∨ k.comment = some "") := by
  rw [← nonEmpty_eq_none_iff, ← nonEmpty_eq_none_iff, summaryKind]
  cases nonEmpty k.description <;> cases nonEmpty k.comment <;> simp

/-- Whether the keyword itself does not say what the placeholder stands for. -/
def Needs (k : Keyword) : Placeholders.Key → Prop
  | .name => k.name = none
  | .description => k.summaryKind = .placeholder
  | .notes => True

/-- The text of a document in the place where a placeholder may stand. -/
def shown (k : Keyword) (p : Placeholders) : Placeholders.Key → String
  | .name => k.name.getD p.name
  | .description => k.summary p
  | .notes => p.notes

theorem shown_eq_iff (k : Keyword) (p q : Placeholders) (key : Placeholders.Key) :
    k.shown p key = k.shown q key ↔ (k.Needs key → p.text key = q.text key) := by
  cases key with
  | name => cases hname : k.name <;> simp [shown, Needs, Placeholders.text, hname]
  | description =>
    cases hkind : k.summaryKind <;>
      simp [shown, Needs, Placeholders.text, summary, hkind, String.append_left_inj,
        String.append_right_inj]
  | notes => simp [shown, Needs, Placeholders.text]

/-- Only the three shown texts depend on the placeholders. -/
theorem markdown_eq_shown (k : Keyword) (c : Config) :
    k.markdown c = "# " ++ k.shown c.placeholders .name ++ "\n\n" ++
      k.shown c.placeholders .description ++ "\n\n" ++ (Document.ofKeyword {} k).middle ++
      "## Notes\n\n*" ++ k.shown c.placeholders .notes ++ "*\n" :=
  (Document.ofKeyword c k).markdown_eq_middle

/-- Placeholders that are not needed leave the document as it is. -/
theorem markdown_eq_of_needed_eq {k : Keyword} {c d : Config}
    (h : ∀ key, k.Needs key → c.placeholders.text key = d.placeholders.text key) :
    k.markdown c = k.markdown d := by
  have hshown : k.shown c.placeholders = k.shown d.placeholders :=
    funext fun key => (k.shown_eq_iff _ _ key).mpr (h key)
  rw [markdown_eq_shown, markdown_eq_shown, hshown]

/-- What stands around a shown text is cancelled, also where the text looks like a part of it. -/
theorem shown_eq_of_markdown_eq {k : Keyword} {c d : Config} {key : Placeholders.Key}
    (hothers : ∀ other, other ≠ key →
      k.shown c.placeholders other = k.shown d.placeholders other)
    (h : k.markdown c = k.markdown d) :
    k.shown c.placeholders key = k.shown d.placeholders key := by
  rw [markdown_eq_shown, markdown_eq_shown] at h
  cases key with
  | name =>
    simpa only [hothers .description (by decide), hothers .notes (by decide),
      String.append_left_inj, String.append_right_inj] using h
  | description =>
    simpa only [hothers .name (by decide), hothers .notes (by decide),
      String.append_left_inj, String.append_right_inj] using h
  | notes =>
    simpa only [hothers .name (by decide), hothers .description (by decide),
      String.append_left_inj, String.append_right_inj] using h

theorem markdown_ne_iff_needs {key : Placeholders.Key} {c d : Config}
    (h : Placeholders.DifferOnlyIn key c.placeholders d.placeholders) (k : Keyword) :
    k.markdown c ≠ k.markdown d ↔ k.Needs key := by
  constructor
  · intro hne
    by_contra hneeds
    refine hne (markdown_eq_of_needed_eq fun other hother => h.eq_of_ne ?_)
    rintro rfl
    exact hneeds hother
  · intro hneeds heq
    have hothers : ∀ other, other ≠ key →
        k.shown c.placeholders other = k.shown d.placeholders other := fun other hother =>
      (k.shown_eq_iff _ _ other).mpr fun _ => h.eq_of_ne hother
    exact h.ne ((k.shown_eq_iff _ _ key).mp (shown_eq_of_markdown_eq hothers heq) hneeds)

/-- A change of one placeholder changes the documents of exactly those keywords that leave out what
it stands for. -/
theorem markdown_ne_iff_placeholder_needed (k : Keyword) (c d : Config) :
    (Placeholders.DifferOnlyIn .name c.placeholders d.placeholders →
      (k.markdown c ≠ k.markdown d ↔ k.name = none)) ∧
    (Placeholders.DifferOnlyIn .description c.placeholders d.placeholders →
      (k.markdown c ≠ k.markdown d ↔ k.summaryKind = .placeholder) ∧
      (k.markdown c ≠ k.markdown d ↔ (k.description = none ∨ k.description = some "") ∧
        (k.comment = none ∨ k.comment = some ""))) ∧
    (Placeholders.DifferOnlyIn .notes c.placeholders d.placeholders →
      k.markdown c ≠ k.markdown d) := by
  refine ⟨fun h => markdown_ne_iff_needs h k, fun h => ?_, fun h => ?_⟩
  · have hkind := markdown_ne_iff_needs h k
    exact ⟨hkind, hkind.trans k.summaryKind_eq_placeholder_iff⟩
  · exact (markdown_ne_iff_needs h k).mpr trivial

theorem markdown_ne_of_empty_description :
    (Placeholders.DifferOnlyIn .name {} { name := "" } ∧
      ({ description := some "" } : Keyword).markdown {} ≠
        ({ description := some "" } : Keyword).markdown ⟨{ name := "" }⟩) ∧
    (Placeholders.DifferOnlyIn .description {} { description := "\n\n## Notes" } ∧
      ({ description := some "" } : Keyword).markdown {} ≠
        ({ description := some "" } : Keyword).markdown ⟨{ description := "\n\n## Notes" }⟩) ∧
    Placeholders.DifferOnlyIn .notes {} { notes := " \n" } ∧
      ({ description := some "" } : Keyword).markdown {} ≠
        ({ description := some "" } : Keyword).markdown ⟨{ notes := " \n" }⟩ := by
  have hname : Placeholders.DifferOnlyIn .name {} { name := "" } := by
    intro other
    cases other <;> decide
  have hdescription :
      Placeholders.DifferOnlyIn .description {} { description := "\n\n## Notes" } := by
    intro other
    cases other <;> decide
  have hnotes : Placeholders.DifferOnlyIn .notes {} { notes := " \n" } := by
    intro other
    cases other <;> decide
  obtain ⟨hn, -, -⟩ := markdown_ne_iff_placeholder_needed { description := some "" } {}
    ⟨{ name := "" }⟩
  obtain ⟨-, hd, -⟩ := markdown_ne_iff_placeholder_needed { description := some "" } {}
    ⟨{ description := "\n\n## Notes" }⟩
  obtain ⟨-, -, ht⟩ := markdown_ne_iff_placeholder_needed { description := some "" } {}
    ⟨{ notes := " \n" }⟩
  exact ⟨⟨hname, (hn hname).mpr rfl⟩, ⟨hdescription, (hd hdescription).1.mpr rfl⟩,
    hnotes, ht hnotes⟩

-- A change of two placeholders may be lost: each takes over what the other one gives up.
example : ({} : Keyword).markdown ⟨{ name := "A", description := "B*\n\n*C" }⟩ =
    ({} : Keyword).markdown ⟨{ name := "A\n\n*B*", description := "C" }⟩ := by decide +kernel

end Keyword

end DeckDoc
