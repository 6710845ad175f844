import DeckDoc.Proofs.Document.Outline

namespace DeckDoc

namespace Text

/-- The last character of a text is there and is not white space. -/
def EndsInText (s : String) : Prop :=
  ∃ front c, s = front ++ String.singleton c ∧ isBlank c = false

theorem EndsInText.append_left {t : String} (h : EndsInText t) (s : String) :
    EndsInText (s ++ t) := by
  obtain ⟨front, c, rfl, hc⟩ := h
  exact ⟨s ++ front, c, (String.append_assoc ..).symm, hc⟩

theorem EndsInText.trimEnd_eq {s : String} (h : EndsInText s) : trimEnd s = s := by
  obtain ⟨front, c, rfl, hc⟩ := h
  exact trimEnd_append_singleton front c hc

/-- Whatever the texts before the last one end in is kept between the separators. -/
theorem EndsInText.intercalate {t : String} (h : EndsInText t) (sep : String) (ss : List String) :
    EndsInText (sep.intercalate (ss ++ [t])) := by
  cases ss with
  | nil => simpa using h
  | cons s ss =>
    rw [String.intercalate_append_of_ne_nil (List.cons_ne_nil s ss) (List.cons_ne_nil t []),
      String.intercalate_singleton]
    exact h.append_left _

/-- A separator after every text is one between any two and one more at the end. -/
theorem join_append_separator (sep : String) {ss : List String} (h : ss ≠ []) :
    String.join (ss.map (· ++ sep)) = sep.intercalate ss ++ sep := by
  induction ss with
  | nil => exact absurd rfl h
  | cons s ss ih =>
    cases ss with
    | nil => simp
    | cons t ss =>
      have hjoin : String.join ((s :: t :: ss).map (· ++ sep)) =
          s ++ sep ++ String.join ((t :: ss).map (· ++ sep)) := by
        apply String.toList_inj.mp
        simp
      rw [hjoin, ih (List.cons_ne_nil t ss), String.intercalate_cons_cons]
      simp only [String.append_assoc]

/-- Of texts with blanks after each of them the trim removes the blanks after the last one, as
long as that one has text at its end. -/
theorem trimEnd_join_append {sep : String} (hsep : ∀ c ∈ sep.toList, isBlank c = true)
    (ss : List String) {t : String} (ht : EndsInText t) :
    trimEnd (String.join ((ss ++ [t]).map (· ++ sep))) = sep.intercalate (ss ++ [t]) := by
  rw [join_append_separator sep (by simp), trimEnd_append_blank _ _ hsep,
    (ht.intercalate sep ss).trimEnd_eq]

end Text

namespace Document

theorem endsInText_notesPart (d : Document) : Text.EndsInText d.notesPart := by
  refine ⟨"## Notes\n\n*" ++ d.notes, '*', ?_, by decide⟩
  apply String.toList_inj.mp
  simp [notesPart]

/-- The parts before the notes. -/
def frontParts (d : Document) : List String := d.titlePart :: d.summary :: d.blocks.map Block.text

theorem parts_eq_append (d : Document) : d.parts = d.frontParts ++ [d.notesPart] := parts_eq d

theorem markdown_eq_intercalate (d : Document) :
    d.markdown = "\n\n".intercalate d.parts ++ "\n" := by
  rw [markdown, parts_eq_append,
    Text.trimEnd_join_append (List.all_eq_true.mp (by decide)) _ d.endsInText_notesPart]

theorem markdown_eq_front (d : Document) :
    ∃ rest, d.markdown = d.titlePart ++ "\n\n" ++ d.summary ++ "\n\n" ++ rest := by
  refine ⟨"\n\n".intercalate (d.blocks.map Block.text ++ [d.notesPart]) ++ "\n", ?_⟩
  rw [markdown_eq_intercalate, parts_eq]
  simp only [List.cons_append, String.intercalate_cons_cons,
    String.intercalate_cons_of_ne_nil (List.append_ne_nil_of_right_ne_nil _ (List.cons_ne_nil _ _)),
    String.append_assoc]

theorem markdown_eq_back (d : Document) : ∃ front, d.markdown = front ++ d.notesPart ++ "\n" := by
  refine ⟨"\n\n".intercalate d.frontParts ++ "\n\n", ?_⟩
  have hfront : d.frontParts ≠ [] := List.cons_ne_nil _ _
  rw [markdown_eq_intercalate, parts_eq_append,
    String.intercalate_append_of_ne_nil hfront (List.cons_ne_nil _ _),
    String.intercalate_singleton]

end Document

/-- Whatever the placeholders and the texts of a keyword are, the trim at the end of the document
takes the separator after the notes away and nothing else. -/
theorem Keyword.markdown_eq_joined_parts (config : Config) (k : Keyword) :
    k.markdown config = "\n\n".intercalate (Document.ofKeyword config k).parts ++ "\n" ∧
      (∃ rest, k.markdown config = "# " ++ k.name.getD config.placeholders.name ++ "\n\n" ++
        k.summary config.placeholders ++ "\n\n" ++ rest) ∧
      (∃ front, k.markdown config =
        front ++ "## Notes\n\n*" ++ config.placeholders.notes ++ "*\n") ∧
      ∃ front c, k.markdown config = front ++ String.singleton c ++ "\n" ∧
        Text.isBlank c = false := by
  obtain ⟨front, hfront⟩ := (Document.ofKeyword config k).markdown_eq_back
  have hmark : k.markdown config = front ++ "## Notes\n\n*" ++ config.placeholders.notes ++
      String.singleton '*' ++ "\n" := by
    refine hfront.trans ?_
    apply String.toList_inj.mp
    simp [Document.notesPart, Document.ofKeyword]
  refine ⟨(Document.ofKeyword config k).markdown_eq_intercalate,
    (Document.ofKeyword config k).markdown_eq_front, ⟨front, ?_⟩, ⟨_, '*', hmark, by decide⟩⟩
  rw [hmark]
  apply String.toList_inj.mp
  simp

end DeckDoc
