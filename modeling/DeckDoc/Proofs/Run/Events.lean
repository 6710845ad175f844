import DeckDoc.Proofs.CommandLine
import DeckDoc.Proofs.Document.Placeholders

namespace DeckDoc

open Command

variable {tree : FileTree} {input output : String} {k : Keyword}

namespace Keyword

/-- Which text of a keyword its summary is taken from, and the paragraph that is made of it. -/
inductive SummaryFrom (k : Keyword) : SummaryKind → String → Prop
  | described {s : String} (h : k.description = some s) (hs : s ≠ "") :
      SummaryFrom k .described s
  | commented {s : String} (hd : k.description = none ∨ k.description = some "")
      (h : k.comment = some s) (hs : s ≠ "") : SummaryFrom k .commented ("*" ++ s ++ "*")
  | placeholder (hd : k.description = none ∨ k.description = some "")
      (hc : k.comment = none ∨ k.comment = some "") :
      SummaryFrom k .placeholder ("*" ++ ({} : Placeholders).description ++ "*")

/-- The kind of summary that is reported is the one that is shown. -/
theorem summaryFrom_summaryKind (k : Keyword) : k.SummaryFrom k.summaryKind (k.summary {}) := by
  cases hdescription : nonEmpty k.description with
  | some s =>
    obtain ⟨hd, hs⟩ := nonEmpty_eq_some_iff.mp hdescription
    have hkind : k.summaryKind = .described := by simp [summaryKind, hdescription]
    have hsummary : k.summary {} = s := by simp [summary, hkind, hdescription]
    rw [hkind, hsummary]
    exact .described hd hs
  | none =>
    have hd := nonEmpty_eq_none_iff.mp hdescription
    cases hcomment : nonEmpty k.comment with
    | some s =>
      obtain ⟨hc, hs⟩ := nonEmpty_eq_some_iff.mp hcomment
      have hkind : k.summaryKind = .commented := by simp [summaryKind, hdescription, hcomment]
      have hsummary : k.summary {} = "*" ++ s ++ "*" := by simp [summary, hkind, hcomment]
      rw [hkind, hsummary]
      exact .commented hd hc hs
    | none =>
      have hkind : k.summaryKind = .placeholder := by simp [summaryKind, hdescription, hcomment]
      have hsummary : k.summary {} = "*" ++ ({} : Placeholders).description ++ "*" := by
        simp [summary, hkind]
      rw [hkind, hsummary]
      exact .placeholder hd (nonEmpty_eq_none_iff.mp hcomment)

/-- The events about a keyword from a path: it was read, it has no name if there is none, and it
was written as a document. -/
def account (k : Keyword) (input : String) (kind : SummaryKind) (bytes : Nat) : List Event :=
  match k.name with
  | none => [.loaded input "", .unnamed input, .rendered kind bytes]
  | some name => [.loaded input name, .rendered kind bytes]

theorem events_eq_account (k : Keyword) (input markdown : String) :
    k.events input markdown = k.account input k.summaryKind markdown.toUTF8.size := by
  rw [events, account]
  cases k.name <;> rfl

theorem level_account (k : Keyword) (input : String) (kind : SummaryKind) (bytes : Nat) :
    (k.account input kind bytes).map Event.level =
      if k.name = none then [.debug, .warn, .debug] else [.debug, .debug] := by
  rw [account]
  cases k.name <;> rfl

end Keyword

theorem run_events_of_load (h : Keyword.load tree input = .ok k) (output : String) :
    (run tree input output).events = k.events input (k.markdown {}) := by
  cases htarget : tree.target output with
  | error fault => rw [run_of_target_error h htarget]
  | ok place => rw [run_of_target_ok h htarget]

theorem file?_run_of_load (h : Keyword.load tree input = .ok k)
    (hok : (run tree input output).result = .ok ()) :
    (run tree input output).tree.file? output = some (k.markdown {}).toUTF8 := by
  cases htarget : tree.target output with
  | error fault =>
    rw [run_of_target_error h htarget] at hok
    cases hok
  | ok place =>
    rw [run_of_target_ok h htarget]
    exact FileTree.file?_put_of_leads (FileTree.get?_ne_directory_of_target htarget)
      (FileTree.target_eq_ok_iff.mp htarget).2

/-- What is logged, with and without a file to write, about a keyword that could be read: the kind
of its summary and the length of its document are those of the document itself. -/
structure LogTells (tree : FileTree) (input : String) (k : Keyword) (kind : SummaryKind)
    (bytes : Nat) : Prop where
  summary : ∃ paragraph, k.SummaryFrom kind paragraph ∧
    k.markdown {} = "# " ++ k.name.getD "UNKNOWN" ++ "\n\n" ++ paragraph ++ "\n\n" ++
      (Document.ofKeyword {} k).middle ++ "## Notes\n\n*" ++ ({} : Placeholders).notes ++ "*\n"
  size : bytes = (k.markdown {}).toUTF8.size
  events : ∀ output, (run tree input output).events = k.account input kind bytes
  levels : ∀ output, (run tree input output).events.map Event.level =
    if k.name = none then [.debug, .warn, .debug] else [.debug, .debug]
  written : ∀ output, (run tree input output).result = .ok () →
    ∃ content, (run tree input output).tree.file? output = some content ∧ content.size = bytes
  printed : ∀ args setting, Asks args input none →
    (program tree args setting).stderr =
        logLines (LogSetting.ofText setting) (k.account input kind bytes) ∧
      (program tree args setting).stdout = k.markdown {} ++ "\n"

theorem logTells_of_load (h : Keyword.load tree input = .ok k) :
    LogTells tree input k k.summaryKind (k.markdown {}).toUTF8.size where
  summary := ⟨_, k.summaryFrom_summaryKind, (Document.ofKeyword {} k).markdown_eq_middle⟩
  size := rfl
  events output := by
    rw [run_events_of_load h, Keyword.events_eq_account]
  levels output := by
    rw [run_events_of_load h, Keyword.events_eq_account, Keyword.level_account]
  written output hok := ⟨_, file?_run_of_load h hok, rfl⟩
  printed args setting hasks := by
    have hcommand := ofArguments_eq_document_iff.mpr hasks
    rw [← Keyword.events_eq_account]
    simp only [program, hcommand, h]
    exact ⟨rfl, rfl⟩

/-- The log of a run is empty if nothing could be read. Otherwise it tells what was read and what
was made of it, whether or not the document could be written after that. -/
theorem log_tells_what_happened (tree : FileTree) (input : String) :
    (∀ f, Keyword.load tree input = .error f →
      (∀ output, (run tree input output).events = []) ∧
        ∀ args setting, Asks args input none →
          (program tree args setting).stderr = ["Error: " ++ f.message]) ∧
    ∀ k, Keyword.load tree input = .ok k →
      ∃ kind bytes, LogTells tree input k kind bytes := by
  constructor
  · intro f hload
    constructor
    · intro output
      rw [run_of_load_error hload]
    · intro args setting hasks
      simp only [program, ofArguments_eq_document_iff.mpr hasks, hload]
      rfl
  · intro k hload
    exact ⟨_, _, logTells_of_load hload⟩

/-- Nothing is logged about a directory. About a description without a name three things are, also
where there is no directory to write in. -/
theorem log_tells_what_happened_of_example :
    (Keyword.load exampleTree "/tmp" = .error (.notAFile "/tmp") ∧
      (run exampleTree "/tmp" "/tmp/b").events = []) ∧
    Keyword.load exampleTree "nameless" = .ok {} ∧
      ∃ kind bytes, LogTells exampleTree "nameless" {} kind bytes ∧
        (run exampleTree "nameless" "/none/b").events =
          [.loaded "nameless" "", .unnamed "nameless", .rendered kind bytes] ∧
        ∃ content, (run exampleTree "nameless" "/tmp/b").tree.file? "/tmp/b" = some content ∧
          content.size = bytes := by
  have hnone : Keyword.load exampleTree "/tmp" = .error (.notAFile "/tmp") := by
    rw [Keyword.load, show exampleTree.file? "/tmp" = none by decide +kernel, Keyword.ofFile]
  have hk : Keyword.load exampleTree "nameless" = .ok {} :=
    load_eq_ok_iff.mpr ⟨"\x7b\x7d".toUTF8, _, by decide +kernel,
      dif_pos (String.isValidUTF8 _), by cbv⟩
  obtain ⟨hsilent, -⟩ := (log_tells_what_happened exampleTree "/tmp").1 _ hnone
  obtain ⟨kind, bytes, htells⟩ := (log_tells_what_happened exampleTree "nameless").2 _ hk
  exact ⟨⟨hnone, hsilent _⟩, hk, kind, bytes, htells, htells.events _,
    htells.written _ rfl⟩

end DeckDoc
