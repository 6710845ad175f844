import DeckDoc.CommandLine
import DeckDoc.Proofs.CommandLine.Arguments
import DeckDoc.Proofs.FileTree.Frame
import DeckDoc.Proofs.Run

namespace DeckDoc

open Command

variable {tree : FileTree} {args : List String} {input path : String} {output : Option String}
  {k : Keyword} {f : Failure}

/-- The file at a path is a text that describes a keyword. -/
def Describes (tree : FileTree) (path : String) (k : Keyword) : Prop :=
  ∃ bytes text, tree.file? path = some bytes ∧ String.fromUTF8? bytes = some text ∧
    Keyword.ofText text = .ok k

/-- Why there is no document: no description is read from the input, or no document can be written
to the output. -/
inductive Fails (tree : FileTree) (input : String) (output : Option String) : Failure → Prop
  | notAFile (hfile : tree.file? input = none) : Fails tree input output (.notAFile input)
  | notText {bytes : ByteArray} (hfile : tree.file? input = some bytes)
      (htext : String.fromUTF8? bytes = none) : Fails tree input output .notText
  | refused {bytes : ByteArray} {text : String} {fault : Json.Fault}
      (hfile : tree.file? input = some bytes) (htext : String.fromUTF8? bytes = some text)
      (hk : Keyword.ofText text = .error fault) : Fails tree input output (.refused text fault)
  | unwritable {k : Keyword} {path : String} {fault : PathFault} (hk : Describes tree input k)
      (hpath : output = some path) (htarget : tree.target path = .error fault) :
      Fails tree input output (.unwritable fault)

theorem load_eq_ok_iff : Keyword.load tree path = .ok k ↔ Describes tree path k := by
  unfold Describes
  constructor
  · intro h
    cases hfile : tree.file? path with
    | none => simp [Keyword.load, hfile, Keyword.ofFile] at h
    | some bytes =>
      cases htext : String.fromUTF8? bytes with
      | none => simp [Keyword.load, hfile, Keyword.ofFile, htext] at h
      | some text =>
        rw [Keyword.load_eq_ofText hfile htext] at h
        cases hk : Keyword.ofText text with
        | error fault =>
          rw [hk] at h
          cases h
        | ok l =>
          rw [hk] at h
          cases h
          exact ⟨bytes, text, rfl, htext, hk⟩
  · rintro ⟨bytes, text, hfile, htext, hk⟩
    rw [Keyword.load_eq_ofText hfile htext, hk]
    rfl

theorem fails_of_load (h : Keyword.load tree input = .error f) : Fails tree input output f := by
  cases hfile : tree.file? input with
  | none =>
    rw [Keyword.load, hfile] at h
    cases h
    exact .notAFile hfile
  | some bytes =>
    cases htext : String.fromUTF8? bytes with
    | none =>
      simp only [Keyword.load, hfile, Keyword.ofFile, htext] at h
      cases h
      exact .notText hfile htext
    | some text =>
      rw [Keyword.load_eq_ofText hfile htext] at h
      cases hk : Keyword.ofText text with
      | ok l =>
        rw [hk] at h
        cases h
      | error fault =>
        rw [hk] at h
        cases h
        exact .refused hfile htext hk

/-- An event does not mention another path. -/
def Event.IsAbout (path : String) : Event → Prop
  | loaded other _ => other = path
  | unnamed other => other = path
  | rendered _ _ => True

theorem Keyword.isAbout_of_mem_events {markdown : String} {e : Event}
    (h : e ∈ k.events path markdown) : e.IsAbout path := by
  have hcases : e = .loaded path (k.name.getD "") ∨ e = .unnamed path ∨
      e = .rendered k.summaryKind markdown.utf8ByteSize := by
    unfold Keyword.events at h
    split at h <;> simp at h <;> tauto
  rcases hcases with rfl | rfl | rfl
  · rfl
  · rfl
  · trivial

/-- What the program does, however much of it is logged: how it exits, what it prints, what happens
and what it says in the end, and the files it leaves. -/
structure Course where
  exitCode : Nat
  stdout : String
  events : List Event
  messages : List String
  tree : FileTree

namespace Course

def outcome (c : Course) (setting : LogSetting) : Outcome :=
  ⟨c.exitCode, c.stdout, logLines setting c.events ++ c.messages, c.tree⟩

def misused (tree : FileTree) (misuse : Misuse) : Course := ⟨2, "", [], misuse.lines, tree⟩

def helped (tree : FileTree) : Course :=
  ⟨0, String.join (helpLines.map (· ++ "\n")), [], [], tree⟩

def failed (tree : FileTree) (events : List Event) (f : Failure) : Course :=
  ⟨1, "", events, ["Error: " ++ f.message], tree⟩

def printed (tree : FileTree) (input : String) (k : Keyword) : Course :=
  ⟨0, k.markdown {} ++ "\n", k.events input (k.markdown {}), [], tree⟩

def written (tree : FileTree) (input path : String) (place : List String) (k : Keyword) : Course :=
  ⟨0, "", k.events input (k.markdown {}), ["Written to '" ++ path ++ "'."],
    tree.put place (.file (k.markdown {}).toUTF8)⟩

end Course

/-- The courses that the program can take. -/
inductive Takes (tree : FileTree) (args : List String) : Course → Prop
  | misused {misuse : Misuse} (h : ofArguments .none args = .error misuse) :
      Takes tree args (.misused tree misuse)
  | helped (h : AsksHelp args) : Takes tree args (.helped tree)
  | failed {input : String} {output : Option String} {f : Failure} {events : List Event}
      (h : Asks args input output) (hfails : Fails tree input output f)
      (hevents : ∀ e ∈ events, e.IsAbout input) : Takes tree args (.failed tree events f)
  | printed {input : String} {k : Keyword} (h : Asks args input none)
      (hk : Describes tree input k) : Takes tree args (.printed tree input k)
  | written {input path : String} {place : List String} {k : Keyword}
      (h : Asks args input (some path)) (hk : Describes tree input k)
      (htarget : tree.target path = .ok place) :
      Takes tree args (.written tree input path place k)

/-- The program takes one of its courses, and the setting decides on nothing but its log. -/
theorem program_takes (tree : FileTree) (args : List String) :
    ∃ c, Takes tree args c ∧
      ∀ setting, program tree args setting = c.outcome (LogSetting.ofText setting) := by
  cases hcommand : ofArguments .none args with
  | error misuse =>
    refine ⟨_, .misused hcommand, fun setting => ?_⟩
    simp only [program, hcommand]
    rfl
  | ok command =>
    cases command with
    | help =>
      refine ⟨_, .helped (ofArguments_eq_help_iff_asks.mp hcommand), fun setting => ?_⟩
      simp only [program, hcommand]
      rfl
    | document input output =>
      have hasks := ofArguments_eq_document_iff.mp hcommand
      cases hload : Keyword.load tree input with
      | error f =>
        refine ⟨.failed tree [] f, .failed hasks (fails_of_load hload) (by simp), fun setting => ?_⟩
        cases output with
        | none =>
          simp only [program, hcommand, hload]
          rfl
        | some path =>
          simp only [program, hcommand, run_of_load_error hload]
          rfl
      | ok k =>
        have hk := load_eq_ok_iff.mp hload
        cases output with
        | none =>
          refine ⟨_, .printed hasks hk, fun setting => ?_⟩
          simp only [program, hcommand, hload]
          simp [Course.printed, Course.outcome, Draft.ofKeyword]
        | some path =>
          cases htarget : tree.target path with
          | error fault =>
            refine ⟨.failed tree (k.events input (k.markdown {})) _,
              .failed hasks (.unwritable hk rfl htarget) fun _ => Keyword.isAbout_of_mem_events,
              fun setting => ?_⟩
            simp only [program, hcommand, run_of_target_error hload htarget]
            rfl
          | ok place =>
            refine ⟨_, .written hasks hk htarget, fun setting => ?_⟩
            simp only [program, hcommand, run_of_target_ok hload htarget]
            rfl

theorem Describes.unique {l : Keyword} (h : Describes tree path k) (hl : Describes tree path l) :
    k = l :=
  Except.ok.inj ((load_eq_ok_iff.mpr h).symm.trans (load_eq_ok_iff.mpr hl))

theorem Fails.cases (h : Fails tree input output f) :
    Keyword.load tree input = .error f ∨
      ∃ path fault, (∃ k, Keyword.load tree input = .ok k) ∧ output = some path ∧
        tree.target path = .error fault ∧ f = .unwritable fault := by
  cases h with
  | notAFile hfile =>
    left
    rw [Keyword.load, hfile, Keyword.ofFile]
  | notText hfile htext =>
    left
    simp only [Keyword.load, hfile, Keyword.ofFile, htext]
  | refused hfile htext hk =>
    left
    rw [Keyword.load_eq_ofText hfile htext, hk]
    rfl
  | unwritable hk hpath htarget =>
    right
    exact ⟨_, _, ⟨_, load_eq_ok_iff.mpr hk⟩, hpath, htarget, rfl⟩

theorem Fails.unique {g : Failure} (h : Fails tree input output f)
    (hg : Fails tree input output g) : f = g := by
  rcases h.cases with hf | ⟨path, fault, ⟨k, hk⟩, rfl, hfault, rfl⟩ <;>
    rcases hg.cases with hg | ⟨path', fault', ⟨k', hk'⟩, hpath, hfault', rfl⟩
  · exact Except.error.inj (hf.symm.trans hg)
  · cases hf.symm.trans hk'
  · cases hk.symm.trans hg
  · obtain rfl := Option.some.inj hpath
    rw [Except.error.inj (hfault.symm.trans hfault')]

/-- Nothing fails once a description has been read and the output, if there is one, can be
opened. -/
theorem Describes.not_fails (hk : Describes tree input k)
    (htarget : ∀ path, output = some path → ∃ place, tree.target path = .ok place) :
    ¬ Fails tree input output f := by
  intro h
  rcases h.cases with hf | ⟨path, fault, -, hpath, hfault, -⟩
  · cases hf.symm.trans (load_eq_ok_iff.mpr hk)
  · obtain ⟨place, hplace⟩ := htarget path hpath
    cases hfault.symm.trans hplace

/-- What the exit code, the two streams and the files tell about one run of the program. -/
structure Story (tree : FileTree) (args : List String) (o : Outcome) : Prop where
  exitCode : o.exitCode = 0 ∨ o.exitCode = 1 ∨ o.exitCode = 2
  unsuccessful : o.exitCode ≠ 0 → o.stdout = "" ∧ o.tree = tree
  failed_iff : o.exitCode = 1 ↔
    ∃ input output f, Asks args input output ∧ Fails tree input output f
  fault : ∀ input output f, Asks args input output → Fails tree input output f →
    o.stderr.getLast? = some ("Error: " ++ f.message)
  successful : o.exitCode = 0 → (AsksHelp args ∧ o.tree = tree) ∨
    ∃ input output k, Asks args input output ∧ Describes tree input k ∧
      (output = none → o.stdout = k.markdown {} ++ "\n" ∧ o.tree = tree) ∧
      ∀ path, output = some path → o.stdout = "" ∧
        tree.Rewritten o.tree path (k.markdown {}).toUTF8 ∧
        o.stderr.getLast? = some ("Written to '" ++ path ++ "'.")

namespace Takes

variable {c : Course}

theorem exitCode_cases (h : Takes tree args c) :
    c.exitCode = 0 ∨ c.exitCode = 1 ∨ c.exitCode = 2 := by
  cases h with
  | misused => exact .inr (.inr rfl)
  | helped => exact .inl rfl
  | failed => exact .inr (.inl rfl)
  | printed => exact .inl rfl
  | written => exact .inl rfl

theorem unsuccessful (h : Takes tree args c) (hcode : c.exitCode ≠ 0) :
    c.stdout = "" ∧ c.tree = tree := by
  cases h with
  | misused => exact ⟨rfl, rfl⟩
  | helped => exact absurd rfl hcode
  | failed => exact ⟨rfl, rfl⟩
  | printed => exact absurd rfl hcode
  | written => exact absurd rfl hcode

theorem exists_fails (h : Takes tree args c) (hcode : c.exitCode = 1) :
    ∃ input output f, Asks args input output ∧ Fails tree input output f := by
  cases h with
  | misused => cases hcode
  | helped => cases hcode
  | failed hasks hfails => exact ⟨_, _, _, hasks, hfails⟩
  | printed => cases hcode
  | written => cases hcode

/-- When something fails this is what the program ends with. -/
theorem of_fails (h : Takes tree args c) (hasks : Asks args input output)
    (hfails : Fails tree input output f) :
    c.exitCode = 1 ∧ c.messages = ["Error: " ++ f.message] := by
  cases h with
  | misused hmisuse => cases hmisuse.symm.trans (ofArguments_eq_document_iff.mpr hasks)
  | helped hhelp => exact absurd hhelp hasks.not_asksHelp
  | failed hother hfault =>
    obtain ⟨rfl, rfl⟩ := hasks.unique hother
    obtain rfl := hfails.unique hfault
    exact ⟨rfl, rfl⟩
  | printed hother hk =>
    obtain ⟨rfl, rfl⟩ := hasks.unique hother
    exact absurd hfails (hk.not_fails (by simp))
  | written hother hk htarget =>
    obtain ⟨rfl, rfl⟩ := hasks.unique hother
    refine absurd hfails (hk.not_fails ?_)
    intro path hpath
    obtain rfl := Option.some.inj hpath
    exact ⟨_, htarget⟩

theorem successful (h : Takes tree args c) (hcode : c.exitCode = 0) :
    (AsksHelp args ∧ c.tree = tree) ∨
      ∃ input output k, Asks args input output ∧ Describes tree input k ∧
        (output = none → c.stdout = k.markdown {} ++ "\n" ∧ c.tree = tree) ∧
        ∀ path, output = some path → c.stdout = "" ∧
          tree.Rewritten c.tree path (k.markdown {}).toUTF8 ∧
          c.messages = ["Written to '" ++ path ++ "'."] := by
  cases h with
  | misused => cases hcode
  | helped hhelp => exact .inl ⟨hhelp, rfl⟩
  | failed => cases hcode
  | printed hasks hk => exact .inr ⟨_, _, _, hasks, hk, fun _ => ⟨rfl, rfl⟩, by simp⟩
  | written hasks hk htarget =>
    refine .inr ⟨_, _, _, hasks, hk, by simp, ?_⟩
    intro path hpath
    obtain rfl := Option.some.inj hpath
    exact ⟨rfl, FileTree.rewritten_put htarget, rfl⟩

end Takes

theorem Course.getLast?_stderr {c : Course} {message : String} (h : c.messages = [message])
    (setting : LogSetting) : (c.outcome setting).stderr.getLast? = some message := by
  rw [outcome, h, List.getLast?_concat]

theorem Takes.story {c : Course} (h : Takes tree args c) (setting : LogSetting) :
    Story tree args (c.outcome setting) where
  exitCode := h.exitCode_cases
  unsuccessful := h.unsuccessful
  failed_iff := by
    constructor
    · exact h.exists_fails
    · rintro ⟨input, output, f, hasks, hfails⟩
      exact (h.of_fails hasks hfails).1
  fault := by
    intro input output f hasks hfails
    exact Course.getLast?_stderr (h.of_fails hasks hfails).2 setting
  successful := by
    intro hcode
    rcases h.successful hcode with hhelp | ⟨input, output, k, hasks, hk, hprinted, hwritten⟩
    · exact .inl hhelp
    · refine .inr ⟨input, output, k, hasks, hk, hprinted, ?_⟩
      intro path hpath
      obtain ⟨hstdout, htree, hmessages⟩ := hwritten path hpath
      exact ⟨hstdout, htree, Course.getLast?_stderr hmessages setting⟩

/-- The exit code, the streams and the files of the program tell one story. And where one run prints
a document and another writes it, the print is longer by one line break. -/
theorem program_tells_one_story (tree : FileTree) (args : List String) (setting : Option String) :
    Story tree args (program tree args setting) ∧
      ∀ (others : List String) (other : Option String) (input path : String),
        Asks args input none → (program tree args setting).exitCode = 0 →
        Asks others input (some path) → (program tree others other).exitCode = 0 →
        ∃ document, (program tree args setting).stdout = document ++ "\n" ∧
          tree.Rewritten (program tree others other).tree path document.toUTF8 := by
  obtain ⟨c, hc, hprogram⟩ := program_takes tree args
  rw [hprogram]
  refine ⟨hc.story _, ?_⟩
  intro others other input path hasks hcode hothers hcode'
  obtain ⟨c', hc', hprogram'⟩ := program_takes tree others
  rw [hprogram'] at hcode' ⊢
  rcases hc.successful hcode with ⟨hhelp, -⟩ | ⟨i, o, k, hprints, hk, hprinted, -⟩
  · exact absurd hhelp hasks.not_asksHelp
  rcases hc'.successful hcode' with ⟨hhelp, -⟩ | ⟨i', o', l, hwrites, hl, -, hwritten⟩
  · exact absurd hhelp hothers.not_asksHelp
  obtain ⟨rfl, rfl⟩ := hasks.unique hprints
  obtain ⟨rfl, rfl⟩ := hothers.unique hwrites
  obtain rfl := hk.unique hl
  exact ⟨k.markdown {}, (hprinted rfl).1, (hwritten path rfl).2.1⟩

theorem program_tells_one_story_of_nameless :
    Asks ["nameless"] "nameless" none ∧ (program exampleTree ["nameless"] none).exitCode = 0 ∧
      Asks ["--", "nameless", "/tmp/b"] "nameless" (some "/tmp/b") ∧
      (program exampleTree ["--", "nameless", "/tmp/b"] none).exitCode = 0 ∧
      Story exampleTree ["nameless"] (program exampleTree ["nameless"] none) ∧
      ∃ document, (program exampleTree ["nameless"] none).stdout = document ++ "\n" ∧
        exampleTree.Rewritten (program exampleTree ["--", "nameless", "/tmp/b"] none).tree "/tmp/b"
          document.toUTF8 := by
  have hprints : Asks ["nameless"] "nameless" none :=
    ofArguments_eq_document_iff.mp (by decide +kernel)
  have hwrites : Asks ["--", "nameless", "/tmp/b"] "nameless" (some "/tmp/b") :=
    ofArguments_eq_document_iff.mp (by decide +kernel)
  have hprinted : (program exampleTree ["nameless"] none).exitCode = 0 := by decide +kernel
  have hwritten : (program exampleTree ["--", "nameless", "/tmp/b"] none).exitCode = 0 := by
    decide +kernel
  obtain ⟨hstory, hforms⟩ := program_tells_one_story exampleTree ["nameless"] none
  have hdocument := hforms ["--", "nameless", "/tmp/b"] none "nameless" "/tmp/b" hprints hprinted
    hwrites hwritten
  exact ⟨hprints, hprinted, hwrites, hwritten, hstory, hdocument⟩

end DeckDoc
