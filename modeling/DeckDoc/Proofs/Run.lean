import DeckDoc.Proofs.FileTree
import DeckDoc.Run

namespace DeckDoc

variable {tree : FileTree} {input output : String}

/-- What a run owes to the files it starts from. It finds no file, finds no UTF-8 in it, finds no
description in the text, cannot open the file it is to write, or writes all of it, in this order. -/
structure AllOrNothing (tree : FileTree) (input output : String) (r : RunResult) : Prop where
  notAFile : tree.file? input = none → r.result = .error (.notAFile input)
  notText : ∀ bytes, tree.file? input = some bytes → String.fromUTF8? bytes = none →
    r.result = .error .notText
  refused : ∀ bytes text fault, tree.file? input = some bytes →
    String.fromUTF8? bytes = some text → Keyword.ofText text = .error fault →
    r.result = .error (.refused text fault)
  unwritable : ∀ bytes text k, tree.file? input = some bytes →
    String.fromUTF8? bytes = some text → Keyword.ofText text = .ok k → ¬ tree.Writable output →
    ∃ fault, tree.target output = .error fault ∧ r.result = .error (.unwritable fault)
  written : ∀ bytes text k, tree.file? input = some bytes →
    String.fromUTF8? bytes = some text → Keyword.ofText text = .ok k → tree.Writable output →
    r.result = .ok () ∧ ∃ place, tree.Leads output place ∧
      (∀ path, tree.Leads path place → r.tree.file? path = some (k.markdown {}).toUTF8) ∧
      (∀ path, ¬ tree.Leads path place → r.tree.file? path = tree.file? path) ∧
      ∀ other, other ≠ place → r.tree.get? other = tree.get? other
  failed : r.result ≠ .ok () → r.tree = tree

theorem run_of_load_error {f : Failure} (h : Keyword.load tree input = .error f) :
    run tree input output = ⟨.error f, [], tree⟩ := by
  rw [run, h]

theorem run_of_target_error {k : Keyword} {fault : PathFault}
    (h : Keyword.load tree input = .ok k) (htarget : tree.target output = .error fault) :
    run tree input output =
      ⟨.error (.unwritable fault), k.events input (k.markdown {}), tree⟩ := by
  simp [run, h, FileTree.write, htarget, Except.map, Draft.ofKeyword]

theorem run_of_target_ok {k : Keyword} {place : List String}
    (h : Keyword.load tree input = .ok k) (htarget : tree.target output = .ok place) :
    run tree input output =
      ⟨.ok (), k.events input (k.markdown {}), tree.put place (.file (k.markdown {}).toUTF8)⟩ := by
  simp [run, h, FileTree.write, htarget, Except.map, Draft.ofKeyword]

/-- A run that does not end well leaves the files as they are. -/
theorem run_tree_of_failed (h : (run tree input output).result ≠ .ok ()) :
    (run tree input output).tree = tree := by
  cases hload : Keyword.load tree input with
  | error f => rw [run_of_load_error hload]
  | ok k =>
    cases htarget : tree.target output with
    | error fault => rw [run_of_target_error hload htarget]
    | ok place =>
      rw [run_of_target_ok hload htarget] at h
      exact absurd rfl h

/-- A run from one path to another reads one file and writes one file, or says why not and writes
nothing. -/
theorem run_allOrNothing (tree : FileTree) (input output : String) :
    AllOrNothing tree input output (run tree input output) where
  notAFile hfile := by
    have hload : Keyword.load tree input = .error (.notAFile input) := by
      rw [Keyword.load, hfile, Keyword.ofFile]
    rw [run_of_load_error hload]
  notText bytes hfile htext := by
    have hload : Keyword.load tree input = .error .notText := by
      simp only [Keyword.load, hfile, Keyword.ofFile, htext]
    rw [run_of_load_error hload]
  refused bytes text fault hfile htext hk := by
    have hload : Keyword.load tree input = .error (.refused text fault) := by
      rw [Keyword.load_eq_ofText hfile htext, hk]
      rfl
    rw [run_of_load_error hload]
  unwritable bytes text k hfile htext hk hw := by
    have hload : Keyword.load tree input = .ok k := by
      rw [Keyword.load_eq_ofText hfile htext, hk]
      rfl
    cases htarget : tree.target output with
    | error fault =>
      rw [run_of_target_error hload htarget]
      exact ⟨fault, rfl, rfl⟩
    | ok place => exact absurd (FileTree.writable_iff_exists_target.mpr ⟨place, htarget⟩) hw
  written bytes text k hfile htext hk hw := by
    have hload : Keyword.load tree input = .ok k := by
      rw [Keyword.load_eq_ofText hfile htext, hk]
      rfl
    obtain ⟨place, htarget⟩ := FileTree.writable_iff_exists_target.mp hw
    have hleads := (FileTree.target_eq_ok_iff.mp htarget).2
    have hfree := FileTree.get?_ne_directory_of_target htarget
    rw [run_of_target_ok hload htarget]
    refine ⟨rfl, place, hleads, ?_, ?_, ?_⟩
    · intro path hpath
      exact FileTree.file?_put_of_leads hfree hpath
    · intro path hpath
      exact FileTree.file?_put_of_not_leads hfree hpath
    · intro other hother
      exact FileTree.get?_put_of_ne tree hother _
  failed := run_tree_of_failed

/-- A description, one without a name, bytes that are no text, and a text that is no description, in
the working directory, and a directory outside it. -/
def exampleTree : FileTree :=
  ⟨[(["work", "a"], .file "\x7b\"name\":\"A\"\x7d".toUTF8),
    (["work", "nameless"], .file "\x7b\x7d".toUTF8), (["work", "bytes"], .file ⟨#[255]⟩),
    (["work", "open"], .file "\x7b".toUTF8), (["tmp"], .directory)], ["work"]⟩

/-- One run for each end, the last one over its own input. -/
theorem run_allOrNothing_of_example :
    (run exampleTree "/tmp" "/tmp/a").result = .error (.notAFile "/tmp") ∧
      (run exampleTree "bytes" "/tmp/a").result = .error .notText ∧
      (∃ fault, (run exampleTree "open" "/tmp/a").result = .error (.refused "\x7b" fault) ∧
        (run exampleTree "open" "/tmp/a").tree = exampleTree) ∧
      (∃ fault, (run exampleTree "a" "../none/a").result = .error (.unwritable fault) ∧
        (run exampleTree "a" "../none/a").tree = exampleTree) ∧
      (run exampleTree "a" "../work/a").result = .ok () ∧
      (run exampleTree "a" "../work/a").tree.file? "/work/a" =
        some (({ name := some "A" } : Keyword).markdown {}).toUTF8 := by
  have htext (text : String) : String.fromUTF8? text.toUTF8 = some text :=
    dif_pos text.isValidUTF8
  have hk : Keyword.ofText "\x7b\"name\":\"A\"\x7d" = .ok { name := some "A" } := by cbv
  obtain ⟨fault, hfault⟩ : ∃ fault, Keyword.ofText "\x7b" = .error fault := ⟨_, by cbv⟩
  have hrefused := (run_allOrNothing exampleTree "open" "/tmp/a").refused _ _ fault
    (by decide +kernel) (htext "\x7b") hfault
  obtain ⟨nowhere, -, hunwritable⟩ := (run_allOrNothing exampleTree "a" "../none/a").unwritable
    _ _ _ (by decide +kernel) (htext _) hk (by decide +kernel)
  obtain ⟨hwritten, place, hleads, hplace, -⟩ :=
    (run_allOrNothing exampleTree "a" "../work/a").written _ _ _ (by decide +kernel) (htext _) hk
      (by decide +kernel)
  have hsame : exampleTree.descend (exampleTree.start "/work/a") (FileTree.names "/work/a") =
      exampleTree.descend (exampleTree.start "../work/a") (FileTree.names "../work/a") := by
    decide +kernel
  refine ⟨(run_allOrNothing _ _ _).notAFile (by decide +kernel),
    (run_allOrNothing _ _ _).notText ⟨#[255]⟩ (by decide +kernel) (by decide +kernel),
    ⟨fault, hrefused, (run_allOrNothing _ _ _).failed (by simp [hrefused])⟩,
    ⟨nowhere, hunwritable, (run_allOrNothing _ _ _).failed (by simp [hunwritable])⟩,
    hwritten, hplace _ ⟨by decide, by decide +kernel, hsame.trans hleads.2.2⟩⟩

end DeckDoc
