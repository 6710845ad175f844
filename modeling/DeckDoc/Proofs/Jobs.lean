import DeckDoc.Proofs.FileTree.Frame
import DeckDoc.Proofs.Run

namespace DeckDoc

/-- A description to read and a file to document it in. -/
structure Job where
  input : String
  output : String
  deriving DecidableEq

/-- What a run says for itself: how it ended and what happened on its way. -/
structure Report where
  result : Except Failure Unit
  events : List Event

namespace Job

variable {t u : FileTree} {i j : Job} {jobs : List Job} {place : List String}
  {content : ByteArray}

def run (t : FileTree) (j : Job) : RunResult := DeckDoc.run t j.input j.output

def report (t : FileTree) (j : Job) : Report := ⟨(j.run t).result, (j.run t).events⟩

/-- The reports of jobs that are done one after the other. -/
def reports (t : FileTree) : List Job → List Report
  | [] => []
  | j :: jobs => j.report t :: reports (j.run t).tree jobs

/-- The files after jobs that are done one after the other. -/
def treeAfter (t : FileTree) : List Job → FileTree
  | [] => t
  | j :: jobs => treeAfter (j.run t).tree jobs

theorem treeAfter_append (t : FileTree) (jobs again : List Job) :
    treeAfter t (jobs ++ again) = treeAfter (treeAfter t jobs) again := by
  induction jobs generalizing t with
  | nil => rfl
  | cons j jobs ih => exact ih _

theorem reports_append (t : FileTree) (jobs again : List Job) :
    reports t (jobs ++ again) = reports t jobs ++ reports (treeAfter t jobs) again := by
  induction jobs generalizing t with
  | nil => rfl
  | cons j jobs ih => exact congrArg (_ :: ·) (ih _)

/-- A job finds the same in two trees: the same input, and the same about its output. -/
structure FindsSame (t u : FileTree) (j : Job) : Prop where
  load : Keyword.load u j.input = Keyword.load t j.input
  target : u.target j.output = t.target j.output

/-- A job does the same wherever it finds the same. -/
theorem FindsSame.report_eq (h : j.FindsSame t u) : j.report u = j.report t := by
  unfold report run
  cases hload : Keyword.load t j.input with
  | error f => rw [run_of_load_error hload, run_of_load_error (h.load.trans hload)]
  | ok k =>
    cases htarget : t.target j.output with
    | error fault =>
      rw [run_of_target_error hload htarget,
        run_of_target_error (h.load.trans hload) (h.target.trans htarget)]
    | ok place =>
      rw [run_of_target_ok hload htarget,
        run_of_target_ok (h.load.trans hload) (h.target.trans htarget)]

/-- A job comes to write, and this is the place and what it writes there. -/
def Writes (t : FileTree) (j : Job) (place : List String) (content : ByteArray) : Prop :=
  t.target j.output = .ok place ∧
    ∃ k, Keyword.load t j.input = .ok k ∧ content = (k.markdown {}).toUTF8

theorem FindsSame.writes_iff (h : j.FindsSame t u) :
    j.Writes u place content ↔ j.Writes t place content := by
  unfold Writes
  rw [h.load, h.target]

theorem Writes.get?_ne_directory (h : j.Writes t place content) :
    t.get? place ≠ some .directory := FileTree.get?_ne_directory_of_target h.1

theorem Writes.tree_run (h : j.Writes t place content) :
    (j.run t).tree = t.put place (.file content) := by
  obtain ⟨htarget, k, hload, rfl⟩ := h
  unfold run
  rw [run_of_target_ok hload htarget]

theorem tree_run_of_not_writes (h : ¬ ∃ place content, j.Writes t place content) :
    (j.run t).tree = t := by
  unfold run
  apply run_tree_of_failed
  intro hok
  cases hload : Keyword.load t j.input with
  | error f =>
    rw [run_of_load_error hload] at hok
    cases hok
  | ok k =>
    cases htarget : t.target j.output with
    | error fault =>
      rw [run_of_target_error hload htarget] at hok
      cases hok
    | ok place => exact h ⟨place, _, htarget, k, hload, rfl⟩

theorem Writes.get?_run (h : j.Writes t place content) :
    (j.run t).tree.get? place = some (.file content) := by
  rw [h.tree_run, FileTree.get?_put_self t h.get?_ne_directory]

/-- A job changes nothing but the file that it writes. -/
theorem get?_run_of_not_writes (h : ∀ content, ¬ j.Writes t place content) :
    (j.run t).tree.get? place = t.get? place := by
  by_cases hwrites : ∃ other content, j.Writes t other content
  · obtain ⟨other, content, hwrites⟩ := hwrites
    have hne : place ≠ other := by
      rintro rfl
      exact h content hwrites
    rw [hwrites.tree_run, FileTree.get?_put_of_ne t hne]
  · rw [tree_run_of_not_writes hwrites]

/-- A file that one job may write is not read by another and not on the way to its output. -/
def Spares (t : FileTree) (i j : Job) : Prop :=
  ∀ place, t.target i.output = .ok place →
    ¬ t.Leads j.input place ∧ ¬ t.Passes j.output place

theorem Spares.findsSame (h : i.Spares t j) : j.FindsSame t (i.run t).tree := by
  by_cases hwrites : ∃ place content, i.Writes t place content
  · obtain ⟨place, content, hwrites⟩ := hwrites
    obtain ⟨hinput, houtput⟩ := h place hwrites.1
    have hd := hwrites.get?_ne_directory
    rw [hwrites.tree_run]
    refine ⟨?_, FileTree.target_put_eq hd houtput⟩
    unfold Keyword.load
    rw [FileTree.file?_put_of_not_leads hd hinput]
  · rw [tree_run_of_not_writes hwrites]
    exact ⟨rfl, rfl⟩

/-- Jobs go on to spare each other whatever other jobs do meanwhile. -/
theorem Spares.after {k : Job} (h : i.Spares t j) : i.Spares (k.run t).tree j := by
  by_cases hwrites : ∃ place content, k.Writes t place content
  · obtain ⟨place, content, hwrites⟩ := hwrites
    have hd := hwrites.get?_ne_directory
    rw [hwrites.tree_run]
    intro other hother
    rw [FileTree.leads_put_iff hd, FileTree.passes_put_iff hd]
    exact h other ((FileTree.target_put_eq_ok_iff hd).mp hother)
  · rwa [tree_run_of_not_writes hwrites]

theorem spares_rest (h : ∀ j ∈ i :: jobs, ∀ k ∈ i :: jobs, j.Spares t k) :
    ∀ j ∈ jobs, ∀ k ∈ jobs, j.Spares (i.run t).tree k := by
  intro j hj k hk
  exact (h j (List.mem_cons_of_mem _ hj) k (List.mem_cons_of_mem _ hk)).after

/-- Jobs that spare each other report what each would report on its own. -/
theorem reports_eq_map (h : ∀ i ∈ jobs, ∀ j ∈ jobs, i.Spares t j) :
    reports t jobs = jobs.map (report t) := by
  induction jobs generalizing t with
  | nil => rfl
  | cons i jobs ih =>
    have hrest := spares_rest h
    have hsame : ∀ j ∈ jobs, j.report (i.run t).tree = j.report t := fun j hj =>
      (h i List.mem_cons_self j (List.mem_cons_of_mem _ hj)).findsSame.report_eq
    rw [reports, ih hrest, List.map_cons, List.map_congr_left hsame]

/-- No two jobs write different things to one place. -/
def Consistent (t : FileTree) (jobs : List Job) : Prop :=
  ∀ i ∈ jobs, ∀ j ∈ jobs, ∀ place content other, i.Writes t place content →
    j.Writes t place other → content = other

/-- What any of the jobs writes is there after all of them, and all else is as before. -/
theorem get?_treeAfter (h : ∀ i ∈ jobs, ∀ j ∈ jobs, i.Spares t j) (hc : Consistent t jobs)
    (place : List String) :
    (∀ j ∈ jobs, ∀ content, j.Writes t place content →
      (treeAfter t jobs).get? place = some (.file content)) ∧
    ((∀ j ∈ jobs, ∀ content, ¬ j.Writes t place content) →
      (treeAfter t jobs).get? place = t.get? place) := by
  induction jobs generalizing t with
  | nil => simp [treeAfter]
  | cons i jobs ih =>
    have hrest := spares_rest h
    have hwrites : ∀ j ∈ jobs, ∀ place content,
        j.Writes (i.run t).tree place content ↔ j.Writes t place content := by
      intro j hj place content
      exact (h i List.mem_cons_self j (List.mem_cons_of_mem _ hj)).findsSame.writes_iff
    have hcrest : Consistent (i.run t).tree jobs := by
      intro j hj k hk place content other hjw hkw
      exact hc j (List.mem_cons_of_mem _ hj) k (List.mem_cons_of_mem _ hk) place content other
        ((hwrites j hj place content).mp hjw) ((hwrites k hk place other).mp hkw)
    obtain ⟨hwritten, hkept⟩ := ih hrest hcrest
    constructor
    · intro j hj content hjw
      by_cases hlater : ∃ k ∈ jobs, ∃ other, k.Writes t place other
      · obtain ⟨k, hk, other, hkw⟩ := hlater
        have hsame := hc j hj k (List.mem_cons_of_mem _ hk) place content other hjw hkw
        rw [hsame]
        exact hwritten k hk other ((hwrites k hk place other).mpr hkw)
      · have hnone : ∀ k ∈ jobs, ∀ other, ¬ k.Writes (i.run t).tree place other := by
          intro k hk other hkw
          exact hlater ⟨k, hk, other, (hwrites k hk place other).mp hkw⟩
        rcases List.mem_cons.mp hj with rfl | hj
        · exact (hkept hnone).trans hjw.get?_run
        · exact absurd ⟨j, hj, content, hjw⟩ hlater
    · intro hnone
      have hi := get?_run_of_not_writes (hnone i List.mem_cons_self)
      refine (hkept ?_).trans hi
      intro k hk other hkw
      exact hnone k (List.mem_cons_of_mem _ hk) other ((hwrites k hk place other).mp hkw)

/-- Whatever the order, and however often a job is done, the same files are left. -/
theorem treeAfter_agrees {order : List Job} (h : ∀ i ∈ jobs, ∀ j ∈ jobs, i.Spares t j)
    (hc : Consistent t jobs) (hsame : ∀ j, j ∈ order ↔ j ∈ jobs) :
    (treeAfter t order).Agrees (treeAfter t jobs) := by
  have horder : ∀ i ∈ order, ∀ j ∈ order, i.Spares t j := fun i hi j hj =>
    h i ((hsame i).mp hi) j ((hsame j).mp hj)
  have hcorder : Consistent t order := fun i hi j hj =>
    hc i ((hsame i).mp hi) j ((hsame j).mp hj)
  intro place
  obtain ⟨hwritten, hkept⟩ := get?_treeAfter h hc place
  obtain ⟨hwritten', hkept'⟩ := get?_treeAfter horder hcorder place
  by_cases hw : ∃ j ∈ jobs, ∃ content, j.Writes t place content
  · obtain ⟨j, hj, content, hjw⟩ := hw
    rw [hwritten j hj content hjw, hwritten' j ((hsame j).mpr hj) content hjw]
  · have hnone : ∀ j ∈ jobs, ∀ content, ¬ j.Writes t place content := fun j hj content hjw =>
      hw ⟨j, hj, content, hjw⟩
    rw [hkept hnone, hkept' fun j hj => hnone j ((hsame j).mp hj)]

/-- Two outputs that are no matter to each other: they lead to different places, and neither lies
on the way to the other. -/
def Apart (t : FileTree) (output other : String) : Prop :=
  ∀ place, t.Leads output place → ¬ t.Leads other place ∧ ¬ t.Passes other place

/-- Jobs that keep out of each other's way: their outputs are different files, none of which is an
input or lies on the way to another output. An output on the way to an input does no harm: there is
no file below it before or after. -/
structure Independent (t : FileTree) (jobs : List Job) : Prop where
  apart : jobs.Pairwise fun i j => Apart t i.output j.output ∧ Apart t j.output i.output
  unread : ∀ i ∈ jobs, ∀ j ∈ jobs, ∀ place, t.Leads i.output place → ¬ t.Leads j.input place

instance (t : FileTree) (output other : String) : Decidable (Apart t output other) :=
  decidable_of_iff (∀ place ∈ t.place? output, ¬ t.Leads other place ∧ ¬ t.Passes other place) (by
    simp only [Option.mem_def, FileTree.place?_eq_some_iff, Apart])

theorem independent_iff : Independent t jobs ↔
    (jobs.Pairwise fun i j => Apart t i.output j.output ∧ Apart t j.output i.output) ∧
      ∀ i ∈ jobs, ∀ j ∈ jobs, ∀ place ∈ t.place? i.output, ¬ t.Leads j.input place := by
  simp only [Option.mem_def, FileTree.place?_eq_some_iff]
  exact ⟨fun h => ⟨h.apart, h.unread⟩, fun h => ⟨h.1, h.2⟩⟩

instance (t : FileTree) (jobs : List Job) : Decidable (Independent t jobs) :=
  decidable_of_iff _ independent_iff.symm

theorem Independent.apart_of_ne (h : Independent t jobs) (hi : i ∈ jobs) (hj : j ∈ jobs)
    (hne : i ≠ j) : Apart t i.output j.output := by
  have : Std.Symm fun i j : Job => Apart t i.output j.output ∧ Apart t j.output i.output :=
    ⟨fun _ _ h => ⟨h.2, h.1⟩⟩
  exact (h.apart.forall hi hj hne).1

theorem Independent.spares (h : Independent t jobs) :
    ∀ i ∈ jobs, ∀ j ∈ jobs, i.Spares t j := by
  intro i hi j hj place htarget
  obtain ⟨-, hleads⟩ := FileTree.target_eq_ok_iff.mp htarget
  refine ⟨h.unread i hi j hj place hleads, ?_⟩
  by_cases hne : i = j
  · subst hne
    exact FileTree.not_passes_of_leads (FileTree.get?_ne_directory_of_target htarget) hleads
  · exact (h.apart_of_ne hi hj hne place hleads).2

theorem Independent.consistent (h : Independent t jobs) : Consistent t jobs := by
  intro i hi j hj place content other hiw hjw
  by_cases hne : i = j
  · subst hne
    obtain ⟨-, k, hk, rfl⟩ := hiw
    obtain ⟨-, l, hl, rfl⟩ := hjw
    rw [Except.ok.inj (hk.symm.trans hl)]
  · obtain ⟨-, hleads⟩ := FileTree.target_eq_ok_iff.mp hiw.1
    obtain ⟨-, hother⟩ := FileTree.target_eq_ok_iff.mp hjw.1
    exact absurd hother (h.apart_of_ne hi hj hne place hleads).1

/-- Independent jobs may be done in any order, and once more in any order: each reports what it
would report on its own, and the same files are left. -/
theorem independent_commute (h : Independent t jobs) {order again : List Job}
    (horder : order.Perm jobs) (hagain : again.Perm jobs) :
    (reports t order = order.map (report t) ∧
      (treeAfter t order).Agrees (treeAfter t jobs)) ∧
    reports (treeAfter t order) again = again.map (report t) ∧
      (treeAfter (treeAfter t order) again).Agrees (treeAfter t order) := by
  have hmem : ∀ j, j ∈ order ↔ j ∈ jobs := fun _ => horder.mem_iff
  have hmem' : ∀ j, j ∈ order ++ again ↔ j ∈ order := by
    intro j
    rw [List.mem_append, hagain.mem_iff, hmem, or_self]
  have hspares : ∀ i ∈ order, ∀ j ∈ order, i.Spares t j := fun i hi j hj =>
    h.spares i ((hmem i).mp hi) j ((hmem j).mp hj)
  have hspares' : ∀ i ∈ order ++ again, ∀ j ∈ order ++ again, i.Spares t j := fun i hi j hj =>
    hspares i ((hmem' i).mp hi) j ((hmem' j).mp hj)
  have hconsistent : Consistent t order := fun i hi j hj =>
    h.consistent i ((hmem i).mp hi) j ((hmem j).mp hj)
  have hreports := reports_eq_map hspares
  have htwice := reports_eq_map hspares'
  rw [reports_append, hreports, List.map_append] at htwice
  refine ⟨⟨hreports, treeAfter_agrees h.spares h.consistent hmem⟩,
    List.append_cancel_left htwice, ?_⟩
  rw [← treeAfter_append]
  exact treeAfter_agrees hspares hconsistent hmem'

/-- Jobs of which only the first two can be done: of the others one has no description to read, one
no input, and one no directory for its output. -/
def exampleJobs : List Job :=
  [⟨"a", "/tmp/a.md"⟩, ⟨"/work/nameless", "../a.md"⟩, ⟨"open", "b.md"⟩, ⟨"/c", "c.md"⟩,
    ⟨"a", "/none/a.md"⟩]

theorem independent_commute_of_failures :
    Independent exampleTree exampleJobs ∧ exampleJobs.reverse.Perm exampleJobs ∧
      (reports exampleTree exampleJobs).map (·.result.toBool) = [true, true, false, false, false] ∧
      reports exampleTree exampleJobs.reverse = exampleJobs.reverse.map (report exampleTree) ∧
      (treeAfter exampleTree exampleJobs.reverse).Agrees (treeAfter exampleTree exampleJobs) ∧
      reports (treeAfter exampleTree exampleJobs.reverse) exampleJobs =
        exampleJobs.map (report exampleTree) := by
  have h : Independent exampleTree exampleJobs := by decide +kernel
  have hperm := exampleJobs.reverse_perm
  obtain ⟨⟨hreports, hagrees⟩, hagain, -⟩ := independent_commute h hperm (.refl _)
  exact ⟨h, hperm, by decide +kernel, hreports, hagrees, hagain⟩

end Job

end DeckDoc
