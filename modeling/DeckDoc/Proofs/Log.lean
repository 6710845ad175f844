import DeckDoc.Log
import DeckDoc.Proofs.CommandLine
import DeckDoc.Proofs.Document.Headings

namespace DeckDoc

open Command Text

/-- The levels by the names that a setting has for them. -/
def LogLevel.name : LogLevel → String
  | off => "off"
  | error => "error"
  | warn => "warn"
  | info => "info"
  | debug => "debug"
  | trace => "trace"

/-- A setting that is the name of a level is read as that level. Without a setting warnings are
logged. -/
theorem LogSetting.ofText_name (level : Option LogLevel) :
    ofText (level.map LogLevel.name) = ofLevel (level.getD .warn) := by
  cases level with
  | none => rfl
  | some level => cases level <;> decide +kernel

/-- A list is another one with some items added, all of one kind, and none of its own moved. -/
inductive Adds {α : Type} (p : α → Prop) : List α → List α → Prop
  | nil : Adds p [] []
  | keep {xs ys : List α} (x : α) (h : Adds p xs ys) : Adds p (x :: xs) (x :: ys)
  | add {xs ys : List α} {y : α} (hy : p y) (h : Adds p xs ys) : Adds p xs (y :: ys)

namespace Adds

variable {α β : Type} {p : α → Prop} {xs ys : List α}

theorem refl (p : α → Prop) (xs : List α) : Adds p xs xs := by
  induction xs with
  | nil => exact .nil
  | cons x xs ih => exact .keep x ih

theorem append {xs' ys' : List α} (h : Adds p xs ys) (h' : Adds p xs' ys') :
    Adds p (xs ++ xs') (ys ++ ys') := by
  induction h with
  | nil => exact h'
  | keep x _ ih => exact .keep x ih
  | add hy _ ih => exact .add hy ih

theorem map {f : α → β} {q : β → Prop} (hf : ∀ x, p x → q (f x)) (h : Adds p xs ys) :
    Adds q (xs.map f) (ys.map f) := by
  induction h with
  | nil => exact .nil
  | keep x _ ih => exact .keep (f x) ih
  | add hy _ ih => exact .add (hf _ hy) ih

/-- A looser filter lets more through. -/
theorem filter {q r : α → Bool} (h : ∀ x, q x = true → r x = true) (xs : List α) :
    Adds (fun x => r x = true ∧ ¬ q x = true) (xs.filter q) (xs.filter r) := by
  induction xs with
  | nil => exact .nil
  | cons x xs ih =>
    by_cases hq : q x = true
    · rw [List.filter_cons_of_pos hq, List.filter_cons_of_pos (h x hq)]
      exact .keep x ih
    · rw [List.filter_cons_of_neg hq]
      by_cases hr : r x = true
      · rw [List.filter_cons_of_pos hr]
        exact .add ⟨hr, hq⟩ ih
      · rw [List.filter_cons_of_neg hr]
        exact ih

end Adds

/-- A line of the log that one level shows and a quieter one does not. -/
def IsShownFrom (quiet loud : LogLevel) (line : String) : Prop :=
  ∃ e : Event, line = e.line ∧ quiet.rank < e.level.rank ∧ e.level.rank ≤ loud.rank

theorem adds_logLines {quiet loud : LogLevel} (h : quiet.rank ≤ loud.rank) (events : List Event) :
    Adds (IsShownFrom quiet loud) (logLines (.ofLevel quiet) events)
      (logLines (.ofLevel loud) events) := by
  have hshows : ∀ e, (LogSetting.ofLevel quiet).shows e = true →
      (LogSetting.ofLevel loud).shows e = true := by
    intro e
    simp only [LogSetting.shows_ofLevel, decide_eq_true_eq]
    omega
  refine (Adds.filter hshows events).map ?_
  rintro e ⟨hloud, hquiet⟩
  simp only [LogSetting.shows_ofLevel, decide_eq_true_eq] at hloud hquiet
  exact ⟨e, rfl, by omega, hloud⟩

/-! A line of the log is one line if the path in it is. -/

theorem exists_digitChar_of_mem_toDigits {b n : Nat} {c : Char} (hb : 1 < b)
    (h : c ∈ Nat.toDigits b n) : ∃ d < b, c = d.digitChar := by
  induction n using Nat.strong_induction_on with
  | _ n ih =>
    rw [Nat.toDigits_eq_if hb] at h
    split at h
    · next hn => exact ⟨n, hn, List.mem_singleton.mp h⟩
    · next hn =>
      rcases List.mem_append.mp h with h | h
      · exact ih (n / b) (Nat.div_lt_self (by omega) hb) h
      · exact ⟨n % b, Nat.mod_lt n (by omega), List.mem_singleton.mp h⟩

theorem oneLine_shown (c : Char) : OneLine (shown c) := by
  have hdigits : '\n' ∉ Nat.toDigits 16 c.toNat := by
    intro h
    obtain ⟨d, hd, heq⟩ := exists_digitChar_of_mem_toDigits (by decide) h
    have hne : ∀ d < 16, '\n' ≠ d.digitChar := by decide
    exact hne d hd heq
  by_cases hc : c = '\n'
  · subst hc
    decide
  · unfold OneLine shown
    split_ifs <;> simp [hdigits, Ne.symm hc]

theorem oneLine_quoted (s : String) : OneLine (quoted s) := by
  have hshown : ∀ c, '\n' ∉ (shown c).toList := oneLine_shown
  simp [OneLine, quoted, hshown]

theorem oneLine_append {s t : String} (hs : OneLine s) (ht : OneLine t) : OneLine (s ++ t) := by
  unfold OneLine at hs ht ⊢
  rw [String.toList_append, List.mem_append, not_or]
  exact ⟨hs, ht⟩

theorem Event.oneLine_line {path : String} {e : Event} (h : e.IsAbout path)
    (hpath : OneLine path) : OneLine e.line := by
  cases e with
  | loaded other name =>
    obtain rfl : other = path := h
    have hstart : OneLine "DEBUG kwdoc::models: loaded keyword description path=" := by
      decide +kernel
    exact oneLine_append (oneLine_append (oneLine_append hstart hpath) (by decide))
      (oneLine_quoted name)
  | unnamed other =>
    obtain rfl : other = path := h
    have hstart : OneLine "WARN kwdoc::cli::gen: keyword description has no name path=" := by
      decide +kernel
    exact oneLine_append hstart hpath
  | rendered summary bytes =>
    have hstart : OneLine "DEBUG kwdoc::cli::gen: rendered keyword summary=" := by
      decide +kernel
    have hsummary : OneLine summary.name := by cases summary <;> decide
    exact oneLine_append (oneLine_append (oneLine_append hstart hsummary) (by decide))
      (oneLine_repr bytes)

variable {tree : FileTree} {args : List String} {c : Course}

theorem Command.Asks.input_mem {input : String} {output : Option String}
    (h : Asks args input output) : input ∈ args := by
  have hinput : input ∈ Command.positionals args := by
    rw [h.positionals]
    exact List.mem_cons_self
  rcases List.mem_append.mp hinput with hbefore | hafter
  · exact (List.takeWhile_sublist _).subset (List.mem_filter.mp hbefore).1
  · exact (List.dropWhile_sublist _).subset (List.mem_of_mem_tail hafter)

/-- An event does not mention a path that is no argument. -/
theorem Takes.isAbout_of_mem_events (h : Takes tree args c) {e : Event} (he : e ∈ c.events) :
    ∃ path ∈ args, e.IsAbout path := by
  cases h with
  | misused => cases he
  | helped => cases he
  | failed hasks _ hevents => exact ⟨_, hasks.input_mem, hevents e he⟩
  | printed hasks => exact ⟨_, hasks.input_mem, Keyword.isAbout_of_mem_events he⟩
  | written hasks => exact ⟨_, hasks.input_mem, Keyword.isAbout_of_mem_events he⟩

/-- The lines of what is said beside the output. -/
def Outcome.stderrLines (o : Outcome) : List String := lines (unlines o.stderr)

theorem Course.stderrLines_outcome (h : ∀ e ∈ c.events, OneLine e.line) (setting : LogSetting) :
    (c.outcome setting).stderrLines =
      logLines setting c.events ++ lines (unlines c.messages) := by
  refine lines_unlines_append ?_ c.messages
  intro l hl
  obtain ⟨e, he, rfl⟩ := List.mem_map.mp hl
  exact h e (List.mem_filter.mp he).1

/-- Two outcomes that differ at most in what is said beside the output. -/
def Outcome.SameEffects (o other : Outcome) : Prop :=
  o.exitCode = other.exitCode ∧ o.stdout = other.stdout ∧ o.tree = other.tree

/-- What is logged decides neither on the exit code nor on the output nor on the files. And among
the settings that name a level, or none, a louder one adds lines of the log and changes no other
line. -/
theorem program_log_only_adds (tree : FileTree) (h : ∀ argument ∈ args, OneLine argument) :
    (∀ setting other, (program tree args setting).SameEffects (program tree args other)) ∧
      ∀ quiet loud : Option LogLevel, (quiet.getD .warn).rank ≤ (loud.getD .warn).rank →
        Adds (IsShownFrom (quiet.getD .warn) (loud.getD .warn))
          (program tree args (quiet.map LogLevel.name)).stderrLines
          (program tree args (loud.map LogLevel.name)).stderrLines := by
  obtain ⟨c, hc, hprogram⟩ := program_takes tree args
  simp only [hprogram]
  constructor
  · intro setting other
    exact ⟨rfl, rfl, rfl⟩
  · intro quiet loud hlevel
    have hevents : ∀ e ∈ c.events, OneLine e.line := by
      intro e he
      obtain ⟨path, hpath, habout⟩ := hc.isAbout_of_mem_events he
      exact e.oneLine_line habout (h path hpath)
    rw [Course.stderrLines_outcome hevents, Course.stderrLines_outcome hevents,
      LogSetting.ofText_name, LogSetting.ofText_name]
    exact (adds_logLines hlevel c.events).append (.refl _ _)

theorem program_log_only_adds_of_nameless :
    let args := ["/work/nameless", "/tmp/b"]
    (∀ argument ∈ args, OneLine argument) ∧ LogLevel.off.rank ≤ LogLevel.warn.rank ∧
      (program exampleTree args (some "trace")).SameEffects (program exampleTree args none) ∧
      Adds (IsShownFrom .off .warn) ["Written to '/tmp/b'.", ""]
        ["WARN kwdoc::cli::gen: keyword description has no name path=/work/nameless",
          "Written to '/tmp/b'.", ""] := by
  intro args
  have hargs : ∀ argument ∈ args, OneLine argument := by decide
  have hlevel : LogLevel.off.rank ≤ LogLevel.warn.rank := by decide
  obtain ⟨hsame, hadds⟩ := program_log_only_adds exampleTree hargs
  have hquiet : (program exampleTree args (some "off")).stderrLines =
      ["Written to '/tmp/b'.", ""] := by decide +kernel
  have hloud : (program exampleTree args none).stderrLines =
      ["WARN kwdoc::cli::gen: keyword description has no name path=/work/nameless",
        "Written to '/tmp/b'.", ""] := by
    decide +kernel
  have hunset := hadds (some .off) none hlevel
  refine ⟨hargs, hlevel, hsame (some "trace") none, ?_⟩
  rw [← hloud, ← hquiet]
  exact hunset

end DeckDoc
