import DeckDoc.CommandLine.Arguments
import DeckDoc.Proofs.Except

namespace DeckDoc

/-- A value does not begin with a dash, or is a dash alone. -/
def IsValue (argument : String) : Prop := argument.toList.head? = some '-' → argument = "-"

instance : DecidablePred IsValue := fun argument =>
  inferInstanceAs (Decidable (argument.toList.head? = some '-' → argument = "-"))

/-- Of a group of letters the first counts. -/
def IsHelp (argument : String) : Prop :=
  argument = "--help" ∨ ['-', 'h'] <+: argument.toList

instance : DecidablePred IsHelp := fun argument =>
  inferInstanceAs (Decidable (argument = "--help" ∨ ['-', 'h'] <+: argument.toList))

namespace Argument

variable {argument : String}

theorem eq_ofList_iff {cs : List Char} : argument = String.ofList cs ↔ argument.toList = cs := by
  rw [← String.toList_inj, String.toList_ofList]

theorem classify_eq_value_iff : classify argument = .value ↔ IsValue argument := by
  unfold classify IsValue
  rw [show "-" = String.ofList ['-'] from rfl, eq_ofList_iff]
  split
  · next h => simp [h]
  · next h =>
    simp only [h]
    split <;> split <;> simp
  · next h =>
    simp only [h]
    split <;> simp
  · next h₁ h₂ h₃ =>
    rcases hcs : argument.toList with - | ⟨c, cs⟩
    · simp
    · by_cases hc : c = '-'
      · subst hc
        cases cs with
        | nil => simp
        | cons d ds => exact absurd hcs (h₃ d ds)
      · simp [hc]

theorem classify_eq_escape_iff : classify argument = .escape ↔ argument = "--" := by
  rw [show "--" = String.ofList ['-', '-'] from rfl, eq_ofList_iff]
  unfold classify
  split
  · next h => simp [h]
  · next h₁ h =>
    simp only [h]
    split <;> split <;> simp_all
  · next h₁ h₂ h =>
    simp only [h]
    split <;> simp_all
  · next h₁ h₂ h₃ => simp_all

theorem classify_eq_help_iff : classify argument = .help ↔ IsHelp argument := by
  unfold IsHelp
  rw [show "--help" = String.ofList ['-', '-', 'h', 'e', 'l', 'p'] from rfl, eq_ofList_iff]
  unfold classify
  split
  · next h => simp [h]
  · next option h₁ h =>
    have hoption : String.ofList (option.takeWhile (· ≠ '=')) = "help" ↔
        option.takeWhile (· ≠ '=') = ['h', 'e', 'l', 'p'] := by
      rw [show "help" = String.ofList ['h', 'e', 'l', 'p'] from rfl, String.ofList_inj]
    have happend := List.takeWhile_append_dropWhile (p := (· ≠ '=')) (l := option)
    simp only [h]
    split
    · next hdrop =>
      rw [hdrop, List.append_nil] at happend
      rw [happend] at hoption ⊢
      by_cases hhelp : option = ['h', 'e', 'l', 'p'] <;> simp [hoption, hhelp]
    · next hdrop =>
      have hne : option ≠ ['h', 'e', 'l', 'p'] := by
        rintro rfl
        simp at hdrop
      split <;> simp [hne]
  · next c cs _ hdash h =>
    have hdash : c ≠ '-' := hdash
    simp only [h]
    by_cases hc : c = 'h'
    · simp [hc]
    · simp [hc, Ne.symm hc, hdash]
  · next h₁ h₂ h₃ =>
    simp only [reduceCtorEq, false_iff, not_or]
    refine ⟨h₂ _, ?_⟩
    rintro ⟨cs, hcs⟩
    exact h₃ 'h' cs hcs.symm

end Argument

namespace Positionals

variable {values : Positionals} {v : String}

def toList : Positionals → List String
  | none => []
  | input path => [path]
  | both path output => [path, output]

theorem length_toList_le (values : Positionals) : values.toList.length ≤ 2 := by
  cases values <;> simp [toList]

/-- All values but the last one have been found not to be empty. -/
def Checked (values : Positionals) : Prop := "" ∉ values.toList.dropLast

theorem toList_inj {other : Positionals} : values.toList = other.toList ↔ values = other := by
  cases values <;> cases other <;> simp [toList]

theorem check_eq_ok_iff (h : values.Checked) : values.check = .ok () ↔ "" ∉ values.toList := by
  cases values with
  | none => simp [check, toList]
  | input path => by_cases hp : path = "" <;> simp [check, toList, hp, Ne.symm]
  | both path output =>
    have hp : "" ≠ path := by simpa [Checked, toList] using h
    by_cases ho : output = "" <;> simp [check, toList, hp, ho, Ne.symm]

theorem add_eq_ok_iff (h : values.Checked) {more : Positionals} :
    values.add v = .ok more ↔ "" ∉ values.toList ∧ more.toList = values.toList ++ [v] := by
  cases values with
  | none =>
    rw [show none.toList ++ [v] = (input v).toList from rfl, toList_inj]
    simp [add, toList, eq_comm]
  | input path =>
    rw [show (input path).toList ++ [v] = (both path v).toList from rfl, toList_inj,
      ← check_eq_ok_iff h]
    refine Except.seq_eq_ok_iff.trans (and_congr_right fun _ => ?_)
    rw [Except.ok.injEq, eq_comm]
  | both path output => cases more <;> simp [add, toList]

theorem Checked.add {more : Positionals} (hadd : more.toList = values.toList ++ [v])
    (hv : "" ∉ values.toList) : more.Checked := by
  rwa [Checked, hadd, List.dropLast_concat]

theorem exists_add (h : values.toList.length < 2) (v : String) :
    ∃ more : Positionals, more.toList = values.toList ++ [v] := by
  cases values with
  | none => exact ⟨input v, rfl⟩
  | input path => exact ⟨both path v, rfl⟩
  | both path output => simp [toList] at h

/-- One more value is taken if those before it are in order. What is asked of all of them in the end
settles that, whatever the values after it may be. -/
theorem add_bind_eq_ok_iff (P S : List String → Prop) (h : values.Checked)
    {f : Positionals → Except Misuse Command} {c : Command} (hP : ∀ l, P l → l.length ≤ 2 ∧ "" ∉ l)
    (hf : ∀ more : Positionals, more.Checked →
      (f more = .ok c ↔ ∃ rest, S rest ∧ P (more.toList ++ rest))) :
    (values.add v >>= f) = .ok c ↔ ∃ rest, S rest ∧ P (values.toList ++ v :: rest) := by
  rw [Except.bind_eq_ok_iff]
  constructor
  · rintro ⟨more, hmore, hc⟩
    obtain ⟨hvalues, hadd⟩ := (add_eq_ok_iff h).mp hmore
    obtain ⟨rest, hrest, hall⟩ := (hf more (.add hadd hvalues)).mp hc
    rw [hadd, List.append_assoc, List.singleton_append] at hall
    exact ⟨rest, hrest, hall⟩
  · rintro ⟨rest, hrest, hall⟩
    obtain ⟨hlength, hempty⟩ := hP _ hall
    have hvalues : "" ∉ values.toList := fun hm => hempty (List.mem_append_left _ hm)
    rw [List.length_append, List.length_cons] at hlength
    have hroom : values.toList.length < 2 := by omega
    obtain ⟨more, hadd⟩ := exists_add hroom v
    refine ⟨more, (add_eq_ok_iff h).mpr ⟨hvalues, hadd⟩, (hf more (.add hadd hvalues)).mpr ?_⟩
    refine ⟨rest, hrest, ?_⟩
    rwa [hadd, List.append_assoc, List.singleton_append]

theorem finish_eq_ok_iff (h : values.Checked) {c : Command} :
    values.finish = .ok c ↔
      "" ∉ values.toList ∧ ∃ i o, c = .document i o ∧ values.toList = i :: Option.toList o := by
  rw [← check_eq_ok_iff h]
  refine Except.seq_eq_ok_iff.trans (and_congr_right fun _ => ?_)
  cases values with
  | none => simp [toList]
  | input path =>
    constructor
    · intro hc
      exact ⟨path, .none, (Except.ok.inj hc).symm, rfl⟩
    · rintro ⟨i, o, rfl, hvalues⟩
      cases o <;> simp_all [toList]
  | both path output =>
    constructor
    · intro hc
      exact ⟨path, some output, (Except.ok.inj hc).symm, rfl⟩
    · rintro ⟨i, o, rfl, hvalues⟩
      cases o <;> simp_all [toList]

end Positionals

namespace Command

variable {values : Positionals} {args : List String} {input : String} {output : Option String}

/-- After a double dash everything is a value. -/
def afterDash (args : List String) : List String := (args.dropWhile (· ≠ "--")).tail

def beforeDash (args : List String) : List String := args.takeWhile (· ≠ "--")

/-- The arguments that are no options. -/
def positionals (args : List String) : List String :=
  (beforeDash args).filter (IsValue ·) ++ afterDash args

/-- The arguments are an input and perhaps an output, neither of them empty, and no option. -/
structure Asks (args : List String) (input : String) (output : Option String) : Prop where
  noOption : ∀ argument ∈ beforeDash args, IsValue argument
  positionals : positionals args = input :: output.toList
  nonempty : "" ∉ Command.positionals args

/-- A flag that asks for help stands after some values. -/
def HelpAfter (args before : List String) : Prop :=
  ∃ flag after, args = before ++ flag :: after ∧ IsHelp flag ∧ ∀ value ∈ before, IsValue value

/-- Help is asked for after what may be an input and an output. -/
def AsksHelp (args : List String) : Prop :=
  ∃ before, HelpAfter args before ∧ before.length ≤ 2 ∧ "" ∉ before

/-- What a command for a document asks of the values. -/
def Documents (c : Command) (values : List String) : Prop :=
  "" ∉ values ∧ ∃ input output, c = .document input output ∧ values = input :: Option.toList output

theorem Documents.length_le {c : Command} {values : List String} (h : Documents c values) :
    values.length ≤ 2 ∧ "" ∉ values := by
  obtain ⟨hempty, input, output, -, rfl⟩ := h
  refine ⟨?_, hempty⟩
  cases output <;> simp

theorem ofValues_eq_ok_iff (h : values.Checked) {c : Command} :
    ofValues values args = .ok c ↔ Documents c (values.toList ++ args) := by
  induction args generalizing values with
  | nil => rw [ofValues, List.append_nil, Positionals.finish_eq_ok_iff h, Documents]
  | cons a rest ih =>
    have hstep := Positionals.add_bind_eq_ok_iff (v := a) (c := c) (Documents c) (· = rest) h
      (fun _ => Documents.length_le) (f := (ofValues · rest)) fun more hmore => by simp [ih hmore]
    rw [ofValues, hstep]
    simp

theorem not_isValue_dashes : ¬ IsValue "--" := by decide

theorem beforeDash_cons {a : String} (h : a ≠ "--") (rest : List String) :
    beforeDash (a :: rest) = a :: beforeDash rest := by
  simp [beforeDash, h]

theorem positionals_cons {a : String} (h : IsValue a) (rest : List String) :
    positionals (a :: rest) = a :: positionals rest := by
  have hne : a ≠ "--" := by
    rintro rfl
    exact not_isValue_dashes h
  simp [positionals, beforeDash_cons hne, afterDash, hne, h]

/-- Documents are asked for by arguments without options, of which the values are in order. -/
theorem ofArguments_eq_ok_iff (h : values.Checked) {c : Command} (hc : c ≠ .help) :
    ofArguments values args = .ok c ↔
      (∀ argument ∈ beforeDash args, IsValue argument) ∧
        Documents c (values.toList ++ positionals args) := by
  induction args generalizing values with
  | nil =>
    rw [ofArguments, Positionals.finish_eq_ok_iff h]
    simp [beforeDash, positionals, afterDash, Documents]
  | cons a rest ih =>
    rw [ofArguments]
    by_cases hv : IsValue a
    · have hne : a ≠ "--" := by
        rintro rfl
        exact not_isValue_dashes hv
      have hstep := Positionals.add_bind_eq_ok_iff (v := a) (c := c)
        (fun all => (∀ argument ∈ beforeDash rest, IsValue argument) ∧ Documents c all)
        (· = positionals rest) h (fun _ hall => hall.2.length_le)
        (f := (ofArguments · rest)) fun more hmore => by simp [ih hmore]
      rw [Argument.classify_eq_value_iff.mpr hv]
      dsimp only
      rw [hstep, positionals_cons hv, beforeDash_cons hne]
      simp [hv]
    · by_cases hdash : a = "--"
      · subst hdash
        rw [Argument.classify_eq_escape_iff.mpr rfl]
        dsimp only
        rw [ofValues_eq_ok_iff h]
        simp [beforeDash, positionals, afterDash]
      · have hoption : ¬ ∀ argument ∈ beforeDash (a :: rest), IsValue argument := by
          rw [beforeDash_cons hdash]
          exact fun h => hv (h a List.mem_cons_self)
        simp only [hoption, false_and, iff_false]
        cases hclass : Argument.classify a with
        | value => exact absurd (Argument.classify_eq_value_iff.mp hclass) hv
        | escape => exact absurd (Argument.classify_eq_escape_iff.mp hclass) hdash
        | help =>
          intro hok
          obtain ⟨-, hhelp⟩ := Except.seq_eq_ok_iff.mp hok
          exact hc (Except.ok.inj hhelp).symm
        | helpWith => simp
        | unknownLetter => simp
        | unknownName => simp

theorem checked_none : Positionals.none.Checked := by
  simp [Positionals.Checked, Positionals.toList]

theorem ofArguments_eq_document_iff :
    ofArguments .none args = .ok (.document input output) ↔ Asks args input output := by
  rw [ofArguments_eq_ok_iff checked_none (by simp)]
  constructor
  · rintro ⟨hoption, hempty, i, o, heq, hvalues⟩
    obtain ⟨rfl, rfl⟩ := Command.document.inj heq
    exact ⟨hoption, hvalues, hempty⟩
  · intro h
    exact ⟨h.noOption, h.nonempty, input, output, rfl, h.positionals⟩

theorem isHelp_of_isValue {a : String} (h : IsValue a) : ¬ IsHelp a := by
  intro hhelp
  have hvalue := Argument.classify_eq_value_iff.mpr h
  rw [Argument.classify_eq_help_iff.mpr hhelp] at hvalue
  cases hvalue

theorem helpAfter_cons_of_isValue {a : String} (h : IsValue a) {rest before : List String} :
    HelpAfter (a :: rest) before ↔ ∃ between, before = a :: between ∧ HelpAfter rest between := by
  constructor
  · rintro ⟨flag, after, heq, hflag, hvalues⟩
    cases before with
    | nil =>
      obtain ⟨rfl, -⟩ := List.cons.inj heq
      exact absurd hflag (isHelp_of_isValue h)
    | cons b between =>
      obtain ⟨rfl, hrest⟩ := List.cons.inj heq
      exact ⟨between, rfl, flag, after, hrest, hflag,
        fun value hm => hvalues value (List.mem_cons_of_mem _ hm)⟩
  · rintro ⟨between, rfl, flag, after, rfl, hflag, hvalues⟩
    exact ⟨flag, after, rfl, hflag, List.forall_mem_cons.mpr ⟨h, hvalues⟩⟩

theorem helpAfter_cons_of_not_isValue {a : String} (h : ¬ IsValue a) {rest before : List String} :
    HelpAfter (a :: rest) before ↔ before = [] ∧ IsHelp a := by
  constructor
  · rintro ⟨flag, after, heq, hflag, hvalues⟩
    cases before with
    | nil =>
      obtain ⟨rfl, -⟩ := List.cons.inj heq
      exact ⟨rfl, hflag⟩
    | cons b between =>
      obtain ⟨rfl, -⟩ := List.cons.inj heq
      exact absurd (hvalues a List.mem_cons_self) h
  · rintro ⟨rfl, hhelp⟩
    exact ⟨a, rest, rfl, hhelp, by simp⟩

/-- Help is given when it is asked for after values that are in order. -/
theorem ofArguments_eq_help_iff (h : values.Checked) :
    ofArguments values args = .ok .help ↔
      ∃ before, HelpAfter args before ∧
        (values.toList ++ before).length ≤ 2 ∧ "" ∉ values.toList ++ before := by
  induction args generalizing values with
  | nil =>
    rw [ofArguments, Positionals.finish_eq_ok_iff h]
    simp [HelpAfter]
  | cons a rest ih =>
    rw [ofArguments]
    by_cases hv : IsValue a
    · have hstep := Positionals.add_bind_eq_ok_iff (v := a) (c := .help)
        (fun all => all.length ≤ 2 ∧ "" ∉ all) (HelpAfter rest) h (fun _ hall => hall)
        (f := (ofArguments · rest)) fun more hmore => ih hmore
      rw [Argument.classify_eq_value_iff.mpr hv]
      dsimp only
      rw [hstep]
      simp [helpAfter_cons_of_isValue hv]
    · have hhelp : (∃ before, HelpAfter (a :: rest) before ∧
          (values.toList ++ before).length ≤ 2 ∧ "" ∉ values.toList ++ before) ↔
          IsHelp a ∧ "" ∉ values.toList := by
        simp [helpAfter_cons_of_not_isValue hv, values.length_toList_le]
      rw [hhelp, ← Argument.classify_eq_help_iff]
      cases hclass : Argument.classify a with
      | value => exact absurd (Argument.classify_eq_value_iff.mp hclass) hv
      | escape => simp [ofValues_eq_ok_iff h, Documents]
      | help =>
        refine Except.seq_eq_ok_iff.trans ?_
        simp [Positionals.check_eq_ok_iff h]
      | helpWith => simp
      | unknownLetter => simp
      | unknownName => simp

theorem ofArguments_eq_help_iff_asks : ofArguments .none args = .ok .help ↔ AsksHelp args :=
  ofArguments_eq_help_iff checked_none

theorem Asks.not_asksHelp (h : Asks args input output) : ¬ AsksHelp args := by
  intro hhelp
  rw [← ofArguments_eq_help_iff_asks, ofArguments_eq_document_iff.mpr h] at hhelp
  cases hhelp

theorem Asks.unique {other : String} {path : Option String} (h : Asks args input output)
    (hother : Asks args other path) : input = other ∧ output = path := by
  have hasked := ofArguments_eq_document_iff.mpr h
  rw [ofArguments_eq_document_iff.mpr hother] at hasked
  obtain ⟨rfl, rfl⟩ := Command.document.inj (Except.ok.inj hasked)
  exact ⟨rfl, rfl⟩

end Command

end DeckDoc
