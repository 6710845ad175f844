import DeckDoc.FileTree
import DeckDoc.Proofs.Except

namespace DeckDoc.FileTree

variable {t : FileTree} {path : String} {place p q : List String}

/-- A name that is no file's: it stays in a directory or leaves it upwards. -/
def IsDots (name : String) : Prop := name = "" ∨ name = "." ∨ name = ".."

/-- Where one name leads from a place. -/
inductive Step (t : FileTree) (place : List String) : String → List String → Prop
  | stay {name : String} (hd : t.get? place = some .directory) (hn : name = "" ∨ name = ".") :
      Step t place name place
  | up (hd : t.get? place = some .directory) : Step t place ".." place.dropLast
  | down {name : String} (hd : t.get? place = some .directory) (hn : ¬ IsDots name)
      (hsize : name.utf8ByteSize ≤ nameLimit) : Step t place name (place ++ [name])

theorem Step.utf8ByteSize_le {name : String} (h : t.Step p name q) :
    name.utf8ByteSize ≤ nameLimit := by
  cases h with
  | stay _ hn => rcases hn with rfl | rfl <;> decide
  | up _ => decide
  | down _ _ hsize => exact hsize

theorem Step.get?_eq {name : String} (h : t.Step p name q) : t.get? p = some .directory := by
  cases h <;> assumption

/-- Where a name leads depends on nothing but which places are directories. -/
theorem Step.congr {u : FileTree} {name : String}
    (hsame : ∀ names, t.get? names = some .directory → u.get? names = some .directory)
    (h : t.Step p name q) : u.Step p name q := by
  cases h with
  | stay hd hn => exact .stay (hsame _ hd) hn
  | up hd => exact .up (hsame _ hd)
  | down hd hn hsize => exact .down (hsame _ hd) hn hsize

/-- A file that is put in where no directory is leaves the directories as they are. -/
theorem get?_put_eq_directory_iff {names : List String} {content : ByteArray}
    (hd : t.get? place ≠ some .directory) :
    (t.put place (.file content)).get? names = some .directory ↔
      t.get? names = some .directory := by
  by_cases hn : names = place
  · subst hn
    simp [get?_put_self t hd, hd]
  · rw [get?_put_of_ne t hn]

/-- Such a file does not change where names lead. -/
theorem step_put_iff {name : String} {content : ByteArray} (hd : t.get? place ≠ some .directory) :
    (t.put place (.file content)).Step p name q ↔ t.Step p name q := by
  constructor
  · intro h
    exact h.congr fun names => (get?_put_eq_directory_iff hd).mp
  · intro h
    exact h.congr fun names => (get?_put_eq_directory_iff hd).mpr

theorem descend_cons_of_step {name : String} (h : t.Step p name q) (rest : List String) :
    t.descend p (name :: rest) = t.descend q rest := by
  cases h with
  | stay hd hn =>
    simp only [descend, hd]
    rw [if_pos hn]
  | up hd =>
    simp only [descend, hd]
    rw [if_neg (by decide), if_pos trivial]
  | down hd hn hsize =>
    simp only [descend, hd]
    rw [if_neg fun h => hn (h.imp_right .inl), if_neg fun h => hn (.inr (.inr h)),
      if_neg (Nat.not_lt.mpr hsize)]

/-- Where a name leads nowhere, what is at the place tells the fault. -/
theorem step_or_fault (t : FileTree) (p : List String) (name : String) :
    (∃ q, t.Step p name q) ∨ ∃ fault, ∀ u : FileTree, u.get? p = t.get? p →
      ∀ rest, u.descend p (name :: rest) = .error fault := by
  rcases hg : t.get? p with - | e
  · exact .inr ⟨.notFound, fun u hu rest => by simp only [descend, hu]⟩
  cases e with
  | file => exact .inr ⟨.notADirectory, fun u hu rest => by simp only [descend, hu]⟩
  | directory =>
    by_cases hstay : name = "" ∨ name = "."
    · exact .inl ⟨_, .stay hg hstay⟩
    by_cases hup : name = ".."
    · subst hup
      exact .inl ⟨_, .up hg⟩
    have hn : ¬ IsDots name := by
      unfold IsDots
      rwa [← or_assoc, not_or, and_iff_right hstay]
    by_cases hsize : nameLimit < name.utf8ByteSize
    · refine .inr ⟨.nameTooLong, fun u hu rest => ?_⟩
      simp only [descend, hu]
      rw [if_neg hstay, if_neg hup, if_pos hsize]
    · exact .inl ⟨_, .down hg hn (Nat.le_of_not_lt hsize)⟩

theorem descend_cons_eq_ok_iff {name : String} {rest : List String} :
    t.descend p (name :: rest) = .ok q ↔
      ∃ r, t.Step p name r ∧ t.descend r rest = .ok q := by
  constructor
  · intro h
    rcases step_or_fault t p name with ⟨r, hstep⟩ | ⟨fault, hfault⟩
    · rw [descend_cons_of_step hstep] at h
      exact ⟨r, hstep, h⟩
    · rw [hfault t rfl] at h
      cases h
  · rintro ⟨r, hstep, hr⟩
    rwa [descend_cons_of_step hstep]

theorem descend_append_eq_ok_iff {before after : List String} :
    t.descend p (before ++ after) = .ok q ↔
      ∃ r, t.descend p before = .ok r ∧ t.descend r after = .ok q := by
  induction before generalizing p with
  | nil => simp [descend]
  | cons name rest ih =>
    simp only [List.cons_append, descend_cons_eq_ok_iff, ih]
    constructor
    · rintro ⟨r, hstep, s, hs, hq⟩
      exact ⟨s, ⟨r, hstep, hs⟩, hq⟩
    · rintro ⟨s, ⟨r, hstep, hs⟩, hq⟩
      exact ⟨r, hstep, s, hs, hq⟩

theorem descend_one_eq_ok_iff {name : String} : t.descend p [name] = .ok q ↔ t.Step p name q := by
  rw [descend_cons_eq_ok_iff]
  constructor
  · rintro ⟨r, hstep, hr⟩
    exact Except.ok.inj hr ▸ hstep
  · intro hstep
    exact ⟨q, hstep, rfl⟩

theorem descend_put_eq_ok_iff {names : List String} {content : ByteArray}
    (hd : t.get? place ≠ some .directory) :
    (t.put place (.file content)).descend p names = .ok q ↔ t.descend p names = .ok q := by
  induction names generalizing p with
  | nil => rfl
  | cons name rest ih => simp only [descend_cons_eq_ok_iff, step_put_iff hd, ih]

theorem utf8ByteSize_le_of_descend {names : List String} (h : t.descend p names = .ok q) :
    ∀ name ∈ names, name.utf8ByteSize ≤ nameLimit := by
  induction names generalizing p with
  | nil => simp
  | cons name rest ih =>
    obtain ⟨r, hstep, hr⟩ := descend_cons_eq_ok_iff.mp h
    exact List.forall_mem_cons.mpr ⟨hstep.utf8ByteSize_le, ih hr⟩

/-- One can stay in a place exactly if it is a directory. -/
theorem step_dot_iff : t.Step p "." q ↔ p = q ∧ t.get? q = some .directory := by
  constructor
  · intro h
    generalize hname : "." = name at h
    cases h with
    | stay hd => exact ⟨rfl, hd⟩
    | up => exact absurd hname (by decide)
    | down _ hn => exact absurd (.inr (.inl hname.symm)) hn
  · rintro ⟨rfl, hd⟩
    exact .stay hd (.inr rfl)

/-- Everything above a place that was reached along a path is a directory. -/
def Reached (t : FileTree) (place : List String) : Prop :=
  ∀ above, above <+: place.dropLast → t.get? above = some .directory

theorem reached_start (t : FileTree) (path : String) : t.Reached (t.start path) := by
  intro above habove
  refine if_pos ?_
  unfold start at habove
  split at habove
  · rw [List.prefix_nil.mp habove]
    exact List.nil_prefix
  · exact habove.trans (List.dropLast_prefix _)

theorem Step.reached {name : String} (h : t.Step p name q) (hp : t.Reached p) : t.Reached q := by
  cases h with
  | stay => exact hp
  | up hd =>
    intro above habove
    exact hp above (habove.trans (List.dropLast_prefix _))
  | down hd =>
    intro above habove
    rw [List.dropLast_concat] at habove
    rcases List.eq_nil_or_concat p with rfl | ⟨upper, last, rfl⟩
    · rwa [List.prefix_nil.mp habove]
    · rw [List.concat_eq_append] at *
      rcases List.prefix_concat_iff.mp habove with rfl | habove
      · exact hd
      · exact hp above (by rwa [List.dropLast_concat])

theorem reached_of_descend {names : List String} (h : t.descend p names = .ok q)
    (hp : t.Reached p) : t.Reached q := by
  induction names generalizing p with
  | nil => exact Except.ok.inj h ▸ hp
  | cons name rest ih =>
    obtain ⟨r, hstep, hr⟩ := descend_cons_eq_ok_iff.mp h
    exact ih hr (hstep.reached hp)

/-- From the root the names of the working directory lead there. -/
theorem descend_directory
    (h : ∀ name ∈ t.directory, ¬ IsDots name ∧ name.utf8ByteSize ≤ nameLimit) :
    t.descend [] t.directory = .ok t.directory := by
  have below : ∀ after before, t.directory = before ++ after →
      t.descend before after = .ok t.directory := by
    intro after
    induction after with
    | nil =>
      intro before hbefore
      rw [descend, hbefore, List.append_nil]
    | cons name rest ih =>
      intro before hbefore
      obtain ⟨hn, hsize⟩ := h name (by simp [hbefore])
      have hd : t.get? before = some .directory := if_pos ⟨name :: rest, hbefore.symm⟩
      exact descend_cons_eq_ok_iff.mpr ⟨_, .down hd hn hsize, ih _ (by simp [hbefore])⟩
  exact below _ [] rfl

/-- A path that can be handed to the system. -/
def Nameable (path : String) : Prop :=
  '\x00' ∉ path.toList ∧ path.utf8ByteSize ≤ pathLimit ∧
    ∀ name ∈ names path, name.utf8ByteSize ≤ nameLimit

/-- There is a directory at the path, for one can stay there. -/
def IsDirectory (t : FileTree) (path : String) : Prop :=
  ∃ place, t.descend (t.start path) (names path ++ ["."]) = .ok place

/-- The path without its last name leads to a directory. -/
def HasParent (t : FileTree) (path : String) : Prop :=
  ∃ parent, t.descend (t.start path) ((names path).dropLast ++ ["."]) = .ok parent

/-- A file at the path can be opened for writing, be it new or not. -/
def Writable (t : FileTree) (path : String) : Prop :=
  Nameable path ∧ t.HasParent path ∧ ¬ t.IsDirectory path

/-- The path leads to a place, be there a file or not. -/
def Leads (t : FileTree) (path : String) (place : List String) : Prop :=
  path ≠ "" ∧ path.utf8ByteSize ≤ pathLimit ∧
    t.descend (t.start path) (names path) = .ok place

theorem names_eq_concat (path : String) : ∃ above name, names path = above ++ [name] := by
  have hne : names path ≠ [] := by
    simpa [names] using Text.parts_ne_nil '/' path.toList
  exact ⟨_, _, (List.dropLast_concat_getLast hne).symm⟩

theorem file?_eq_some_iff {content : ByteArray} :
    t.file? path = some content ↔
      ∃ place, t.Leads path place ∧ t.get? place = some (.file content) := by
  unfold file? Leads
  by_cases hp : path = "" ∨ pathLimit < path.utf8ByteSize
  · rw [if_pos hp]
    simp only [reduceCtorEq, false_iff, not_exists, not_and]
    intro place h
    exact absurd hp (not_or.mpr ⟨h.1, Nat.not_lt.mpr h.2.1⟩)
  · obtain ⟨hne, hsize⟩ := not_or.mp hp
    rw [if_neg hp]
    rcases t.descend (t.start path) (names path) with - | p
    · simp
    rcases hg : t.get? p with - | e
    · simp [hne, Nat.le_of_not_lt hsize, hg]
    · cases e <;> simp [hne, Nat.le_of_not_lt hsize, hg]

theorem leads_put_iff {other : List String} {content : ByteArray}
    (hd : t.get? place ≠ some .directory) :
    (t.put place (.file content)).Leads path other ↔ t.Leads path other := by
  unfold Leads
  rw [start_put, descend_put_eq_ok_iff hd]

/-- What is put in is found along every path to the place. -/
theorem file?_put_of_leads {content : ByteArray} (hd : t.get? place ≠ some .directory)
    (h : t.Leads path place) : (t.put place (.file content)).file? path = some content :=
  file?_eq_some_iff.mpr ⟨place, (leads_put_iff hd).mpr h, get?_put_self t hd _⟩

/-- All other files are as before. -/
theorem file?_put_of_not_leads {content : ByteArray} (hd : t.get? place ≠ some .directory)
    (h : ¬ t.Leads path place) : (t.put place (.file content)).file? path = t.file? path := by
  have hsame : ∀ other, t.Leads path other →
      (t.put place (.file content)).get? other = t.get? other := by
    intro other hother
    have hne : other ≠ place := by
      rintro rfl
      exact h hother
    exact get?_put_of_ne t hne _
  refine Option.ext fun found => ?_
  simp only [file?_eq_some_iff, leads_put_iff hd]
  constructor
  · rintro ⟨other, hother, hget⟩
    exact ⟨other, hother, hsame other hother ▸ hget⟩
  · rintro ⟨other, hother, hget⟩
    exact ⟨other, hother, (hsame other hother).trans hget⟩

section
variable {above : List String} {name : String}

theorem descend_dot_eq_ok_iff {names : List String} :
    t.descend p (names ++ ["."]) = .ok place ↔
      t.descend p names = .ok place ∧ t.get? place = some .directory := by
  constructor
  · intro h
    obtain ⟨r, hr, hdot⟩ := descend_append_eq_ok_iff.mp h
    obtain ⟨rfl, hd⟩ := step_dot_iff.mp (descend_one_eq_ok_iff.mp hdot)
    exact ⟨hr, hd⟩
  · rintro ⟨h, hd⟩
    exact descend_append_eq_ok_iff.mpr ⟨_, h,
      descend_one_eq_ok_iff.mpr (step_dot_iff.mpr ⟨rfl, hd⟩)⟩

theorem hasParent_iff (h : names path = above ++ [name]) :
    t.HasParent path ↔ ∃ parent, t.descend (t.start path) above = .ok parent ∧
      t.get? parent = some .directory := by
  unfold HasParent
  rw [h, List.dropLast_concat]
  simp only [descend_dot_eq_ok_iff]

theorem isDirectory_iff (h : names path = above ++ [name]) {parent : List String}
    (hparent : t.descend (t.start path) above = .ok parent) :
    t.IsDirectory path ↔ ∃ r, t.Step parent name r ∧ ∃ q, t.Step r "." q := by
  unfold IsDirectory
  rw [h]
  constructor
  · rintro ⟨q, hq⟩
    obtain ⟨r, hr, hdot⟩ := descend_append_eq_ok_iff.mp hq
    obtain ⟨s, hs, hname⟩ := descend_append_eq_ok_iff.mp hr
    obtain rfl := Except.ok.inj (hparent.symm.trans hs)
    exact ⟨r, descend_one_eq_ok_iff.mp hname, q, descend_one_eq_ok_iff.mp hdot⟩
  · rintro ⟨r, hname, q, hdot⟩
    exact ⟨q, descend_append_eq_ok_iff.mpr ⟨r, descend_append_eq_ok_iff.mpr ⟨_, hparent,
      descend_one_eq_ok_iff.mpr hname⟩, descend_one_eq_ok_iff.mpr hdot⟩⟩

/-- A path that ends in a dot, two dots or a slash leads to a directory if it leads anywhere. -/
theorem isDirectory_of_isDots (h : names path = above ++ [name]) (hn : IsDots name)
    (hparent : t.HasParent path) : t.IsDirectory path := by
  obtain ⟨parent, hdescend, hd⟩ := (hasParent_iff h).mp hparent
  rw [isDirectory_iff h hdescend]
  rcases hn with hn | hn | rfl
  · exact ⟨_, .stay hd (.inl hn), _, .stay hd (.inr rfl)⟩
  · exact ⟨_, .stay hd (.inr hn), _, .stay hd (.inr rfl)⟩
  · have hreached := reached_of_descend hdescend (reached_start t path)
    have hup := hreached parent.dropLast (List.prefix_refl _)
    exact ⟨_, .up hd, _, .stay hup (.inr rfl)⟩

theorem step_iff_of_not_isDots (hn : ¬ IsDots name) (hsize : name.utf8ByteSize ≤ nameLimit)
    {parent : List String} (hd : t.get? parent = some .directory) :
    t.Step parent name q ↔ q = parent ++ [name] := by
  constructor
  · intro h
    cases h with
    | stay _ hdots => exact absurd (hdots.imp_right .inl) hn
    | up => exact absurd (.inr (.inr rfl)) hn
    | down => rfl
  · rintro rfl
    exact .down hd hn hsize

theorem isDirectory_iff_of_not_isDots (h : names path = above ++ [name]) (hn : ¬ IsDots name)
    (hsize : name.utf8ByteSize ≤ nameLimit) {parent : List String}
    (hparent : t.descend (t.start path) above = .ok parent)
    (hd : t.get? parent = some .directory) :
    t.IsDirectory path ↔ t.get? (parent ++ [name]) = some .directory := by
  simp only [isDirectory_iff h hparent, step_iff_of_not_isDots hn hsize hd, exists_eq_left]
  constructor
  · rintro ⟨q, hq⟩
    exact hq.get?_eq
  · intro hplace
    exact ⟨_, .stay hplace (.inr rfl)⟩

theorem descend_names_iff (h : names path = above ++ [name]) (hn : ¬ IsDots name)
    (hsize : name.utf8ByteSize ≤ nameLimit) {parent : List String}
    (hparent : t.descend (t.start path) above = .ok parent)
    (hd : t.get? parent = some .directory) :
    t.descend (t.start path) (names path) = .ok q ↔ q = parent ++ [name] := by
  rw [h, descend_append_eq_ok_iff, ← step_iff_of_not_isDots hn hsize hd]
  constructor
  · rintro ⟨r, hr, hname⟩
    obtain rfl := Except.ok.inj (hparent.symm.trans hr)
    exact descend_one_eq_ok_iff.mp hname
  · intro hstep
    exact ⟨_, hparent, descend_one_eq_ok_iff.mpr hstep⟩

/-- A path that ends in a slash is never opened. -/
theorem target_ne_ok_of_slash (h : names path = above ++ [""]) : t.target path ≠ .ok place := by
  have hreverse : (names path).reverse = "" :: above.reverse := by simp [h]
  have hshorter : (above.reverse.dropWhile (· = "")).length < (names path).length := by
    have hle := (List.dropWhile_sublist (· = "") (l := above.reverse)).length_le
    simp only [h, List.length_append, List.length_reverse, List.length_singleton] at hle ⊢
    exact Nat.lt_succ_of_le hle
  unfold target
  rw [hreverse, List.dropWhile_cons_of_pos (by simp)]
  simp only [ne_eq, Except.ite_error_eq_ok_iff, Except.bind_eq_ok_iff]
  rintro ⟨-, -, -, parent, -, hdots, -⟩
  exact hdots (.inr (.inr hshorter))

/-- What is asked of a path before a file is opened, one after the other. -/
theorem target_eq_ok_iff_parts (h : names path = above ++ [name]) :
    t.target path = .ok place ↔
      ('\x00' ∉ path.toList ∧ path ≠ "" ∧ path.utf8ByteSize ≤ pathLimit) ∧
      (¬ IsDots name ∧ name.utf8ByteSize ≤ nameLimit) ∧
      ∃ parent, t.descend (t.start path) (above ++ ["."]) = .ok parent ∧
        t.get? (parent ++ [name]) ≠ some .directory ∧ place = parent ++ [name] := by
  by_cases hn : name = ""
  · subst hn
    constructor
    · intro htarget
      exact absurd htarget (target_ne_ok_of_slash h)
    · rintro ⟨-, ⟨hn, -⟩, -⟩
      exact absurd (.inl rfl) hn
  have hreverse : (names path).reverse = name :: above.reverse := by simp [h]
  have hlength : (name :: above.reverse).length = (names path).length := by simp [h]
  unfold target
  rw [hreverse, List.dropWhile_cons_of_neg (by simpa using hn)]
  dsimp only
  rw [List.tail_cons, List.reverse_reverse, List.headD_cons, hlength]
  simp only [Except.ite_error_eq_ok_iff, Except.bind_eq_ok_iff, Nat.lt_irrefl, or_false,
    Nat.not_lt]
  constructor
  · rintro ⟨hnul, hempty, hlong, parent, hparent, hdots, hsize, htarget⟩
    split at htarget
    · cases htarget
    next hfree =>
    obtain rfl := Except.ok.inj htarget
    exact ⟨⟨hnul, hempty, hlong⟩, ⟨not_or.mpr ⟨hn, hdots⟩, hsize⟩, parent, hparent, hfree, rfl⟩
  · rintro ⟨⟨hnul, hempty, hlong⟩, ⟨hdots, hsize⟩, parent, hparent, hfree, rfl⟩
    refine ⟨hnul, hempty, hlong, parent, hparent, fun e => hdots (.inr e), hsize, ?_⟩
    split
    · next hdirectory => exact absurd hdirectory hfree
    · rfl

theorem Writable.parts (hw : t.Writable path) (h : names path = above ++ [name]) :
    path ≠ "" ∧ (¬ IsDots name ∧ name.utf8ByteSize ≤ nameLimit) ∧
      ∃ parent, t.descend (t.start path) above = .ok parent ∧
        t.get? parent = some .directory ∧ t.get? (parent ++ [name]) ≠ some .directory := by
  obtain ⟨⟨-, -, hsizes⟩, hparent, hfree⟩ := hw
  have hn : ¬ IsDots name := fun hn => hfree (isDirectory_of_isDots h hn hparent)
  have hempty : path ≠ "" := by
    rintro rfl
    have hnames : [] ++ [""] = above ++ [name] := h
    have hname : [""] = [name] := List.append_inj_right' hnames rfl
    exact hn (.inl (List.singleton_inj.mp hname).symm)
  have hsize : name.utf8ByteSize ≤ nameLimit := hsizes name (by simp [h])
  obtain ⟨parent, hdescend, hd⟩ := (hasParent_iff h).mp hparent
  rw [isDirectory_iff_of_not_isDots h hn hsize hdescend hd] at hfree
  exact ⟨hempty, ⟨hn, hsize⟩, parent, hdescend, hd, hfree⟩

theorem Writable.exists_leads (h : t.Writable path) : ∃ place, t.Leads path place := by
  obtain ⟨above, name, hnames⟩ := names_eq_concat path
  obtain ⟨hempty, ⟨hn, hsize⟩, parent, hdescend, hd, -⟩ := h.parts hnames
  exact ⟨_, hempty, h.1.2.1, (descend_names_iff hnames hn hsize hdescend hd).mpr rfl⟩

/-- A file can be opened exactly if its path is usable, its directory is there, and there is no
directory in its place. -/
theorem target_eq_ok_iff :
    t.target path = .ok place ↔ t.Writable path ∧ t.Leads path place := by
  obtain ⟨above, name, h⟩ := names_eq_concat path
  rw [target_eq_ok_iff_parts h]
  constructor
  · rintro ⟨⟨hnul, hempty, hlong⟩, ⟨hn, hsize⟩, parent, hdirectory, hfree, rfl⟩
    obtain ⟨hdescend, hd⟩ := descend_dot_eq_ok_iff.mp hdirectory
    have hsizes : ∀ other ∈ names path, other.utf8ByteSize ≤ nameLimit := by
      rw [h]
      exact List.forall_mem_append.mpr
        ⟨utf8ByteSize_le_of_descend hdescend, by simpa using hsize⟩
    rw [ne_eq, ← isDirectory_iff_of_not_isDots h hn hsize hdescend hd] at hfree
    have hleads := (descend_names_iff h hn hsize hdescend hd).mpr rfl
    exact ⟨⟨⟨hnul, hlong, hsizes⟩, (hasParent_iff h).mpr ⟨_, hdescend, hd⟩, hfree⟩,
      hempty, hlong, hleads⟩
  · rintro ⟨hw, hleads⟩
    obtain ⟨hempty, ⟨hn, hsize⟩, parent, hdescend, hd, hfree⟩ := hw.parts h
    have hplace := (descend_names_iff h hn hsize hdescend hd).mp hleads.2.2
    exact ⟨⟨hw.1.1, hempty, hw.1.2.1⟩, ⟨hn, hsize⟩, parent,
      descend_dot_eq_ok_iff.mpr ⟨hdescend, hd⟩, hfree, hplace⟩

theorem writable_iff_exists_target : t.Writable path ↔ ∃ place, t.target path = .ok place := by
  simp only [target_eq_ok_iff, exists_and_left, iff_self_and]
  exact Writable.exists_leads

instance (t : FileTree) (path : String) : Decidable (t.Writable path) :=
  decidable_of_iff ((t.target path).toOption.isSome = true) (by
    rw [writable_iff_exists_target]
    cases t.target path <;> simp [Except.toOption])

theorem get?_ne_directory_of_target (h : t.target path = .ok place) :
    t.get? place ≠ some .directory := by
  obtain ⟨above, name, hnames⟩ := names_eq_concat path
  obtain ⟨-, -, parent, -, hfree, rfl⟩ := (target_eq_ok_iff_parts hnames).mp h
  exact hfree

end

end DeckDoc.FileTree
