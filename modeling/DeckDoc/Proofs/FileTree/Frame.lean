import DeckDoc.Proofs.FileTree

namespace DeckDoc.FileTree

variable {t : FileTree} {path : String} {place p q : List String} {content : ByteArray}

/-- Two trees hold the same files and directories, in whatever order they list them. -/
def Agrees (t u : FileTree) : Prop := ∀ names, t.get? names = u.get? names

/-- On its way along a path, before the last name, one comes to a place. -/
def Passes (t : FileTree) (path : String) (place : List String) : Prop :=
  ∃ n < (names path).length, t.descend (t.start path) ((names path).take n) = .ok place

instance (t : FileTree) (path : String) (place : List String) : Decidable (t.Passes path place) :=
  inferInstanceAs (Decidable (∃ n < (names path).length, _))

/-- The place that a path leads to, be there a file or not. -/
def place? (t : FileTree) (path : String) : Option (List String) :=
  if path = "" ∨ pathLimit < path.utf8ByteSize then none
  else (t.descend (t.start path) (names path)).toOption

theorem place?_eq_some_iff : t.place? path = some place ↔ t.Leads path place := by
  unfold place? Leads
  by_cases hp : path = "" ∨ pathLimit < path.utf8ByteSize
  · rw [if_pos hp]
    simp only [reduceCtorEq, false_iff, not_and]
    intro hne hsize
    exact absurd hp (not_or.mpr ⟨hne, Nat.not_lt.mpr hsize⟩)
  · obtain ⟨hne, hsize⟩ := not_or.mp hp
    rw [if_neg hp]
    rcases t.descend (t.start path) (names path) with - | p <;>
      simp [Except.toOption, hne, Nat.le_of_not_lt hsize]

instance (t : FileTree) (path : String) (place : List String) : Decidable (t.Leads path place) :=
  decidable_of_iff _ place?_eq_some_iff

theorem passes_put_iff {other : List String} (hd : t.get? place ≠ some .directory) :
    (t.put place (.file content)).Passes path other ↔ t.Passes path other := by
  unfold Passes
  simp only [start_put, descend_put_eq_ok_iff hd]

/-- A name leads on from directories only. -/
theorem not_passes_of_leads {other : List String} (hd : t.get? place ≠ some .directory)
    (h : t.Leads path other) : ¬ t.Passes path place := by
  rintro ⟨n, hn, hplace⟩
  obtain ⟨-, -, hdescend⟩ := h
  rw [← List.take_append_drop n (names path)] at hdescend
  obtain ⟨r, hr, hrest⟩ := descend_append_eq_ok_iff.mp hdescend
  obtain rfl := Except.ok.inj (hplace.symm.trans hr)
  rw [List.drop_eq_getElem_cons hn] at hrest
  obtain ⟨s, hstep, -⟩ := descend_cons_eq_ok_iff.mp hrest
  exact hd hstep.get?_eq

/-- A way that does not come to a place before its end is the same with a file there, also where it
ends in a fault. -/
theorem descend_put_eq {walk : List String} (hd : t.get? place ≠ some .directory)
    (h : ∀ n < walk.length, t.descend p (walk.take n) ≠ .ok place) :
    (t.put place (.file content)).descend p walk = t.descend p walk := by
  induction walk generalizing p with
  | nil => rfl
  | cons name rest ih =>
    have hne : p ≠ place := by
      rintro rfl
      exact h 0 (by simp) rfl
    rcases step_or_fault t p name with ⟨r, hstep⟩ | ⟨fault, hfault⟩
    · rw [descend_cons_of_step hstep, descend_cons_of_step ((step_put_iff hd).mpr hstep)]
      apply ih
      intro n hn hrest
      refine h (n + 1) (by simpa using hn) ?_
      rw [List.take_succ_cons]
      exact descend_cons_eq_ok_iff.mpr ⟨r, hstep, hrest⟩
    · rw [hfault _ (get?_put_of_ne t hne _), hfault t rfl]

/-- The names before the last one that is no slash at the end. -/
theorem shown_tail_prefix (path : String) :
    ((names path).reverse.dropWhile (· = "")).tail.reverse <+: names path ∧
      ((names path).reverse.dropWhile (· = "")).tail.reverse.length < (names path).length := by
  have hsuffix := List.dropWhile_suffix (· = "") (l := (names path).reverse)
  have hfront := List.reverse_prefix.mpr ((List.tail_suffix _).trans hsuffix)
  have hpos : 0 < (names path).length := by
    obtain ⟨above, name, h⟩ := names_eq_concat path
    simp [h]
  have hlength := hsuffix.length_le
  rw [List.length_reverse] at hlength
  rw [List.length_reverse, List.length_tail]
  exact ⟨by simpa using hfront, by omega⟩

theorem descend_dot_put_eq {front : List String} (hd : t.get? place ≠ some .directory)
    (h : ¬ t.Passes path place) (hfront : front <+: names path)
    (hshorter : front.length < (names path).length) :
    (t.put place (.file content)).descend (t.start path) (front ++ ["."]) =
      t.descend (t.start path) (front ++ ["."]) := by
  apply descend_put_eq hd
  intro n hn hdescend
  rw [List.length_append, List.length_singleton] at hn
  rw [List.take_append_of_le_length (by omega), List.prefix_iff_eq_take.mp hfront,
    List.take_take, Nat.min_eq_left (by omega)] at hdescend
  exact h ⟨n, by omega, hdescend⟩

/-- Where a file would be opened does not depend on a file that is not on the way there. -/
theorem target_put_eq (hd : t.get? place ≠ some .directory) (h : ¬ t.Passes path place) :
    (t.put place (.file content)).target path = t.target path := by
  obtain ⟨hfront, hshorter⟩ := shown_tail_prefix path
  unfold target
  dsimp only
  rw [start_put, descend_dot_put_eq hd h hfront hshorter]
  split
  · rfl
  split
  · rfl
  split
  · rfl
  refine congrArg _ (funext fun parent => ?_)
  split
  · rfl
  split
  · rfl
  generalize parent ++ [_] = names
  by_cases hn : t.get? names = some .directory
  · rw [hn, (get?_put_eq_directory_iff hd).mpr hn]
  · split
    · next h => exact absurd ((get?_put_eq_directory_iff hd).mp h) hn
    · rfl

theorem target_put_eq_ok_iff {other : List String} (hd : t.get? place ≠ some .directory) :
    (t.put place (.file content)).target path = .ok other ↔ t.target path = .ok other := by
  simp only [target_eq_ok_iff, Writable, HasParent, IsDirectory, leads_put_iff hd, start_put,
    descend_put_eq_ok_iff hd]

/-- Another tree comes from a write to a path: the file there holds what was written, along whatever
path it is reached, and nothing else differs. -/
def Rewritten (t u : FileTree) (path : String) (content : ByteArray) : Prop :=
  ∃ place, t.Leads path place ∧
    (∀ other, t.Leads other place → u.file? other = some content) ∧
    (∀ other, ¬ t.Leads other place → u.file? other = t.file? other) ∧
    ∀ names, names ≠ place → u.get? names = t.get? names

theorem rewritten_put (h : t.target path = .ok place) :
    t.Rewritten (t.put place (.file content)) path content := by
  have hd := get?_ne_directory_of_target h
  refine ⟨place, (target_eq_ok_iff.mp h).2, ?_, ?_, ?_⟩
  · intro other hother
    exact file?_put_of_leads hd hother
  · intro other hother
    exact file?_put_of_not_leads hd hother
  · intro names hnames
    exact get?_put_of_ne t hnames _

end DeckDoc.FileTree
