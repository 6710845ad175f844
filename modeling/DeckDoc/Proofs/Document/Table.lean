import DeckDoc.Proofs.Document.Headings

namespace DeckDoc

open Text

namespace Table

/-- A character before the first part of a line. -/
def extend (c : Char) : List (List Char) → List (List Char)
  | [] => [[c]]
  | part :: rest => (c :: part) :: rest

/-- The parts of a line between its bars. A backslash escapes the character after it, and an escaped
bar belongs to its part; `escaped` says so of the first character. -/
def cut (escaped : Bool) : List Char → List (List Char)
  | [] => [[]]
  | c :: cs =>
    if c = '|' ∧ escaped = false then [] :: cut false cs
    else extend c (cut (c = '\\' && !escaped) cs)

/-- What stands before, between and after the unescaped bars of a line. -/
def split (line : String) : List String := (cut false line.toList).map String.ofList

/-- A text without an unescaped bar. -/
def Unbarred (s : String) : Prop := cut false s.toList = [s.toList]

instance (s : String) : Decidable (Unbarred s) := inferInstanceAs (Decidable (_ = _))

variable {escaped : Bool} {cs rest : List Char}

theorem length_extend {c : Char} {parts : List (List Char)} (h : parts ≠ []) :
    (extend c parts).length = parts.length := by
  cases parts with
  | nil => exact absurd rfl h
  | cons part parts => rfl

theorem cut_ne_nil : cut escaped cs ≠ [] := by
  cases cs with
  | nil => exact List.cons_ne_nil _ _
  | cons c cs =>
    rw [cut]
    split
    · exact List.cons_ne_nil _ _
    · cases cut (c = '\\' && !escaped) cs <;> exact List.cons_ne_nil _ _

theorem length_cut_pos : 0 < (cut escaped cs).length := List.length_pos_of_ne_nil cut_ne_nil

/-- A part is the whole line if there is no other. -/
theorem cut_of_length (h : (cut escaped cs).length = 1) : cut escaped cs = [cs] := by
  induction cs generalizing escaped with
  | nil => rfl
  | cons c cs ih =>
    rw [cut] at h ⊢
    split
    · next hbar =>
      rw [if_pos hbar, List.length_cons] at h
      have hpos : 0 < (cut false cs).length := length_cut_pos
      omega
    · next hbar =>
      rw [if_neg hbar, length_extend cut_ne_nil] at h
      rw [ih h]
      rfl

/-- The blank that ends a cell keeps a backslash in it away from the bar. -/
theorem cut_cell (h : cut escaped cs = [cs]) :
    cut escaped (cs ++ ' ' :: '|' :: rest) = (cs ++ [' ']) :: cut false rest := by
  induction cs generalizing escaped with
  | nil => simp [cut, extend]
  | cons c cs ih =>
    rw [cut] at h
    rw [List.cons_append, cut]
    split
    · next hbar =>
      rw [if_pos hbar] at h
      cases h
    · next hbar =>
      rw [if_neg hbar] at h
      have hcs : cut (c = '\\' && !escaped) cs = [cs] := by
        refine cut_of_length ?_
        rw [← length_extend cut_ne_nil, h]
        rfl
      rw [ih hcs]
      rfl

theorem length_cut_cell : (cut escaped (cs ++ ' ' :: '|' :: rest)).length =
    (cut escaped cs).length + (cut false rest).length := by
  induction cs generalizing escaped with
  | nil => simp [cut, extend, Nat.add_comm]
  | cons c cs ih =>
    rw [List.cons_append, cut, cut]
    split
    · rw [List.length_cons, List.length_cons, ih]
      omega
    · rw [length_extend cut_ne_nil, length_extend cut_ne_nil, ih]

/-- Cells one after the other, each between blanks and with a bar at its end. -/
def barred (cells : List String) : List Char :=
  cells.flatMap fun c => ' ' :: (c.toList ++ [' ', '|'])

theorem barred_cons (c : String) (cells : List String) :
    barred (c :: cells) = ' ' :: c.toList ++ ' ' :: '|' :: barred cells := by
  simp [barred]

theorem cut_blank : cut false (' ' :: cs) = extend ' ' (cut false cs) := rfl

theorem length_cut_barred_cons (c : String) (cells : List String) :
    (cut false (barred (c :: cells))).length =
      (cut false c.toList).length + (cut false (barred cells)).length := by
  rw [barred_cons, length_cut_cell, cut_blank, length_extend cut_ne_nil]

theorem lt_length_cut_barred (cells : List String) :
    cells.length < (cut false (barred cells)).length := by
  induction cells with
  | nil => exact length_cut_pos
  | cons c cells ih =>
    have hpos : 0 < (cut false c.toList).length := length_cut_pos
    rw [length_cut_barred_cons, List.length_cons]
    omega

/-- There are as many parts as cells only if no cell has a bar in it. -/
theorem unbarred_of_length {cells : List String}
    (h : (cut false (barred cells)).length = cells.length + 1) : ∀ c ∈ cells, Unbarred c := by
  induction cells with
  | nil => exact List.forall_mem_nil _
  | cons c cells ih =>
    have hpos : 0 < (cut false c.toList).length := length_cut_pos
    have hlt := lt_length_cut_barred cells
    rw [length_cut_barred_cons, List.length_cons] at h
    rw [List.forall_mem_cons]
    exact ⟨cut_of_length (by omega), ih (by omega)⟩

/-- A text between blanks. -/
def padded (s : String) : String := " " ++ s ++ " "

theorem cut_barred {cells : List String} (h : ∀ c ∈ cells, Unbarred c) :
    cut false (barred cells) = cells.map (fun c => (padded c).toList) ++ [[]] := by
  induction cells with
  | nil => rfl
  | cons c cells ih =>
    obtain ⟨hc, hcells⟩ := List.forall_mem_cons.mp h
    have hblank : cut false (' ' :: c.toList) = [' ' :: c.toList] := by
      rw [cut_blank, hc]
      rfl
    rw [barred_cons, cut_cell hblank, ih hcells]
    simp [padded]

/-- What a line with these cells is split into: they stand between bars, as do the ends of the
line. -/
def framed (cells : List String) : List String := "" :: (cells.map padded ++ [""])

end Table

/-- The texts between the bars of a row. -/
def Row.cells (r : Row) : List String :=
  [r.position, coded r.name, r.valueType, r.default, r.dimension, r.description]

namespace Table

theorem toList_markdown (r : Row) : r.markdown.toList = '|' :: barred r.cells := by
  unfold Row.markdown
  simp [barred, Row.cells, coded]

/-- A row is split into its cells if and only if none of them has an unescaped bar. -/
theorem split_markdown_iff (r : Row) :
    split r.markdown = framed r.cells ↔ ∀ c ∈ r.cells, Unbarred c := by
  have hbar : cut false r.markdown.toList = [] :: cut false (barred r.cells) := by
    rw [toList_markdown]
    rfl
  rw [split, hbar]
  constructor
  · intro h
    have hlength := congrArg List.length h
    apply unbarred_of_length
    simpa [framed] using hlength
  · intro h
    rw [cut_barred h]
    simp [framed, Function.comp_def]

/-- Every line break in a line makes one line more. -/
theorem length_lines_intercalate (l : String) (ls : List String) :
    (lines ("\n".intercalate (l :: ls))).length =
      (l :: ls).length + ((l :: ls).map fun l => l.toList.count '\n').sum := by
  unfold lines
  rw [List.length_map, length_parts]
  induction ls generalizing l with
  | nil => simp
  | cons m ls ih =>
    have hm := ih m
    rw [String.intercalate_cons_cons, String.toList_append, String.toList_append]
    simp only [List.count_append, List.length_cons, List.map_cons, List.sum_cons] at hm ⊢
    have hbreak : "\n".toList.count '\n' = 1 := by decide
    omega

theorem lines_intercalate {l : String} {ls : List String} (h : ∀ m ∈ l :: ls, OneLine m) :
    lines ("\n".intercalate (l :: ls)) = l :: ls := by
  induction ls generalizing l with
  | nil =>
    rw [String.intercalate_singleton]
    exact Document.lines_of_oneLine (h l List.mem_cons_self)
  | cons m ls ih =>
    obtain ⟨hl, hls⟩ := List.forall_mem_cons.mp h
    have hbreak : ("\n".intercalate (l :: m :: ls)).toList =
        l.toList ++ '\n' :: ("\n".intercalate (m :: ls)).toList := by
      rw [String.intercalate_cons_cons]
      simp
    rw [lines, hbreak, parts_append_mark hl, List.map_cons, String.ofList_toList]
    exact congrArg (l :: ·) (ih hls)

/-- The lines of a text joined from lines are these if and only if none of them holds a break. -/
theorem length_lines_intercalate_iff (l : String) (ls : List String) :
    (lines ("\n".intercalate (l :: ls))).length = (l :: ls).length ↔
      ∀ m ∈ l :: ls, OneLine m := by
  constructor
  · intro h
    rw [length_lines_intercalate] at h
    have hsum : ((l :: ls).map fun l => l.toList.count '\n').sum = 0 := by omega
    intro m hm
    exact List.count_eq_zero.mp
      (List.sum_eq_zero_iff.mp hsum _ (List.mem_map_of_mem hm))
  · intro h
    rw [lines_intercalate h]

theorem oneLine_markdown_iff (r : Row) : OneLine r.markdown ↔ ∀ c ∈ r.cells, OneLine c := by
  unfold OneLine
  rw [toList_markdown]
  simp [barred]

/-- The titles of the columns. -/
def titles : List String := ["#", "Name", "Type", "Default", "Dimension", "Description"]

/-- The dashes below a title and the blanks around it. -/
def dashes (title : String) : String := String.ofList (List.replicate (padded title).length '-')

/-- What the lines of a table are split into if they hold its cells and nothing else. -/
def reading (rows : List Row) : List (List String) :=
  framed titles :: ("" :: (titles.map dashes ++ [""])) :: rows.map fun r => framed r.cells

theorem split_headings : [tableHeader, tableSeparator].map split = reading [] := by
  decide +kernel

theorem map_split_tableLines_iff (rows : List Row) :
    (tableLines rows).map split = reading rows ↔ ∀ r ∈ rows, ∀ c ∈ r.cells, Unbarred c := by
  have hread : reading rows = reading [] ++ rows.map fun r => framed r.cells := rfl
  have hlines : tableLines rows = [tableHeader, tableSeparator] ++ rows.map Row.markdown := rfl
  rw [hread, hlines, List.map_append, split_headings, List.append_cancel_left_eq, List.map_map,
    List.map_inj_left]
  simp only [Function.comp_apply, split_markdown_iff]

theorem oneLine_tableLines_iff (rows : List Row) :
    (∀ l ∈ tableLines rows, OneLine l) ↔ ∀ r ∈ rows, ∀ c ∈ r.cells, OneLine c := by
  have hheader : OneLine tableHeader := by decide +kernel
  have hseparator : OneLine tableSeparator := by decide +kernel
  simp [tableLines, hheader, hseparator, oneLine_markdown_iff]

theorem length_lines_tableMarkdown_iff (rows : List Row) :
    (lines (tableMarkdown rows)).length = (tableLines rows).length ↔
      ∀ r ∈ rows, ∀ c ∈ r.cells, OneLine c := by
  rw [← oneLine_tableLines_iff]
  exact length_lines_intercalate_iff tableHeader (tableSeparator :: rows.map Row.markdown)

theorem lines_tableMarkdown {rows : List Row} (h : ∀ r ∈ rows, ∀ c ∈ r.cells, OneLine c) :
    lines (tableMarkdown rows) = tableLines rows :=
  lines_intercalate ((oneLine_tableLines_iff rows).mpr h)

/-- The lines of a table are split into its cells if and only if none of these has a line break or
an unescaped bar. -/
theorem map_split_lines_iff (rows : List Row) :
    (lines (tableMarkdown rows)).map split = reading rows ↔
      ∀ r ∈ rows, ∀ c ∈ r.cells, OneLine c ∧ Unbarred c := by
  simp only [forall_and]
  constructor
  · intro h
    have hlength : (lines (tableMarkdown rows)).length = (tableLines rows).length := by
      simpa [reading, tableLines] using congrArg List.length h
    have hone := (length_lines_tableMarkdown_iff rows).mp hlength
    rw [lines_tableMarkdown hone] at h
    exact ⟨hone, (map_split_tableLines_iff rows).mp h⟩
  · intro h
    rw [lines_tableMarkdown h.1]
    exact (map_split_tableLines_iff rows).mpr h.2

end Table

/-- The cells of the item at this place of a list. -/
def Item.cells (i : Item) (index : Nat) : List String :=
  [i.position index, coded (i.name.getD ""), i.valueType.getD "", displayed i.shownDefault,
    displayed i.shownDimension, i.shownDescription.getD ""]

theorem Row.getElem?_ofItems (index : Nat) (items : List Item) (i : Nat) :
    (Row.ofItems index items)[i]? = items[i]?.map fun item => item.row (index + i) := by
  induction items generalizing index i with
  | nil => rfl
  | cons item items ih =>
    rw [ofItems]
    cases i with
    | zero => rfl
    | succ i =>
      rw [List.getElem?_cons_succ, List.getElem?_cons_succ, ih]
      simp only [Nat.add_assoc, Nat.add_comm 1]

namespace Table

/-- The table of these items has a line for each, which is split into its cells, below the titles of
the columns. -/
def Readable (items : List Item) : Prop :=
  (lines (tableMarkdown (Row.ofItems 1 items))).map split =
    framed titles :: ("" :: (titles.map dashes ++ [""])) ::
      items.mapIdx fun i item => framed (item.cells (i + 1))

theorem cells_row (item : Item) (index : Nat) : (item.row index).cells = item.cells index := rfl

theorem map_framed_ofItems (items : List Item) :
    (Row.ofItems 1 items).map (fun r => framed r.cells) =
      items.mapIdx fun i item => framed (item.cells (i + 1)) := by
  refine List.ext_getElem? fun i => ?_
  rw [List.getElem?_map, Row.getElem?_ofItems, List.getElem?_mapIdx, Option.map_map]
  simp only [Function.comp_def, cells_row, Nat.add_comm 1]

theorem readable_iff_rows (items : List Item) : Readable items ↔
    ∀ r ∈ Row.ofItems 1 items, ∀ c ∈ r.cells, OneLine c ∧ Unbarred c := by
  rw [Readable, ← map_framed_ofItems]
  exact map_split_lines_iff _

/-- A table can be read if and only if no text in it has a line break or an unescaped bar. -/
theorem readable_iff (items : List Item) :
    Readable items ↔ ∀ (i : Nat) (item : Item), items[i]? = some item →
      ∀ c ∈ item.cells (i + 1), OneLine c ∧ Unbarred c := by
  rw [readable_iff_rows]
  constructor
  · intro h i item hitem
    refine h (item.row (i + 1)) (List.mem_iff_getElem?.mpr ⟨i, ?_⟩)
    rw [Row.getElem?_ofItems, hitem, Nat.add_comm i]
    rfl
  · intro h r hr
    obtain ⟨i, hi⟩ := List.mem_iff_getElem?.mp hr
    rw [Row.getElem?_ofItems] at hi
    obtain ⟨item, hitem, rfl⟩ := Option.map_eq_some_iff.mp hi
    rw [cells_row, Nat.add_comm 1]
    exact h i item hitem

/-- A bar in a description makes a cell too many, a line break a line too many. -/
theorem not_readable : ¬ Readable [{ description := some "a|b" }] ∧
    ¬ Readable [{ description := some "a\nb" }] := by
  simp only [readable_iff_rows]
  decide +kernel

end Table

end DeckDoc
