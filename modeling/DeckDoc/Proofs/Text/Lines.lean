import DeckDoc.Text.Parts
import Mathlib

namespace DeckDoc.Text

/-- What stands before the first mark is determined, and so is what follows it. -/
theorem append_mark_inj {α : Type} {mark : α} {xs ys as bs : List α} (hx : mark ∉ xs)
    (hy : mark ∉ ys) (h : xs ++ mark :: as = ys ++ mark :: bs) : xs = ys ∧ as = bs := by
  induction xs generalizing ys with
  | nil =>
    cases ys with
    | nil => exact ⟨rfl, by simpa using h⟩
    | cons y ys =>
      have hm : mark = y := (List.cons.inj h).1
      exact absurd (hm ▸ List.mem_cons_self) hy
  | cons x xs ih =>
    cases ys with
    | nil =>
      have hm : x = mark := (List.cons.inj h).1
      exact absurd (hm ▸ List.mem_cons_self) hx
    | cons y ys =>
      obtain ⟨hxy, ht⟩ := List.cons.inj h
      obtain ⟨he, hr⟩ := ih (fun hm => hx (List.mem_cons_of_mem _ hm))
        (fun hm => hy (List.mem_cons_of_mem _ hm)) ht
      exact ⟨by rw [hxy, he], hr⟩

/-- A text is cut at the first item of a kind in one way only. -/
theorem append_inj_of_head {α : Type} {p : α → Bool} {xs ys as bs : List α}
    (hx : ∀ x ∈ xs, p x = false) (hy : ∀ y ∈ ys, p y = false) (ha : ∀ a ∈ as.head?, p a = true)
    (hb : ∀ b ∈ bs.head?, p b = true) (h : xs ++ as = ys ++ bs) : xs = ys ∧ as = bs := by
  induction xs generalizing ys with
  | nil =>
    cases ys with
    | nil => exact ⟨rfl, by simpa using h⟩
    | cons y ys =>
      have hp := ha y (by rw [List.nil_append] at h; simp [h])
      rw [hy y List.mem_cons_self] at hp
      cases hp
  | cons x xs ih =>
    cases ys with
    | nil =>
      have hp := hb x (by rw [List.nil_append] at h; simp [← h])
      rw [hx x List.mem_cons_self] at hp
      cases hp
    | cons y ys =>
      obtain ⟨hxy, ht⟩ := List.cons.inj h
      obtain ⟨he, hr⟩ := ih (fun z hz => hx z (List.mem_cons_of_mem _ hz))
        (fun z hz => hy z (List.mem_cons_of_mem _ hz)) ht
      exact ⟨by rw [hxy, he], hr⟩

theorem notMem_of_mem_parts {mark : Char} {cs part : List Char} (h : part ∈ parts mark cs) :
    mark ∉ part := by
  induction cs generalizing part with
  | nil =>
    have hp : part = [] := by simpa [parts] using h
    simp [hp]
  | cons c cs ih =>
    rw [parts] at h
    split at h
    · rcases List.mem_cons.mp h with rfl | h
      · simp
      · exact ih h
    · next hc =>
      split at h
      · next hn => exact absurd hn (parts_ne_nil mark cs)
      · next first rest hp =>
        rw [hp] at ih
        rcases List.mem_cons.mp h with rfl | h
        · simpa [Ne.symm hc] using ih List.mem_cons_self
        · exact ih (List.mem_cons_of_mem _ h)

theorem parts_append_mark {mark : Char} {cs : List Char} (h : mark ∉ cs) (rest : List Char) :
    parts mark (cs ++ mark :: rest) = cs :: parts mark rest := by
  induction cs with
  | nil => simp [parts]
  | cons c cs ih =>
    have hc : c ≠ mark := fun e => h (e ▸ List.mem_cons_self)
    rw [List.cons_append, parts, if_neg hc, ih fun hm => h (List.mem_cons_of_mem _ hm)]

theorem exists_parts_cons {mark c : Char} (h : c ≠ mark) (cs : List Char) :
    ∃ first others, parts mark cs = first :: others ∧
      parts mark (c :: cs) = (c :: first) :: others := by
  obtain ⟨first, others, hparts⟩ := List.exists_cons_of_ne_nil (parts_ne_nil mark cs)
  exact ⟨first, others, hparts, by rw [parts, if_neg h, hparts]⟩

theorem length_parts (mark : Char) (cs : List Char) :
    (parts mark cs).length = 1 + cs.count mark := by
  induction cs with
  | nil => rfl
  | cons c cs ih =>
    by_cases h : c = mark
    · rw [parts, if_pos h, List.length_cons, ih, h, List.count_cons_self]
      omega
    · obtain ⟨first, others, hparts, hcons⟩ := exists_parts_cons h cs
      rw [hcons, List.length_cons, ← List.length_cons (a := first), ← hparts, ih,
        List.count_cons_of_ne h]

/-- The lines of a text. -/
def lines (s : String) : List String := (parts '\n' s.toList).map String.ofList

theorem lines_ne_nil (s : String) : lines s ≠ [] := by
  simp [lines, parts_ne_nil]

theorem notMem_of_mem_lines {s line : String} (h : line ∈ lines s) : '\n' ∉ line.toList := by
  obtain ⟨part, hp, rfl⟩ := List.mem_map.mp h
  simpa using notMem_of_mem_parts hp

theorem intercalate_lines (s : String) : "\n".intercalate (lines s) = s := by
  apply String.toList_inj.mp
  have h := intercalate_parts '\n' s.toList
  simpa [lines, Function.comp_def] using h

theorem lines_injective {s t : String} (h : lines s = lines t) : s = t := by
  rw [← intercalate_lines s, h, intercalate_lines]

/-- Lines one below the other, each with a line break at its end. -/
def unlines (ls : List String) : String := String.join (ls.map (· ++ "\n"))

@[simp] theorem unlines_nil : unlines [] = "" := rfl

@[simp] theorem unlines_cons (l : String) (ls : List String) :
    unlines (l :: ls) = l ++ "\n" ++ unlines ls := by
  apply String.toList_inj.mp
  simp [unlines]

@[simp] theorem unlines_append (ls ms : List String) :
    unlines (ls ++ ms) = unlines ls ++ unlines ms := by
  apply String.toList_inj.mp
  simp [unlines]

theorem intercalate_append_break {ls : List String} (h : ls ≠ []) :
    "\n".intercalate ls ++ "\n" = unlines ls := by
  induction ls with
  | nil => exact absurd rfl h
  | cons l ls ih =>
    cases ls with
    | nil => simp
    | cons m ls =>
      rw [String.intercalate_cons_cons, unlines_cons, ← ih (by simp)]
      simp only [String.append_assoc]

/-- Lines one below the other are found again, whatever stands below them. -/
theorem lines_unlines_append {ls : List String} (h : ∀ l ∈ ls, '\n' ∉ l.toList)
    (ms : List String) : lines (unlines (ls ++ ms)) = ls ++ lines (unlines ms) := by
  induction ls with
  | nil => rfl
  | cons l ls ih =>
    have ht : (unlines (l :: ls ++ ms)).toList =
        l.toList ++ '\n' :: (unlines (ls ++ ms)).toList := by simp
    have ih := ih fun m hm => h m (List.mem_cons_of_mem _ hm)
    rw [lines, ht, parts_append_mark (h l List.mem_cons_self), List.map_cons, String.ofList_toList]
    exact congrArg (l :: ·) ih

/-- Nothing follows the break after the last line. -/
theorem lines_unlines {ls : List String} (h : ∀ l ∈ ls, '\n' ∉ l.toList) :
    lines (unlines ls) = ls ++ [""] := by
  have happend := lines_unlines_append h []
  rwa [List.append_nil] at happend

theorem unlines_injective {ls ms : List String} (hl : ∀ l ∈ ls, '\n' ∉ l.toList)
    (hm : ∀ m ∈ ms, '\n' ∉ m.toList) (h : unlines ls = unlines ms) : ls = ms := by
  induction ls generalizing ms with
  | nil =>
    cases ms with
    | nil => rfl
    | cons m ms => simpa using congrArg String.toList h
  | cons l ls ih =>
    cases ms with
    | nil => simpa using congrArg String.toList h
    | cons m ms =>
      have ht : l.toList ++ '\n' :: (unlines ls).toList =
          m.toList ++ '\n' :: (unlines ms).toList := by
        simpa using congrArg String.toList h
      obtain ⟨hc, hr⟩ := append_mark_inj (hl l (by simp)) (hm m (by simp)) ht
      have tails := ih (fun x hx => hl x (by simp [hx])) (fun x hx => hm x (by simp [hx]))
        (String.toList_inj.mp hr)
      rw [String.toList_inj.mp hc, tails]

end DeckDoc.Text
