import DeckDoc.Json.Value
import Mathlib

namespace DeckDoc.Json.Value

/-! Members in the order of their keys. -/

theorem mem_put {key : String} {value : Value} {members : List (String × Value)}
    {m : String × Value} (h : m ∈ put key value members) : m = (key, value) ∨ m ∈ members := by
  induction members with
  | nil => exact .inl (List.mem_singleton.mp h)
  | cons n members ih =>
    obtain ⟨k, v⟩ := n
    unfold put at h
    split at h
    · exact List.mem_cons.mp h
    · split at h
      · rcases List.mem_cons.mp h with h | h
        · exact .inl h
        · exact .inr (List.mem_cons_of_mem _ h)
      · rcases List.mem_cons.mp h with h | h
        · exact .inr (List.mem_cons.mpr (.inl h))
        · exact (ih h).imp id (List.mem_cons_of_mem _)

/-- The keys ascend. -/
def Sorted (members : List (String × Value)) : Prop := members.Pairwise fun m n => m.1 < n.1

theorem sorted_put (key : String) (value : Value) {members : List (String × Value)}
    (h : Sorted members) : Sorted (put key value members) := by
  induction members with
  | nil => exact List.pairwise_singleton _ _
  | cons m members ih =>
    obtain ⟨k, v⟩ := m
    obtain ⟨hm, ht⟩ := List.pairwise_cons.mp h
    unfold put
    split
    · next hlt =>
      refine List.pairwise_cons.mpr ⟨fun n hn => ?_, h⟩
      rcases List.mem_cons.mp hn with rfl | hn
      · exact hlt
      · exact String.lt_trans hlt (hm n hn)
    · split
      · next heq => exact List.pairwise_cons.mpr ⟨fun n hn => heq ▸ hm n hn, ht⟩
      · next hlt hne =>
        refine List.pairwise_cons.mpr ⟨fun n hn => ?_, ih ht⟩
        rcases mem_put hn with rfl | hn
        · exact Std.lt_of_le_of_ne (String.not_lt.mp hlt) (Ne.symm hne)
        · exact hm n hn

theorem put_of_forall_lt {key : String} (value : Value) {members : List (String × Value)}
    (h : ∀ m ∈ members, m.1 < key) : put key value members = members ++ [(key, value)] := by
  induction members with
  | nil => rfl
  | cons m members ih =>
    obtain ⟨k, v⟩ := m
    have hk : k < key := h _ List.mem_cons_self
    have hne : key ≠ k := fun he => String.lt_irrefl k (he ▸ hk)
    rw [put, if_neg (String.lt_asymm hk), if_neg hne,
      ih fun m hm => h m (List.mem_cons_of_mem _ hm), List.cons_append]

theorem foldl_put_of_sorted {done members : List (String × Value)} (h : Sorted (done ++ members)) :
    members.foldl (fun sorted m => put m.1 m.2 sorted) done = done ++ members := by
  induction members generalizing done with
  | nil => simp
  | cons m members ih =>
    have hm : ∀ n ∈ done, n.1 < m.1 := fun n hn =>
      (List.pairwise_append.mp h).2.2 n hn m List.mem_cons_self
    have hs : Sorted (done ++ [m] ++ members) := by simpa using h
    rw [List.foldl_cons, put_of_forall_lt m.2 hm, ih hs, List.append_assoc, List.singleton_append]

theorem merge_of_sorted {members : List (String × Value)} (h : Sorted members) :
    merge members = members := foldl_put_of_sorted h

theorem sorted_foldl_put {done : List (String × Value)} (h : Sorted done)
    (members : List (String × Value)) :
    Sorted (members.foldl (fun sorted m => put m.1 m.2 sorted) done) := by
  induction members generalizing done with
  | nil => exact h
  | cons m members ih => exact ih (sorted_put m.1 m.2 h)

theorem sorted_merge (members : List (String × Value)) : Sorted (merge members) :=
  sorted_foldl_put .nil members

theorem merge_append_singleton (members : List (String × Value)) (m : String × Value) :
    merge (members ++ [m]) = put m.1 m.2 (merge members) := by
  simp [merge]

theorem mem_of_mem_merge {members : List (String × Value)} {m : String × Value}
    (h : m ∈ merge members) : m ∈ members := by
  induction members using List.reverseRecOn with
  | nil => cases h
  | append_singleton members n ih =>
    rw [merge_append_singleton] at h
    rcases mem_put h with h | h
    · exact List.mem_append_right _ (List.mem_singleton.mpr h)
    · exact List.mem_append_left _ (ih h)

/-- Of the members with one key the last one counts. -/
theorem lookup_merge (key : String) (members : List (String × Value)) :
    (merge members).lookup key = members.reverse.lookup key := by
  induction members using List.reverseRecOn with
  | nil => rfl
  | append_singleton members n ih =>
    rw [merge_append_singleton, List.reverse_append, List.reverse_singleton, List.singleton_append]
    by_cases h : key = n.1
    · rw [h, lookup_put_self, List.lookup_cons, BEq.rfl]
    · rw [lookup_put_of_ne h, ih, List.lookup_cons, beq_eq_false_iff_ne.mpr h]

theorem perm_put {key : String} (value : Value) {members : List (String × Value)}
    (h : key ∉ members.map Prod.fst) : (put key value members).Perm ((key, value) :: members) := by
  induction members with
  | nil => exact .refl _
  | cons m members ih =>
    obtain ⟨k, v⟩ := m
    obtain ⟨hne, h⟩ := not_or.mp (List.mem_cons.not.mp h)
    rw [put]
    by_cases hlt : key < k
    · rw [if_pos hlt]
    · rw [if_neg hlt, if_neg hne]
      exact ((ih h).cons _).trans (.swap _ _ _)

/-- With different keys no member is lost. -/
theorem perm_merge {members : List (String × Value)} (h : (members.map Prod.fst).Nodup) :
    (merge members).Perm members := by
  induction members using List.reverseRecOn with
  | nil => exact .refl _
  | append_singleton members m ih =>
    rw [List.map_append, List.nodup_append] at h
    obtain ⟨hmembers, -, hm⟩ := h
    have hmerge := ih hmembers
    have hfresh : m.1 ∉ (merge members).map Prod.fst := by
      rw [(hmerge.map Prod.fst).mem_iff]
      intro hmem
      exact hm m.1 hmem m.1 (by simp) rfl
    rw [merge_append_singleton]
    exact ((perm_put m.2 hfresh).trans (hmerge.cons m)).trans (List.perm_append_singleton m _).symm

/-- With different keys it does not matter in which order the members come. -/
theorem merge_eq_of_perm {members members' : List (String × Value)}
    (hperm : members.Perm members') (h : (members.map Prod.fst).Nodup) :
    merge members = merge members' := by
  have h' : (members'.map Prod.fst).Nodup := (hperm.map Prod.fst).nodup_iff.mp h
  have hmerge : (merge members).Perm (merge members') :=
    ((perm_merge h).trans hperm).trans (perm_merge h').symm
  refine hmerge.eq_of_pairwise ?_ (sorted_merge members) (sorted_merge members')
  intro m n _ _ hmn hnm
  exact absurd hnm (String.lt_asymm hmn)

/-! How deep the brackets of a value go. -/

mutual

def depth : Value → Nat
  | list vs => depthEntries vs + 1
  | object ms => depthMembers ms + 1
  | _ => 0

def depthEntries : List Value → Nat
  | [] => 0
  | v :: vs => max (depth v) (depthEntries vs)

def depthMembers : List (String × Value) → Nat
  | [] => 0
  | (_, v) :: ms => max (depth v) (depthMembers ms)

end

theorem depthMembers_le_iff {members : List (String × Value)} {n : Nat} :
    depthMembers members ≤ n ↔ ∀ m ∈ members, m.2.depth ≤ n := by
  induction members with
  | nil => simp [depthMembers]
  | cons m members ih => rw [depthMembers, Nat.max_le, ih, List.forall_mem_cons]

theorem depthEntries_le_iff {vs : List Value} {n : Nat} :
    depthEntries vs ≤ n ↔ ∀ v ∈ vs, v.depth ≤ n := by
  induction vs with
  | nil => simp [depthEntries]
  | cons v vs ih => rw [depthEntries, Nat.max_le, ih, List.forall_mem_cons]

theorem depth_le_of_mem {members : List (String × Value)} {m : String × Value} (h : m ∈ members) :
    m.2.depth ≤ depthMembers members :=
  depthMembers_le_iff.mp (Nat.le_refl _) m h

theorem depthMembers_merge_le (members : List (String × Value)) :
    depthMembers (merge members) ≤ depthMembers members :=
  depthMembers_le_iff.mpr fun _ h => depth_le_of_mem (mem_of_mem_merge h)

/-! A value with the members of its objects in order. -/

mutual

def merged : Value → Value
  | list vs => list (mergedEntries vs)
  | object ms => object (merge (mergedMembers ms))
  | v => v

def mergedEntries : List Value → List Value
  | [] => []
  | v :: vs => merged v :: mergedEntries vs

def mergedMembers : List (String × Value) → List (String × Value)
  | [] => []
  | (k, v) :: ms => (k, merged v) :: mergedMembers ms

end

theorem mergedMembers_put (key : String) (value : Value) (members : List (String × Value)) :
    mergedMembers (put key value members) = put key value.merged (mergedMembers members) := by
  induction members with
  | nil => rfl
  | cons m members ih =>
    obtain ⟨k, v⟩ := m
    rw [put, mergedMembers, put]
    split
    · rfl
    · split
      · rfl
      · rw [mergedMembers, ih]

theorem mergedMembers_eq_map (members : List (String × Value)) :
    mergedMembers members = members.map fun m => (m.1, m.2.merged) := by
  induction members with
  | nil => rfl
  | cons m members ih => rw [mergedMembers, ih, List.map_cons]

theorem mergedEntries_eq_map (vs : List Value) : mergedEntries vs = vs.map merged := by
  induction vs with
  | nil => rfl
  | cons v vs ih => rw [mergedEntries, ih, List.map_cons]

theorem mergedMembers_merge (members : List (String × Value)) :
    mergedMembers (merge members) = merge (mergedMembers members) := by
  induction members using List.reverseRecOn with
  | nil => rfl
  | append_singleton members m ih =>
    rw [merge_append_singleton, mergedMembers_put, ih, mergedMembers_eq_map (members ++ [m]),
      List.map_append, ← mergedMembers_eq_map, List.map_singleton, merge_append_singleton]

theorem lookup_mergedMembers (key : String) (members : List (String × Value)) :
    (mergedMembers members).lookup key = (members.lookup key).map merged := by
  induction members with
  | nil => rfl
  | cons m members ih =>
    obtain ⟨k, v⟩ := m
    rw [mergedMembers, List.lookup_cons, List.lookup_cons, ih]
    cases key == k <;> rfl

theorem mergedMembers_reverse (members : List (String × Value)) :
    mergedMembers members.reverse = (mergedMembers members).reverse := by
  rw [mergedMembers_eq_map, mergedMembers_eq_map, List.map_reverse]

/-- Of an object in order the last of the members with one key is left. -/
theorem lookup_merge_mergedMembers (key : String) (members : List (String × Value)) :
    (merge (mergedMembers members)).lookup key = (members.reverse.lookup key).map merged := by
  rw [lookup_merge, ← mergedMembers_reverse, lookup_mergedMembers]

mutual

theorem merged_merged : ∀ v : Value, v.merged.merged = v.merged
  | .null => rfl
  | .bool _ => rfl
  | .number _ => rfl
  | .text _ => rfl
  | .list vs => by rw [merged, merged, mergedEntries_mergedEntries vs]
  | .object ms => by
    rw [merged, merged, mergedMembers_merge, mergedMembers_mergedMembers ms,
      merge_of_sorted (sorted_merge _)]

theorem mergedEntries_mergedEntries :
    ∀ vs : List Value, mergedEntries (mergedEntries vs) = mergedEntries vs
  | [] => rfl
  | v :: vs => by
    rw [mergedEntries, mergedEntries, merged_merged v, mergedEntries_mergedEntries vs]

theorem mergedMembers_mergedMembers :
    ∀ ms : List (String × Value), mergedMembers (mergedMembers ms) = mergedMembers ms
  | [] => rfl
  | (k, v) :: ms => by
    rw [mergedMembers, mergedMembers, merged_merged v, mergedMembers_mergedMembers ms]

end

/-- The members of all objects in a value come in the order of their keys, and none of them twice,
as in a value that has been read. -/
def InOrder (v : Value) : Prop := v.merged = v

theorem inOrder_merged (v : Value) : v.merged.InOrder := merged_merged v

theorem inOrder_of_lookup {key : String} {members : List (String × Value)} {v : Value}
    (h : (object members).InOrder) (hv : members.lookup key = some v) : v.InOrder := by
  have hmembers : merge (mergedMembers members) = members := object.inj h
  rw [← hmembers, lookup_merge_mergedMembers] at hv
  obtain ⟨u, -, rfl⟩ := Option.map_eq_some_iff.mp hv
  exact inOrder_merged u

mutual

theorem depth_merged_le : ∀ v : Value, v.merged.depth ≤ v.depth
  | .null => Nat.le_refl _
  | .bool _ => Nat.le_refl _
  | .number _ => Nat.le_refl _
  | .text _ => Nat.le_refl _
  | .list vs => Nat.succ_le_succ (depthEntries_merged_le vs)
  | .object ms =>
    Nat.succ_le_succ (Nat.le_trans (depthMembers_merge_le _) (depthMembers_merged_le ms))

theorem depthEntries_merged_le :
    ∀ vs : List Value, depthEntries (mergedEntries vs) ≤ depthEntries vs
  | [] => Nat.le_refl _
  | v :: vs => by
    have hv := depth_merged_le v
    have hvs := depthEntries_merged_le vs
    simp only [mergedEntries, depthEntries]
    omega

theorem depthMembers_merged_le :
    ∀ ms : List (String × Value), depthMembers (mergedMembers ms) ≤ depthMembers ms
  | [] => Nat.le_refl _
  | (_, v) :: ms => by
    have hv := depth_merged_le v
    have hms := depthMembers_merged_le ms
    simp only [mergedMembers, depthMembers]
    omega

end

/-! The numbers in a value. -/

mutual

def numbers : Value → List Number
  | number n => [n]
  | list vs => numbersEntries vs
  | object ms => numbersMembers ms
  | _ => []

def numbersEntries : List Value → List Number
  | [] => []
  | v :: vs => numbers v ++ numbersEntries vs

def numbersMembers : List (String × Value) → List Number
  | [] => []
  | (_, v) :: ms => numbers v ++ numbersMembers ms

end

theorem mem_numbersMembers {members : List (String × Value)} {n : Number} :
    n ∈ numbersMembers members ↔ ∃ m ∈ members, n ∈ m.2.numbers := by
  induction members with
  | nil => simp [numbersMembers]
  | cons m members ih => simp [numbersMembers, ih]

theorem mem_numbersEntries {vs : List Value} {n : Number} :
    n ∈ numbersEntries vs ↔ ∃ v ∈ vs, n ∈ v.numbers := by
  induction vs with
  | nil => simp [numbersEntries]
  | cons v vs ih => simp [numbersEntries, ih]

theorem numbersMembers_merge_subset (members : List (String × Value)) :
    numbersMembers (merge members) ⊆ numbersMembers members := fun _ h =>
  have ⟨m, hm, hn⟩ := mem_numbersMembers.mp h
  mem_numbersMembers.mpr ⟨m, mem_of_mem_merge hm, hn⟩

mutual

theorem numbers_merged_subset : ∀ v : Value, v.merged.numbers ⊆ v.numbers
  | .null => List.Subset.refl _
  | .bool _ => List.Subset.refl _
  | .number _ => List.Subset.refl _
  | .text _ => List.Subset.refl _
  | .list vs => numbersEntries_merged_subset vs
  | .object ms =>
    List.Subset.trans (numbersMembers_merge_subset _) (numbersMembers_merged_subset ms)

theorem numbersEntries_merged_subset :
    ∀ vs : List Value, numbersEntries (mergedEntries vs) ⊆ numbersEntries vs
  | [] => List.Subset.refl _
  | v :: vs => List.append_subset.mpr
    ⟨List.subset_append_of_subset_left _ (numbers_merged_subset v),
      List.subset_append_of_subset_right _ (numbersEntries_merged_subset vs)⟩

theorem numbersMembers_merged_subset :
    ∀ ms : List (String × Value), numbersMembers (mergedMembers ms) ⊆ numbersMembers ms
  | [] => List.Subset.refl _
  | (_, v) :: ms => List.append_subset.mpr
    ⟨List.subset_append_of_subset_left _ (numbers_merged_subset v),
      List.subset_append_of_subset_right _ (numbersMembers_merged_subset ms)⟩

end

end DeckDoc.Json.Value
