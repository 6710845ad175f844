import DeckDoc.Proofs.Json.Root
import DeckDoc.Proofs.Keyword.Shape
import DeckDoc.Run

namespace DeckDoc

open Json

namespace Json

/-- A record stands in braces or in brackets. -/
theorem Form.isObject_or_isList {κ : Type} {Content : κ → Type} {σ : Type}
    {layout : Layout κ Content σ} {form : κ → Form} {room : Nat} {T : Tree}
    (h : Form.record layout form room T) : T.isObject ∨ T.isList := by
  obtain ⟨_, _, -, hf, -⟩ := h
  cases hf with
  | object _ _ => exact .inl rfl
  | list _ _ _ => exact .inr rfl

theorem Form.mem_entries {form : Form} {room : Nat} {T u : Tree}
    (h : form.list.orNull room T) (hu : u ∈ T.entries) : ∃ n, form n u := by
  rcases h with h | ⟨n, ts, -, hts, hall⟩
  · obtain ⟨_, _, rfl⟩ := Tree.spelled_eq_null_iff.mp h
    cases hu
  · exact ⟨n, hall u (Tree.entries_of_trees? hts ▸ hu)⟩

end Json

namespace Keyword

/-- Whether a record stands as an object where one is due. It may be left out as `null` in some
places. -/
def Key.IsProper (k : Key) (T : Tree) : Prop :=
  T.isObject ∨ (k = .code ∨ k = .data) ∧ T.isNull

/-- Every description, item, code block and data specification of the text is an object. -/
def ObjectsOnly (T : Tree) : Prop :=
  T.isObject ∧ ∀ f ∈ layout.known T.members, ∀ u ∈ f.1.places Tree.entries f.2, f.1.IsProper u

/-- Some description, item, code block or data specification of the text is a list. -/
def SomeList (T : Tree) : Prop :=
  T.isList ∨ ∃ f ∈ layout.known T.members, ∃ u ∈ f.1.places Tree.entries f.2, u.isList

instance (k : Key) (T : Tree) : Decidable (k.IsProper T) := inferInstanceAs (Decidable (_ ∨ _))

instance (T : Tree) : Decidable (ObjectsOnly T) := inferInstanceAs (Decidable (_ ∧ _))

instance (T : Tree) : Decidable (SomeList T) := inferInstanceAs (Decidable (_ ∨ _))

theorem not_objectsOnly_of_someList {T : Tree} (h : SomeList T) : ¬ ObjectsOnly T := by
  intro hobjects
  obtain ⟨hroot, hall⟩ := hobjects
  rcases h with h | ⟨f, hf, u, hu, h⟩
  · cases T <;> simp_all [Tree.isList, Tree.isObject]
  · have := hall f hf u hu
    cases u <;> simp_all [Key.IsProper, Tree.isList, Tree.isObject, Tree.isNull]

theorem Key.isProper_or_isList {k : Key} {room : Nat} {T u : Tree} (h : k.form room T)
    (hu : u ∈ k.places Tree.entries T) : k.IsProper u ∨ u.isList := by
  have item {n : Nat} {w : Tree} (hw : Item.form n w) : k.IsProper w ∨ w.isList :=
    (Form.isObject_or_isList hw).imp .inl id
  have records (h : Item.form.list.list.orNull room T)
      (hu : u ∈ T.entries.flatMap Tree.entries) : k.IsProper u ∨ u.isList := by
    obtain ⟨w, hw, hu⟩ := List.mem_flatMap.mp hu
    obtain ⟨n, hw⟩ := Form.mem_entries h hw
    obtain ⟨m, hu⟩ := Form.mem_entries (.inr hw) hu
    exact item hu
  cases k with
  | code =>
    obtain rfl := List.mem_singleton.mp hu
    rcases h with h | h
    · obtain ⟨_, _, rfl⟩ := Tree.spelled_eq_null_iff.mp h
      exact .inl (.inr ⟨.inl rfl, rfl⟩)
    · exact (Form.isObject_or_isList h).imp .inl id
  | data =>
    obtain rfl := List.mem_singleton.mp hu
    rcases h with h | h
    · obtain ⟨_, _, rfl⟩ := Tree.spelled_eq_null_iff.mp h
      exact .inl (.inr ⟨.inr rfl, rfl⟩)
    · exact (Form.isObject_or_isList h).imp .inl id
  | items =>
    obtain ⟨n, hu⟩ := Form.mem_entries h hu
    exact item hu
  | records => exact records h hu
  | recordsSet => exact records h hu
  | alternatingRecords => exact records h hu
  | _ => cases hu

theorem someList_of_form {room : Nat} {T : Tree} (h : form room T) (hn : ¬ ObjectsOnly T) :
    SomeList T := by
  obtain ⟨n, fields, -, hf, -, hform⟩ := h
  cases hf with
  | list _ _ _ => exact .inl rfl
  | @object start members ms hms _ =>
    have hmembers : (Tree.object start members).members = ms := Members.toList_of_pairs? hms
    by_contra hs
    refine hn ⟨rfl, fun f hf u hu => ?_⟩
    rcases Key.isProper_or_isList (hform f (hmembers ▸ hf)) hu with h | h
    · exact h
    · exact absurd (.inr ⟨f, hf, u, hu, h⟩) hs

theorem load_of_file {files : FileTree} {path text : String}
    (h : files.file? path = some text.toUTF8) :
    load files path = (ofText text).mapError (.refused text) := by
  have htext : String.fromUTF8? text.toUTF8 = some text := dif_pos text.isValidUTF8
  exact load_eq_ofText h htext

/-- A text without an object where a record is due is refused unless it is a description in which
some record is the list of its contents. -/
theorem load_refuses_iff {files : FileTree} {path text : String}
    (h : files.file? path = some text.toUTF8) :
    (¬ ObjectsOnly (Source.ofText text).tree →
        ∃ fault, load files path = .error (.refused text fault)) ↔
      ¬ ((Source.ofText text).excess = none ∧ form depthLimit (Source.ofText text).tree ∧
        SomeList (Source.ofText text).tree) := by
  have accepted : (∃ k, ofText text = .ok k) ↔ (Source.ofText text).excess = none ∧
      form depthLimit (Source.ofText text).tree := by
    simp only [ofText, Reader.ofText_eq_ok_iff, ← accepts_reader _ _]
    constructor
    · intro h
      obtain ⟨k, hk, hx⟩ := h
      exact ⟨hx, k, hk⟩
    · intro h
      obtain ⟨hx, k, hk⟩ := h
      exact ⟨k, hk, hx⟩
  rw [load_of_file h]
  constructor
  · intro hclaim h
    obtain ⟨hx, hform, hlist⟩ := h
    obtain ⟨k, hk⟩ := accepted.mpr ⟨hx, hform⟩
    obtain ⟨fault, hfault⟩ := hclaim (not_objectsOnly_of_someList hlist)
    rw [hk] at hfault
    cases hfault
  · intro hno hn
    cases hk : ofText text with
    | error fault => exact ⟨fault, rfl⟩
    | ok k =>
      obtain ⟨hx, hform⟩ := accepted.mp ⟨k, hk⟩
      exact absurd ⟨hx, hform, someList_of_form hform hn⟩ hno

theorem load_refuses_items_of_text :
    let files : FileTree :=
      ⟨[(["work", "a"], .file "\x7b\"items\":[\"I\"]\x7d".toUTF8)], ["work"]⟩
    ∃ fault, load files "a" = .error (.refused "\x7b\"items\":[\"I\"]\x7d" fault) :=
  (load_refuses_iff rfl).mpr (fun h => absurd h.2.2 (by decide +kernel)) (by decide +kernel)

/-- The list of the first fifteen contents of a description is accepted in its place. -/
theorem load_accepts_list :
    ¬ ∀ (files : FileTree) (path text : String), files.file? path = some text.toUTF8 →
      ¬ ObjectsOnly (Source.ofText text).tree →
        ∃ fault, load files path = .error (.refused text fault) := by
  intro h
  let text := "[\"N\",null,null,null,null,null,null,null,null,null,null,null,null,null,null]"
  have hk : ofText text = .ok { name := some "N", items := some none } := by
    unfold text
    cbv
  have hfile : (⟨[(["work", "a"], .file text.toUTF8)], ["work"]⟩ : FileTree).file? "a" =
      some text.toUTF8 := rfl
  obtain ⟨fault, hfault⟩ := h _ "a" text hfile (by decide +kernel)
  rw [load_of_file hfile, hk] at hfault
  cases hfault

end Keyword

end DeckDoc
