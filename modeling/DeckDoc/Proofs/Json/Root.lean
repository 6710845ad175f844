import DeckDoc.Proofs.Json.Accept
import DeckDoc.Proofs.Json.Record

namespace DeckDoc.Json

/-- The items of a list as far as they could be read. -/
def Items.toList : Items → List Tree
  | .item value rest => value :: rest.toList
  | _ => []

/-- The members of an object as far as they could be read, their keys being texts. -/
def Members.toList : Members → List (String × Tree)
  | .member (.ok key) _ value _ rest => (key, value) :: rest.toList
  | .member (.error _) _ _ _ rest => rest.toList
  | _ => []

namespace Tree

def entries : Tree → List Tree
  | .list _ items => items.toList
  | _ => []

def members : Tree → List (String × Tree)
  | .object _ ms => ms.toList
  | _ => []

def isObject : Tree → Bool
  | .object _ _ => true
  | _ => false

def isList : Tree → Bool
  | .list _ _ => true
  | _ => false

def isNull : Tree → Bool
  | .null _ _ => true
  | _ => false

end Tree

theorem Items.toList_of_trees? : ∀ {items : Items} {ts : List Tree},
    items.trees? = some ts → items.toList = ts
  | .closed _, _, h => Option.some.inj h
  | .stray _ _, _, h => by simp [trees?] at h
  | .dangling _, _, h => by simp [trees?] at h
  | .cut _, _, h => by simp [trees?] at h
  | .item _ rest, _, h => by
    obtain ⟨ts, hts, rfl⟩ := Option.map_eq_some_iff.mp h
    rw [toList, @toList_of_trees? rest _ hts]

theorem Members.toList_of_pairs? : ∀ {members : Members} {ms : List (String × Tree)},
    members.pairs? = some ms → members.toList = ms
  | .closed _, _, h => Option.some.inj h
  | .stray _ _, _, h => by simp [pairs?] at h
  | .keyless _ _, _, h => by simp [pairs?] at h
  | .badKey _ _, _, h => by simp [pairs?] at h
  | .bare _ _ _, _, h => by simp [pairs?] at h
  | .cut _, _, h => by simp [pairs?] at h
  | .member (.error _) _ _ _ _, _, h => by simp [pairs?] at h
  | .member (.ok _) _ _ _ rest, _, h => by
    obtain ⟨ms, hms, rfl⟩ := Option.map_eq_some_iff.mp h
    rw [toList, @toList_of_pairs? rest _ hms]

namespace Tree

/-- The members of a tree that is an object and closed and whose keys are texts. -/
def pairs? : Tree → Option (List (String × Tree))
  | .object _ members => members.pairs?
  | _ => none

theorem isObject_iff {T : Tree} :
    T.isObject = true ↔ ∃ start members, T = .object start members := by
  cases T <;> simp [isObject]

theorem members_of_pairs? {T : Tree} {ms : List (String × Tree)} (h : T.pairs? = some ms) :
    T.members = ms := by
  cases T with
  | object _ members => exact Members.toList_of_pairs? h
  | _ => simp [pairs?] at h

end Tree

theorem Tree.entries_of_trees? {T : Tree} {ts : List Tree} (h : T.trees? = some ts) :
    T.entries = ts := by
  cases T with
  | list _ items => exact Items.toList_of_trees? h
  | _ => simp [trees?] at h

/-! An object is known by the first character of its text that is no blank, whatever follows. -/

def Token.isOpenObject : Token → Bool
  | .openObject => true
  | _ => false

def Frame.isObject : Frame → Bool
  | .list _ _ => false
  | .object _ _ _ _ => true

/-- Whether the outermost value is an object, where `inner` says so of the value inside all of the
open brackets. -/
def outermost (inner : Bool) (frames : List Frame) : Bool :=
  frames.foldl (fun _ f => f.isObject) inner

theorem outermost_cons (inner : Bool) (f : Frame) (frames : List Frame) :
    outermost inner (f :: frames) = outermost f.isObject frames := rfl

theorem Frame.isObject_cut (fault : Fault) (value : Tree) (f : Frame) :
    (f.cut fault value).isObject = f.isObject := by
  cases f <;> rfl

namespace Source

variable {fault : Fault} {frames : List Frame}

theorem isObject_ofFaulty (value : Tree) :
    (ofFaulty value fault frames).tree.isObject = outermost value.isObject frames := by
  induction frames generalizing value with
  | nil => rfl
  | cons f frames ih =>
    rw [outermost_cons, ← f.isObject_cut fault value]
    exact ih (f.cut fault value)

end Source

namespace Progress

/-- Whether the outermost value is an object, as far as the text has been read. -/
def isObject : Progress → Bool
  | .atValue frames => outermost false frames
  | .atFirstItem _ frames => outermost false frames
  | .afterValue v frames => outermost v.isObject frames
  | .atFirstKey _ frames => outermost true frames
  | .atKey _ _ frames => outermost true frames
  | .atColon _ _ _ frames => outermost true frames

/-- Something has been read. -/
def Begun : Progress → Prop
  | .atValue [] => False
  | _ => True

variable {frames : List Frame} {l : Lexeme} {p : Progress}

theorem isObject_stop (place : Nat) (found : Option Char) (p : Progress) :
    (p.stop place found).tree.isObject = p.isObject := by
  cases p with
  | atValue frames =>
    cases frames with
    | nil => rfl
    | cons f frames =>
      cases f with
      | list start items =>
        rw [stop]
        split <;> exact Source.isObject_ofFaulty _
      | object start members key colon => exact Source.isObject_ofFaulty _
  | atFirstItem start frames =>
    rw [stop]
    split <;> exact Source.isObject_ofFaulty _
  | afterValue v frames =>
    cases frames with
    | nil => rfl
    | cons f frames => cases f <;> exact Source.isObject_ofFaulty _
  | atFirstKey start frames => exact Source.isObject_ofFaulty _
  | atKey start members frames => exact Source.isObject_ofFaulty _
  | atColon start members key frames => exact Source.isObject_ofFaulty _

/-- What is known of the outermost value after a lexeme. -/
def Says (b : Bool) : Progress ⊕ Source → Prop
  | .inl p => p.Begun ∧ p.isObject = b
  | .inr source => source.tree.isObject = b

theorem says_beginValue {next : Progress ⊕ Source} (h : beginValue frames l = some next) :
    Says (outermost l.token.isOpenObject frames) next := by
  unfold beginValue at h
  cases ht : l.token <;> rw [ht] at h <;> cases h
  all_goals first | exact ⟨trivial, rfl⟩ | exact Source.isObject_ofFaulty _

theorem says_beginKey {start : Nat} {members : List Entry} {next : Progress ⊕ Source}
    (h : beginKey start members frames l = some next) : Says (outermost true frames) next := by
  unfold beginKey at h
  split at h
  · cases h
    exact ⟨trivial, rfl⟩
  · split at h
    · cases h
      exact Source.isObject_ofFaulty _
    · cases h
  · cases h

/-- No lexeme after the first one changes what the outermost value is. -/
theorem says_accept {next : Progress ⊕ Source} (hp : p.Begun) (h : p.accept l = some next) :
    Says p.isObject next := by
  cases accepts_of_accept h with
  | @value frames _ begun =>
    cases frames with
    | nil => exact hp.elim
    | cons f frames => exact says_beginValue begun
  | firstItem begun => exact says_beginValue begun
  | firstKey begun => exact says_beginKey begun
  | key begun => exact says_beginKey begun
  | _ => exact ⟨trivial, rfl⟩

theorem isObject_build (size : Nat) (hp : p.Begun) (ls : List Lexeme) :
    (Source.build size p ls).tree.isObject = p.isObject := by
  induction ls generalizing p with
  | nil => exact isObject_stop size none p
  | cons l ls ih =>
    rw [Source.build]
    cases h : p.accept l with
    | none => exact isObject_stop l.start l.first p
    | some next =>
      have hsays := says_accept hp h
      cases next with
      | inl p' => exact (ih hsays.1).trans hsays.2
      | inr source => exact hsays

/-- The first lexeme decides what the outermost value is. -/
theorem isObject_build_first (size : Nat) (l : Lexeme) (ls : List Lexeme) :
    (Source.build size (.atValue []) (l :: ls)).tree.isObject = l.token.isOpenObject := by
  rw [Source.build]
  cases h : Progress.accept l (.atValue []) with
  | none =>
    rw [isObject_stop]
    change beginValue [] l = none at h
    unfold beginValue at h
    cases ht : l.token <;> rw [ht] at h <;> first | rfl | cases h
  | some next =>
    have hsays := says_beginValue h
    cases next with
    | inl p => exact (isObject_build size hsays.1 ls).trans hsays.2
    | inr source => exact hsays

end Progress

namespace Lexeme

/-- The first character of a text that is no blank. -/
def first? (text : String) : Option Char := (text.toList.dropWhile isSpace).head?

theorem scanAll_space {c : Char} (h : isSpace c = true) (place : Nat) (cs : List Char) :
    scanAll place 0 (c :: cs) = scanAll (place + c.utf8Size) 0 cs := by
  rw [scanAll, if_pos (by simp [h])]

/-- The lexemes of a text begin with the one at the first character that is no blank. -/
theorem head?_scanAll {c : Char} {cs rest : List Char} (h : cs.dropWhile isSpace = c :: rest)
    (place : Nat) : ∃ start, (scanAll place 0 cs).head? = some (scan start c rest) := by
  induction cs generalizing place with
  | nil => cases h
  | cons d cs ih =>
    by_cases hd : isSpace d = true
    · rw [scanAll_space hd]
      exact ih (by rwa [List.dropWhile_cons_of_pos hd] at h) _
    · rw [List.dropWhile_cons_of_neg hd] at h
      cases h
      refine ⟨place, ?_⟩
      rw [scanAll, if_neg (by simp [hd])]
      dsimp only
      split <;> rfl

theorem scanAll_blank {cs : List Char} (h : cs.dropWhile isSpace = []) (place : Nat) :
    scanAll place 0 cs = [] := by
  induction cs generalizing place with
  | nil => rfl
  | cons d cs ih =>
    have hd : isSpace d = true := List.dropWhile_eq_nil_iff.mp h d List.mem_cons_self
    rw [scanAll_space hd]
    exact ih (by rwa [List.dropWhile_cons_of_pos hd] at h) _

theorem isOpenObject_scan (place : Nat) (c : Char) (rest : List Char) :
    (scan place c rest).token.isOpenObject = decide (c = '\x7b') := by
  have word {w : List Char} {t : Token} (ht : t.isOpenObject = false) (d : Char) :
      (ofWord place w t d rest).token.isOpenObject = false := by
    unfold ofWord
    split
    · exact ht
    · rfl
  have number (d : Char) : (ofNumber place d rest).token.isOpenObject = false := by
    unfold ofNumber
    split <;> rfl
  have quoted (d : Char) : (ofQuoted place d rest).token.isOpenObject = false := by
    unfold ofQuoted
    dsimp only
    split <;> rfl
  by_cases hc : c = '\x7b'
  · subst hc
    rfl
  · rw [decide_eq_false hc]
    unfold scan
    split
    case h_3 => exact absurd rfl hc
    case h_7 => exact word rfl 'n'
    case h_8 => exact word rfl 't'
    case h_9 => exact word rfl 'f'
    case h_10 => exact quoted '"'
    case h_11 =>
      split
      · exact number c
      · rfl
    all_goals rfl

end Lexeme

/-- The outermost value of a text is an object if and only if the text begins with a brace. -/
theorem Source.isObject_ofText_iff (text : String) :
    (Source.ofText text).tree.isObject = true ↔ Lexeme.first? text = some '\x7b' := by
  unfold Source.ofText Lexeme.ofText Lexeme.first?
  cases hcs : text.toList.dropWhile Lexeme.isSpace with
  | nil =>
    rw [Lexeme.scanAll_blank hcs]
    exact iff_of_false Bool.false_ne_true (by simp)
  | cons c rest =>
    obtain ⟨start, hhead⟩ := Lexeme.head?_scanAll hcs 0
    obtain ⟨ls, hls⟩ := List.head?_eq_some_iff.mp hhead
    rw [hls, Progress.isObject_build_first, Lexeme.isOpenObject_scan]
    simp

end DeckDoc.Json
