namespace DeckDoc.Text

/-- The control sequences of a terminal, which an escape character opens. They differ in what may
close them. -/
inductive ControlSequence where
  | escape
  | intermediate
  | control
  | device
  | deviceParameters
  | deviceIntermediate
  | string
  | command
  deriving DecidableEq

namespace ControlSequence

/-- What a character makes of an open sequence, other than one that opens or cancels a sequence. -/
def after (c : Char) : ControlSequence → Option ControlSequence
  | escape =>
    if c = '[' then some control
    else if c = ']' then some command
    else if c = 'P' then some device
    else if c = 'X' ∨ c = '^' ∨ c = '_' then some string
    else if '0' ≤ c ∧ c ≤ '~' then none
    else if ' ' ≤ c ∧ c ≤ '/' then some intermediate
    else some escape
  | intermediate => if '0' ≤ c ∧ c ≤ '~' then none else some intermediate
  | control => if '@' ≤ c ∧ c ≤ '~' then none else some control
  | device =>
    if '@' ≤ c ∧ c ≤ '~' then some string
    else if '0' ≤ c ∧ c ≤ '?' then some deviceParameters
    else if ' ' ≤ c ∧ c ≤ '/' then some deviceIntermediate
    else some device
  | deviceParameters =>
    if '<' ≤ c ∧ c ≤ '~' then some string
    else if ' ' ≤ c ∧ c ≤ '/' then some deviceIntermediate
    else some deviceParameters
  | deviceIntermediate => if '0' ≤ c ∧ c ≤ '~' then some string else some deviceIntermediate
  | string => if 0x9C ∈ String.utf8EncodeChar c then none else some string
  | command => if c = '\x07' then none else some command

/-- Whether a line break or a tab inside the sequence is still shown. -/
def showsBreaks : ControlSequence → Bool
  | escape => true
  | intermediate => true
  | control => true
  | _ => false

end ControlSequence

def isBreak (c : Char) : Bool := c = '\t' || c = '\n' || c = '\x0c' || c = '\r'

/-- A terminal shows all but the controls of ASCII, of which line breaks and tabs remain. -/
def isShown (c : Char) : Bool := isBreak c || (' ' ≤ c && c ≠ '\x7f')

/-- What is shown after a control sequence has been opened, or of plain text. After a break inside a
sequence characters are shown again. An ASCII one that is not takes the sequence up where it was,
and any other character ends it. -/
def shownWithin : Option ControlSequence → Bool → List Char → List Char
  | _, _, [] => []
  | sequence, interrupted, c :: cs =>
    if c = '\x1b' then shownWithin (some .escape) false cs
    else if c = '\x18' ∨ c = '\x1a' then shownWithin none false cs
    else match sequence with
      | none => if isShown c then c :: shownWithin none false cs else shownWithin none false cs
      | some s =>
        if interrupted ∧ isShown c then
          c :: shownWithin (if c < '\x7f' then some s else none) true cs
        else if s.showsBreaks ∧ isBreak c then c :: shownWithin (some s) true cs
        else shownWithin (s.after c) false cs

theorem shownWithin_none {cs : List Char} (h : '\x1b' ∉ cs) :
    shownWithin none false cs = cs.filter isShown := by
  induction cs with
  | nil => rfl
  | cons c cs ih =>
    have hc : c ≠ '\x1b' := fun e => h (e ▸ List.mem_cons_self)
    have ih := ih fun hm => h (List.mem_cons_of_mem _ hm)
    by_cases hk : c = '\x18' ∨ c = '\x1a'
    · have hs : isShown c = false := by rcases hk with rfl | rfl <;> decide
      simp [shownWithin, hc, hk, hs, ih]
    · by_cases hs : isShown c <;> simp [shownWithin, hc, hk, hs, ih]

/-- A text without the control characters and control sequences of a terminal. -/
def withoutControls (s : String) : String := String.ofList (shownWithin none false s.toList)

theorem withoutControls_of_shown {s : String} (h : ∀ c ∈ s.toList, isShown c = true) :
    withoutControls s = s := by
  have hn : '\x1b' ∉ s.toList := fun hm => absurd (h _ hm) (by decide)
  rw [withoutControls, shownWithin_none hn, List.filter_eq_self.mpr h, String.ofList_toList]

end DeckDoc.Text
