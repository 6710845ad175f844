import DeckDoc.Log.Level
import DeckDoc.Text.Blank
import DeckDoc.Text.Parts

namespace DeckDoc

/-- How much is logged of some events: of those from modules whose names begin with a target, and
that have a field. -/
structure LogRule where
  target : Option String := none
  field : Option String := none
  isForSpans : Bool := false
  level : LogLevel
  deriving DecidableEq

namespace LogRule

/-- A level that is left open is the highest. -/
def level? : List Char → Option LogLevel
  | [] => some .trace
  | cs => LogLevel.ofText? cs

def levelAfterSpan? : List Char → Option LogLevel
  | '=' :: cs => level? cs
  | cs => if cs.all Text.isBlank then some .trace else none

/-- The rest of a rule after an opening bracket. With the name of a span or the value of a field it
is about spans only. -/
def ofSpan? (target : Option String) (cs : List Char) : Option LogRule :=
  let name := cs.takeWhile fun c => c ≠ ']' ∧ c ≠ '{'
  match cs.drop name.length with
  | ']' :: rest => (levelAfterSpan? rest).map fun level => ⟨target, none, true, level⟩
  | '{' :: rest =>
    let field := rest.takeWhile (· ≠ '}')
    match field, rest.drop field.length with
    | _ :: _, '}' :: ']' :: rest =>
      (levelAfterSpan? rest).map fun level =>
        ⟨target, some (String.ofList (field.takeWhile (· ≠ '='))), name ≠ [] ∨ '=' ∈ field, level⟩
    | _, _ => none
  | _ => none

/-- Beyond ASCII every character counts as a letter. -/
def startsRule (c : Char) : Bool :=
  c.isAlphanum || c = '-' || c = ':' || c = '_' || c = '[' || '\x7f' < c

/-- A rule is a level, or a target, or a target and its level. -/
def ofText? (cs : List Char) : Option LogRule :=
  let head := cs.takeWhile fun c => c ≠ '=' ∧ c ≠ '['
  if ((cs.dropWhile Text.isBlank).head?.map startsRule).getD false then
    match cs.drop head.length with
    | [] =>
      match LogLevel.ofText? head with
      | some level => some { level }
      | none => some { target := String.ofList head, level := .trace }
    | '=' :: rest => (level? rest).map fun level => { target := String.ofList head, level }
    | _ :: rest => ofSpan? (if head = [] then none else some (String.ofList head)) rest
  else none

def applies (r : LogRule) (target : String) (fields : List String) : Bool :=
  !r.isForSpans && r.target.all (·.toList.isPrefixOf target.toList) && r.field.all fields.contains

/-- The longer target counts before any field, and the later field in the order of texts. -/
def precedes (r s : LogRule) : Bool :=
  let length (r : LogRule) := (r.target.map (·.utf8ByteSize + 1)).getD 0
  if length r = length s then
    match r.field, s.field with
    | some f, some g => g < f
    | f, g => f.isSome && g.isNone
  else length s < length r

end LogRule

/-- What is logged. -/
structure LogSetting where
  rules : List LogRule
  deriving DecidableEq

namespace LogSetting

def ofLevel (level : LogLevel) : LogSetting := ⟨[{ level }]⟩

/-- The rules between commas. Without a setting, and with one that cannot be read, warnings are
logged, and with an empty one errors. -/
def ofText : Option String → LogSetting
  | none => ofLevel .warn
  | some s =>
    let texts := (Text.parts ',' s.toList).filter (· ≠ [])
    if texts = [] then ofLevel .error
    else match texts.mapM LogRule.ofText? with
      | some rules => ⟨rules⟩
      | none => ofLevel .warn

/-- The level that counts for an event: that of the rule that precedes the others, and of equal ones
the last. -/
def levelFor (setting : LogSetting) (target : String) (fields : List String) : LogLevel :=
  let relevant := setting.rules.filter (·.applies target fields)
  let best := relevant.foldl (fun best r =>
    match best with
    | some s => if s.precedes r then some s else some r
    | none => some r) none
  (best.map (·.level)).getD .off

theorem levelFor_ofLevel (level : LogLevel) (target : String) (fields : List String) :
    (ofLevel level).levelFor target fields = level := rfl

end LogSetting

end DeckDoc
