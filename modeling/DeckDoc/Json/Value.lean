import DeckDoc.Json.Number
import DeckDoc.Json.Quote

namespace DeckDoc.Json

/-- A JSON value; the members of an object are listed in the order in which they are written. -/
inductive Value where
  | null
  | bool (value : Bool)
  | number (value : Number)
  | text (content : String)
  | list (entries : List Value)
  | object (members : List (String × Value))

namespace Value

mutual

def beq : Value → Value → Bool
  | null, null => true
  | bool a, bool b => a == b
  | number m, number n => m == n
  | text s, text t => s == t
  | list vs, list ws => beqEntries vs ws
  | object vs, object ws => beqMembers vs ws
  | _, _ => false

def beqEntries : List Value → List Value → Bool
  | [], [] => true
  | v :: vs, w :: ws => beq v w && beqEntries vs ws
  | _, _ => false

def beqMembers : List (String × Value) → List (String × Value) → Bool
  | [], [] => true
  | (k, v) :: vs, (l, w) :: ws => k == l && beq v w && beqMembers vs ws
  | _, _ => false

end

instance : BEq Value := ⟨beq⟩

/-- Puts a member at its place among members sorted by key; a member of the same key gives way. -/
def put (key : String) (value : Value) : List (String × Value) → List (String × Value)
  | [] => [(key, value)]
  | (k, v) :: rest =>
    if key < k then (key, value) :: (k, v) :: rest
    else if key = k then (key, value) :: rest
    else (k, v) :: put key value rest

/-- Members sorted by the code points of their keys; of equal keys the last one counts. -/
def merge (members : List (String × Value)) : List (String × Value) :=
  members.foldl (fun sorted m => put m.1 m.2 sorted) []

theorem lookup_put_self (key : String) (value : Value) (members : List (String × Value)) :
    (put key value members).lookup key = some value := by
  induction members with
  | nil => simp [put]
  | cons m rest ih =>
    obtain ⟨k, v⟩ := m
    unfold put
    split
    · simp
    · split
      · simp
      · next h => simp [List.lookup_cons, beq_eq_false_iff_ne.mpr h, ih]

theorem lookup_put_of_ne {key k : String} (h : k ≠ key) (value : Value)
    (members : List (String × Value)) :
    (put key value members).lookup k = members.lookup k := by
  have hk := beq_eq_false_iff_ne.mpr h
  induction members with
  | nil => simp [put, List.lookup_cons, hk]
  | cons m rest ih =>
    obtain ⟨l, v⟩ := m
    unfold put
    split
    · simp [List.lookup_cons, hk]
    · split
      · next hl => subst hl; simp [List.lookup_cons, hk]
      · simp [List.lookup_cons, ih]

/-- Nothing is written as `null`. -/
def ofOption {α : Type} (toValue : α → Value) (a : Option α) : Value := (a.map toValue).getD null

mutual

/-- The compact text: no blank anywhere. -/
def written : Value → String
  | null => "null"
  | bool b => if b then "true" else "false"
  | number n => n.text
  | text s => quote s
  | list vs => "[" ++ ",".intercalate (writtenEntries vs) ++ "]"
  | object ms => "\x7b" ++ ",".intercalate (writtenMembers ms) ++ "\x7d"

def writtenEntries : List Value → List String
  | [] => []
  | v :: vs => written v :: writtenEntries vs

def writtenMembers : List (String × Value) → List String
  | [] => []
  | (k, v) :: ms => (quote k ++ ":" ++ written v) :: writtenMembers ms

end

example :
    (object [("b", null), ("a", list [bool true, number (.integer (-1)), text "\n"])]).written =
      "\x7b\"b\":null,\"a\":[true,-1,\"\\n\"]\x7d" := by decide +kernel

end Value

end DeckDoc.Json
