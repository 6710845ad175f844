import DeckDoc.Proofs.Json.Stable
import DeckDoc.Proofs.Json.Written
import DeckDoc.Proofs.Literal

namespace DeckDoc

open Json

/-- A value is read back from what it is written as if its members are in order, its brackets within
the limit, and its numbers can be read. -/
theorem Json.Reader.value_ofText_written {v : Value} (horder : v.InOrder)
    (hdepth : v.depth ≤ depthLimit) (hnumbers : ∀ n ∈ v.numbers, n.Readable) :
    value.ofText v.written = .ok v := by
  obtain ⟨T, hT, hsource⟩ := Source.ofText_written hnumbers
  have hread : value depthLimit T = .ok v :=
    Tree.value_eq_ok_iff.mpr ⟨v, hT, hdepth, horder⟩
  rw [ofText_eq_ok_iff, hsource]
  exact ⟨hread, rfl⟩

theorem Json.Number.inRange_int64 (i : Int64) : (integer i.toInt).InRange := by
  have hlow := i.le_toInt
  have hhigh := i.toInt_lt
  constructor <;> omega

namespace Literal

/-- A proper literal is read back from what it is written as wherever its value is. -/
theorem ofText_written {l : Literal} (hproper : l.Proper)
    (hvalue : Reader.value.ofText l.toValue.written = .ok l.toValue) :
    ofText l.toValue.written = .ok l := by
  rw [ofText_eq_map, hvalue]
  exact congrArg Except.ok hproper.classify_toValue

theorem ofText_written_ofInt (i : Int64) :
    ofText (ofInt i.toInt).toValue.written = .ok (ofInt i.toInt) := by
  refine ofText_written (.number _) (Reader.value_ofText_written rfl (Nat.zero_le _) ?_)
  intro n hn
  obtain rfl := List.mem_singleton.mp hn
  exact Number.readable_integer (Number.inRange_int64 i)

theorem ofText_written_ofString (s : String) :
    ofText (ofString s).toValue.written = .ok (ofString s) :=
  ofText_written (.text s) (Reader.value_ofText_written rfl (Nat.zero_le _)
    (List.forall_mem_nil _))

/-- The literal made of a whole number of 64 bits is the one that the number's decimal text is read
as, and it shows and is written as that text. The literal made of a text is the one that its quoted
form is read as, and it shows as the text. -/
theorem made_agrees_with_read :
    (∀ i : Int64, ∃ l, ofText i.toInt.repr = .ok l ∧ l = ofInt i.toInt ∧
      (l == ofInt i.toInt) = true ∧ l.display = i.toInt.repr ∧
      l.toValue.written = i.toInt.repr) ∧
    ∀ s : String, ∃ l, ofText (ofString s).toValue.written = .ok l ∧ l = ofString s ∧
      (l == ofString s) = true ∧ l.display = s := by
  constructor
  · intro i
    have hequal : (ofInt i.toInt == ofInt i.toInt) = true := beq_self_eq_true i.toInt
    exact ⟨_, ofText_written_ofInt i, rfl, hequal, rfl, rfl⟩
  · intro s
    have hequal : (ofString s == ofString s) = true := beq_self_eq_true s
    exact ⟨_, ofText_written_ofString s, rfl, hequal, rfl⟩

example : ofText "-9223372036854775808" = .ok (ofInt Int64.minValue.toInt) := by cbv

end Literal

end DeckDoc
