import DeckDoc.Proofs.Decimal.Double
import DeckDoc.Proofs.Json.Value

namespace DeckDoc.Json

def Number.isNegativeZero : Number → Bool
  | .integer _ => false
  | .real x => DeckDoc.isNegativeZero x

/-- Which of some numbers are negative zeros. -/
def zeros (ns : List Number) : List Bool := ns.map Number.isNegativeZero

/-- Two lists of numbers, equally long, settle a claim if it holds where they have their negative
zeros at the same places. -/
structure Settles (ns ms : List Number) (p : Prop) : Prop where
  length_eq : ns.length = ms.length
  holds : zeros ns = zeros ms → p

namespace Settles

variable {ns ms ns' ms' : List Number} {p q : Prop}

theorem nil (h : p) : Settles [] [] p := ⟨rfl, fun _ => h⟩

theorem imp (h : Settles ns ms p) (hpq : p → q) : Settles ns ms q :=
  ⟨h.length_eq, fun hzeros => hpq (h.holds hzeros)⟩

theorem append (h : Settles ns ms p) (h' : Settles ns' ms' q) :
    Settles (ns ++ ns') (ms ++ ms') (p ∧ q) where
  length_eq := by rw [List.length_append, List.length_append, h.length_eq, h'.length_eq]
  holds hzeros := by
    unfold zeros at hzeros
    rw [List.map_append, List.map_append] at hzeros
    have hlength : (zeros ns).length = (zeros ms).length := by
      simp [zeros, h.length_eq]
    obtain ⟨hns, hns'⟩ := List.append_inj hzeros hlength
    exact ⟨h.holds hns, h'.holds hns'⟩

theorem number {n m : Number} (h : (n == m) = true) : Settles [n] [m] (n = m) := by
  refine ⟨rfl, fun hzeros => ?_⟩
  have hzero : n.isNegativeZero = m.isNegativeZero := by simpa [zeros] using hzeros
  cases n with
  | integer i =>
    cases m with
    | integer j => exact congrArg Number.integer (beq_iff_eq.mp h)
    | real y => cases h
  | real x =>
    cases m with
    | integer j => cases h
    | real y => exact congrArg Number.real (eq_of_beq_of_isNegativeZero h hzero)

end Settles

mutual

theorem Value.settles : ∀ {v w : Value}, v.beq w = true → Settles v.numbers w.numbers (v = w)
  | .null, .null, _ => .nil rfl
  | .bool _, .bool _, h => .nil (congrArg Value.bool (beq_iff_eq.mp h))
  | .number _, .number _, h => (Settles.number h).imp (congrArg Value.number)
  | .text _, .text _, h => .nil (congrArg Value.text (beq_iff_eq.mp h))
  | .list _, .list _, h => (Value.settles_entries h).imp (congrArg Value.list)
  | .object _, .object _, h => (Value.settles_members h).imp (congrArg Value.object)

theorem Value.settles_entries : ∀ {vs ws : List Value}, Value.beqEntries vs ws = true →
    Settles (Value.numbersEntries vs) (Value.numbersEntries ws) (vs = ws)
  | [], [], _ => .nil rfl
  | _ :: _, _ :: _, h => by
    obtain ⟨hv, hvs⟩ := Bool.and_eq_true_iff.mp h
    refine ((Value.settles hv).append (Value.settles_entries hvs)).imp ?_
    rintro ⟨rfl, rfl⟩
    rfl

theorem Value.settles_members : ∀ {vs ws : List (String × Value)},
    Value.beqMembers vs ws = true →
    Settles (Value.numbersMembers vs) (Value.numbersMembers ws) (vs = ws)
  | [], [], _ => .nil rfl
  | (_, _) :: _, (_, _) :: _, h => by
    obtain ⟨hkv, hvs⟩ := Bool.and_eq_true_iff.mp h
    obtain ⟨hk, hv⟩ := Bool.and_eq_true_iff.mp hkv
    obtain rfl := beq_iff_eq.mp hk
    refine ((Value.settles hv).append (Value.settles_members hvs)).imp ?_
    rintro ⟨rfl, rfl⟩
    rfl

end

section

variable {α β γ : Type} [BEq α]

/-- Equal things with their negative zeros at the same places are shown alike. -/
def ZerosDecide (numbers : α → List Number) (shown : α → β) : Prop :=
  ∀ a b, (a == b) = true → Settles (numbers a) (numbers b) (shown a = shown b)

def numbersOfOption (numbers : α → List Number) (o : Option α) : List Number :=
  (o.map numbers).getD []

variable {numbers : α → List Number} {shown : α → β}

theorem ZerosDecide.comp (h : ZerosDecide numbers shown) (f : β → γ) :
    ZerosDecide numbers fun a => f (shown a) :=
  fun a b hab => (h a b hab).imp (congrArg f)

theorem ZerosDecide.option (h : ZerosDecide numbers shown) :
    ZerosDecide (numbersOfOption numbers) (Option.map shown) := by
  intro o o' ho
  cases o with
  | none =>
    cases o' with
    | none => exact .nil rfl
    | some b => cases ho
  | some a =>
    cases o' with
    | none => cases ho
    | some b => exact (h a b ho).imp (congrArg some)

theorem ZerosDecide.list (h : ZerosDecide numbers shown) :
    ZerosDecide (fun as => as.flatMap numbers) (List.map shown) := by
  intro as bs hab
  induction as generalizing bs with
  | nil =>
    cases bs with
    | nil => exact .nil rfl
    | cons b bs => cases hab
  | cons a as ih =>
    cases bs with
    | nil => cases hab
    | cons b bs =>
      obtain ⟨ha, has⟩ := Bool.and_eq_true_iff.mp hab
      refine ((h a b ha).append (ih bs has)).imp ?_
      rintro ⟨hshown, hrest⟩
      rw [List.map_cons, List.map_cons, hshown, hrest]

end

end DeckDoc.Json
