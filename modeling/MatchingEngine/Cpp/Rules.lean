import MatchingEngine.Cpp.InstBook
import Mathlib.Tactic.Tauto

/-!
# The rules behind the grader's books

`Permits` says of a line whether the statuses of the orders allow it, without a book, and `after` what
becomes of the statuses.  The books that the grader keeps compare pointers by what they lead to.
-/

namespace MatchingEngine.Cpp.Grader

open Text SortedMultiset PriceTime

variable {ptype : PriorityType} {stype : SortByTimestampType} {orders orders' : Orders}
  {sd : Side} {i : Bytes} {id p q : UInt32} {o o' : OrderStatus} {c c' : Checking}

/-! ## The rules -/

/-- The order is booked for the instrument on this side. -/
structure Rests (orders : Orders) (i : Bytes) (sd : Side) (id : UInt32) (o : OrderStatus) : Prop where
  status : orders id = some o
  booked : o.state = .booked
  instrument : o.instrument = i
  type : o.type = sd

/-- The resting order `r` may be traded with, as far as the other one on its side is concerned. -/
def First (ptype : PriorityType) (stype : SortByTimestampType) (sd : Side) (r o : OrderStatus) :
    Prop :=
  match ptype with
  | .priceTime => ordering .priceTime stype sd o r = false
  | .time => sd.Crosses r.price o.price → r.timestamp stype ≤ o.timestamp stype

/-- A new order may be booked. -/
structure MayBook (orders : Orders) (sd : Side) (i : Bytes) (price : UInt32) (o : OrderStatus) :
    Prop where
  active : o.state = .active
  type : o.type = sd
  open' : o.filledCount < o.count
  instrument : o.instrument = i
  uncrossed : ∀ id' o', Rests orders i sd.opp id' o' → ¬ sd.opp.Crosses price o'.price
  price : o.price = price

/-- The orders `r` and `n` may trade. -/
structure MayTrade (ptype : PriorityType) (stype : SortByTimestampType) (orders : Orders)
    (executionId price count : UInt32) (r n : OrderStatus) : Prop where
  booked : r.state = .booked
  active : n.state = .active
  price : r.price = price
  instrument : r.instrument = n.instrument
  sides : r.type = n.type.opp
  first : ∀ id' o', Rests orders r.instrument r.type id' o' → First ptype stype r.type r o'
  executionId : r.executionId + 1 = executionId
  resting : r.filledCount + count ≤ r.count
  new : n.filledCount + count ≤ n.count

def Permits (ptype : PriorityType) (stype : SortByTimestampType) (orders : Orders)
    (output : ParsedEngineOutput) : Prop :=
  match output.parsed with
  | .buySell sd orderId instrument price _ =>
    ∃ o, orders orderId = some o ∧ MayBook orders sd instrument price o
  | .exec restingOrderId newOrderId executionId price count =>
    ∃ r n, orders restingOrderId = some r ∧ orders newOrderId = some n ∧
      MayTrade ptype stype orders executionId price count r n
  | .cancel orderId accept => ∃ o, orders orderId = some o ∧ (accept = true ↔ o.state = .booked)

def after (orders : Orders) (output : ParsedEngineOutput) : Orders :=
  match output.parsed with
  | .buySell _ orderId _ _ _ =>
    modify orders orderId (.book output.inputTimestamp output.outputTimestamp)
  | .exec restingOrderId newOrderId _ _ count =>
    modify (modify orders restingOrderId fun r => (r.take count).execute.settle)
      newOrderId fun n => (n.take count).settle
  | .cancel orderId accept => if accept then modify orders orderId .cancel else orders

/-- Every line is permitted by what the lines before it left. -/
def Lawful (ptype : PriorityType) (stype : SortByTimestampType) :
    Orders → List ParsedEngineOutput → Prop
  | _, [] => True
  | orders, output :: outputs =>
    Permits ptype stype orders output ∧ Lawful ptype stype (after orders output) outputs

/-- No two resting orders of an instrument cross. -/
def Uncrossed (orders : Orders) : Prop :=
  ∀ i sd id o id' o', Rests orders i sd id o → Rests orders i sd.opp id' o' →
    ¬ sd.Crosses o'.price o.price

/-! ## The order of a book -/

theorem deref_of_some (h : orders id = some o) : deref orders id = o := by
  unfold deref
  rw [h]
  rfl

/-- What the order of a book depends on. -/
def OrderStatus.key (o : OrderStatus) : UInt32 × ℕ × ℕ :=
  (o.price, o.inputTimestamp, o.addedToBookTimestamp)

theorem price_of_key (h : o'.key = o.key) : o'.price = o.price := congrArg Prod.fst h

theorem timestamp_of_key (h : o'.key = o.key) : o'.timestamp stype = o.timestamp stype := by
  simp only [OrderStatus.key, Prod.mk.injEq] at h
  cases stype with
  | input => exact h.2.1
  | addedToBook => exact h.2.2

theorem ordering_congr {o₁ o₂ o₁' o₂' : OrderStatus} (h₁ : o₁'.key = o₁.key) (h₂ : o₂'.key = o₂.key) :
    ordering ptype stype sd o₁' o₂' = ordering ptype stype sd o₁ o₂ := by
  simp only [OrderStatus.key, Prod.mk.injEq] at h₁ h₂
  unfold ordering
  cases ptype with
  | priceTime =>
    apply decide_eq_decide.mpr
    cases stype with
    | input =>
      unfold OrderStatus.timestamp
      rw [h₁.1, h₁.2.1, h₂.1, h₂.2.1]
    | addedToBook =>
      unfold OrderStatus.timestamp
      rw [h₁.1, h₁.2.2, h₂.1, h₂.2.2]
  | time =>
    apply decide_eq_decide.mpr
    rw [h₁.1, h₂.1]

theorem better_or (sd : Side) {a c : UInt32} (b : UInt32) (h : sd.Better a c) :
    sd.Better a b ∨ sd.Better b c := by
  cases sd with
  | buy => exact (lt_or_ge b a).imp_right fun hle => lt_of_lt_of_le h hle
  | sell => exact (lt_or_ge a b).imp_right fun hle => lt_of_le_of_lt hle h

theorem crosses_comm : sd.Crosses p q ↔ sd.opp.Crosses q p := by
  cases sd <;> rfl

theorem strictWeak_ordering : StrictWeak (ordering ptype stype sd) := by
  cases ptype with
  | time =>
    constructor
    · exact fun o => decide_eq_false Side.Better.irrefl
    · intro a b c hab hbc
      exact decide_eq_true ((of_decide_eq_true hab).trans (of_decide_eq_true hbc))
    · intro a c b hac
      exact (better_or sd b.price (of_decide_eq_true hac)).imp decide_eq_true decide_eq_true
  | priceTime =>
    constructor
    · intro o
      apply decide_eq_false
      rintro (hlt | ⟨-, hlt⟩)
      · exact Side.Better.irrefl hlt
      · exact Nat.lt_irrefl _ hlt
    · intro a b c hab hbc
      apply decide_eq_true
      rcases of_decide_eq_true hab with hab | ⟨heq, hab⟩
      · rcases of_decide_eq_true hbc with hbc | ⟨heq', hbc⟩
        · exact Or.inl (hab.trans hbc)
        · exact Or.inl (heq' ▸ hab)
      · rcases of_decide_eq_true hbc with hbc | ⟨heq', hbc⟩
        · exact Or.inl (heq ▸ hbc)
        · exact Or.inr ⟨heq.trans heq', hab.trans hbc⟩
    · intro a c b hac
      rcases of_decide_eq_true hac with hac | ⟨heq, hac⟩
      · exact (better_or sd b.price hac).imp (fun h => decide_eq_true (Or.inl h))
          fun h => decide_eq_true (Or.inl h)
      · -- one price: `b` is ahead of it, behind it or at it
        by_cases hab : sd.Better a.price b.price
        · exact Or.inl (decide_eq_true (Or.inl hab))
        by_cases hne : a.price = b.price
        · rcases Nat.lt_or_ge (a.timestamp stype) (b.timestamp stype) with hlt | hge
          · exact Or.inl (decide_eq_true (Or.inr ⟨hne, hlt⟩))
          · exact Or.inr (decide_eq_true (Or.inr ⟨hne.symm.trans heq, lt_of_le_of_lt hge hac⟩))
        · exact Or.inr (decide_eq_true (Or.inl (heq ▸ Side.better_of_not_better hab hne)))

theorem strictWeak_pointerOrdering : StrictWeak (pointerOrdering ptype stype orders sd) where
  irrefl := fun a => strictWeak_ordering.irrefl (deref orders a)
  trans := fun hab hbc => strictWeak_ordering.trans hab hbc
  weak := fun b hac => strictWeak_ordering.weak (deref orders b) hac

theorem pointerOrdering_congr (h : ∀ r, (deref orders' r).key = (deref orders r).key) :
    pointerOrdering ptype stype orders' sd = pointerOrdering ptype stype orders sd := by
  funext a b
  exact ordering_congr (h a) (h b)

/-! ## The checks -/

@[simp] theorem check_ok {b : Bool} {what : String} {u : Unit} :
    check b what = .ok u ↔ b = true := by
  unfold check
  cases b with
  | true => exact ⟨fun _ => rfl, fun _ => rfl⟩
  | false =>
    constructor
    · rintro ⟨⟩
    · rintro ⟨⟩

@[simp] theorem at_ok {V : Type} {m : UInt32 → Option V} {key : UInt32} {what : String} {v : V} :
    at' m key what = .ok v ↔ m key = some v := by
  unfold at'
  cases m key with
  | none =>
    constructor
    · rintro ⟨⟩
    · rintro ⟨⟩
  | some v' => exact ⟨fun h => congrArg some (Except.ok.inj h), fun h => congrArg _ (Option.some.inj h)⟩

theorem bind_ok {V W : Type} {x : Check V} {f : V → Check W} {w : W} :
    (x >>= f) = .ok w ↔ ∃ v, x = .ok v ∧ f v = .ok w := by
  cases x with
  | error what =>
    constructor
    · rintro ⟨⟩
    · rintro ⟨v, ⟨⟩, -⟩
  | ok v =>
    constructor
    · exact fun h => ⟨v, rfl, h⟩
    · rintro ⟨v', ⟨⟩, hf⟩
      exact hf

end MatchingEngine.Cpp.Grader
