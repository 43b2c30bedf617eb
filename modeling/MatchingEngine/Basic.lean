import MatchingEngine.Lib.PriceTime
import Mathlib.Data.UInt

/-!
# Vocabulary of both engines

The input records, the sides of a book and the output lines are the same in the C++ and in the Go
engine.  Counts and volumes are `uint32_t` words in the code; the definitions are generic in their
type `N`, so that one translation is read both with the machine's arithmetic (`N = UInt32`) and with
natural numbers (`N = ℕ`).
-/

namespace MatchingEngine

/-- The arithmetic of counts, volumes and execution ids.  `toInt` is the conversion to the C++
    type `int`: it wraps at 32 bits for machine words and changes nothing for natural numbers. -/
class Quantity (N : Type) extends Zero N, One N, Add N, Sub N, LE N, LT N where
  value : N → ℕ
  toInt : ℤ → ℤ
  [decEq : DecidableEq N]
  [decLE : DecidableLE N]
  [decLT : DecidableLT N]
  value_inj : ∀ {a b : N}, value a = value b → a = b
  value_zero : value 0 = 0
  value_one : value 1 = 1
  le_iff : ∀ {a b : N}, a ≤ b ↔ value a ≤ value b
  lt_iff : ∀ {a b : N}, a < b ↔ value a < value b
  value_sub : ∀ {a b : N}, b ≤ a → value (a - b) = value a - value b
  value_succ : ∀ {a b : N}, a < b → value (a + 1) = value a + 1

attribute [reducible, instance] Quantity.decEq Quantity.decLE Quantity.decLT

instance : Quantity ℕ where
  value := id
  toInt := id
  value_inj := id
  value_zero := rfl
  value_one := rfl
  le_iff := Iff.rfl
  lt_iff := Iff.rfl
  value_sub := fun _ => rfl
  value_succ := fun _ => rfl

instance : Quantity UInt32 where
  value := UInt32.toNat
  toInt := fun i => i.bmod (2 ^ 32)
  value_inj := UInt32.toNat.inj
  value_zero := rfl
  value_one := rfl
  le_iff := UInt32.le_iff_toNat_le
  lt_iff := UInt32.lt_iff_toNat_lt
  value_sub := UInt32.toNat_sub_of_le _ _
  value_succ := by
    intro a b hlt
    have hb := b.toNat_lt
    rw [UInt32.lt_iff_toNat_lt] at hlt
    rw [UInt32.toNat_add, UInt32.toNat_one, Nat.mod_eq_of_lt (by omega)]

/-- Words added up: the sum modulo 2^32. -/
theorem UInt32.toNat_sum (l : List UInt32) : l.sum.toNat = (l.map UInt32.toNat).sum % 2 ^ 32 := by
  induction l with
  | nil => rfl
  | cons a l ih =>
    rw [List.sum_cons, UInt32.toNat_add, ih, List.map_cons, List.sum_cons, Nat.add_mod_mod]

/-- `enum input_type { input_buy = 'B', input_sell = 'S', input_cancel = 'C' }`. -/
inductive InputType
  | buy
  | sell
  | cancel
  deriving DecidableEq, Repr, Inhabited

export PriceTime (Side)

/-- Prices are compared as unsigned words. -/
instance linearOrderUInt32 : LinearOrder UInt32 where
  le_refl := UInt32.le_refl
  le_trans := fun _ _ _ => UInt32.le_trans
  lt_iff_le_not_ge := fun a b => by
    simp only [UInt32.lt_iff_toNat_lt, UInt32.le_iff_toNat_le]
    omega
  le_antisymm := fun _ _ => UInt32.le_antisymm
  le_total := UInt32.le_total
  toDecidableLE := inferInstance
  toDecidableEq := inferInstance
  toDecidableLT := inferInstance

/-- The input type of an order that rests on this side. -/
def sideType : Side → InputType
  | .buy => .buy
  | .sell => .sell

/-- The output lines, less the timestamp of completion (`Output::OrderAdded`, `OrderExecuted`,
    `OrderDeleted` in C++, `Message` in Go). -/
inductive Line (N I : Type)
  | added (side : Side) (orderId : UInt32) (instrument : I) (price : UInt32) (count : N)
      (inputTime : ℤ)
  | executed (restingId newId : UInt32) (executionId : N) (price : UInt32) (count : N)
      (inputTime : ℤ)
  | deleted (orderId : UInt32) (accepted : Bool) (inputTime : ℤ)
  deriving DecidableEq, Repr

/-- A line with its counts read as natural numbers. -/
def Line.toNat {N I : Type} [Quantity N] : Line N I → Line ℕ I
  | .added sd id i p c t => .added sd id i p (Quantity.value c) t
  | .executed r n e p c t => .executed r n (Quantity.value e) p (Quantity.value c) t
  | .deleted id a t => .deleted id a t

/-- A command as the engine receives it, with the time at which it is received. -/
inductive Command (N I : Type)
  | order (side : Side) (orderId : UInt32) (instrument : I) (price : UInt32) (count : N)
      (inputTime : ℤ)
  | cancel (orderId : UInt32) (inputTime : ℤ)
  deriving DecidableEq, Repr

/-- The time at which the engine received the command. -/
def Command.inputTime {N I : Type} : Command N I → ℤ
  | .order _ _ _ _ _ inputTime => inputTime
  | .cancel _ inputTime => inputTime

/-- The field `Timestamp received` of a line. -/
def Line.inputTime {N I : Type} : Line N I → ℤ
  | .added _ _ _ _ _ inputTime => inputTime
  | .executed _ _ _ _ _ inputTime => inputTime
  | .deleted _ _ inputTime => inputTime

end MatchingEngine
