import MatchingEngine.Go.Book
import Mathlib.Logic.Function.Basic

/-!
# The Go engine, one command at a time

`handleConn` with the two routines of `OrderBook`, as functions on the state of the engine; every
goroutine that a command starts has finished before the next command.
-/

set_option linter.unusedSectionVars false

namespace MatchingEngine.Go

/-- What `ConcurrentHashMap` stores: `Set` keeps an entry that exists. -/
abbrev ConcurrentHashMap (K V : Type) := K → Option V

namespace ConcurrentHashMap

variable {K V : Type} [DecidableEq K]

def get (m : ConcurrentHashMap K V) (key : K) : Option V := m key

def set (m : ConcurrentHashMap K V) (key : K) (value : V) : ConcurrentHashMap K V :=
  match m key with
  | some _ => m
  | none => Function.update m key (some value)

def remove (m : ConcurrentHashMap K V) (key : K) : ConcurrentHashMap K V :=
  Function.update m key none

end ConcurrentHashMap

variable {N I T : Type} [Quantity N] [DecidableEq I] [DecidableEq T]

/-- `type OrderBook struct`. -/
structure OrderBook (N I T : Type) where
  buyBook : Book N I T
  sellBook : Book N I T

namespace OrderBook

/-- `NewOrderBook(instrument, ctx)`. -/
def empty : OrderBook N I T := { buyBook := Book.empty, sellBook := Book.empty }

def book (ob : OrderBook N I T) : Side → Book N I T
  | .buy => ob.buyBook
  | .sell => ob.sellBook

def setBook (ob : OrderBook N I T) (sd : Side) (b : Book N I T) : OrderBook N I T :=
  match sd with
  | .buy => { ob with buyBook := b }
  | .sell => { ob with sellBook := b }

theorem book_setBook (ob : OrderBook N I T) (sd sd' : Side) (b : Book N I T) :
    (ob.setBook sd b).book sd' = if sd' = sd then b else ob.book sd' := by
  cases sd <;> cases sd' <;> rfl

end OrderBook

/-- The global map of orders and the books; a book that is not in its map yet is empty. -/
structure Engine (N I T : Type) where
  orders : ConcurrentHashMap UInt32 (Order N I T)
  nextAddress : ℕ
  orderBooks : I → OrderBook N I T

namespace Engine

def init : Engine N I T where
  orders := fun _ => none
  nextAddress := 0
  orderBooks := fun _ => OrderBook.empty

variable (e : Engine N I T)

def book (i : I) (sd : Side) : Book N I T := (e.orderBooks i).book sd

def setBook (i : I) (sd : Side) (b : Book N I T) : Engine N I T :=
  { e with orderBooks := Function.update e.orderBooks i ((e.orderBooks i).setBook sd b) }

theorem book_setBook (i j : I) (sd sd' : Side) (b : Book N I T) :
    (e.setBook i sd b).book j sd' = if j = i ∧ sd' = sd then b else e.book j sd' := by
  unfold book setBook
  dsimp only
  by_cases hj : j = i
  · subst hj
    rw [Function.update_self, OrderBook.book_setBook]
    simp
  · rw [Function.update_of_ne hj, if_neg fun h => hj h.1]

/-- The matching part of `ProcessActiveOrder`, with the calls of `executeOrder` that it starts. -/
def matchActive (sd : Side) (o : Order N I T) : Engine N I T :=
  let b := e.book o.instrument sd.opp
  let m := matchOrder sd.opp o b.next
  let e' := e.setBook o.instrument sd.opp { b with next := m.next o b.next }
  { e' with orders := ((m.executed o).flatMap Executed.removed).foldl .remove e'.orders }

/-- The rest of it, with the `AddOrder` that it starts. -/
def addActive (sd : Side) (o : Order N I T) : Engine N I T :=
  let e' := e.setBook o.instrument sd (addOrder sd o (e.book o.instrument sd))
  { e' with orders := e'.orders.set o.orderId o }

/-- `ProcessActiveOrder`. -/
def processActiveOrder (sd : Side) (o : Order N I T) : Engine N I T × List (Line N I) :=
  let m := matchOrder sd.opp o (e.book o.instrument sd.opp).next
  let countLeftToMatch := m.left
  let e' := e.matchActive sd o
  if 0 < countLeftToMatch then
    let o' := o.setCount countLeftToMatch
    (e'.addActive sd o', m.out o ++ [addLine sd o'])
  else (e', m.out o)

def sideOf (o : Order N I T) : Side := if o.orderType = .buy then .buy else .sell

/-- `ProcessCancelOrder`. -/
def processCancelOrder (o : Order N I T) : Engine N I T × List (Line N I) :=
  let sd := sideOf o
  let b := e.book o.instrument sd
  let r := cancelOrder o b.next
  let e' := e.setBook o.instrument sd { b with next := r.next }
  match r.order with
  | none => (e', [.deleted o.orderId false o.inputTime])
  | some _ =>
    ({ e' with orders := e'.orders.remove o.orderId }, [.deleted o.orderId true o.inputTime])

def newOrder (address : ℕ) (sd : Side) (orderId : UInt32) (i : I) (price : UInt32) (count : N)
    (inputTime : ℤ) (rId : T) : Order N I T :=
  { address, orderType := sideType sd, orderId, price, count, instrument := i, inputTime, rId,
    executionId := 1 }

/-- The pass of the loop of `handleConn` for one command of connection `rId`. -/
def exec (rId : T) : Command N I → Engine N I T × List (Line N I)
  | .order sd orderId i price count inputTime =>
    { e with nextAddress := e.nextAddress + 1 }.processActiveOrder sd
      (newOrder e.nextAddress sd orderId i price count inputTime rId)
  | .cancel orderId inputTime =>
    match e.orders.get orderId with
    | none => (e, [.deleted orderId false inputTime])
    | some o =>
      if o.rId ≠ rId then (e, [.deleted orderId false inputTime])
      else e.processCancelOrder o

/-- Commands one after the other, each with its connection. -/
def run (e : Engine N I T) : List (T × Command N I) → Engine N I T
  | [] => e
  | (t, c) :: cs => run (e.exec t c).1 cs

end Engine

end MatchingEngine.Go
