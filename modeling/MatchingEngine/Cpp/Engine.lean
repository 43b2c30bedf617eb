import MatchingEngine.Cpp.Book

/-!
# The C++ engine, one command at a time

`Engine::ConnectionThread` with the three routines of `OrderBook`, as functions on the state of the
engine.  An order book is made at the first order for its instrument.
-/

set_option linter.unusedSectionVars false

namespace MatchingEngine.Cpp

variable {N I : Type} [Quantity N] [DecidableEq I]

/-- `class OrderBook`. -/
structure OrderBook (N : Type) where
  buyBook : Book N
  sellBook : Book N
  deriving Repr

namespace OrderBook

/-- `OrderBook{instrument}`. -/
def empty : OrderBook N := { buyBook := Book.empty, sellBook := Book.empty }

def book (ob : OrderBook N) : Side → Book N
  | .buy => ob.buyBook
  | .sell => ob.sellBook

def setBook (ob : OrderBook N) (sd : Side) (b : Book N) : OrderBook N :=
  match sd with
  | .buy => { ob with buyBook := b }
  | .sell => { ob with sellBook := b }

@[simp] theorem book_setBook (ob : OrderBook N) (sd : Side) (b : Book N) :
    (ob.setBook sd b).book sd = b := by
  cases sd <;> rfl

@[simp] theorem book_setBook_opp (ob : OrderBook N) (sd : Side) (b : Book N) :
    (ob.setBook sd b).book sd.opp = ob.book sd.opp := by
  cases sd <;> rfl

@[simp] theorem book_opp_setBook (ob : OrderBook N) (sd : Side) (b : Book N) :
    (ob.setBook sd.opp b).book sd = ob.book sd := by
  cases sd <;> rfl

@[simp] theorem book_empty (sd : Side) : (empty : OrderBook N).book sd = Book.empty := by
  cases sd <;> rfl

/-- `processBuyOrder` for `sd = .buy`, `processSellOrder` for `sd = .sell`: match in the other
    book, then add what is left to the own one. -/
def processOrder (sd : Side) (order : OrderPtr) (w : World N I) (ob : OrderBook N) :
    World N I × OrderBook N × List (Line N I) :=
  let matchBook := ob.book sd.opp
  let (w', next, out) := matchOrder sd.opp order w matchBook.next
  let ob' := ob.setBook sd.opp { matchBook with next }
  if 0 < (w'.heap order).count then
    let (w'', b, out') := add sd order w' (ob'.book sd)
    (w'', ob'.setBook sd b, out ++ out')
  else (w', ob', out)

def processBuyOrder (order : OrderPtr) (w : World N I) (ob : OrderBook N) :=
  processOrder .buy order w ob

def processSellOrder (order : OrderPtr) (w : World N I) (ob : OrderBook N) :=
  processOrder .sell order w ob

/-- `order->type == input_buy ? &buyBook.head : &sellBook.head`. -/
def sideOf (o : Order N I) : Side := if o.type = .buy then .buy else .sell

def processCancelOrder (order : OrderPtr) (w : World N I) (ob : OrderBook N) :
    World N I × OrderBook N × List (Line N I) :=
  let sd := sideOf (w.heap order)
  let (w', next, out) := cancelOrder order w (ob.book sd).next
  (w', ob.setBook sd { ob.book sd with next }, out)

end OrderBook

/-- The state of `Engine`, with the supply of pointers for `make_shared`. -/
structure Engine (N I : Type) extends World N I where
  nextPtr : OrderPtr
  orderBooks : HashMap I (OrderBook N)

namespace Engine

/-- An engine that has received nothing; what unused pointers point at is arbitrary. -/
def init (heap : Heap N I) : Engine N I where
  heap := heap
  orders := fun _ => none
  nextPtr := 0
  orderBooks := fun _ => none

/-- `orderBooks.get`, and on a miss `put` of a new book and `get` again. -/
def getBook (orderBooks : HashMap I (OrderBook N)) (instrument : I) : OrderBook N :=
  match orderBooks.get instrument with
  | some ob => ob
  | none => OrderBook.empty

/-- The pass of the loop of `ConnectionThread` for one command; the lines it prints. -/
def exec (e : Engine N I) : Command N I → Engine N I × List (Line N I)
  | .order sd orderId instrument price count inputTime =>
    let order := e.nextPtr
    let o : Order N I :=
      { type := sideType sd, orderId, price, count, instrument, inputTime, executionId := 1 }
    let w : World N I := { heap := Function.update e.heap order o, orders := e.orders }
    let (w', ob, out) := OrderBook.processOrder sd order w (getBook e.orderBooks instrument)
    ({ toWorld := w', nextPtr := e.nextPtr + 1,
       orderBooks := Function.update e.orderBooks instrument (some ob) }, out)
  | .cancel orderId inputTime =>
    match e.orders.get orderId with
    | none => (e, [.deleted orderId false inputTime])
    | some order =>
      let instrument := (e.heap order).instrument
      let (w', ob, out) :=
        OrderBook.processCancelOrder order e.toWorld (getBook e.orderBooks instrument)
      ({ toWorld := w', nextPtr := e.nextPtr,
         orderBooks := Function.update e.orderBooks instrument (some ob) }, out)

/-- Commands one after the other, with all lines in the order they are printed. -/
def run (e : Engine N I) : List (Command N I) → Engine N I × List (Line N I)
  | [] => (e, [])
  | c :: cs =>
    let (e', out) := e.exec c
    let (e'', out') := e'.run cs
    (e'', out ++ out')

end Engine

end MatchingEngine.Cpp
