import MatchingEngine.Basic

/-!
# The Go order book (`order_node.go`, `book.go`)

A book is its head sentinel and the chain of nodes after it.  `MatchOrder` walks the chain and starts
an `executeOrder` at each node that it visits; a position in the chain stands for a pointer to its
node.  The orders of a node are the values of its list, front first, each with the address of its
object.  The operations on the lock channels are left aside here.
-/

namespace MatchingEngine.Go

/-- `type Order struct`. -/
structure Order (N I T : Type) where
  address : ℕ
  orderType : InputType
  orderId : UInt32
  price : UInt32
  count : N
  instrument : I
  inputTime : ℤ
  rId : T
  executionId : N
  deriving DecidableEq, Repr

/-- `type OrderNode struct`, without the link and the lock. -/
structure OrderNode (N I T : Type) where
  price : UInt32
  volume : N
  orders : List (Order N I T)
  deriving DecidableEq, Repr

variable {N I T : Type} [Quantity N]

/-- `o.SetCount(count)`. -/
def Order.setCount (o : Order N I T) (count : N) : Order N I T := { o with count }

namespace OrderNode

/-- `newOrderNode1()`: the head sentinel has price 0. -/
def sentinel : OrderNode N I T := { price := 0, volume := 0, orders := [] }

/-- `newOrderNode2(price)`. -/
def new (price : UInt32) : OrderNode N I T := { price, volume := 0, orders := [] }

/-- `node.Remove(e)`; `rest` is the list without the element `e`. -/
def remove (node : OrderNode N I T) (e : Order N I T) (rest : List (Order N I T)) :
    OrderNode N I T :=
  { node with volume := node.volume - e.count, orders := rest }

/-- `node.Update(e, updatedOrder)` for the front element `e`; `rest` stands behind it. -/
def update (node : OrderNode N I T) (e updatedOrder : Order N I T) (rest : List (Order N I T)) :
    OrderNode N I T :=
  { node with
    volume := node.volume - e.count + updatedOrder.count
    orders :=
      { e with executionId := updatedOrder.executionId, count := updatedOrder.count } :: rest }

/-- `node.Append(o)`. -/
def append (node : OrderNode N I T) (o : Order N I T) : OrderNode N I T :=
  { node with volume := node.volume + o.count, orders := node.orders ++ [o] }

end OrderNode

/-! ## `executeOrder` -/

def executeLine (o earliestOrder : Order N I T) (countMatched : N) : Line N I :=
  .executed earliestOrder.orderId o.orderId earliestOrder.executionId earliestOrder.price
    countMatched o.inputTime

/-- The order that stays when only a part of it is matched. -/
def updatedOrder (earliestOrder : Order N I T) (countLeftToMatch : N) : Order N I T :=
  { earliestOrder with
    count := earliestOrder.count - countLeftToMatch
    executionId := earliestOrder.executionId + 1 }

/-- What an `executeOrder` leaves: the node, its messages and the ids it took out of `orders`. -/
structure Executed (N I T : Type) where
  node : OrderNode N I T
  out : List (Line N I)
  removed : List UInt32

/-- The loop of `executeOrder`; the list is that of the node. -/
def executeLoop (o : Order N I T) :
    List (Order N I T) → N → OrderNode N I T → Executed N I T
  | [], _, node => { node, out := [], removed := [] }
  | earliestOrder :: rest, countLeftToMatch, node =>
    if countLeftToMatch = 0 then { node, out := [], removed := [] }
    else if earliestOrder.count ≤ countLeftToMatch then
      let r := executeLoop o rest (countLeftToMatch - earliestOrder.count)
        (node.remove earliestOrder rest)
      { r with
        out := executeLine o earliestOrder earliestOrder.count :: r.out
        removed := earliestOrder.orderId :: r.removed }
    else
      { node := node.update earliestOrder (updatedOrder earliestOrder countLeftToMatch) rest
        out := [executeLine o earliestOrder countLeftToMatch]
        removed := [] }

def executeOrder (o : Order N I T) (countLeftToMatch : N) (node : OrderNode N I T) :
    Executed N I T :=
  executeLoop o node.orders countLeftToMatch node

/-! ## `MatchOrder` -/

/-- A call `go executeOrder(o, v, curr, &outputCh)`. -/
structure Visit (N I T : Type) where
  left : N
  node : OrderNode N I T

/-- What `MatchOrder` does: its result, the calls it starts and the position of `b.head.next`. -/
structure Matched (N I T : Type) where
  left : N
  visits : List (Visit N I T)
  headNext : ℕ

/-- The loop of `MatchOrder` at position `curr` of the chain, with the nodes from there on;
    `b.head.next = nil` is the position behind the last. -/
def matchLoop (sd : Side) (o : Order N I T) :
    List (OrderNode N I T) → (v : N) → (shouldPopPrev : Bool) → (headNext curr : ℕ) →
      Matched N I T
  | [], v, shouldPopPrev, headNext, curr =>
    { left := v, visits := [], headNext := if shouldPopPrev then curr else headNext }
  | node :: next, v, shouldPopPrev, headNext, curr =>
    let headNext := if shouldPopPrev then curr else headNext
    if v = 0 ∨ ¬ sd.Crosses o.price node.price then { left := v, visits := [], headNext }
    else
      let r :=
        if node.volume ≤ v then matchLoop sd o next (v - node.volume) true headNext (curr + 1)
        else matchLoop sd o next 0 false headNext (curr + 1)
      { r with visits := { left := v, node } :: r.visits }

/-- `MatchOrder` of the book on side `sd`, on the nodes after its head. -/
def matchOrder (sd : Side) (o : Order N I T) (next : List (OrderNode N I T)) : Matched N I T :=
  matchLoop sd o next o.count false 0 0

/-- The calls run, one for each visit. -/
def Matched.executed (m : Matched N I T) (o : Order N I T) : List (Executed N I T) :=
  m.visits.map fun x => executeOrder o x.left x.node

/-- The nodes when the calls have finished, those that are no longer linked included. -/
def Matched.nodes (m : Matched N I T) (o : Order N I T) (next : List (OrderNode N I T)) :
    List (OrderNode N I T) :=
  (m.executed o).map Executed.node ++ next.drop m.visits.length

/-- The chain after the head, and the nodes that went out of it. -/
def Matched.next (m : Matched N I T) (o : Order N I T) (next : List (OrderNode N I T)) :
    List (OrderNode N I T) :=
  (m.nodes o next).drop m.headNext

def Matched.unlinked (m : Matched N I T) (o : Order N I T) (next : List (OrderNode N I T)) :
    List (OrderNode N I T) :=
  (m.nodes o next).take m.headNext

def Matched.out (m : Matched N I T) (o : Order N I T) : List (Line N I) :=
  (m.executed o).flatMap Executed.out

/-! ## `AddOrder` -/

def addLine (sd : Side) (o : Order N I T) : Line N I :=
  .added sd o.orderId o.instrument o.price o.count o.inputTime

/-- The end of `AddOrder`: case 1 makes a node for the price after `curr`, case 2 uses `curr`. -/
def place (o : Order N I T) (curr : OrderNode N I T) (next : List (OrderNode N I T)) :
    OrderNode N I T × List (OrderNode N I T) :=
  if o.price ≠ curr.price then (curr, (OrderNode.new o.price).append o :: next)
  else (curr.append o, next)

/-- The walk of `AddOrder` on side `sd`: `curr` and the chain after it, with the order in it. -/
def addWalk (sd : Side) (o : Order N I T) (curr : OrderNode N I T) :
    List (OrderNode N I T) → OrderNode N I T × List (OrderNode N I T)
  | [] => place o curr []
  | next :: rest =>
    if sd.Better o.price next.price then place o curr (next :: rest)
    else if o.price = next.price then (curr, next.append o :: rest)
    else
      let (next', rest') := addWalk sd o next rest
      (curr, next' :: rest')

/-- `type Book struct`; the comparator is the side. -/
structure Book (N I T : Type) where
  head : OrderNode N I T
  next : List (OrderNode N I T)
  deriving DecidableEq, Repr

/-- `NewBuyBook()` and `NewSellBook()`. -/
def Book.empty : Book N I T := { head := OrderNode.sentinel, next := [] }

def addOrder (sd : Side) (o : Order N I T) (b : Book N I T) : Book N I T :=
  let (head, next) := addWalk sd o b.head b.next
  { head, next }

/-! ## `CancelOrder` -/

/-- `o.orderId == e.Value.(*Order).orderId`. -/
def sameId (o e : Order N I T) : Bool := decide (o.orderId = e.orderId)

/-- What `CancelOrder` leaves: the chain after the head, the nodes that went out of it and the order
    that was removed, if one was found. -/
structure Removed (N I T : Type) where
  next : List (OrderNode N I T)
  unlinked : List (OrderNode N I T)
  order : Option (Order N I T)

/-- `CancelOrder(o)` from the node after the head on. -/
def cancelOrder (o : Order N I T) : List (OrderNode N I T) → Removed N I T
  | [] => { next := [], unlinked := [], order := none }
  | curr :: next =>
    if curr.price ≠ o.price then
      let r := cancelOrder o next
      { r with next := curr :: r.next }
    else
      match curr.orders.find? (sameId o) with
      | none => { next := curr :: next, unlinked := [], order := none }
      | some e =>
        let curr' := curr.remove e (curr.orders.eraseP (sameId o))
        if curr'.volume = 0 then { next, unlinked := [curr'], order := some e }
        else { next := curr' :: next, unlinked := [], order := some e }

end MatchingEngine.Go
