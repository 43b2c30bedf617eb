import MatchingEngine.Basic

/-!
# The C++ order book (`engine.hpp`, `engine.cpp`)

The objects `Order` live in a heap and are shared by pointer between the thread that matches them,
the vector of a node and the map `Engine::orders`.  A book is its head sentinel followed by the
chain of price nodes; no node is ever unlinked, so a list is exactly that chain.  The two copies of
each routine (`BuyBook`, `SellBook`) are one definition with the side as parameter.  The mutex
operations are left aside here; `Cpp.Threads` has them.
-/

namespace MatchingEngine.Cpp

/-- `std::shared_ptr<Order>`. -/
abbrev OrderPtr := ℕ

/-- `struct Order`. -/
structure Order (N I : Type) where
  type : InputType
  orderId : UInt32
  price : UInt32
  count : N
  instrument : I
  inputTime : ℤ
  executionId : N
  deriving Repr

/-- The objects behind the pointers. -/
abbrev Heap (N I : Type) := OrderPtr → Order N I

/-- `struct OrderNode`, without the link and the mutex. -/
structure OrderNode (N : Type) where
  price : UInt32
  volume : N
  orders : List OrderPtr
  deriving Repr

/-- What `HashMap` (`hashmap.hpp`) stores: `put` keeps an entry that exists. -/
abbrev HashMap (K V : Type) := K → Option V

namespace HashMap

variable {K V : Type} [DecidableEq K]

def get (m : HashMap K V) (key : K) : Option V := m key

def put (m : HashMap K V) (key : K) (value : V) : HashMap K V :=
  match m key with
  | some _ => m
  | none => Function.update m key (some value)

def remove (m : HashMap K V) (key : K) : HashMap K V := Function.update m key none

theorem put_of_none {m : HashMap K V} {key : K} (value : V) (h : m key = none) :
    m.put key value = Function.update m key (some value) := by
  simp only [put, h]

theorem put_of_ne (m : HashMap K V) {key key' : K} (value : V) (h : key' ≠ key) :
    m.put key value key' = m key' := by
  rcases hk : m key with _ | v
  · rw [put_of_none value hk, Function.update_of_ne h]
  · simp only [put, hk]

theorem remove_of_none {m : HashMap K V} {key : K} (h : m key = none) : m.remove key = m := by
  rw [remove, ← h, Function.update_eq_self]

end HashMap

variable {N I : Type} [Quantity N]

/-- `OrderNode()`: the head sentinel has price 0. -/
def OrderNode.sentinel : OrderNode N := { price := 0, volume := 0, orders := [] }

/-- `OrderNode(uint32_t price)`. -/
def OrderNode.new (price : UInt32) : OrderNode N := { price, volume := 0, orders := [] }

/-- What the routines of a book share: the objects and the static map `Engine::orders`. -/
structure World (N I : Type) where
  heap : Heap N I
  orders : HashMap UInt32 OrderPtr

/-! ## `matchOrder` -/

section Match

variable (heap : Heap N I) (order it : OrderPtr)

/-- The incoming order takes the whole resting order `*it`. -/
abbrev Fills : Prop := (heap it).count ≤ (heap order).count

def countMatched : N := if Fills heap order it then (heap it).count else (heap order).count

/-- The two objects after they traded. -/
def execHeap : Heap N I :=
  if Fills heap order it then
    Function.update heap order
      { heap order with count := (heap order).count - (heap it).count }
  else
    let heap' := Function.update heap it
      { heap it with
        count := (heap it).count - (heap order).count
        executionId := (heap it).executionId + 1 }
    Function.update heap' order { heap' order with count := 0 }

/-- `Engine::orders.remove(order->order_id)` on a full fill: the key is the incoming order's. -/
def execOrders (orders : HashMap UInt32 OrderPtr) : HashMap UInt32 OrderPtr :=
  if Fills heap order it then orders.remove (heap order).orderId else orders

def execLine : Line N I :=
  .executed (heap it).orderId (heap order).orderId (heap it).executionId (heap it).price
    (countMatched heap order it) (heap order).inputTime

end Match

/-- The locals of the inner loop of `matchOrder` at one node. -/
structure Pass (N I : Type) extends World N I where
  volume : N
  numPopback : ℕ
  out : List (Line N I)

/-- One iteration of `for (auto it = curr->orders.rbegin(); ...)`. -/
def matchOne (order it : OrderPtr) (s : Pass N I) : Pass N I where
  heap := execHeap s.heap order it
  orders := execOrders s.heap order it s.orders
  volume := s.volume - countMatched s.heap order it
  numPopback := if Fills s.heap order it then s.numPopback + 1 else s.numPopback
  out := s.out ++ [execLine s.heap order it]

/-- The inner loop, over the vector from its back. -/
def matchLoop (order : OrderPtr) : List OrderPtr → Pass N I → Pass N I
  | [], s => s
  | it :: its, s => if (s.heap order).count = 0 then s else matchLoop order its (matchOne order it s)

/-- The body of the outer loop at `curr`: the loop and then `numPopback` times `pop_back`. -/
def matchNode (w : World N I) (order : OrderPtr) (curr : OrderNode N) :
    World N I × OrderNode N × List (Line N I) :=
  let s := matchLoop order curr.orders.reverse
    { heap := w.heap, orders := w.orders, volume := curr.volume, numPopback := 0, out := [] }
  (s.toWorld,
    { curr with
      volume := s.volume
      orders := curr.orders.take (curr.orders.length - s.numPopback) },
    s.out)

/-- `matchOrder` of the book on side `sd`, from the node after the head on. -/
def matchOrder (sd : Side) (order : OrderPtr) (w : World N I) :
    List (OrderNode N) → World N I × List (OrderNode N) × List (Line N I)
  | [] => (w, [], [])
  | curr :: next =>
    if 0 < (w.heap order).count ∧ sd.Crosses (w.heap order).price curr.price then
      let (w', curr', out) := matchNode w order curr
      let (w'', next', out') := matchOrder sd order w' next
      (w'', curr' :: next', out ++ out')
    else (w, curr :: next, [])

def BuyBook.matchOrder (order : OrderPtr) (w : World N I) (next : List (OrderNode N)) :=
  Cpp.matchOrder .buy order w next

def SellBook.matchOrder (order : OrderPtr) (w : World N I) (next : List (OrderNode N)) :=
  Cpp.matchOrder .sell order w next

/-! ## `add` -/

/-- The vector with `order` before the first order that came strictly earlier. -/
def insertByTime (heap : Heap N I) (order : OrderPtr) : List OrderPtr → List OrderPtr
  | [] => [order]
  | it :: its =>
    if (heap it).inputTime < (heap order).inputTime then order :: it :: its
    else it :: insertByTime heap order its

/-- The end of `add`: the order enters the vector of `curr`. -/
def insertOrder (heap : Heap N I) (order : OrderPtr) (curr : OrderNode N) : OrderNode N :=
  { curr with
    volume := curr.volume + (heap order).count
    orders := insertByTime heap order curr.orders }

/-- Case 1 of `add` makes a node for the price after `curr`, case 2 uses `curr`. -/
def place (heap : Heap N I) (order : OrderPtr) (curr : OrderNode N) (next : List (OrderNode N)) :
    OrderNode N × List (OrderNode N) :=
  if (heap order).price ≠ curr.price then
    (curr, insertOrder heap order (OrderNode.new (heap order).price) :: next)
  else (insertOrder heap order curr, next)

/-- The walk of `add` on side `sd`: `curr` and the chain after it, with the order in it. -/
def addWalk (sd : Side) (heap : Heap N I) (order : OrderPtr) (curr : OrderNode N) :
    List (OrderNode N) → OrderNode N × List (OrderNode N)
  | [] => place heap order curr []
  | next :: rest =>
    if sd.Better (heap order).price next.price then place heap order curr (next :: rest)
    else if (heap order).price = next.price then (curr, insertOrder heap order next :: rest)
    else
      let (next', rest') := addWalk sd heap order next rest
      (curr, next' :: rest')

def addLine (sd : Side) (o : Order N I) : Line N I :=
  .added sd o.orderId o.instrument o.price o.count o.inputTime

/-- A book: the head sentinel and the chain of nodes after it. -/
structure Book (N : Type) where
  head : OrderNode N
  next : List (OrderNode N)
  deriving Repr

/-- `BuyBook()` and `SellBook()`. -/
def Book.empty : Book N := { head := OrderNode.sentinel, next := [] }

/-- `add` of the book on side `sd`. -/
def add (sd : Side) (order : OrderPtr) (w : World N I) (b : Book N) :
    World N I × Book N × List (Line N I) :=
  let (head, next) := addWalk sd w.heap order b.head b.next
  ({ w with orders := w.orders.put (w.heap order).orderId order }, { head, next },
    [addLine sd (w.heap order)])

def BuyBook.add (order : OrderPtr) (w : World N I) (b : Book N) := Cpp.add .buy order w b

def SellBook.add (order : OrderPtr) (w : World N I) (b : Book N) := Cpp.add .sell order w b

/-! ## `processCancelOrder` -/

def deletedLine (accepted : Bool) (o : Order N I) : Line N I :=
  .deleted o.orderId accepted o.inputTime

/-- The walk of `processCancelOrder`, from the node after the head on.  The count that leaves the
    volume is that of the object the caller found in `Engine::orders`. -/
def cancelOrder (order : OrderPtr) (w : World N I) :
    List (OrderNode N) → World N I × List (OrderNode N) × List (Line N I)
  | [] => (w, [], [deletedLine false (w.heap order)])
  | curr :: next =>
    if curr.price ≠ (w.heap order).price then
      let (w', next', out) := cancelOrder order w next
      (w', curr :: next', out)
    else
      let isOrder := fun it => decide ((w.heap it).orderId = (w.heap order).orderId)
      if curr.orders.any isOrder then
        ({ w with orders := w.orders.remove (w.heap order).orderId },
          { curr with
            volume := curr.volume - (w.heap order).count
            orders := curr.orders.eraseP isOrder } :: next,
          [deletedLine true (w.heap order)])
      else (w, curr :: next, [deletedLine false (w.heap order)])

end MatchingEngine.Cpp
