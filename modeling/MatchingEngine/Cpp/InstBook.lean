import MatchingEngine.Cpp.Grader
import MatchingEngine.Lib.SortedMultiset

/-!
# How the grader judges a log

`check_correctness` replays the parsed lines on a book of its own for every instrument; the first line
that does not fit is an error with its text.  A `std::multiset` is the sorted list of its elements, and a
pointer to an `OrderStatus` is the order id under which `orders` holds it.
-/

namespace MatchingEngine.Cpp.Grader

open Text

inductive OrderState
  | active
  | booked
  | filled
  deriving DecidableEq, Repr

structure OrderStatus where
  type : Side
  orderId : UInt32
  price : UInt32
  count : UInt32
  filledCount : UInt32
  inputTimestamp : ℕ
  addedToBookTimestamp : ℕ
  instrument : Bytes
  state : OrderState
  executionId : UInt32
  deriving DecidableEq, Repr

/-- The constructor; the timestamps are read only after they are set. -/
def OrderStatus.new (type : Side) (orderId price count : UInt32) (instrument : Bytes) :
    OrderStatus where
  type := type
  orderId := orderId
  price := price
  count := count
  filledCount := 0
  inputTimestamp := 0
  addedToBookTimestamp := 0
  instrument := instrument
  state := .active
  executionId := 0

abbrev Orders := UInt32 → Option OrderStatus

/-- `*p`; a pointer in a book leads to an order. -/
def deref (orders : Orders) (p : UInt32) : OrderStatus :=
  (orders p).getD (.new .buy p 0 0 [])

/-- A write through a pointer or a reference. -/
def modify (orders : Orders) (p : UInt32) (f : OrderStatus → OrderStatus) : Orders :=
  Function.update orders p (some (f (deref orders p)))

namespace OrderStatus

/-- `filled_count += count` -/
def take (count : UInt32) (o : OrderStatus) : OrderStatus :=
  { o with filledCount := o.filledCount + count }

/-- `execution_id++` -/
def execute (o : OrderStatus) : OrderStatus := { o with executionId := o.executionId + 1 }

/-- `filled_count == count` -/
def full (o : OrderStatus) : Bool := o.filledCount = o.count

/-- `if (filled_count == count) state = OrderState::Filled` -/
def settle (o : OrderStatus) : OrderStatus := if o.full then { o with state := .filled } else o

/-- An accepted cancel. -/
def cancel (o : OrderStatus) : OrderStatus := { o with filledCount := o.count, state := .filled }

def book (inputTimestamp outputTimestamp : ℕ) (o : OrderStatus) : OrderStatus :=
  { o with state := .booked, inputTimestamp, addedToBookTimestamp := outputTimestamp }

end OrderStatus

/-- `g.orders` from the commands of all threads; the ids are different, or the grader stops. -/
def Orders.init : List (Command UInt32 Bytes) → Orders
  | [] => fun _ => none
  | .order sd orderId instrument price count _ :: commands =>
    Function.update (Orders.init commands) orderId
      (some (.new sd orderId price count instrument))
  | .cancel _ _ :: commands => Orders.init commands

abbrev Check := Except String

def check (condition : Bool) (failReason : String) : Check Unit :=
  if condition then .ok () else .error failReason

/-- `at` of an `unordered_map`. -/
def at' {V : Type} (m : UInt32 → Option V) (key : UInt32) (failReason : String) : Check V :=
  match m key with
  | some value => .ok value
  | none => .error failReason

inductive PriorityType
  | priceTime
  | time
  deriving DecidableEq

inductive SortByTimestampType
  | input
  | addedToBook
  deriving DecidableEq

def OrderStatus.timestamp (o : OrderStatus) : SortByTimestampType → ℕ
  | .input => o.inputTimestamp
  | .addedToBook => o.addedToBookTimestamp

section Templates

variable (ptype : PriorityType) (stype : SortByTimestampType)

/-- `BuyOrdering` for `sd = .buy`, `SellOrdering` for `sd = .sell`. -/
def ordering (sd : Side) (o o' : OrderStatus) : Bool :=
  match ptype with
  | .priceTime =>
    sd.Better o.price o'.price ∨ o.price = o'.price ∧ o.timestamp stype < o'.timestamp stype
  | .time => sd.Better o.price o'.price

/-- The comparison of two pointers. -/
def pointerOrdering (orders : Orders) (sd : Side) (p q : UInt32) : Bool :=
  ordering ptype stype sd (deref orders p) (deref orders q)

end Templates

structure InstBook where
  buys : List UInt32
  sells : List UInt32
  allOrders : UInt32 → Option UInt32

namespace InstBook

def empty : InstBook := { buys := [], sells := [], allOrders := fun _ => none }

def side (book : InstBook) : Side → List UInt32
  | .buy => book.buys
  | .sell => book.sells

def setSide (book : InstBook) (sd : Side) (l : List UInt32) : InstBook :=
  match sd with
  | .buy => { book with buys := l }
  | .sell => { book with sells := l }

/-- `all_orders.erase(order_id)` -/
def erase (book : InstBook) (orderId : UInt32) : InstBook :=
  { book with allOrders := Function.update book.allOrders orderId none }

/-- `all_orders.try_emplace(order_id, order)`, which keeps an entry that exists. -/
def emplace (book : InstBook) (orderId p : UInt32) : InstBook :=
  { book with
    allOrders := Function.update book.allOrders orderId (some ((book.allOrders orderId).getD p)) }

section Operations

variable (ptype : PriorityType) (stype : SortByTimestampType)

/-- The texts of `execute_buy` and `execute_sell`. -/
structure ExecuteTexts where
  noResting : String
  worsePrice : String
  wrongResting : String

def executeBuyTexts : ExecuteTexts where
  noResting := "executed buy order when order book has no sells"
  worsePrice := "executed buy order with lower price than sellers"
  wrongResting := "executed buy order with incorrect resting order, expected one of"

def executeSellTexts : ExecuteTexts where
  noResting := "executed sell order when order book has no buys"
  worsePrice := "executed sell order with higher price than buyers"
  wrongResting := "executed sell order with incorrect resting order, expected one of"

def notEarliest : String := "matched with resting order that was not the earliest matchable order"

/-- The search among the best orders; a filled order is taken out. -/
def matchBest (orders : Orders) (sd : Side) (best p : UInt32) (l : List UInt32)
    (wrongResting : String) (restingOrderId : UInt32) : Check (List UInt32) :=
  let lt := pointerOrdering ptype stype orders sd
  let resting := deref orders p
  match (SortedMultiset.upTo lt best l).find? fun it =>
      resting.orderId = (deref orders it).orderId with
  | some it => .ok (if resting.full then l.erase it else l)
  | none =>
    let its := (SortedMultiset.equalRange lt best l).map fun b =>
      " " ++ toString (deref orders b).orderId
    .error (wrongResting ++ String.join its ++ " but got " ++ toString restingOrderId)

/-- The loop over all orders up to the price of the execution. -/
def matchEarliest (orders : Orders) (sd : Side) (price : UInt32) (p : UInt32) :
    List UInt32 → Check (List UInt32)
  | [] => .ok []
  | it :: its =>
    let resting := deref orders p
    -- `upper_bound` of an order at that price
    if ordering .time stype sd (.new sd 0 price 0 []) (deref orders it) then .ok (it :: its)
    else do
      check (resting.timestamp stype ≤ (deref orders it).timestamp stype) notEarliest
      let its' ← matchEarliest orders sd price p its
      if resting.full ∧ resting.orderId = (deref orders it).orderId then .ok its'
      else .ok (it :: its')

def search (orders : Orders) (sd : Side) (best p : UInt32) (l : List UInt32)
    (wrongResting : String) (restingOrderId price : UInt32) : Check (List UInt32) :=
  match ptype with
  | .priceTime => matchBest ptype stype orders sd best p l wrongResting restingOrderId
  | .time => matchEarliest stype orders sd price p l

/-- `execute_buy` takes from the sells and `execute_sell` from the buys; `sd` is their side. -/
def execute (sd : Side) (texts : ExecuteTexts) (restingOrderId executionId price count : UInt32)
    (orders : Orders) (book : InstBook) : Check (Orders × InstBook) := do
  match book.side sd with
  | [] => .error texts.noResting
  | best :: l =>
    check (sd.Crosses price (deref orders best).price) texts.worsePrice
    let p ← at' book.allOrders restingOrderId "matched with resting order not in book"
    let orders := modify orders p (.take count)
    let l' ← search ptype stype orders sd best p (best :: l) texts.wrongResting restingOrderId price
    let book := book.setSide sd l'
    let book := if (deref orders p).full then book.erase restingOrderId else book
    let orders := modify orders p .execute
    check ((deref orders p).executionId = executionId)
      ("incorrect execution id, expected " ++ toString (deref orders p).executionId ++ " but got " ++
        toString executionId)
    .ok (orders, book)

def executeBuy := execute ptype stype .sell executeBuyTexts

def executeSell := execute ptype stype .buy executeSellTexts

/-- `add_buy` for `sd = .buy` and `add_sell` for `sd = .sell`. -/
def add (sd : Side) (matchable : String) (orderId price : UInt32) (orders : Orders)
    (book : InstBook) : Check InstBook := do
  check (∀ best ∈ (book.side sd.opp).head?, ¬ sd.opp.Crosses price (deref orders best).price) matchable
  let l := SortedMultiset.insert (pointerOrdering ptype stype orders sd) orderId (book.side sd)
  .ok ((book.setSide sd l).emplace orderId orderId)

def addBuy := add ptype stype .buy "added buy to book when a matchable sell exists"

def addSell := add ptype stype .sell "added sell to book when a matchable buy exists"

/-- The call for an order of this side. -/
def addFor : Side → UInt32 → UInt32 → Orders → InstBook → Check InstBook
  | .buy => addBuy ptype stype
  | .sell => addSell ptype stype

/-- The call for a new order of this side. -/
def executeFor : Side → UInt32 → UInt32 → UInt32 → UInt32 → Orders → InstBook →
    Check (Orders × InstBook)
  | .buy => executeBuy ptype stype
  | .sell => executeSell ptype stype

def cancel (orderId : UInt32) (accept : Bool) (orders : Orders) (book : InstBook) :
    Check (Orders × InstBook) := do
  if accept then
    let p ← at' book.allOrders orderId "accepted cancel of order that's not in book"
    let orders := modify orders p .cancel
    let book := book.erase orderId
    let order := deref orders p
    let l := book.side order.type
    let lt := pointerOrdering ptype stype orders order.type
    match (SortedMultiset.equalRange lt p l).find? fun it =>
        order.orderId = (deref orders it).orderId with
    | some it => .ok (orders, book.setSide order.type (l.erase it))
    | none => .ok (orders, book)
  else
    check (book.allOrders orderId).isNone "rejected cancel of order that's in book"
    .ok (orders, book)

end Operations

end InstBook

/-! ## The lines -/

/-- The statuses, which are shared, and the books by instrument. -/
structure Checking where
  orders : Orders
  book : Bytes → InstBook

section Lines

variable (ptype : PriorityType) (stype : SortByTimestampType)

def checkBuySell (sd : Side) (orderId : UInt32) (instrument : Bytes) (price : UInt32)
    (inputTimestamp outputTimestamp : ℕ) (c : Checking) : Check Checking := do
  let status ← at' c.orders orderId "order does not exist"
  check (status.state = .active) "booking inactive order"
  check (status.type = sd) "incorrect side"
  check (status.filledCount < status.count) "booking fully filled order"
  check (status.instrument = instrument) "incorrect instrument"
  check (status.price = price) "incorrect price"
  let orders := modify c.orders orderId (.book inputTimestamp outputTimestamp)
  let book ← InstBook.addFor ptype stype sd orderId price orders (c.book status.instrument)
  .ok { orders, book := Function.update c.book status.instrument book }

def checkExec (restingOrderId newOrderId executionId price count : UInt32) (c : Checking) :
    Check Checking := do
  let resting ← at' c.orders restingOrderId "resting order does not exist"
  let new ← at' c.orders newOrderId "new order does not exist"
  check (resting.state = .booked) "resting order not in book"
  check (new.state = .active) "new order not active"
  check (resting.price = price) "incorrect price"
  check (resting.instrument = new.instrument) "matched orders for different instruments"
  let (orders, book) ← InstBook.executeFor ptype stype new.type restingOrderId executionId price count
    c.orders (c.book resting.instrument)
  -- the references see what `execute` wrote
  let orders := modify orders newOrderId (.take count)
  check ((deref orders restingOrderId).filledCount ≤ (deref orders restingOrderId).count)
    "resting order filled more than initial quantity"
  check ((deref orders newOrderId).filledCount ≤ (deref orders newOrderId).count)
    "new order filled more than initial quantity"
  let orders := modify orders newOrderId .settle
  let orders := modify orders restingOrderId .settle
  .ok { orders, book := Function.update c.book resting.instrument book }

def checkCancel (orderId : UInt32) (accept : Bool) (c : Checking) : Check Checking := do
  let status ← at' c.orders orderId "cancel order does not exist"
  check (accept = true → status.state = .booked) "accepted cancel for order not in book"
  check (accept = false → status.state ≠ .booked) "rejected cancel for order in book"
  let (orders, book) ← InstBook.cancel ptype stype orderId accept c.orders (c.book status.instrument)
  .ok { orders, book := Function.update c.book status.instrument book }

/-- One round of the loop of `check_correctness_outputset`. -/
def checkOutput (c : Checking) (output : ParsedEngineOutput) : Check Checking :=
  match output.parsed with
  | .buySell sd orderId instrument price _ =>
    checkBuySell ptype stype sd orderId instrument price output.inputTimestamp
      output.outputTimestamp c
  | .exec restingOrderId newOrderId executionId price count =>
    checkExec ptype stype restingOrderId newOrderId executionId price count c
  | .cancel orderId accept => checkCancel ptype stype orderId accept c

def checkCorrectnessOutputset : Checking → List ParsedEngineOutput → Check Checking
  | c, [] => .ok c
  | c, output :: outputset => do
    let c ← checkOutput ptype stype c output
    checkCorrectnessOutputset c outputset

/-- The outputs in groups of one timestamp. -/
def groupbytimestamp (outputs : List ParsedEngineOutput) : List (List ParsedEngineOutput) :=
  outputs.splitBy fun o o' => o.outputTimestamp == o'.outputTimestamp

/-- The loop of `check_correctness` over the groups. -/
def checkGroups : Checking → List (List ParsedEngineOutput) → Check Checking
  | c, [] => .ok c
  | c, outputset :: groups => do
    let c ← match checkCorrectnessOutputset ptype stype c outputset with
      | .ok c => Except.ok c
      | .error what =>
        if outputset.length = 1 then Except.error what
        else Except.error (what ++ ", but there were " ++ toString outputset.length ++
          " outputs with the same timestamp, so this might not be a bug.")
    checkGroups c groups

def checkCorrectness (orders : Orders) (outputs : List ParsedEngineOutput) : Check Unit := do
  let _ ← checkGroups ptype stype { orders, book := fun _ => InstBook.empty } (groupbytimestamp outputs)
  .ok ()

end Lines

/-! ## The verdict -/

/-- `std::stable_sort` by the time of output. -/
def sortByOutput (outputs : List ParsedEngineOutput) : List ParsedEngineOutput :=
  outputs.mergeSort fun o o' => o.outputTimestamp ≤ o'.outputTimestamp

/-- The attempts at the end of `output_thread` in their order, with the texts of their errors. -/
def attempts : List (String × PriorityType × SortByTimestampType × Bool) :=
  [("timestamp order, price-time priority, orders sorted by added-to-book timestamp error: ",
      .priceTime, .addedToBook, true),
    ("timestamp order, price-time priority, orders sorted by input timestamp error: ",
      .priceTime, .input, true),
    ("output order, price-time priority, orders sorted by added-to-book timestamp error: ",
      .priceTime, .addedToBook, false),
    ("output order, price-time priority, orders sorted by input timestamp error: ",
      .priceTime, .input, false),
    ("timestamp order, time priority, orders sorted by added-to-book timestamp error: ",
      .time, .addedToBook, true),
    ("timestamp order, time priority, orders sorted by input timestamp error: ",
      .time, .input, true),
    ("output order, time priority, orders sorted by added-to-book timestamp error: ",
      .time, .addedToBook, false),
    ("output order, time priority, orders sorted by input timestamp error: ",
      .time, .input, false)]

/-- The attempts one after the other until one succeeds, with the errors so far. -/
def judge (orders : Orders) (outputs : List ParsedEngineOutput) :
    List (String × PriorityType × SortByTimestampType × Bool) → List String → Check Unit
  | [], errors => .error ("checking correctness failed.\n" ++ String.join (errors.map ("\n" ++ ·)))
  | (what, ptype, stype, sorted) :: rest, errors =>
    match checkCorrectness ptype stype orders (if sorted then sortByOutput outputs else outputs) with
    | .ok () => .ok ()
    | .error exc => judge orders outputs rest (errors ++ [what ++ exc])

end MatchingEngine.Cpp.Grader
