import MatchingEngine.Cpp.Engine
import MatchingEngine.Lib.LockChain

/-!
# The C++ engine with its threads

One step of a thread is one `lock` or `unlock` of a mutex of an order book, one operation of a
`HashMap` or one output line, with what the thread computes on its own until the next.  A thread
that wants a mutex of another thread does not step.  Unlocking a mutex that the thread does not
hold, or locking one that it holds, sets `fault`.
-/

set_option linter.unusedSectionVars false

namespace MatchingEngine.Cpp

/-- `OrderNode *`, within one book; the head sentinel is node 0. -/
abbrev Addr := ℕ

/-- `struct OrderNode`: `m` is the thread that holds the mutex. -/
structure Node (N T : Type) extends OrderNode N where
  next : Option Addr
  m : Option T

/-- The nodes of `class BuyBook` or `SellBook`. -/
structure Chain (N T : Type) where
  node : Addr → Node N T
  nextAddr : Addr

/-- `class OrderBook` with its mutex. -/
structure SharedBook (N T : Type) where
  m : Option T
  chain : Side → Chain N T

/-- The arguments of `processBuyOrder`, `processSellOrder` and `processCancelOrder`. -/
structure Job (I : Type) where
  book : I
  side : Side
  order : OrderPtr
  deriving DecidableEq, Repr

/-- Where a thread stands: the access it makes next, with the local variables that are live. -/
inductive Pc (N I : Type)
  /-- `connection.ReadInput(input)` -/
  | ready
  /-- `orderBooks.get(...)` and, on a miss, `orderBooks.put(..., new OrderBook)` -/
  | getBook (j : Job I)
  | putBook (j : Job I)
  /-- `m.lock()` and `matchBook.head.m.lock()` -/
  | lockBook (j : Job I)
  | lockMatchHead (j : Job I)
  /-- the `while` loop over the volumes: `curr->m.lock()`, and `curr->m.unlock(); break` -/
  | walk (j : Job I) (v : ℤ) (curr : Option Addr)
  | walkBreak (j : Job I) (v : ℤ) (curr : Addr)
  /-- `addBook.head.m.lock()` and `m.unlock()` -/
  | lockAddHead (j : Job I) (v : ℤ)
  | unlockBook (j : Job I) (v : ℤ)
  /-- `matchOrder`: `head.m.unlock()`, the outer loop test, the inner loop, its output -/
  | matchHead (j : Job I) (v : ℤ)
  | matchTest (j : Job I) (v : ℤ) (curr : Option Addr)
  | matchNode (j : Job I) (v : ℤ) (curr : Addr) (its : List OrderPtr) (numPopback : ℕ)
  | matchPrint (j : Job I) (v : ℤ) (curr : Addr) (its : List OrderPtr) (numPopback : ℕ)
      (line : Line N I)
  /-- `add`: `next->m.lock()` and the three ways to go on -/
  | addWalk (j : Job I) (curr : Addr) (next : Option Addr)
  | addBreak (j : Job I) (curr next : Addr)
  | addFound (j : Job I) (curr next : Addr)
  | addOn (j : Job I) (curr next : Addr)
  /-- the new node, `curr->m.unlock()` before it, the vector, the output, `curr->m.unlock()` -/
  | addPlace (j : Job I) (curr : Addr)
  | addLinked (j : Job I) (prev curr : Addr)
  | addInsert (j : Job I) (curr : Addr)
  | addPrint (j : Job I) (curr : Addr)
  | addUnlock (j : Job I) (curr : Addr)
  /-- `Engine::orders.get(...)`, the output on a miss, `orderBooks.get(...)` -/
  | getOrder (orderId : UInt32) (inputTime : ℤ)
  | printMiss (orderId : UInt32) (inputTime : ℤ)
  | getBookOf (order : OrderPtr)
  /-- `processCancelOrder`: the head, the node after it, and on hand over hand -/
  | lockHead (j : Job I)
  | lockFirst (j : Job I)
  | unlockHead (j : Job I) (curr : Option Addr)
  | cancelTest (j : Job I) (curr : Option Addr)
  | cancelOn (j : Job I) (curr next : Addr)
  | cancelEnd (j : Job I) (curr : Addr)
  | cancelMissed (j : Job I) (curr : Addr)
  | printRejected (j : Job I)
  | printAccepted (j : Job I) (curr : Addr)
  | cancelUnlock (j : Job I) (curr : Addr)
  deriving DecidableEq

/-- A connection thread.  The first of `cmds` is the command in progress unless `pc` is `ready`;
    `out` are its lines so far and `history` the finished commands with theirs. -/
structure Thread (N I : Type) where
  pc : Pc N I
  cmds : List (Command N I)
  out : List (Line N I)
  history : List (Command N I × List (Line N I))

structure Sys (N I T : Type) extends World N I where
  nextPtr : OrderPtr
  orderBooks : HashMap I (SharedBook N T)
  thread : T → Thread N I
  /-- all lines in the order they are printed -/
  log : List (Line N I)
  fault : Bool

section Books

variable {N I T : Type} [Quantity N]

def Node.sentinel : Node N T := { OrderNode.sentinel with next := none, m := none }

/-- `new OrderBook{instrument}`. -/
def SharedBook.empty : SharedBook N T where
  m := none
  chain := fun _ => { node := fun _ => Node.sentinel, nextAddr := 1 }

end Books

namespace Sys

variable {N I T : Type} [Quantity N] [DecidableEq I] [DecidableEq T]

/-- The threads before they read their commands. -/
def init (heap : Heap N I) (cmds : T → List (Command N I)) : Sys N I T where
  heap := heap
  orders := fun _ => none
  nextPtr := 0
  orderBooks := fun _ => none
  thread := fun t => { pc := .ready, cmds := cmds t, out := [], history := [] }
  log := []
  fault := false

section Access

variable (s : Sys N I T) (i : I) (sd : Side) (a : Addr)

def getBook : SharedBook N T := (s.orderBooks i).getD SharedBook.empty

def chain : Chain N T := (s.getBook i).chain sd

def node : Node N T := (s.chain i sd).node a

def setBook (b : SharedBook N T) : Sys N I T :=
  { s with orderBooks := Function.update s.orderBooks i (some b) }

def setChain (c : Chain N T) : Sys N I T :=
  s.setBook i { s.getBook i with chain := Function.update (s.getBook i).chain sd c }

def setNode (n : Node N T) : Sys N I T :=
  s.setChain i sd { s.chain i sd with node := Function.update (s.chain i sd).node a n }

end Access

section Control

variable (s : Sys N I T) (t : T)

def goto (pc : Pc N I) : Sys N I T :=
  { s with thread := Function.update s.thread t { s.thread t with pc } }

/-- `Output::...`. -/
def print (line : Line N I) : Sys N I T :=
  { s with
    log := s.log ++ [line]
    thread := Function.update s.thread t { s.thread t with out := (s.thread t).out ++ [line] } }

/-- The command in progress is over. -/
def finish : Sys N I T :=
  { s with
    thread := Function.update s.thread t
      { pc := .ready
        cmds := (s.thread t).cmds.tail
        out := []
        history := (s.thread t).history ++ (s.thread t).cmds.head?.toList.map fun c =>
          (c, (s.thread t).out) } }

def lock (i : I) (sd : Side) (a : Addr) (pc : Pc N I) : Option (Sys N I T) :=
  match (s.node i sd a).m with
  | none => some ((s.setNode i sd a { s.node i sd a with m := some t }).goto t pc)
  | some u => if u = t then some { s with fault := true } else none

def unlock (i : I) (sd : Side) (a : Addr) (pc : Pc N I) : Sys N I T :=
  if (s.node i sd a).m = some t then
    (s.setNode i sd a { s.node i sd a with m := none }).goto t pc
  else { s with fault := true }

def lockM (i : I) (pc : Pc N I) : Option (Sys N I T) :=
  match (s.getBook i).m with
  | none => some ((s.setBook i { s.getBook i with m := some t }).goto t pc)
  | some u => if u = t then some { s with fault := true } else none

def unlockM (i : I) (pc : Pc N I) : Sys N I T :=
  if (s.getBook i).m = some t then (s.setBook i { s.getBook i with m := none }).goto t pc
  else { s with fault := true }

end Control

/-- After the loop over the volumes: `if (v > 0) addBook.head.m.lock()`. -/
def afterWalk (j : Job I) (v : ℤ) : Pc N I := if 0 < v then .lockAddHead j v else .unlockBook j v

/-- After the loop of `matchOrder`: `if (order->count > 0) addBook.add(order)`. -/
def afterMatch (s : Sys N I T) (t : T) (j : Job I) : Sys N I T :=
  if 0 < (s.heap j.order).count then
    s.goto t (.addWalk j 0 (s.node j.book j.side 0).next)
  else s.finish t

/-- `(*it)->order_id == order->order_id`. -/
def sameId (s : Sys N I T) (order it : OrderPtr) : Bool :=
  decide ((s.heap it).orderId = (s.heap order).orderId)

/-- The next step of thread `t`; `none` if it has nothing to do or waits for a mutex. -/
def step (s : Sys N I T) (t : T) : Option (Sys N I T) :=
  match (s.thread t).pc with
  | .ready =>
    match (s.thread t).cmds with
    | [] => none
    | .order sd orderId i price count inputTime :: _ =>
      let order := s.nextPtr
      let o : Order N I :=
        { type := sideType sd, orderId, price, count, instrument := i, inputTime, executionId := 1 }
      some ({ s with heap := Function.update s.heap order o, nextPtr := s.nextPtr + 1 }.goto t
        (.getBook { book := i, side := sd, order }))
    | .cancel orderId inputTime :: _ => some (s.goto t (.getOrder orderId inputTime))
  | .getBook j =>
    match s.orderBooks.get j.book with
    | none => some (s.goto t (.putBook j))
    | some _ => some (s.goto t (.lockBook j))
  | .putBook j =>
    some ({ s with orderBooks := s.orderBooks.put j.book SharedBook.empty }.goto t (.getBook j))
  | .lockBook j => s.lockM t j.book (.lockMatchHead j)
  | .lockMatchHead j =>
    s.lock t j.book j.side.opp 0
      (.walk j (Quantity.toInt N (Quantity.value (s.heap j.order).count))
        (s.node j.book j.side.opp 0).next)
  | .walk j v none => some (s.goto t (afterWalk j v))
  | .walk j v (some curr) =>
    if 0 < v then
      let n := s.node j.book j.side.opp curr
      if ¬ j.side.opp.Crosses (s.heap j.order).price n.price then
        s.lock t j.book j.side.opp curr (.walkBreak j v curr)
      else
        s.lock t j.book j.side.opp curr
          (.walk j (Quantity.toInt N (v - Quantity.value n.volume)) n.next)
    else some (s.goto t (afterWalk j v))
  | .walkBreak j v curr => some (s.unlock t j.book j.side.opp curr (afterWalk j v))
  | .lockAddHead j v => s.lock t j.book j.side 0 (.unlockBook j v)
  | .unlockBook j v => some (s.unlockM t j.book (.matchHead j v))
  | .matchHead j v =>
    some (s.unlock t j.book j.side.opp 0 (.matchTest j v (s.node j.book j.side.opp 0).next))
  | .matchTest j _ none => some (s.afterMatch t j)
  | .matchTest j v (some curr) =>
    let n := s.node j.book j.side.opp curr
    if 0 < (s.heap j.order).count ∧ j.side.opp.Crosses (s.heap j.order).price n.price then
      some (s.goto t (.matchNode j v curr n.orders.reverse 0))
    else some (s.afterMatch t j)
  | .matchNode j v curr its numPopback =>
    let n := s.node j.book j.side.opp curr
    let leave :=
      let s' := s.setNode j.book j.side.opp curr
        { n with orders := n.orders.take (n.orders.length - numPopback) }
      s'.unlock t j.book j.side.opp curr (.matchTest j v n.next)
    match its with
    | [] => some leave
    | it :: its =>
      if (s.heap j.order).count = 0 then some leave
      else
        let s' := s.setNode j.book j.side.opp curr
          { n with volume := n.volume - countMatched s.heap j.order it }
        some ({ s' with
            heap := execHeap s.heap j.order it
            orders := execOrders s.heap j.order it s.orders }.goto t
          (.matchPrint j v curr its
            (if Fills s.heap j.order it then numPopback + 1 else numPopback)
            (execLine s.heap j.order it)))
  | .matchPrint j v curr its numPopback line =>
    some ((s.print t line).goto t (.matchNode j v curr its numPopback))
  | .addWalk j curr none => some (s.goto t (.addPlace j curr))
  | .addWalk j curr (some next) =>
    let n := s.node j.book j.side next
    let o := s.heap j.order
    if j.side.Better o.price n.price then s.lock t j.book j.side next (.addBreak j curr next)
    else if o.price = n.price then s.lock t j.book j.side next (.addFound j curr next)
    else s.lock t j.book j.side next (.addOn j curr next)
  | .addBreak j curr next => some (s.unlock t j.book j.side next (.addPlace j curr))
  | .addFound j curr next => some (s.unlock t j.book j.side curr (.addPlace j next))
  | .addOn j curr next =>
    some (s.unlock t j.book j.side curr (.addWalk j next (s.node j.book j.side next).next))
  | .addPlace j curr =>
    let c := s.chain j.book j.side
    let n := c.node curr
    if (s.heap j.order).price ≠ n.price then
      let newNode : Node N T :=
        { OrderNode.new (s.heap j.order).price with next := n.next, m := some t }
      let node := Function.update (Function.update c.node c.nextAddr newNode) curr
        { n with next := some c.nextAddr }
      some ((s.setChain j.book j.side { node, nextAddr := c.nextAddr + 1 }).goto t
        (.addLinked j curr c.nextAddr))
    else some (s.goto t (.addInsert j curr))
  | .addLinked j prev curr => some (s.unlock t j.book j.side prev (.addInsert j curr))
  | .addInsert j curr =>
    let n := s.node j.book j.side curr
    let s' := s.setNode j.book j.side curr
      { n with toOrderNode := insertOrder s.heap j.order n.toOrderNode }
    some ({ s' with orders := s.orders.put (s.heap j.order).orderId j.order }.goto t
      (.addPrint j curr))
  | .addPrint j curr =>
    some ((s.print t (addLine j.side (s.heap j.order))).goto t (.addUnlock j curr))
  | .addUnlock j curr => some ((s.unlock t j.book j.side curr .ready).finish t)
  | .getOrder orderId inputTime =>
    match s.orders.get orderId with
    | none => some (s.goto t (.printMiss orderId inputTime))
    | some order => some (s.goto t (.getBookOf order))
  | .printMiss orderId inputTime =>
    some ((s.print t (.deleted orderId false inputTime)).finish t)
  | .getBookOf order =>
    let o := s.heap order
    match s.orderBooks.get o.instrument with
    | none => none
    | some _ =>
      some (s.goto t (.lockHead { book := o.instrument, side := OrderBook.sideOf o, order }))
  | .lockHead j => s.lock t j.book j.side 0 (.lockFirst j)
  | .lockFirst j =>
    match (s.node j.book j.side 0).next with
    | none => some (s.goto t (.unlockHead j none))
    | some curr => s.lock t j.book j.side curr (.unlockHead j (some curr))
  | .unlockHead j curr => some (s.unlock t j.book j.side 0 (.cancelTest j curr))
  | .cancelTest j none => some (s.goto t (.printRejected j))
  | .cancelTest j (some curr) =>
    let n := s.node j.book j.side curr
    if n.price ≠ (s.heap j.order).price then
      match n.next with
      | none => some (s.goto t (.cancelEnd j curr))
      | some next => s.lock t j.book j.side next (.cancelOn j curr next)
    else if n.orders.any (s.sameId j.order) then
      let s' := s.setNode j.book j.side curr
        { n with
          volume := n.volume - (s.heap j.order).count
          orders := n.orders.eraseP (s.sameId j.order) }
      some ({ s' with orders := s.orders.remove (s.heap j.order).orderId }.goto t
        (.printAccepted j curr))
    else some (s.goto t (.cancelMissed j curr))
  | .cancelOn j curr next => some (s.unlock t j.book j.side curr (.cancelTest j (some next)))
  | .cancelEnd j curr => some (s.unlock t j.book j.side curr (.cancelTest j none))
  | .cancelMissed j curr => some (s.unlock t j.book j.side curr (.printRejected j))
  | .printRejected j => some ((s.print t (deletedLine false (s.heap j.order))).finish t)
  | .printAccepted j curr =>
    some ((s.print t (deletedLine true (s.heap j.order))).goto t (.cancelUnlock j curr))
  | .cancelUnlock j curr => some ((s.unlock t j.book j.side curr .ready).finish t)

/-- The states that some interleaving of the threads reaches. -/
inductive Reachable (heap : Heap N I) (cmds : T → List (Command N I)) : Sys N I T → Prop
  | init : Reachable heap cmds (init heap cmds)
  | step {s s' : Sys N I T} {t : T} (h : Reachable heap cmds s) (hs : s.step t = some s') :
      Reachable heap cmds s'

end Sys

end MatchingEngine.Cpp
