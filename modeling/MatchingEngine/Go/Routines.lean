import MatchingEngine.Go.Engine

/-!
# The goroutines of the Go engine

The engine as a system of goroutines: `handleConn` for each connection, the loop that `NewOrderBook`
starts for each book, `ProcessActiveOrder`, `executeOrder`, `AddOrder` and `ProcessCancelOrder`, and
`printOutputChnl`.  A step is one send or receive on a channel, or one operation of a map, with what
the goroutine does up to the next one.  A lock is a channel of capacity 1, held while it is full.

The fields of an order that change, its count and `executionId`, are read through the list of its node
only, so orders are values here as in `Go.Book`.
-/

set_option linter.unusedSectionVars false

namespace MatchingEngine.Go

/-- Pointers to `OrderNode`, `OrderBook` and `chan Message`. -/
abbrev NodePtr := ℕ
abbrev OrderBookPtr := ℕ
abbrev ChanPtr := ℕ

/-- The number that a connection has drawn.  The code sees `value` only; `conn` tells which connection
    that was. -/
structure RId (T : Type) where
  value : UInt32
  conn : T
  deriving DecidableEq, Repr

/-- A command, the connection that sent it and how many this one had sent before.  Messages, events
    and goroutines carry the command that they are due to, which nothing in the code looks at. -/
structure Cause (N I T : Type) where
  conn : T
  index : ℕ
  command : Command N I
  deriving DecidableEq

/-- `type Event struct`. -/
structure Event (N I T : Type) where
  order : Order N I (RId T)
  eventType : InputType
  cause : Cause N I T
  deriving DecidableEq

/-- A node with its link and its lock. -/
structure Node (N I T : Type) extends OrderNode N I (RId T) where
  next : Option NodePtr
  lock : Bool
  deriving DecidableEq

/-- The nodes that a book has made, linked in or not; the head is the first. -/
structure Chain (N I T : Type) where
  node : NodePtr → Node N I T
  nextNode : NodePtr

/-- `type OrderBook struct`. -/
structure SharedBook (N I T : Type) where
  ordersChn : List (Event N I T)
  sgl : Bool
  chain : Side → Chain N I T

/-- A channel of messages. -/
structure OutputCh (N I T : Type) where
  capacity : ℕ
  messages : List (Cause N I T × Line N I)
  closed : Bool
  deriving DecidableEq

/-- What `handleConn` does next; `c` is the command that it has read. -/
inductive ConnPc (N I T : Type)
  /-- draws its number -/
  | start
  /-- `readInput` -/
  | ready
  /-- a new order: `orderbooks.Get`, `Set` and `Get`, then the hand-over -/
  | getBook (c : Cause N I T) (o : Order N I (RId T))
  | setBook (c : Cause N I T) (o : Order N I (RId T)) (book : OrderBookPtr)
  | getAgain (c : Cause N I T) (o : Order N I (RId T))
  | send (book : OrderBookPtr) (event : Event N I T)
  /-- a cancel: `orders.Get` with `ordersLock` held -/
  | lockOrders (c : Cause N I T) (orderId : UInt32)
  | getOrder (c : Cause N I T) (orderId : UInt32)
  /-- no such order -/
  | missQueue (c : Cause N I T) (orderId : UInt32)
  | missUnlock (c : Cause N I T) (orderId : UInt32) (outputCh : ChanPtr)
  /-- the order is there; `foreignQueue`: it is not one of this connection -/
  | foundUnlock (c : Cause N I T) (orderId : UInt32) (o : Order N I (RId T))
  | foreignQueue (c : Cause N I T) (orderId : UInt32)
  | getBookOf (c : Cause N I T) (o : Order N I (RId T))
  /-- the rejection -/
  | reject (c : Cause N I T) (orderId : UInt32) (outputCh : ChanPtr)
  | close (outputCh : ChanPtr)
  deriving DecidableEq

structure Connection (N I T : Type) where
  rId : UInt32
  pc : ConnPc N I T
  /-- the commands to come, and how many were read -/
  cmds : List (Command N I)
  index : ℕ

/-- What a goroutine of a book does next. -/
inductive Pc (N I : Type)
  /-- `ProcessActiveOrder` up to `MatchOrder` -/
  | lockSgl
  | lockMatchHead
  /-- `MatchOrder` at `curr`: takes its lock, visits it, queues the channel of the visit and goes on -/
  | matchAt (v : N) (shouldPopPrev : Bool) (curr : Option NodePtr)
  | matchTest (v : N) (shouldPopPrev : Bool) (curr : NodePtr)
  | matchQueue (v : N) (curr : NodePtr) (outputCh : ChanPtr)
  | matchNext (v : N) (shouldPopPrev : Bool) (curr : NodePtr)
  | matchEnd (v : N)
  /-- the rest of `ProcessActiveOrder` -/
  | lockAddHead (countLeftToMatch : N)
  | lockOrders (countLeftToMatch : N)
  | setOrder (countLeftToMatch : N)
  | unlockOrders
  | addQueue
  | unlockSgl
  /-- `executeOrder`: its loop, then the release of the node -/
  | exec (countLeftToMatch : N) (node : NodePtr) (outputCh : ChanPtr)
  | execRemove (restingId : UInt32) (line : Line N I) (countLeftToMatch : N) (node : NodePtr)
      (outputCh : ChanPtr)
  | execSend (line : Line N I) (countLeftToMatch : N) (node : NodePtr) (outputCh : ChanPtr)
  | execUnlock (node : NodePtr)
  /-- `AddOrder`: the walk, the new node, the message -/
  | addFirst (outputCh : ChanPtr)
  | addWalk (curr : NodePtr) (next : Option NodePtr) (outputCh : ChanPtr)
  | addTest (curr next : NodePtr) (outputCh : ChanPtr)
  | addPlace (curr : NodePtr) (outputCh : ChanPtr)
  | addLinked (prev curr : NodePtr) (outputCh : ChanPtr)
  | addAppend (curr : NodePtr) (outputCh : ChanPtr)
  | addSend (curr : NodePtr) (outputCh : ChanPtr)
  | addClose (curr : NodePtr) (outputCh : ChanPtr)
  | addUnlock (curr : NodePtr)
  /-- `ProcessCancelOrder` up to `CancelOrder` -/
  | lockHead
  | cancelQueue
  /-- `CancelOrder` -/
  | cancelFirst (outputCh : ChanPtr)
  | cancelAt (prev : NodePtr) (curr : Option NodePtr) (outputCh : ChanPtr)
  | cancelOn (prev curr next : NodePtr) (outputCh : ChanPtr)
  | cancelRemove (prev curr : NodePtr) (outputCh : ChanPtr)
  | cancelUnlink (prev curr : NodePtr) (outputCh : ChanPtr)
  | cancelUnlock (curr : NodePtr) (accepted : Bool) (outputCh : ChanPtr)
  /-- the answer -/
  | cancelSend (accepted : Bool) (outputCh : ChanPtr)
  | cancelClose (outputCh : ChanPtr)
  deriving DecidableEq

/-- A goroutine that works for `order` in a book; `side` is the side of the order. -/
structure Routine (N I T : Type) where
  book : OrderBookPtr
  side : Side
  order : Order N I (RId T)
  cause : Cause N I T
  pc : Pc N I
  deriving DecidableEq

structure Sys (N I T : Type) where
  id : UInt32
  orders : ConcurrentHashMap UInt32 (Order N I (RId T))
  ordersLock : Bool
  orderbooks : ConcurrentHashMap I OrderBookPtr
  book : OrderBookPtr → SharedBook N I T
  nextBook : OrderBookPtr
  nextAddress : ℕ
  outputChannels : List ChanPtr
  chan : ChanPtr → OutputCh N I T
  nextChan : ChanPtr
  conn : T → Connection N I T
  routine : ℕ → Option (Routine N I T)
  nextRoutine : ℕ
  /-- the channel that `printOutputChnl` reads from, and what it has printed -/
  printing : Option ChanPtr
  log : List (Cause N I T × Line N I)
  /-- the orders that cancels have removed, with the connection of the cancel -/
  cancelled : List (T × Order N I (RId T))

/-- Who makes a step. -/
inductive Actor (T : Type)
  | conn (t : T)
  | dispatcher (book : OrderBookPtr)
  | routine (g : ℕ)
  | printer

variable {N I T : Type} [Quantity N] [DecidableEq I] [DecidableEq T]

/-- `NewOrderNode()` for a head. -/
def Node.sentinel : Node N I T := { OrderNode.sentinel with next := none, lock := false }

/-- `NewOrderBook(instrument, ctx)`. -/
def SharedBook.empty : SharedBook N I T where
  ordersChn := []
  sgl := false
  chain := fun _ => { node := fun _ => Node.sentinel, nextNode := 1 }

namespace Sys

def init (cmds : T → List (Command N I)) : Sys N I T where
  id := 0
  orders := fun _ => none
  ordersLock := false
  orderbooks := fun _ => none
  book := fun _ => SharedBook.empty
  nextBook := 0
  nextAddress := 0
  outputChannels := []
  chan := fun _ => { capacity := 0, messages := [], closed := false }
  nextChan := 0
  conn := fun t => { rId := 0, pc := .start, cmds := cmds t, index := 0 }
  routine := fun _ => none
  nextRoutine := 0
  printing := none
  log := []
  cancelled := []

variable (s : Sys N I T)

section Books

variable (b : OrderBookPtr) (sd : Side) (a : NodePtr)

def chain : Chain N I T := (s.book b).chain sd

def node : Node N I T := (s.chain b sd).node a

def setBook (ob : SharedBook N I T) : Sys N I T := { s with book := Function.update s.book b ob }

def setChain (c : Chain N I T) : Sys N I T :=
  s.setBook b { s.book b with chain := Function.update (s.book b).chain sd c }

def setNode (n : Node N I T) : Sys N I T :=
  s.setChain b sd { s.chain b sd with node := Function.update (s.chain b sd).node a n }

/-- `node.next = next`. -/
def setNext (next : Option NodePtr) : Sys N I T := s.setNode b sd a { s.node b sd a with next }

/-- `node.lock <- struct{}{}`. -/
def lock : Option (Sys N I T) :=
  if (s.node b sd a).lock then none
  else some (s.setNode b sd a { s.node b sd a with lock := true })

/-- `<-node.lock`. -/
def unlock : Option (Sys N I T) :=
  if (s.node b sd a).lock then some (s.setNode b sd a { s.node b sd a with lock := false })
  else none

/-- `ob.sgl <- struct{}{}`. -/
def lockSgl : Option (Sys N I T) :=
  if (s.book b).sgl then none else some (s.setBook b { s.book b with sgl := true })

/-- `<-ob.sgl`. -/
def unlockSgl : Option (Sys N I T) :=
  if (s.book b).sgl then some (s.setBook b { s.book b with sgl := false }) else none

/-- `ob.ordersChn <- event`. -/
def sendEvent (event : Event N I T) : Option (Sys N I T) :=
  if (s.book b).ordersChn.length < 20 then
    some (s.setBook b { s.book b with ordersChn := (s.book b).ordersChn ++ [event] })
  else none

end Books

/-- `ordersLock <- struct{}{}`. -/
def lockOrders : Option (Sys N I T) :=
  if s.ordersLock then none else some { s with ordersLock := true }

/-- `<-ordersLock`. -/
def unlockOrders : Option (Sys N I T) :=
  if s.ordersLock then some { s with ordersLock := false } else none

section Output

variable (ch : ChanPtr)

/-- `make(chan Message, capacity)`; the channel is at `s.nextChan`. -/
def makeChan (capacity : ℕ) : Sys N I T :=
  { s with
    chan := Function.update s.chan s.nextChan { capacity, messages := [], closed := false }
    nextChan := s.nextChan + 1 }

/-- `outputChannels <- ch`. -/
def queue : Option (Sys N I T) :=
  if s.outputChannels.length < 100 then some { s with outputChannels := s.outputChannels ++ [ch] }
  else none

/-- `ch <- line`, possible while there is room.  No sender gets here with a channel of capacity 0,
    which belongs to a node without orders, nor with one that it has closed. -/
def send (cause : Cause N I T) (line : Line N I) : Option (Sys N I T) :=
  let c := s.chan ch
  if c.messages.length < c.capacity ∧ c.closed = false then
    some { s with
      chan := Function.update s.chan ch { c with messages := c.messages ++ [(cause, line)] } }
  else none

/-- `close(ch)`. -/
def closeChan : Sys N I T :=
  { s with chan := Function.update s.chan ch { s.chan ch with closed := true } }

end Output

/-! ## `handleConn` -/

section Conn

variable (t : T)

def connGoto (pc : ConnPc N I T) : Sys N I T :=
  { s with conn := Function.update s.conn t { s.conn t with pc } }

/-- The next step of a connection. -/
def handleConn : Option (Sys N I T) :=
  match (s.conn t).pc with
  | .start =>
    some { s with
      id := s.id + 1
      conn := Function.update s.conn t { s.conn t with rId := s.id, pc := .ready } }
  | .ready =>
    match (s.conn t).cmds with
    | [] => none
    | command :: cmds =>
      let index := (s.conn t).index
      let c : Cause N I T := { conn := t, index, command }
      let s' := { s with
        conn := Function.update s.conn t { s.conn t with cmds, index := index + 1 } }
      match command with
      | .order sd orderId i price count inputTime =>
        let o := Engine.newOrder s.nextAddress sd orderId i price count inputTime
          { value := (s.conn t).rId, conn := t }
        some ({ s' with nextAddress := s.nextAddress + 1 }.connGoto t (.getBook c o))
      | .cancel orderId _ => some (s'.connGoto t (.lockOrders c orderId))
  | .getBook c o =>
    match s.orderbooks.get o.instrument with
    | some b =>
      some (s.connGoto t (.send b { order := o, eventType := o.orderType, cause := c }))
    | none => some ({ s with nextBook := s.nextBook + 1 }.connGoto t (.setBook c o s.nextBook))
  | .setBook c o b =>
    some ({ s with orderbooks := s.orderbooks.set o.instrument b }.connGoto t (.getAgain c o))
  | .getAgain c o =>
    match s.orderbooks.get o.instrument with
    | some b =>
      some (s.connGoto t (.send b { order := o, eventType := o.orderType, cause := c }))
    -- the type assertion would panic
    | none => none
  | .send b event => (s.sendEvent b event).map fun s' => s'.connGoto t .ready
  | .lockOrders c orderId => s.lockOrders.map fun s' => s'.connGoto t (.getOrder c orderId)
  | .getOrder c orderId =>
    match s.orders.get orderId with
    | none => some (s.connGoto t (.missQueue c orderId))
    | some o => some (s.connGoto t (.foundUnlock c orderId o))
  | .missQueue c orderId =>
    ((s.makeChan 1).queue s.nextChan).map fun s' =>
      s'.connGoto t (.missUnlock c orderId s.nextChan)
  | .missUnlock c orderId ch => s.unlockOrders.map fun s' => s'.connGoto t (.reject c orderId ch)
  | .foundUnlock c orderId o =>
    s.unlockOrders.map fun s' =>
      if o.rId.value ≠ (s.conn t).rId then s'.connGoto t (.foreignQueue c orderId)
      else s'.connGoto t (.getBookOf c o)
  | .foreignQueue c orderId =>
    ((s.makeChan 1).queue s.nextChan).map fun s' => s'.connGoto t (.reject c orderId s.nextChan)
  | .getBookOf c o =>
    match s.orderbooks.get o.instrument with
    | some b => some (s.connGoto t (.send b { order := o, eventType := .cancel, cause := c }))
    | none => none
  | .reject c orderId ch =>
    (s.send ch c (.deleted orderId false c.command.inputTime)).map fun s' =>
      s'.connGoto t (.close ch)
  | .close ch => some ((s.closeChan ch).connGoto t .ready)

end Conn

/-! ## The goroutines of a book -/

section Go

variable (g : ℕ) (r : Routine N I T)

def goto (pc : Pc N I) : Sys N I T :=
  { s with routine := Function.update s.routine g (some { r with pc }) }

/-- The goroutine returns. -/
def done : Sys N I T := { s with routine := Function.update s.routine g none }

/-- `go f(...)`. -/
def spawn : Sys N I T :=
  { s with
    routine := Function.update s.routine s.nextRoutine (some r)
    nextRoutine := s.nextRoutine + 1 }

/-- The next step of `ProcessActiveOrder`. -/
def processActiveOrder : Pc N I → Option (Sys N I T)
  | .lockSgl => (s.lockSgl r.book).map fun s' => s'.goto g r .lockMatchHead
  | .lockMatchHead =>
    (s.lock r.book r.side.opp 0).map fun s' =>
      s'.goto g r (.matchAt r.order.count false (s.node r.book r.side.opp 0).next)
  | .matchAt v shouldPopPrev none =>
    let s' := if shouldPopPrev then s.setNext r.book r.side.opp 0 none else s
    some (s'.goto g r (.matchEnd v))
  | .matchAt v shouldPopPrev (some curr) =>
    (s.lock r.book r.side.opp curr).map fun s' => s'.goto g r (.matchTest v shouldPopPrev curr)
  | .matchTest v shouldPopPrev curr =>
    let s' := if shouldPopPrev then s.setNext r.book r.side.opp 0 (some curr) else s
    let n := s.node r.book r.side.opp curr
    if v = 0 ∨ ¬ r.side.opp.Crosses r.order.price n.price then
      (s'.unlock r.book r.side.opp curr).map fun s' => s'.goto g r (.matchEnd v)
    else some ((s'.makeChan n.orders.length).goto g r (.matchQueue v curr s.nextChan))
  | .matchQueue v curr ch =>
    let currVolume := (s.node r.book r.side.opp curr).volume
    (s.queue ch).map fun s' =>
      let s' := s'.spawn { r with pc := .exec v curr ch }
      if currVolume ≤ v then s'.goto g r (.matchNext (v - currVolume) true curr)
      else s'.goto g r (.matchNext 0 false curr)
  | .matchNext v shouldPopPrev curr =>
    some (s.goto g r (.matchAt v shouldPopPrev (s.node r.book r.side.opp curr).next))
  | .matchEnd v =>
    (s.unlock r.book r.side.opp 0).map fun s' =>
      if 0 < v then s'.goto g r (.lockAddHead v) else s'.goto g r .unlockSgl
  | .lockAddHead v => (s.lock r.book r.side 0).map fun s' => s'.goto g r (.lockOrders v)
  | .lockOrders v => s.lockOrders.map fun s' => s'.goto g r (.setOrder v)
  | .setOrder v =>
    let o := r.order.setCount v
    some ({ s with orders := s.orders.set o.orderId o }.goto g { r with order := o } .unlockOrders)
  | .unlockOrders => s.unlockOrders.map fun s' => s'.goto g r .addQueue
  | .addQueue =>
    ((s.makeChan 1).queue s.nextChan).map fun s' =>
      (s'.spawn { r with pc := .addFirst s.nextChan }).goto g r .unlockSgl
  | .unlockSgl => (s.unlockSgl r.book).map fun s' => s'.done g
  | _ => none

/-- The next step of `executeOrder`. -/
def executeOrder : Pc N I → Option (Sys N I T)
  | .exec countLeftToMatch node ch =>
    let n := s.node r.book r.side.opp node
    match n.orders with
    | [] => some ((s.closeChan ch).goto g r (.execUnlock node))
    | earliestOrder :: rest =>
      if countLeftToMatch = 0 then some ((s.closeChan ch).goto g r (.execUnlock node))
      else if earliestOrder.count ≤ countLeftToMatch then
        let s' := s.setNode r.book r.side.opp node
          { n with toOrderNode := n.toOrderNode.remove earliestOrder rest }
        some (s'.goto g r (.execRemove earliestOrder.orderId
          (executeLine r.order earliestOrder earliestOrder.count)
          (countLeftToMatch - earliestOrder.count) node ch))
      else
        let s' := s.setNode r.book r.side.opp node
          { n with
            toOrderNode :=
              n.toOrderNode.update earliestOrder (updatedOrder earliestOrder countLeftToMatch) rest }
        some (s'.goto g r
          (.execSend (executeLine r.order earliestOrder countLeftToMatch) 0 node ch))
  | .execRemove restingId line countLeftToMatch node ch =>
    some ({ s with orders := s.orders.remove restingId }.goto g r
      (.execSend line countLeftToMatch node ch))
  | .execSend line countLeftToMatch node ch =>
    (s.send ch r.cause line).map fun s' => s'.goto g r (.exec countLeftToMatch node ch)
  | .execUnlock node => (s.unlock r.book r.side.opp node).map fun s' => s'.done g
  | _ => none

/-- The next step of `AddOrder`. -/
def addOrder : Pc N I → Option (Sys N I T)
  | .addFirst ch => some (s.goto g r (.addWalk 0 (s.node r.book r.side 0).next ch))
  | .addWalk curr none ch => some (s.goto g r (.addPlace curr ch))
  | .addWalk curr (some next) ch =>
    (s.lock r.book r.side next).map fun s' => s'.goto g r (.addTest curr next ch)
  | .addTest curr next ch =>
    let n := s.node r.book r.side next
    if r.side.Better r.order.price n.price then
      (s.unlock r.book r.side next).map fun s' => s'.goto g r (.addPlace curr ch)
    else if r.order.price = n.price then
      (s.unlock r.book r.side curr).map fun s' => s'.goto g r (.addPlace next ch)
    else
      (s.unlock r.book r.side curr).map fun s' => s'.goto g r (.addWalk next n.next ch)
  | .addPlace curr ch =>
    let c := s.chain r.book r.side
    let n := c.node curr
    if r.order.price ≠ n.price then
      let newNode : Node N I T :=
        { OrderNode.new r.order.price with next := n.next, lock := true }
      let node := Function.update (Function.update c.node c.nextNode newNode) curr
        { n with next := some c.nextNode }
      some ((s.setChain r.book r.side { node, nextNode := c.nextNode + 1 }).goto g r
        (.addLinked curr c.nextNode ch))
    else some (s.goto g r (.addAppend curr ch))
  | .addLinked prev curr ch =>
    (s.unlock r.book r.side prev).map fun s' => s'.goto g r (.addAppend curr ch)
  | .addAppend curr ch =>
    let n := s.node r.book r.side curr
    let s' := s.setNode r.book r.side curr { n with toOrderNode := n.toOrderNode.append r.order }
    some (s'.goto g r (.addSend curr ch))
  | .addSend curr ch =>
    (s.send ch r.cause (addLine r.side r.order)).map fun s' => s'.goto g r (.addClose curr ch)
  | .addClose curr ch => some ((s.closeChan ch).goto g r (.addUnlock curr))
  | .addUnlock curr => (s.unlock r.book r.side curr).map fun s' => s'.done g
  | _ => none

/-- The next step of `ProcessCancelOrder`. -/
def processCancelOrder : Pc N I → Option (Sys N I T)
  | .lockHead => (s.lock r.book r.side 0).map fun s' => s'.goto g r .cancelQueue
  | .cancelQueue =>
    ((s.makeChan 1).queue s.nextChan).map fun s' => s'.goto g r (.cancelFirst s.nextChan)
  | .cancelFirst ch =>
    match (s.node r.book r.side 0).next with
    | none => some (s.goto g r (.cancelAt 0 none ch))
    | some curr =>
      (s.lock r.book r.side curr).map fun s' => s'.goto g r (.cancelAt 0 (some curr) ch)
  | .cancelAt prev none ch =>
    (s.unlock r.book r.side prev).map fun s' => s'.goto g r (.cancelSend false ch)
  | .cancelAt prev (some curr) ch =>
    let n := s.node r.book r.side curr
    if n.price ≠ r.order.price then
      match n.next with
      | none => (s.unlock r.book r.side prev).map fun s' => s'.goto g r (.cancelAt curr none ch)
      | some next =>
        (s.lock r.book r.side next).map fun s' => s'.goto g r (.cancelOn prev curr next ch)
    else
      match n.orders.find? (sameId r.order) with
      | none =>
        (s.unlock r.book r.side prev).map fun s' => s'.goto g r (.cancelUnlock curr false ch)
      | some e =>
        let s' := s.setNode r.book r.side curr
          { n with
            toOrderNode := n.toOrderNode.remove e (n.orders.eraseP (sameId r.order)) }
        some ({ s' with cancelled := s'.cancelled ++ [(r.cause.conn, e)] }.goto g r
          (.cancelRemove prev curr ch))
  | .cancelOn prev curr next ch =>
    (s.unlock r.book r.side prev).map fun s' => s'.goto g r (.cancelAt curr (some next) ch)
  | .cancelRemove prev curr ch =>
    some ({ s with orders := s.orders.remove r.order.orderId }.goto g r
      (.cancelUnlink prev curr ch))
  | .cancelUnlink prev curr ch =>
    let n := s.node r.book r.side curr
    let s' := if n.volume = 0 then s.setNext r.book r.side prev n.next else s
    (s'.unlock r.book r.side prev).map fun s' => s'.goto g r (.cancelUnlock curr true ch)
  | .cancelUnlock curr accepted ch =>
    (s.unlock r.book r.side curr).map fun s' => s'.goto g r (.cancelSend accepted ch)
  | .cancelSend accepted ch =>
    (s.send ch r.cause (.deleted r.order.orderId accepted r.order.inputTime)).map fun s' =>
      s'.goto g r (.cancelClose ch)
  | .cancelClose ch => some ((s.closeChan ch).done g)
  | _ => none

end Go

/-- A goroutine runs the function that its place is in. -/
def routineStep (g : ℕ) (r : Routine N I T) : Option (Sys N I T) :=
  match r.pc with
  | .exec .. | .execRemove .. | .execSend .. | .execUnlock .. => s.executeOrder g r r.pc
  | .addFirst .. | .addWalk .. | .addTest .. | .addPlace .. | .addLinked .. | .addAppend ..
  | .addSend .. | .addClose .. | .addUnlock .. => s.addOrder g r r.pc
  | .lockHead | .cancelQueue | .cancelFirst .. | .cancelAt .. | .cancelOn .. | .cancelRemove ..
  | .cancelUnlink .. | .cancelUnlock .. | .cancelSend .. | .cancelClose .. =>
    s.processCancelOrder g r r.pc
  | _ => s.processActiveOrder g r r.pc

/-- The loop of a book: `go ob.ProcessCancelOrder(o.order)` or `go ob.ProcessActiveOrder(o.order)`. -/
def dispatch (b : OrderBookPtr) : Option (Sys N I T) :=
  match (s.book b).ordersChn with
  | [] => none
  | event :: rest =>
    let s' := s.setBook b { s.book b with ordersChn := rest }
    some (s'.spawn
      { book := b
        side := Engine.sideOf event.order
        order := event.order
        cause := event.cause
        pc := if event.eventType = .cancel then .lockHead else .lockSgl })

/-- `printOutputChnl`. -/
def printOutputChnl : Option (Sys N I T) :=
  match s.printing with
  | none =>
    match s.outputChannels with
    | [] => none
    | ch :: rest => some { s with outputChannels := rest, printing := some ch }
  | some ch =>
    let c := s.chan ch
    match c.messages with
    | message :: messages =>
      some { s with
        chan := Function.update s.chan ch { c with messages }
        log := s.log ++ [message] }
    | [] => if c.closed then some { s with printing := none } else none

/-- One step of the engine; `none` if that goroutine has ended or waits. -/
def step : Actor T → Option (Sys N I T)
  | .conn t => s.handleConn t
  | .dispatcher b => s.dispatch b
  | .routine g =>
    match s.routine g with
    | none => none
    | some r => s.routineStep g r
  | .printer => s.printOutputChnl

/-- The states that some interleaving of the goroutines reaches. -/
inductive Reachable (cmds : T → List (Command N I)) : Sys N I T → Prop
  | init : Reachable cmds (init cmds)
  | step {s s' : Sys N I T} {a : Actor T} (h : Reachable cmds s) (hs : s.step a = some s') :
      Reachable cmds s'

/-- The steps of these one after the other; one that is not possible is left out. -/
def run (s : Sys N I T) : List (Actor T) → Sys N I T
  | [] => s
  | a :: as => run ((s.step a).getD s) as

theorem Reachable.run {cmds : T → List (Command N I)} {s : Sys N I T} (h : Reachable cmds s)
    (as : List (Actor T)) : Reachable cmds (s.run as) := by
  induction as generalizing s with
  | nil => exact h
  | cons a as ih =>
    apply ih
    cases hs : s.step a with
    | none => exact h
    | some s' => exact h.step hs

end Sys

end MatchingEngine.Go
