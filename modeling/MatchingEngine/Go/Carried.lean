import MatchingEngine.Go.Routines

/-!
# What the goroutines of the Go engine carry

A fact about the orders that goroutines work for, one about lines and one about the orders that rest in
nodes and in the map go together: lines are made of the order that a goroutine works for, and such an
order comes to rest.  If new orders, and the orders that cancels find, have the first fact, then all
three hold of everything there is.  Connections and the orders that cancels have removed come with a
fact of their own.
-/

set_option linter.unusedSectionVars false

namespace MatchingEngine.Go

variable {N I T : Type} [Quantity N] [DecidableEq I] [DecidableEq T]

/-- A connection has drawn its number. -/
def ConnPc.started : ConnPc N I T → Bool
  | .start => false
  | _ => true

/-- Facts about the cancel that a connection is at, about the order that is worked for because of a
    command, about a line that a command causes, about an order at rest, about one that a cancel of a
    connection has removed, and about the number of a connection, whether it is drawn, and the commands
    to come. -/
structure Facts (N I T : Type) where
  held : T → Cause N I T → Prop
  job : Cause N I T → Order N I (RId T) → Prop
  line : Cause N I T → Line N I → Prop
  rest : Order N I (RId T) → Prop
  taken : T → Order N I (RId T) → Prop
  conn : T → UInt32 → Bool → List (Command N I) → Prop

structure Facts.Lawful (F : Facts N I T) : Prop where
  read : ∀ t index command, F.held t { conn := t, index, command }
  setCount : ∀ c o v, F.job c o → F.job c (o.setCount v)
  executed : ∀ c o e n, F.job c o → F.line c (executeLine o e n)
  added : ∀ c o sd, F.job c o → F.line c (addLine sd o)
  deleted : ∀ c o accepted, F.job c o → F.line c (.deleted o.orderId accepted o.inputTime)
  missed : ∀ c orderId, F.line c (.deleted orderId false c.command.inputTime)
  resting : ∀ c o, F.job c o → F.rest o
  updated : ∀ (o : Order N I (RId T)) executionId count,
    F.rest o → F.rest { o with executionId, count }
  next : ∀ t rId c cmds, F.conn t rId true (c :: cmds) → F.conn t rId true cmds

/-- What a connection holds. -/
def ConnPc.Has (F : Facts N I T) (t : T) : ConnPc N I T → Prop
  | .getBook c o | .setBook c o _ | .getAgain c o | .getBookOf c o => F.job c o
  | .send _ event => F.job event.cause event.order
  | .lockOrders c _ | .getOrder c _ => F.held t c
  | .foundUnlock c _ o => F.held t c ∧ F.rest o
  | _ => True

/-- The line that a goroutine is about to send. -/
def Pc.line : Pc N I → Option (Line N I)
  | .execRemove _ line _ _ _ | .execSend line _ _ _ => some line
  | _ => none

structure Carries (F : Facts N I T) (s : Sys N I T) : Prop where
  known : ∀ t, F.conn t (s.conn t).rId (s.conn t).pc.started (s.conn t).cmds
  conn : ∀ t, (s.conn t).pc.Has F t
  event : ∀ b, ∀ event ∈ (s.book b).ordersChn, F.job event.cause event.order
  routine : ∀ g r, s.routine g = some r → F.job r.cause r.order
  line : ∀ g r l, s.routine g = some r → r.pc.line = some l → F.line r.cause l
  chan : ∀ ch, ∀ x ∈ (s.chan ch).messages, F.line x.1 x.2
  log : ∀ x ∈ s.log, F.line x.1 x.2
  node : ∀ b sd a, ∀ o ∈ (s.node b sd a).orders, F.rest o
  orders : ∀ orderId o, s.orders orderId = some o → F.rest o
  cancelled : ∀ x ∈ s.cancelled, F.taken x.1 x.2

section Steps

variable {F : Facts N I T} {s s' : Sys N I T} {t : T} {g : ℕ} {r : Routine N I T}
  {b : OrderBookPtr} {sd : Side} {a : NodePtr}

theorem init_carries {cmds : T → List (Command N I)} (h : ∀ t, F.conn t 0 false (cmds t)) :
    Carries F (Sys.init cmds) where
  known := h
  conn := fun _ => trivial
  event := fun _ _ h => by cases h
  routine := fun _ _ h => by cases h
  line := fun _ _ _ h => by cases h
  chan := fun _ _ h => by cases h
  log := fun _ h => by cases h
  node := fun _ _ _ _ h => by cases h
  orders := fun _ _ h => by cases h
  cancelled := fun _ h => by cases h

/-! ## The operations -/

/-- What other goroutines cannot see, and the locks that hold nothing, are of no account. -/
theorem Carries.frame (h : Carries F s) (hconn : s'.conn = s.conn) (hbook : s'.book = s.book)
    (hroutine : s'.routine = s.routine) (hchan : s'.chan = s.chan) (hlog : s'.log = s.log)
    (horders : s'.orders = s.orders) (hcancelled : s'.cancelled = s.cancelled) : Carries F s' where
  known := by
    rw [hconn]
    exact h.known
  conn := by
    rw [hconn]
    exact h.conn
  event := by
    rw [hbook]
    exact h.event
  routine := by
    rw [hroutine]
    exact h.routine
  line := by
    rw [hroutine]
    exact h.line
  chan := by
    rw [hchan]
    exact h.chan
  log := by
    rw [hlog]
    exact h.log
  node := by
    unfold Sys.node Sys.chain
    rw [hbook]
    exact h.node
  orders := by
    rw [horders]
    exact h.orders
  cancelled := by
    rw [hcancelled]
    exact h.cancelled

theorem Carries.setBook (h : Carries F s) {ob : SharedBook N I T}
    (hevent : ∀ event ∈ ob.ordersChn, F.job event.cause event.order)
    (hnode : ∀ sd a, ∀ o ∈ ((ob.chain sd).node a).orders, F.rest o) :
    Carries F (s.setBook b ob) where
  known := h.known
  conn := h.conn
  event := by
    intro b' event hev
    unfold Sys.setBook at hev
    dsimp only at hev
    by_cases hb : b' = b
    · subst hb
      rw [Function.update_self] at hev
      exact hevent event hev
    · rw [Function.update_of_ne hb] at hev
      exact h.event b' event hev
  routine := h.routine
  line := h.line
  chan := h.chan
  log := h.log
  node := by
    intro b' sd' a' o ho
    unfold Sys.setBook Sys.node Sys.chain at ho
    dsimp only at ho
    by_cases hb : b' = b
    · subst hb
      rw [Function.update_self] at ho
      exact hnode sd' a' o ho
    · rw [Function.update_of_ne hb] at ho
      exact h.node b' sd' a' o ho
  orders := h.orders
  cancelled := h.cancelled

theorem Carries.setChain (h : Carries F s) {c : Chain N I T}
    (hnode : ∀ a, ∀ o ∈ (c.node a).orders, F.rest o) : Carries F (s.setChain b sd c) := by
  apply Carries.setBook h
  · exact h.event b
  intro sd' a' o ho
  by_cases hsd : sd' = sd
  · subst hsd
    dsimp only at ho
    rw [Function.update_self] at ho
    exact hnode a' o ho
  · dsimp only at ho
    rw [Function.update_of_ne hsd] at ho
    exact h.node b sd' a' o ho

theorem Carries.setNode (h : Carries F s) {n : Node N I T} (hn : ∀ o ∈ n.orders, F.rest o) :
    Carries F (s.setNode b sd a n) := by
  apply h.setChain
  intro a' o ho
  by_cases ha : a' = a
  · subst ha
    dsimp only at ho
    rw [Function.update_self] at ho
    exact hn o ho
  · dsimp only at ho
    rw [Function.update_of_ne ha] at ho
    exact h.node b sd a' o ho

theorem Carries.setNext (h : Carries F s) (next : Option NodePtr) :
    Carries F (s.setNext b sd a next) :=
  h.setNode (h.node b sd a)

theorem Carries.lock (h : Carries F s) (hs : s.lock b sd a = some s') : Carries F s' := by
  unfold Sys.lock at hs
  split at hs <;> cases hs
  exact h.setNode (h.node b sd a)

theorem Carries.unlock (h : Carries F s) (hs : s.unlock b sd a = some s') : Carries F s' := by
  unfold Sys.unlock at hs
  split at hs <;> cases hs
  exact h.setNode (h.node b sd a)

theorem Carries.lockSgl (h : Carries F s) (hs : s.lockSgl b = some s') : Carries F s' := by
  unfold Sys.lockSgl at hs
  split at hs <;> cases hs
  exact h.setBook (h.event b) (h.node b)

theorem Carries.unlockSgl (h : Carries F s) (hs : s.unlockSgl b = some s') : Carries F s' := by
  unfold Sys.unlockSgl at hs
  split at hs <;> cases hs
  exact h.setBook (h.event b) (h.node b)

theorem Carries.lockOrders (h : Carries F s) (hs : s.lockOrders = some s') : Carries F s' := by
  unfold Sys.lockOrders at hs
  split at hs <;> cases hs
  exact h.frame rfl rfl rfl rfl rfl rfl rfl

theorem Carries.unlockOrders (h : Carries F s) (hs : s.unlockOrders = some s') : Carries F s' := by
  unfold Sys.unlockOrders at hs
  split at hs <;> cases hs
  exact h.frame rfl rfl rfl rfl rfl rfl rfl

theorem Carries.sendEvent (h : Carries F s) {event : Event N I T}
    (hevent : F.job event.cause event.order) (hs : s.sendEvent b event = some s') :
    Carries F s' := by
  unfold Sys.sendEvent at hs
  split at hs <;> cases hs
  apply Carries.setBook h
  · intro event' hev
    rcases List.mem_append.mp hev with hev | hev
    · exact h.event b event' hev
    · cases List.mem_singleton.mp hev
      exact hevent
  · exact h.node b

theorem Carries.queue (h : Carries F s) {ch : ChanPtr} (hs : s.queue ch = some s') :
    Carries F s' := by
  unfold Sys.queue at hs
  split at hs <;> cases hs
  exact h.frame rfl rfl rfl rfl rfl rfl rfl

/-- A channel changes, and has only messages with the fact. -/
theorem Carries.setChan (h : Carries F s) (ch : ChanPtr) (c : OutputCh N I T)
    (hc : ∀ x ∈ c.messages, F.line x.1 x.2) :
    Carries F { s with chan := Function.update s.chan ch c } where
  known := h.known
  conn := h.conn
  event := h.event
  routine := h.routine
  line := h.line
  chan := by
    intro ch' x hx
    by_cases hch : ch' = ch
    · subst hch
      dsimp only at hx
      rw [Function.update_self] at hx
      exact hc x hx
    · dsimp only at hx
      rw [Function.update_of_ne hch] at hx
      exact h.chan ch' x hx
  log := h.log
  node := h.node
  orders := h.orders
  cancelled := h.cancelled

theorem Carries.makeChan (h : Carries F s) (capacity : ℕ) : Carries F (s.makeChan capacity) := by
  have hnew := h.setChan s.nextChan { capacity, messages := [], closed := false } fun _ hx => by cases hx
  exact hnew.frame rfl rfl rfl rfl rfl rfl rfl

theorem Carries.closeChan (h : Carries F s) (ch : ChanPtr) : Carries F (s.closeChan ch) :=
  h.setChan ch _ (h.chan ch)

theorem Carries.send (h : Carries F s) {ch : ChanPtr} {cause : Cause N I T} {line : Line N I}
    (hline : F.line cause line) (hs : s.send ch cause line = some s') : Carries F s' := by
  unfold Sys.send at hs
  dsimp only at hs
  split at hs <;> cases hs
  apply h.setChan
  intro x hx
  rcases List.mem_append.mp hx with hx | hx
  · exact h.chan ch x hx
  · cases List.mem_singleton.mp hx
    exact hline

/-- A connection goes on. -/
theorem Carries.setConn (h : Carries F s) {c : Connection N I T} (hc : c.pc.Has F t)
    (hknown : F.conn t c.rId c.pc.started c.cmds) :
    Carries F { s with conn := Function.update s.conn t c } where
  known := by
    intro u
    by_cases hu : u = t
    · subst hu
      dsimp only
      rw [Function.update_self]
      exact hknown
    · dsimp only
      rw [Function.update_of_ne hu]
      exact h.known u
  conn := by
    intro u
    by_cases hu : u = t
    · subst hu
      dsimp only
      rw [Function.update_self]
      exact hc
    · dsimp only
      rw [Function.update_of_ne hu]
      exact h.conn u
  event := h.event
  routine := h.routine
  line := h.line
  chan := h.chan
  log := h.log
  node := h.node
  orders := h.orders
  cancelled := h.cancelled

theorem Carries.connGoto (h : Carries F s) {pc : ConnPc N I T} (hpc : pc.Has F t)
    (hstarted : (s.conn t).pc.started = pc.started) : Carries F (s.connGoto t pc) := by
  apply h.setConn hpc
  have hknown := h.known t
  rw [hstarted] at hknown
  exact hknown

/-- A goroutine starts, goes on or returns. -/
theorem Carries.setRoutine (h : Carries F s) {next : ℕ} {x : Option (Routine N I T)}
    (hx : ∀ r, x = some r → F.job r.cause r.order)
    (hline : ∀ r l, x = some r → r.pc.line = some l → F.line r.cause l) :
    Carries F { s with routine := Function.update s.routine g x, nextRoutine := next } where
  known := h.known
  conn := h.conn
  event := h.event
  routine := by
    intro g' r hr
    by_cases hg : g' = g
    · subst hg
      dsimp only at hr
      rw [Function.update_self] at hr
      exact hx r hr
    · dsimp only at hr
      rw [Function.update_of_ne hg] at hr
      exact h.routine g' r hr
  line := by
    intro g' r l hr hl
    by_cases hg : g' = g
    · subst hg
      dsimp only at hr
      rw [Function.update_self] at hr
      exact hline r l hr hl
    · dsimp only at hr
      rw [Function.update_of_ne hg] at hr
      exact h.line g' r l hr hl
  chan := h.chan
  log := h.log
  node := h.node
  orders := h.orders
  cancelled := h.cancelled

theorem Carries.spawn (h : Carries F s) (hr : F.job r.cause r.order) (hl : r.pc.line = none) :
    Carries F (s.spawn r) := by
  apply h.setRoutine
  · rintro _ hx
    cases hx
    exact hr
  · rintro _ l hx hl'
    cases hx
    rw [hl] at hl'
    cases hl'

/-- The goroutine makes no line, or one with the fact. -/
theorem Carries.goto (h : Carries F s) (hr : F.job r.cause r.order) {pc : Pc N I}
    (hl : ∀ l, pc.line = some l → F.line r.cause l) : Carries F (s.goto g r pc) := by
  apply h.setRoutine
  · rintro _ hx
    cases hx
    exact hr
  · rintro _ l hx hl'
    cases hx
    exact hl l hl'

theorem Carries.goto_silent (h : Carries F s) (hr : F.job r.cause r.order) {pc : Pc N I}
    (hl : pc.line = none) : Carries F (s.goto g r pc) := by
  apply h.goto hr
  intro l hl'
  rw [hl] at hl'
  cases hl'

theorem Carries.done (h : Carries F s) (g : ℕ) : Carries F (s.done g) :=
  h.setRoutine (fun _ hx => by cases hx) (fun _ _ hx => by cases hx)

theorem Carries.setOrders (h : Carries F s)
    {orders : ConcurrentHashMap UInt32 (Order N I (RId T))}
    (horders : ∀ orderId o, orders orderId = some o → F.rest o) :
    Carries F { s with orders := orders } where
  known := h.known
  conn := h.conn
  event := h.event
  routine := h.routine
  line := h.line
  chan := h.chan
  log := h.log
  node := h.node
  orders := horders
  cancelled := h.cancelled

theorem Carries.ordersRemove (h : Carries F s) (orderId : UInt32) :
    Carries F { s with orders := s.orders.remove orderId } := by
  apply h.setOrders
  intro id o ho
  unfold ConcurrentHashMap.remove at ho
  by_cases hid : id = orderId
  · subst hid
    rw [Function.update_self] at ho
    cases ho
  · rw [Function.update_of_ne hid] at ho
    exact h.orders id o ho

theorem Carries.ordersSet (h : Carries F s) {orderId : UInt32} {o : Order N I (RId T)}
    (ho : F.rest o) : Carries F { s with orders := s.orders.set orderId o } := by
  apply h.setOrders
  intro id o' ho'
  unfold ConcurrentHashMap.set at ho'
  cases hget : s.orders orderId with
  | some _ =>
    rw [hget] at ho'
    exact h.orders id o' ho'
  | none =>
    rw [hget] at ho'
    dsimp only at ho'
    by_cases hid : id = orderId
    · subst hid
      rw [Function.update_self] at ho'
      cases ho'
      exact ho
    · rw [Function.update_of_ne hid] at ho'
      exact h.orders id o' ho'

/-- An order is taken out by a cancel. -/
theorem Carries.cancel (h : Carries F s) {x : T × Order N I (RId T)} (hx : F.taken x.1 x.2) :
    Carries F { s with cancelled := s.cancelled ++ [x] } where
  known := h.known
  conn := h.conn
  event := h.event
  routine := h.routine
  line := h.line
  chan := h.chan
  log := h.log
  node := h.node
  orders := h.orders
  cancelled := by
    intro y hy
    rcases List.mem_append.mp hy with hy | hy
    · exact h.cancelled y hy
    · cases List.mem_singleton.mp hy
      exact hx

/-- A message is printed. -/
theorem Carries.print (h : Carries F s) {x : Cause N I T × Line N I} (hx : F.line x.1 x.2) :
    Carries F { s with log := s.log ++ [x] } where
  known := h.known
  conn := h.conn
  event := h.event
  routine := h.routine
  line := h.line
  chan := h.chan
  log := by
    intro y hy
    rcases List.mem_append.mp hy with hy | hy
    · exact h.log y hy
    · cases List.mem_singleton.mp hy
      exact hx
  node := h.node
  orders := h.orders
  cancelled := h.cancelled

/-! ## A step -/

theorem Sys.conn_sendEvent {event : Event N I T} (hs : s.sendEvent b event = some s') :
    s'.conn = s.conn := by
  unfold Sys.sendEvent at hs
  split at hs <;> cases hs
  rfl

theorem Sys.conn_lockOrders (hs : s.lockOrders = some s') : s'.conn = s.conn := by
  unfold Sys.lockOrders at hs
  split at hs <;> cases hs
  rfl

theorem Sys.conn_unlockOrders (hs : s.unlockOrders = some s') : s'.conn = s.conn := by
  unfold Sys.unlockOrders at hs
  split at hs <;> cases hs
  rfl

theorem Sys.conn_queue {ch : ChanPtr} (hs : s.queue ch = some s') : s'.conn = s.conn := by
  unfold Sys.queue at hs
  split at hs <;> cases hs
  rfl

theorem Sys.conn_send {ch : ChanPtr} {cause : Cause N I T} {line : Line N I}
    (hs : s.send ch cause line = some s') : s'.conn = s.conn := by
  unfold Sys.send at hs
  dsimp only at hs
  split at hs <;> cases hs
  rfl

/-- What is asked of a step: a connection that draws its number, an order that it reads, an order of
    its own that a cancel finds and one that a cancel removes have their facts. -/
structure Facts.Admits (F : Facts N I T) (s : Sys N I T) (a : Actor T) : Prop where
  draw : ∀ t, a = .conn t → (s.conn t).pc = .start → F.conn t s.id true (s.conn t).cmds
  read : ∀ t sd orderId i price count inputTime cmds, a = .conn t → (s.conn t).pc = .ready →
    (s.conn t).cmds = .order sd orderId i price count inputTime :: cmds →
    F.conn t (s.conn t).rId true (s.conn t).cmds →
    F.job
      { conn := t
        index := (s.conn t).index
        command := .order sd orderId i price count inputTime }
      (Engine.newOrder s.nextAddress sd orderId i price count inputTime
        { value := (s.conn t).rId, conn := t })
  found : ∀ t c orderId o, a = .conn t → (s.conn t).pc = .foundUnlock c orderId o → F.held t c →
    o.rId.value = (s.conn t).rId → F.conn t (s.conn t).rId true (s.conn t).cmds → F.rest o →
    F.job c o
  removed : ∀ g r prev curr ch e, a = .routine g → s.routine g = some r →
    r.pc = .cancelAt prev (some curr) ch → (s.node r.book r.side curr).price = r.order.price →
    (s.node r.book r.side curr).orders.find? (sameId r.order) = some e → F.job r.cause r.order →
    F.rest e → F.taken r.cause.conn e

theorem Carries.handleConn (hF : F.Lawful) (h : Carries F s) (ha : F.Admits s (.conn t))
    (hs : s.handleConn t = some s') : Carries F s' := by
  have hhas := h.conn t
  have hknown := h.known t
  unfold Sys.handleConn at hs
  cases hpc : (s.conn t).pc with
  | start =>
    rw [hpc] at hs
    cases hs
    have hset := h.setConn (t := t) (c := { s.conn t with rId := s.id, pc := .ready }) trivial
      (ha.draw t rfl hpc)
    exact hset.frame rfl rfl rfl rfl rfl rfl rfl
  | ready =>
    rw [hpc] at hs hknown
    cases hcmds : (s.conn t).cmds with
    | nil =>
      rw [hcmds] at hs
      cases hs
    | cons c cmds =>
      rw [hcmds] at hs hknown
      -- the command is taken off, then the connection goes on with it
      have hread : ∀ pc : ConnPc N I T, pc.Has F t → pc.started = true →
          Carries F { s with
            conn := Function.update s.conn t
              { s.conn t with cmds, index := (s.conn t).index + 1, pc } } := by
        intro pc hpc' hstarted
        apply h.setConn hpc'
        rw [hstarted]
        exact hF.next t _ c cmds hknown
      cases c with
      | order sd orderId i price count inputTime =>
        cases hs
        have hjob := ha.read t sd orderId i price count inputTime cmds rfl hpc hcmds
          (by rw [hcmds]; exact hknown)
        have hset := hread (.getBook _ _) hjob rfl
        refine Carries.frame hset ?_ rfl rfl rfl rfl rfl rfl
        simp only [Sys.connGoto, Function.update_idem, Function.update_self]
      | cancel orderId inputTime =>
        cases hs
        have hset := hread
          (.lockOrders
            { conn := t, index := (s.conn t).index, command := .cancel orderId inputTime } orderId)
          (hF.read t _ _) rfl
        refine Carries.frame hset ?_ rfl rfl rfl rfl rfl rfl
        simp only [Sys.connGoto, Function.update_idem, Function.update_self]
  | getBook c o =>
    rw [hpc] at hs hhas
    dsimp only at hs
    split at hs <;> cases hs
    · exact h.connGoto hhas (by rw [hpc]; rfl)
    · apply Carries.connGoto
      · exact h.frame rfl rfl rfl rfl rfl rfl rfl
      · exact hhas
      · dsimp only
        rw [hpc]
        rfl
  | setBook c o b =>
    rw [hpc] at hs hhas
    cases hs
    apply Carries.connGoto
    · exact h.frame rfl rfl rfl rfl rfl rfl rfl
    · exact hhas
    · dsimp only
      rw [hpc]
      rfl
  | getAgain c o =>
    rw [hpc] at hs hhas
    dsimp only at hs
    split at hs <;> cases hs
    exact h.connGoto hhas (by rw [hpc]; rfl)
  | send b event =>
    rw [hpc] at hs hhas
    rcases Option.map_eq_some_iff.mp hs with ⟨s₁, hs₁, rfl⟩
    exact (h.sendEvent hhas hs₁).connGoto trivial (by rw [Sys.conn_sendEvent hs₁, hpc]; rfl)
  | lockOrders c orderId =>
    rw [hpc] at hs hhas
    rcases Option.map_eq_some_iff.mp hs with ⟨s₁, hs₁, rfl⟩
    exact (h.lockOrders hs₁).connGoto hhas (by rw [Sys.conn_lockOrders hs₁, hpc]; rfl)
  | getOrder c orderId =>
    rw [hpc] at hs hhas
    dsimp only at hs
    split at hs <;> cases hs
    · exact h.connGoto trivial (by rw [hpc]; rfl)
    next o hget => exact h.connGoto ⟨hhas, h.orders orderId o hget⟩ (by rw [hpc]; rfl)
  | missQueue c orderId =>
    rw [hpc] at hs
    rcases Option.map_eq_some_iff.mp hs with ⟨s₁, hs₁, rfl⟩
    have hconn : s₁.conn = (s.makeChan 1).conn := Sys.conn_queue hs₁
    have hstarted : (s₁.conn t).pc.started = true := by
      rw [hconn]
      show (s.conn t).pc.started = true
      rw [hpc]
      rfl
    exact ((h.makeChan 1).queue hs₁).connGoto trivial hstarted
  | missUnlock c orderId ch =>
    rw [hpc] at hs
    rcases Option.map_eq_some_iff.mp hs with ⟨s₁, hs₁, rfl⟩
    exact (h.unlockOrders hs₁).connGoto trivial (by rw [Sys.conn_unlockOrders hs₁, hpc]; rfl)
  | foundUnlock c orderId o =>
    rw [hpc] at hs hhas hknown
    rcases Option.map_eq_some_iff.mp hs with ⟨s₁, hs₁, rfl⟩
    have h₁ := h.unlockOrders hs₁
    have hconn := Sys.conn_unlockOrders hs₁
    split
    · exact h₁.connGoto trivial (by rw [hconn, hpc]; rfl)
    next hown =>
      have hjob := ha.found t c orderId o rfl hpc hhas.1 (not_not.mp hown) hknown hhas.2
      exact h₁.connGoto hjob (by rw [hconn, hpc]; rfl)
  | foreignQueue c orderId =>
    rw [hpc] at hs
    rcases Option.map_eq_some_iff.mp hs with ⟨s₁, hs₁, rfl⟩
    have hconn : s₁.conn = (s.makeChan 1).conn := Sys.conn_queue hs₁
    have hstarted : (s₁.conn t).pc.started = true := by
      rw [hconn]
      show (s.conn t).pc.started = true
      rw [hpc]
      rfl
    exact ((h.makeChan 1).queue hs₁).connGoto trivial hstarted
  | getBookOf c o =>
    rw [hpc] at hs hhas
    dsimp only at hs
    split at hs <;> cases hs
    exact h.connGoto hhas (by rw [hpc]; rfl)
  | reject c orderId ch =>
    rw [hpc] at hs
    rcases Option.map_eq_some_iff.mp hs with ⟨s₁, hs₁, rfl⟩
    have hsend := h.send (hF.missed c orderId) hs₁
    exact hsend.connGoto trivial (by rw [Sys.conn_send hs₁, hpc]; rfl)
  | close ch =>
    rw [hpc] at hs
    cases hs
    have hstarted : ((s.closeChan ch).conn t).pc.started = true := by
      show (s.conn t).pc.started = true
      rw [hpc]
      rfl
    exact (h.closeChan ch).connGoto trivial hstarted

theorem Carries.processActiveOrder (hF : F.Lawful) (h : Carries F s)
    (hr : F.job r.cause r.order) {pc : Pc N I} (hs : s.processActiveOrder g r pc = some s') :
    Carries F s' := by
  cases pc with
  | lockSgl =>
    rcases Option.map_eq_some_iff.mp hs with ⟨s₁, hs₁, rfl⟩
    exact (h.lockSgl hs₁).goto_silent hr rfl
  | lockMatchHead =>
    rcases Option.map_eq_some_iff.mp hs with ⟨s₁, hs₁, rfl⟩
    exact (h.lock hs₁).goto_silent hr rfl
  | matchAt v shouldPopPrev curr =>
    cases curr with
    | none =>
      cases hs
      apply Carries.goto_silent _ hr rfl
      split
      · exact h.setNext none
      · exact h
    | some curr =>
      rcases Option.map_eq_some_iff.mp hs with ⟨s₁, hs₁, rfl⟩
      exact (h.lock hs₁).goto_silent hr rfl
  | matchTest v shouldPopPrev curr =>
    have h' : Carries F (if shouldPopPrev then s.setNext r.book r.side.opp 0 (some curr) else s) := by
      split
      · exact h.setNext (some curr)
      · exact h
    simp only [Sys.processActiveOrder] at hs
    split at hs
    · rcases Option.map_eq_some_iff.mp hs with ⟨s₁, hs₁, rfl⟩
      exact (h'.unlock hs₁).goto_silent hr rfl
    · cases hs
      exact (h'.makeChan _).goto_silent hr rfl
  | matchQueue v curr ch =>
    rcases Option.map_eq_some_iff.mp hs with ⟨s₁, hs₁, rfl⟩
    have hspawn := (h.queue hs₁).spawn (r := { r with pc := .exec v curr ch }) hr rfl
    dsimp only
    split
    · exact hspawn.goto_silent hr rfl
    · exact hspawn.goto_silent hr rfl
  | matchNext v shouldPopPrev curr =>
    cases hs
    exact h.goto_silent hr rfl
  | matchEnd v =>
    rcases Option.map_eq_some_iff.mp hs with ⟨s₁, hs₁, rfl⟩
    split
    · exact (h.unlock hs₁).goto_silent hr rfl
    · exact (h.unlock hs₁).goto_silent hr rfl
  | lockAddHead v =>
    rcases Option.map_eq_some_iff.mp hs with ⟨s₁, hs₁, rfl⟩
    exact (h.lock hs₁).goto_silent hr rfl
  | lockOrders v =>
    rcases Option.map_eq_some_iff.mp hs with ⟨s₁, hs₁, rfl⟩
    exact (h.lockOrders hs₁).goto_silent hr rfl
  | setOrder v =>
    cases hs
    have ho := hF.setCount r.cause r.order v hr
    exact (h.ordersSet (hF.resting r.cause _ ho)).goto_silent ho rfl
  | unlockOrders =>
    rcases Option.map_eq_some_iff.mp hs with ⟨s₁, hs₁, rfl⟩
    exact (h.unlockOrders hs₁).goto_silent hr rfl
  | addQueue =>
    rcases Option.map_eq_some_iff.mp hs with ⟨s₁, hs₁, rfl⟩
    have hspawn := ((h.makeChan 1).queue hs₁).spawn
      (r := { r with pc := .addFirst s.nextChan }) hr rfl
    exact hspawn.goto_silent hr rfl
  | unlockSgl =>
    rcases Option.map_eq_some_iff.mp hs with ⟨s₁, hs₁, rfl⟩
    exact (h.unlockSgl hs₁).done g
  | _ => cases hs

theorem Carries.executeOrder (hF : F.Lawful) (h : Carries F s) (hr : F.job r.cause r.order)
    {pc : Pc N I} (hl : ∀ l, pc.line = some l → F.line r.cause l)
    (hs : s.executeOrder g r pc = some s') : Carries F s' := by
  cases pc with
  | exec countLeftToMatch node ch =>
    have hnode := h.node r.book r.side.opp node
    simp only [Sys.executeOrder] at hs
    split at hs
    · cases hs
      exact (h.closeChan ch).goto_silent hr rfl
    next earliestOrder rest horders =>
      rw [horders] at hnode
      split at hs
      · cases hs
        exact (h.closeChan ch).goto_silent hr rfl
      · split at hs <;> cases hs
        · apply Carries.goto _ hr
          · rintro _ hl'
            cases hl'
            exact hF.executed r.cause r.order earliestOrder _ hr
          · apply h.setNode
            exact fun o ho => hnode o (List.mem_cons_of_mem _ ho)
        · apply Carries.goto _ hr
          · rintro _ hl'
            cases hl'
            exact hF.executed r.cause r.order earliestOrder _ hr
          · apply h.setNode
            intro o ho
            rcases List.mem_cons.mp ho with rfl | ho
            · exact hF.updated _ _ _ (hnode earliestOrder List.mem_cons_self)
            · exact hnode o (List.mem_cons_of_mem _ ho)
  | execRemove restingId line countLeftToMatch node ch =>
    cases hs
    exact (h.ordersRemove restingId).goto hr hl
  | execSend line countLeftToMatch node ch =>
    rcases Option.map_eq_some_iff.mp hs with ⟨s₁, hs₁, rfl⟩
    exact (h.send (hl line rfl) hs₁).goto_silent hr rfl
  | execUnlock node =>
    rcases Option.map_eq_some_iff.mp hs with ⟨s₁, hs₁, rfl⟩
    exact (h.unlock hs₁).done g
  | _ => cases hs

theorem Carries.addOrder (hF : F.Lawful) (h : Carries F s) (hr : F.job r.cause r.order)
    {pc : Pc N I} (hs : s.addOrder g r pc = some s') : Carries F s' := by
  cases pc with
  | addFirst ch =>
    cases hs
    exact h.goto_silent hr rfl
  | addWalk curr next ch =>
    cases next with
    | none =>
      cases hs
      exact h.goto_silent hr rfl
    | some next =>
      rcases Option.map_eq_some_iff.mp hs with ⟨s₁, hs₁, rfl⟩
      exact (h.lock hs₁).goto_silent hr rfl
  | addTest curr next ch =>
    simp only [Sys.addOrder] at hs
    split at hs
    · rcases Option.map_eq_some_iff.mp hs with ⟨s₁, hs₁, rfl⟩
      exact (h.unlock hs₁).goto_silent hr rfl
    · split at hs
      · rcases Option.map_eq_some_iff.mp hs with ⟨s₁, hs₁, rfl⟩
        exact (h.unlock hs₁).goto_silent hr rfl
      · rcases Option.map_eq_some_iff.mp hs with ⟨s₁, hs₁, rfl⟩
        exact (h.unlock hs₁).goto_silent hr rfl
  | addPlace curr ch =>
    simp only [Sys.addOrder] at hs
    split at hs <;> cases hs
    · apply Carries.goto_silent _ hr rfl
      apply h.setChain
      -- the new node has no order yet
      intro a o ho
      dsimp only at ho
      by_cases ha : a = curr
      · subst ha
        rw [Function.update_self] at ho
        exact h.node r.book r.side a o ho
      · rw [Function.update_of_ne ha] at ho
        by_cases hnew : a = (s.chain r.book r.side).nextNode
        · rw [hnew, Function.update_self] at ho
          cases ho
        · rw [Function.update_of_ne hnew] at ho
          exact h.node r.book r.side a o ho
    · exact h.goto_silent hr rfl
  | addLinked prev curr ch =>
    rcases Option.map_eq_some_iff.mp hs with ⟨s₁, hs₁, rfl⟩
    exact (h.unlock hs₁).goto_silent hr rfl
  | addAppend curr ch =>
    cases hs
    apply Carries.goto_silent _ hr rfl
    apply h.setNode
    intro o ho
    rcases List.mem_append.mp ho with ho | ho
    · exact h.node r.book r.side curr o ho
    · cases List.mem_singleton.mp ho
      exact hF.resting r.cause r.order hr
  | addSend curr ch =>
    rcases Option.map_eq_some_iff.mp hs with ⟨s₁, hs₁, rfl⟩
    exact (h.send (hF.added r.cause r.order r.side hr) hs₁).goto_silent hr rfl
  | addClose curr ch =>
    cases hs
    exact (h.closeChan ch).goto_silent hr rfl
  | addUnlock curr =>
    rcases Option.map_eq_some_iff.mp hs with ⟨s₁, hs₁, rfl⟩
    exact (h.unlock hs₁).done g
  | _ => cases hs

theorem Carries.processCancelOrder (hF : F.Lawful) (h : Carries F s)
    (hr : F.job r.cause r.order) {pc : Pc N I}
    (hremoved : ∀ prev curr ch e, pc = .cancelAt prev (some curr) ch →
      (s.node r.book r.side curr).price = r.order.price →
      (s.node r.book r.side curr).orders.find? (sameId r.order) = some e → F.rest e →
      F.taken r.cause.conn e)
    (hs : s.processCancelOrder g r pc = some s') : Carries F s' := by
  cases pc with
  | lockHead =>
    rcases Option.map_eq_some_iff.mp hs with ⟨s₁, hs₁, rfl⟩
    exact (h.lock hs₁).goto_silent hr rfl
  | cancelQueue =>
    rcases Option.map_eq_some_iff.mp hs with ⟨s₁, hs₁, rfl⟩
    exact ((h.makeChan 1).queue hs₁).goto_silent hr rfl
  | cancelFirst ch =>
    simp only [Sys.processCancelOrder] at hs
    split at hs
    · cases hs
      exact h.goto_silent hr rfl
    · rcases Option.map_eq_some_iff.mp hs with ⟨s₁, hs₁, rfl⟩
      exact (h.lock hs₁).goto_silent hr rfl
  | cancelAt prev curr ch =>
    cases curr with
    | none =>
      rcases Option.map_eq_some_iff.mp hs with ⟨s₁, hs₁, rfl⟩
      exact (h.unlock hs₁).goto_silent hr rfl
    | some curr =>
      have hnode := h.node r.book r.side curr
      simp only [Sys.processCancelOrder] at hs
      split at hs
      · split at hs
        · rcases Option.map_eq_some_iff.mp hs with ⟨s₁, hs₁, rfl⟩
          exact (h.unlock hs₁).goto_silent hr rfl
        · rcases Option.map_eq_some_iff.mp hs with ⟨s₁, hs₁, rfl⟩
          exact (h.lock hs₁).goto_silent hr rfl
      next hprice =>
        split at hs
        · rcases Option.map_eq_some_iff.mp hs with ⟨s₁, hs₁, rfl⟩
          exact (h.unlock hs₁).goto_silent hr rfl
        next e hfind =>
          cases hs
          apply Carries.goto_silent _ hr rfl
          apply Carries.cancel
          · apply h.setNode
            exact fun o ho => hnode o (List.mem_of_mem_eraseP ho)
          · have he := hnode e (List.mem_of_find?_eq_some hfind)
            exact hremoved prev curr ch e rfl (not_not.mp hprice) hfind he
  | cancelOn prev curr next ch =>
    rcases Option.map_eq_some_iff.mp hs with ⟨s₁, hs₁, rfl⟩
    exact (h.unlock hs₁).goto_silent hr rfl
  | cancelRemove prev curr ch =>
    cases hs
    exact (h.ordersRemove _).goto_silent hr rfl
  | cancelUnlink prev curr ch =>
    rcases Option.map_eq_some_iff.mp hs with ⟨s₁, hs₁, rfl⟩
    apply Carries.goto_silent _ hr rfl
    apply Carries.unlock _ hs₁
    split
    · exact h.setNext _
    · exact h
  | cancelUnlock curr accepted ch =>
    rcases Option.map_eq_some_iff.mp hs with ⟨s₁, hs₁, rfl⟩
    exact (h.unlock hs₁).goto_silent hr rfl
  | cancelSend accepted ch =>
    rcases Option.map_eq_some_iff.mp hs with ⟨s₁, hs₁, rfl⟩
    exact (h.send (hF.deleted r.cause r.order accepted hr) hs₁).goto_silent hr rfl
  | cancelClose ch =>
    cases hs
    exact (h.closeChan ch).done g
  | _ => cases hs

theorem Carries.dispatch (h : Carries F s) (hs : s.dispatch b = some s') : Carries F s' := by
  have hevent := h.event b
  unfold Sys.dispatch at hs
  split at hs
  · cases hs
  next event rest hqueue =>
    cases hs
    rw [hqueue] at hevent
    apply Carries.spawn
    · apply h.setBook
      · exact fun event' hev => hevent event' (List.mem_cons_of_mem _ hev)
      · exact h.node b
    · exact hevent event List.mem_cons_self
    · dsimp only
      split
      · rfl
      · rfl

theorem Carries.printOutputChnl (h : Carries F s) (hs : s.printOutputChnl = some s') :
    Carries F s' := by
  unfold Sys.printOutputChnl at hs
  split at hs
  · split at hs <;> cases hs
    exact h.frame rfl rfl rfl rfl rfl rfl rfl
  next ch hch =>
    have hchan := h.chan ch
    dsimp only at hs
    split at hs
    next message messages hmessages =>
      cases hs
      rw [hmessages] at hchan
      have hset := h.setChan ch { s.chan ch with messages }
        fun x hx => hchan x (List.mem_cons_of_mem _ hx)
      exact hset.print (hchan message List.mem_cons_self)
    · split at hs <;> cases hs
      exact h.frame rfl rfl rfl rfl rfl rfl rfl

theorem Carries.routineStep (hF : F.Lawful) (h : Carries F s) (ha : F.Admits s (.routine g))
    (hr : s.routine g = some r) (hs : s.routineStep g r = some s') : Carries F s' := by
  have hjob := h.routine g r hr
  have hline := fun l => h.line g r l hr
  have hremoved := fun prev curr ch e hpc hprice hfind =>
    ha.removed g r prev curr ch e rfl hr hpc hprice hfind hjob
  unfold Sys.routineStep at hs
  split at hs
  all_goals
    first
      | exact h.executeOrder hF hjob hline hs
      | exact h.addOrder hF hjob hs
      | exact h.processCancelOrder hF hjob hremoved hs
      | exact h.processActiveOrder hF hjob hs

theorem Carries.step (hF : F.Lawful) (h : Carries F s) {a : Actor T} (ha : F.Admits s a)
    (hs : s.step a = some s') : Carries F s' := by
  cases a with
  | conn t => exact h.handleConn hF ha hs
  | dispatcher b => exact h.dispatch hs
  | routine g =>
    simp only [Sys.step] at hs
    split at hs
    · cases hs
    next r hr => exact h.routineStep hF ha hr hs
  | printer => exact h.printOutputChnl hs

end Steps

end MatchingEngine.Go
