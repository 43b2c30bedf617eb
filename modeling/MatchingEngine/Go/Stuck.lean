import MatchingEngine.Go.Room
import MatchingEngine.Go.Listed

/-!
# The Go engine does not get stuck

What a goroutine or a connection that cannot go on waits for is a lock that another goroutine has, or
room in a queue.  It never waits to release a lock, nor on an output channel, and no assertion fails.
The printer waits for the channel in front of its queue; the goroutine that has it can only wait for
the lock of a node, and of the goroutines that have locked nodes the one that is furthest down the
chain can go on.
-/

set_option linter.unusedSectionVars false

namespace MatchingEngine.Go

open CoupledList (Spot Take)

variable {N I T : Type} [Quantity N] [DecidableEq I] [DecidableEq T]

/-- Goes on to the next node of a chain. -/
def Pc.walks : Pc N I → Bool
  | .matchAt _ _ (some _) | .addWalk _ (some _) _ | .cancelFirst _ | .cancelAt _ (some _) _ => true
  | _ => false

/-- Comes to the head of the chain of this side, for an order of side `own`. -/
def Pc.comes (own : Side) : Pc N I → Option Side
  | .lockMatchHead => some own.opp
  | .lockAddHead _ | .lockHead => some own
  | _ => none

/-- The functions of the goroutines. -/
inductive Func
  | processActiveOrder
  | executeOrder
  | addOrder
  | processCancelOrder

/-- The function that a place is in. -/
def Pc.func : Pc N I → Func
  | .exec .. | .execRemove .. | .execSend .. | .execUnlock .. => .executeOrder
  | .addFirst .. | .addWalk .. | .addTest .. | .addPlace .. | .addLinked .. | .addAppend ..
  | .addSend .. | .addClose .. | .addUnlock .. => .addOrder
  | .lockHead | .cancelQueue | .cancelFirst .. | .cancelAt .. | .cancelOn .. | .cancelRemove ..
  | .cancelUnlink .. | .cancelUnlock .. | .cancelSend .. | .cancelClose .. => .processCancelOrder
  | _ => .processActiveOrder

namespace Sys

variable {s s₁ s' : Sys N I T} {a x : Actor T} {t : T} {g : ℕ} {r : Routine N I T}
  {b : OrderBookPtr} {sd : Side} {n : NodePtr} {ch : ChanPtr} {p : Pc N I}

/-- What a goroutine waits for. -/
inductive Awaits (s : Sys N I T) (r : Routine N I T) : Prop
  | sgl (hpc : r.pc = .lockSgl) (hlock : s.sgl r.book = true)
  | orders (v : N) (hpc : r.pc = .lockOrders v) (hlock : s.ordersLock = true)
  | queue (hpc : r.pc.queues s.nextChan ≠ none) (hfull : 100 ≤ s.outputChannels.length)
  | head (sd : Side) (hpc : r.pc.comes r.side = some sd)
      (hlock : (s.node r.book sd 0).lock = true)
  | node (sd : Side) (n : NodePtr) (hpc : r.pc.walks = true) (haway : r.spot r.book sd ≠ .away)
      (ht : ∃ σ, Take (s.store r.book sd) (r.spot r.book sd) n σ)
      (hlock : (s.node r.book sd n).lock = true)

/-- What a connection waits for; at the end nothing more. -/
inductive ConnAwaits (s : Sys N I T) (t : T) : Prop
  | finished (hpc : (s.conn t).pc = .ready) (hcmds : (s.conn t).cmds = [])
  | orders (c : Cause N I T) (orderId : UInt32) (hpc : (s.conn t).pc = .lockOrders c orderId)
      (hlock : s.ordersLock = true)
  | queue (hpc : (s.conn t).pc.queues s.nextChan ≠ none) (hfull : 100 ≤ s.outputChannels.length)
  | send (b : OrderBookPtr) (event : Event N I T) (hpc : (s.conn t).pc = .send b event)
      (hfull : 20 ≤ (s.book b).ordersChn.length)

/-! ## The operations that wait -/

theorem lock_eq_none (hs : s.lock b sd n = none) : (s.node b sd n).lock = true := by
  unfold lock at hs
  split at hs
  · assumption
  · cases hs

theorem unlock_eq_none (hs : s.unlock b sd n = none) : (s.node b sd n).lock = false := by
  unfold unlock at hs
  split at hs
  · cases hs
  next hfree => exact Bool.not_eq_true _ ▸ hfree

theorem lockSgl_eq_none (hs : s.lockSgl b = none) : s.sgl b = true := by
  unfold lockSgl at hs
  split at hs
  · assumption
  · cases hs

theorem unlockSgl_eq_none (hs : s.unlockSgl b = none) : s.sgl b = false := by
  unfold unlockSgl at hs
  split at hs
  · cases hs
  next hfree => exact Bool.not_eq_true _ ▸ hfree

theorem lockOrders_eq_none (hs : s.lockOrders = none) : s.ordersLock = true := by
  unfold lockOrders at hs
  split at hs
  · assumption
  · cases hs

theorem unlockOrders_eq_none (hs : s.unlockOrders = none) : s.ordersLock = false := by
  unfold unlockOrders at hs
  split at hs
  · cases hs
  next hfree => exact Bool.not_eq_true _ ▸ hfree

theorem queue_eq_none (hs : s.queue ch = none) : 100 ≤ s.outputChannels.length := by
  unfold queue at hs
  split at hs
  · cases hs
  next hfull => exact not_lt.mp hfull

theorem send_eq_none {cause : Cause N I T} {line : Line N I} (hs : s.send ch cause line = none)
    (hopen : (s.chan ch).closed = false) : (s.chan ch).capacity ≤ (s.chan ch).messages.length := by
  unfold send at hs
  dsimp only at hs
  split at hs
  · cases hs
  next hfull => exact not_lt.mp fun hlt => hfull ⟨hlt, hopen⟩

theorem sendEvent_eq_none {event : Event N I T} (hs : s.sendEvent b event = none) :
    20 ≤ (s.book b).ordersChn.length := by
  unfold sendEvent at hs
  split at hs
  · cases hs
  next hfull => exact not_lt.mp hfull

/-! ## What is there when it is needed -/

variable {h : Drain.History ChanPtr (Sent N I T)}

/-- Everything that is known of a state. -/
structure Sound (s : Sys N I T) (h : Drain.History ChanPtr (Sent N I T)) : Prop where
  made : Made s
  outputs : Outputs s h
  coupled : Coupled s
  locked : Locked s
  rooms : Rooms s
  listed : Listed s

theorem Reachable.sound {cmds : T → List (Command N I)} (hr : Reachable cmds s) :
    ∃ h, Sound s h := by
  obtain ⟨h, hrec⟩ := hr.recorded
  exact ⟨h, hr.made, hrec.invariant.2.1, hr.coupled, hr.locked, hr.rooms, hr.listed⟩

theorem spot_own (r : Routine N I T) : r.spot r.book r.side = r.pc.own r.order.price := by
  unfold Routine.spot
  rw [if_pos rfl, if_pos rfl]

theorem Sound.full_of_mem (hsound : Sound s h) (hn : n ∈ (s.spots b sd g).locks) :
    (s.node b sd n).lock = true := by
  obtain ⟨xs, hok⟩ := hsound.coupled.chain b sd
  exact (hok.token n).full_of hn

theorem Sound.full_own (hsound : Sound s h) (hr : s.routine g = some r) (hpc : r.pc = p)
    (hn : n ∈ (p.own r.order.price).locks) : (s.node r.book r.side n).lock = true := by
  apply hsound.full_of_mem (g := g)
  rw [spots_routine hr, spot_own, hpc]
  exact hn

theorem Sound.full_opposite (hsound : Sound s h) (hr : s.routine g = some r) (hpc : r.pc = p)
    (hn : n ∈ p.opposite.locks) : (s.node r.book r.side.opp n).lock = true := by
  apply hsound.full_of_mem (g := g)
  rw [spots_routine hr, spot_opp, hpc]
  exact hn

theorem lock_setNext (next : Option NodePtr) (n' : NodePtr) :
    ((s.setNext b sd n next).node b sd n').lock = (s.node b sd n').lock := by
  unfold setNext
  by_cases h : n' = n
  · subst h
    rw [node_setNode_self]
  · rw [node_setNode_ne _ h]

/-- A goroutine has room for its message and its channel is open. -/
theorem Sound.send_some (hsound : Sound s h) (hr : s.routine g = some r) (hpc : r.pc = p)
    (hch : p.channel = some ch) (hdue : 0 < p.due (s.len r)) {cause : Cause N I T}
    {line : Line N I} : s.send ch cause line ≠ none := by
  intro hs
  subst hpc
  have hopen := (hsound.outputs.mem (.routine g) ch ((sender_routine hr rfl).trans hch)).2
  have hfull := send_eq_none hs hopen
  have htarget : r.pc.target = some ch := by
    unfold Pc.target
    rw [hch, Option.some_or]
  have hroom := hsound.rooms.routine g r hr ch htarget
  omega

/-! ## The goroutines -/

theorem unlock_some (hfull : (s.node b sd n).lock = true) (hs : s.unlock b sd n = none) : False := by
  rw [unlock_eq_none hs] at hfull
  cases hfull

theorem Awaits.own (hpc : r.pc = p) (hw : p.walks = true) {σ : Spot UInt32}
    (haway : p.own r.order.price ≠ .away)
    (ht : Take (s.store r.book r.side) (p.own r.order.price) n σ)
    (hs : s.lock r.book r.side n = none) : Awaits s r := by
  subst hpc
  rw [← spot_own] at haway ht
  exact .node r.side n hw haway ⟨σ, ht⟩ (lock_eq_none hs)

theorem Awaits.opposite (hpc : r.pc = p) (hw : p.walks = true) {σ : Spot UInt32}
    (haway : p.opposite ≠ .away) (ht : Take (s.store r.book r.side.opp) p.opposite n σ)
    (hs : s.lock r.book r.side.opp n = none) : Awaits s r := by
  subst hpc
  rw [← spot_opp] at haway ht
  exact .node r.side.opp n hw haway ⟨σ, ht⟩ (lock_eq_none hs)

theorem Sound.waits_processActiveOrder (hsound : Sound s h) (hr : s.routine g = some r)
    (hpc : r.pc = p) (hf : p.func = .processActiveOrder)
    (hs : s.processActiveOrder g r p = none) : Awaits s r := by
  cases p with
  | lockSgl => exact .sgl hpc (lockSgl_eq_none (Option.map_eq_none_iff.mp hs))
  | lockMatchHead =>
    refine .head r.side.opp ?_ (lock_eq_none (Option.map_eq_none_iff.mp hs))
    rw [hpc]
    rfl
  | matchAt v shouldPopPrev curr =>
    cases curr with
    | none => cases hs
    | some curr =>
      have htake : (Pc.matchAt (I := I) v shouldPopPrev (some curr)).opposite ≠ .away ∧
          ∃ σ, Take (s.store r.book r.side.opp)
            (Pc.matchAt (I := I) v shouldPopPrev (some curr)).opposite curr σ := by
        rw [opposite_matchAt]
        split
        · exact ⟨(by intro h; cases h), _, Take.stop curr⟩
        · exact ⟨(by intro h; cases h), _, Take.visit shouldPopPrev curr⟩
      obtain ⟨haway, σ, ht⟩ := htake
      exact .opposite hpc rfl haway ht (Option.map_eq_none_iff.mp hs)
  | matchTest v shouldPopPrev curr =>
    simp only [Sys.processActiveOrder] at hs
    have hmem : curr ∈ (Pc.matchTest (I := I) v shouldPopPrev curr).opposite.locks := by
      rw [opposite_matchTest]
      split
      · exact List.mem_cons_of_mem 0 (List.mem_singleton_self curr)
      · exact List.mem_cons_of_mem 0 (List.mem_singleton_self curr)
    have hfull := hsound.full_opposite hr hpc hmem
    split at hs
    · refine (unlock_some ?_ (Option.map_eq_none_iff.mp hs)).elim
      split
      · exact (lock_setNext _ curr).trans hfull
      · exact hfull
    · cases hs
  | matchQueue v curr ch =>
    exact .queue (by rw [hpc]; exact Option.some_ne_none ch)
      (queue_eq_none (Option.map_eq_none_iff.mp hs))
  | matchNext v shouldPopPrev curr => cases hs
  | matchEnd v =>
    have hfull := hsound.full_opposite hr hpc (List.mem_singleton_self 0)
    exact (unlock_some hfull (Option.map_eq_none_iff.mp hs)).elim
  | lockAddHead v =>
    refine .head r.side ?_ (lock_eq_none (Option.map_eq_none_iff.mp hs))
    rw [hpc]
    rfl
  | lockOrders v => exact .orders v hpc (lockOrders_eq_none (Option.map_eq_none_iff.mp hs))
  | setOrder v => cases hs
  | unlockOrders =>
    have hfull := hsound.locked.orders.full_of (hasOrders_routine hr hpc)
    rw [unlockOrders_eq_none (Option.map_eq_none_iff.mp hs)] at hfull
    cases hfull
  | addQueue =>
    exact .queue (by rw [hpc]; exact Option.some_ne_none s.nextChan)
      (queue_eq_none (s := s.makeChan 1) (Option.map_eq_none_iff.mp hs))
  | unlockSgl =>
    have hhas : s.hasSgl r.book g = true := by
      rw [hasSgl_routine hr hpc, decide_eq_true rfl]
      rfl
    have hfull := (hsound.locked.sgl r.book).full_of hhas
    rw [unlockSgl_eq_none (Option.map_eq_none_iff.mp hs)] at hfull
    cases hfull
  | _ => cases hf

/-- `executeOrder` never waits. -/
theorem Sound.executeOrder_some (hsound : Sound s h) (hr : s.routine g = some r) (hpc : r.pc = p)
    (hf : p.func = .executeOrder) (hs : s.executeOrder g r p = none) : False := by
  cases p with
  | exec countLeftToMatch node ch =>
    simp only [Sys.executeOrder] at hs
    split at hs
    · cases hs
    · split at hs
      · cases hs
      · split at hs <;> cases hs
  | execRemove restingId line countLeftToMatch node ch => cases hs
  | execSend line countLeftToMatch node ch =>
    exact hsound.send_some hr hpc rfl (Nat.succ_pos _) (Option.map_eq_none_iff.mp hs)
  | execUnlock node =>
    have hfull := hsound.full_opposite hr hpc (List.mem_singleton_self node)
    exact unlock_some hfull (Option.map_eq_none_iff.mp hs)
  | _ => cases hf

theorem Sound.waits_addOrder (hsound : Sound s h) (hr : s.routine g = some r) (hpc : r.pc = p)
    (hf : p.func = .addOrder) (hs : s.addOrder g r p = none) : Awaits s r := by
  cases p with
  | addFirst ch => cases hs
  | addWalk curr next ch =>
    cases next with
    | none => cases hs
    | some next =>
      exact .own hpc rfl (by intro h; cases h) (Take.walk r.order.price curr next)
        (Option.map_eq_none_iff.mp hs)
  | addTest curr next ch =>
    have hfull := hsound.full_own hr hpc List.mem_cons_self
    have hfull' := hsound.full_own hr hpc (List.mem_cons_of_mem curr (List.mem_singleton_self next))
    simp only [Sys.addOrder] at hs
    split at hs
    · exact (unlock_some hfull' (Option.map_eq_none_iff.mp hs)).elim
    · split at hs
      · exact (unlock_some hfull (Option.map_eq_none_iff.mp hs)).elim
      · exact (unlock_some hfull (Option.map_eq_none_iff.mp hs)).elim
  | addPlace curr ch =>
    simp only [Sys.addOrder] at hs
    split at hs <;> cases hs
  | addLinked prev curr ch =>
    have hfull := hsound.full_own hr hpc List.mem_cons_self
    exact (unlock_some hfull (Option.map_eq_none_iff.mp hs)).elim
  | addAppend curr ch => cases hs
  | addSend curr ch =>
    exact (hsound.send_some hr hpc rfl Nat.one_pos (Option.map_eq_none_iff.mp hs)).elim
  | addClose curr ch => cases hs
  | addUnlock curr =>
    have hfull := hsound.full_own hr hpc (List.mem_singleton_self curr)
    exact (unlock_some hfull (Option.map_eq_none_iff.mp hs)).elim
  | _ => cases hf

theorem Sound.waits_processCancelOrder (hsound : Sound s h) (hr : s.routine g = some r)
    (hpc : r.pc = p) (hf : p.func = .processCancelOrder)
    (hs : s.processCancelOrder g r p = none) : Awaits s r := by
  cases p with
  | lockHead =>
    refine .head r.side ?_ (lock_eq_none (Option.map_eq_none_iff.mp hs))
    rw [hpc]
    rfl
  | cancelQueue =>
    exact .queue (by rw [hpc]; exact Option.some_ne_none s.nextChan)
      (queue_eq_none (s := s.makeChan 1) (Option.map_eq_none_iff.mp hs))
  | cancelFirst ch =>
    simp only [Sys.processCancelOrder] at hs
    split at hs
    · cases hs
    next curr hnext =>
      exact .own hpc rfl (by intro h; cases h) (Take.start curr hnext) (Option.map_eq_none_iff.mp hs)
  | cancelAt prev curr ch =>
    have hfull := hsound.full_own hr hpc List.mem_cons_self
    cases curr with
    | none => exact (unlock_some hfull (Option.map_eq_none_iff.mp hs)).elim
    | some curr =>
      simp only [Sys.processCancelOrder] at hs
      split at hs
      · split at hs
        · exact (unlock_some hfull (Option.map_eq_none_iff.mp hs)).elim
        next next hnext =>
          exact .own hpc rfl (by intro h; cases h) (Take.seek prev curr next hnext)
            (Option.map_eq_none_iff.mp hs)
      · split at hs
        · exact (unlock_some hfull (Option.map_eq_none_iff.mp hs)).elim
        · cases hs
  | cancelOn prev curr next ch =>
    have hfull := hsound.full_own hr hpc List.mem_cons_self
    exact (unlock_some hfull (Option.map_eq_none_iff.mp hs)).elim
  | cancelRemove prev curr ch => cases hs
  | cancelUnlink prev curr ch =>
    have hfull := hsound.full_own hr hpc List.mem_cons_self
    refine (unlock_some ?_ (Option.map_eq_none_iff.mp hs)).elim
    split
    · exact (lock_setNext _ prev).trans hfull
    · exact hfull
  | cancelUnlock curr accepted ch =>
    have hfull := hsound.full_own hr hpc (List.mem_singleton_self curr)
    exact (unlock_some hfull (Option.map_eq_none_iff.mp hs)).elim
  | cancelSend accepted ch =>
    exact (hsound.send_some hr hpc rfl Nat.one_pos (Option.map_eq_none_iff.mp hs)).elim
  | cancelClose ch => cases hs
  | _ => cases hf

theorem routineStep_eq (s : Sys N I T) (g : ℕ) (r : Routine N I T) :
    s.routineStep g r = match r.pc.func with
      | .processActiveOrder => s.processActiveOrder g r r.pc
      | .executeOrder => s.executeOrder g r r.pc
      | .addOrder => s.addOrder g r r.pc
      | .processCancelOrder => s.processCancelOrder g r r.pc := by
  unfold routineStep
  generalize r.pc = p
  cases p <;> rfl

/-- A goroutine that cannot go on waits for a lock or for room in `outputChannels`. -/
theorem Sound.awaits (hsound : Sound s h) (hr : s.routine g = some r)
    (hs : s.routineStep g r = none) : Awaits s r := by
  rw [routineStep_eq] at hs
  cases hf : r.pc.func with
  | processActiveOrder =>
    rw [hf] at hs
    exact hsound.waits_processActiveOrder hr rfl hf hs
  | executeOrder =>
    rw [hf] at hs
    exact (hsound.executeOrder_some hr rfl hf hs).elim
  | addOrder =>
    rw [hf] at hs
    exact hsound.waits_addOrder hr rfl hf hs
  | processCancelOrder =>
    rw [hf] at hs
    exact hsound.waits_processCancelOrder hr rfl hf hs

/-- A connection waits for `ordersLock` or for room in a queue, or has nothing more to do. -/
theorem Sound.conn_awaits (hsound : Sound s h) (hs : s.handleConn t = none) : ConnAwaits s t := by
  unfold Sys.handleConn at hs
  cases hpc : (s.conn t).pc with
  | start =>
    rw [hpc] at hs
    cases hs
  | ready =>
    rw [hpc] at hs
    dsimp only at hs
    split at hs
    next hcmds => exact .finished hpc hcmds
    · split at hs <;> cases hs
  | getBook c o =>
    rw [hpc] at hs
    dsimp only at hs
    split at hs <;> cases hs
  | setBook c o b =>
    rw [hpc] at hs
    cases hs
  | getAgain c o =>
    rw [hpc] at hs
    dsimp only at hs
    split at hs
    · cases hs
    next hnone =>
      have hlists := hsound.listed.conn t o (by rw [hpc]; rfl)
      exact absurd hnone hlists
  | send b event =>
    rw [hpc] at hs
    exact .send b event hpc (sendEvent_eq_none (Option.map_eq_none_iff.mp hs))
  | lockOrders c orderId =>
    rw [hpc] at hs
    exact .orders c orderId hpc (lockOrders_eq_none (Option.map_eq_none_iff.mp hs))
  | getOrder c orderId =>
    rw [hpc] at hs
    dsimp only at hs
    split at hs <;> cases hs
  | missQueue c orderId =>
    rw [hpc] at hs
    exact .queue (by rw [hpc]; exact Option.some_ne_none s.nextChan)
      (queue_eq_none (s := s.makeChan 1) (Option.map_eq_none_iff.mp hs))
  | missUnlock c orderId ch =>
    rw [hpc] at hs
    have hfull := hsound.locked.orders.full_of (hasOrders_conn hpc)
    rw [unlockOrders_eq_none (Option.map_eq_none_iff.mp hs)] at hfull
    cases hfull
  | foundUnlock c orderId o =>
    rw [hpc] at hs
    have hfull := hsound.locked.orders.full_of (hasOrders_conn hpc)
    rw [unlockOrders_eq_none (Option.map_eq_none_iff.mp hs)] at hfull
    cases hfull
  | foreignQueue c orderId =>
    rw [hpc] at hs
    exact .queue (by rw [hpc]; exact Option.some_ne_none s.nextChan)
      (queue_eq_none (s := s.makeChan 1) (Option.map_eq_none_iff.mp hs))
  | getBookOf c o =>
    rw [hpc] at hs
    dsimp only at hs
    split at hs
    · cases hs
    next hnone =>
      have hlists := hsound.listed.conn t o (by rw [hpc]; rfl)
      exact absurd hnone hlists
  | reject c orderId ch =>
    rw [hpc] at hs
    have hch : (s.conn t).pc.channel = some ch := by
      rw [hpc]
      rfl
    have hopen := (hsound.outputs.mem (.conn t) ch hch).2
    have hfull := send_eq_none (Option.map_eq_none_iff.mp hs) hopen
    have hroom := hsound.rooms.conn t ch hch
    rw [hpc] at hroom
    exact absurd hfull (not_le.mpr hroom)
  | close ch =>
    rw [hpc] at hs
    cases hs

/-! ## Nobody can go on -/

/-- Nobody can make a step. -/
def Stuck (s : Sys N I T) : Prop := ∀ a, s.step a = none

/-- Every command has been worked off and everything printed. -/
structure Finished (s : Sys N I T) : Prop where
  conn : ∀ t, (s.conn t).pc = .ready ∧ (s.conn t).cmds = []
  event : ∀ b, (s.book b).ordersChn = []
  routine : ∀ g, s.routine g = none
  printing : s.printing = none
  outputChannels : s.outputChannels = []

/-- Every lock is free. -/
structure Unlocks (s : Sys N I T) : Prop where
  node : ∀ b sd n, (s.node b sd n).lock = false
  sgl : ∀ b, (s.book b).sgl = false
  ordersLock : s.ordersLock = false

theorem step_routine (hr : s.routine g = some r) : s.step (.routine g) = s.routineStep g r := by
  unfold Sys.step
  dsimp only
  rw [hr]

theorem Stuck.awaits (hstuck : Stuck s) (hsound : Sound s h) (hr : s.routine g = some r) :
    Awaits s r :=
  hsound.awaits hr ((step_routine hr).symm.trans (hstuck (.routine g)))

theorem Stuck.conn_awaits (hstuck : Stuck s) (hsound : Sound s h) (t : T) : ConnAwaits s t :=
  hsound.conn_awaits (hstuck (.conn t))

theorem own_or_opposite (p : Pc N I) (price : UInt32) : p.own price = .away ∨ p.opposite = .away := by
  cases p <;> first | exact Or.inl rfl | exact Or.inr rfl

/-- A goroutine is in one chain at most. -/
theorem spot_cases (hspot : r.spot b sd ≠ .away) :
    r.book = b ∧ (r.side = sd ∧ r.spot b sd = r.pc.own r.order.price ∨
      r.side.opp = sd ∧ r.spot b sd = r.pc.opposite) := by
  by_cases hb : r.book = b
  · subst hb
    refine ⟨rfl, ?_⟩
    rcases PriceTime.Side.eq_or_eq_opp r.side sd with rfl | rfl
    · exact Or.inl ⟨rfl, spot_own r⟩
    · exact Or.inr ⟨rfl, spot_opp r⟩
  · unfold Routine.spot at hspot
    rw [if_neg hb] at hspot
    exact absurd rfl hspot

theorem spot_unique {b' : OrderBookPtr} {sd' : Side} (hspot : r.spot b sd ≠ .away)
    (hspot' : r.spot b' sd' ≠ .away) : b' = b ∧ sd' = sd := by
  obtain ⟨hb, hsd⟩ := spot_cases hspot
  obtain ⟨hb', hsd'⟩ := spot_cases hspot'
  refine ⟨hb'.symm.trans hb, ?_⟩
  rcases hsd with ⟨hsd, heq⟩ | ⟨hsd, heq⟩
  · rcases hsd' with ⟨hsd', heq'⟩ | ⟨hsd', heq'⟩
    · exact hsd'.symm.trans hsd
    · rcases own_or_opposite r.pc r.order.price with h | h
      · exact absurd (heq.trans h) hspot
      · exact absurd (heq'.trans h) hspot'
  · rcases hsd' with ⟨hsd', heq'⟩ | ⟨hsd', heq'⟩
    · rcases own_or_opposite r.pc r.order.price with h | h
      · exact absurd (heq'.trans h) hspot'
      · exact absurd (heq.trans h) hspot
    · exact hsd'.symm.trans hsd

/-- Whoever has locked a node behind the head and has not come to the front to match it waits for the
    next node, if at all. -/
theorem Awaits.next {m : NodePtr} (hw : Awaits s r) (hm : m ∈ (r.spot b sd).locks) (hm0 : m ≠ 0)
    (hfill : ∀ c, r.spot b sd ≠ .fill c) :
    r.pc.walks = true ∧ ∃ n σ, Take (s.store b sd) (r.spot b sd) n σ ∧
      (s.node b sd n).lock = true := by
  have haway : r.spot b sd ≠ .away := by
    intro haway
    rw [haway] at hm
    cases hm
  have hnone : ∀ p, r.pc = p → (∀ k, p.own k = .away) → p.opposite = .away → False := by
    rintro p rfl hown hopp
    exact haway (spot_of_away (hown _) hopp)
  have hhead : ∀ p, r.pc = p → (∀ k, p.own k = .head) → p.opposite = .away → False := by
    rintro p rfl hown hopp
    rcases (spot_cases haway).2 with ⟨-, heq⟩ | ⟨-, heq⟩
    · rw [heq, hown] at hm
      exact hm0 (List.mem_singleton.mp hm)
    · exact haway (heq.trans hopp)
  cases hw with
  | sgl hpc hlock => exact (hnone _ hpc (fun _ => rfl) rfl).elim
  | orders v hpc hlock => exact (hhead _ hpc (fun _ => rfl) rfl).elim
  | queue hqueues hfull =>
    cases hpc : r.pc with
    | matchQueue v curr ch =>
      rcases (spot_cases haway).2 with ⟨-, heq⟩ | ⟨-, heq⟩
      · rw [hpc] at heq
        exact absurd heq haway
      · rw [hpc] at heq
        exact absurd heq (hfill curr)
    | addQueue => exact (hhead _ hpc (fun _ => rfl) rfl).elim
    | cancelQueue => exact (hhead _ hpc (fun _ => rfl) rfl).elim
    | _ =>
      rw [hpc] at hqueues
      exact absurd rfl hqueues
  | head sd' hcomes hlock =>
    cases hpc : r.pc with
    | lockMatchHead => exact (hnone _ hpc (fun _ => rfl) rfl).elim
    | lockAddHead v => exact (hnone _ hpc (fun _ => rfl) rfl).elim
    | lockHead => exact (hnone _ hpc (fun _ => rfl) rfl).elim
    | _ =>
      rw [hpc] at hcomes
      cases hcomes
  | node sd' n hwalks haway' ht hlock =>
    obtain ⟨rfl, rfl⟩ := spot_unique haway haway'
    obtain ⟨σ, ht⟩ := ht
    exact ⟨hwalks, n, σ, ht, hlock⟩

theorem exists_routine {σ : Spot UInt32} (hspot : s.spots b sd g = σ) (hσ : σ ≠ .away) :
    ∃ r, s.routine g = some r ∧ r.spot b sd = σ := by
  subst hspot
  cases hr : s.routine g with
  | none =>
    unfold spots at hσ
    rw [hr] at hσ
    exact absurd rfl hσ
  | some r => exact ⟨r, rfl, (spots_routine hr).symm⟩

/-- Of the goroutines that go down a chain one can go on. -/
theorem Stuck.not_node (hstuck : Stuck s) (hsound : Sound s h) (hr : s.routine g = some r)
    (haway : r.spot b sd ≠ .away) {σ : Spot UInt32} (ht : Take (s.store b sd) (r.spot b sd) n σ)
    (hlock : (s.node b sd n).lock = true) : False := by
  obtain ⟨xs, hok⟩ := hsound.coupled.chain b sd
  rw [← spots_routine hr] at ht haway
  obtain ⟨u, m, hm, hm0, hfill, hfree⟩ := hok.exists_free ht haway hlock
  have hu : s.spots b sd u ≠ .away := by
    intro hu
    rw [hu] at hm
    cases hm
  obtain ⟨q, hq, hspot⟩ := exists_routine rfl hu
  rw [← hspot] at hm hfill hfree
  obtain ⟨-, n', σ', ht', hlock'⟩ := (hstuck.awaits hsound hq).next hm hm0 hfill
  have hfree' := hfree n' σ' ht'
  change (s.node b sd n').lock = false at hfree'
  rw [hfree'] at hlock'
  cases hlock'

theorem printOutputChnl_eq_none (hs : s.printOutputChnl = none) :
    s.printing = none ∧ s.outputChannels = [] ∨
      ∃ ch, s.printing = some ch ∧ (s.chan ch).closed = false := by
  unfold printOutputChnl at hs
  split at hs
  next hprinting =>
    split at hs
    next hwaiting => exact Or.inl ⟨hprinting, hwaiting⟩
    · cases hs
  next ch hprinting =>
    dsimp only at hs
    split at hs
    · cases hs
    · split at hs
      · cases hs
      next hopen => exact Or.inr ⟨ch, hprinting, Bool.not_eq_true _ ▸ hopen⟩

/-- A goroutine that has a channel to send on waits for the next node, if at all. -/
theorem Awaits.of_channel (hw : Awaits s r) (hch : r.pc.channel = some ch) :
    ∃ sd n σ, r.spot r.book sd ≠ .away ∧ Take (s.store r.book sd) (r.spot r.book sd) n σ ∧
      (s.node r.book sd n).lock = true := by
  cases hw with
  | sgl hpc hlock =>
    rw [hpc] at hch
    cases hch
  | orders v hpc hlock =>
    rw [hpc] at hch
    cases hch
  | queue hqueues hfull =>
    cases hpc : r.pc with
    | matchQueue v curr ch' =>
      rw [hpc] at hch
      cases hch
    | addQueue =>
      rw [hpc] at hch
      cases hch
    | cancelQueue =>
      rw [hpc] at hch
      cases hch
    | _ =>
      rw [hpc] at hqueues
      exact absurd rfl hqueues
  | head sd hcomes hlock =>
    cases hpc : r.pc with
    | lockMatchHead =>
      rw [hpc] at hch
      cases hch
    | lockAddHead v =>
      rw [hpc] at hch
      cases hch
    | lockHead =>
      rw [hpc] at hch
      cases hch
    | _ =>
      rw [hpc] at hcomes
      cases hcomes
  | node sd n hwalks haway ht hlock =>
    obtain ⟨σ, ht⟩ := ht
    exact ⟨sd, n, σ, haway, ht, hlock⟩

theorem ConnAwaits.no_channel (hw : ConnAwaits s t) : (s.conn t).pc.channel = none := by
  cases hw with
  | finished hpc hcmds => rw [hpc]; rfl
  | orders c orderId hpc hlock => rw [hpc]; rfl
  | queue hqueues hfull =>
    cases hpc : (s.conn t).pc with
    | missQueue c orderId => rfl
    | foreignQueue c orderId => rfl
    | _ =>
      rw [hpc] at hqueues
      exact absurd rfl hqueues
  | send b event hpc hfull => rw [hpc]; rfl

/-- Nothing is in front of the printer: the one that is to send to it could go on. -/
theorem Stuck.idle (hstuck : Stuck s) (hsound : Sound s h) :
    s.printing = none ∧ s.outputChannels = [] := by
  rcases printOutputChnl_eq_none (hstuck .printer) with hidle | ⟨ch, hprinting, hopen⟩
  · exact hidle
  · exfalso
    have hmem : ch ∈ s.drain.ahead := by
      unfold Drain.ahead
      apply List.mem_append_left
      show ch ∈ s.printing.toList
      rw [hprinting]
      exact List.mem_singleton_self ch
    obtain ⟨a, ha⟩ := hsound.outputs.exists_sender ch hmem hopen
    cases a with
    | conn t =>
      have hnone := (hstuck.conn_awaits hsound t).no_channel
      cases hnone.symm.trans ha
    | routine g =>
      obtain ⟨r, hr, hch⟩ := Option.bind_eq_some_iff.mp ha
      obtain ⟨sd, n, σ, haway, ht, hlock⟩ := (hstuck.awaits hsound hr).of_channel hch
      exact hstuck.not_node hsound hr haway ht hlock
    | dispatcher b => cases ha
    | printer => cases ha

/-- With nothing to print nobody has `ordersLock`. -/
theorem Stuck.ordersLock (hstuck : Stuck s) (hsound : Sound s h) : s.ordersLock = false := by
  obtain ⟨-, hempty⟩ := hstuck.idle hsound
  have hroom : ¬ 100 ≤ s.outputChannels.length := by
    rw [hempty]
    decide
  by_contra hlock
  obtain ⟨x, hx⟩ := hsound.locked.orders.full_iff.mp (Bool.not_eq_false _ ▸ hlock)
  cases x with
  | conn t =>
    change (s.conn t).pc.hasOrders = true at hx
    cases hstuck.conn_awaits hsound t with
    | finished hpc hcmds =>
      rw [hpc] at hx
      cases hx
    | orders c orderId hpc hlock =>
      rw [hpc] at hx
      cases hx
    | queue hqueues hfull => exact hroom hfull
    | send b event hpc hfull =>
      rw [hpc] at hx
      cases hx
  | routine g =>
    change ((s.routine g).elim false fun r => r.pc.hasOrders) = true at hx
    cases hr : s.routine g with
    | none =>
      rw [hr] at hx
      cases hx
    | some r =>
      rw [hr, Option.elim_some] at hx
      cases hstuck.awaits hsound hr with
      | sgl hpc hlock =>
        rw [hpc] at hx
        cases hx
      | orders v hpc hlock =>
        rw [hpc] at hx
        cases hx
      | queue hqueues hfull => exact hroom hfull
      | head sd hcomes hlock =>
        cases hpc : r.pc with
        | setOrder v =>
          rw [hpc] at hcomes
          cases hcomes
        | unlockOrders =>
          rw [hpc] at hcomes
          cases hcomes
        | _ =>
          rw [hpc] at hx
          cases hx
      | node sd n hwalks haway ht hlock =>
        obtain ⟨σ, ht⟩ := ht
        exact hstuck.not_node hsound hr haway ht hlock
  | dispatcher b => cases hx
  | printer => cases hx

theorem Stuck.waits_sgl_or_head (hstuck : Stuck s) (hsound : Sound s h) (hr : s.routine g = some r) :
    r.pc = .lockSgl ∧ s.sgl r.book = true ∨
      ∃ sd, r.pc.comes r.side = some sd ∧ (s.node r.book sd 0).lock = true := by
  cases hstuck.awaits hsound hr with
  | sgl hpc hlock => exact Or.inl ⟨hpc, hlock⟩
  | orders v hpc hlock =>
    rw [hstuck.ordersLock hsound] at hlock
    cases hlock
  | queue hqueues hfull =>
    rw [(hstuck.idle hsound).2] at hfull
    exact absurd hfull (by decide)
  | head sd hcomes hlock => exact Or.inr ⟨sd, hcomes, hlock⟩
  | node sd n hwalks haway ht hlock =>
    obtain ⟨σ, ht⟩ := ht
    exact (hstuck.not_node hsound hr haway ht hlock).elim

theorem away_of_comes {sd' : Side} (hcomes : r.pc.comes r.side = some sd') : r.spot b sd = .away := by
  cases hpc : r.pc with
  | lockMatchHead => exact spot_of_away (by rw [hpc]; rfl) (by rw [hpc]; rfl)
  | lockAddHead v => exact spot_of_away (by rw [hpc]; rfl) (by rw [hpc]; rfl)
  | lockHead => exact spot_of_away (by rw [hpc]; rfl) (by rw [hpc]; rfl)
  | _ =>
    rw [hpc] at hcomes
    cases hcomes

/-- Then nobody has locked a node. -/
theorem Stuck.node_free (hstuck : Stuck s) (hsound : Sound s h) (b : OrderBookPtr) (sd : Side)
    (n : NodePtr) : (s.node b sd n).lock = false := by
  obtain ⟨xs, hok⟩ := hsound.coupled.chain b sd
  by_contra hlock
  obtain ⟨g, hg⟩ := (hok.token n).full_iff.mp (Bool.not_eq_false _ ▸ hlock)
  have haway : s.spots b sd g ≠ .away := by
    intro haway
    rw [haway] at hg
    cases hg
  obtain ⟨r, hr, hspot⟩ := exists_routine rfl haway
  rw [← hspot] at haway
  rcases hstuck.waits_sgl_or_head hsound hr with ⟨hpc, -⟩ | ⟨sd', hcomes, -⟩
  · exact haway (spot_of_away (by rw [hpc]; rfl) (by rw [hpc]; rfl))
  · exact haway (away_of_comes hcomes)

/-- Nor is there a goroutine left. -/
theorem Stuck.no_routine (hstuck : Stuck s) (hsound : Sound s h) (g : ℕ) : s.routine g = none := by
  have hsgl : ∀ b, s.sgl b = false := by
    intro b
    by_contra hlock
    obtain ⟨g, hg⟩ := (hsound.locked.sgl b).full_iff.mp (Bool.not_eq_false _ ▸ hlock)
    cases hr : s.routine g with
    | none =>
      unfold hasSgl at hg
      rw [hr] at hg
      cases hg
    | some r =>
      rw [hasSgl_routine hr rfl] at hg
      have hhas := (Bool.and_eq_true_iff.mp hg).2
      rcases hstuck.waits_sgl_or_head hsound hr with ⟨hpc, -⟩ | ⟨sd, -, hlock'⟩
      · rw [hpc] at hhas
        cases hhas
      · rw [hstuck.node_free hsound] at hlock'
        cases hlock'
  cases hr : s.routine g with
  | none => rfl
  | some r =>
    rcases hstuck.waits_sgl_or_head hsound hr with ⟨-, hlock⟩ | ⟨sd, -, hlock⟩
    · rw [hsgl] at hlock
      cases hlock
    · rw [hstuck.node_free hsound] at hlock
      cases hlock

theorem dispatch_eq_none (hs : s.dispatch b = none) : (s.book b).ordersChn = [] := by
  unfold dispatch at hs
  split at hs
  · assumption
  · cases hs

theorem Stuck.finished (hstuck : Stuck s) (hsound : Sound s h) : Finished s := by
  have hevent : ∀ b, (s.book b).ordersChn = [] := fun b => dispatch_eq_none (hstuck (.dispatcher b))
  obtain ⟨hprinting, hempty⟩ := hstuck.idle hsound
  refine ⟨?_, hevent, hstuck.no_routine hsound, hprinting, hempty⟩
  intro t
  cases hstuck.conn_awaits hsound t with
  | finished hpc hcmds => exact ⟨hpc, hcmds⟩
  | orders c orderId hpc hlock =>
    rw [hstuck.ordersLock hsound] at hlock
    cases hlock
  | queue hqueues hfull =>
    rw [hempty] at hfull
    exact absurd hfull (by decide)
  | send b event hpc hfull =>
    rw [hevent] at hfull
    exact absurd hfull (Nat.not_succ_le_zero 19)

theorem Finished.unlocks (hf : Finished s) (hsound : Sound s h) : Unlocks s where
  node := by
    intro b sd n
    obtain ⟨xs, hok⟩ := hsound.coupled.chain b sd
    by_contra hlock
    obtain ⟨g, hg⟩ := (hok.token n).full_iff.mp (Bool.not_eq_false _ ▸ hlock)
    unfold spots at hg
    rw [hf.routine g] at hg
    cases hg
  sgl := by
    intro b
    by_contra hlock
    obtain ⟨g, hg⟩ := (hsound.locked.sgl b).full_iff.mp (Bool.not_eq_false _ ▸ hlock)
    unfold hasSgl at hg
    rw [hf.routine g] at hg
    cases hg
  ordersLock := by
    by_contra hlock
    obtain ⟨x, hx⟩ := hsound.locked.orders.full_iff.mp (Bool.not_eq_false _ ▸ hlock)
    cases x with
    | conn t =>
      change (s.conn t).pc.hasOrders = true at hx
      rw [(hf.conn t).1] at hx
      cases hx
    | routine g =>
      change ((s.routine g).elim false fun r => r.pc.hasOrders) = true at hx
      rw [hf.routine g] at hx
      cases hx
    | dispatcher b => cases hx
    | printer => cases hx

variable {cmds : T → List (Command N I)}

/-- As long as there is a command to work off or a line to print, somebody can make a step; and when
    there is none, every lock is free. -/
theorem never_stuck (hr : Reachable cmds s) :
    (¬ Finished s → ∃ a s', s.step a = some s') ∧ (Finished s → Unlocks s) := by
  obtain ⟨h, hsound⟩ := hr.sound
  refine ⟨?_, fun hf => hf.unlocks hsound⟩
  intro hunfinished
  by_contra hnone
  have hstuck : Stuck s := by
    intro a
    by_contra hs
    obtain ⟨s', hs'⟩ := Option.ne_none_iff_exists'.mp hs
    exact hnone ⟨a, s', hs'⟩
  exact hunfinished (hstuck.finished hsound)

theorem never_stuck_atSgl : ∃ a s', ((Sys.init sameBook).run atSgl).step a = some s' := by
  have hinit : Reachable sameBook (Sys.init sameBook) := Reachable.init
  refine (never_stuck (hinit.run atSgl)).1 ?_
  intro hf
  have hsome : (((Sys.init sameBook).run atSgl).routine 1).isSome = true := by decide +kernel
  rw [hf.routine 1] at hsome
  cases hsome

/-- What a goroutine or a connection that cannot go on waits for. -/
theorem waits_of_none (hr : Reachable cmds s) :
    (∀ g r, s.routine g = some r → s.step (.routine g) = none → Awaits s r) ∧
      ∀ t, s.step (.conn t) = none → ConnAwaits s t := by
  obtain ⟨h, hsound⟩ := hr.sound
  constructor
  · intro g r hg hs
    exact hsound.awaits hg ((step_routine hg).symm.trans hs)
  · intro t hs
    exact hsound.conn_awaits hs

theorem waits_of_none_atSgl : ∃ r, ((Sys.init sameBook).run atSgl).routine 1 = some r ∧
    r.pc = .lockSgl ∧ Awaits ((Sys.init sameBook).run atSgl) r := by
  have hinit : Reachable sameBook (Sys.init sameBook) := Reachable.init
  have hpc : (((Sys.init sameBook).run atSgl).routine 1).map Routine.pc = some .lockSgl := by
    decide +kernel
  have hnone : (((Sys.init sameBook).run atSgl).step (.routine 1)).isNone = true := by decide +kernel
  obtain ⟨r, hr, hr'⟩ := Option.map_eq_some_iff.mp hpc
  exact ⟨r, hr, hr', (waits_of_none (hinit.run atSgl)).1 1 r hr (Option.isNone_iff_eq_none.mp hnone)⟩

end Sys

end MatchingEngine.Go
