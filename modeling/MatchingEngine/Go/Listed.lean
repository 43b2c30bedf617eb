import MatchingEngine.Go.Passing

/-!
# The books of the orders

The instrument of an order has its book in `orderbooks` before the order gets to a book, so `Get` finds
one whenever `handleConn` asserts that it does.
-/

set_option linter.unusedSectionVars false

namespace MatchingEngine.Go

variable {N I T : Type} [Quantity N] [DecidableEq I] [DecidableEq T]

/-- The order of a connection, once its instrument has a book. -/
def ConnPc.listed : ConnPc N I T → Option (Order N I (RId T))
  | .getAgain _ o | .foundUnlock _ _ o | .getBookOf _ o => some o
  | .send _ event => some event.order
  | _ => none

namespace Sys

/-- The instrument has a book. -/
def Lists (s : Sys N I T) (i : I) : Prop := s.orderbooks i ≠ none

structure Listed (s : Sys N I T) : Prop where
  conn : ∀ t o, (s.conn t).pc.listed = some o → s.Lists o.instrument
  event : ∀ b, ∀ event ∈ (s.book b).ordersChn, s.Lists event.order.instrument
  routine : ∀ g r, s.routine g = some r → s.Lists r.order.instrument
  orders : ∀ orderId o, s.orders orderId = some o → s.Lists o.instrument

variable {s s₁ s₂ s' : Sys N I T} {a : Actor T} {t u : T} {g : ℕ} {r r' : Routine N I T}
  {b : OrderBookPtr} {sd : Side} {n : NodePtr} {p pc : Pc N I} {i : I}

theorem set_eq {K V : Type} [DecidableEq K] (m : ConcurrentHashMap K V) (key : K) (value : V) :
    m.set key value = m ∨ m key = none ∧ m.set key value = Function.update m key (some value) := by
  unfold ConcurrentHashMap.set
  cases h : m key with
  | none => exact Or.inr ⟨rfl, rfl⟩
  | some v => exact Or.inl rfl

/-- An entry stays. -/
theorem get_set_of_ne (m : ConcurrentHashMap I OrderBookPtr) {i j : I} (b : OrderBookPtr)
    (h : m i ≠ none) : m.set j b i ≠ none := by
  rcases set_eq m j b with heq | ⟨hj, heq⟩
  · rw [heq]
    exact h
  · have hne : i ≠ j := by
      rintro rfl
      exact h hj
    rw [heq, Function.update_of_ne hne]
    exact h

theorem get_set_self (m : ConcurrentHashMap I OrderBookPtr) (i : I) (b : OrderBookPtr) :
    m.set i b i ≠ none := by
  by_cases h : m i = none
  · unfold ConcurrentHashMap.set
    rw [h]
    dsimp only
    rw [Function.update_self]
    exact Option.some_ne_none b
  · exact get_set_of_ne m b h

/-! ## The step of a goroutine -/

/-- The orders of a goroutine and of those that it starts are for one instrument, and so is the order
    that it enters. -/
structure Instrument (s : Sys N I T) (r : Routine N I T) (s' : Sys N I T) : Prop where
  routine : ∀ g' r', s'.routine g' = some r' →
    s.routine g' = some r' ∨ r'.order.instrument = r.order.instrument
  orders : ∀ orderId o, s'.orders orderId = some o →
    s.orders orderId = some o ∨ o.instrument = r.order.instrument

theorem Instrument.goto (hr : r'.order.instrument = r.order.instrument)
    (hroutine : s₁.routine = s.routine)
    (horders : ∀ orderId o, s₁.orders orderId = some o →
      s.orders orderId = some o ∨ o.instrument = r.order.instrument) :
    Instrument s r (s₁.goto g r' pc) where
  routine := by
    intro g' x hx
    unfold Sys.goto at hx
    dsimp only at hx
    by_cases hg : g' = g
    · subst hg
      rw [Function.update_self] at hx
      cases hx
      exact Or.inr hr
    · rw [Function.update_of_ne hg, hroutine] at hx
      exact Or.inl hx
  orders := horders

theorem Instrument.still (hroutine : s₁.routine = s.routine) (horders : s₁.orders = s.orders) :
    Instrument s r (s₁.goto g r pc) := by
  refine .goto rfl hroutine ?_
  intro orderId o ho
  rw [horders] at ho
  exact Or.inl ho

theorem Instrument.done (h : Instrument s r (s₁.goto g r .unlockSgl)) : Instrument s r (s₁.done g) where
  routine := by
    intro g' x hx
    unfold Sys.done at hx
    dsimp only at hx
    by_cases hg : g' = g
    · subst hg
      rw [Function.update_self] at hx
      cases hx
    · rw [Function.update_of_ne hg] at hx
      apply h.routine g' x
      unfold Sys.goto
      dsimp only
      rw [Function.update_of_ne hg]
      exact hx
  orders := h.orders

theorem Instrument.spawn_goto (hr : r'.order.instrument = r.order.instrument)
    (hroutine : s₁.routine = s.routine) (horders : s₁.orders = s.orders) :
    Instrument s r ((s₁.spawn r').goto g r pc) where
  routine := by
    intro g' x hx
    unfold Sys.goto Sys.spawn at hx
    dsimp only at hx
    by_cases hg : g' = g
    · subst hg
      rw [Function.update_self] at hx
      cases hx
      exact Or.inr rfl
    · rw [Function.update_of_ne hg] at hx
      by_cases hnew : g' = s₁.nextRoutine
      · subst hnew
        rw [Function.update_self] at hx
        cases hx
        exact Or.inr hr
      · rw [Function.update_of_ne hnew, hroutine] at hx
        exact Or.inl hx
  orders := by
    intro orderId o ho
    unfold Sys.goto Sys.spawn at ho
    dsimp only at ho
    rw [horders] at ho
    exact Or.inl ho

theorem orders_lock (hs : s.lock b sd n = some s') : s'.orders = s.orders := by
  unfold lock at hs
  split at hs <;> cases hs
  rfl

theorem orders_unlock (hs : s.unlock b sd n = some s') : s'.orders = s.orders := by
  unfold unlock at hs
  split at hs <;> cases hs
  rfl

theorem orders_queue {ch : ChanPtr} (hs : s.queue ch = some s') : s'.orders = s.orders := by
  unfold queue at hs
  split at hs <;> cases hs
  rfl

theorem orders_send {ch : ChanPtr} {cause : Cause N I T} {line : Line N I}
    (hs : s.send ch cause line = some s') : s'.orders = s.orders := by
  unfold send at hs
  dsimp only at hs
  split at hs <;> cases hs
  rfl

theorem orders_lockSgl (hs : s.lockSgl b = some s') : s'.orders = s.orders := by
  unfold lockSgl at hs
  split at hs <;> cases hs
  rfl

theorem orders_unlockSgl (hs : s.unlockSgl b = some s') : s'.orders = s.orders := by
  unfold unlockSgl at hs
  split at hs <;> cases hs
  rfl

theorem orders_lockOrders (hs : s.lockOrders = some s') : s'.orders = s.orders := by
  unfold lockOrders at hs
  split at hs <;> cases hs
  rfl

theorem orders_unlockOrders (hs : s.unlockOrders = some s') : s'.orders = s.orders := by
  unfold unlockOrders at hs
  split at hs <;> cases hs
  rfl

theorem orders_sendEvent {event : Event N I T} (hs : s.sendEvent b event = some s') :
    s'.orders = s.orders := by
  unfold sendEvent at hs
  split at hs <;> cases hs
  rfl

theorem mem_remove {m : ConcurrentHashMap UInt32 (Order N I (RId T))} {key orderId : UInt32}
    {o : Order N I (RId T)} (h : m.remove key orderId = some o) : m orderId = some o := by
  unfold ConcurrentHashMap.remove at h
  by_cases hkey : orderId = key
  · subst hkey
    rw [Function.update_self] at h
    cases h
  · rw [Function.update_of_ne hkey] at h
    exact h

theorem mem_set {m : ConcurrentHashMap UInt32 (Order N I (RId T))} {key orderId : UInt32}
    {o o' : Order N I (RId T)} (h : m.set key o' orderId = some o) : m orderId = some o ∨ o = o' := by
  rcases set_eq m key o' with heq | ⟨-, heq⟩
  · rw [heq] at h
    exact Or.inl h
  · rw [heq] at h
    by_cases hkey : orderId = key
    · subst hkey
      rw [Function.update_self] at h
      exact Or.inr (Option.some.inj h).symm
    · rw [Function.update_of_ne hkey] at h
      exact Or.inl h

theorem instrument_processActiveOrder (hs : s.processActiveOrder g r p = some s') :
    Instrument s r s' := by
  cases p with
  | lockSgl =>
    rcases Option.map_eq_some_iff.mp hs with ⟨s₁, hs₁, rfl⟩
    exact .still (kept_lockSgl hs₁).routine (orders_lockSgl hs₁)
  | lockMatchHead =>
    rcases Option.map_eq_some_iff.mp hs with ⟨s₁, hs₁, rfl⟩
    exact .still (kept_lock hs₁).routine (orders_lock hs₁)
  | matchAt v shouldPopPrev curr =>
    cases curr with
    | none =>
      cases hs
      cases shouldPopPrev with
      | false => exact .still rfl rfl
      | true => exact .still rfl rfl
    | some curr =>
      rcases Option.map_eq_some_iff.mp hs with ⟨s₁, hs₁, rfl⟩
      exact .still (kept_lock hs₁).routine (orders_lock hs₁)
  | matchTest v shouldPopPrev curr =>
    simp only [Sys.processActiveOrder] at hs
    cases shouldPopPrev with
    | false =>
      split at hs
      · rcases Option.map_eq_some_iff.mp hs with ⟨s₁, hs₁, rfl⟩
        exact .still (kept_unlock hs₁).routine (orders_unlock hs₁)
      · cases hs
        exact .still rfl rfl
    | true =>
      split at hs
      · rcases Option.map_eq_some_iff.mp hs with ⟨s₁, hs₁, rfl⟩
        exact .still (kept_unlock hs₁).routine ((orders_unlock hs₁).trans rfl)
      · cases hs
        exact .still rfl rfl
  | matchQueue v curr ch =>
    rcases Option.map_eq_some_iff.mp hs with ⟨s₁, hs₁, rfl⟩
    dsimp only
    split
    · exact .spawn_goto rfl (kept_queue hs₁).routine (orders_queue hs₁)
    · exact .spawn_goto rfl (kept_queue hs₁).routine (orders_queue hs₁)
  | matchNext v shouldPopPrev curr =>
    cases hs
    exact .still rfl rfl
  | matchEnd v =>
    rcases Option.map_eq_some_iff.mp hs with ⟨s₁, hs₁, rfl⟩
    split
    · exact .still (kept_unlock hs₁).routine (orders_unlock hs₁)
    · exact .still (kept_unlock hs₁).routine (orders_unlock hs₁)
  | lockAddHead v =>
    rcases Option.map_eq_some_iff.mp hs with ⟨s₁, hs₁, rfl⟩
    exact .still (kept_lock hs₁).routine (orders_lock hs₁)
  | lockOrders v =>
    rcases Option.map_eq_some_iff.mp hs with ⟨s₁, hs₁, rfl⟩
    exact .still (kept_lockOrders hs₁).routine (orders_lockOrders hs₁)
  | setOrder v =>
    cases hs
    refine .goto rfl rfl ?_
    -- the order that is entered has the instrument of the order that it was
    intro orderId o ho
    rcases mem_set ho with ho | rfl
    · exact Or.inl ho
    · exact Or.inr rfl
  | unlockOrders =>
    rcases Option.map_eq_some_iff.mp hs with ⟨s₁, hs₁, rfl⟩
    exact .still (kept_unlockOrders hs₁).routine (orders_unlockOrders hs₁)
  | addQueue =>
    rcases Option.map_eq_some_iff.mp hs with ⟨s₁, hs₁, rfl⟩
    exact .spawn_goto rfl ((kept_makeChan 1).trans (kept_queue hs₁)).routine
      (orders_queue (s := s.makeChan 1) hs₁)
  | unlockSgl =>
    rcases Option.map_eq_some_iff.mp hs with ⟨s₁, hs₁, rfl⟩
    exact Instrument.done
      (.still (kept_unlockSgl hs₁).routine (orders_unlockSgl hs₁))
  | _ => cases hs

theorem instrument_executeOrder (hs : s.executeOrder g r p = some s') : Instrument s r s' := by
  cases p with
  | exec countLeftToMatch node ch =>
    simp only [Sys.executeOrder] at hs
    split at hs
    · cases hs
      exact .still rfl rfl
    · split at hs
      · cases hs
        exact .still rfl rfl
      · split at hs <;> cases hs
        · exact .still rfl rfl
        · exact .still rfl rfl
  | execRemove restingId line countLeftToMatch node ch =>
    cases hs
    exact .goto rfl rfl fun _ _ ho => Or.inl (mem_remove ho)
  | execSend line countLeftToMatch node ch =>
    rcases Option.map_eq_some_iff.mp hs with ⟨s₁, hs₁, rfl⟩
    exact .still (kept_send hs₁).routine (orders_send hs₁)
  | execUnlock node =>
    rcases Option.map_eq_some_iff.mp hs with ⟨s₁, hs₁, rfl⟩
    exact Instrument.done (.still (kept_unlock hs₁).routine (orders_unlock hs₁))
  | _ => cases hs

theorem instrument_addOrder (hs : s.addOrder g r p = some s') : Instrument s r s' := by
  cases p with
  | addFirst ch =>
    cases hs
    exact .still rfl rfl
  | addWalk curr next ch =>
    cases next with
    | none =>
      cases hs
      exact .still rfl rfl
    | some next =>
      rcases Option.map_eq_some_iff.mp hs with ⟨s₁, hs₁, rfl⟩
      exact .still (kept_lock hs₁).routine (orders_lock hs₁)
  | addTest curr next ch =>
    simp only [Sys.addOrder] at hs
    split at hs
    · rcases Option.map_eq_some_iff.mp hs with ⟨s₁, hs₁, rfl⟩
      exact .still (kept_unlock hs₁).routine (orders_unlock hs₁)
    · split at hs
      · rcases Option.map_eq_some_iff.mp hs with ⟨s₁, hs₁, rfl⟩
        exact .still (kept_unlock hs₁).routine (orders_unlock hs₁)
      · rcases Option.map_eq_some_iff.mp hs with ⟨s₁, hs₁, rfl⟩
        exact .still (kept_unlock hs₁).routine (orders_unlock hs₁)
  | addPlace curr ch =>
    simp only [Sys.addOrder] at hs
    split at hs <;> cases hs
    · exact .still rfl rfl
    · exact .still rfl rfl
  | addLinked prev curr ch =>
    rcases Option.map_eq_some_iff.mp hs with ⟨s₁, hs₁, rfl⟩
    exact .still (kept_unlock hs₁).routine (orders_unlock hs₁)
  | addAppend curr ch =>
    cases hs
    exact .still rfl rfl
  | addSend curr ch =>
    rcases Option.map_eq_some_iff.mp hs with ⟨s₁, hs₁, rfl⟩
    exact .still (kept_send hs₁).routine (orders_send hs₁)
  | addClose curr ch =>
    cases hs
    exact .still rfl rfl
  | addUnlock curr =>
    rcases Option.map_eq_some_iff.mp hs with ⟨s₁, hs₁, rfl⟩
    exact Instrument.done (.still (kept_unlock hs₁).routine (orders_unlock hs₁))
  | _ => cases hs

theorem instrument_processCancelOrder (hs : s.processCancelOrder g r p = some s') :
    Instrument s r s' := by
  cases p with
  | lockHead =>
    rcases Option.map_eq_some_iff.mp hs with ⟨s₁, hs₁, rfl⟩
    exact .still (kept_lock hs₁).routine (orders_lock hs₁)
  | cancelQueue =>
    rcases Option.map_eq_some_iff.mp hs with ⟨s₁, hs₁, rfl⟩
    exact .still ((kept_makeChan 1).trans (kept_queue hs₁)).routine
      (orders_queue (s := s.makeChan 1) hs₁)
  | cancelFirst ch =>
    simp only [Sys.processCancelOrder] at hs
    split at hs
    · cases hs
      exact .still rfl rfl
    · rcases Option.map_eq_some_iff.mp hs with ⟨s₁, hs₁, rfl⟩
      exact .still (kept_lock hs₁).routine (orders_lock hs₁)
  | cancelAt prev curr ch =>
    cases curr with
    | none =>
      rcases Option.map_eq_some_iff.mp hs with ⟨s₁, hs₁, rfl⟩
      exact .still (kept_unlock hs₁).routine (orders_unlock hs₁)
    | some curr =>
      simp only [Sys.processCancelOrder] at hs
      split at hs
      · split at hs
        · rcases Option.map_eq_some_iff.mp hs with ⟨s₁, hs₁, rfl⟩
          exact .still (kept_unlock hs₁).routine (orders_unlock hs₁)
        · rcases Option.map_eq_some_iff.mp hs with ⟨s₁, hs₁, rfl⟩
          exact .still (kept_lock hs₁).routine (orders_lock hs₁)
      · split at hs
        · rcases Option.map_eq_some_iff.mp hs with ⟨s₁, hs₁, rfl⟩
          exact .still (kept_unlock hs₁).routine (orders_unlock hs₁)
        · cases hs
          exact .still rfl rfl
  | cancelOn prev curr next ch =>
    rcases Option.map_eq_some_iff.mp hs with ⟨s₁, hs₁, rfl⟩
    exact .still (kept_unlock hs₁).routine (orders_unlock hs₁)
  | cancelRemove prev curr ch =>
    cases hs
    exact .goto rfl rfl fun _ _ ho => Or.inl (mem_remove ho)
  | cancelUnlink prev curr ch =>
    rcases Option.map_eq_some_iff.mp hs with ⟨s₁, hs₁, rfl⟩
    split at hs₁
    · exact .still (kept_unlock hs₁).routine ((orders_unlock hs₁).trans rfl)
    · exact .still (kept_unlock hs₁).routine (orders_unlock hs₁)
  | cancelUnlock curr accepted ch =>
    rcases Option.map_eq_some_iff.mp hs with ⟨s₁, hs₁, rfl⟩
    exact .still (kept_unlock hs₁).routine (orders_unlock hs₁)
  | cancelSend accepted ch =>
    rcases Option.map_eq_some_iff.mp hs with ⟨s₁, hs₁, rfl⟩
    exact .still (kept_send hs₁).routine (orders_send hs₁)
  | cancelClose ch =>
    cases hs
    exact Instrument.done (.still rfl rfl)
  | _ => cases hs

theorem instrument_routineStep (hs : s.routineStep g r = some s') : Instrument s r s' := by
  unfold Sys.routineStep at hs
  split at hs
  all_goals
    first
      | exact instrument_executeOrder hs
      | exact instrument_addOrder hs
      | exact instrument_processCancelOrder hs
      | exact instrument_processActiveOrder hs

/-! ## The step of a connection -/

/-- What a connection does to the map of books and to its order. -/
structure Books (s : Sys N I T) (t : T) (s' : Sys N I T) : Prop where
  lists : ∀ i, s.Lists i → s'.Lists i
  conn : ∀ o, (s'.conn t).pc.listed = some o →
    s'.Lists o.instrument ∨ (s.conn t).pc.listed = some o ∨ ∃ orderId, s.orders orderId = some o
  orders : s'.orders = s.orders
  event : ∀ b, ∀ event ∈ (s'.book b).ordersChn,
    event ∈ (s.book b).ordersChn ∨ (s.conn t).pc.listed = some event.order

theorem Books.quiet {pc : ConnPc N I T} (horderbooks : s₁.orderbooks = s.orderbooks)
    (horders : s₁.orders = s.orders) (hqueue : ∀ b, (s₁.book b).ordersChn = (s.book b).ordersChn)
    (hpc : ∀ o, pc.listed = some o → s.Lists o.instrument ∨ (s.conn t).pc.listed = some o ∨
      ∃ orderId, s.orders orderId = some o) : Books s t (s₁.connGoto t pc) where
  lists := by
    intro i hi
    show s₁.orderbooks i ≠ none
    rw [horderbooks]
    exact hi
  conn := by
    intro o ho
    have heq : ((s₁.connGoto t pc).conn t).pc = pc := by
      unfold Sys.connGoto
      dsimp only
      rw [Function.update_self]
    rw [heq] at ho
    rcases hpc o ho with hl | hrest
    · refine Or.inl ?_
      show s₁.orderbooks o.instrument ≠ none
      rw [horderbooks]
      exact hl
    · exact Or.inr hrest
  orders := horders
  event := by
    intro b event hmem
    have hmem' : event ∈ (s₁.book b).ordersChn := hmem
    rw [hqueue] at hmem'
    exact Or.inl hmem'

theorem Books.none {pc : ConnPc N I T} (horderbooks : s₁.orderbooks = s.orderbooks)
    (horders : s₁.orders = s.orders) (hqueue : ∀ b, (s₁.book b).ordersChn = (s.book b).ordersChn)
    (hpc : pc.listed = none) : Books s t (s₁.connGoto t pc) := by
  refine .quiet horderbooks horders hqueue ?_
  intro o ho
  rw [hpc] at ho
  cases ho

theorem books_handleConn (hs : s.handleConn t = some s') : Books s t s' := by
  unfold Sys.handleConn at hs
  cases hpc : (s.conn t).pc with
  | start =>
    rw [hpc] at hs
    cases hs
    refine ⟨fun i hi => hi, ?_, rfl, fun _ _ h => Or.inl h⟩
    intro o ho
    dsimp only at ho
    rw [Function.update_self] at ho
    cases ho
  | ready =>
    rw [hpc] at hs
    dsimp only at hs
    split at hs
    · cases hs
    · split at hs <;> cases hs
      · exact .none rfl rfl (fun _ => rfl) rfl
      · exact .none rfl rfl (fun _ => rfl) rfl
  | getBook c o =>
    rw [hpc] at hs
    dsimp only at hs
    split at hs <;> cases hs
    next b hb =>
      refine .quiet rfl rfl (fun _ => rfl) ?_
      intro o' ho'
      cases ho'
      refine Or.inl ?_
      show s.orderbooks o.instrument ≠ Option.none
      intro hnone
      cases hb.symm.trans hnone
    · exact .none rfl rfl (fun _ => rfl) rfl
  | setBook c o b =>
    rw [hpc] at hs
    cases hs
    refine ⟨fun i hi => get_set_of_ne s.orderbooks b hi, ?_, rfl, fun _ _ h => Or.inl h⟩
    intro o' ho'
    unfold Sys.connGoto at ho'
    dsimp only at ho'
    rw [Function.update_self] at ho'
    cases ho'
    exact Or.inl (get_set_self s.orderbooks o.instrument b)
  | getAgain c o =>
    rw [hpc] at hs
    dsimp only at hs
    split at hs <;> cases hs
    next b hb =>
      refine .quiet rfl rfl (fun _ => rfl) ?_
      intro o' ho'
      cases ho'
      exact Or.inr (Or.inl (by rw [hpc]; rfl))
  | send b event =>
    rw [hpc] at hs
    rcases Option.map_eq_some_iff.mp hs with ⟨s₁, hs₁, rfl⟩
    have horders := orders_sendEvent hs₁
    refine ⟨?_, ?_, horders, ?_⟩
    · intro i hi
      unfold sendEvent at hs₁
      split at hs₁ <;> cases hs₁
      exact hi
    · intro o ho
      unfold Sys.connGoto at ho
      dsimp only at ho
      rw [Function.update_self] at ho
      cases ho
    · intro b' event' hmem
      unfold sendEvent at hs₁
      split at hs₁ <;> cases hs₁
      have hmem' : event' ∈ ((s.setBook b { s.book b with
        ordersChn := (s.book b).ordersChn ++ [event] }).book b').ordersChn := hmem
      unfold setBook at hmem'
      dsimp only at hmem'
      by_cases hb : b' = b
      · subst hb
        rw [Function.update_self] at hmem'
        rcases List.mem_append.mp hmem' with hold | hnew
        · exact Or.inl hold
        · rw [List.mem_singleton.mp hnew, hpc]
          exact Or.inr rfl
      · rw [Function.update_of_ne hb] at hmem'
        exact Or.inl hmem'
  | lockOrders c orderId =>
    rw [hpc] at hs
    rcases Option.map_eq_some_iff.mp hs with ⟨s₁, hs₁, rfl⟩
    have hk := kept_lockOrders hs₁
    exact .none hk.orderbooks (orders_lockOrders hs₁) hk.queue rfl
  | getOrder c orderId =>
    rw [hpc] at hs
    dsimp only at hs
    split at hs <;> cases hs
    · exact .none rfl rfl (fun _ => rfl) rfl
    next o ho =>
      refine .quiet rfl rfl (fun _ => rfl) ?_
      intro o' ho'
      cases ho'
      exact Or.inr (Or.inr ⟨orderId, ho⟩)
  | missQueue c orderId =>
    rw [hpc] at hs
    rcases Option.map_eq_some_iff.mp hs with ⟨s₁, hs₁, rfl⟩
    have hk := (kept_makeChan (s := s) 1).trans (kept_queue hs₁)
    exact .none hk.orderbooks (orders_queue (s := s.makeChan 1) hs₁) hk.queue rfl
  | missUnlock c orderId ch =>
    rw [hpc] at hs
    rcases Option.map_eq_some_iff.mp hs with ⟨s₁, hs₁, rfl⟩
    have hk := kept_unlockOrders hs₁
    exact .none hk.orderbooks (orders_unlockOrders hs₁) hk.queue rfl
  | foundUnlock c orderId o =>
    rw [hpc] at hs
    rcases Option.map_eq_some_iff.mp hs with ⟨s₁, hs₁, rfl⟩
    have hk := kept_unlockOrders hs₁
    split
    · exact .none hk.orderbooks (orders_unlockOrders hs₁) hk.queue rfl
    · refine .quiet hk.orderbooks (orders_unlockOrders hs₁) hk.queue ?_
      intro o' ho'
      cases ho'
      exact Or.inr (Or.inl (by rw [hpc]; rfl))
  | foreignQueue c orderId =>
    rw [hpc] at hs
    rcases Option.map_eq_some_iff.mp hs with ⟨s₁, hs₁, rfl⟩
    have hk := (kept_makeChan (s := s) 1).trans (kept_queue hs₁)
    exact .none hk.orderbooks (orders_queue (s := s.makeChan 1) hs₁) hk.queue rfl
  | getBookOf c o =>
    rw [hpc] at hs
    dsimp only at hs
    split at hs <;> cases hs
    next b hb =>
      refine .quiet rfl rfl (fun _ => rfl) ?_
      intro o' ho'
      cases ho'
      exact Or.inr (Or.inl (by rw [hpc]; rfl))
  | reject c orderId ch =>
    rw [hpc] at hs
    rcases Option.map_eq_some_iff.mp hs with ⟨s₁, hs₁, rfl⟩
    have hk := kept_send hs₁
    exact .none hk.orderbooks (orders_send hs₁) hk.queue rfl
  | close ch =>
    rw [hpc] at hs
    cases hs
    exact .none rfl rfl (fun _ => rfl) rfl

/-! ## The invariant -/

theorem listed_init (cmds : T → List (Command N I)) : Listed (init cmds) where
  conn := fun _ _ h => by cases h
  event := fun _ _ h => by cases h
  routine := fun _ _ h => by cases h
  orders := fun _ _ h => by cases h

theorem Listed.step (h : Listed s) (hs : s.step a = some s') : Listed s' := by
  cases a with
  | conn t =>
    have hturn := turn_handleConn hs
    have hb := books_handleConn hs
    have hconn : ∀ o, (s.conn t).pc.listed = some o → s'.Lists o.instrument := fun o ho =>
      hb.lists _ (h.conn t o ho)
    refine ⟨?_, ?_, ?_, ?_⟩
    · intro u o ho
      by_cases hu : u = t
      · subst hu
        rcases hb.conn o ho with hl | hl | ⟨orderId, hl⟩
        · exact hl
        · exact hconn o hl
        · exact hb.lists _ (h.orders orderId o hl)
      · rw [hturn.conn u hu] at ho
        exact hb.lists _ (h.conn u o ho)
    · intro b event hmem
      rcases hb.event b event hmem with hmem | ho
      · exact hb.lists _ (h.event b event hmem)
      · exact hconn _ ho
    · intro g r hr
      rw [hturn.routine] at hr
      exact hb.lists _ (h.routine g r hr)
    · intro orderId o ho
      rw [hb.orders] at ho
      exact hb.lists _ (h.orders orderId o ho)
  | dispatcher b =>
    unfold Sys.step Sys.dispatch at hs
    dsimp only at hs
    split at hs
    · cases hs
    next event rest hqueue =>
      cases hs
      refine ⟨h.conn, ?_, ?_, h.orders⟩
      · intro b' event' hmem
        unfold Sys.spawn setBook at hmem
        dsimp only at hmem
        by_cases hb : b' = b
        · subst hb
          rw [Function.update_self] at hmem
          exact h.event b' event' (hqueue ▸ List.mem_cons_of_mem event hmem)
        · rw [Function.update_of_ne hb] at hmem
          exact h.event b' event' hmem
      · intro g r hr
        unfold Sys.spawn at hr
        dsimp only at hr
        by_cases hg : g = s.nextRoutine
        · subst hg
          have hnew := (Function.update_self ..).symm.trans hr
          cases hnew
          exact h.event b event (hqueue ▸ List.mem_cons_self)
        · exact h.routine g r ((Function.update_of_ne hg ..).symm.trans hr)
  | routine g =>
    unfold Sys.step at hs
    dsimp only at hs
    split at hs
    · cases hs
    next r hr =>
      have hturn := turn_routineStep hs
      have hi := instrument_routineStep hs
      have hlists : ∀ i, s'.Lists i ↔ s.Lists i := by
        intro i
        unfold Lists
        rw [hturn.orderbooks]
      refine ⟨?_, ?_, ?_, ?_⟩
      · intro t o ho
        rw [hturn.conn] at ho
        exact (hlists _).mpr (h.conn t o ho)
      · intro b event hmem
        rw [hturn.queue] at hmem
        exact (hlists _).mpr (h.event b event hmem)
      · intro g' r' hr'
        rcases hi.routine g' r' hr' with hold | heq
        · exact (hlists _).mpr (h.routine g' r' hold)
        · rw [heq]
          exact (hlists _).mpr (h.routine g r hr)
      · intro orderId o ho
        rcases hi.orders orderId o ho with hold | heq
        · exact (hlists _).mpr (h.orders orderId o hold)
        · rw [heq]
          exact (hlists _).mpr (h.routine g r hr)
  | printer =>
    have hk := kept_printOutputChnl hs
    have horders : s'.orders = s.orders := by
      unfold Sys.step Sys.printOutputChnl at hs
      dsimp only at hs
      split at hs
      · split at hs <;> cases hs
        rfl
      · split at hs
        · cases hs
          rfl
        · split at hs <;> cases hs
          rfl
    have hlists : ∀ i, s'.Lists i ↔ s.Lists i := by
      intro i
      unfold Lists
      rw [hk.orderbooks]
    refine ⟨?_, ?_, ?_, ?_⟩
    · intro t o ho
      rw [hk.conn] at ho
      exact (hlists _).mpr (h.conn t o ho)
    · intro b event hmem
      rw [hk.queue] at hmem
      exact (hlists _).mpr (h.event b event hmem)
    · intro g r hr
      rw [hk.routine] at hr
      exact (hlists _).mpr (h.routine g r hr)
    · intro orderId o ho
      rw [horders] at ho
      exact (hlists _).mpr (h.orders orderId o ho)

theorem Reachable.listed {cmds : T → List (Command N I)} (h : Reachable cmds s) : Listed s := by
  induction h with
  | init => exact listed_init cmds
  | step _ hs ih => exact ih.step hs

end Sys

end MatchingEngine.Go
