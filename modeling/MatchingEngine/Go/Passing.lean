import MatchingEngine.Go.Carried

/-!
# How commands pass through the Go engine

A connection holds the command that it has read until it hands it over or rejects it; from the channel
of its book the command goes to a goroutine.  What a step does to the channels and the goroutines is
said here once.
-/

set_option linter.unusedSectionVars false

namespace MatchingEngine.Go

variable {N I T : Type} [Quantity N] [DecidableEq I] [DecidableEq T]

/-- How far a goroutine is: before the first lock of its book, with its command not yet matched and
    booked or decided, or past that. -/
inductive Phase
  | waiting
  | entered
  | over
  deriving DecidableEq, Repr

def Pc.phase : Pc N I → Phase
  | .lockSgl | .lockHead => .waiting
  | .lockMatchHead | .matchAt .. | .matchTest .. | .matchQueue .. | .matchNext .. | .matchEnd ..
  | .lockAddHead .. | .lockOrders .. | .setOrder .. | .cancelQueue | .cancelFirst .. | .cancelAt ..
  | .cancelOn .. => .entered
  | _ => .over

/-- The command that a connection has read and neither handed over nor rejected. -/
def ConnPc.held : ConnPc N I T → Option (Cause N I T)
  | .getBook c _ | .setBook c _ _ | .getAgain c _ | .lockOrders c _ | .getOrder c _
  | .foundUnlock c _ _ | .getBookOf c _ => some c
  | .send _ event => some event.cause
  | _ => none

/-- The book that a connection has at hand. -/
def ConnPc.bookPtr : ConnPc N I T → Option OrderBookPtr
  | .setBook _ _ b | .send b _ => some b
  | _ => none

namespace Sys

variable {s s₁ s₂ s' : Sys N I T} {t : T} {g : ℕ} {r : Routine N I T} {b : OrderBookPtr} {sd : Side}
  {a : NodePtr}

/-- The cancel that a connection with this number rejects at this place. -/
def rejectsAt (s : Sys N I T) (rId : UInt32) : ConnPc N I T → Option (Cause N I T)
  | .getOrder c orderId => if s.orders.get orderId = none then some c else none
  | .foundUnlock c _ o => if o.rId.value ≠ rId then some c else none
  | _ => none

/-- The cancel that a connection rejects with its next step. -/
def rejects (s : Sys N I T) (t : T) : Option (Cause N I T) :=
  s.rejectsAt (s.conn t).rId (s.conn t).pc

/-- The command of a goroutine, if it takes effect with the next step: an order that is matched
    completely or entered into `orders`, when the head of its side is locked until it is in its node,
    and a cancel that is decided. -/
def commits (s : Sys N I T) (r : Routine N I T) : Option (Cause N I T) :=
  match r.pc with
  | .matchEnd v => if 0 < v then none else some r.cause
  | .setOrder _ => some r.cause
  | .cancelAt _ none _ => some r.cause
  | .cancelAt _ (some curr) _ =>
    if (s.node r.book r.side curr).price = r.order.price then some r.cause else none
  | _ => none

/-- The command that takes effect with the step. -/
def effect (s : Sys N I T) : Actor T → Option (Cause N I T)
  | .conn t => s.rejects t
  | .routine g => (s.routine g).bind s.commits
  | _ => none

/-- The command for which the step takes the first lock of a book, or which it rejects at once. -/
def enters (s : Sys N I T) : Actor T → Option (Cause N I T)
  | .conn t => s.rejects t
  | .routine g =>
    (s.routine g).bind fun r => if r.pc.phase = .waiting then some r.cause else none
  | _ => none

/-! ## What is left alone -/

/-- Connections, channels of books and goroutines are as before. -/
structure Quiet (s s' : Sys N I T) : Prop where
  conn : s'.conn = s.conn
  queue : ∀ b, (s'.book b).ordersChn = (s.book b).ordersChn
  routine : s'.routine = s.routine
  nextRoutine : s'.nextRoutine = s.nextRoutine

/-- So is the map of the books. -/
structure Kept (s s' : Sys N I T) : Prop extends Quiet s s' where
  orderbooks : s'.orderbooks = s.orderbooks
  nextBook : s'.nextBook = s.nextBook

theorem Kept.refl (s : Sys N I T) : Kept s s := ⟨⟨rfl, fun _ => rfl, rfl, rfl⟩, rfl, rfl⟩

theorem Kept.trans (h : Kept s s₁) (h' : Kept s₁ s₂) : Kept s s₂ where
  conn := h'.conn.trans h.conn
  orderbooks := h'.orderbooks.trans h.orderbooks
  nextBook := h'.nextBook.trans h.nextBook
  queue := fun b => (h'.queue b).trans (h.queue b)
  routine := h'.routine.trans h.routine
  nextRoutine := h'.nextRoutine.trans h.nextRoutine

theorem kept_setBook {ob : SharedBook N I T} (h : ob.ordersChn = (s.book b).ordersChn) :
    Kept s (s.setBook b ob) where
  conn := rfl
  orderbooks := rfl
  nextBook := rfl
  queue := by
    intro b'
    unfold setBook
    dsimp only
    by_cases hb : b' = b
    · subst hb
      rw [Function.update_self, h]
    · rw [Function.update_of_ne hb]
  routine := rfl
  nextRoutine := rfl

theorem kept_setChain (c : Chain N I T) : Kept s (s.setChain b sd c) := kept_setBook rfl

theorem kept_setNode (n : Node N I T) : Kept s (s.setNode b sd a n) := kept_setChain _

theorem kept_setNext (next : Option NodePtr) : Kept s (s.setNext b sd a next) := kept_setNode _

theorem kept_lock (hs : s.lock b sd a = some s') : Kept s s' := by
  unfold lock at hs
  split at hs <;> cases hs
  exact kept_setNode _

theorem kept_unlock (hs : s.unlock b sd a = some s') : Kept s s' := by
  unfold unlock at hs
  split at hs <;> cases hs
  exact kept_setNode _

theorem kept_lockSgl (hs : s.lockSgl b = some s') : Kept s s' := by
  unfold lockSgl at hs
  split at hs <;> cases hs
  exact kept_setBook rfl

theorem kept_unlockSgl (hs : s.unlockSgl b = some s') : Kept s s' := by
  unfold unlockSgl at hs
  split at hs <;> cases hs
  exact kept_setBook rfl

theorem kept_lockOrders (hs : s.lockOrders = some s') : Kept s s' := by
  unfold lockOrders at hs
  split at hs <;> cases hs
  exact ⟨⟨rfl, fun _ => rfl, rfl, rfl⟩, rfl, rfl⟩

theorem kept_unlockOrders (hs : s.unlockOrders = some s') : Kept s s' := by
  unfold unlockOrders at hs
  split at hs <;> cases hs
  exact ⟨⟨rfl, fun _ => rfl, rfl, rfl⟩, rfl, rfl⟩

theorem kept_makeChan (capacity : ℕ) : Kept s (s.makeChan capacity) :=
  ⟨⟨rfl, fun _ => rfl, rfl, rfl⟩, rfl, rfl⟩

theorem kept_queue {ch : ChanPtr} (hs : s.queue ch = some s') : Kept s s' := by
  unfold queue at hs
  split at hs <;> cases hs
  exact ⟨⟨rfl, fun _ => rfl, rfl, rfl⟩, rfl, rfl⟩

theorem kept_send {ch : ChanPtr} {cause : Cause N I T} {line : Line N I}
    (hs : s.send ch cause line = some s') : Kept s s' := by
  unfold send at hs
  dsimp only at hs
  split at hs <;> cases hs
  exact ⟨⟨rfl, fun _ => rfl, rfl, rfl⟩, rfl, rfl⟩

theorem kept_closeChan (ch : ChanPtr) : Kept s (s.closeChan ch) :=
  ⟨⟨rfl, fun _ => rfl, rfl, rfl⟩, rfl, rfl⟩

theorem kept_setOrders (orders : ConcurrentHashMap UInt32 (Order N I (RId T))) :
    Kept s { s with orders := orders } := ⟨⟨rfl, fun _ => rfl, rfl, rfl⟩, rfl, rfl⟩

theorem kept_cancelled (cancelled : List (T × Order N I (RId T))) :
    Kept s { s with cancelled := cancelled } := ⟨⟨rfl, fun _ => rfl, rfl, rfl⟩, rfl, rfl⟩

/-! ## The step of a goroutine -/

/-- How a step takes the phase of the goroutine on: it takes its first lock, stays, or its command takes
    effect. -/
inductive Advance (s : Sys N I T) (r : Routine N I T) : Phase → Prop
  | enter (h : r.pc.phase = .waiting) (he : s.commits r = none) : Advance s r .entered
  | stay (h : r.pc.phase ≠ .waiting) (he : s.commits r = none) : Advance s r r.pc.phase
  | commit (h : r.pc.phase = .entered) (he : s.commits r = some r.cause) : Advance s r .over

/-- The goroutine `g` goes on as `x`; one that it starts comes after all others and works on what has
    taken effect. -/
structure Turn (s : Sys N I T) (g : ℕ) (r : Routine N I T) (s' : Sys N I T) : Prop where
  conn : s'.conn = s.conn
  orderbooks : s'.orderbooks = s.orderbooks
  nextBook : s'.nextBook = s.nextBook
  queue : ∀ b, (s'.book b).ordersChn = (s.book b).ordersChn
  nextRoutine : s.nextRoutine ≤ s'.nextRoutine
  self : ∃ p, Advance s r p ∧ (s'.routine g = none ∧ p = .over ∨
    ∃ r', s'.routine g = some r' ∧ r'.cause = r.cause ∧ r'.pc.phase = p)
  other : ∀ g', g' ≠ g → s'.routine g' = s.routine g' ∨
    s.nextRoutine ≤ g' ∧ g' < s'.nextRoutine ∧
      ∃ r', s'.routine g' = some r' ∧ r'.cause = r.cause ∧ r'.pc.phase = .over

theorem Kept.goto (h : Kept s s₁) {r' : Routine N I T} {pc : Pc N I} (hcause : r'.cause = r.cause)
    (hp : Advance s r pc.phase) : Turn s g r (s₁.goto g r' pc) where
  conn := h.conn
  orderbooks := h.orderbooks
  nextBook := h.nextBook
  queue := h.queue
  nextRoutine := h.nextRoutine.ge
  self := ⟨_, hp, Or.inr ⟨{ r' with pc }, Function.update_self .., hcause, rfl⟩⟩
  other := by
    intro g' hg
    apply Or.inl
    unfold Sys.goto
    dsimp only
    rw [Function.update_of_ne hg, h.routine]

theorem Kept.done (h : Kept s s₁) (hp : Advance s r .over) : Turn s g r (s₁.done g) where
  conn := h.conn
  orderbooks := h.orderbooks
  nextBook := h.nextBook
  queue := h.queue
  nextRoutine := h.nextRoutine.ge
  self := ⟨_, hp, Or.inl ⟨Function.update_self .., rfl⟩⟩
  other := by
    intro g' hg
    apply Or.inl
    unfold Sys.done
    dsimp only
    rw [Function.update_of_ne hg, h.routine]

theorem Kept.spawn_goto (h : Kept s s₁) {r' : Routine N I T} {pc : Pc N I}
    (hcause : r'.cause = r.cause) (hover : r'.pc.phase = .over) (hp : Advance s r pc.phase) :
    Turn s g r ((s₁.spawn r').goto g r pc) where
  conn := h.conn
  orderbooks := h.orderbooks
  nextBook := h.nextBook
  queue := h.queue
  nextRoutine := by
    show s.nextRoutine ≤ s₁.nextRoutine + 1
    rw [h.nextRoutine]
    omega
  self := ⟨_, hp, Or.inr ⟨{ r with pc }, Function.update_self .., rfl, rfl⟩⟩
  other := by
    intro g' hg
    unfold Sys.goto Sys.spawn
    dsimp only
    rw [Function.update_of_ne hg, h.nextRoutine, h.routine]
    by_cases hnew : g' = s.nextRoutine
    · subst hnew
      rw [Function.update_self]
      exact Or.inr ⟨le_refl _, by omega, r', rfl, hcause, hover⟩
    · rw [Function.update_of_ne hnew]
      exact Or.inl rfl

section Advances

variable {pc : Pc N I} {p : Phase}

theorem advance_lock (hpc : r.pc = pc) (hp : pc.phase = .waiting)
    (he : s.commits { r with pc } = none) (h : p = .entered) : Advance s r p := by
  subst hpc h
  exact Advance.enter hp he

theorem advance_entered (hpc : r.pc = pc) (hp : pc.phase = .entered)
    (he : s.commits { r with pc } = none) (h : p = .entered) : Advance s r p := by
  subst hpc h
  have hstay := Advance.stay (by rw [hp]; decide) he
  rw [hp] at hstay
  exact hstay

theorem advance_commit (hpc : r.pc = pc) (hp : pc.phase = .entered)
    (he : s.commits { r with pc } = some r.cause) (h : p = .over) : Advance s r p := by
  subst hpc h
  exact Advance.commit hp he

theorem advance_over (hpc : r.pc = pc) (hp : pc.phase = .over)
    (he : s.commits { r with pc } = none) (h : p = .over) : Advance s r p := by
  subst hpc h
  have hstay := Advance.stay (by rw [hp]; decide) he
  rw [hp] at hstay
  exact hstay

end Advances

theorem turn_processActiveOrder {pc : Pc N I} (hpc : r.pc = pc)
    (hs : s.processActiveOrder g r pc = some s') : Turn s g r s' := by
  cases pc with
  | lockSgl =>
    rcases Option.map_eq_some_iff.mp hs with ⟨s₁, hs₁, rfl⟩
    exact (kept_lockSgl hs₁).goto rfl (advance_lock hpc rfl rfl rfl)
  | lockMatchHead =>
    rcases Option.map_eq_some_iff.mp hs with ⟨s₁, hs₁, rfl⟩
    exact (kept_lock hs₁).goto rfl (advance_entered hpc rfl rfl rfl)
  | matchAt v shouldPopPrev curr =>
    cases curr with
    | none =>
      cases hs
      have h' : Kept s (if shouldPopPrev then s.setNext r.book r.side.opp 0 none else s) := by
        split
        · exact kept_setNext none
        · exact Kept.refl s
      exact h'.goto rfl (advance_entered hpc rfl rfl rfl)
    | some curr =>
      rcases Option.map_eq_some_iff.mp hs with ⟨s₁, hs₁, rfl⟩
      exact (kept_lock hs₁).goto rfl (advance_entered hpc rfl rfl rfl)
  | matchTest v shouldPopPrev curr =>
    have h' : Kept s (if shouldPopPrev then s.setNext r.book r.side.opp 0 (some curr) else s) := by
      split
      · exact kept_setNext (some curr)
      · exact Kept.refl s
    simp only [Sys.processActiveOrder] at hs
    split at hs
    · rcases Option.map_eq_some_iff.mp hs with ⟨s₁, hs₁, rfl⟩
      exact (h'.trans (kept_unlock hs₁)).goto rfl (advance_entered hpc rfl rfl rfl)
    · cases hs
      exact (h'.trans (kept_makeChan _)).goto rfl (advance_entered hpc rfl rfl rfl)
  | matchQueue v curr ch =>
    rcases Option.map_eq_some_iff.mp hs with ⟨s₁, hs₁, rfl⟩
    dsimp only
    split
    · exact (kept_queue hs₁).spawn_goto rfl rfl (advance_entered hpc rfl rfl rfl)
    · exact (kept_queue hs₁).spawn_goto rfl rfl (advance_entered hpc rfl rfl rfl)
  | matchNext v shouldPopPrev curr =>
    cases hs
    exact (Kept.refl s).goto rfl (advance_entered hpc rfl rfl rfl)
  | matchEnd v =>
    rcases Option.map_eq_some_iff.mp hs with ⟨s₁, hs₁, rfl⟩
    split
    next hv => exact (kept_unlock hs₁).goto rfl (advance_entered hpc rfl (if_pos hv) rfl)
    next hv => exact (kept_unlock hs₁).goto rfl (advance_commit hpc rfl (if_neg hv) rfl)
  | lockAddHead v =>
    rcases Option.map_eq_some_iff.mp hs with ⟨s₁, hs₁, rfl⟩
    exact (kept_lock hs₁).goto rfl (advance_entered hpc rfl rfl rfl)
  | lockOrders v =>
    rcases Option.map_eq_some_iff.mp hs with ⟨s₁, hs₁, rfl⟩
    exact (kept_lockOrders hs₁).goto rfl (advance_entered hpc rfl rfl rfl)
  | setOrder v =>
    cases hs
    exact (kept_setOrders _).goto rfl (advance_commit hpc rfl rfl rfl)
  | unlockOrders =>
    rcases Option.map_eq_some_iff.mp hs with ⟨s₁, hs₁, rfl⟩
    exact (kept_unlockOrders hs₁).goto rfl (advance_over hpc rfl rfl rfl)
  | addQueue =>
    rcases Option.map_eq_some_iff.mp hs with ⟨s₁, hs₁, rfl⟩
    have hkept := (kept_makeChan 1).trans (kept_queue hs₁)
    exact hkept.spawn_goto rfl rfl (advance_over hpc rfl rfl rfl)
  | unlockSgl =>
    rcases Option.map_eq_some_iff.mp hs with ⟨s₁, hs₁, rfl⟩
    exact (kept_unlockSgl hs₁).done (advance_over hpc rfl rfl rfl)
  | _ => cases hs

theorem turn_executeOrder {pc : Pc N I} (hpc : r.pc = pc)
    (hs : s.executeOrder g r pc = some s') : Turn s g r s' := by
  cases pc with
  | exec countLeftToMatch node ch =>
    simp only [Sys.executeOrder] at hs
    split at hs
    · cases hs
      exact (kept_closeChan ch).goto rfl (advance_over hpc rfl rfl rfl)
    · split at hs
      · cases hs
        exact (kept_closeChan ch).goto rfl (advance_over hpc rfl rfl rfl)
      · split at hs <;> cases hs
        · exact (kept_setNode _).goto rfl (advance_over hpc rfl rfl rfl)
        · exact (kept_setNode _).goto rfl (advance_over hpc rfl rfl rfl)
  | execRemove restingId line countLeftToMatch node ch =>
    cases hs
    exact (kept_setOrders _).goto rfl (advance_over hpc rfl rfl rfl)
  | execSend line countLeftToMatch node ch =>
    rcases Option.map_eq_some_iff.mp hs with ⟨s₁, hs₁, rfl⟩
    exact (kept_send hs₁).goto rfl (advance_over hpc rfl rfl rfl)
  | execUnlock node =>
    rcases Option.map_eq_some_iff.mp hs with ⟨s₁, hs₁, rfl⟩
    exact (kept_unlock hs₁).done (advance_over hpc rfl rfl rfl)
  | _ => cases hs

theorem turn_addOrder {pc : Pc N I} (hpc : r.pc = pc) (hs : s.addOrder g r pc = some s') :
    Turn s g r s' := by
  cases pc with
  | addFirst ch =>
    cases hs
    exact (Kept.refl s).goto rfl (advance_over hpc rfl rfl rfl)
  | addWalk curr next ch =>
    cases next with
    | none =>
      cases hs
      exact (Kept.refl s).goto rfl (advance_over hpc rfl rfl rfl)
    | some next =>
      rcases Option.map_eq_some_iff.mp hs with ⟨s₁, hs₁, rfl⟩
      exact (kept_lock hs₁).goto rfl (advance_over hpc rfl rfl rfl)
  | addTest curr next ch =>
    simp only [Sys.addOrder] at hs
    split at hs
    · rcases Option.map_eq_some_iff.mp hs with ⟨s₁, hs₁, rfl⟩
      exact (kept_unlock hs₁).goto rfl (advance_over hpc rfl rfl rfl)
    · split at hs
      · rcases Option.map_eq_some_iff.mp hs with ⟨s₁, hs₁, rfl⟩
        exact (kept_unlock hs₁).goto rfl (advance_over hpc rfl rfl rfl)
      · rcases Option.map_eq_some_iff.mp hs with ⟨s₁, hs₁, rfl⟩
        exact (kept_unlock hs₁).goto rfl (advance_over hpc rfl rfl rfl)
  | addPlace curr ch =>
    simp only [Sys.addOrder] at hs
    split at hs <;> cases hs
    · exact (kept_setChain _).goto rfl (advance_over hpc rfl rfl rfl)
    · exact (Kept.refl s).goto rfl (advance_over hpc rfl rfl rfl)
  | addLinked prev curr ch =>
    rcases Option.map_eq_some_iff.mp hs with ⟨s₁, hs₁, rfl⟩
    exact (kept_unlock hs₁).goto rfl (advance_over hpc rfl rfl rfl)
  | addAppend curr ch =>
    cases hs
    exact (kept_setNode _).goto rfl (advance_over hpc rfl rfl rfl)
  | addSend curr ch =>
    rcases Option.map_eq_some_iff.mp hs with ⟨s₁, hs₁, rfl⟩
    exact (kept_send hs₁).goto rfl (advance_over hpc rfl rfl rfl)
  | addClose curr ch =>
    cases hs
    exact (kept_closeChan ch).goto rfl (advance_over hpc rfl rfl rfl)
  | addUnlock curr =>
    rcases Option.map_eq_some_iff.mp hs with ⟨s₁, hs₁, rfl⟩
    exact (kept_unlock hs₁).done (advance_over hpc rfl rfl rfl)
  | _ => cases hs

theorem turn_processCancelOrder {pc : Pc N I} (hpc : r.pc = pc)
    (hs : s.processCancelOrder g r pc = some s') : Turn s g r s' := by
  cases pc with
  | lockHead =>
    rcases Option.map_eq_some_iff.mp hs with ⟨s₁, hs₁, rfl⟩
    exact (kept_lock hs₁).goto rfl (advance_lock hpc rfl rfl rfl)
  | cancelQueue =>
    rcases Option.map_eq_some_iff.mp hs with ⟨s₁, hs₁, rfl⟩
    have hkept := (kept_makeChan 1).trans (kept_queue hs₁)
    exact hkept.goto rfl (advance_entered hpc rfl rfl rfl)
  | cancelFirst ch =>
    simp only [Sys.processCancelOrder] at hs
    split at hs
    · cases hs
      exact (Kept.refl s).goto rfl (advance_entered hpc rfl rfl rfl)
    · rcases Option.map_eq_some_iff.mp hs with ⟨s₁, hs₁, rfl⟩
      exact (kept_lock hs₁).goto rfl (advance_entered hpc rfl rfl rfl)
  | cancelAt prev curr ch =>
    cases curr with
    | none =>
      rcases Option.map_eq_some_iff.mp hs with ⟨s₁, hs₁, rfl⟩
      exact (kept_unlock hs₁).goto rfl (advance_commit hpc rfl rfl rfl)
    | some curr =>
      simp only [Sys.processCancelOrder] at hs
      split at hs
      next hprice =>
        split at hs
        · rcases Option.map_eq_some_iff.mp hs with ⟨s₁, hs₁, rfl⟩
          exact (kept_unlock hs₁).goto rfl (advance_entered hpc rfl (if_neg hprice) rfl)
        · rcases Option.map_eq_some_iff.mp hs with ⟨s₁, hs₁, rfl⟩
          exact (kept_lock hs₁).goto rfl (advance_entered hpc rfl (if_neg hprice) rfl)
      next hprice =>
        split at hs
        · rcases Option.map_eq_some_iff.mp hs with ⟨s₁, hs₁, rfl⟩
          exact (kept_unlock hs₁).goto rfl (advance_commit hpc rfl (if_pos (not_not.mp hprice)) rfl)
        · cases hs
          apply Kept.goto _ rfl
            (advance_commit hpc rfl (if_pos (not_not.mp hprice)) rfl)
          exact (kept_setNode _).trans (kept_cancelled _)
  | cancelOn prev curr next ch =>
    rcases Option.map_eq_some_iff.mp hs with ⟨s₁, hs₁, rfl⟩
    exact (kept_unlock hs₁).goto rfl (advance_entered hpc rfl rfl rfl)
  | cancelRemove prev curr ch =>
    cases hs
    exact (kept_setOrders _).goto rfl (advance_over hpc rfl rfl rfl)
  | cancelUnlink prev curr ch =>
    rcases Option.map_eq_some_iff.mp hs with ⟨s₁, hs₁, rfl⟩
    have h' : Kept s (if (s.node r.book r.side curr).volume = 0 then
        s.setNext r.book r.side prev (s.node r.book r.side curr).next else s) := by
      split
      · exact kept_setNext _
      · exact Kept.refl s
    exact (h'.trans (kept_unlock hs₁)).goto rfl (advance_over hpc rfl rfl rfl)
  | cancelUnlock curr accepted ch =>
    rcases Option.map_eq_some_iff.mp hs with ⟨s₁, hs₁, rfl⟩
    exact (kept_unlock hs₁).goto rfl (advance_over hpc rfl rfl rfl)
  | cancelSend accepted ch =>
    rcases Option.map_eq_some_iff.mp hs with ⟨s₁, hs₁, rfl⟩
    exact (kept_send hs₁).goto rfl (advance_over hpc rfl rfl rfl)
  | cancelClose ch =>
    cases hs
    exact (kept_closeChan ch).done (advance_over hpc rfl rfl rfl)
  | _ => cases hs

theorem turn_routineStep (hs : s.routineStep g r = some s') : Turn s g r s' := by
  unfold Sys.routineStep at hs
  split at hs
  all_goals
    first
      | exact turn_executeOrder rfl hs
      | exact turn_addOrder rfl hs
      | exact turn_processCancelOrder rfl hs
      | exact turn_processActiveOrder rfl hs

/-! ## The step of a connection -/

/-- What becomes of the command that a connection holds, and of the commands to come. -/
inductive Handling (s : Sys N I T) (t : T) (s' : Sys N I T) : Prop
  | read (c : Cause N I T) (hconn : c.conn = t) (hindex : c.index = (s.conn t).index)
      (hidle : (s.conn t).pc.held = none) (hheld : (s'.conn t).pc.held = some c)
      (hcmds : (s.conn t).cmds = c.command :: (s'.conn t).cmds)
      (hnext : (s'.conn t).index = (s.conn t).index + 1) (hrejects : s.rejects t = none)
      (hqueue : ∀ b, (s'.book b).ordersChn = (s.book b).ordersChn)
  | keep (hheld : (s'.conn t).pc.held = (s.conn t).pc.held)
      (hcmds : (s'.conn t).cmds = (s.conn t).cmds) (hnext : (s'.conn t).index = (s.conn t).index)
      (hrejects : s.rejects t = none)
      (hqueue : ∀ b, (s'.book b).ordersChn = (s.book b).ordersChn)
  | reject (c : Cause N I T) (hheld : (s.conn t).pc.held = some c)
      (hidle : (s'.conn t).pc.held = none) (hcmds : (s'.conn t).cmds = (s.conn t).cmds)
      (hnext : (s'.conn t).index = (s.conn t).index) (hrejects : s.rejects t = some c)
      (hqueue : ∀ b, (s'.book b).ordersChn = (s.book b).ordersChn)
  | send (b : OrderBookPtr) (event : Event N I T) (hpc : (s.conn t).pc = .send b event)
      (hidle : (s'.conn t).pc.held = none) (hcmds : (s'.conn t).cmds = (s.conn t).cmds)
      (hnext : (s'.conn t).index = (s.conn t).index) (hrejects : s.rejects t = none)
      (hqueue : ∀ b', (s'.book b').ordersChn =
        if b' = b then (s.book b).ordersChn ++ [event] else (s.book b').ordersChn)

/-- Nothing else changes. -/
structure ConnTurn (s : Sys N I T) (t : T) (s' : Sys N I T) : Prop where
  conn : ∀ u, u ≠ t → s'.conn u = s.conn u
  routine : s'.routine = s.routine
  nextRoutine : s'.nextRoutine = s.nextRoutine
  handling : Handling s t s'

/-- The connection goes on, and its command stays with it. -/
theorem Quiet.connGoto (h : Quiet s s₁) {pc : ConnPc N I T} (hheld : pc.held = (s.conn t).pc.held)
    (hrejects : s.rejects t = none) : ConnTurn s t (s₁.connGoto t pc) where
  conn := by
    intro u hu
    unfold Sys.connGoto
    dsimp only
    rw [Function.update_of_ne hu, h.conn]
  routine := h.routine
  nextRoutine := h.nextRoutine
  handling := by
    have hconn : (s₁.connGoto t pc).conn t = { s.conn t with pc } := by
      unfold Sys.connGoto
      dsimp only
      rw [Function.update_self, h.conn]
    apply Handling.keep
    · rw [hconn, hheld]
    · rw [hconn]
    · rw [hconn]
    · exact hrejects
    · exact h.queue

theorem Quiet.connGoto_reject (h : Quiet s s₁) {pc : ConnPc N I T} {c : Cause N I T}
    (hheld : (s.conn t).pc.held = some c) (hpc : pc.held = none) (hrejects : s.rejects t = some c) :
    ConnTurn s t (s₁.connGoto t pc) where
  conn := by
    intro u hu
    unfold Sys.connGoto
    dsimp only
    rw [Function.update_of_ne hu, h.conn]
  routine := h.routine
  nextRoutine := h.nextRoutine
  handling := by
    have hconn : (s₁.connGoto t pc).conn t = { s.conn t with pc } := by
      unfold Sys.connGoto
      dsimp only
      rw [Function.update_self, h.conn]
    apply Handling.reject c hheld
    · rw [hconn, hpc]
    · rw [hconn]
    · rw [hconn]
    · exact hrejects
    · exact h.queue

theorem rejects_of_pc {pc : ConnPc N I T} (hpc : (s.conn t).pc = pc) {x : Option (Cause N I T)}
    (hx : s.rejectsAt (s.conn t).rId pc = x) : s.rejects t = x := by
  unfold Sys.rejects
  rw [hpc]
  exact hx

theorem held_of_pc {pc : ConnPc N I T} (hpc : (s.conn t).pc = pc) {x : Option (Cause N I T)}
    (hx : x = pc.held) : x = (s.conn t).pc.held := by
  rw [hpc]
  exact hx

/-- The command is taken off, and the connection holds it. -/
theorem turn_read {command : Command N I} {cmds : List (Command N I)} (pc : ConnPc N I T)
    (hpc : (s.conn t).pc = .ready) (hcmds : (s.conn t).cmds = command :: cmds)
    (hconn : s'.conn = Function.update s.conn t
      { s.conn t with cmds, index := (s.conn t).index + 1, pc })
    (hheld : pc.held = some { conn := t, index := (s.conn t).index, command })
    (hroutine : s'.routine = s.routine) (hnext : s'.nextRoutine = s.nextRoutine)
    (hqueue : ∀ b, (s'.book b).ordersChn = (s.book b).ordersChn) : ConnTurn s t s' where
  conn := by
    intro u hu
    rw [hconn, Function.update_of_ne hu]
  routine := hroutine
  nextRoutine := hnext
  handling := by
    apply Handling.read { conn := t, index := (s.conn t).index, command } rfl rfl
    · rw [hpc]
      rfl
    · rw [hconn, Function.update_self]
      exact hheld
    · rw [hconn, Function.update_self]
      exact hcmds
    · rw [hconn, Function.update_self]
    · exact rejects_of_pc hpc rfl
    · exact hqueue

/-- The command goes into the channel of its book. -/
theorem turn_send {event : Event N I T} (hpc : (s.conn t).pc = .send b event)
    (hs : s.sendEvent b event = some s₁) : ConnTurn s t (s₁.connGoto t .ready) := by
  have hconn : (s₁.connGoto t .ready).conn =
      Function.update s.conn t { s.conn t with pc := .ready } := by
    unfold Sys.connGoto
    dsimp only
    rw [Sys.conn_sendEvent hs]
  unfold Sys.sendEvent at hs
  split at hs <;> cases hs
  refine ⟨?_, rfl, rfl, ?_⟩
  · intro u hu
    rw [hconn, Function.update_of_ne hu]
  apply Handling.send b event hpc
  · rw [hconn, Function.update_self]
    rfl
  · rw [hconn, Function.update_self]
  · rw [hconn, Function.update_self]
  · exact rejects_of_pc hpc rfl
  · intro b'
    unfold Sys.connGoto Sys.setBook
    dsimp only
    by_cases hb : b' = b
    · subst hb
      rw [Function.update_self, if_pos rfl]
    · rw [Function.update_of_ne hb, if_neg hb]

theorem turn_handleConn (hs : s.handleConn t = some s') : ConnTurn s t s' := by
  unfold Sys.handleConn at hs
  cases hpc : (s.conn t).pc with
  | start =>
    rw [hpc] at hs
    cases hs
    refine ⟨fun u hu => Function.update_of_ne hu .., rfl, rfl, ?_⟩
    apply Handling.keep
    · dsimp only
      rw [Function.update_self]
      exact held_of_pc hpc rfl
    · dsimp only
      rw [Function.update_self]
    · dsimp only
      rw [Function.update_self]
    · exact rejects_of_pc hpc rfl
    · exact fun _ => rfl
  | ready =>
    rw [hpc] at hs
    dsimp only at hs
    split at hs
    · cases hs
    next command cmds hcmds =>
      split at hs <;> cases hs
      next sd orderId i price count inputTime =>
        refine turn_read (.getBook _
          (Engine.newOrder s.nextAddress sd orderId i price count inputTime
            { value := (s.conn t).rId, conn := t })) hpc hcmds ?_ rfl rfl rfl (fun _ => rfl)
        simp only [Sys.connGoto, Function.update_idem, Function.update_self]
      next orderId inputTime =>
        refine turn_read (.lockOrders _ orderId) hpc hcmds ?_ rfl rfl rfl (fun _ => rfl)
        simp only [Sys.connGoto, Function.update_idem, Function.update_self]
  | getBook c o =>
    rw [hpc] at hs
    dsimp only at hs
    split at hs <;> cases hs
    · exact (Kept.refl s).toQuiet.connGoto (held_of_pc hpc rfl) (rejects_of_pc hpc rfl)
    · have hquiet : Quiet s { s with nextBook := s.nextBook + 1 } :=
        ⟨rfl, fun _ => rfl, rfl, rfl⟩
      exact hquiet.connGoto (held_of_pc hpc rfl) (rejects_of_pc hpc rfl)
  | setBook c o b =>
    rw [hpc] at hs
    cases hs
    have hquiet : Quiet s { s with orderbooks := s.orderbooks.set o.instrument b } :=
      ⟨rfl, fun _ => rfl, rfl, rfl⟩
    exact hquiet.connGoto (held_of_pc hpc rfl) (rejects_of_pc hpc rfl)
  | getAgain c o =>
    rw [hpc] at hs
    dsimp only at hs
    split at hs <;> cases hs
    exact (Kept.refl s).toQuiet.connGoto (held_of_pc hpc rfl) (rejects_of_pc hpc rfl)
  | send b event =>
    rw [hpc] at hs
    rcases Option.map_eq_some_iff.mp hs with ⟨s₁, hs₁, rfl⟩
    exact turn_send hpc hs₁
  | lockOrders c orderId =>
    rw [hpc] at hs
    rcases Option.map_eq_some_iff.mp hs with ⟨s₁, hs₁, rfl⟩
    exact (kept_lockOrders hs₁).toQuiet.connGoto (held_of_pc hpc rfl) (rejects_of_pc hpc rfl)
  | getOrder c orderId =>
    rw [hpc] at hs
    dsimp only at hs
    split at hs <;> cases hs
    next hget =>
      exact (Kept.refl s).toQuiet.connGoto_reject (held_of_pc hpc rfl).symm rfl
        (rejects_of_pc hpc (if_pos hget))
    next o hget =>
      have hfound : s.orders.get orderId ≠ none := by
        rw [hget]
        exact Option.some_ne_none o
      exact (Kept.refl s).toQuiet.connGoto (held_of_pc hpc rfl) (rejects_of_pc hpc (if_neg hfound))
  | missQueue c orderId =>
    rw [hpc] at hs
    rcases Option.map_eq_some_iff.mp hs with ⟨s₁, hs₁, rfl⟩
    have hkept := (kept_makeChan 1).trans (kept_queue hs₁)
    exact hkept.toQuiet.connGoto (held_of_pc hpc rfl) (rejects_of_pc hpc rfl)
  | missUnlock c orderId ch =>
    rw [hpc] at hs
    rcases Option.map_eq_some_iff.mp hs with ⟨s₁, hs₁, rfl⟩
    exact (kept_unlockOrders hs₁).toQuiet.connGoto (held_of_pc hpc rfl) (rejects_of_pc hpc rfl)
  | foundUnlock c orderId o =>
    rw [hpc] at hs
    rcases Option.map_eq_some_iff.mp hs with ⟨s₁, hs₁, rfl⟩
    split
    next hforeign =>
      exact (kept_unlockOrders hs₁).toQuiet.connGoto_reject (held_of_pc hpc rfl).symm rfl
        (rejects_of_pc hpc (if_pos hforeign))
    next hown =>
      exact (kept_unlockOrders hs₁).toQuiet.connGoto (held_of_pc hpc rfl)
        (rejects_of_pc hpc (if_neg hown))
  | foreignQueue c orderId =>
    rw [hpc] at hs
    rcases Option.map_eq_some_iff.mp hs with ⟨s₁, hs₁, rfl⟩
    have hkept := (kept_makeChan 1).trans (kept_queue hs₁)
    exact hkept.toQuiet.connGoto (held_of_pc hpc rfl) (rejects_of_pc hpc rfl)
  | getBookOf c o =>
    rw [hpc] at hs
    dsimp only at hs
    split at hs <;> cases hs
    exact (Kept.refl s).toQuiet.connGoto (held_of_pc hpc rfl) (rejects_of_pc hpc rfl)
  | reject c orderId ch =>
    rw [hpc] at hs
    rcases Option.map_eq_some_iff.mp hs with ⟨s₁, hs₁, rfl⟩
    exact (kept_send hs₁).toQuiet.connGoto (held_of_pc hpc rfl) (rejects_of_pc hpc rfl)
  | close ch =>
    rw [hpc] at hs
    cases hs
    exact (kept_closeChan ch).toQuiet.connGoto (held_of_pc hpc rfl) (rejects_of_pc hpc rfl)

/-! ## The other steps -/

/-- The dispatcher of a book starts a goroutine for the event in front. -/
structure Dispatch (s : Sys N I T) (b : OrderBookPtr) (s' : Sys N I T) : Prop where
  conn : s'.conn = s.conn
  orderbooks : s'.orderbooks = s.orderbooks
  nextBook : s'.nextBook = s.nextBook
  nextRoutine : s'.nextRoutine = s.nextRoutine + 1
  other : ∀ g, g ≠ s.nextRoutine → s'.routine g = s.routine g
  event : ∃ event rest r, (s.book b).ordersChn = event :: rest ∧
    (∀ b', (s'.book b').ordersChn = if b' = b then rest else (s.book b').ordersChn) ∧
    s'.routine s.nextRoutine = some r ∧ r.cause = event.cause ∧ r.pc.phase = .waiting

theorem dispatch_spec (hs : s.dispatch b = some s') : Dispatch s b s' := by
  unfold Sys.dispatch at hs
  split at hs
  · cases hs
  next event rest hqueue =>
    cases hs
    refine ⟨rfl, rfl, rfl, rfl, fun g hg => Function.update_of_ne hg .., event, rest, _, hqueue, ?_,
      Function.update_self .., rfl, ?_⟩
    · intro b'
      unfold Sys.spawn Sys.setBook
      dsimp only
      by_cases hb : b' = b
      · subst hb
        rw [Function.update_self, if_pos rfl]
      · rw [Function.update_of_ne hb, if_neg hb]
    · dsimp only
      split
      · rfl
      · rfl

theorem kept_printOutputChnl (hs : s.printOutputChnl = some s') : Kept s s' := by
  unfold Sys.printOutputChnl at hs
  split at hs
  · split at hs <;> cases hs
    exact ⟨⟨rfl, fun _ => rfl, rfl, rfl⟩, rfl, rfl⟩
  · dsimp only at hs
    split at hs
    · cases hs
      exact ⟨⟨rfl, fun _ => rfl, rfl, rfl⟩, rfl, rfl⟩
    · split at hs <;> cases hs
      exact ⟨⟨rfl, fun _ => rfl, rfl, rfl⟩, rfl, rfl⟩

/-! ## What has been made -/

/-- Books and goroutines come into being one after the other. -/
structure Made (s : Sys N I T) : Prop where
  orderbooks : ∀ i b, s.orderbooks i = some b → b < s.nextBook
  conn : ∀ t b, (s.conn t).pc.bookPtr = some b → b < s.nextBook
  queue : ∀ b, s.nextBook ≤ b → (s.book b).ordersChn = []
  routine : ∀ g, s.nextRoutine ≤ g → s.routine g = none

theorem made_init (cmds : T → List (Command N I)) : Made (init cmds) where
  orderbooks := fun _ _ h => by cases h
  conn := fun _ _ h => by cases h
  queue := fun _ _ => rfl
  routine := fun _ _ => rfl

theorem Made.quiet (h : Made s) (hq : Quiet s s') (horderbooks : s'.orderbooks = s.orderbooks)
    (hnext : s'.nextBook = s.nextBook) : Made s' where
  orderbooks := by
    rw [horderbooks, hnext]
    exact h.orderbooks
  conn := by
    rw [hq.conn, hnext]
    exact h.conn
  queue := by
    intro b hb
    rw [hnext] at hb
    rw [hq.queue]
    exact h.queue b hb
  routine := by
    rw [hq.routine, hq.nextRoutine]
    exact h.routine

theorem Made.kept (h : Made s) (hk : Kept s s') : Made s' := h.quiet hk.toQuiet hk.orderbooks hk.nextBook

theorem Made.connGoto (h : Made s) {pc : ConnPc N I T}
    (hpc : ∀ b, pc.bookPtr = some b → b < s.nextBook) : Made (s.connGoto t pc) where
  orderbooks := h.orderbooks
  conn := by
    intro u b hb
    unfold Sys.connGoto at hb
    dsimp only at hb
    by_cases hu : u = t
    · subst hu
      rw [Function.update_self] at hb
      exact hpc b hb
    · rw [Function.update_of_ne hu] at hb
      exact h.conn u b hb
  queue := h.queue
  routine := h.routine

theorem Made.connGoto_none (h : Made s) {pc : ConnPc N I T} (hpc : pc.bookPtr = none) :
    Made (s.connGoto t pc) := by
  apply h.connGoto
  intro b hb
  rw [hpc] at hb
  cases hb

theorem Made.sendEvent (h : Made s) {event : Event N I T} (hb : b < s.nextBook)
    (hs : s.sendEvent b event = some s') : Made s' := by
  unfold Sys.sendEvent at hs
  split at hs <;> cases hs
  refine ⟨h.orderbooks, h.conn, ?_, h.routine⟩
  intro b' hb'
  have hne : b' ≠ b := (hb.trans_le hb').ne'
  unfold Sys.setBook
  dsimp only
  rw [Function.update_of_ne hne]
  exact h.queue b' hb'

theorem Made.handleConn (h : Made s) (hs : s.handleConn t = some s') : Made s' := by
  have hptr := h.conn t
  unfold Sys.handleConn at hs
  cases hpc : (s.conn t).pc with
  | start =>
    rw [hpc] at hs
    cases hs
    have hgoto : Made (s.connGoto t .ready) := h.connGoto_none rfl
    refine ⟨h.orderbooks, ?_, h.queue, h.routine⟩
    intro u b hb
    apply hgoto.conn u b
    unfold Sys.connGoto
    dsimp only at hb ⊢
    by_cases hu : u = t
    · subst hu
      rw [Function.update_self] at hb ⊢
      exact hb
    · rw [Function.update_of_ne hu] at hb ⊢
      exact hb
  | ready =>
    rw [hpc] at hs
    dsimp only at hs
    split at hs
    · cases hs
    next command cmds hcmds =>
      -- the place is left behind at once
      have hread : Made { s with
          conn := Function.update s.conn t
            { s.conn t with cmds, index := (s.conn t).index + 1 } } := by
        refine ⟨h.orderbooks, ?_, h.queue, h.routine⟩
        intro u b hb
        dsimp only at hb
        by_cases hu : u = t
        · subst hu
          rw [Function.update_self] at hb
          exact h.conn u b hb
        · rw [Function.update_of_ne hu] at hb
          exact h.conn u b hb
      split at hs <;> cases hs
      · apply Made.connGoto_none _ rfl
        exact ⟨hread.orderbooks, hread.conn, hread.queue, hread.routine⟩
      · exact hread.connGoto_none rfl
  | getBook c o =>
    rw [hpc] at hs
    dsimp only at hs
    split at hs <;> cases hs
    next b hget =>
      apply h.connGoto
      rintro _ ⟨⟩
      exact h.orderbooks o.instrument b hget
    · apply Made.connGoto
      · refine ⟨fun i b hb => ?_, fun u b hb => ?_, fun b hb => ?_, h.routine⟩
        · exact (h.orderbooks i b hb).trans (Nat.lt_succ_self _)
        · exact (h.conn u b hb).trans (Nat.lt_succ_self _)
        · exact h.queue b (Nat.le_of_succ_le hb)
      · rintro _ ⟨⟩
        exact Nat.lt_succ_self _
  | setBook c o b =>
    rw [hpc] at hs hptr
    cases hs
    apply Made.connGoto_none _ rfl
    refine ⟨?_, h.conn, h.queue, h.routine⟩
    intro i b' hb'
    unfold ConcurrentHashMap.set at hb'
    cases hget : s.orderbooks o.instrument with
    | some _ =>
      rw [hget] at hb'
      exact h.orderbooks i b' hb'
    | none =>
      rw [hget] at hb'
      dsimp only at hb'
      by_cases hi : i = o.instrument
      · subst hi
        rw [Function.update_self] at hb'
        cases hb'
        exact hptr b rfl
      · rw [Function.update_of_ne hi] at hb'
        exact h.orderbooks i b' hb'
  | getAgain c o =>
    rw [hpc] at hs
    dsimp only at hs
    split at hs <;> cases hs
    next b hget =>
      apply h.connGoto
      rintro _ ⟨⟩
      exact h.orderbooks o.instrument b hget
  | send b event =>
    rw [hpc] at hs hptr
    rcases Option.map_eq_some_iff.mp hs with ⟨s₁, hs₁, rfl⟩
    exact (h.sendEvent (hptr b rfl) hs₁).connGoto_none rfl
  | lockOrders c orderId =>
    rw [hpc] at hs
    rcases Option.map_eq_some_iff.mp hs with ⟨s₁, hs₁, rfl⟩
    exact (h.kept (kept_lockOrders hs₁)).connGoto_none rfl
  | getOrder c orderId =>
    rw [hpc] at hs
    dsimp only at hs
    split at hs <;> cases hs
    · exact h.connGoto_none rfl
    · exact h.connGoto_none rfl
  | missQueue c orderId =>
    rw [hpc] at hs
    rcases Option.map_eq_some_iff.mp hs with ⟨s₁, hs₁, rfl⟩
    exact (h.kept ((kept_makeChan 1).trans (kept_queue hs₁))).connGoto_none rfl
  | missUnlock c orderId ch =>
    rw [hpc] at hs
    rcases Option.map_eq_some_iff.mp hs with ⟨s₁, hs₁, rfl⟩
    exact (h.kept (kept_unlockOrders hs₁)).connGoto_none rfl
  | foundUnlock c orderId o =>
    rw [hpc] at hs
    rcases Option.map_eq_some_iff.mp hs with ⟨s₁, hs₁, rfl⟩
    have hunlocked := h.kept (kept_unlockOrders hs₁)
    split
    · exact hunlocked.connGoto_none rfl
    · exact hunlocked.connGoto_none rfl
  | foreignQueue c orderId =>
    rw [hpc] at hs
    rcases Option.map_eq_some_iff.mp hs with ⟨s₁, hs₁, rfl⟩
    exact (h.kept ((kept_makeChan 1).trans (kept_queue hs₁))).connGoto_none rfl
  | getBookOf c o =>
    rw [hpc] at hs
    dsimp only at hs
    split at hs <;> cases hs
    next b hget =>
      apply h.connGoto
      rintro _ ⟨⟩
      exact h.orderbooks o.instrument b hget
  | reject c orderId ch =>
    rw [hpc] at hs
    rcases Option.map_eq_some_iff.mp hs with ⟨s₁, hs₁, rfl⟩
    exact (h.kept (kept_send hs₁)).connGoto_none rfl
  | close ch =>
    rw [hpc] at hs
    cases hs
    exact (h.kept (kept_closeChan ch)).connGoto_none rfl

theorem Made.turn (h : Made s) (hr : s.routine g = some r) (ht : Turn s g r s') : Made s' where
  orderbooks := by
    rw [ht.orderbooks, ht.nextBook]
    exact h.orderbooks
  conn := by
    rw [ht.conn, ht.nextBook]
    exact h.conn
  queue := by
    intro b hb
    rw [ht.nextBook] at hb
    rw [ht.queue]
    exact h.queue b hb
  routine := by
    intro g' hg'
    have hold := h.routine g' (ht.nextRoutine.trans hg')
    have hne : g' ≠ g := by
      rintro rfl
      rw [hr] at hold
      cases hold
    rcases ht.other g' hne with hsame | ⟨_, hlt, _⟩
    · rw [hsame]
      exact hold
    · omega

theorem Made.dispatch (h : Made s) (hd : Dispatch s b s') : Made s' where
  orderbooks := by
    rw [hd.orderbooks, hd.nextBook]
    exact h.orderbooks
  conn := by
    rw [hd.conn, hd.nextBook]
    exact h.conn
  queue := by
    rcases hd.event with ⟨event, rest, r, hqueue, hrest, _⟩
    intro b' hb'
    rw [hd.nextBook] at hb'
    have hold := h.queue b' hb'
    have hne : b' ≠ b := by
      rintro rfl
      rw [hqueue] at hold
      cases hold
    rw [hrest, if_neg hne]
    exact hold
  routine := by
    intro g hg
    rw [hd.nextRoutine] at hg
    rw [hd.other g (by omega)]
    exact h.routine g (by omega)

theorem Made.step (h : Made s) {a : Actor T} (hs : s.step a = some s') : Made s' := by
  cases a with
  | conn t => exact h.handleConn hs
  | dispatcher b => exact h.dispatch (dispatch_spec hs)
  | routine g =>
    simp only [Sys.step] at hs
    split at hs
    · cases hs
    next r hr => exact h.turn hr (turn_routineStep hs)
  | printer => exact h.kept (kept_printOutputChnl hs)

end Sys

end MatchingEngine.Go
