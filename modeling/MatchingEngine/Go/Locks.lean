import MatchingEngine.Go.Chains

/-!
# The other locks of the Go engine

`sgl` of a book is held from the start of `ProcessActiveOrder` to its end, `ordersLock` while a
connection looks for an order and while an order is entered.
-/

set_option linter.unusedSectionVars false

namespace MatchingEngine.Go

variable {N I T : Type} [Quantity N] [DecidableEq I] [DecidableEq T]

/-- In `ProcessActiveOrder` behind its first line. -/
def Pc.hasSgl : Pc N I → Bool
  | .lockMatchHead | .matchAt .. | .matchTest .. | .matchQueue .. | .matchNext .. | .matchEnd ..
  | .lockAddHead .. | .lockOrders .. | .setOrder .. | .unlockOrders | .addQueue | .unlockSgl => true
  | _ => false

def Pc.hasOrders : Pc N I → Bool
  | .setOrder .. | .unlockOrders => true
  | _ => false

def ConnPc.hasOrders : ConnPc N I T → Bool
  | .getOrder .. | .missQueue .. | .missUnlock .. | .foundUnlock .. => true
  | _ => false

namespace Sys

/-- Who has sent on `sgl` of this book. -/
def hasSgl (s : Sys N I T) (b : OrderBookPtr) (g : ℕ) : Bool :=
  (s.routine g).elim false fun r => decide (r.book = b) && r.pc.hasSgl

/-- Who has sent on `ordersLock`. -/
def hasOrders (s : Sys N I T) : Actor T → Bool
  | .conn t => (s.conn t).pc.hasOrders
  | .routine g => (s.routine g).elim false fun r => r.pc.hasOrders
  | _ => false

def sgl (s : Sys N I T) (b : OrderBookPtr) : Bool := (s.book b).sgl

variable {s s₁ s₂ s' : Sys N I T} {a : Actor T} {t : T} {g : ℕ} {r r' : Routine N I T}
  {b : OrderBookPtr} {sd : Side} {n : NodePtr} {p pc : Pc N I}

/-! ## What leaves the locks alone -/

structure Unlocked (s s' : Sys N I T) : Prop where
  sgl : s'.sgl = s.sgl
  ordersLock : s'.ordersLock = s.ordersLock

theorem Unlocked.refl (s : Sys N I T) : Unlocked s s := ⟨rfl, rfl⟩

theorem Unlocked.trans (h : Unlocked s s₁) (h' : Unlocked s₁ s₂) : Unlocked s s₂ where
  sgl := h'.sgl.trans h.sgl
  ordersLock := h'.ordersLock.trans h.ordersLock

theorem unlocked_setBook {ob : SharedBook N I T} (h : ob.sgl = (s.book b).sgl) :
    Unlocked s (s.setBook b ob) where
  sgl := by
    funext b'
    unfold sgl setBook
    dsimp only
    by_cases hb : b' = b
    · subst hb
      rw [Function.update_self, h]
    · rw [Function.update_of_ne hb]
  ordersLock := rfl

theorem unlocked_setNode (x : Node N I T) : Unlocked s (s.setNode b sd n x) := unlocked_setBook rfl

theorem unlocked_setNext (next : Option NodePtr) : Unlocked s (s.setNext b sd n next) :=
  unlocked_setNode _

theorem unlocked_lock (hs : s.lock b sd n = some s') : Unlocked s s' := by
  unfold lock at hs
  split at hs <;> cases hs
  exact unlocked_setNode _

theorem unlocked_unlock (hs : s.unlock b sd n = some s') : Unlocked s s' := by
  unfold unlock at hs
  split at hs <;> cases hs
  exact unlocked_setNode _

theorem unlocked_sendEvent {event : Event N I T} (hs : s.sendEvent b event = some s') :
    Unlocked s s' := by
  unfold sendEvent at hs
  split at hs <;> cases hs
  exact unlocked_setBook rfl

theorem unlocked_queue {ch : ChanPtr} (hs : s.queue ch = some s') : Unlocked s s' := by
  unfold queue at hs
  split at hs <;> cases hs
  exact ⟨rfl, rfl⟩

theorem unlocked_send {ch : ChanPtr} {cause : Cause N I T} {line : Line N I}
    (hs : s.send ch cause line = some s') : Unlocked s s' := by
  unfold send at hs
  dsimp only at hs
  split at hs <;> cases hs
  exact ⟨rfl, rfl⟩

/-! ## What a step does to them -/

/-- Each lock is sent on by the one that has it then, received from by the one that had it, or left. -/
structure LockSteps (s s' : Sys N I T) : Prop where
  sgl : ∀ b, Token.Pass (s.sgl b) (s.hasSgl b) (s'.sgl b) (s'.hasSgl b)
  orders : Token.Pass s.ordersLock s.hasOrders s'.ordersLock s'.hasOrders

/-- Nobody gets or gives up one of these locks. -/
structure Unmoved (s s' : Sys N I T) : Prop extends Unlocked s s' where
  hasSgl : s'.hasSgl = s.hasSgl
  hasOrders : s'.hasOrders = s.hasOrders

theorem Unmoved.trans (h : Unmoved s s₁) (h' : Unmoved s₁ s₂) : Unmoved s s₂ where
  toUnlocked := h.toUnlocked.trans h'.toUnlocked
  hasSgl := h'.hasSgl.trans h.hasSgl
  hasOrders := h'.hasOrders.trans h.hasOrders

theorem Unmoved.steps (h : Unmoved s s') : LockSteps s s' where
  sgl := by
    intro b
    rw [h.sgl, h.hasSgl]
    exact .still
  orders := by
    rw [h.ordersLock, h.hasOrders]
    exact .still

theorem hasSgl_setRoutine (y : Option (Routine N I T))
    (hroutine : s'.routine = Function.update s.routine g y) (b : OrderBookPtr) :
    s'.hasSgl b = Function.update (s.hasSgl b) g
      (y.elim false fun r => decide (r.book = b) && r.pc.hasSgl) := by
  funext g'
  by_cases hg : g' = g
  · subst hg
    rw [Function.update_self]
    simp only [hasSgl, hroutine, Function.update_self]
  · rw [Function.update_of_ne hg]
    simp only [hasSgl, hroutine, Function.update_of_ne hg]

theorem hasOrders_setRoutine (y : Option (Routine N I T)) (hconn : s'.conn = s.conn)
    (hroutine : s'.routine = Function.update s.routine g y) :
    s'.hasOrders = Function.update s.hasOrders (.routine g)
      (y.elim false fun r => r.pc.hasOrders) := by
  funext x
  cases x with
  | conn t => simp only [hasOrders, hconn, ne_eq, reduceCtorEq, not_false_eq_true,
      Function.update_of_ne]
  | routine g' =>
    by_cases hg : g' = g
    · subst hg
      rw [Function.update_self]
      simp only [hasOrders, hroutine, Function.update_self]
    · have hne : (Actor.routine g' : Actor T) ≠ .routine g := fun h => hg (Actor.routine.inj h)
      rw [Function.update_of_ne hne]
      simp only [hasOrders, hroutine, Function.update_of_ne hg]
  | dispatcher b => rfl
  | printer => rfl

theorem hasSgl_goto : (s.goto g r pc).hasSgl b =
    Function.update (s.hasSgl b) g (decide (r.book = b) && pc.hasSgl) :=
  hasSgl_setRoutine (some { r with pc }) rfl b

theorem hasOrders_goto : (s.goto g r pc).hasOrders =
    Function.update s.hasOrders (.routine g) pc.hasOrders :=
  hasOrders_setRoutine (some { r with pc }) rfl rfl

theorem hasSgl_routine (hr : s.routine g = some r) (hpc : r.pc = p) :
    s.hasSgl b g = (decide (r.book = b) && p.hasSgl) := by
  simp only [hasSgl, hr, hpc, Option.elim_some]

theorem hasOrders_routine (hr : s.routine g = some r) (hpc : r.pc = p) :
    s.hasOrders (.routine g) = p.hasOrders := by
  simp only [hasOrders, hr, hpc, Option.elim_some]

theorem Unmoved.setRoutine (y : Option (Routine N I T)) (hl : Unlocked s s')
    (hconn : s'.conn = s.conn) (hroutine : s'.routine = Function.update s.routine g y)
    (hsgl : ∀ b, (y.elim false fun r => decide (r.book = b) && r.pc.hasSgl) = s.hasSgl b g)
    (horders : (y.elim false fun r => r.pc.hasOrders) = s.hasOrders (.routine g)) :
    Unmoved s s' where
  toUnlocked := hl
  hasSgl := by
    funext b
    rw [hasSgl_setRoutine y hroutine, hsgl, Function.update_eq_self]
  hasOrders := by
    rw [hasOrders_setRoutine y hconn hroutine, horders, Function.update_eq_self]

theorem routine_goto (h : s₁.routine = s.routine) : (s₁.goto g r pc).routine =
    Function.update s.routine g (some { r with pc }) := by
  unfold Sys.goto
  rw [h]

theorem routine_done (h : s₁.routine = s.routine) :
    (s₁.done g).routine = Function.update s.routine g none := by
  unfold Sys.done
  rw [h]

theorem Unmoved.goto (hr : s.routine g = some r) (hpc : r.pc = p) (hk : Kept s s₁)
    (hl : Unlocked s s₁) (hsgl : pc.hasSgl = p.hasSgl) (horders : pc.hasOrders = p.hasOrders) :
    Unmoved s (s₁.goto g r pc) := by
  have hlocks : Unlocked s (s₁.goto g r pc) := ⟨hl.sgl, hl.ordersLock⟩
  apply Unmoved.setRoutine (some { r with pc }) hlocks hk.conn (routine_goto hk.routine)
  · intro b
    rw [hasSgl_routine hr hpc, ← hsgl]
    rfl
  · rw [hasOrders_routine hr hpc, ← horders]
    rfl

theorem Unmoved.done (hr : s.routine g = some r) (hpc : r.pc = p) (hk : Kept s s₁)
    (hl : Unlocked s s₁) (hsgl : p.hasSgl = false) (horders : p.hasOrders = false) :
    Unmoved s (s₁.done g) := by
  have hlocks : Unlocked s (s₁.done g) := ⟨hl.sgl, hl.ordersLock⟩
  apply Unmoved.setRoutine none hlocks hk.conn (routine_done hk.routine)
  · intro b
    rw [hasSgl_routine hr hpc, hsgl, Bool.and_false]
    rfl
  · rw [hasOrders_routine hr hpc, horders]
    rfl

/-- A goroutine that is started has none of these locks. -/
theorem Unmoved.spawn (hmade : Made s) (hk : Kept s s₁) (hl : Unlocked s s₁)
    (hsgl : r'.pc.hasSgl = false) (horders : r'.pc.hasOrders = false) :
    Unmoved s (s₁.spawn r') := by
  have hlocks : Unlocked s (s₁.spawn r') := ⟨hl.sgl, hl.ordersLock⟩
  apply Unmoved.setRoutine (g := s.nextRoutine) (some r') hlocks hk.conn
  · unfold Sys.spawn
    dsimp only
    rw [hk.routine, hk.nextRoutine]
  · intro b
    unfold Sys.hasSgl
    rw [hmade.routine _ le_rfl, Option.elim_some, hsgl, Bool.and_false]
    rfl
  · unfold Sys.hasOrders
    dsimp only
    rw [hmade.routine _ le_rfl, Option.elim_some, horders]
    rfl

theorem Unmoved.spawn_goto (hmade : Made s) (hr : s.routine g = some r) (hpc : r.pc = p)
    (hk : Kept s s₁) (hl : Unlocked s s₁) (hsgl' : r'.pc.hasSgl = false)
    (horders' : r'.pc.hasOrders = false) (hsgl : pc.hasSgl = p.hasSgl)
    (horders : pc.hasOrders = p.hasOrders) : Unmoved s ((s₁.spawn r').goto g r pc) := by
  have hr' : (s₁.spawn r').routine g = some r := by
    unfold Sys.spawn
    dsimp only
    rw [hk.nextRoutine, Function.update_of_ne (hmade.lt_nextRoutine hr).ne, hk.routine, hr]
  exact (Unmoved.spawn hmade hk hl hsgl' horders').trans
    (Unmoved.goto hr' hpc (Kept.refl _) (Unlocked.refl _) hsgl horders)

/-! ## The steps that lock and unlock -/

/-- A goroutine sends on `sgl` of its book or receives from it. -/
theorem LockSteps.of_sgl (y : Option (Routine N I T)) (x : Bool) (hr : s.routine g = some r)
    (hsgl : s'.sgl = Function.update s.sgl r.book x) (horders : s'.ordersLock = s.ordersLock)
    (hconn : s'.conn = s.conn) (hroutine : s'.routine = Function.update s.routine g y)
    (hy : ∀ b, (y.elim false fun r => decide (r.book = b) && r.pc.hasSgl) =
      (decide (r.book = b) && x))
    (hy' : (y.elim false fun r => r.pc.hasOrders) = s.hasOrders (.routine g))
    (hpass : Token.Pass (s.sgl r.book) (s.hasSgl r.book) x
      (Function.update (s.hasSgl r.book) g x)) : LockSteps s s' where
  sgl := by
    intro b
    rw [hasSgl_setRoutine y hroutine, hy, hsgl]
    by_cases hb : b = r.book
    · subst hb
      rw [Function.update_self, decide_eq_true rfl, Bool.true_and]
      exact hpass
    · have hfree : s.hasSgl b g = false := by
        rw [hasSgl_routine hr rfl, decide_eq_false (Ne.symm hb), Bool.false_and]
      rw [Function.update_of_ne hb, decide_eq_false (Ne.symm hb), Bool.false_and, ← hfree,
        Function.update_eq_self]
      exact .still
  orders := by
    rw [hasOrders_setRoutine y hconn hroutine, hy', Function.update_eq_self, horders]
    exact .still

theorem sgl_setSgl (x : Bool) :
    (s.setBook b { s.book b with sgl := x }).sgl = Function.update s.sgl b x := by
  funext b'
  unfold sgl setBook
  dsimp only
  by_cases hb : b' = b
  · subst hb
    rw [Function.update_self, Function.update_self]
  · rw [Function.update_of_ne hb, Function.update_of_ne hb]

theorem lockSgl_steps (hr : s.routine g = some r) (hpc : r.pc = .lockSgl)
    (hs : s.lockSgl r.book = some s₁) : LockSteps s (s₁.goto g r .lockMatchHead) := by
  unfold lockSgl at hs
  split at hs
  · cases hs
  next hfree =>
    cases hs
    refine LockSteps.of_sgl (some { r with pc := .lockMatchHead }) true hr (sgl_setSgl true) rfl rfl
      rfl (fun _ => rfl) ?_ ?_
    · rw [hasOrders_routine hr hpc]
      rfl
    · exact .send g (Bool.not_eq_true _ ▸ hfree)

theorem unlockSgl_steps (hr : s.routine g = some r) (hpc : r.pc = .unlockSgl)
    (hs : s.unlockSgl r.book = some s₁) : LockSteps s (s₁.done g) := by
  unfold unlockSgl at hs
  split at hs
  · cases hs
    refine LockSteps.of_sgl none false hr (sgl_setSgl false) rfl rfl rfl ?_ ?_ ?_
    · intro b
      rw [Bool.and_false]
      rfl
    · rw [hasOrders_routine hr hpc]
      rfl
    · apply Token.Pass.receive g
      rw [hasSgl_routine hr hpc, decide_eq_true rfl]
      rfl
  · cases hs

/-- A goroutine sends on `ordersLock` or receives from it. -/
theorem LockSteps.of_orders (x : Bool) (hr : s.routine g = some r) (hpc : r.pc = p)
    (hk : Kept s s₁) (hsgl : s₁.sgl = s.sgl) (horders : s₁.ordersLock = x)
    (hsgl' : pc.hasSgl = p.hasSgl) (hx : pc.hasOrders = x)
    (hpass : Token.Pass s.ordersLock s.hasOrders x (Function.update s.hasOrders (.routine g) x)) :
    LockSteps s (s₁.goto g r pc) where
  sgl := by
    intro b
    have hfree : (decide (r.book = b) && pc.hasSgl) = s.hasSgl b g := by
      rw [hasSgl_routine hr hpc, hsgl']
    rw [hasSgl_setRoutine (s := s) (some { r with pc }) (routine_goto hk.routine), Option.elim_some,
      hfree, Function.update_eq_self]
    show Token.Pass (s.sgl b) _ (s₁.sgl b) _
    rw [hsgl]
    exact .still
  orders := by
    have hconn : (s₁.goto g r pc).conn = s.conn := hk.conn
    rw [hasOrders_setRoutine (some { r with pc }) hconn (routine_goto hk.routine), Option.elim_some,
      hx]
    show Token.Pass s.ordersLock _ s₁.ordersLock _
    rw [horders]
    exact hpass

theorem lockOrders_spec (hs : s.lockOrders = some s') :
    s.ordersLock = false ∧ s'.ordersLock = true ∧ s'.sgl = s.sgl := by
  unfold lockOrders at hs
  split at hs
  · cases hs
  next hfree =>
    cases hs
    exact ⟨Bool.not_eq_true _ ▸ hfree, rfl, rfl⟩

theorem unlockOrders_spec (hs : s.unlockOrders = some s') :
    s'.ordersLock = false ∧ s'.sgl = s.sgl := by
  unfold unlockOrders at hs
  split at hs <;> cases hs
  exact ⟨rfl, rfl⟩

/-! ## The steps of the goroutines -/

theorem lockSteps_processActiveOrder (hmade : Made s) (hr : s.routine g = some r) (hpc : r.pc = p)
    (hs : s.processActiveOrder g r p = some s') : LockSteps s s' := by
  cases p with
  | lockSgl =>
    rcases Option.map_eq_some_iff.mp hs with ⟨s₁, hs₁, rfl⟩
    exact lockSgl_steps hr hpc hs₁
  | lockMatchHead =>
    rcases Option.map_eq_some_iff.mp hs with ⟨s₁, hs₁, rfl⟩
    exact Unmoved.steps (.goto hr hpc (kept_lock hs₁) (unlocked_lock hs₁) rfl rfl)
  | matchAt v shouldPopPrev curr =>
    cases curr with
    | none =>
      cases hs
      cases shouldPopPrev with
      | false => exact Unmoved.steps (.goto hr hpc (Kept.refl s) (Unlocked.refl s) rfl rfl)
      | true =>
        exact Unmoved.steps (.goto hr hpc (kept_setNext none) (unlocked_setNext none) rfl rfl)
    | some curr =>
      rcases Option.map_eq_some_iff.mp hs with ⟨s₁, hs₁, rfl⟩
      exact Unmoved.steps (.goto hr hpc (kept_lock hs₁) (unlocked_lock hs₁) rfl rfl)
  | matchTest v shouldPopPrev curr =>
    have hk : Kept s (if shouldPopPrev then s.setNext r.book r.side.opp 0 (some curr) else s) := by
      split
      · exact kept_setNext (some curr)
      · exact Kept.refl s
    have hl : Unlocked s (if shouldPopPrev then s.setNext r.book r.side.opp 0 (some curr) else s) := by
      split
      · exact unlocked_setNext (some curr)
      · exact Unlocked.refl s
    simp only [Sys.processActiveOrder] at hs
    split at hs
    · rcases Option.map_eq_some_iff.mp hs with ⟨s₁, hs₁, rfl⟩
      exact Unmoved.steps (.goto hr hpc (hk.trans (kept_unlock hs₁)) (hl.trans (unlocked_unlock hs₁))
        rfl rfl)
    · cases hs
      exact Unmoved.steps (.goto hr hpc (hk.trans (kept_makeChan _)) ⟨hl.sgl, hl.ordersLock⟩ rfl rfl)
  | matchQueue v curr ch =>
    rcases Option.map_eq_some_iff.mp hs with ⟨s₁, hs₁, rfl⟩
    dsimp only
    split
    · exact Unmoved.steps (.spawn_goto hmade hr hpc (kept_queue hs₁) (unlocked_queue hs₁) rfl rfl rfl
        rfl)
    · exact Unmoved.steps (.spawn_goto hmade hr hpc (kept_queue hs₁) (unlocked_queue hs₁) rfl rfl rfl
        rfl)
  | matchNext v shouldPopPrev curr =>
    cases hs
    exact Unmoved.steps (.goto hr hpc (Kept.refl s) (Unlocked.refl s) rfl rfl)
  | matchEnd v =>
    rcases Option.map_eq_some_iff.mp hs with ⟨s₁, hs₁, rfl⟩
    split
    · exact Unmoved.steps (.goto hr hpc (kept_unlock hs₁) (unlocked_unlock hs₁) rfl rfl)
    · exact Unmoved.steps (.goto hr hpc (kept_unlock hs₁) (unlocked_unlock hs₁) rfl rfl)
  | lockAddHead v =>
    rcases Option.map_eq_some_iff.mp hs with ⟨s₁, hs₁, rfl⟩
    exact Unmoved.steps (.goto hr hpc (kept_lock hs₁) (unlocked_lock hs₁) rfl rfl)
  | lockOrders v =>
    rcases Option.map_eq_some_iff.mp hs with ⟨s₁, hs₁, rfl⟩
    obtain ⟨hfree, hfull, hsgl⟩ := lockOrders_spec hs₁
    exact .of_orders true hr hpc (kept_lockOrders hs₁) hsgl hfull rfl rfl (.send _ hfree)
  | setOrder v =>
    cases hs
    refine Unmoved.steps ?_
    refine Unmoved.setRoutine (some { r with order := r.order.setCount v, pc := .unlockOrders })
      ⟨rfl, rfl⟩ rfl rfl ?_ ?_
    · intro b
      rw [hasSgl_routine hr hpc]
      rfl
    · rw [hasOrders_routine hr hpc]
      rfl
  | unlockOrders =>
    rcases Option.map_eq_some_iff.mp hs with ⟨s₁, hs₁, rfl⟩
    obtain ⟨hfree, hsgl⟩ := unlockOrders_spec hs₁
    exact .of_orders false hr hpc (kept_unlockOrders hs₁) hsgl hfree rfl rfl
      (.receive _ (hasOrders_routine hr hpc))
  | addQueue =>
    rcases Option.map_eq_some_iff.mp hs with ⟨s₁, hs₁, rfl⟩
    have hl := unlocked_queue (s := s.makeChan 1) hs₁
    exact Unmoved.steps (.spawn_goto hmade hr hpc ((kept_makeChan 1).trans (kept_queue hs₁))
      ⟨hl.sgl, hl.ordersLock⟩ rfl rfl rfl rfl)
  | unlockSgl =>
    rcases Option.map_eq_some_iff.mp hs with ⟨s₁, hs₁, rfl⟩
    exact unlockSgl_steps hr hpc hs₁
  | _ => cases hs

theorem unmoved_executeOrder (hr : s.routine g = some r) (hpc : r.pc = p)
    (hs : s.executeOrder g r p = some s') : Unmoved s s' := by
  cases p with
  | exec countLeftToMatch node ch =>
    simp only [Sys.executeOrder] at hs
    split at hs
    · cases hs
      exact .goto hr hpc (kept_closeChan ch) ⟨rfl, rfl⟩ rfl rfl
    · split at hs
      · cases hs
        exact .goto hr hpc (kept_closeChan ch) ⟨rfl, rfl⟩ rfl rfl
      · split at hs <;> cases hs
        · exact .goto hr hpc (kept_setNode _) (unlocked_setNode _) rfl rfl
        · exact .goto hr hpc (kept_setNode _) (unlocked_setNode _) rfl rfl
  | execRemove restingId line countLeftToMatch node ch =>
    cases hs
    exact .goto hr hpc (kept_setOrders _) ⟨rfl, rfl⟩ rfl rfl
  | execSend line countLeftToMatch node ch =>
    rcases Option.map_eq_some_iff.mp hs with ⟨s₁, hs₁, rfl⟩
    exact .goto hr hpc (kept_send hs₁) (unlocked_send hs₁) rfl rfl
  | execUnlock node =>
    rcases Option.map_eq_some_iff.mp hs with ⟨s₁, hs₁, rfl⟩
    exact .done hr hpc (kept_unlock hs₁) (unlocked_unlock hs₁) rfl rfl
  | _ => cases hs

theorem unmoved_addOrder (hr : s.routine g = some r) (hpc : r.pc = p)
    (hs : s.addOrder g r p = some s') : Unmoved s s' := by
  cases p with
  | addFirst ch =>
    cases hs
    exact .goto hr hpc (Kept.refl s) (Unlocked.refl s) rfl rfl
  | addWalk curr next ch =>
    cases next with
    | none =>
      cases hs
      exact .goto hr hpc (Kept.refl s) (Unlocked.refl s) rfl rfl
    | some next =>
      rcases Option.map_eq_some_iff.mp hs with ⟨s₁, hs₁, rfl⟩
      exact .goto hr hpc (kept_lock hs₁) (unlocked_lock hs₁) rfl rfl
  | addTest curr next ch =>
    simp only [Sys.addOrder] at hs
    split at hs
    · rcases Option.map_eq_some_iff.mp hs with ⟨s₁, hs₁, rfl⟩
      exact .goto hr hpc (kept_unlock hs₁) (unlocked_unlock hs₁) rfl rfl
    · split at hs
      · rcases Option.map_eq_some_iff.mp hs with ⟨s₁, hs₁, rfl⟩
        exact .goto hr hpc (kept_unlock hs₁) (unlocked_unlock hs₁) rfl rfl
      · rcases Option.map_eq_some_iff.mp hs with ⟨s₁, hs₁, rfl⟩
        exact .goto hr hpc (kept_unlock hs₁) (unlocked_unlock hs₁) rfl rfl
  | addPlace curr ch =>
    simp only [Sys.addOrder] at hs
    split at hs <;> cases hs
    · exact .goto hr hpc (kept_setChain _) (unlocked_setBook rfl) rfl rfl
    · exact .goto hr hpc (Kept.refl s) (Unlocked.refl s) rfl rfl
  | addLinked prev curr ch =>
    rcases Option.map_eq_some_iff.mp hs with ⟨s₁, hs₁, rfl⟩
    exact .goto hr hpc (kept_unlock hs₁) (unlocked_unlock hs₁) rfl rfl
  | addAppend curr ch =>
    cases hs
    exact .goto hr hpc (kept_setNode _) (unlocked_setNode _) rfl rfl
  | addSend curr ch =>
    rcases Option.map_eq_some_iff.mp hs with ⟨s₁, hs₁, rfl⟩
    exact .goto hr hpc (kept_send hs₁) (unlocked_send hs₁) rfl rfl
  | addClose curr ch =>
    cases hs
    exact .goto hr hpc (kept_closeChan ch) ⟨rfl, rfl⟩ rfl rfl
  | addUnlock curr =>
    rcases Option.map_eq_some_iff.mp hs with ⟨s₁, hs₁, rfl⟩
    exact .done hr hpc (kept_unlock hs₁) (unlocked_unlock hs₁) rfl rfl
  | _ => cases hs

theorem unmoved_processCancelOrder (hr : s.routine g = some r) (hpc : r.pc = p)
    (hs : s.processCancelOrder g r p = some s') : Unmoved s s' := by
  cases p with
  | lockHead =>
    rcases Option.map_eq_some_iff.mp hs with ⟨s₁, hs₁, rfl⟩
    exact .goto hr hpc (kept_lock hs₁) (unlocked_lock hs₁) rfl rfl
  | cancelQueue =>
    rcases Option.map_eq_some_iff.mp hs with ⟨s₁, hs₁, rfl⟩
    have hl := unlocked_queue (s := s.makeChan 1) hs₁
    exact .goto hr hpc ((kept_makeChan 1).trans (kept_queue hs₁)) ⟨hl.sgl, hl.ordersLock⟩ rfl rfl
  | cancelFirst ch =>
    simp only [Sys.processCancelOrder] at hs
    split at hs
    · cases hs
      exact .goto hr hpc (Kept.refl s) (Unlocked.refl s) rfl rfl
    · rcases Option.map_eq_some_iff.mp hs with ⟨s₁, hs₁, rfl⟩
      exact .goto hr hpc (kept_lock hs₁) (unlocked_lock hs₁) rfl rfl
  | cancelAt prev curr ch =>
    cases curr with
    | none =>
      rcases Option.map_eq_some_iff.mp hs with ⟨s₁, hs₁, rfl⟩
      exact .goto hr hpc (kept_unlock hs₁) (unlocked_unlock hs₁) rfl rfl
    | some curr =>
      simp only [Sys.processCancelOrder] at hs
      split at hs
      · split at hs
        · rcases Option.map_eq_some_iff.mp hs with ⟨s₁, hs₁, rfl⟩
          exact .goto hr hpc (kept_unlock hs₁) (unlocked_unlock hs₁) rfl rfl
        · rcases Option.map_eq_some_iff.mp hs with ⟨s₁, hs₁, rfl⟩
          exact .goto hr hpc (kept_lock hs₁) (unlocked_lock hs₁) rfl rfl
      · split at hs
        · rcases Option.map_eq_some_iff.mp hs with ⟨s₁, hs₁, rfl⟩
          exact .goto hr hpc (kept_unlock hs₁) (unlocked_unlock hs₁) rfl rfl
        next e _ =>
          cases hs
          have hl : Unlocked s (s.setNode r.book r.side curr
              { s.node r.book r.side curr with
                toOrderNode := (s.node r.book r.side curr).toOrderNode.remove e
                  ((s.node r.book r.side curr).orders.eraseP (sameId r.order)) }) := unlocked_setNode _
          exact .goto hr hpc ((kept_setNode _).trans (kept_cancelled _)) ⟨hl.sgl, hl.ordersLock⟩ rfl
            rfl
  | cancelOn prev curr next ch =>
    rcases Option.map_eq_some_iff.mp hs with ⟨s₁, hs₁, rfl⟩
    exact .goto hr hpc (kept_unlock hs₁) (unlocked_unlock hs₁) rfl rfl
  | cancelRemove prev curr ch =>
    cases hs
    exact .goto hr hpc (kept_setOrders _) ⟨rfl, rfl⟩ rfl rfl
  | cancelUnlink prev curr ch =>
    rcases Option.map_eq_some_iff.mp hs with ⟨s₁, hs₁, rfl⟩
    split at hs₁
    · exact .goto hr hpc ((kept_setNext _).trans (kept_unlock hs₁))
        ((unlocked_setNext _).trans (unlocked_unlock hs₁)) rfl rfl
    · exact .goto hr hpc (kept_unlock hs₁) (unlocked_unlock hs₁) rfl rfl
  | cancelUnlock curr accepted ch =>
    rcases Option.map_eq_some_iff.mp hs with ⟨s₁, hs₁, rfl⟩
    exact .goto hr hpc (kept_unlock hs₁) (unlocked_unlock hs₁) rfl rfl
  | cancelSend accepted ch =>
    rcases Option.map_eq_some_iff.mp hs with ⟨s₁, hs₁, rfl⟩
    exact .goto hr hpc (kept_send hs₁) (unlocked_send hs₁) rfl rfl
  | cancelClose ch =>
    cases hs
    exact .done hr hpc (kept_closeChan ch) ⟨rfl, rfl⟩ rfl rfl
  | _ => cases hs

theorem lockSteps_routineStep (hmade : Made s) (hr : s.routine g = some r)
    (hs : s.routineStep g r = some s') : LockSteps s s' := by
  unfold Sys.routineStep at hs
  split at hs
  all_goals
    first
      | exact (unmoved_executeOrder hr rfl hs).steps
      | exact (unmoved_addOrder hr rfl hs).steps
      | exact (unmoved_processCancelOrder hr rfl hs).steps
      | exact lockSteps_processActiveOrder hmade hr rfl hs

/-! ## The other steps -/

section Conn

variable {c p pc : ConnPc N I T}

theorem hasOrders_setConn (x : Connection N I T) (hconn : s'.conn = Function.update s.conn t x)
    (hroutine : s'.routine = s.routine) :
    s'.hasOrders = Function.update s.hasOrders (.conn t) x.pc.hasOrders := by
  funext y
  cases y with
  | conn u =>
    by_cases hu : u = t
    · subst hu
      rw [Function.update_self]
      simp only [hasOrders, hconn, Function.update_self]
    · have hne : (Actor.conn u : Actor T) ≠ .conn t := fun h => hu (Actor.conn.inj h)
      rw [Function.update_of_ne hne]
      simp only [hasOrders, hconn, Function.update_of_ne hu]
  | routine g => simp only [hasOrders, hroutine, ne_eq, reduceCtorEq, not_false_eq_true,
      Function.update_of_ne]
  | dispatcher b => rfl
  | printer => rfl

theorem hasOrders_conn (hpc : (s.conn t).pc = p) : s.hasOrders (.conn t) = p.hasOrders := by
  simp only [hasOrders, hpc]

theorem hasSgl_congr (hroutine : s'.routine = s.routine) : s'.hasSgl = s.hasSgl := by
  funext b g
  simp only [hasSgl, hroutine]

theorem Unmoved.setConn (x : Connection N I T) (hpc : (s.conn t).pc = p) (hl : Unlocked s s')
    (hconn : s'.conn = Function.update s.conn t x) (hroutine : s'.routine = s.routine)
    (hx : x.pc.hasOrders = p.hasOrders) : Unmoved s s' where
  toUnlocked := hl
  hasSgl := hasSgl_congr hroutine
  hasOrders := by
    rw [hasOrders_setConn x hconn hroutine, hx, ← hasOrders_conn hpc, Function.update_eq_self]

theorem Unmoved.connGoto (hpc : (s.conn t).pc = p) (hconn : s₁.conn = s.conn)
    (hroutine : s₁.routine = s.routine) (hl : Unlocked s s₁) (hx : pc.hasOrders = p.hasOrders) :
    Unmoved s (s₁.connGoto t pc) := by
  refine Unmoved.setConn { s₁.conn t with pc } hpc ⟨hl.sgl, hl.ordersLock⟩ ?_ hroutine hx
  unfold Sys.connGoto
  rw [hconn]

/-- A connection sends on `ordersLock` or receives from it. -/
theorem LockSteps.conn_orders (x : Bool) (hconn : s₁.conn = s.conn)
    (hroutine : s₁.routine = s.routine) (hsgl : s₁.sgl = s.sgl) (horders : s₁.ordersLock = x)
    (hx : pc.hasOrders = x)
    (hpass : Token.Pass s.ordersLock s.hasOrders x (Function.update s.hasOrders (.conn t) x)) :
    LockSteps s (s₁.connGoto t pc) where
  sgl := by
    intro b
    have hsgl' : (s₁.connGoto t pc).hasSgl = s.hasSgl := hasSgl_congr hroutine
    rw [hsgl']
    show Token.Pass (s.sgl b) _ (s₁.sgl b) _
    rw [hsgl]
    exact .still
  orders := by
    have hconn' : (s₁.connGoto t pc).conn = Function.update s.conn t { s₁.conn t with pc } := by
      unfold Sys.connGoto
      rw [hconn]
    rw [hasOrders_setConn _ hconn' hroutine, hx]
    show Token.Pass s.ordersLock _ s₁.ordersLock _
    rw [horders]
    exact hpass

theorem routine_sendEvent {event : Event N I T} (hs : s.sendEvent b event = some s') :
    s'.routine = s.routine := by
  unfold sendEvent at hs
  split at hs <;> cases hs
  rfl

theorem lockSteps_handleConn (hs : s.handleConn t = some s') : LockSteps s s' := by
  unfold Sys.handleConn at hs
  cases hpc : (s.conn t).pc with
  | start =>
    rw [hpc] at hs
    cases hs
    exact Unmoved.steps (.setConn _ hpc ⟨rfl, rfl⟩ rfl rfl rfl)
  | ready =>
    rw [hpc] at hs
    dsimp only at hs
    split at hs
    · cases hs
    next command cmds hcmds =>
      split at hs <;> cases hs
      · exact Unmoved.steps (.setConn _ hpc ⟨rfl, rfl⟩ (Function.update_idem ..) rfl rfl)
      · exact Unmoved.steps (.setConn _ hpc ⟨rfl, rfl⟩ (Function.update_idem ..) rfl rfl)
  | getBook c o =>
    rw [hpc] at hs
    dsimp only at hs
    split at hs <;> cases hs
    · exact Unmoved.steps (.connGoto hpc rfl rfl (Unlocked.refl s) rfl)
    · exact Unmoved.steps (.connGoto hpc rfl rfl ⟨rfl, rfl⟩ rfl)
  | setBook c o b =>
    rw [hpc] at hs
    cases hs
    exact Unmoved.steps (.connGoto hpc rfl rfl ⟨rfl, rfl⟩ rfl)
  | getAgain c o =>
    rw [hpc] at hs
    dsimp only at hs
    split at hs <;> cases hs
    exact Unmoved.steps (.connGoto hpc rfl rfl (Unlocked.refl s) rfl)
  | send b event =>
    rw [hpc] at hs
    rcases Option.map_eq_some_iff.mp hs with ⟨s₁, hs₁, rfl⟩
    exact Unmoved.steps (.connGoto hpc (conn_sendEvent hs₁) (routine_sendEvent hs₁)
      (unlocked_sendEvent hs₁) rfl)
  | lockOrders c orderId =>
    rw [hpc] at hs
    rcases Option.map_eq_some_iff.mp hs with ⟨s₁, hs₁, rfl⟩
    have hk := kept_lockOrders hs₁
    obtain ⟨hfree, hfull, hsgl⟩ := lockOrders_spec hs₁
    exact .conn_orders true hk.conn hk.routine hsgl hfull rfl (.send _ hfree)
  | getOrder c orderId =>
    rw [hpc] at hs
    dsimp only at hs
    split at hs <;> cases hs
    · exact Unmoved.steps (.connGoto hpc rfl rfl (Unlocked.refl s) rfl)
    · exact Unmoved.steps (.connGoto hpc rfl rfl (Unlocked.refl s) rfl)
  | missQueue c orderId =>
    rw [hpc] at hs
    rcases Option.map_eq_some_iff.mp hs with ⟨s₁, hs₁, rfl⟩
    have hk := (kept_makeChan (s := s) 1).trans (kept_queue hs₁)
    have hl := unlocked_queue (s := s.makeChan 1) hs₁
    exact Unmoved.steps (.connGoto hpc hk.conn hk.routine ⟨hl.sgl, hl.ordersLock⟩ rfl)
  | missUnlock c orderId ch =>
    rw [hpc] at hs
    rcases Option.map_eq_some_iff.mp hs with ⟨s₁, hs₁, rfl⟩
    have hk := kept_unlockOrders hs₁
    obtain ⟨hfree, hsgl⟩ := unlockOrders_spec hs₁
    exact .conn_orders false hk.conn hk.routine hsgl hfree rfl (.receive _ (hasOrders_conn hpc))
  | foundUnlock c orderId o =>
    rw [hpc] at hs
    rcases Option.map_eq_some_iff.mp hs with ⟨s₁, hs₁, rfl⟩
    have hk := kept_unlockOrders hs₁
    obtain ⟨hfree, hsgl⟩ := unlockOrders_spec hs₁
    split
    · exact .conn_orders false hk.conn hk.routine hsgl hfree rfl (.receive _ (hasOrders_conn hpc))
    · exact .conn_orders false hk.conn hk.routine hsgl hfree rfl (.receive _ (hasOrders_conn hpc))
  | foreignQueue c orderId =>
    rw [hpc] at hs
    rcases Option.map_eq_some_iff.mp hs with ⟨s₁, hs₁, rfl⟩
    have hk := (kept_makeChan (s := s) 1).trans (kept_queue hs₁)
    have hl := unlocked_queue (s := s.makeChan 1) hs₁
    exact Unmoved.steps (.connGoto hpc hk.conn hk.routine ⟨hl.sgl, hl.ordersLock⟩ rfl)
  | getBookOf c o =>
    rw [hpc] at hs
    dsimp only at hs
    split at hs <;> cases hs
    exact Unmoved.steps (.connGoto hpc rfl rfl (Unlocked.refl s) rfl)
  | reject c orderId ch =>
    rw [hpc] at hs
    rcases Option.map_eq_some_iff.mp hs with ⟨s₁, hs₁, rfl⟩
    have hk := kept_send hs₁
    exact Unmoved.steps (.connGoto hpc hk.conn hk.routine (unlocked_send hs₁) rfl)
  | close ch =>
    rw [hpc] at hs
    cases hs
    exact Unmoved.steps (.connGoto hpc rfl rfl ⟨rfl, rfl⟩ rfl)

end Conn

theorem unmoved_dispatch (hmade : Made s) (hs : s.dispatch b = some s') : Unmoved s s' := by
  unfold Sys.dispatch at hs
  split at hs
  · cases hs
  next event rest hqueue =>
    cases hs
    have hl : Unlocked s (s.setBook b { s.book b with ordersChn := rest }) := unlocked_setBook rfl
    refine Unmoved.setRoutine (some _) (g := s.nextRoutine) ⟨hl.sgl, hl.ordersLock⟩ rfl rfl ?_ ?_
    · intro b'
      unfold Sys.hasSgl
      rw [hmade.routine _ le_rfl, Option.elim_some]
      dsimp only
      split
      · exact Bool.and_false _
      · exact Bool.and_false _
    · unfold Sys.hasOrders
      dsimp only
      rw [hmade.routine _ le_rfl, Option.elim_some]
      dsimp only
      split
      · rfl
      · rfl

theorem unmoved_printOutputChnl (hs : s.printOutputChnl = some s') : Unmoved s s' := by
  have hk := kept_printOutputChnl hs
  have horders : s'.hasOrders = s.hasOrders := by
    funext x
    cases x with
    | conn t => simp only [hasOrders, hk.conn]
    | routine g => simp only [hasOrders, hk.routine]
    | dispatcher b => rfl
    | printer => rfl
  refine ⟨?_, hasSgl_congr hk.routine, horders⟩
  unfold Sys.printOutputChnl at hs
  split at hs
  · split at hs <;> cases hs
    exact ⟨rfl, rfl⟩
  · dsimp only at hs
    split at hs
    · cases hs
      exact ⟨rfl, rfl⟩
    · split at hs <;> cases hs
      exact ⟨rfl, rfl⟩

theorem lockSteps_step (hmade : Made s) (hs : s.step a = some s') : LockSteps s s' := by
  unfold Sys.step at hs
  cases a with
  | conn t => exact lockSteps_handleConn hs
  | dispatcher b => exact (unmoved_dispatch hmade hs).steps
  | routine g =>
    dsimp only at hs
    split at hs
    · cases hs
    next r hr => exact lockSteps_routineStep hmade hr hs
  | printer => exact (unmoved_printOutputChnl hs).steps

/-! ## The invariant -/

/-- Each lock is full while somebody has it, and only one has. -/
structure Locked (s : Sys N I T) : Prop where
  sgl : ∀ b, Token (s.sgl b) fun g => s.hasSgl b g = true
  orders : Token s.ordersLock fun x => s.hasOrders x = true

theorem locked_init (cmds : T → List (Command N I)) : Locked (init cmds) where
  sgl := fun _ => Token.empty fun _ h => nomatch h
  orders := by
    apply Token.empty
    intro x h
    cases x <;> cases h

theorem Locked.steps (h : Locked s) (hsteps : LockSteps s s') : Locked s' where
  sgl := fun b => (h.sgl b).pass (hsteps.sgl b)
  orders := h.orders.pass hsteps.orders

theorem Reachable.locked {cmds : T → List (Command N I)} (h : Reachable cmds s) : Locked s := by
  induction h with
  | init => exact locked_init cmds
  | step hr hs ih => exact ih.steps (lockSteps_step hr.made hs)

end Sys

end MatchingEngine.Go
