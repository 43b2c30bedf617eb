import MatchingEngine.Go.Output
import MatchingEngine.Lib.CoupledList

/-!
# The chains of the Go engine

The nodes of one side of a book are a list locked hand over hand: `AddOrder` inserts, `CancelOrder`
takes a node out, `MatchOrder` takes nodes off the front and gives each to an `executeOrder`.
Every step of the engine is a few steps of such a list, or none, so what holds of the list holds of
every chain in every interleaving.
-/

set_option linter.unusedSectionVars false

namespace MatchingEngine.Go

open CoupledList (Spot Store Step Move Take Drop Relink)

variable {N I T : Type} [Quantity N] [DecidableEq I] [DecidableEq T]

/-- Where a goroutine for an order of this price is in the chain of its own side. -/
def Pc.own (price : UInt32) : Pc N I → Spot UInt32
  | .lockOrders _ | .setOrder _ | .unlockOrders | .addQueue | .addFirst _ => .head
  | .addWalk curr next _ => .walk price curr next
  | .addTest curr next _ => .test price curr next
  | .addPlace curr _ => .place price curr
  | .addLinked prev curr _ => .linked prev curr
  | .addAppend curr _ | .addSend curr _ | .addClose curr _ | .addUnlock curr => .on curr
  | .cancelQueue | .cancelFirst _ => .head
  | .cancelAt prev curr _ => .seek prev curr
  | .cancelOn prev curr next _ => .seekOn prev curr next
  | .cancelRemove prev curr _ | .cancelUnlink prev curr _ => .found prev curr
  | .cancelUnlock curr _ _ => .off curr
  | _ => .away

/-- Where it is in the chain of the other side.  With nothing left to match and nothing popped,
    `MatchOrder` has come past the node that it leaves in the chain. -/
def Pc.opposite : Pc N I → Spot UInt32
  | .matchAt v shouldPopPrev curr =>
    if v = 0 ∧ shouldPopPrev = false then .stop curr else .visit shouldPopPrev curr
  | .matchTest v shouldPopPrev curr =>
    if v = 0 ∧ shouldPopPrev = false then .stopAt curr else .probe shouldPopPrev curr
  | .matchQueue _ curr _ => .fill curr
  | .matchNext _ shouldPopPrev curr => if shouldPopPrev then .popped curr else .kept curr
  | .matchEnd _ => .leave
  | .exec _ node _ | .execRemove _ _ _ node _ | .execSend _ _ node _ | .execUnlock node =>
    .work node
  | _ => .away

/-- Nothing is left to match once a node stays in the chain. -/
def Pc.Spent : Pc N I → Prop
  | .matchNext v false _ => v = 0
  | _ => True

/-- Where a goroutine is in this chain. -/
def Routine.spot (r : Routine N I T) (b : OrderBookPtr) (sd : Side) : Spot UInt32 :=
  if r.book = b then if r.side = sd then r.pc.own r.order.price else r.pc.opposite else .away

/-- A chain as a list of cells. -/
def Chain.store (c : Chain N I T) : Store UInt32 (OrderNode N I (RId T)) where
  cell a :=
    { key := (c.node a).price, val := (c.node a).toOrderNode, next := (c.node a).next,
      lock := (c.node a).lock }
  fresh := c.nextNode

namespace Sys

/-- Where the goroutines are in this chain. -/
def spots (s : Sys N I T) (b : OrderBookPtr) (sd : Side) (g : ℕ) : Spot UInt32 :=
  (s.routine g).elim .away fun r => r.spot b sd

def store (s : Sys N I T) (b : OrderBookPtr) (sd : Side) : Store UInt32 (OrderNode N I (RId T)) :=
  (s.chain b sd).store

variable {s s₁ s₂ s' : Sys N I T} {a : Actor T} {t : T} {g : ℕ} {r r' : Routine N I T}
  {b b' : OrderBookPtr} {sd sd' : Side} {n : NodePtr} {p pc : Pc N I}

/-! ## The operations on nodes -/

theorem chain_setChain_self (c : Chain N I T) : (s.setChain b sd c).chain b sd = c := by
  unfold Sys.chain setChain setBook
  dsimp only
  rw [Function.update_self]
  exact Function.update_self ..

theorem chain_setChain_ne (c : Chain N I T) (h : ¬ (b' = b ∧ sd' = sd)) :
    (s.setChain b sd c).chain b' sd' = s.chain b' sd' := by
  unfold Sys.chain setChain setBook
  dsimp only
  by_cases hb : b' = b
  · subst hb
    rw [Function.update_self]
    dsimp only
    rw [Function.update_of_ne fun hsd => h ⟨rfl, hsd⟩]
  · rw [Function.update_of_ne hb]

/-- A cell of the list for each node. -/
theorem store_setNode (x : Node N I T) :
    (s.setNode b sd n x).store b sd = (s.store b sd).setCell n
      { key := x.price, val := x.toOrderNode, next := x.next, lock := x.lock } := by
  unfold store setNode
  rw [chain_setChain_self]
  unfold Chain.store Store.setCell
  dsimp only
  congr 1
  funext a
  by_cases ha : a = n
  · subst ha
    rw [Function.update_self, Function.update_self]
  · rw [Function.update_of_ne ha, Function.update_of_ne ha]

theorem store_setNode_ne (x : Node N I T) (h : ¬ (b' = b ∧ sd' = sd)) :
    (s.setNode b sd n x).store b' sd' = s.store b' sd' :=
  congrArg Chain.store (chain_setChain_ne _ h)

/-- The step leaves every chain but one alone. -/
def Elsewhere (s s' : Sys N I T) (b : OrderBookPtr) (sd : Side) : Prop :=
  ∀ b' sd', ¬ (b' = b ∧ sd' = sd) → s'.store b' sd' = s.store b' sd'

theorem lock_chain (hs : s.lock b sd n = some s') :
    ((s.store b sd).cell n).lock = false ∧ s'.store b sd = (s.store b sd).setLock n true ∧
      Elsewhere s s' b sd := by
  unfold lock at hs
  split at hs
  · cases hs
  next hfree =>
    cases hs
    exact ⟨Bool.not_eq_true _ ▸ hfree, store_setNode _, fun _ _ h => store_setNode_ne _ h⟩

theorem unlock_chain (hs : s.unlock b sd n = some s') :
    s'.store b sd = (s.store b sd).setLock n false ∧ Elsewhere s s' b sd := by
  unfold unlock at hs
  split at hs
  · cases hs
    exact ⟨store_setNode _, fun _ _ h => store_setNode_ne _ h⟩
  · cases hs

theorem setNext_chain (s : Sys N I T) (b : OrderBookPtr) (sd : Side) (n : NodePtr)
    (next : Option NodePtr) :
    (s.setNext b sd n next).store b sd = (s.store b sd).setNext n next ∧
      Elsewhere s (s.setNext b sd n next) b sd :=
  ⟨store_setNode _, fun _ _ h => store_setNode_ne _ h⟩

/-- The orders of a node change, not its price. -/
theorem setOrders_chain (x : OrderNode N I (RId T)) (hx : x.price = (s.node b sd n).price) :
    (s.setNode b sd n { s.node b sd n with toOrderNode := x }).store b sd =
        (s.store b sd).setVal n x ∧
      Elsewhere s (s.setNode b sd n { s.node b sd n with toOrderNode := x }) b sd := by
  refine ⟨?_, fun _ _ h => store_setNode_ne _ h⟩
  rw [store_setNode]
  unfold Store.setVal
  dsimp only
  rw [hx]
  rfl

/-! ## The steps of the list -/

/-- A chain with the places of the goroutines in it. -/
abbrev View (N I T : Type) := Store UInt32 (OrderNode N I (RId T)) × (ℕ → Spot UInt32)

/-- One step of the goroutine `g` in a chain of this side. -/
def ChainStep (sd : Side) (g : ℕ) (x y : View N I T) : Prop := Step sd.Better x.1 x.2 g y.1 y.2

section ChainStep

variable {S : Store UInt32 (OrderNode N I (RId T))} {f : ℕ → Spot UInt32} {σ σ' : Spot UInt32}

theorem chainStep_move (hf : f g = σ) (hm : Move S σ σ') :
    ChainStep sd g (S, f) (S, Function.update f g σ') := by
  subst hf
  exact Step.move σ' hm

theorem chainStep_take (hf : f g = σ) (ht : Take S σ n σ') (hfree : (S.cell n).lock = false) :
    ChainStep sd g (S, f) (S.setLock n true, Function.update f g σ') := by
  subst hf
  exact Step.take n σ' ht hfree

theorem chainStep_drop (hf : f g = σ) (hd : Drop sd.Better S σ n σ') :
    ChainStep sd g (S, f) (S.setLock n false, Function.update f g σ') := by
  subst hf
  exact Step.drop n σ' hd

theorem chainStep_write (x : OrderNode N I (RId T)) (hf : f g = σ) (hn : n ∈ σ.locks) :
    ChainStep sd g (S, f) (S.setVal n x, f) := by
  subst hf
  exact Step.write n x hn

end ChainStep

def view (s : Sys N I T) (b : OrderBookPtr) (sd : Side) : View N I T := (s.store b sd, s.spots b sd)

/-- Every chain has gone some steps of `g`, and the goroutines that have moved are where they may be. -/
structure ChainSteps (s : Sys N I T) (g : ℕ) (s' : Sys N I T) : Prop where
  steps : ∀ b sd, Relation.ReflTransGen (ChainStep sd g) (s.view b sd) (s'.view b sd)
  spent : ∀ g r, s'.routine g = some r → s.routine g = some r ∨ r.pc.Spent

theorem spots_setRoutine (y : Option (Routine N I T))
    (hroutine : s'.routine = Function.update s.routine g y) (b : OrderBookPtr) (sd : Side) :
    s'.spots b sd = Function.update (s.spots b sd) g (y.elim .away fun r => r.spot b sd) := by
  funext g'
  by_cases hg : g' = g
  · subst hg
    rw [Function.update_self]
    simp only [spots, hroutine, Function.update_self]
  · rw [Function.update_of_ne hg]
    simp only [spots, hroutine, Function.update_of_ne hg]

theorem spots_congr (hroutine : s'.routine = s.routine) : s'.spots = s.spots := by
  funext b sd g
  simp only [spots, hroutine]

theorem spots_routine (hr : s.routine g = some r) : s.spots b sd g = r.spot b sd := by
  simp only [spots, hr, Option.elim_some]

theorem spots_goto : (s.goto g r pc).spots b sd =
    Function.update (s.spots b sd) g (Routine.spot { r with pc } b sd) :=
  spots_setRoutine (some { r with pc }) rfl b sd

theorem spots_spawn : (s.spawn r).spots b sd =
    Function.update (s.spots b sd) s.nextRoutine (r.spot b sd) :=
  spots_setRoutine (some r) rfl b sd

theorem spot_of_away (hown : r.pc.own r.order.price = .away) (hopp : r.pc.opposite = .away) :
    r.spot b sd = .away := by
  unfold Routine.spot
  rw [hown, hopp]
  split
  · split <;> rfl
  · rfl

/-- The goroutine is as good as gone when it has no place. -/
theorem spots_done (r : Routine N I T) : (s.done g).spots = (s.goto g r .unlockSgl).spots := by
  funext b sd
  rw [spots_goto, spot_of_away rfl rfl]
  exact spots_setRoutine none rfl b sd

theorem spent_goto (hroutine : s₁.routine = s.routine) (hspent : pc.Spent) :
    ∀ g' r', (s₁.goto g r pc).routine g' = some r' → s.routine g' = some r' ∨ r'.pc.Spent := by
  intro g' r' hr'
  unfold Sys.goto at hr'
  dsimp only at hr'
  by_cases hg : g' = g
  · subst hg
    rw [Function.update_self] at hr'
    cases hr'
    exact Or.inr hspent
  · rw [Function.update_of_ne hg, hroutine] at hr'
    exact Or.inl hr'

/-- From one place to another the goroutine moves in one chain of its book. -/
inductive Shift (r : Routine N I T) (p pc : Pc N I) : Side → Spot UInt32 → Spot UInt32 → Prop
  | own (h : pc.opposite = p.opposite) (hspent : pc.Spent) :
    Shift r p pc r.side (p.own r.order.price) (pc.own r.order.price)
  | opposite (h : pc.own r.order.price = p.own r.order.price) (hspent : pc.Spent) :
    Shift r p pc r.side.opp p.opposite pc.opposite

section Shifts

variable {σ σ' τ : Spot UInt32}

theorem Shift.spent (h : Shift r p pc sd σ σ') : pc.Spent := by
  cases h with
  | own h hspent => exact hspent
  | opposite h hspent => exact hspent

theorem Shift.spot (h : Shift r p pc sd σ σ') (hpc : r.pc = p) : r.spot r.book sd = σ := by
  subst hpc
  unfold Routine.spot
  cases h with
  | own h => rw [if_pos rfl, if_pos rfl]
  | opposite h => rw [if_pos rfl, if_neg (PriceTime.Side.ne_opp r.side)]

theorem Shift.spot_goto (h : Shift r p pc sd σ σ') :
    Routine.spot { r with pc } r.book sd = σ' := by
  unfold Routine.spot
  cases h with
  | own h => rw [if_pos rfl, if_pos rfl]
  | opposite h => rw [if_pos rfl, if_neg (PriceTime.Side.ne_opp r.side)]

theorem Shift.spot_other (h : Shift r p pc sd σ σ') (hne : ¬ (b' = r.book ∧ sd' = sd)) :
    Routine.spot { r with pc } b' sd' = Routine.spot { r with pc := p } b' sd' := by
  unfold Routine.spot
  dsimp only
  by_cases hb : r.book = b'
  · subst hb
    rw [if_pos rfl, if_pos rfl]
    cases h with
    | own h => rw [if_neg fun hsd => hne ⟨rfl, hsd.symm⟩, if_neg fun hsd => hne ⟨rfl, hsd.symm⟩, h]
    | opposite h =>
      have hsd : r.side = sd' := by
        rcases PriceTime.Side.eq_or_eq_opp r.side sd' with heq | heq
        · exact heq.symm
        · exact absurd ⟨rfl, heq⟩ hne
      rw [if_pos hsd, if_pos hsd, h]
  · rw [if_neg hb, if_neg hb]

/-- What happens in that chain is all that happens. -/
theorem Shift.steps (hr : s.routine g = some r) (hpc : r.pc = p) (h : Shift r p pc sd σ σ')
    (hroutine : s₁.routine = s.routine) (helse : Elsewhere s s₁ r.book sd)
    (hsteps : s.spots r.book sd g = σ → Relation.ReflTransGen (ChainStep sd g) (s.view r.book sd)
      (s₁.store r.book sd, Function.update (s.spots r.book sd) g σ')) :
    ChainSteps s g (s₁.goto g r pc) where
  steps := by
    intro b' sd'
    unfold view
    rw [spots_goto, spots_congr hroutine]
    by_cases hne : b' = r.book ∧ sd' = sd
    · obtain ⟨rfl, rfl⟩ := hne
      rw [h.spot_goto]
      exact hsteps ((spots_routine hr).trans (h.spot hpc))
    · subst hpc
      rw [h.spot_other hne, ← spots_routine hr, Function.update_eq_self]
      show Relation.ReflTransGen _ _ (s₁.store b' sd', _)
      rw [helse b' sd' hne]
  spent := spent_goto hroutine h.spent

theorem Shift.move (hr : s.routine g = some r) (hpc : r.pc = p) (h : Shift r p pc sd σ σ')
    (hroutine : s₁.routine = s.routine) (hstore : s₁.store = s.store)
    (hm : Move (s.store r.book sd) σ σ') : ChainSteps s g (s₁.goto g r pc) := by
  apply Shift.steps hr hpc h hroutine (fun b' sd' _ => congrFun (congrFun hstore b') sd')
  intro hσ
  rw [hstore]
  exact .single (chainStep_move hσ hm)

theorem Shift.take (hr : s.routine g = some r) (hpc : r.pc = p) (h : Shift r p pc sd σ σ')
    (hs : s.lock r.book sd n = some s₁) (ht : Take (s.store r.book sd) σ n σ') :
    ChainSteps s g (s₁.goto g r pc) := by
  obtain ⟨hfree, hstore, helse⟩ := lock_chain hs
  apply Shift.steps hr hpc h (kept_lock hs).routine helse
  intro hσ
  rw [hstore]
  exact .single (chainStep_take hσ ht hfree)

theorem Shift.drop (hr : s.routine g = some r) (hpc : r.pc = p) (h : Shift r p pc sd σ σ')
    (hs : s.unlock r.book sd n = some s₁) (hd : Drop sd.Better (s.store r.book sd) σ n σ') :
    ChainSteps s g (s₁.goto g r pc) := by
  obtain ⟨hstore, helse⟩ := unlock_chain hs
  apply Shift.steps hr hpc h (kept_unlock hs).routine helse
  intro hσ
  rw [hstore]
  exact .single (chainStep_drop hσ hd)

/-- The sentinel's link first, then the rest. -/
theorem Shift.relink {next : Option NodePtr} (hr : s.routine g = some r) (hpc : r.pc = p)
    (h : Shift r p pc sd σ σ') (hroutine : s₁.routine = s.routine) (helse : Elsewhere s s₁ r.book sd)
    (hl : Relink σ next τ)
    (hlast : ∀ f : ℕ → Spot UInt32, f g = τ → ChainStep (N := N) (I := I) (T := T) sd g
      ((s.store r.book sd).setNext 0 next, f) (s₁.store r.book sd, Function.update f g σ')) :
    ChainSteps s g (s₁.goto g r pc) := by
  apply Shift.steps hr hpc h hroutine helse
  intro hσ
  rw [← hσ] at hl
  have hfirst : Step sd.Better (s.store r.book sd) (s.spots r.book sd) g
      ((s.store r.book sd).setNext 0 next) (Function.update (s.spots r.book sd) g τ) :=
    Step.relink next τ hl
  have hlast := hlast (Function.update (s.spots r.book sd) g τ) (Function.update_self ..)
  rw [Function.update_idem] at hlast
  exact (Relation.ReflTransGen.single hfirst).tail hlast

/-- The goroutine stays where it is. -/
theorem ChainSteps.goto (hr : s.routine g = some r) (hpc : r.pc = p)
    (hroutine : s₁.routine = s.routine) (hstore : s₁.store = s.store)
    (hown : pc.own r.order.price = p.own r.order.price) (hopp : pc.opposite = p.opposite)
    (hspent : pc.Spent) : ChainSteps s g (s₁.goto g r pc) := by
  apply Shift.steps hr hpc (.own hopp hspent) hroutine
    fun b' sd' _ => congrFun (congrFun hstore b') sd'
  intro hσ
  rw [hstore, hown, ← hσ, Function.update_eq_self]
  exact .refl

theorem ChainSteps.done (h : ChainSteps s g (s₁.goto g r .unlockSgl)) : ChainSteps s g (s₁.done g) where
  steps := by
    intro b sd
    have hsteps := h.steps b sd
    unfold view at hsteps ⊢
    rw [spots_done r]
    exact hsteps
  spent := by
    intro g' r' hr'
    by_cases hg : g' = g
    · subst hg
      unfold Sys.done at hr'
      dsimp only at hr'
      rw [Function.update_self] at hr'
      cases hr'
    · apply h.spent g' r'
      unfold Sys.done at hr'
      unfold Sys.goto
      dsimp only at hr' ⊢
      rw [Function.update_of_ne hg] at hr' ⊢
      exact hr'

theorem Made.lt_nextRoutine (hmade : Made s) (hr : s.routine g = some r) : g < s.nextRoutine := by
  by_contra hge
  rw [hmade.routine g (not_lt.mp hge)] at hr
  cases hr

/-- The place in a chain depends on the price of the order only. -/
theorem ChainSteps.setCount (v : N) (h : ChainSteps s g (s₁.goto g r pc)) (hspent : pc.Spent) :
    ChainSteps s g (s₁.goto g { r with order := r.order.setCount v } pc) where
  steps := by
    intro b sd
    have hsteps := h.steps b sd
    unfold view at hsteps ⊢
    rw [spots_goto] at hsteps ⊢
    exact hsteps
  spent := by
    intro g' r' hr'
    by_cases hg : g' = g
    · subst hg
      unfold Sys.goto at hr'
      dsimp only at hr'
      rw [Function.update_self] at hr'
      cases hr'
      exact Or.inr hspent
    · apply h.spent g' r'
      unfold Sys.goto at hr' ⊢
      dsimp only at hr' ⊢
      rw [Function.update_of_ne hg] at hr' ⊢
      exact hr'

theorem spots_spawn_goto (hr : s.routine g = some r) (hmade : Made s)
    (hroutine : s₁.routine = s.routine) (hnext : s₁.nextRoutine = s.nextRoutine)
    (r' : Routine N I T) : ((s₁.spawn r').goto g r pc).spots b sd =
      Function.update (Function.update (s.spots b sd) g (Routine.spot { r with pc } b sd))
        s.nextRoutine (r'.spot b sd) := by
  rw [Function.update_comm (hmade.lt_nextRoutine hr).ne, spots_goto, spots_spawn,
    spots_congr hroutine, hnext]

/-- The goroutine hands what it has locked to one that it starts. -/
theorem Shift.hand {p' : Pc N I} (hr : s.routine g = some r) (hpc : r.pc = p)
    (h : Shift r p pc sd σ σ') (h' : Shift r .unlockSgl p' sd .away τ) (hmade : Made s)
    (hroutine : s₁.routine = s.routine) (hnext : s₁.nextRoutine = s.nextRoutine)
    (hstore : s₁.store = s.store)
    (hstep : ∀ f : ℕ → Spot UInt32, f g = σ → s.nextRoutine ≠ g → f s.nextRoutine = .away →
      ChainStep sd g (s.store r.book sd, f)
        (s.store r.book sd, Function.update (Function.update f g σ') s.nextRoutine τ)) :
    ChainSteps s g ((s₁.spawn { r with pc := p' }).goto g r pc) where
  steps := by
    intro b' sd'
    unfold view
    have haway : s.spots b' sd' s.nextRoutine = .away := by
      unfold spots
      rw [hmade.routine _ le_rfl]
      rfl
    rw [spots_spawn_goto hr hmade hroutine hnext]
    show Relation.ReflTransGen _ _ (s₁.store b' sd', _)
    rw [hstore]
    by_cases hne : b' = r.book ∧ sd' = sd
    · obtain ⟨rfl, rfl⟩ := hne
      rw [h.spot_goto, h'.spot_goto]
      exact .single (hstep _ ((spots_routine hr).trans (h.spot hpc)) (hmade.lt_nextRoutine hr).ne'
        haway)
    · have hnew : Routine.spot { r with pc := p' } b' sd' = .away :=
        (h'.spot_other hne).trans (spot_of_away rfl rfl)
      subst hpc
      rw [h.spot_other hne, ← spots_routine hr, Function.update_eq_self, hnew, ← haway,
        Function.update_eq_self]
  spent := by
    intro g' r' hr'
    rcases spent_goto (s := s₁.spawn { r with pc := p' }) rfl h.spent g' r' hr' with hr' | hr'
    · unfold Sys.spawn at hr'
      dsimp only at hr'
      rw [hnext, hroutine] at hr'
      by_cases hg : g' = s.nextRoutine
      · subst hg
        rw [Function.update_self] at hr'
        cases hr'
        exact Or.inr h'.spent
      · rw [Function.update_of_ne hg] at hr'
        exact Or.inl hr'
    · exact Or.inr hr'

end Shifts

/-! ## The steps of the goroutines -/

theorem store_setBook {ob : SharedBook N I T} (h : ob.chain = (s.book b).chain) :
    (s.setBook b ob).store = s.store := by
  funext b' sd'
  unfold store Sys.chain setBook
  dsimp only
  by_cases hb : b' = b
  · subst hb
    rw [Function.update_self, h]
  · rw [Function.update_of_ne hb]

theorem store_lockSgl (hs : s.lockSgl b = some s') : s'.store = s.store := by
  unfold lockSgl at hs
  split at hs <;> cases hs
  exact store_setBook rfl

theorem store_unlockSgl (hs : s.unlockSgl b = some s') : s'.store = s.store := by
  unfold unlockSgl at hs
  split at hs <;> cases hs
  exact store_setBook rfl

theorem store_lockOrders (hs : s.lockOrders = some s') : s'.store = s.store := by
  unfold lockOrders at hs
  split at hs <;> cases hs
  rfl

theorem store_unlockOrders (hs : s.unlockOrders = some s') : s'.store = s.store := by
  unfold unlockOrders at hs
  split at hs <;> cases hs
  rfl

theorem store_queue {ch : ChanPtr} (hs : s.queue ch = some s') : s'.store = s.store := by
  unfold queue at hs
  split at hs <;> cases hs
  rfl

theorem store_send {ch : ChanPtr} {cause : Cause N I T} {line : Line N I}
    (hs : s.send ch cause line = some s') : s'.store = s.store := by
  unfold send at hs
  dsimp only at hs
  split at hs <;> cases hs
  rfl

theorem elsewhere_refl (s : Sys N I T) : Elsewhere s s b sd := fun _ _ _ => rfl

theorem Elsewhere.trans (h : Elsewhere s s₁ b sd) (h' : Elsewhere s₁ s₂ b sd) :
    Elsewhere s s₂ b sd := fun b' sd' hne => (h' b' sd' hne).trans (h b' sd' hne)

theorem opposite_matchAt (v : N) (shouldPopPrev : Bool) (curr : Option NodePtr) :
    (Pc.matchAt (I := I) v shouldPopPrev curr).opposite =
      if v = 0 ∧ shouldPopPrev = false then .stop curr else .visit shouldPopPrev curr := rfl

theorem opposite_matchTest (v : N) (shouldPopPrev : Bool) (curr : NodePtr) :
    (Pc.matchTest (I := I) v shouldPopPrev curr).opposite =
      if v = 0 ∧ shouldPopPrev = false then .stopAt curr else .probe shouldPopPrev curr := rfl

theorem relink_matchAt (v : N) (curr : Option NodePtr) :
    Relink (Pc.matchAt (I := I) v true curr).opposite curr (.visit false curr) := by
  rw [opposite_matchAt, if_neg fun h => Bool.noConfusion h.2]
  exact Relink.visit curr

theorem relink_matchTest (v : N) (curr : NodePtr) :
    Relink (Pc.matchTest (I := I) v true curr).opposite (some curr) (.probe false curr) := by
  rw [opposite_matchTest, if_neg fun h => Bool.noConfusion h.2]
  exact Relink.probe curr

theorem chainSteps_processActiveOrder (hmade : Made s) (hr : s.routine g = some r) (hpc : r.pc = p)
    (hspent : p.Spent) (hs : s.processActiveOrder g r p = some s') : ChainSteps s g s' := by
  cases p with
  | lockSgl =>
    rcases Option.map_eq_some_iff.mp hs with ⟨s₁, hs₁, rfl⟩
    exact .goto hr hpc (kept_lockSgl hs₁).routine (store_lockSgl hs₁) rfl rfl trivial
  | lockMatchHead =>
    rcases Option.map_eq_some_iff.mp hs with ⟨s₁, hs₁, rfl⟩
    refine Shift.take hr hpc (.opposite rfl trivial) hs₁ ?_
    rw [opposite_matchAt]
    split
    · exact Take.enterStop
    · exact Take.enterVisit
  | matchAt v shouldPopPrev curr =>
    cases curr with
    | none =>
      cases hs
      cases shouldPopPrev with
      | false =>
        refine Shift.move hr hpc (.opposite rfl trivial) rfl rfl ?_
        rw [opposite_matchAt]
        split
        · exact Move.stopEnd
        · exact Move.visitEnd
      | true =>
        refine Shift.relink hr hpc (.opposite rfl trivial) rfl (setNext_chain s r.book r.side.opp 0 none).2
          (relink_matchAt v none) ?_
        intro f hf
        rw [if_pos rfl, (setNext_chain s r.book r.side.opp 0 none).1]
        exact chainStep_move hf Move.visitEnd
    | some curr =>
      rcases Option.map_eq_some_iff.mp hs with ⟨s₁, hs₁, rfl⟩
      refine Shift.take hr hpc (.opposite rfl trivial) hs₁ ?_
      rw [opposite_matchAt, opposite_matchTest]
      split
      · exact Take.stop curr
      · exact Take.visit shouldPopPrev curr
  | matchTest v shouldPopPrev curr =>
    simp only [Sys.processActiveOrder] at hs
    cases shouldPopPrev with
    | false =>
      split at hs
      · rcases Option.map_eq_some_iff.mp hs with ⟨s₁, hs₁, rfl⟩
        refine Shift.drop hr hpc (.opposite rfl trivial) hs₁ ?_
        rw [opposite_matchTest]
        split
        · exact Drop.stopAt curr
        · exact Drop.probe curr
      next hgo =>
        cases hs
        refine Shift.move hr hpc (.opposite rfl trivial) rfl rfl ?_
        rw [opposite_matchTest, if_neg fun h => hgo (Or.inl h.1)]
        exact Move.probeFill curr
    | true =>
      have hnext := setNext_chain s r.book r.side.opp 0 (some curr)
      have hkept : Kept s (s.setNext r.book r.side.opp 0 (some curr)) := kept_setNext _
      split at hs
      · rcases Option.map_eq_some_iff.mp hs with ⟨s₁, hs₁, rfl⟩
        have hdrop := unlock_chain hs₁
        refine Shift.relink hr hpc (.opposite rfl trivial)
          ((kept_unlock hs₁).routine.trans hkept.routine) (hnext.2.trans hdrop.2)
          (relink_matchTest v curr) ?_
        intro f hf
        rw [hdrop.1, if_pos rfl, hnext.1]
        exact chainStep_drop hf (Drop.probe curr)
      · cases hs
        refine Shift.relink hr hpc (.opposite rfl trivial) rfl hnext.2 (relink_matchTest v curr) ?_
        intro f hf
        exact hnext.1 ▸ chainStep_move hf (Move.probeFill curr)
  | matchQueue v curr ch =>
    rcases Option.map_eq_some_iff.mp hs with ⟨s₁, hs₁, rfl⟩
    have hkept := kept_queue hs₁
    dsimp only
    split
    · refine Shift.hand hr hpc (.opposite rfl trivial) (.opposite rfl trivial) hmade hkept.routine
        hkept.nextRoutine (store_queue hs₁) ?_
      intro f hf hne haway
      exact Step.pop s.nextRoutine curr hf hne haway
    · refine Shift.hand hr hpc (.opposite rfl rfl) (.opposite rfl trivial) hmade hkept.routine
        hkept.nextRoutine (store_queue hs₁) ?_
      intro f hf hne haway
      exact Step.keep s.nextRoutine curr hf hne haway
  | matchNext v shouldPopPrev curr =>
    cases hs
    refine Shift.move hr hpc (.opposite rfl trivial) rfl rfl ?_
    rw [opposite_matchAt]
    cases shouldPopPrev with
    | false =>
      rw [if_pos ⟨hspent, rfl⟩]
      exact Move.passKept curr
    | true =>
      rw [if_neg fun h => Bool.noConfusion h.2]
      exact Move.passPopped curr
  | matchEnd v =>
    rcases Option.map_eq_some_iff.mp hs with ⟨s₁, hs₁, rfl⟩
    split
    · exact Shift.drop hr hpc (.opposite rfl trivial) hs₁ Drop.leave
    · exact Shift.drop hr hpc (.opposite rfl trivial) hs₁ Drop.leave
  | lockAddHead v =>
    rcases Option.map_eq_some_iff.mp hs with ⟨s₁, hs₁, rfl⟩
    exact Shift.take hr hpc (.own rfl trivial) hs₁ Take.enter
  | lockOrders v =>
    rcases Option.map_eq_some_iff.mp hs with ⟨s₁, hs₁, rfl⟩
    exact .goto hr hpc (kept_lockOrders hs₁).routine (store_lockOrders hs₁) rfl rfl trivial
  | setOrder v =>
    cases hs
    exact ChainSteps.setCount v (.goto hr hpc rfl rfl rfl rfl trivial) trivial
  | unlockOrders =>
    rcases Option.map_eq_some_iff.mp hs with ⟨s₁, hs₁, rfl⟩
    exact .goto hr hpc (kept_unlockOrders hs₁).routine (store_unlockOrders hs₁) rfl rfl trivial
  | addQueue =>
    rcases Option.map_eq_some_iff.mp hs with ⟨s₁, hs₁, rfl⟩
    have hkept := (kept_makeChan 1).trans (kept_queue hs₁)
    refine Shift.hand hr hpc (.own rfl trivial) (.own rfl trivial) hmade hkept.routine
      hkept.nextRoutine (store_queue (s := s.makeChan 1) hs₁) ?_
    intro f hf hne haway
    exact Step.give s.nextRoutine hf hne haway
  | unlockSgl =>
    rcases Option.map_eq_some_iff.mp hs with ⟨s₁, hs₁, rfl⟩
    exact ChainSteps.done
      (.goto hr hpc (kept_unlockSgl hs₁).routine (store_unlockSgl hs₁) rfl rfl trivial)
  | _ => cases hs

/-- The goroutine writes into a node that it has locked. -/
theorem Shift.write {σ : Spot UInt32} {x : OrderNode N I (RId T)} (hr : s.routine g = some r)
    (hpc : r.pc = p) (h : Shift r p pc sd σ σ) (hn : n ∈ σ.locks)
    (hx : x.price = (s.node r.book sd n).price) :
    ChainSteps s g
      ((s.setNode r.book sd n { s.node r.book sd n with toOrderNode := x }).goto g r pc) := by
  refine Shift.steps hr hpc h rfl (setOrders_chain _ hx).2 ?_
  intro hσ
  rw [(setOrders_chain _ hx).1]
  refine .single ?_
  have hsame : Function.update (s.spots r.book sd) g σ = s.spots r.book sd :=
    Function.update_eq_self_iff.mpr hσ.symm
  rw [hsame]
  exact chainStep_write x hσ hn

theorem chainSteps_executeOrder (hr : s.routine g = some r) (hpc : r.pc = p)
    (hs : s.executeOrder g r p = some s') : ChainSteps s g s' := by
  cases p with
  | exec countLeftToMatch node ch =>
    simp only [Sys.executeOrder] at hs
    split at hs
    · cases hs
      exact .goto hr hpc rfl rfl rfl rfl trivial
    · split at hs
      · cases hs
        exact .goto hr hpc rfl rfl rfl rfl trivial
      · split at hs <;> cases hs
        · exact Shift.write hr hpc (.opposite rfl trivial) (List.mem_singleton_self node) rfl
        · exact Shift.write hr hpc (.opposite rfl trivial) (List.mem_singleton_self node) rfl
  | execRemove restingId line countLeftToMatch node ch =>
    cases hs
    exact .goto hr hpc rfl rfl rfl rfl trivial
  | execSend line countLeftToMatch node ch =>
    rcases Option.map_eq_some_iff.mp hs with ⟨s₁, hs₁, rfl⟩
    exact .goto hr hpc (kept_send hs₁).routine (store_send hs₁) rfl rfl trivial
  | execUnlock node =>
    rcases Option.map_eq_some_iff.mp hs with ⟨s₁, hs₁, rfl⟩
    exact ChainSteps.done (Shift.drop hr hpc (.opposite rfl trivial) hs₁ (Drop.work node))
  | _ => cases hs

theorem store_insert (price : UInt32) :
    (s.setChain b sd
        { node := Function.update (Function.update (s.chain b sd).node (s.chain b sd).nextNode
            { OrderNode.new price with next := ((s.chain b sd).node n).next, lock := true }) n
            { (s.chain b sd).node n with next := some (s.chain b sd).nextNode }
          nextNode := (s.chain b sd).nextNode + 1 }).store b sd =
      (s.store b sd).insert n price (OrderNode.new price) := by
  unfold store
  rw [chain_setChain_self]
  unfold Chain.store Store.insert
  dsimp only
  congr 1
  funext a
  by_cases ha : a = n
  · subst ha
    rw [Function.update_self, Function.update_self]
  · rw [Function.update_of_ne ha, Function.update_of_ne ha]
    by_cases hnew : a = (s.chain b sd).nextNode
    · subst hnew
      rw [Function.update_self, Function.update_self]
      rfl
    · rw [Function.update_of_ne hnew, Function.update_of_ne hnew]

/-- Of two prices that differ one is better. -/
theorem better_of_not {x y : UInt32} (hne : x ≠ y) (h : ¬ sd.Better x y) : sd.Better y x := by
  cases sd with
  | buy => exact lt_of_le_of_ne (not_lt.mp h) hne
  | sell => exact lt_of_le_of_ne (not_lt.mp h) hne.symm

theorem chainSteps_addOrder (hr : s.routine g = some r) (hpc : r.pc = p)
    (hs : s.addOrder g r p = some s') : ChainSteps s g s' := by
  cases p with
  | addFirst ch =>
    cases hs
    exact Shift.move hr hpc (.own rfl trivial) rfl rfl (Move.start r.order.price)
  | addWalk curr next ch =>
    cases next with
    | none =>
      cases hs
      exact Shift.move hr hpc (.own rfl trivial) rfl rfl (Move.walkEnd r.order.price curr)
    | some next =>
      rcases Option.map_eq_some_iff.mp hs with ⟨s₁, hs₁, rfl⟩
      exact Shift.take hr hpc (.own rfl trivial) hs₁ (Take.walk r.order.price curr next)
  | addTest curr next ch =>
    simp only [Sys.addOrder] at hs
    split at hs
    next hbetter =>
      rcases Option.map_eq_some_iff.mp hs with ⟨s₁, hs₁, rfl⟩
      exact Shift.drop hr hpc (.own rfl trivial) hs₁ (Drop.testPlace _ _ _ hbetter)
    next hbetter =>
      split at hs
      next heq =>
        rcases Option.map_eq_some_iff.mp hs with ⟨s₁, hs₁, rfl⟩
        exact Shift.drop hr hpc (.own rfl trivial) hs₁ (Drop.testOn _ _ _ heq.symm)
      next heq =>
        rcases Option.map_eq_some_iff.mp hs with ⟨s₁, hs₁, rfl⟩
        exact Shift.drop hr hpc (.own rfl trivial) hs₁
          (Drop.testNext _ _ _ (better_of_not heq hbetter))
  | addPlace curr ch =>
    simp only [Sys.addOrder] at hs
    split at hs <;> cases hs
    next hne =>
      refine Shift.steps hr hpc (.own rfl trivial) rfl (fun _ _ h => ?_) ?_
      · exact congrArg Chain.store (chain_setChain_ne _ h)
      · intro hσ
        rw [store_insert]
        exact .single (Step.insert r.order.price curr _ hσ (Ne.symm hne))
    next heq =>
      exact Shift.move hr hpc (.own rfl trivial) rfl rfl (Move.placeOn _ _ (not_not.mp heq).symm)
  | addLinked prev curr ch =>
    rcases Option.map_eq_some_iff.mp hs with ⟨s₁, hs₁, rfl⟩
    exact Shift.drop hr hpc (.own rfl trivial) hs₁ (Drop.linked prev curr)
  | addAppend curr ch =>
    cases hs
    exact Shift.write hr hpc (.own rfl trivial) (List.mem_singleton_self curr) rfl
  | addSend curr ch =>
    rcases Option.map_eq_some_iff.mp hs with ⟨s₁, hs₁, rfl⟩
    exact .goto hr hpc (kept_send hs₁).routine (store_send hs₁) rfl rfl trivial
  | addClose curr ch =>
    cases hs
    exact .goto hr hpc rfl rfl rfl rfl trivial
  | addUnlock curr =>
    rcases Option.map_eq_some_iff.mp hs with ⟨s₁, hs₁, rfl⟩
    exact ChainSteps.done (Shift.drop hr hpc (.own rfl trivial) hs₁ (Drop.on curr))
  | _ => cases hs

theorem chainSteps_processCancelOrder (hr : s.routine g = some r) (hpc : r.pc = p)
    (hs : s.processCancelOrder g r p = some s') : ChainSteps s g s' := by
  cases p with
  | lockHead =>
    rcases Option.map_eq_some_iff.mp hs with ⟨s₁, hs₁, rfl⟩
    exact Shift.take hr hpc (.own rfl trivial) hs₁ Take.enter
  | cancelQueue =>
    rcases Option.map_eq_some_iff.mp hs with ⟨s₁, hs₁, rfl⟩
    have hkept := (kept_makeChan 1).trans (kept_queue hs₁)
    exact .goto hr hpc hkept.routine (store_queue (s := s.makeChan 1) hs₁) rfl rfl trivial
  | cancelFirst ch =>
    simp only [Sys.processCancelOrder] at hs
    split at hs
    next hnext =>
      cases hs
      exact Shift.move hr hpc (.own rfl trivial) rfl rfl (Move.startNone hnext)
    next curr hnext =>
      rcases Option.map_eq_some_iff.mp hs with ⟨s₁, hs₁, rfl⟩
      exact Shift.take hr hpc (.own rfl trivial) hs₁ (Take.start curr hnext)
  | cancelAt prev curr ch =>
    cases curr with
    | none =>
      rcases Option.map_eq_some_iff.mp hs with ⟨s₁, hs₁, rfl⟩
      exact Shift.drop hr hpc (.own rfl trivial) hs₁ (Drop.seekEnd prev)
    | some curr =>
      simp only [Sys.processCancelOrder] at hs
      split at hs
      · split at hs
        next hnext =>
          rcases Option.map_eq_some_iff.mp hs with ⟨s₁, hs₁, rfl⟩
          exact Shift.drop hr hpc (.own rfl trivial) hs₁ (Drop.seekLast prev curr hnext)
        next next hnext =>
          rcases Option.map_eq_some_iff.mp hs with ⟨s₁, hs₁, rfl⟩
          exact Shift.take hr hpc (.own rfl trivial) hs₁ (Take.seek prev curr next hnext)
      · split at hs
        · rcases Option.map_eq_some_iff.mp hs with ⟨s₁, hs₁, rfl⟩
          exact Shift.drop hr hpc (.own rfl trivial) hs₁ (Drop.miss prev curr)
        next e _ =>
          cases hs
          -- the order is taken out, then the goroutine goes on to the links
          let removed := (s.node r.book r.side curr).toOrderNode.remove e
            ((s.node r.book r.side curr).orders.eraseP (sameId r.order))
          have hprice : removed.price = (s.node r.book r.side curr).price := rfl
          have hchain := setOrders_chain removed hprice
          refine Shift.steps hr hpc (.own rfl trivial) rfl hchain.2 ?_
          intro hσ
          have hmem : curr ∈ (Spot.seek (K := UInt32) prev (some curr)).locks :=
            List.mem_cons_of_mem prev (List.mem_singleton_self curr)
          have hwrite : ChainStep r.side g (s.store r.book r.side, s.spots r.book r.side)
              ((s.store r.book r.side).setVal curr removed, s.spots r.book r.side) :=
            chainStep_write removed hσ hmem
          rw [← hchain.1] at hwrite
          exact .head hwrite (.single (chainStep_move hσ (Move.hit prev curr)))
  | cancelOn prev curr next ch =>
    rcases Option.map_eq_some_iff.mp hs with ⟨s₁, hs₁, rfl⟩
    exact Shift.drop hr hpc (.own rfl trivial) hs₁ (Drop.seekOn prev curr next)
  | cancelRemove prev curr ch =>
    cases hs
    exact .goto hr hpc rfl rfl rfl rfl trivial
  | cancelUnlink prev curr ch =>
    rcases Option.map_eq_some_iff.mp hs with ⟨s₁, hs₁, rfl⟩
    split at hs₁
    · have hnext := setNext_chain s r.book r.side prev (s.node r.book r.side curr).next
      have hdrop := unlock_chain hs₁
      refine Shift.steps hr hpc (.own rfl trivial) (kept_unlock hs₁).routine
        (hnext.2.trans hdrop.2) ?_
      intro hσ
      rw [hdrop.1, hnext.1]
      exact .single (Step.unlink prev curr hσ)
    · exact Shift.drop hr hpc (.own rfl trivial) hs₁ (Drop.keep prev curr)
  | cancelUnlock curr accepted ch =>
    rcases Option.map_eq_some_iff.mp hs with ⟨s₁, hs₁, rfl⟩
    exact Shift.drop hr hpc (.own rfl trivial) hs₁ (Drop.off curr)
  | cancelSend accepted ch =>
    rcases Option.map_eq_some_iff.mp hs with ⟨s₁, hs₁, rfl⟩
    exact .goto hr hpc (kept_send hs₁).routine (store_send hs₁) rfl rfl trivial
  | cancelClose ch =>
    cases hs
    exact ChainSteps.done (.goto hr hpc rfl rfl rfl rfl trivial)
  | _ => cases hs

theorem chainSteps_routineStep (hmade : Made s) (hr : s.routine g = some r) (hspent : r.pc.Spent)
    (hs : s.routineStep g r = some s') : ChainSteps s g s' := by
  unfold Sys.routineStep at hs
  split at hs
  all_goals
    first
      | exact chainSteps_executeOrder hr rfl hs
      | exact chainSteps_addOrder hr rfl hs
      | exact chainSteps_processCancelOrder hr rfl hs
      | exact chainSteps_processActiveOrder hmade hr rfl hspent hs

/-! ## The other steps -/

theorem store_sendEvent {event : Event N I T} (hs : s.sendEvent b event = some s') :
    s'.store = s.store := by
  unfold sendEvent at hs
  split at hs <;> cases hs
  exact store_setBook rfl

theorem store_connGoto {pc : ConnPc N I T} : (s.connGoto t pc).store = s.store := rfl

/-- A connection does not come near the chains. -/
theorem store_handleConn (hs : s.handleConn t = some s') : s'.store = s.store := by
  unfold Sys.handleConn at hs
  split at hs
  · cases hs
    rfl
  · split at hs
    · cases hs
    · dsimp only at hs
      split at hs <;> cases hs <;> rfl
  · split at hs <;> cases hs <;> rfl
  · cases hs
    rfl
  · split at hs <;> cases hs
    rfl
  · rcases Option.map_eq_some_iff.mp hs with ⟨s₁, hs₁, rfl⟩
    exact store_connGoto.trans (store_sendEvent hs₁)
  · rcases Option.map_eq_some_iff.mp hs with ⟨s₁, hs₁, rfl⟩
    exact store_connGoto.trans (store_lockOrders hs₁)
  · split at hs <;> cases hs <;> rfl
  · rcases Option.map_eq_some_iff.mp hs with ⟨s₁, hs₁, rfl⟩
    exact store_connGoto.trans (store_queue (s := s.makeChan 1) hs₁)
  · rcases Option.map_eq_some_iff.mp hs with ⟨s₁, hs₁, rfl⟩
    exact store_connGoto.trans (store_unlockOrders hs₁)
  · rcases Option.map_eq_some_iff.mp hs with ⟨s₁, hs₁, rfl⟩
    split
    · exact store_connGoto.trans (store_unlockOrders hs₁)
    · exact store_connGoto.trans (store_unlockOrders hs₁)
  · rcases Option.map_eq_some_iff.mp hs with ⟨s₁, hs₁, rfl⟩
    exact store_connGoto.trans (store_queue (s := s.makeChan 1) hs₁)
  · split at hs <;> cases hs
    rfl
  · rcases Option.map_eq_some_iff.mp hs with ⟨s₁, hs₁, rfl⟩
    exact store_connGoto.trans (store_send hs₁)
  · cases hs
    rfl

theorem store_printOutputChnl (hs : s.printOutputChnl = some s') : s'.store = s.store := by
  unfold Sys.printOutputChnl at hs
  split at hs
  · split at hs <;> cases hs
    rfl
  · dsimp only at hs
    split at hs
    · cases hs
      rfl
    · split at hs <;> cases hs
      rfl

theorem ChainSteps.still (hstore : s'.store = s.store) (hroutine : s'.routine = s.routine) :
    ChainSteps s g s' where
  steps := by
    intro b sd
    unfold view
    rw [hstore, spots_congr hroutine]
  spent := by
    intro g r hr
    rw [hroutine] at hr
    exact Or.inl hr

theorem chainSteps_dispatch (hmade : Made s) (hs : s.dispatch b = some s') : ChainSteps s g s' := by
  unfold Sys.dispatch at hs
  split at hs
  · cases hs
  next event rest hqueue =>
    cases hs
    have haway : ∀ pc : Pc N I, pc = .lockHead ∨ pc = .lockSgl →
        pc.own event.order.price = .away ∧ pc.opposite = .away ∧ pc.Spent := by
      rintro pc (rfl | rfl)
      · exact ⟨rfl, rfl, trivial⟩
      · exact ⟨rfl, rfl, trivial⟩
    have hpc := haway (if event.eventType = .cancel then .lockHead else .lockSgl) (ite_eq_or_eq _ _ _)
    constructor
    · intro b' sd'
      -- the new goroutine is nowhere yet
      have hnew : s.spots b' sd' s.nextRoutine = .away := by
        unfold spots
        rw [hmade.routine _ le_rfl]
        rfl
      unfold view
      rw [spots_spawn, spot_of_away hpc.1 hpc.2.1]
      have hstore : (s.setBook b { s.book b with ordersChn := rest }).store = s.store :=
        store_setBook rfl
      show Relation.ReflTransGen _ _ ((s.setBook b { s.book b with ordersChn := rest }).store b' sd',
        Function.update (s.spots b' sd') s.nextRoutine .away)
      rw [hstore, Function.update_eq_self_iff.mpr hnew.symm]
    · intro g r hr
      unfold Sys.spawn at hr
      dsimp only at hr
      by_cases hg : g = s.nextRoutine
      · subst hg
        have heq := (Function.update_self ..).symm.trans hr
        cases heq
        exact Or.inr hpc.2.2
      · exact Or.inl ((Function.update_of_ne hg ..).symm.trans hr)

/-- Whatever makes a step, the chains go steps of a list locked hand over hand, steps of the goroutine
    if it is one. -/
theorem chainSteps_step (hmade : Made s) (hspent : ∀ g r, s.routine g = some r → r.pc.Spent)
    (hs : s.step a = some s') (hg : ∀ g', a = .routine g' → g' = g) : ChainSteps s g s' := by
  unfold Sys.step at hs
  cases a with
  | conn t => exact .still (store_handleConn hs) (turn_handleConn hs).routine
  | dispatcher b => exact chainSteps_dispatch hmade hs
  | routine g' =>
    obtain rfl := hg g' rfl
    dsimp only at hs
    split at hs
    · cases hs
    next r hr => exact chainSteps_routineStep hmade hr (hspent g' r hr) hs
  | printer => exact .still (store_printOutputChnl hs) (kept_printOutputChnl hs).routine

theorem exists_mover (a : Actor T) : ∃ g, ∀ g', a = .routine g' → g' = g := by
  cases a with
  | routine g => exact ⟨g, fun g' h => (Actor.routine.inj h).symm⟩
  | _ => exact ⟨0, fun g' h => by cases h⟩

/-! ## The invariant -/

/-- Each chain is a sorted list, and every goroutine has locked the nodes that its place says. -/
structure Coupled (s : Sys N I T) : Prop where
  chain : ∀ b sd, ∃ xs, CoupledList.Ok sd.Better (s.store b sd) (s.spots b sd) xs
  spent : ∀ g r, s.routine g = some r → r.pc.Spent

theorem coupled_init (cmds : T → List (Command N I)) : Coupled (init cmds) where
  chain := fun _ _ => ⟨[], .init (fun _ => rfl) (fun _ => rfl) rfl Nat.one_pos⟩
  spent := fun _ _ h => by cases h

theorem Coupled.steps (h : Coupled s) (hsteps : ChainSteps s g s') : Coupled s' where
  chain := by
    intro b sd
    obtain ⟨xs, hok⟩ := h.chain b sd
    exact (CoupledList.Ok.steps (v := s.view b sd) hok (fun _ _ _ => PriceTime.Side.Better.trans)
      (hsteps.steps b sd)).1
  spent := by
    intro g r hr
    rcases hsteps.spent g r hr with hr | hspent
    · exact h.spent g r hr
    · exact hspent

/-- Other goroutines leave alone the orders of the nodes that a goroutine has locked. -/
theorem Coupled.other (h : Coupled s) (hsteps : ChainSteps s g s') {g' : ℕ} (hg : g' ≠ g)
    (hn : n ∈ (s.spots b sd g').locks) :
    (s'.node b sd n).toOrderNode = (s.node b sd n).toOrderNode := by
  have haway : s.spots b sd g' ≠ .away := by
    intro haway
    rw [haway] at hn
    cases hn
  obtain ⟨xs, hok⟩ := h.chain b sd
  exact ((CoupledList.Ok.steps (v := s.view b sd) hok (fun _ _ _ => PriceTime.Side.Better.trans)
    (hsteps.steps b sd)).2 g' hg haway).2 n hn

theorem Reachable.made {cmds : T → List (Command N I)} (h : Reachable cmds s) : Made s := by
  induction h with
  | init => exact made_init cmds
  | step _ hs ih => exact ih.step hs

theorem Reachable.coupled {cmds : T → List (Command N I)} (h : Reachable cmds s) : Coupled s := by
  induction h with
  | init => exact coupled_init cmds
  | @step s s' a hr hs ih =>
    obtain ⟨g, hg⟩ := exists_mover a
    exact ih.steps (chainSteps_step hr.made ih.spent hs hg)

/-- Two connections sell in one book. -/
def sameBook : Bool → List (Command UInt32 Unit)
  | true => [.order .sell 1 () 2700 10 0]
  | false => [.order .sell 2 () 2700 10 1]

/-- The second goroutine comes while the first one has `sgl`. -/
def atSgl : List (Actor Bool) :=
  List.flatten
    [List.replicate 6 (.conn true), [.dispatcher 0, .routine 0], List.replicate 4 (.conn false),
      [.dispatcher 0]]

end Sys

end MatchingEngine.Go
