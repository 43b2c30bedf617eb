import MatchingEngine.Cpp.EntrySteps

/-!
# What a step does besides its mutex

`Stepped` lists once what a step can do to the thread, the objects, the map and the log, by the phase
of the command it belongs to.
-/

set_option linter.unusedSectionVars false

namespace MatchingEngine.Cpp

/-- How far a command has come. -/
inductive Phase
  | ready
  /-- a cancel whose id is looked up, one that has no order, one on its way to the chain -/
  | looking
  | missed
  | aiming
  /-- a new order, up to where it takes effect -/
  | fresh
  | matching
  | adding
  | added
  | cancelling
  | rejected
  | accepted
  deriving DecidableEq

def Pc.phase {N I : Type} : Pc N I → Phase
  | .ready => .ready
  | .getOrder _ _ => .looking
  | .printMiss _ _ => .missed
  | .getBookOf _ | .lockHead _ => .aiming
  | .getBook _ | .putBook _ | .lockBook _ | .lockMatchHead _ | .walk _ _ _ | .walkBreak _ _ _
  | .lockAddHead _ _ | .unlockBook _ _ => .fresh
  | .matchHead _ _ | .matchTest _ _ _ | .matchNode _ _ _ _ _ | .matchPrint _ _ _ _ _ _ => .matching
  | .addWalk _ _ _ | .addBreak _ _ _ | .addFound _ _ _ | .addOn _ _ _ | .addPlace _ _
  | .addLinked _ _ _ | .addInsert _ _ => .adding
  | .addPrint _ _ | .addUnlock _ _ => .added
  | .lockFirst _ | .unlockHead _ (some _) | .cancelTest _ (some _) | .cancelOn _ _ _ => .cancelling
  | .unlockHead _ none | .cancelTest _ none | .cancelEnd _ _ | .cancelMissed _ _
  | .printRejected _ => .rejected
  | .printAccepted _ _ | .cancelUnlock _ _ => .accepted

/-- The phases of a new order. -/
def Phase.ordering : Phase → Bool
  | .fresh | .matching | .adding | .added => true
  | _ => false

/-- The phases of a cancel that has found its order. -/
def Phase.targeting : Phase → Bool
  | .aiming | .cancelling | .rejected | .accepted => true
  | _ => false

/-- The phases before the command takes effect. -/
def Phase.early : Phase → Bool
  | .ready | .looking | .aiming | .fresh => true
  | _ => false

theorem Pc.entered_phase {N I : Type} (pc : Pc N I) : pc.entered = !pc.phase.early := by
  cases pc with
  | unlockHead j curr => cases curr <;> rfl
  | cancelTest j curr => cases curr <;> rfl
  | _ => rfl

theorem Pc.inFlight_of_fresh {N I : Type} {pc : Pc N I} {j : Job I} (hj : pc.job = some j)
    (h : pc.phase = .fresh) : pc.inFlight = some j.order := by
  cases pc with
  | unlockHead j curr => cases curr <;> cases h
  | cancelTest j curr => cases curr <;> cases h
  | _ => first | (cases hj; rfl) | cases h

/-- The line that was made and is not printed yet. -/
def Pc.printing {N I : Type} : Pc N I → Option (Line N I)
  | .matchPrint _ _ _ _ _ line => some line
  | _ => none

/-- How a command goes on without output. -/
inductive Phase.Next : Phase → Phase → Prop
  | same (p : Phase) : Next p p
  | enter : Next .fresh .matching
  | book : Next .matching .adding
  | aim : Next .aiming .cancelling
  | reject : Next .cancelling .rejected

variable {N I T : Type} [Quantity N] [DecidableEq I] [DecidableEq T] {s s' : Sys N I T} {t : T}
  {pc pc' : Pc N I}
  {j : Job I} {i : I} {sd : Side} {a : Addr}

/-- Of thread `t` the place changes, and nothing but mutexes and books besides. -/
structure Goes (s s' : Sys N I T) (t : T) (pc' : Pc N I) : Prop where
  thread : s'.thread = Function.update s.thread t { s.thread t with pc := pc' }
  heap : s'.heap = s.heap
  orders : s'.orders = s.orders
  nextPtr : s'.nextPtr = s.nextPtr
  log : s'.log = s.log

/-- A mutex is used in a way that the code must not. -/
structure Faults (s s' : Sys N I T) : Prop where
  thread : s'.thread = s.thread
  heap : s'.heap = s.heap
  orders : s'.orders = s.orders
  nextPtr : s'.nextPtr = s.nextPtr
  log : s'.log = s.log
  fault : s'.fault = true

theorem Goes.goto (s : Sys N I T) (t : T) (pc' : Pc N I) : Goes s (s.goto t pc') t pc' :=
  ⟨rfl, rfl, rfl, rfl, rfl⟩

theorem Goes.lock (hs : s.lock t i sd a pc' = some s') : Goes s s' t pc' ∨ Faults s s' := by
  unfold Sys.lock at hs
  split at hs
  · cases Option.some.inj hs
    exact Or.inl ⟨rfl, rfl, rfl, rfl, rfl⟩
  · split at hs
    · cases Option.some.inj hs
      exact Or.inr ⟨rfl, rfl, rfl, rfl, rfl, rfl⟩
    · cases hs

theorem Goes.unlock (hs : s.unlock t i sd a pc' = s') : Goes s s' t pc' ∨ Faults s s' := by
  subst hs
  unfold Sys.unlock
  split
  · exact Or.inl ⟨rfl, rfl, rfl, rfl, rfl⟩
  · exact Or.inr ⟨rfl, rfl, rfl, rfl, rfl, rfl⟩

theorem Goes.lockM (hs : s.lockM t i pc' = some s') : Goes s s' t pc' ∨ Faults s s' := by
  unfold Sys.lockM at hs
  split at hs
  · cases Option.some.inj hs
    exact Or.inl ⟨rfl, rfl, rfl, rfl, rfl⟩
  · split at hs
    · cases Option.some.inj hs
      exact Or.inr ⟨rfl, rfl, rfl, rfl, rfl, rfl⟩
    · cases hs

theorem Goes.unlockM (hs : s.unlockM t i pc' = s') : Goes s s' t pc' ∨ Faults s s' := by
  subst hs
  unfold Sys.unlockM
  split
  · exact Or.inl ⟨rfl, rfl, rfl, rfl, rfl⟩
  · exact Or.inr ⟨rfl, rfl, rfl, rfl, rfl, rfl⟩

/-- The command of thread `t` is over. -/
structure Ends (s s' : Sys N I T) (t : T) : Prop where
  thread : s'.thread = Function.update s.thread t
    { pc := .ready
      cmds := (s.thread t).cmds.tail
      out := []
      history := (s.thread t).history ++ (s.thread t).cmds.head?.toList.map fun c =>
        (c, (s.thread t).out) }
  heap : s'.heap = s.heap
  orders : s'.orders = s.orders
  nextPtr : s'.nextPtr = s.nextPtr
  log : s'.log = s.log

theorem Faults.finish {s₁ : Sys N I T} (h : Faults s s₁) : Ends s (s₁.finish t) t := by
  constructor
  · show Function.update s₁.thread t _ = _
    rw [h.thread]
  · exact h.heap
  · exact h.orders
  · exact h.nextPtr
  · exact h.log

theorem Goes.finish {s₁ : Sys N I T} (h : Goes s s₁ t pc') : Ends s (s₁.finish t) t := by
  have hself : s₁.thread t = { s.thread t with pc := pc' } := by
    rw [h.thread]
    exact Function.update_self ..
  constructor
  · show Function.update s₁.thread t _ = _
    rw [hself, h.thread, Function.update_idem]
  · exact h.heap
  · exact h.orders
  · exact h.nextPtr
  · exact h.log

/-- What a step does. -/
inductive Stepped (s s' : Sys N I T) (t : T) : Prop
  | readOrder {side : Side} {orderId : UInt32} {instrument : I} {price : UInt32} {count : N}
      {inputTime : ℤ} (hpc : (s.thread t).pc = .ready)
      (hcmd : (s.thread t).cmds.head? =
        some (.order side orderId instrument price count inputTime))
      (hs : s' = (s.alloc (newOrder side orderId instrument price count inputTime)).goto t
        (.getBook { book := instrument, side, order := s.nextPtr }))
  | readCancel {orderId : UInt32} {inputTime : ℤ} (hpc : (s.thread t).pc = .ready)
      (hcmd : (s.thread t).cmds.head? = some (.cancel orderId inputTime))
      (hs : s' = s.goto t (.getOrder orderId inputTime))
  | miss {orderId : UInt32} {inputTime : ℤ} (hpc : (s.thread t).pc = .getOrder orderId inputTime)
      (hget : s.orders orderId = none) (hs : s' = s.goto t (.printMiss orderId inputTime))
  | hit {orderId : UInt32} {inputTime : ℤ} {order : OrderPtr}
      (hpc : (s.thread t).pc = .getOrder orderId inputTime) (hget : s.orders orderId = some order)
      (hs : s' = s.goto t (.getBookOf order))
  | aim {order : OrderPtr} (hpc : (s.thread t).pc = .getBookOf order)
      (hs : s' = s.goto t (.lockHead
        { book := (s.heap order).instrument, side := OrderBook.sideOf (s.heap order), order }))
  | go {j : Job I} {pc pc' : Pc N I} (hpc : (s.thread t).pc = pc) (hs : Goes s s' t pc')
      (hj : pc.job = some j) (hj' : pc'.job = some j) (hphase : pc.phase.Next pc'.phase)
      (hquiet : pc'.printing = none)
  | exec {j : Job I} {v : ℤ} {curr : Addr} {it : OrderPtr} {its : List OrderPtr} {k k' : ℕ}
      (hpc : (s.thread t).pc = .matchNode j v curr (it :: its) k)
      (hthread : s'.thread = Function.update s.thread t
        { s.thread t with pc := .matchPrint j v curr its k' (execLine s.heap j.order it) })
      (hcount : (s.heap j.order).count ≠ 0)
      (hheap : s'.heap = execHeap s.heap j.order it)
      (horders : s'.orders = execOrders s.heap j.order it s.orders)
      (hnext : s'.nextPtr = s.nextPtr) (hlog : s'.log = s.log)
  | insert {j : Job I} {curr : Addr} (hpc : (s.thread t).pc = .addInsert j curr)
      (hthread : s'.thread = Function.update s.thread t { s.thread t with pc := .addPrint j curr })
      (hheap : s'.heap = s.heap)
      (horders : s'.orders = s.orders.put (s.heap j.order).orderId j.order)
      (hnext : s'.nextPtr = s.nextPtr) (hlog : s'.log = s.log)
  | accept {j : Job I} {curr : Addr} (hpc : (s.thread t).pc = .cancelTest j (some curr))
      (hthread : s'.thread = Function.update s.thread t
        { s.thread t with pc := .printAccepted j curr })
      (hheap : s'.heap = s.heap)
      (horders : s'.orders = s.orders.remove (s.heap j.order).orderId)
      (hnext : s'.nextPtr = s.nextPtr) (hlog : s'.log = s.log)
  | print {j : Job I} {pc pc' : Pc N I} {line : Line N I} (hpc : (s.thread t).pc = pc)
      (hs : s' = (s.print t line).goto t pc') (hj : pc.job = some j) (hj' : pc'.job = some j)
      (hphase : pc'.phase = pc.phase) (hline : pc.lines s.heap = [line])
      (hearly : pc.phase.early = false) (hquiet : pc'.printing = none)
  | printLast {pc : Pc N I} {line : Line N I} (hpc : (s.thread t).pc = pc)
      (hline : pc.lines s.heap = [line]) (hphase : pc.phase = .missed ∨ pc.phase = .rejected)
      (hs : s' = (s.print t line).finish t)
  | finish (hphase : (s.thread t).pc.phase = .matching ∧ (∀ j, (s.thread t).pc.job = some j →
        (s.heap j.order).count = 0) ∨
        (s.thread t).pc.phase = .added ∨ (s.thread t).pc.phase = .accepted)
      (hs : Ends s s' t)

theorem Stepped.afterWalk {curr : Option Addr} {v : ℤ} (hpc : (s.thread t).pc = .walk j v curr)
    (hs : s' = s.goto t (Sys.afterWalk j v)) : Stepped s s' t := by
  subst hs
  unfold Sys.afterWalk
  split
  · exact .go hpc (.goto ..) rfl rfl (.same _) rfl
  · exact .go hpc (.goto ..) rfl rfl (.same _) rfl

theorem Stepped.afterMatch {curr : Option Addr} {v : ℤ}
    (hpc : (s.thread t).pc = .matchTest j v curr) (hs : s' = s.afterMatch t j) :
    Stepped s s' t := by
  subst hs
  unfold Sys.afterMatch
  split
  · exact .go hpc (.goto ..) rfl rfl .book rfl
  next h =>
    refine .finish (Or.inl ⟨by rw [hpc]; rfl, ?_⟩) ⟨rfl, rfl, rfl, rfl, rfl⟩
    intro j' hj
    rw [hpc] at hj
    cases hj
    exact Quantity.value_inj (by
      rw [Quantity.lt_iff, Quantity.value_zero] at h
      rw [Quantity.value_zero]
      omega)

/-- A step onward with the mutexes and books only, unless a mutex is misused. -/
theorem Stepped.go_or (hpc : (s.thread t).pc = pc) (hs : Goes s s' t pc' ∨ Faults s s')
    (hj : pc.job = some j) (hj' : pc'.job = some j) (hphase : pc.phase.Next pc'.phase)
    (hquiet : pc'.printing = none) : Stepped s s' t ∨ Faults s s' :=
  hs.imp_left fun hgoes => .go hpc hgoes hj hj' hphase hquiet

theorem Sys.step_or_faults (hs : s.step t = some s') : Stepped s s' t ∨ Faults s s' := by
  rw [Sys.step.eq_def] at hs
  cases hpc : (s.thread t).pc with
  | ready =>
    rw [hpc] at hs
    cases hcmds : (s.thread t).cmds with
    | nil =>
      rw [hcmds] at hs
      cases hs
    | cons c cs =>
      rw [hcmds] at hs
      cases c with
      | order side orderId instrument price count inputTime =>
        exact Or.inl (.readOrder hpc (by rw [hcmds]; rfl) (Option.some.inj hs).symm)
      | cancel orderId inputTime =>
        exact Or.inl (.readCancel hpc (by rw [hcmds]; rfl) (Option.some.inj hs).symm)
  | getBook j =>
    rw [hpc] at hs
    dsimp only at hs
    split at hs <;> cases Option.some.inj hs <;> exact Or.inl (.go hpc (.goto ..) rfl rfl (.same _) rfl)
  | putBook j =>
    rw [hpc] at hs
    cases Option.some.inj hs
    exact Or.inl (.go hpc ⟨rfl, rfl, rfl, rfl, rfl⟩ rfl rfl (.same _) rfl)
  | lockBook j =>
    rw [hpc] at hs
    exact Stepped.go_or hpc (Goes.lockM hs) rfl rfl (.same _) rfl
  | lockMatchHead j =>
    rw [hpc] at hs
    exact Stepped.go_or hpc (Goes.lock hs) rfl rfl (.same _) rfl
  | walk j v curr =>
    rw [hpc] at hs
    cases curr with
    | none => exact Or.inl (.afterWalk hpc (Option.some.inj hs).symm)
    | some curr =>
      dsimp only at hs
      split at hs
      · split at hs
        · exact Stepped.go_or hpc (Goes.lock hs) rfl rfl (.same _) rfl
        · exact Stepped.go_or hpc (Goes.lock hs) rfl rfl (.same _) rfl
      · exact Or.inl (.afterWalk hpc (Option.some.inj hs).symm)
  | walkBreak j v curr =>
    rw [hpc] at hs
    have hgoes := Goes.unlock (Option.some.inj hs)
    unfold Sys.afterWalk at hgoes
    split at hgoes
    · exact Stepped.go_or hpc hgoes rfl rfl (.same _) rfl
    · exact Stepped.go_or hpc hgoes rfl rfl (.same _) rfl
  | lockAddHead j v =>
    rw [hpc] at hs
    exact Stepped.go_or hpc (Goes.lock hs) rfl rfl (.same _) rfl
  | unlockBook j v =>
    rw [hpc] at hs
    exact Stepped.go_or hpc (Goes.unlockM (Option.some.inj hs)) rfl rfl .enter rfl
  | matchHead j v =>
    rw [hpc] at hs
    exact Stepped.go_or hpc (Goes.unlock (Option.some.inj hs)) rfl rfl (.same _) rfl
  | matchTest j v curr =>
    rw [hpc] at hs
    cases curr with
    | none => exact Or.inl (.afterMatch hpc (Option.some.inj hs).symm)
    | some curr =>
      dsimp only at hs
      split at hs
      · cases Option.some.inj hs
        exact Or.inl (.go hpc (.goto ..) rfl rfl (.same _) rfl)
      · exact Or.inl (.afterMatch hpc (Option.some.inj hs).symm)
  | matchNode j v curr its k =>
    rw [hpc] at hs
    have hleave : ∀ n, (s.setNode j.book j.side.opp curr n).unlock t j.book j.side.opp curr
        (.matchTest j v n.next) = s' → Stepped s s' t ∨ Faults s s' := by
      intro n hn
      rcases Goes.unlock hn with hg | hf
      · exact Or.inl (.go hpc ⟨hg.thread, hg.heap, hg.orders, hg.nextPtr, hg.log⟩ rfl rfl (.same _) rfl)
      · exact Or.inr ⟨hf.thread, hf.heap, hf.orders, hf.nextPtr, hf.log, hf.fault⟩
    cases its with
    | nil => exact hleave _ (Option.some.inj hs)
    | cons it its =>
      dsimp only at hs
      split at hs
      · exact hleave _ (Option.some.inj hs)
      next hcount =>
        cases Option.some.inj hs
        exact Or.inl (.exec hpc rfl hcount rfl rfl rfl rfl)
  | matchPrint j v curr its k line =>
    rw [hpc] at hs
    exact Or.inl (.print hpc (Option.some.inj hs).symm rfl rfl rfl rfl rfl rfl)
  | addWalk j curr next =>
    rw [hpc] at hs
    cases next with
    | none =>
      cases Option.some.inj hs
      exact Or.inl (.go hpc (.goto ..) rfl rfl (.same _) rfl)
    | some next =>
      dsimp only at hs
      split at hs
      · exact Stepped.go_or hpc (Goes.lock hs) rfl rfl (.same _) rfl
      · split at hs
        · exact Stepped.go_or hpc (Goes.lock hs) rfl rfl (.same _) rfl
        · exact Stepped.go_or hpc (Goes.lock hs) rfl rfl (.same _) rfl
  | addBreak j curr next | addFound j curr next | addOn j curr next | addLinked j curr next =>
    rw [hpc] at hs
    exact Stepped.go_or hpc (Goes.unlock (Option.some.inj hs)) rfl rfl (.same _) rfl
  | addPlace j curr =>
    rw [hpc] at hs
    dsimp only at hs
    split at hs <;> cases Option.some.inj hs <;>
      exact Or.inl (.go hpc ⟨rfl, rfl, rfl, rfl, rfl⟩ rfl rfl (.same _) rfl)
  | addInsert j curr =>
    rw [hpc] at hs
    cases Option.some.inj hs
    exact Or.inl (.insert hpc rfl rfl rfl rfl rfl)
  | addPrint j curr =>
    rw [hpc] at hs
    exact Or.inl (.print hpc (Option.some.inj hs).symm rfl rfl rfl rfl rfl rfl)
  | addUnlock j curr | cancelUnlock j curr =>
    rw [hpc] at hs
    have hs' := Option.some.inj hs
    have hends : Ends s ((s.unlock t j.book j.side curr .ready).finish t) t :=
      (Goes.unlock rfl).elim Goes.finish Faults.finish
    rw [hs'] at hends
    exact Or.inl (.finish (by simp [hpc, Pc.phase]) hends)
  | getOrder orderId inputTime =>
    rw [hpc] at hs
    dsimp only at hs
    split at hs
    next hget =>
      cases Option.some.inj hs
      exact Or.inl (.miss hpc hget rfl)
    next hget =>
      cases Option.some.inj hs
      exact Or.inl (.hit hpc hget rfl)
  | printMiss orderId inputTime =>
    rw [hpc] at hs
    exact Or.inl (.printLast hpc rfl (Or.inl rfl) (Option.some.inj hs).symm)
  | getBookOf order =>
    rw [hpc] at hs
    dsimp only at hs
    split at hs
    · cases hs
    · cases Option.some.inj hs
      exact Or.inl (.aim hpc rfl)
  | lockHead j =>
    rw [hpc] at hs
    exact Stepped.go_or hpc (Goes.lock hs) rfl rfl .aim rfl
  | lockFirst j =>
    rw [hpc] at hs
    dsimp only at hs
    split at hs
    · cases Option.some.inj hs
      exact Or.inl (.go hpc (.goto ..) rfl rfl .reject rfl)
    · exact Stepped.go_or hpc (Goes.lock hs) rfl rfl (.same _) rfl
  | unlockHead j curr =>
    rw [hpc] at hs
    have hgoes := Goes.unlock (Option.some.inj hs)
    cases curr with
    | none => exact Stepped.go_or hpc hgoes rfl rfl (.same _) rfl
    | some curr => exact Stepped.go_or hpc hgoes rfl rfl (.same _) rfl
  | cancelTest j curr =>
    rw [hpc] at hs
    cases curr with
    | none =>
      cases Option.some.inj hs
      exact Or.inl (.go hpc (.goto ..) rfl rfl (.same _) rfl)
    | some curr =>
      dsimp only at hs
      split at hs
      · split at hs
        · cases Option.some.inj hs
          exact Or.inl (.go hpc (.goto ..) rfl rfl .reject rfl)
        · exact Stepped.go_or hpc (Goes.lock hs) rfl rfl (.same _) rfl
      · split at hs
        · cases Option.some.inj hs
          exact Or.inl (.accept hpc rfl rfl rfl rfl rfl)
        · cases Option.some.inj hs
          exact Or.inl (.go hpc (.goto ..) rfl rfl .reject rfl)
  | cancelOn j curr next =>
    rw [hpc] at hs
    exact Stepped.go_or hpc (Goes.unlock (Option.some.inj hs)) rfl rfl (.same _) rfl
  | cancelEnd j curr | cancelMissed j curr =>
    rw [hpc] at hs
    exact Stepped.go_or hpc (Goes.unlock (Option.some.inj hs)) rfl rfl (.same _) rfl
  | printRejected j =>
    rw [hpc] at hs
    exact Or.inl (.printLast hpc rfl (Or.inr rfl) (Option.some.inj hs).symm)
  | printAccepted j curr =>
    rw [hpc] at hs
    exact Or.inl (.print hpc (Option.some.inj hs).symm rfl rfl rfl rfl rfl rfl)

theorem Sys.step_cases (hs : s.step t = some s') (hf : s'.fault = false) : Stepped s s' t := by
  rcases Sys.step_or_faults hs with h | h
  · exact h
  · rw [h.fault] at hf
    cases hf

end MatchingEngine.Cpp
