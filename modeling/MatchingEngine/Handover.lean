import MatchingEngine.Basic
import MatchingEngine.Lib.HashTable

/-!
# How commands find their order book

`Engine::ConnectionThread` and `handleConn` look the book of an instrument up, make one on a miss,
put it into the map and look again; a cancel looks its order up and then the book of the order.  One
step of a connection is one operation of a map, which its bucket lock makes atomic, or the hand-over
to an `OrderBook`.  The books are objects here, known by their addresses.  What goes on inside them
is any sequence of insertions of orders they were handed into the map of orders, and of removals.
-/

set_option linter.unusedSectionVars false

namespace MatchingEngine

/-- `OrderBook *`. -/
abbrev BookPtr := ℕ

/-- The two programs. -/
inductive Program
  | cpp
  | go
  deriving DecidableEq, Repr

/-- A new order; `address` tells objects with equal fields apart, and `rId` is the connection that
    sent it. -/
structure Submitted (N I T : Type) where
  address : ℕ
  side : Side
  orderId : UInt32
  instrument : I
  price : UInt32
  count : N
  inputTime : ℤ
  rId : T
  deriving DecidableEq

/-- What became of a cancel: the order the map of orders gave for its id, if any, and the book that
    was handed the cancel, if any. -/
structure Cancelled (N I T : Type) where
  rId : T
  orderId : UInt32
  found : Option (Submitted N I T)
  book : Option BookPtr
  deriving DecidableEq

/-- Where a connection stands: the operation it makes next. -/
inductive Stage (N I T : Type)
  /-- reads the next command -/
  | ready
  /-- `orderBooks.get`, and on a miss `orderBooks.put` of a new book and `get` once more -/
  | getBook (o : Submitted N I T)
  | putBook (o : Submitted N I T) (book : BookPtr)
  | getAgain (o : Submitted N I T)
  /-- `order_book->processBuyOrder(order)`; `ob.ordersChn <- &Event{o, o.orderType}` -/
  | hand (o : Submitted N I T) (book : BookPtr)
  /-- `orders.get` and `orderBooks.get` for a cancel, and its hand-over -/
  | getOrder (orderId : UInt32)
  | getBookOf (o : Submitted N I T) (orderId : UInt32)
  | handCancel (o : Submitted N I T) (orderId : UInt32) (book : BookPtr)
  /-- the look-up that is taken to succeed has missed: C++ goes on with a pointer that was never
      set, the type assertion of Go panics -/
  | fault
  deriving DecidableEq

/-- The order that a connection is about to hand over. -/
def Stage.order {N I T : Type} : Stage N I T → Option (Submitted N I T)
  | .getBook o | .putBook o _ | .getAgain o | .hand o _ => some o
  | _ => none

structure Directory (N I T : Type) (instrumentHash : I → ℕ) (idHash : UInt32 → ℕ) where
  orderBooks : HashTable I BookPtr instrumentHash
  orders : HashTable UInt32 (Submitted N I T) idHash
  nextBook : BookPtr
  nextOrder : ℕ
  stage : T → Stage N I T
  cmds : T → List (Command N I)
  handed : List (Submitted N I T × BookPtr)
  cancels : List (Cancelled N I T)

/-- One step of the system. -/
inductive Action (T : Type)
  | connection (t : T)
  /-- a book puts an order into the map, the `k`-th that was handed over, or takes an id out of it -/
  | booked (k : ℕ)
  | removed (orderId : UInt32)

namespace Directory

variable {N I T : Type} [DecidableEq I] [DecidableEq T] {instrumentHash : I → ℕ}
  {idHash : UInt32 → ℕ}

/-- The Go engine passes a cancel on only if the order came from the same connection
    (`o.rId != rId`); the C++ engine asks nothing. -/
def Admits : Program → T → Submitted N I T → Prop
  | .cpp, _, _ => True
  | .go, t, o => o.rId = t

instance decidableAdmits (p : Program) (t : T) (o : Submitted N I T) : Decidable (Admits p t o) :=
  match p with
  | .cpp => inferInstanceAs (Decidable True)
  | .go => inferInstanceAs (Decidable (o.rId = t))

def init (cmds : T → List (Command N I)) : Directory N I T instrumentHash idHash where
  orderBooks := HashTable.empty
  orders := HashTable.empty
  nextBook := 0
  nextOrder := 0
  stage := fun _ => .ready
  cmds := cmds
  handed := []
  cancels := []

variable (s : Directory N I T instrumentHash idHash) (t : T)

def goto (stage : Stage N I T) : Directory N I T instrumentHash idHash :=
  { s with stage := Function.update s.stage t stage }

/-- The cancel is decided. -/
def close (c : Cancelled N I T) : Directory N I T instrumentHash idHash :=
  { s with cancels := s.cancels ++ [c] }.goto t .ready

/-- The next step of a connection; `none` after its last command. -/
def connectionStep (p : Program) : Option (Directory N I T instrumentHash idHash) :=
  match s.stage t with
  | .ready =>
    match s.cmds t with
    | [] => none
    | .order side orderId instrument price count inputTime :: rest =>
      let o : Submitted N I T :=
        { address := s.nextOrder, side, orderId, instrument, price, count, inputTime, rId := t }
      some ({ s with
        nextOrder := s.nextOrder + 1
        cmds := Function.update s.cmds t rest }.goto t (.getBook o))
    | .cancel orderId _ :: rest =>
      some ({ s with cmds := Function.update s.cmds t rest }.goto t (.getOrder orderId))
  | .getBook o =>
    match s.orderBooks.get o.instrument with
    | some b => some (s.goto t (.hand o b))
    | none => some ({ s with nextBook := s.nextBook + 1 }.goto t (.putBook o s.nextBook))
  | .putBook o b =>
    some ({ s with orderBooks := s.orderBooks.put o.instrument b }.goto t (.getAgain o))
  | .getAgain o =>
    match s.orderBooks.get o.instrument with
    | some b => some (s.goto t (.hand o b))
    | none => some (s.goto t .fault)
  | .hand o b => some ({ s with handed := s.handed ++ [(o, b)] }.goto t .ready)
  | .getOrder orderId =>
    match s.orders.get orderId with
    | none => some (s.close t { rId := t, orderId, found := none, book := none })
    | some o =>
      if Admits p t o then some (s.goto t (.getBookOf o orderId))
      else some (s.close t { rId := t, orderId, found := some o, book := none })
  | .getBookOf o orderId =>
    match s.orderBooks.get o.instrument with
    | some b => some (s.goto t (.handCancel o orderId b))
    | none => some (s.goto t .fault)
  | .handCancel o orderId b =>
    some (s.close t { rId := t, orderId, found := some o, book := some b })
  | .fault => none

/-- `Engine::ConnectionThread`. -/
def connectionThread : Option (Directory N I T instrumentHash idHash) := s.connectionStep t .cpp

/-- `handleConn`. -/
def handleConn : Option (Directory N I T instrumentHash idHash) := s.connectionStep t .go

def step (p : Program) : Action T → Option (Directory N I T instrumentHash idHash)
  | .connection t =>
    match p with
    | .cpp => s.connectionThread t
    | .go => s.handleConn t
  | .booked k =>
    match s.handed[k]? with
    | some (o, _) => some { s with orders := s.orders.put o.orderId o }
    | none => none
  | .removed orderId => some { s with orders := s.orders.remove orderId }

/-- The states that some interleaving of the connections reaches. -/
inductive Reachable (p : Program) (cmds : T → List (Command N I)) :
    Directory N I T instrumentHash idHash → Prop
  | init : Reachable p cmds (init cmds)
  | step {s s' : Directory N I T instrumentHash idHash} {a : Action T}
      (h : Reachable p cmds s) (hs : s.step p a = some s') : Reachable p cmds s'

/-! ## What every state satisfies -/

/-- What a connection knows of the maps at each stage. -/
def StageOk (p : Program) (t : T) : Stage N I T → Prop
  | .ready | .getBook _ | .getOrder _ => True
  | .putBook _ b => b < s.nextBook ∧ ∀ i, s.orderBooks.get i ≠ some b
  | .getAgain o => ∃ b, s.orderBooks.get o.instrument = some b
  | .hand o b => s.orderBooks.get o.instrument = some b
  | .getBookOf o _ => Admits p t o ∧ ∃ b, (o, b) ∈ s.handed
  | .handCancel o _ b => Admits p t o ∧ (o, b) ∈ s.handed
  | .fault => False

/-- A cancel that found its order went to the book that the order was handed to, unless the Go
    engine turned it down as sent on another connection. -/
def CancelOk (p : Program) (handed : List (Submitted N I T × BookPtr)) (c : Cancelled N I T) :
    Prop :=
  ∀ o, c.found = some o →
    (∃ b, c.book = some b ∧ (o, b) ∈ handed) ∨ (p = .go ∧ o.rId ≠ c.rId ∧ c.book = none)

structure Inv (p : Program) : Prop where
  bound : ∀ i b, s.orderBooks.get i = some b → b < s.nextBook
  injective : ∀ i i' b, s.orderBooks.get i = some b → s.orderBooks.get i' = some b → i = i'
  stage : ∀ t, s.StageOk p t (s.stage t)
  /-- two connections do not hold one new book -/
  apart : ∀ t t' o o' b, s.stage t = .putBook o b → s.stage t' = .putBook o' b → t = t'
  handed : ∀ o b, (o, b) ∈ s.handed → s.orderBooks.get o.instrument = some b
  orders : ∀ orderId o, s.orders.get orderId = some o → ∃ b, (o, b) ∈ s.handed
  cancels : ∀ c ∈ s.cancels, CancelOk p s.handed c

variable {s t} {p : Program} {s' : Directory N I T instrumentHash idHash} {st : Stage N I T}

theorem init_inv (cmds : T → List (Command N I)) :
    (init cmds : Directory N I T instrumentHash idHash).Inv p where
  bound := fun _ _ h => by cases h
  injective := fun _ _ _ h => by cases h
  stage := fun _ => trivial
  apart := fun _ _ _ _ _ h => by cases h
  handed := fun _ _ h => by cases h
  orders := fun _ _ h => by cases h
  cancels := fun _ h => by cases h

theorem CancelOk.mono {handed handed' : List (Submitted N I T × BookPtr)} {c : Cancelled N I T}
    (h : CancelOk p handed c) (hsub : ∀ x ∈ handed, x ∈ handed') : CancelOk p handed' c := by
  intro o ho
  rcases h o ho with ⟨b, hb, hx⟩ | hforeign
  · exact Or.inl ⟨b, hb, hsub _ hx⟩
  · exact Or.inr hforeign

/-- Books are only added and orders only handed over, so what a connection knows stays true; the new
    book that it holds must not have got into the map. -/
theorem StageOk.mono (h : s.StageOk p t st)
    (hbooks : ∀ i b, s.orderBooks.get i = some b → s'.orderBooks.get i = some b)
    (hnext : s.nextBook ≤ s'.nextBook) (hsub : ∀ x ∈ s.handed, x ∈ s'.handed)
    (hnew : ∀ o b, st = .putBook o b → ∀ i, s'.orderBooks.get i = some b →
      s.orderBooks.get i = some b) : s'.StageOk p t st := by
  cases st with
  | ready | getBook _ | getOrder _ => trivial
  | putBook o b => exact ⟨h.1.trans_le hnext, fun i hi => h.2 i (hnew o b rfl i hi)⟩
  | getAgain o =>
    rcases h with ⟨b, hb⟩
    exact ⟨b, hbooks _ _ hb⟩
  | hand o b => exact hbooks _ _ h
  | getBookOf o orderId =>
    rcases h with ⟨ha, b, hb⟩
    exact ⟨ha, b, hsub _ hb⟩
  | handCancel o orderId b => exact ⟨h.1, hsub _ h.2⟩
  | fault => exact h.elim

/-- A step of connection `t` that leaves the map of books alone. -/
theorem Inv.move (h : s.Inv p) (st : Stage N I T) (hbooks : s'.orderBooks = s.orderBooks)
    (hnext : s.nextBook ≤ s'.nextBook) (hstage : s'.stage = Function.update s.stage t st)
    (hst : s'.StageOk p t st) (hfresh : ∀ o b, st = .putBook o b → s.nextBook ≤ b)
    (hsub : ∀ x ∈ s.handed, x ∈ s'.handed)
    (hhanded : ∀ o b, (o, b) ∈ s'.handed → s.orderBooks.get o.instrument = some b)
    (horders : s'.orders = s.orders) (hcancels : ∀ c ∈ s'.cancels, CancelOk p s'.handed c) :
    s'.Inv p where
  bound := by
    intro i b hi
    rw [hbooks] at hi
    exact (h.bound i b hi).trans_le hnext
  injective := by
    rw [hbooks]
    exact h.injective
  stage := by
    intro u
    rw [hstage]
    by_cases hu : u = t
    · subst hu
      rw [Function.update_self]
      exact hst
    · rw [Function.update_of_ne hu]
      apply (h.stage u).mono _ hnext hsub _
      · rw [hbooks]
        exact fun _ _ hi => hi
      · rw [hbooks]
        exact fun _ _ _ _ hi => hi
  apart := by
    -- the book of another connection is older than a new one
    have hne : ∀ u o o' b, u ≠ t → s.stage u = .putBook o b → st ≠ .putBook o' b := by
      intro u o o' b hu hstu hstb
      have hlt := h.stage u
      rw [hstu] at hlt
      have hle := hfresh o' b hstb
      exact absurd hlt.1 (not_lt.mpr hle)
    intro u u' o o' b hu hu'
    rw [hstage] at hu hu'
    by_cases h1 : u = t <;> by_cases h2 : u' = t
    · rw [h1, h2]
    · subst h1
      rw [Function.update_self] at hu
      rw [Function.update_of_ne h2] at hu'
      exact absurd hu (hne u' o' o b h2 hu')
    · subst h2
      rw [Function.update_self] at hu'
      rw [Function.update_of_ne h1] at hu
      exact absurd hu' (hne u o o' b h1 hu)
    · rw [Function.update_of_ne h1] at hu
      rw [Function.update_of_ne h2] at hu'
      exact h.apart u u' o o' b hu hu'
  handed := by
    rw [hbooks]
    exact hhanded
  orders := by
    intro orderId o ho
    rw [horders] at ho
    rcases h.orders orderId o ho with ⟨b, hb⟩
    exact ⟨b, hsub _ hb⟩
  cancels := hcancels

/-- A step of connection `t` that touches no map, no book and no log. -/
theorem Inv.goto (h : s.Inv p) (hst : s.StageOk p t st)
    (hnot : ∀ o b, st ≠ .putBook o b) : (s.goto t st).Inv p := by
  have hfresh : ∀ o b, st = .putBook o b → s.nextBook ≤ b := by
    intro o b hb
    exact absurd hb (hnot o b)
  exact h.move st rfl (le_refl _) rfl hst hfresh (fun _ hx => hx) h.handed
    rfl h.cancels

theorem Inv.close (h : s.Inv p) {c : Cancelled N I T} (hc : CancelOk p s.handed c) :
    (s.close t c).Inv p := by
  have hcancels : ∀ c' ∈ s.cancels ++ [c], CancelOk p s.handed c' := by
    intro c' hc'
    rcases List.mem_append.mp hc' with hc' | hc'
    · exact h.cancels c' hc'
    · cases List.mem_singleton.mp hc'
      exact hc
  exact h.move .ready rfl (le_refl _) rfl trivial
    (fun _ _ hb => by cases hb) (fun _ hx => hx) h.handed rfl hcancels

/-- The book that a connection puts is in the map under this instrument or under none. -/
theorem Inv.putBook (h : s.Inv p) {o : Submitted N I T} {b : BookPtr}
    (hstage : s.stage t = .putBook o b) :
    ({ s with orderBooks := s.orderBooks.put o.instrument b }.goto t (.getAgain o)).Inv p := by
  have hb := h.stage t
  rw [hstage] at hb
  rcases hb with ⟨hlt, hunbound⟩
  have hgrow : ∀ i b', s.orderBooks.get i = some b' →
      (s.orderBooks.put o.instrument b).get i = some b' := by
    intro i b' hi
    exact HashTable.get_put_eq_some.mpr (Or.inl hi)
  have hother : ∀ u, u ≠ t → ∀ o' b', s.stage u = .putBook o' b' → b' ≠ b := by
    rintro u hu o' b' hstu rfl
    exact hu (h.apart u t o' o b' hstu hstage)
  constructor
  case bound =>
    intro i b' hi
    rcases HashTable.get_put_eq_some.mp hi with hi | ⟨_, _, rfl⟩
    · exact h.bound i b' hi
    · exact hlt
  case injective =>
    intro i i' b' hi hi'
    rcases HashTable.get_put_eq_some.mp hi with hj | ⟨hj, _, hbb⟩ <;>
      rcases HashTable.get_put_eq_some.mp hi' with hj' | ⟨hj', _, hbb'⟩
    · exact h.injective i i' b' hj hj'
    · subst hbb'
      exact absurd hj (hunbound i)
    · subst hbb
      exact absurd hj' (hunbound i')
    · rw [hj, hj']
  case stage =>
    intro u
    show StageOk _ p u (Function.update s.stage t _ u)
    by_cases hu : u = t
    · subst hu
      rw [Function.update_self]
      exact HashTable.get_put_self_isSome _ _ _
    · rw [Function.update_of_ne hu]
      apply StageOk.mono (h.stage u)
      · exact hgrow
      · exact le_refl _
      · exact fun _ hx => hx
      · intro o' b' hstu i hi
        rcases HashTable.get_put_eq_some.mp hi with hj | ⟨_, _, hbb⟩
        · exact hj
        · exact absurd hbb (hother u hu o' b' hstu)
  case apart =>
    intro u u' o₁ o₂ b' hu hu'
    have hkeep : ∀ v o', Function.update s.stage t (.getAgain o) v = .putBook o' b' →
        s.stage v = .putBook o' b' := by
      intro v o' hv
      by_cases hvt : v = t
      · subst hvt
        rw [Function.update_self] at hv
        cases hv
      · rw [Function.update_of_ne hvt] at hv
        exact hv
    exact h.apart u u' o₁ o₂ b' (hkeep u o₁ hu) (hkeep u' o₂ hu')
  case handed =>
    intro o' b' ho
    exact hgrow _ _ (h.handed o' b' ho)
  case orders => exact h.orders
  case cancels => exact h.cancels

theorem Inv.hand (h : s.Inv p) {o : Submitted N I T} {b : BookPtr} (hstage : s.stage t = .hand o b) :
    ({ s with handed := s.handed ++ [(o, b)] }.goto t .ready).Inv p := by
  have hb : s.orderBooks.get o.instrument = some b := by
    have hb := h.stage t
    rw [hstage] at hb
    exact hb
  have hsub : ∀ x ∈ s.handed, x ∈ s.handed ++ [(o, b)] := fun _ hx => List.mem_append_left _ hx
  have hhanded : ∀ o' b', (o', b') ∈ s.handed ++ [(o, b)] →
      s.orderBooks.get o'.instrument = some b' := by
    intro o' b' hx
    rcases List.mem_append.mp hx with hx | hx
    · exact h.handed o' b' hx
    · cases List.mem_singleton.mp hx
      exact hb
  exact h.move .ready rfl (le_refl _) rfl trivial (fun _ _ hb => by cases hb) hsub hhanded rfl
    (fun c hc => (h.cancels c hc).mono hsub)

/-- The books put orders that they were handed into the map, and take ids out. -/
theorem Inv.orders_changed (h : s.Inv p) {orders : HashTable UInt32 (Submitted N I T) idHash}
    (horders : ∀ orderId o, orders.get orderId = some o → ∃ b, (o, b) ∈ s.handed) :
    ({ s with orders } : Directory N I T instrumentHash idHash).Inv p where
  bound := h.bound
  injective := h.injective
  stage := by
    intro u
    apply StageOk.mono (h.stage u)
    · exact fun _ _ hi => hi
    · exact le_refl _
    · exact fun _ hx => hx
    · exact fun _ _ _ _ hi => hi
  apart := h.apart
  handed := h.handed
  orders := horders
  cancels := h.cancels

theorem connectionStep_inv (h : s.Inv p) (hs : s.connectionStep t p = some s') : s'.Inv p := by
  have hst := h.stage t
  unfold connectionStep at hs
  split at hs
  next hready =>
    -- a command is read
    split at hs
    · cases hs
    · cases hs
      exact h.move (.getBook _) rfl (le_refl _) rfl trivial (fun _ _ hb => by cases hb)
        (fun _ hx => hx) h.handed rfl h.cancels
    · cases hs
      exact h.move (.getOrder _) rfl (le_refl _) rfl trivial (fun _ _ hb => by cases hb)
        (fun _ hx => hx) h.handed rfl h.cancels
  next o hget =>
    split at hs
    next b hb =>
      cases hs
      exact h.goto hb (fun _ _ hn => by cases hn)
    next hmiss =>
      cases hs
      -- no instrument is bound to an address that was never given out
      have hunbound : ∀ i, s.orderBooks.get i ≠ some s.nextBook := by
        intro i hi
        exact absurd (h.bound i _ hi) (lt_irrefl _)
      exact h.move (.putBook o s.nextBook) rfl (Nat.le_succ _) rfl
        ⟨Nat.lt_succ_self _, hunbound⟩ (fun _ _ hb => by cases hb; exact le_refl _)
        (fun _ hx => hx) h.handed rfl h.cancels
  next o b hput =>
    cases hs
    exact h.putBook hput
  next o hagain =>
    rw [hagain] at hst
    rcases hst with ⟨b, hb⟩
    rw [hb] at hs
    cases hs
    exact h.goto hb (fun _ _ hn => by cases hn)
  next o b hhand =>
    cases hs
    exact h.hand hhand
  next orderId hget =>
    split at hs
    next hmiss =>
      cases hs
      exact h.close (fun _ ho => by cases ho)
    next o ho =>
      split at hs
      next hadm =>
        cases hs
        exact h.goto ⟨hadm, h.orders orderId o ho⟩ (fun _ _ hn => by cases hn)
      next hadm =>
        cases hs
        apply h.close
        intro o' ho'
        cases ho'
        cases p with
        | cpp => exact absurd trivial hadm
        | go => exact Or.inr ⟨rfl, hadm, rfl⟩
  next o orderId hof =>
    rw [hof] at hst
    rcases hst with ⟨hadm, b, hb⟩
    rw [h.handed o b hb] at hs
    cases hs
    exact h.goto ⟨hadm, hb⟩ (fun _ _ hn => by cases hn)
  next o orderId b hcancel =>
    cases hs
    rw [hcancel] at hst
    apply h.close
    intro o' ho'
    cases ho'
    exact Or.inl ⟨b, rfl, hst.2⟩
  next hfault => cases hs

theorem step_inv {a : Action T} (h : s.Inv p) (hs : s.step p a = some s') : s'.Inv p := by
  cases a with
  | connection t =>
    cases p with
    | cpp => exact connectionStep_inv h hs
    | go => exact connectionStep_inv h hs
  | booked k =>
    simp only [step] at hs
    split at hs
    next o b hk =>
      cases hs
      apply h.orders_changed
      intro orderId o' ho
      rcases HashTable.get_put_eq_some.mp ho with ho | ⟨_, _, rfl⟩
      · exact h.orders orderId o' ho
      · exact ⟨b, List.mem_of_getElem? hk⟩
    · cases hs
  | removed orderId =>
    cases hs
    apply h.orders_changed
    intro orderId' o ho
    rw [HashTable.get_remove] at ho
    split at ho
    · cases ho
    · exact h.orders orderId' o ho

theorem reachable_inv {cmds : T → List (Command N I)} (h : Reachable p cmds s) : s.Inv p := by
  induction h with
  | init => exact init_inv cmds
  | step _ hs ih => exact step_inv ih hs

/-! ## No order is lost on the way -/

/-- Every order read so far was handed over or is on its way. -/
def Kept (s : Directory N I T instrumentHash idHash) : Prop :=
  ∀ k < s.nextOrder, (∃ x ∈ s.handed, x.1.address = k) ∨
    ∃ t o, (s.stage t).order = some o ∧ o.address = k

theorem Kept.move (h : s.Kept) (st : Stage N I T) (hnext : s'.nextOrder = s.nextOrder)
    (hstage : s'.stage = Function.update s.stage t st) (hsub : ∀ x ∈ s.handed, x ∈ s'.handed)
    (hst : ∀ o, (s.stage t).order = some o → st.order = some o ∨ ∃ b, (o, b) ∈ s'.handed) :
    s'.Kept := by
  intro k hk
  rw [hnext] at hk
  rcases h k hk with ⟨x, hx, hxk⟩ | ⟨u, o, ho, hok⟩
  · exact Or.inl ⟨x, hsub x hx, hxk⟩
  · by_cases hu : u = t
    · subst hu
      rcases hst o ho with ho' | ⟨b, hb⟩
      · refine Or.inr ⟨u, o, ?_, hok⟩
        rw [hstage, Function.update_self]
        exact ho'
      · exact Or.inl ⟨(o, b), hb, hok⟩
    · refine Or.inr ⟨u, o, ?_, hok⟩
      rw [hstage, Function.update_of_ne hu]
      exact ho

/-- A step that keeps the order of the connection, or ends a command that has none. -/
theorem Kept.goto (h : s.Kept) (hst : (s.stage t).order = st.order) : (s.goto t st).Kept := by
  have hkeep : ∀ o, (s.stage t).order = some o → st.order = some o ∨ ∃ b, (o, b) ∈ s.handed := by
    intro o ho
    rw [← hst]
    exact Or.inl ho
  exact h.move st rfl rfl (fun _ hx => hx) hkeep

theorem connectionStep_kept (hi : s.Inv p) (h : s.Kept) (hs : s.connectionStep t p = some s') :
    s'.Kept := by
  have hst := hi.stage t
  unfold connectionStep at hs
  split at hs
  next hready =>
    have hnone : ∀ o, (s.stage t).order ≠ some o := by
      rw [hready]
      exact fun _ hn => by cases hn
    split at hs
    · cases hs
    next side orderId i price count time rest hcmds =>
      cases hs
      intro k hk
      rcases Nat.lt_succ_iff_lt_or_eq.mp hk with hk | rfl
      · rcases h k hk with hx | ⟨u, o, ho, hok⟩
        · exact Or.inl hx
        · have hu : u ≠ t := by
            rintro rfl
            exact hnone o ho
          refine Or.inr ⟨u, o, ?_, hok⟩
          show (Function.update s.stage t _ u).order = some o
          rw [Function.update_of_ne hu]
          exact ho
      · -- the new order itself
        refine Or.inr ⟨t, ⟨s.nextOrder, side, orderId, i, price, count, time, t⟩, ?_, rfl⟩
        show (Function.update s.stage t _ t).order = _
        rw [Function.update_self]
        rfl
    · cases hs
      exact h.move (.getOrder _) rfl rfl (fun _ hx => hx)
        (fun o ho => absurd ho (hnone o))
  next o hget =>
    have hkeep : ∀ o', (s.stage t).order = some o' → some o = some o' ∨ ∃ b, (o', b) ∈ s.handed := by
      rw [hget]
      exact fun o' ho' => Or.inl ho'
    split at hs
    · cases hs
      exact h.move (.hand o _) rfl rfl (fun _ hx => hx) hkeep
    · cases hs
      exact h.move (.putBook o s.nextBook) rfl rfl (fun _ hx => hx) hkeep
  next o b hput =>
    cases hs
    have hkeep : ∀ o', (s.stage t).order = some o' → some o = some o' ∨ ∃ b, (o', b) ∈ s.handed := by
      rw [hput]
      exact fun o' ho' => Or.inl ho'
    exact h.move (.getAgain o) rfl rfl (fun _ hx => hx) hkeep
  next o hagain =>
    rw [hagain] at hst
    rcases hst with ⟨b, hb⟩
    rw [hb] at hs
    cases hs
    apply h.goto
    rw [hagain]
    rfl
  next o b hhand =>
    cases hs
    have hkeep : ∀ o', (s.stage t).order = some o' →
        none = some o' ∨ ∃ b', (o', b') ∈ s.handed ++ [(o, b)] := by
      rw [hhand]
      rintro o' ho'
      cases ho'
      exact Or.inr ⟨b, List.mem_append_right _ (List.mem_singleton_self _)⟩
    exact h.move .ready rfl rfl (fun _ hx => List.mem_append_left _ hx) hkeep
  next orderId hget =>
    have hnone : ∀ o, (s.stage t).order ≠ some o := by
      rw [hget]
      exact fun _ hn => by cases hn
    split at hs
    · cases hs
      exact h.move .ready rfl rfl (fun _ hx => hx) (fun o ho => absurd ho (hnone o))
    · split at hs
      · cases hs
        apply h.goto
        rw [hget]
        rfl
      · cases hs
        exact h.move .ready rfl rfl (fun _ hx => hx)
          (fun o ho => absurd ho (hnone o))
  next o orderId hof =>
    split at hs <;> cases hs
    all_goals
      apply h.goto
      rw [hof]
      rfl
  next o orderId b hcancel =>
    cases hs
    have hnone : ∀ o, (s.stage t).order ≠ some o := by
      rw [hcancel]
      exact fun _ hn => by cases hn
    exact h.move .ready rfl rfl (fun _ hx => hx) (fun o ho => absurd ho (hnone o))
  next hfault => cases hs

theorem step_kept {a : Action T} (hi : s.Inv p) (h : s.Kept) (hs : s.step p a = some s') :
    s'.Kept := by
  cases a with
  | connection t =>
    cases p with
    | cpp => exact connectionStep_kept hi h hs
    | go => exact connectionStep_kept hi h hs
  | booked k =>
    simp only [step] at hs
    split at hs <;> cases hs
    exact h
  | removed orderId =>
    cases hs
    exact h

theorem reachable_kept {cmds : T → List (Command N I)} (h : Reachable p cmds s) : s.Kept := by
  induction h with
  | init => exact fun k hk => absurd hk (Nat.not_lt_zero k)
  | step hr hs ih => exact step_kept (reachable_inv hr) ih hs

/-! ## One order book for each instrument -/

/-- Orders of one instrument go to one book and orders of two instruments to two. -/
def OneBook (s : Directory N I T instrumentHash idHash) : Prop :=
  ∀ x ∈ s.handed, ∀ y ∈ s.handed, x.1.instrument = y.1.instrument ↔ x.2 = y.2

/-- Every cancel that found its order reached the book that the order was handed to. -/
def CancelsReach (s : Directory N I T instrumentHash idHash) : Prop :=
  ∀ c ∈ s.cancels, ∀ o, c.found = some o → ∃ b, c.book = some b ∧ (o, b) ∈ s.handed

/-- The state after some actions; one that is not possible is left out. -/
def run (p : Program) (s : Directory N I T instrumentHash idHash) :
    List (Action T) → Directory N I T instrumentHash idHash
  | [] => s
  | a :: as => run p ((s.step p a).getD s) as

theorem Reachable.run {cmds : T → List (Command N I)} (h : Reachable p cmds s)
    (as : List (Action T)) : Reachable p cmds (run p s as) := by
  induction as generalizing s with
  | nil => exact h
  | cons a as ih =>
    apply ih
    cases hs : s.step p a with
    | none => exact h
    | some s' => exact h.step hs

/-- Two connections miss at the same time and each make a book for one instrument. -/
def raceCmds : Bool → List (Command ℕ Bool)
  | false => [.order .sell 1 true 2700 10 0]
  | true => [.order .buy 2 true 2600 10 1, .cancel 1 2]

/-- Both read, look up, put and look again in turn; then the sell is booked, and the other
    connection cancels it. -/
def raceRun : List (Action Bool) :=
  [.connection false, .connection true, .connection false, .connection true, .connection true,
    .connection false, .connection false, .connection true, .connection true, .connection false,
    .booked 1, .connection true, .connection true, .connection true, .connection true]

abbrev raceEnd (p : Program) : Directory ℕ Bool Bool (fun _ => 0) UInt32.toNat :=
  run p (init raceCmds) raceRun

end Directory

end MatchingEngine
