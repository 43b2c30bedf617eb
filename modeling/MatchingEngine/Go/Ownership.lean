import MatchingEngine.Go.Carried

/-!
# Whose orders a cancel removes

`handleConn` compares the number of its connection with that of the order that the map gives for the
id.  The removal comes later, in another goroutine, which takes the first order with the id that stands
at the price.
-/

set_option linter.unusedSectionVars false

namespace MatchingEngine.Go

variable {N I T : Type} [Quantity N] [DecidableEq I] [DecidableEq T] {s s' : Sys N I T} {t : T}
  {a : Actor T}

/-- Every order that a cancel has removed was sent on the connection of the cancel. -/
def OwnCancels (s : Sys N I T) : Prop := ∀ x ∈ s.cancelled, x.2.rId.conn = x.1

/-- An order with the id that is of another connection than `t` stands behind one of `t` with the id. -/
def OwnFirst (t : T) (orderId : UInt32) (orders : List (Order N I (RId T))) : Prop :=
  ∀ front e back, orders = front ++ e :: back → e.orderId = orderId → e.rId.conn ≠ t →
    ∃ e' ∈ front, e'.orderId = orderId ∧ e'.rId.conn = t

theorem eq_of_sameId {o e : Order N I (RId T)} (h : sameId o e = true) : o.orderId = e.orderId :=
  of_decide_eq_true h

/-- What the search finds is then of `t`. -/
theorem ownFirst_iff (o : Order N I (RId T)) (orders : List (Order N I (RId T))) :
    OwnFirst t o.orderId orders ↔ ∀ e, orders.find? (sameId o) = some e → e.rId.conn = t := by
  constructor
  · intro h e hfind
    rcases List.find?_eq_some_iff_append.mp hfind with ⟨hid, front, back, horders, hfront⟩
    by_contra hne
    have hid' : e.orderId = o.orderId := (eq_of_sameId hid).symm
    rcases h front e back horders hid' hne with ⟨e', he', hid₁, -⟩
    have hnot := hfront e' he'
    unfold sameId at hnot
    rw [hid₁, decide_eq_true rfl] at hnot
    cases hnot
  · intro h front e back horders hid hne
    have hfound : (orders.find? (sameId o)).isSome := by
      rw [List.find?_isSome]
      refine ⟨e, ?_, decide_eq_true hid.symm⟩
      rw [horders]
      exact List.mem_append_right _ List.mem_cons_self
    rcases Option.isSome_iff_exists.mp hfound with ⟨e', he'⟩
    have hown := h e' he'
    refine ⟨e', ?_, (eq_of_sameId (List.find?_some he')).symm, hown⟩
    -- the first one with the id is not behind `e`
    rw [horders, List.find?_append] at he'
    cases hfirst : front.find? (sameId o) with
    | some x =>
      rw [hfirst] at he'
      cases he'
      exact List.mem_of_find?_eq_some hfirst
    | none =>
      have hsame : sameId o e = true := decide_eq_true hid.symm
      rw [hfirst, Option.none_or, List.find?_cons_of_pos hsame] at he'
      cases he'
      exact absurd hown hne

namespace Sys

/-- If the step is that of a cancel at a node of its price, the orders that stand there are in this
    way with its id and its connection. -/
def RemovesOwn (s : Sys N I T) (a : Actor T) : Prop :=
  ∀ g r prev curr ch, a = .routine g → s.routine g = some r →
    r.pc = .cancelAt prev (some curr) ch → (s.node r.book r.side curr).price = r.order.price →
    OwnFirst r.cause.conn r.order.orderId (s.node r.book r.side curr).orders

/-- The test of it. -/
def removesOwn (s : Sys N I T) : Actor T → Bool
  | .routine g =>
    match s.routine g with
    | none => true
    | some r =>
      match r.pc with
      | .cancelAt _ (some curr) _ =>
        let n := s.node r.book r.side curr
        decide (n.price = r.order.price →
          ∀ e ∈ n.orders.find? (sameId r.order), e.rId.conn = r.cause.conn)
      | _ => true
  | _ => true

theorem removesOwn_of_test (h : s.removesOwn a = true) : s.RemovesOwn a := by
  rintro g r prev curr ch rfl hr hpc hprice
  apply (ownFirst_iff r.order _).mpr
  simp only [removesOwn, hr, hpc, decide_eq_true_iff] at h
  exact h hprice

/-- The states that an interleaving reaches whose steps all meet the condition. -/
inductive OwnRun (cmds : T → List (Command N I)) : Sys N I T → Prop
  | init : OwnRun cmds (init cmds)
  | step {s s' : Sys N I T} {a : Actor T} (h : OwnRun cmds s) (ho : s.RemovesOwn a)
      (hs : s.step a = some s') : OwnRun cmds s'

/-- The condition at each of these steps. -/
def OwnSteps (s : Sys N I T) : List (Actor T) → Prop
  | [] => True
  | a :: as => s.removesOwn a = true ∧ OwnSteps ((s.step a).getD s) as

instance decidableOwnSteps (s : Sys N I T) : (as : List (Actor T)) → Decidable (s.OwnSteps as)
  | [] => isTrue trivial
  | a :: as =>
    have := decidableOwnSteps ((s.step a).getD s) as
    inferInstanceAs (Decidable (_ ∧ _))

theorem OwnRun.run {cmds : T → List (Command N I)} (h : OwnRun cmds s) {as : List (Actor T)}
    (has : s.OwnSteps as) : OwnRun cmds (s.run as) := by
  induction as generalizing s with
  | nil => exact h
  | cons a as ih =>
    rcases has with ⟨ho, has⟩
    cases hs : s.step a with
    | none =>
      rw [hs] at has
      have hrun := ih h has
      unfold Sys.run
      rw [hs]
      exact hrun
    | some s' =>
      rw [hs] at has
      have hrun := ih (h.step (removesOwn_of_test ho) hs) has
      unfold Sys.run
      rw [hs]
      exact hrun

end Sys

/-! ## The condition on a step -/

def owned : Facts N I T where
  held := fun _ _ => True
  job := fun _ _ => True
  line := fun _ _ => True
  rest := fun _ => True
  taken := fun t e => e.rId.conn = t
  conn := fun _ _ _ _ => True

theorem owned_lawful : (owned : Facts N I T).Lawful where
  read := fun _ _ _ => trivial
  setCount := fun _ _ _ _ => trivial
  executed := fun _ _ _ _ _ => trivial
  added := fun _ _ _ _ => trivial
  deleted := fun _ _ _ _ => trivial
  missed := fun _ _ => trivial
  resting := fun _ _ _ => trivial
  updated := fun _ _ _ _ => trivial
  next := fun _ _ _ _ _ => trivial

theorem Sys.RemovesOwn.admits (h : s.RemovesOwn a) : owned.Admits s a where
  draw := fun _ _ _ => trivial
  read := fun _ _ _ _ _ _ _ _ _ _ _ _ => trivial
  found := fun _ _ _ _ _ _ _ _ _ _ => trivial
  removed := by
    intro g r prev curr ch e ha hr hpc hprice hfind _ _
    exact (ownFirst_iff r.order _).mp (h g r prev curr ch ha hr hpc hprice) e hfind

theorem OwnCancels.carries (h : OwnCancels s) : Carries owned s where
  known := fun _ => trivial
  conn := by
    intro t
    cases (s.conn t).pc
    case foundUnlock => exact ⟨trivial, trivial⟩
    all_goals exact trivial
  event := fun _ _ _ => trivial
  routine := fun _ _ _ => trivial
  line := fun _ _ _ _ _ => trivial
  chan := fun _ _ _ => trivial
  log := fun _ _ => trivial
  node := fun _ _ _ _ _ => trivial
  orders := fun _ _ _ => trivial
  cancelled := h

theorem Sys.removesOwn_of_step (hs : s.step a = some s') (h : OwnCancels s') : s.RemovesOwn a := by
  rintro g r prev curr ch rfl hr hpc hprice
  apply (ownFirst_iff r.order _).mpr
  intro e hfind
  simp only [Sys.step, hr, Sys.routineStep, hpc, Sys.processCancelOrder, hprice, hfind, ne_eq,
    not_true_eq_false, if_false, Option.some.injEq] at hs
  subst hs
  exact h (r.cause.conn, e) (List.mem_append_right _ (List.mem_singleton_self _))

/-- A step leaves all removals right if and only if it meets the condition. -/
theorem ownCancels_step_iff (hs : s.step a = some s') (h : OwnCancels s) :
    OwnCancels s' ↔ s.RemovesOwn a :=
  ⟨Sys.removesOwn_of_step hs, fun ho => (h.carries.step owned_lawful ho.admits hs).cancelled⟩

theorem Sys.OwnRun.ownCancels {cmds : T → List (Command N I)} (h : Sys.OwnRun cmds s) :
    OwnCancels s := by
  induction h with
  | init => exact fun _ hx => by cases hx
  | step h ho hs ih => exact (ownCancels_step_iff hs ih).mpr ho

/-! ## Ids that are not shared -/

/-- The connection sends an order with this id. -/
def Sends (cmds : T → List (Command N I)) (t : T) (orderId : UInt32) : Prop :=
  ∃ side instrument price count inputTime,
    .order side orderId instrument price count inputTime ∈ cmds t

/-- No two connections send orders with one id. -/
def UnsharedIds (cmds : T → List (Command N I)) : Prop :=
  ∀ t u orderId, Sends cmds t orderId → Sends cmds u orderId → t = u

/-- No two connections have drawn one number, as they do when 2^32 others were accepted between. -/
def DistinctNumbers (s : Sys N I T) : Prop :=
  ∀ t u, (s.conn t).pc.started = true → (s.conn u).pc.started = true →
    (s.conn t).rId = (s.conn u).rId → t = u

/-- The order has the number that its connection has in `s`, and an id that it sends. -/
structure Submitted (cmds : T → List (Command N I)) (s : Sys N I T) (o : Order N I (RId T)) :
    Prop where
  started : (s.conn o.rId.conn).pc.started = true
  number : (s.conn o.rId.conn).rId = o.rId.value
  sends : Sends cmds o.rId.conn o.orderId

/-- Orders are submitted, goroutines work for orders of the connection of their command, and the
    numbers are those that the connections have in `s`. -/
def submitted (cmds : T → List (Command N I)) (s : Sys N I T) : Facts N I T where
  held := fun t c => c.conn = t
  job := fun c o => Submitted cmds s o ∧ o.rId.conn = c.conn
  line := fun _ _ => True
  rest := Submitted cmds s
  taken := fun t e => e.rId.conn = t
  conn := fun t rId started cs =>
    (started = true → (s.conn t).pc.started = true ∧ (s.conn t).rId = rId) ∧ cs <:+ cmds t

theorem submitted_lawful (cmds : T → List (Command N I)) (s : Sys N I T) :
    (submitted cmds s).Lawful where
  read := fun _ _ _ => rfl
  setCount := fun _ _ _ h => ⟨⟨h.1.started, h.1.number, h.1.sends⟩, h.2⟩
  executed := fun _ _ _ _ _ => trivial
  added := fun _ _ _ _ => trivial
  deleted := fun _ _ _ _ => trivial
  missed := fun _ _ => trivial
  resting := fun _ _ h => h.1
  updated := fun _ _ _ h => ⟨h.started, h.number, h.sends⟩
  next := fun _ _ c _ h => ⟨h.1, (List.suffix_cons c _).trans h.2⟩

/-- What connections are in `s` for those that have started. -/
def numbered (s : Sys N I T) : Facts N I T where
  held := fun _ _ => True
  job := fun _ _ => True
  line := fun _ _ => True
  rest := fun _ => True
  taken := fun _ _ => True
  conn := fun t rId started _ =>
    (s.conn t).pc.started = true → started = true ∧ rId = (s.conn t).rId

/-- A connection keeps the number that it has drawn. -/
theorem step_started (hs : s.step a = some s') (ht : (s.conn t).pc.started = true) :
    (s'.conn t).pc.started = true ∧ (s'.conn t).rId = (s.conn t).rId := by
  have hlawful : (numbered s).Lawful :=
    ⟨fun _ _ _ => trivial, fun _ _ _ _ => trivial, fun _ _ _ _ _ => trivial, fun _ _ _ _ => trivial,
      fun _ _ _ _ => trivial, fun _ _ => trivial, fun _ _ _ => trivial, fun _ _ _ _ => trivial,
      fun _ _ _ _ h => h⟩
  have hadmits : (numbered s).Admits s a := by
    constructor
    case draw =>
      intro u _ hpc hu
      rw [hpc] at hu
      cases hu
    all_goals
      intros
      exact trivial
  have hcarries : Carries (numbered s) s := by
    constructor
    case known => exact fun u hu => ⟨hu, rfl⟩
    case conn =>
      intro u
      cases (s.conn u).pc
      case foundUnlock => exact ⟨trivial, trivial⟩
      all_goals exact trivial
    all_goals
      intros
      exact trivial
  exact (hcarries.step hlawful hadmits hs).known t ht

/-- The numbers are those of a later state `f`. -/
theorem Sys.Reachable.submitted {cmds : T → List (Command N I)} {f : Sys N I T}
    (h : Sys.Reachable cmds s)
    (hf : ∀ t, (s.conn t).pc.started = true →
      (f.conn t).pc.started = true ∧ (f.conn t).rId = (s.conn t).rId)
    (hdistinct : DistinctNumbers f) (hids : UnsharedIds cmds) :
    Carries (Go.submitted cmds f) s := by
  induction h with
  | init => exact init_carries fun t => ⟨fun h => (by cases h), List.suffix_refl _⟩
  | @step s s' a h hs ih =>
    have hf' : ∀ t, (s.conn t).pc.started = true →
        (f.conn t).pc.started = true ∧ (f.conn t).rId = (s.conn t).rId := by
      intro t ht
      rcases step_started hs ht with ⟨ht', hnumber⟩
      rw [← hnumber]
      exact hf t ht'
    have hcarries := ih hf'
    apply hcarries.step (submitted_lawful cmds f) _ hs
    constructor
    case draw =>
      rintro t rfl hpc
      refine ⟨fun _ => ?_, (hcarries.known t).2⟩
      -- the number that is drawn is the one that it has afterwards
      simp only [Sys.step, Sys.handleConn, hpc, Option.some.injEq] at hs
      have hft := hf t
      rw [← hs] at hft
      dsimp only at hft
      rw [Function.update_self] at hft
      exact hft rfl
    case read =>
      intro t sd orderId i price count inputTime cs _ _ hcmds hknown
      have hstarted := hknown.1 rfl
      refine ⟨⟨hstarted.1, hstarted.2, sd, i, price, count, inputTime, ?_⟩, rfl⟩
      apply hknown.2.subset
      rw [hcmds]
      exact List.mem_cons_self
    case found =>
      intro t c orderId o _ _ hconn hown hknown hrest
      have hstarted := hknown.1 rfl
      refine ⟨hrest, ?_⟩
      rw [hconn]
      apply hdistinct
      · exact hrest.started
      · exact hstarted.1
      · rw [hrest.number, hown, hstarted.2]
    case removed =>
      intro g r prev curr ch e _ _ _ _ hfind hjob hrest
      have hid : r.order.orderId = e.orderId := eq_of_sameId (List.find?_some hfind)
      have hsends := hjob.1.sends
      rw [hid] at hsends
      exact (hids _ _ _ hrest.sends hsends).trans hjob.2

/-! ## Cancels -/

section Reused

/-- One connection sells with id 1 and cancels; the other buys what it sells and sells with id 1 too. -/
def reused : Bool → List (Command UInt32 Unit)
  | false => [.order .sell 1 () 2700 10 0, .cancel 1 1]
  | true => [.order .buy 2 () 2700 10 2, .order .sell 1 () 2700 7 3]

/-- The sell is booked, and the cancel has found it and waits as goroutine 2. -/
def reusedFound : List (Actor Bool) :=
  List.flatten
    [List.replicate 6 (.conn false), [.dispatcher 0], List.replicate 10 (.routine 0),
      List.replicate 8 (.routine 1), List.replicate 6 (.conn false), [.dispatcher 0]]

/-- The commands of the other connection. -/
def reusedMeanwhile : List (Actor Bool) :=
  List.flatten
    [List.replicate 4 (.conn true), [.dispatcher 0], List.replicate 9 (.routine 3),
      List.replicate 5 (.routine 4), List.replicate 3 (.conn true), [.dispatcher 0],
      List.replicate 10 (.routine 5), List.replicate 8 (.routine 6)]

/-- The cancel goes on, and everything is printed. -/
def reusedCancel : List (Actor Bool) := List.replicate 9 (.routine 2) ++ List.replicate 12 .printer

/-- The cancel is done before the other connection starts. -/
def inTime : Sys UInt32 Unit Bool := (Sys.init reused).run (reusedFound ++ reusedCancel)

/-- It is done after the other connection has taken the price over. -/
def tooLate : Sys UInt32 Unit Bool :=
  (Sys.init reused).run (reusedFound ++ reusedMeanwhile ++ reusedCancel)

end Reused

end MatchingEngine.Go
