import MatchingEngine.Cpp.Runs

/-!
# The threads with machine words

`Sys.toNat` reads the counts, volumes and execution ids of a state as natural numbers.  A step whose
sums and differences fit into their types is a step of what is read (`step_toNat`), so what holds of
the runs with natural numbers holds of those with words that meet the condition.
-/

set_option linter.unusedSectionVars false

namespace MatchingEngine.Cpp

section Reading

variable {N I T : Type} [Quantity N]

def Order.toNat (o : Order N I) : Order ℕ I :=
  { type := o.type, orderId := o.orderId, price := o.price, count := Quantity.value o.count
    instrument := o.instrument, inputTime := o.inputTime
    executionId := Quantity.value o.executionId }

def OrderNode.toNat (n : OrderNode N) : OrderNode ℕ :=
  { price := n.price, volume := Quantity.value n.volume, orders := n.orders }

def Node.toNat (n : Node N T) : Node ℕ T :=
  { n.toOrderNode.toNat with next := n.next, m := n.m }

def Chain.toNat (c : Chain N T) : Chain ℕ T :=
  { node := fun a => (c.node a).toNat, nextAddr := c.nextAddr }

def SharedBook.toNat (b : SharedBook N T) : SharedBook ℕ T :=
  { m := b.m, chain := fun sd => (b.chain sd).toNat }

def Pc.toNat : Pc N I → Pc ℕ I
  | .ready => .ready
  | .getBook j => .getBook j
  | .putBook j => .putBook j
  | .lockBook j => .lockBook j
  | .lockMatchHead j => .lockMatchHead j
  | .walk j v curr => .walk j v curr
  | .walkBreak j v curr => .walkBreak j v curr
  | .lockAddHead j v => .lockAddHead j v
  | .unlockBook j v => .unlockBook j v
  | .matchHead j v => .matchHead j v
  | .matchTest j v curr => .matchTest j v curr
  | .matchNode j v curr its k => .matchNode j v curr its k
  | .matchPrint j v curr its k line => .matchPrint j v curr its k line.toNat
  | .addWalk j curr next => .addWalk j curr next
  | .addBreak j curr next => .addBreak j curr next
  | .addFound j curr next => .addFound j curr next
  | .addOn j curr next => .addOn j curr next
  | .addPlace j curr => .addPlace j curr
  | .addLinked j prev curr => .addLinked j prev curr
  | .addInsert j curr => .addInsert j curr
  | .addPrint j curr => .addPrint j curr
  | .addUnlock j curr => .addUnlock j curr
  | .getOrder orderId inputTime => .getOrder orderId inputTime
  | .printMiss orderId inputTime => .printMiss orderId inputTime
  | .getBookOf order => .getBookOf order
  | .lockHead j => .lockHead j
  | .lockFirst j => .lockFirst j
  | .unlockHead j curr => .unlockHead j curr
  | .cancelTest j curr => .cancelTest j curr
  | .cancelOn j curr next => .cancelOn j curr next
  | .cancelEnd j curr => .cancelEnd j curr
  | .cancelMissed j curr => .cancelMissed j curr
  | .printRejected j => .printRejected j
  | .printAccepted j curr => .printAccepted j curr
  | .cancelUnlock j curr => .cancelUnlock j curr

def Command.toNat : Command N I → Command ℕ I
  | .order sd orderId i price count inputTime =>
    .order sd orderId i price (Quantity.value count) inputTime
  | .cancel orderId inputTime => .cancel orderId inputTime

def Thread.toNat (th : Thread N I) : Thread ℕ I :=
  { pc := th.pc.toNat
    cmds := th.cmds.map Command.toNat
    out := th.out.map Line.toNat
    history := th.history.map fun x => (Command.toNat x.1, x.2.map Line.toNat) }

def Sys.toNat (s : Sys N I T) : Sys ℕ I T :=
  { heap := fun p => (s.heap p).toNat
    orders := s.orders
    nextPtr := s.nextPtr
    orderBooks := fun i => (s.orderBooks i).map SharedBook.toNat
    thread := fun t => (s.thread t).toNat
    log := s.log.map Line.toNat
    fault := s.fault }

end Reading

variable {N I T : Type} [Quantity N] [DecidableEq I] [DecidableEq T] {s s' : Sys N I T} {t : T}
  {i : I} {sd : Side} {a : Addr}

theorem map_update {A B C : Type} [DecidableEq A] (f : B → C) (g : A → B) (x : A) (y : B) :
    (fun z => f (Function.update g x y z)) = Function.update (fun z => f (g z)) x (f y) := by
  funext z
  exact Function.apply_update (fun _ => f) g x y z

namespace Sys

theorem toNat_init (heap : Heap N I) (cmds : T → List (Command N I)) :
    (init heap cmds).toNat = init (fun p => (heap p).toNat) fun t => (cmds t).map Command.toNat :=
  rfl

theorem getBook_toNat : s.toNat.getBook i = (s.getBook i).toNat := by
  have hempty : (SharedBook.empty : SharedBook ℕ T) = (SharedBook.empty : SharedBook N T).toNat := by
    unfold SharedBook.empty SharedBook.toNat Chain.toNat Node.toNat OrderNode.toNat Node.sentinel
      OrderNode.sentinel
    simp only [Quantity.value_zero]
  show ((s.orderBooks i).map SharedBook.toNat).getD _ = ((s.orderBooks i).getD _).toNat
  cases s.orderBooks i with
  | none => exact hempty
  | some b => rfl

theorem node_toNat : s.toNat.node i sd a = (s.node i sd a).toNat := by
  unfold Sys.node Sys.chain
  rw [getBook_toNat]
  rfl

theorem chain_toNat : s.toNat.chain i sd = (s.chain i sd).toNat := by
  unfold Sys.chain
  rw [getBook_toNat]
  rfl

theorem setBook_toNat (b : SharedBook N T) : (s.setBook i b).toNat = s.toNat.setBook i b.toNat := by
  unfold Sys.setBook Sys.toNat
  simp only [map_update (Option.map SharedBook.toNat), Option.map_some]

theorem setChain_toNat (c : Chain N T) : (s.setChain i sd c).toNat = s.toNat.setChain i sd c.toNat := by
  unfold Sys.setChain
  rw [setBook_toNat, getBook_toNat]
  unfold SharedBook.toNat
  simp only [map_update Chain.toNat]

theorem setNode_toNat (n : Node N T) :
    (s.setNode i sd a n).toNat = s.toNat.setNode i sd a n.toNat := by
  unfold Sys.setNode
  rw [setChain_toNat, chain_toNat]
  unfold Chain.toNat
  simp only [map_update Node.toNat]

theorem goto_toNat (pc : Pc N I) : (s.goto t pc).toNat = s.toNat.goto t pc.toNat := by
  unfold Sys.goto Sys.toNat
  simp only [map_update Thread.toNat]
  rfl

theorem print_toNat (line : Line N I) : (s.print t line).toNat = s.toNat.print t line.toNat := by
  unfold Sys.print Sys.toNat
  simp only [map_update Thread.toNat, List.map_append]
  congr 2
  unfold Thread.toNat
  simp only [List.map_append]
  rfl

theorem finish_toNat : (s.finish t).toNat = s.toNat.finish t := by
  unfold Sys.finish Sys.toNat
  simp only [map_update Thread.toNat]
  congr 2
  unfold Thread.toNat
  simp only [List.map_append, List.map_map]
  cases h : (s.thread t).cmds with
  | nil => rfl
  | cons c cs => rfl

theorem lock_toNat (pc : Pc N I) :
    s.toNat.lock t i sd a pc.toNat = (s.lock t i sd a pc).map Sys.toNat := by
  unfold Sys.lock
  rw [node_toNat]
  have hm : (s.node i sd a).toNat.m = (s.node i sd a).m := rfl
  rw [hm]
  cases (s.node i sd a).m with
  | none =>
    rw [Option.map_some, goto_toNat, setNode_toNat]
    rfl
  | some u =>
    by_cases hu : u = t
    · simp only [if_pos hu, Option.map_some]
      rfl
    · simp only [if_neg hu, Option.map_none]

theorem unlock_toNat (pc : Pc N I) : s.toNat.unlock t i sd a pc.toNat = (s.unlock t i sd a pc).toNat := by
  unfold Sys.unlock
  rw [node_toNat]
  show (if (s.node i sd a).m = some t then _ else _) = _
  by_cases hm : (s.node i sd a).m = some t
  · rw [if_pos hm, if_pos hm, goto_toNat, setNode_toNat]
    rfl
  · rw [if_neg hm, if_neg hm]
    rfl

theorem lockM_toNat (pc : Pc N I) : s.toNat.lockM t i pc.toNat = (s.lockM t i pc).map Sys.toNat := by
  unfold Sys.lockM
  rw [getBook_toNat]
  have hm : (s.getBook i).toNat.m = (s.getBook i).m := rfl
  rw [hm]
  cases (s.getBook i).m with
  | none =>
    rw [Option.map_some, goto_toNat, setBook_toNat]
    rfl
  | some u =>
    by_cases hu : u = t
    · simp only [if_pos hu, Option.map_some]
      rfl
    · simp only [if_neg hu, Option.map_none]

theorem unlockM_toNat (pc : Pc N I) : s.toNat.unlockM t i pc.toNat = (s.unlockM t i pc).toNat := by
  unfold Sys.unlockM
  rw [getBook_toNat]
  show (if (s.getBook i).m = some t then _ else _) = _
  by_cases hm : (s.getBook i).m = some t
  · rw [if_pos hm, if_pos hm, goto_toNat, setBook_toNat]
    rfl
  · rw [if_neg hm, if_neg hm]
    rfl

theorem afterWalk_toNat (j : Job I) (v : ℤ) : (afterWalk j v : Pc N I).toNat = afterWalk j v := by
  unfold afterWalk
  split <;> rfl

theorem pos_toNat (p : OrderPtr) : 0 < (s.toNat.heap p).count ↔ 0 < (s.heap p).count := by
  apply Iff.symm
  apply Quantity.lt_iff.trans
  rw [Quantity.value_zero]
  rfl

theorem afterMatch_toNat (j : Job I) : (s.afterMatch t j).toNat = s.toNat.afterMatch t j := by
  unfold Sys.afterMatch
  by_cases hcount : 0 < (s.heap j.order).count
  · rw [if_pos hcount, if_pos ((pos_toNat j.order).mpr hcount), goto_toNat, node_toNat]
    rfl
  · rw [if_neg hcount, if_neg ((pos_toNat j.order).not.mpr hcount), finish_toNat]

end Sys

/-! ## A step -/

section Step

variable {s s' : Sys UInt32 I T}

/-- The number is a value of type `int`. -/
def InInt (v : ℤ) : Prop := -2 ^ 31 ≤ v ∧ v < 2 ^ 31

instance decidableInInt (v : ℤ) : Decidable (InInt v) := inferInstanceAs (Decidable (_ ∧ _))

theorem InInt.toInt {v : ℤ} (h : InInt v) : Quantity.toInt UInt32 v = v := by
  show v.bmod (2 ^ 32) = v
  unfold InInt at h
  apply Int.bmod_eq_of_le
  · omega
  · omega

/-- What thread `t` computes with its next step fits into the type of its result. -/
structure Sys.Exact (s : Sys UInt32 I T) (t : T) : Prop where
  head : ∀ j, (s.thread t).pc = .lockMatchHead j → InInt (s.heap j.order).count.toNat
  walk : ∀ j v curr, (s.thread t).pc = .walk j v (some curr) → 0 < v →
    j.side.opp.Crosses (s.heap j.order).price (s.node j.book j.side.opp curr).price →
    InInt (v - (s.node j.book j.side.opp curr).volume.toNat)
  insert : ∀ j curr, (s.thread t).pc = .addInsert j curr →
    (s.node j.book j.side curr).volume.toNat + (s.heap j.order).count.toNat < 2 ^ 32
  trade : ∀ j v curr it its k, (s.thread t).pc = .matchNode j v curr (it :: its) k →
    (s.heap j.order).count ≠ 0 →
    countMatched s.heap j.order it ≤ (s.node j.book j.side.opp curr).volume ∧
      (¬ Fills s.heap j.order it → (s.heap it).executionId.toNat + 1 < 2 ^ 32)
  cancel : ∀ j curr, (s.thread t).pc = .cancelTest j (some curr) →
    (s.node j.book j.side curr).price = (s.heap j.order).price →
    (s.node j.book j.side curr).orders.any (s.sameId j.order) = true →
    (s.heap j.order).count ≤ (s.node j.book j.side curr).volume

theorem toNat_add {a b : UInt32} (h : a.toNat + b.toNat < 2 ^ 32) :
    Quantity.value (a + b) = Quantity.value a + Quantity.value b := by
  show (a + b).toNat = a.toNat + b.toNat
  rw [UInt32.toNat_add, Nat.mod_eq_of_lt h]

variable {j : Job I} {order it : OrderPtr}

theorem empty_toNat : (SharedBook.empty : SharedBook UInt32 T).toNat = SharedBook.empty := by
  unfold SharedBook.empty SharedBook.toNat Chain.toNat Node.toNat OrderNode.toNat Node.sentinel
    OrderNode.sentinel
  rfl

theorem put_toNat {key : I} {b : SharedBook UInt32 T} :
    ({ s with orderBooks := s.orderBooks.put key b } : Sys UInt32 I T).toNat =
      { s.toNat with orderBooks := s.toNat.orderBooks.put key b.toNat } := by
  unfold Sys.toNat HashMap.put
  dsimp only
  cases hget : s.orderBooks key with
  | some b' => rw [Option.map_some]
  | none =>
    rw [Option.map_none]
    dsimp only
    rw [map_update (Option.map SharedBook.toNat), Option.map_some]

theorem fills_toNat : Fills s.toNat.heap order it ↔ Fills s.heap order it :=
  UInt32.le_iff_toNat_le.symm

theorem countMatched_toNat :
    countMatched s.toNat.heap order it = Quantity.value (countMatched s.heap order it) := by
  unfold countMatched
  by_cases hfills : Fills s.heap order it
  · rw [if_pos hfills, if_pos (fills_toNat.mpr hfills)]
    rfl
  · rw [if_neg hfills, if_neg (fills_toNat.not.mpr hfills)]
    rfl

theorem execLine_toNat :
    (execLine s.heap order it).toNat = execLine s.toNat.heap order it := by
  unfold execLine
  rw [countMatched_toNat]
  rfl

theorem execHeap_toNat
    (hid : ¬ Fills s.heap order it → (s.heap it).executionId.toNat + 1 < 2 ^ 32) :
    (fun p => (execHeap s.heap order it p).toNat) = execHeap s.toNat.heap order it := by
  unfold execHeap
  by_cases hfills : Fills s.heap order it
  · rw [if_pos hfills, if_pos (fills_toNat.mpr hfills), map_update Order.toNat]
    congr 1
    unfold Order.toNat
    simp only [Quantity.value_sub hfills]
    rfl
  · have hle : (s.heap order).count ≤ (s.heap it).count := by
      have hlt := fills_toNat.not.mpr hfills
      rw [UInt32.le_iff_toNat_le]
      exact (not_le.mp hlt).le
    have hresting : ({ s.heap it with
        count := (s.heap it).count - (s.heap order).count
        executionId := (s.heap it).executionId + 1 } : Order UInt32 I).toNat =
        { s.toNat.heap it with
          count := (s.toNat.heap it).count - (s.toNat.heap order).count
          executionId := (s.toNat.heap it).executionId + 1 } := by
      unfold Order.toNat
      simp only [Quantity.value_sub hle]
      rw [toNat_add (hid hfills)]
      rfl
    rw [if_neg hfills, if_neg (fills_toNat.not.mpr hfills)]
    dsimp only
    rw [map_update Order.toNat, map_update Order.toNat, hresting]
    congr 1
    by_cases heq : order = it
    · subst heq
      rw [Function.update_self, Function.update_self, ← hresting]
      rfl
    · rw [Function.update_of_ne heq, Function.update_of_ne heq]
      rfl

theorem execOrders_toNat (orders : HashMap UInt32 OrderPtr) :
    execOrders s.toNat.heap order it orders = execOrders s.heap order it orders := by
  unfold execOrders
  by_cases hfills : Fills s.heap order it
  · rw [if_pos hfills, if_pos (fills_toNat.mpr hfills)]
    rfl
  · rw [if_neg hfills, if_neg (fills_toNat.not.mpr hfills)]

theorem exec_toNat {s₁ : Sys UInt32 I T}
    (hid : ¬ Fills s.heap order it → (s.heap it).executionId.toNat + 1 < 2 ^ 32) :
    ({ s₁ with
        heap := execHeap s.heap order it
        orders := execOrders s.heap order it s.orders } : Sys UInt32 I T).toNat =
      { s₁.toNat with
        heap := execHeap s.toNat.heap order it
        orders := execOrders s.toNat.heap order it s.orders } := by
  rw [← execHeap_toNat hid, execOrders_toNat]
  rfl

theorem insertByTime_toNat (order : OrderPtr) (its : List OrderPtr) :
    insertByTime s.toNat.heap order its = insertByTime s.heap order its := by
  induction its with
  | nil => rfl
  | cons it its ih =>
    rw [insertByTime, insertByTime, ih]
    rfl

theorem insertOrder_toNat {n : OrderNode UInt32}
    (h : n.volume.toNat + (s.heap order).count.toNat < 2 ^ 32) :
    (insertOrder s.heap order n).toNat = insertOrder s.toNat.heap order n.toNat := by
  unfold insertOrder OrderNode.toNat
  simp only [toNat_add h, insertByTime_toNat]
  rfl

theorem alloc_toNat {sd : Side} {orderId : UInt32} {i : I} {price : UInt32} {count : UInt32}
    {inputTime : ℤ} :
    ({ s with
        heap := Function.update s.heap s.nextPtr
          (newOrder sd orderId i price count inputTime)
        nextPtr := s.nextPtr + 1 } : Sys UInt32 I T).toNat =
      { s.toNat with
        heap := Function.update s.toNat.heap s.nextPtr
          (newOrder sd orderId i price (Quantity.value count) inputTime)
        nextPtr := s.nextPtr + 1 } := by
  unfold Sys.toNat
  dsimp only
  rw [map_update Order.toNat]
  rfl

theorem pc_toNat {pc : Pc UInt32 I} (hpc : (s.thread t).pc = pc) :
    (s.toNat.thread t).pc = pc.toNat :=
  congrArg Pc.toNat hpc

theorem lock_some_toNat {pc : Pc UInt32 I} {i : I} {sd : Side} {a : Addr}
    (hs : s.lock t i sd a pc = some s') : s.toNat.lock t i sd a pc.toNat = some s'.toNat := by
  rw [Sys.lock_toNat, hs, Option.map_some]

theorem sameId_toNat (order : OrderPtr) : s.toNat.sameId order = s.sameId order := rfl

theorem crosses_toNat {sd : Side} {i : I} {a : Addr} (order : OrderPtr) :
    sd.Crosses (s.toNat.heap order).price (s.toNat.node i sd a).price ↔
      sd.Crosses (s.heap order).price (s.node i sd a).price := by
  rw [Sys.node_toNat]
  rfl

theorem Sys.step_toNat (h : s.Exact t) (hs : s.step t = some s') :
    s.toNat.step t = some s'.toNat := by
  rw [Sys.step.eq_def] at hs ⊢
  cases hpc : (s.thread t).pc with
  | ready =>
    have hpc' := pc_toNat hpc
    rw [hpc] at hs
    rw [hpc']
    dsimp only [Pc.toNat] at hs ⊢
    cases hcmds : (s.thread t).cmds with
    | nil =>
      rw [hcmds] at hs
      cases hs
    | cons c cs =>
      have hcmds' : (s.toNat.thread t).cmds = Command.toNat c :: cs.map Command.toNat := by
        show (s.thread t).cmds.map Command.toNat = _
        rw [hcmds]
        rfl
      rw [hcmds] at hs
      rw [hcmds']
      cases c with
      | order sd orderId i price count inputTime =>
        cases hs
        refine congrArg some (Eq.symm ?_)
        exact (Sys.goto_toNat _).trans (congrArg (Sys.goto · t _) alloc_toNat)
      | cancel orderId inputTime =>
        cases hs
        rw [Sys.goto_toNat]
        rfl
  | getBook j =>
    have hpc' := pc_toNat hpc
    rw [hpc] at hs
    rw [hpc']
    dsimp only [Pc.toNat] at hs ⊢
    have hget' : s.toNat.orderBooks.get j.book = (s.orderBooks.get j.book).map SharedBook.toNat := rfl
    rw [hget']
    cases hget : s.orderBooks.get j.book with
    | none =>
      rw [hget] at hs
      cases hs
      rw [Sys.goto_toNat]
      rfl
    | some b =>
      rw [hget] at hs
      cases hs
      rw [Sys.goto_toNat]
      rfl
  | putBook j =>
    have hpc' := pc_toNat hpc
    rw [hpc] at hs
    rw [hpc']
    dsimp only [Pc.toNat] at hs ⊢
    cases hs
    rw [Sys.goto_toNat, put_toNat, empty_toNat]
    rfl
  | lockBook j =>
    have hpc' := pc_toNat hpc
    rw [hpc] at hs
    rw [hpc']
    dsimp only [Pc.toNat] at hs ⊢
    exact (Sys.lockM_toNat (.lockMatchHead j)).trans (by rw [hs, Option.map_some])
  | lockMatchHead j =>
    have hpc' := pc_toNat hpc
    rw [hpc] at hs
    rw [hpc']
    dsimp only [Pc.toNat] at hs ⊢
    have hhead : Quantity.toInt UInt32 (Quantity.value (s.heap j.order).count) =
        Quantity.toInt ℕ (Quantity.value (s.toNat.heap j.order).count) :=
      (h.head j hpc).toInt
    rw [hhead] at hs
    rw [Sys.node_toNat]
    exact lock_some_toNat hs
  | walk j v curr =>
    have hpc' := pc_toNat hpc
    rw [hpc] at hs
    rw [hpc']
    dsimp only [Pc.toNat] at hs ⊢
    cases curr with
    | none =>
      cases hs
      rw [Sys.goto_toNat, Sys.afterWalk_toNat]
    | some curr =>
      dsimp only at hs ⊢
      by_cases hv : 0 < v
      · rw [if_pos hv] at hs ⊢
        by_cases hcross : j.side.opp.Crosses (s.heap j.order).price
            (s.node j.book j.side.opp curr).price
        · rw [if_neg (not_not.mpr hcross)] at hs
          rw [if_neg (not_not.mpr ((crosses_toNat j.order).mpr hcross))]
          have hwalk : Quantity.toInt UInt32
              (v - Quantity.value (s.node j.book j.side.opp curr).volume) =
              Quantity.toInt ℕ (v - Quantity.value (s.toNat.node j.book j.side.opp curr).volume) := by
            rw [Sys.node_toNat]
            exact (h.walk j v curr hpc hv hcross).toInt
          rw [hwalk] at hs
          rw [Sys.node_toNat] at hs ⊢
          exact lock_some_toNat hs
        · rw [if_pos hcross] at hs
          rw [if_pos ((crosses_toNat j.order).not.mpr hcross)]
          exact lock_some_toNat hs
      · rw [if_neg hv] at hs ⊢
        cases hs
        rw [Sys.goto_toNat, Sys.afterWalk_toNat]
  | walkBreak j v curr =>
    have hpc' := pc_toNat hpc
    rw [hpc] at hs
    rw [hpc']
    dsimp only [Pc.toNat] at hs ⊢
    cases hs
    rw [← Sys.unlock_toNat, Sys.afterWalk_toNat]
  | lockAddHead j v =>
    have hpc' := pc_toNat hpc
    rw [hpc] at hs
    rw [hpc']
    dsimp only [Pc.toNat] at hs ⊢
    exact lock_some_toNat hs
  | unlockBook j v =>
    have hpc' := pc_toNat hpc
    rw [hpc] at hs
    rw [hpc']
    cases hs
    exact congrArg some (Sys.unlockM_toNat (.matchHead j v))
  | matchHead j v =>
    have hpc' := pc_toNat hpc
    rw [hpc] at hs
    rw [hpc']
    dsimp only [Pc.toNat] at hs ⊢
    cases hs
    rw [Sys.node_toNat]
    exact congrArg some (Sys.unlock_toNat (.matchTest j v (s.node j.book j.side.opp 0).next))
  | matchTest j v curr =>
    have hpc' := pc_toNat hpc
    rw [hpc] at hs
    rw [hpc']
    dsimp only [Pc.toNat] at hs ⊢
    cases curr with
    | none =>
      cases hs
      rw [Sys.afterMatch_toNat]
    | some curr =>
      dsimp only at hs ⊢
      have hiff : (0 < (s.toNat.heap j.order).count ∧ j.side.opp.Crosses (s.toNat.heap j.order).price
          (s.toNat.node j.book j.side.opp curr).price) ↔
          0 < (s.heap j.order).count ∧ j.side.opp.Crosses (s.heap j.order).price
            (s.node j.book j.side.opp curr).price := by
        rw [crosses_toNat, Sys.pos_toNat]
      split at hs
      next hc =>
        cases hs
        rw [if_pos (hiff.mpr hc), Sys.goto_toNat, Sys.node_toNat]
        rfl
      next hc =>
        cases hs
        rw [if_neg (hiff.not.mpr hc), Sys.afterMatch_toNat]
  | matchNode j v curr its k =>
    have hpc' := pc_toNat hpc
    rw [hpc] at hs
    rw [hpc']
    dsimp only [Pc.toNat] at hs ⊢
    -- what is left of the vector, then the mutex
    have hleave : ∀ s₁ : Sys UInt32 I T, s₁ = (s.setNode j.book j.side.opp curr
          { s.node j.book j.side.opp curr with
            orders := (s.node j.book j.side.opp curr).orders.take
              ((s.node j.book j.side.opp curr).orders.length - k) }).unlock t j.book j.side.opp curr
          (.matchTest j v (s.node j.book j.side.opp curr).next) →
        (s.toNat.setNode j.book j.side.opp curr
          { s.toNat.node j.book j.side.opp curr with
            orders := (s.toNat.node j.book j.side.opp curr).orders.take
              ((s.toNat.node j.book j.side.opp curr).orders.length - k) }).unlock t j.book
            j.side.opp curr (.matchTest j v (s.toNat.node j.book j.side.opp curr).next) = s₁.toNat := by
      rintro _ rfl
      rw [← Sys.unlock_toNat, Sys.setNode_toNat, Sys.node_toNat]
      rfl
    cases its with
    | nil =>
      cases hs
      exact congrArg some (hleave _ rfl)
    | cons it its =>
      dsimp only at hs ⊢
      have hzero : (s.toNat.heap j.order).count = 0 ↔ (s.heap j.order).count = 0 := by
        constructor
        · exact fun hz => UInt32.toNat.inj hz
        · intro hz
          show (s.heap j.order).count.toNat = 0
          rw [hz]
          rfl
      by_cases hcount : (s.heap j.order).count = 0
      · rw [if_pos hcount] at hs
        rw [if_pos (hzero.mpr hcount)]
        cases hs
        exact congrArg some (hleave _ rfl)
      · rw [if_neg hcount] at hs
        rw [if_neg (hzero.not.mpr hcount)]
        have htrade := h.trade j v curr it its k hpc hcount
        cases hs
        refine congrArg some (Eq.symm ?_)
        rw [Sys.goto_toNat, exec_toNat htrade.2, Sys.setNode_toNat]
        unfold Pc.toNat
        dsimp only
        rw [execLine_toNat, if_congr fills_toNat rfl rfl, countMatched_toNat, Sys.node_toNat]
        unfold Node.toNat OrderNode.toNat
        dsimp only
        rw [Quantity.value_sub htrade.1]
        rfl
  | matchPrint j v curr its k line =>
    have hpc' := pc_toNat hpc
    rw [hpc] at hs
    rw [hpc']
    cases hs
    rw [Sys.goto_toNat, Sys.print_toNat]
    rfl
  | addWalk j curr next =>
    have hpc' := pc_toNat hpc
    rw [hpc] at hs
    rw [hpc']
    dsimp only [Pc.toNat] at hs ⊢
    cases next with
    | none =>
      cases hs
      rw [Sys.goto_toNat]
      rfl
    | some next =>
      dsimp only at hs ⊢
      rw [Sys.node_toNat]
      by_cases hbetter : j.side.Better (s.heap j.order).price (s.node j.book j.side next).price
      · rw [if_pos hbetter] at hs
        exact (if_pos hbetter).trans (lock_some_toNat hs)
      · rw [if_neg hbetter] at hs
        refine (if_neg hbetter).trans ?_
        by_cases hprice : (s.heap j.order).price = (s.node j.book j.side next).price
        · rw [if_pos hprice] at hs
          exact (if_pos hprice).trans (lock_some_toNat hs)
        · rw [if_neg hprice] at hs
          exact (if_neg hprice).trans (lock_some_toNat hs)
  | addBreak j curr next =>
    have hpc' := pc_toNat hpc
    rw [hpc] at hs
    rw [hpc']
    dsimp only [Pc.toNat] at hs ⊢
    cases hs
    exact congrArg some (Sys.unlock_toNat (.addPlace j curr))
  | addFound j curr next =>
    have hpc' := pc_toNat hpc
    rw [hpc] at hs
    rw [hpc']
    dsimp only [Pc.toNat] at hs ⊢
    cases hs
    exact congrArg some (Sys.unlock_toNat (.addPlace j next))
  | addOn j curr next =>
    have hpc' := pc_toNat hpc
    rw [hpc] at hs
    rw [hpc']
    dsimp only [Pc.toNat] at hs ⊢
    cases hs
    rw [Sys.node_toNat]
    exact congrArg some (Sys.unlock_toNat (.addWalk j next (s.node j.book j.side next).next))
  | addPlace j curr =>
    have hpc' := pc_toNat hpc
    rw [hpc] at hs
    rw [hpc']
    dsimp only [Pc.toNat] at hs ⊢
    rw [Sys.chain_toNat]
    by_cases hprice : (s.heap j.order).price ≠ ((s.chain j.book j.side).node curr).price
    · rw [if_pos hprice] at hs
      refine (if_pos hprice).trans ?_
      cases hs
      refine congrArg some (Eq.symm ?_)
      rw [Sys.goto_toNat, Sys.setChain_toNat]
      unfold Chain.toNat
      dsimp only
      rw [map_update Node.toNat, map_update Node.toNat]
      rfl
    · rw [if_neg hprice] at hs
      refine (if_neg hprice).trans ?_
      cases hs
      rw [Sys.goto_toNat]
      rfl
  | addLinked j prev curr =>
    have hpc' := pc_toNat hpc
    rw [hpc] at hs
    rw [hpc']
    dsimp only [Pc.toNat] at hs ⊢
    cases hs
    exact congrArg some (Sys.unlock_toNat (.addInsert j curr))
  | addInsert j curr =>
    have hpc' := pc_toNat hpc
    rw [hpc] at hs
    rw [hpc']
    dsimp only [Pc.toNat] at hs ⊢
    cases hs
    refine congrArg some (Eq.symm ?_)
    have hset : (s.setNode j.book j.side curr
          { s.node j.book j.side curr with
            toOrderNode := insertOrder s.heap j.order (s.node j.book j.side curr).toOrderNode }).toNat =
        s.toNat.setNode j.book j.side curr
          { s.toNat.node j.book j.side curr with
            toOrderNode := insertOrder s.toNat.heap j.order
              (s.toNat.node j.book j.side curr).toOrderNode } := by
      rw [Sys.setNode_toNat, Sys.node_toNat]
      unfold Node.toNat
      dsimp only
      rw [insertOrder_toNat (h.insert j curr hpc)]
    exact (Sys.goto_toNat _).trans
      (congrArg (fun s₁ : Sys ℕ I T => Sys.goto
        { s₁ with orders := s.orders.put (s.heap j.order).orderId j.order } t (.addPrint j curr))
        hset)
  | addPrint j curr =>
    have hpc' := pc_toNat hpc
    rw [hpc] at hs
    rw [hpc']
    dsimp only [Pc.toNat] at hs ⊢
    cases hs
    rw [Sys.goto_toNat, Sys.print_toNat]
    rfl
  | addUnlock j curr =>
    have hpc' := pc_toNat hpc
    rw [hpc] at hs
    rw [hpc']
    dsimp only [Pc.toNat] at hs ⊢
    cases hs
    rw [Sys.finish_toNat, ← Sys.unlock_toNat]
    rfl
  | getOrder orderId inputTime =>
    have hpc' := pc_toNat hpc
    rw [hpc] at hs
    rw [hpc']
    dsimp only [Pc.toNat] at hs ⊢
    have hget' : s.toNat.orders.get orderId = s.orders.get orderId := rfl
    rw [hget']
    cases hget : s.orders.get orderId with
    | none =>
      rw [hget] at hs
      cases hs
      rw [Sys.goto_toNat]
      rfl
    | some order =>
      rw [hget] at hs
      cases hs
      rw [Sys.goto_toNat]
      rfl
  | printMiss orderId inputTime =>
    have hpc' := pc_toNat hpc
    rw [hpc] at hs
    rw [hpc']
    dsimp only [Pc.toNat] at hs ⊢
    cases hs
    rw [Sys.finish_toNat, Sys.print_toNat]
    rfl
  | getBookOf order =>
    have hpc' := pc_toNat hpc
    rw [hpc] at hs
    rw [hpc']
    dsimp only [Pc.toNat] at hs ⊢
    have hget' : s.toNat.orderBooks.get (s.toNat.heap order).instrument =
        (s.orderBooks.get (s.heap order).instrument).map SharedBook.toNat := rfl
    rw [hget']
    cases hget : s.orderBooks.get (s.heap order).instrument with
    | none =>
      rw [hget] at hs
      cases hs
    | some b =>
      rw [hget] at hs
      cases hs
      rw [Sys.goto_toNat]
      rfl
  | lockHead j =>
    have hpc' := pc_toNat hpc
    rw [hpc] at hs
    rw [hpc']
    dsimp only [Pc.toNat] at hs ⊢
    exact lock_some_toNat hs
  | lockFirst j =>
    have hpc' := pc_toNat hpc
    rw [hpc] at hs
    rw [hpc']
    dsimp only [Pc.toNat] at hs ⊢
    rw [Sys.node_toNat]
    have hnext : (s.node j.book j.side 0).toNat.next = (s.node j.book j.side 0).next := rfl
    rw [hnext]
    cases hcurr : (s.node j.book j.side 0).next with
    | none =>
      rw [hcurr] at hs
      cases hs
      rw [Sys.goto_toNat]
      rfl
    | some curr =>
      rw [hcurr] at hs
      exact lock_some_toNat hs
  | unlockHead j curr =>
    have hpc' := pc_toNat hpc
    rw [hpc] at hs
    rw [hpc']
    dsimp only [Pc.toNat] at hs ⊢
    cases hs
    exact congrArg some (Sys.unlock_toNat (.cancelTest j curr))
  | cancelTest j curr =>
    have hpc' := pc_toNat hpc
    rw [hpc] at hs
    rw [hpc']
    dsimp only [Pc.toNat] at hs ⊢
    cases curr with
    | none =>
      cases hs
      rw [Sys.goto_toNat]
      rfl
    | some curr =>
      dsimp only at hs ⊢
      rw [Sys.node_toNat]
      by_cases hprice : (s.node j.book j.side curr).price ≠ (s.heap j.order).price
      · rw [if_pos hprice] at hs
        refine (if_pos hprice).trans ?_
        have hnext : (s.node j.book j.side curr).toNat.next = (s.node j.book j.side curr).next := rfl
        rw [hnext]
        cases hn : (s.node j.book j.side curr).next with
        | none =>
          rw [hn] at hs
          cases hs
          rw [Sys.goto_toNat]
          rfl
        | some next =>
          rw [hn] at hs
          exact lock_some_toNat hs
      · rw [if_neg hprice] at hs
        refine (if_neg hprice).trans ?_
        by_cases hany : (s.node j.book j.side curr).orders.any (s.sameId j.order) = true
        · rw [if_pos hany] at hs
          refine (if_pos hany).trans ?_
          cases hs
          refine congrArg some (Eq.symm ?_)
          have hset : (s.setNode j.book j.side curr
                { s.node j.book j.side curr with
                  volume := (s.node j.book j.side curr).volume - (s.heap j.order).count
                  orders := (s.node j.book j.side curr).orders.eraseP (s.sameId j.order) }).toNat =
              s.toNat.setNode j.book j.side curr
                { (s.node j.book j.side curr).toNat with
                  volume := (s.node j.book j.side curr).toNat.volume - (s.toNat.heap j.order).count
                  orders :=
                    (s.node j.book j.side curr).toNat.orders.eraseP (s.toNat.sameId j.order) } := by
            rw [Sys.setNode_toNat]
            unfold Node.toNat OrderNode.toNat
            dsimp only
            rw [Quantity.value_sub (h.cancel j curr hpc (not_not.mp hprice) hany)]
            rfl
          exact (Sys.goto_toNat _).trans
            (congrArg (fun s₁ : Sys ℕ I T => Sys.goto
              { s₁ with orders := s.orders.remove (s.heap j.order).orderId } t
              (.printAccepted j curr)) hset)
        · rw [if_neg hany] at hs
          refine (if_neg hany).trans ?_
          cases hs
          rw [Sys.goto_toNat]
          rfl
  | cancelOn j curr next =>
    have hpc' := pc_toNat hpc
    rw [hpc] at hs
    rw [hpc']
    dsimp only [Pc.toNat] at hs ⊢
    cases hs
    exact congrArg some (Sys.unlock_toNat (.cancelTest j (some next)))
  | cancelEnd j curr =>
    have hpc' := pc_toNat hpc
    rw [hpc] at hs
    rw [hpc']
    dsimp only [Pc.toNat] at hs ⊢
    cases hs
    exact congrArg some (Sys.unlock_toNat (.cancelTest j none))
  | cancelMissed j curr =>
    have hpc' := pc_toNat hpc
    rw [hpc] at hs
    rw [hpc']
    dsimp only [Pc.toNat] at hs ⊢
    cases hs
    exact congrArg some (Sys.unlock_toNat (.printRejected j))
  | printRejected j =>
    have hpc' := pc_toNat hpc
    rw [hpc] at hs
    rw [hpc']
    dsimp only [Pc.toNat] at hs ⊢
    cases hs
    rw [Sys.finish_toNat, Sys.print_toNat]
    rfl
  | printAccepted j curr =>
    have hpc' := pc_toNat hpc
    rw [hpc] at hs
    rw [hpc']
    dsimp only [Pc.toNat] at hs ⊢
    cases hs
    rw [Sys.goto_toNat, Sys.print_toNat]
    rfl
  | cancelUnlock j curr =>
    have hpc' := pc_toNat hpc
    rw [hpc] at hs
    rw [hpc']
    dsimp only [Pc.toNat] at hs ⊢
    cases hs
    rw [Sys.finish_toNat, ← Sys.unlock_toNat]
    rfl

end Step

end MatchingEngine.Cpp
