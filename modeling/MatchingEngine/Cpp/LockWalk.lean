import MatchingEngine.Cpp.Shape

/-!
# The locking walk and the matching loop

`processBuyOrder` and `processSellOrder` lock the nodes that `matchOrder` is going to visit by walking
the chain with a counter of type `int` that the `uint32_t` volumes are taken from.  The walk and the
loop end at the same node exactly for the counts and volumes that `Fits` describes.
-/

set_option linter.unusedSectionVars false

namespace MatchingEngine.Cpp

open PriceTime
open Quantity (value toInt)

section Walk

variable {N I : Type} [Quantity N] [DecidableEq I]

/-- `while (v > 0 && curr != nullptr)`: the nodes that stay locked and the last value of `v`. -/
def lockWalk (sd : Side) (price : UInt32) (v : ℤ) :
    List (OrderNode N) → List (OrderNode N) × ℤ
  | [] => ([], v)
  | curr :: next =>
    if 0 < v then
      if sd.Crosses price curr.price then
        let (locked, v') := lockWalk sd price (toInt N (v - value curr.volume)) next
        (curr :: locked, v')
      else ([], v)
    else ([], v)

/-- The nodes that `matchOrder` visits, as they were before it. -/
def matchVisits (sd : Side) (order : OrderPtr) (w : World N I) :
    List (OrderNode N) → List (OrderNode N)
  | [] => []
  | curr :: next =>
    if 0 < (w.heap order).count ∧ sd.Crosses (w.heap order).price curr.price then
      curr :: matchVisits sd order (matchNode w order curr).1 next
    else []

/-- The walk locks the nodes that the loop visits, and the head of the own side if and only if `add`
    is called. -/
def WalkAgrees (sd : Side) (order : OrderPtr) (w : World N I) (next : List (OrderNode N)) : Prop :=
  let o := w.heap order
  let walk := lockWalk sd o.price (toInt N (value o.count)) next
  walk.1 = matchVisits sd order w next ∧
    (0 < walk.2 ↔ 0 < ((matchOrder sd order w next).1.heap order).count)

/-- The counts behind a node. -/
def OrderNode.counts (heap : Heap N I) (n : OrderNode N) : ℕ :=
  (n.orders.map fun p => value (heap p).count).sum

/-- Where the order is filled, the volume is between what is left of the order and 2^31 more. -/
def Fits (sd : Side) (price : UInt32) (heap : Heap N I) (left : ℕ) : List (OrderNode N) → Prop
  | [] => True
  | curr :: next =>
    sd.Crosses price curr.price →
      if curr.counts heap < left then Fits sd price heap (left - curr.counts heap) next
      else left ≤ value curr.volume ∧ value curr.volume ≤ left + 2 ^ 31

theorem counts_congr {heap heap' : Heap N I} {n : OrderNode N}
    (h : ∀ p ∈ n.orders, heap' p = heap p) : n.counts heap' = n.counts heap := by
  unfold OrderNode.counts
  rw [List.map_congr_left fun p hp => by rw [h p hp]]

theorem fits_congr {sd : Side} {price : UInt32} {heap heap' : Heap N I} {left : ℕ}
    {ns : List (OrderNode N)} (h : ∀ n ∈ ns, n.counts heap' = n.counts heap) :
    Fits sd price heap' left ns ↔ Fits sd price heap left ns := by
  induction ns generalizing left with
  | nil => exact Iff.rfl
  | cons curr next ih =>
    have hcurr := h curr List.mem_cons_self
    rw [Fits, Fits, hcurr]
    apply imp_congr_right
    intro _
    split
    · exact ih fun n hn => h n (List.mem_cons_of_mem _ hn)
    · exact Iff.rfl

/-- What is left of an order after some others. -/
theorem fill_open (o : Order N I) (rs : List (Order N I)) :
    value (fill o rs).2.1.count = value o.count - (rs.map fun r => value r.count).sum := by
  induction rs generalizing o with
  | nil => rfl
  | cons r rs ih =>
    rw [fill, List.map_cons, List.sum_cons]
    split
    next hz =>
      rw [hz, Quantity.value_zero, Nat.zero_sub]
    · split
      next hle =>
        rw [ih, Quantity.value_sub hle, Nat.sub_sub]
      next hlt =>
        rw [Quantity.le_iff] at hlt
        dsimp only
        rw [Quantity.value_zero]
        omega

theorem matchNode_open {order : OrderPtr} (w : World N I) {curr : OrderNode N}
    (hnd : curr.orders.Nodup) (hord : order ∉ curr.orders) :
    value ((matchNode w order curr).1.heap order).count =
      value (w.heap order).count - curr.counts w.heap := by
  have h := (matchNode_spec w hnd hord).level
  have hopen := fill_open (w.heap order) (curr.level w.heap).orders.reverse
  have hcount := congrArg (fun r => r.2.1) h
  dsimp only [fillLevel] at hcount
  rw [hcount] at hopen
  rw [hopen, OrderNode.counts, OrderNode.level, List.map_reverse, List.sum_reverse, List.map_map]
  rfl

end Walk

variable {I : Type} [DecidableEq I] {sd : Side} {order : OrderPtr}

theorem toInt_of_lt {v : ℤ} (h : -2 ^ 31 ≤ v) (h' : v < 2 ^ 31) : toInt UInt32 v = v := by
  show v.bmod (2 ^ 32) = v
  rw [Int.bmod_eq_of_le (by omega) (by omega)]

theorem counts_of_exact {heap : Heap UInt32 I} {n : OrderNode UInt32} (h : n.Exact heap) :
    n.volume.toNat = n.counts heap % 2 ^ 32 := by
  rw [h, toNat_sumCounts]
  rfl

/-- A walk with nothing left locks no more. -/
theorem lockWalk_of_not_pos {price : UInt32} {v : ℤ} (h : ¬ 0 < v) (ns : List (OrderNode UInt32)) :
    lockWalk sd price v ns = ([], v) := by
  cases ns with
  | nil => rfl
  | cons curr next => rw [lockWalk, if_neg h]

theorem matchVisits_of_zero (sd : Side) {w : World UInt32 I} (h : ¬ 0 < (w.heap order).count)
    (ns : List (OrderNode UInt32)) :
    matchVisits sd order w ns = [] ∧ (matchOrder sd order w ns).1 = w := by
  cases ns with
  | nil => exact ⟨rfl, rfl⟩
  | cons curr next =>
    rw [matchVisits, matchOrder, if_neg fun h' => h h'.1, if_neg fun h' => h h'.1]
    exact ⟨rfl, rfl⟩

/-- The end of the walk at the node in which the order is filled. -/
theorem lockWalk_ends {price : UInt32} (v : ℤ) (ns : List (OrderNode UInt32)) :
    ((lockWalk sd price v ns).1 = [] ∧ ¬ 0 < (lockWalk sd price v ns).2) ↔ ¬ 0 < v := by
  constructor
  · rintro ⟨h1, h2⟩ hv
    cases ns with
    | nil => exact h2 hv
    | cons curr next =>
      rw [lockWalk, if_pos hv] at h1 h2
      split at h1
      · cases h1
      next hc =>
        rw [if_neg hc] at h2
        exact h2 hv
  · intro hv
    rw [lockWalk_of_not_pos hv]
    exact ⟨rfl, hv⟩

/-- The counter after the node in which the order is filled. -/
theorem ends_iff {left volume : ℕ} (hpos : 0 < left) (hlt : left < 2 ^ 31)
    (hvol : volume < 2 ^ 32) :
    ¬ 0 < toInt UInt32 ((left : ℤ) - volume) ↔ left ≤ volume ∧ volume ≤ left + 2 ^ 31 := by
  by_cases hle : volume ≤ left + 2 ^ 31
  · rw [toInt_of_lt (by omega) (by omega)]
    omega
  · -- the counter wraps to a positive number
    have hwrap : toInt UInt32 ((left : ℤ) - volume) = (left : ℤ) - volume + 2 ^ 32 := by
      rw [← toInt_of_lt (v := (left : ℤ) - volume + 2 ^ 32) (by omega) (by omega)]
      exact (Int.add_bmod_right ((left : ℤ) - volume) (2 ^ 32)).symm
    rw [hwrap]
    omega

theorem lockWalk_agrees {ns : List (OrderNode UInt32)} (w : World UInt32 I)
    (hnd : (ns.flatMap OrderNode.orders).Nodup) (hord : order ∉ ns.flatMap OrderNode.orders)
    (hexact : ∀ n ∈ ns, n.Exact w.heap) (hpos : 0 < (w.heap order).count.toNat)
    (hlt : (w.heap order).count.toNat < 2 ^ 31) :
    ((lockWalk sd (w.heap order).price (w.heap order).count.toNat ns).1 =
        matchVisits sd order w ns ∧
      (0 < (lockWalk sd (w.heap order).price (w.heap order).count.toNat ns).2 ↔
        0 < ((matchOrder sd order w ns).1.heap order).count)) ↔
      Fits sd (w.heap order).price w.heap (w.heap order).count.toNat ns := by
  induction ns generalizing w with
  | nil =>
    apply iff_of_true _ trivial
    refine ⟨rfl, ?_⟩
    show 0 < ((w.heap order).count.toNat : ℤ) ↔ 0 < (w.heap order).count
    rw [pos_iff]
    exact Int.natCast_pos
  | cons curr next ih =>
    rw [List.flatMap_cons, List.nodup_append] at hnd
    rcases hnd with ⟨hcurr, hnext, hdisj⟩
    rw [List.flatMap_cons, List.mem_append, not_or] at hord
    have hcount : 0 < (w.heap order).count := pos_iff.mpr hpos
    have hposZ : 0 < ((w.heap order).count.toNat : ℤ) := Int.natCast_pos.mpr hpos
    rw [lockWalk, if_pos hposZ, matchVisits, matchOrder, Fits]
    by_cases hc : sd.Crosses (w.heap order).price curr.price
    · rw [if_pos hc, if_pos ⟨hcount, hc⟩, if_pos ⟨hcount, hc⟩]
      have hspec := matchNode_spec w hcurr hord.1
      have hopen := matchNode_open w hcurr hord.1
      have hvol := counts_of_exact (hexact curr List.mem_cons_self)
      generalize hr : matchNode w order curr = r at hspec hopen
      rcases r with ⟨w', curr', out⟩
      dsimp only at hspec hopen ⊢
      have hprice : (w'.heap order).price = (w.heap order).price := by
        have hh := hspec.header order
        simp only [Order.header, Prod.mk.injEq] at hh
        exact hh.2.2.1
      have hsame : ∀ n ∈ next, ∀ p ∈ n.orders, w'.heap p = w.heap p := by
        intro n hn p hp
        have hpn : p ∈ next.flatMap OrderNode.orders := List.mem_flatMap.mpr ⟨n, hn, hp⟩
        apply hspec.frame p
        · rintro rfl
          exact hord.2 hpn
        · intro hp'
          exact hdisj p (hspec.sub.subset hp') p hpn rfl
      have hv : (value (w.heap order).count : ℕ) = (w.heap order).count.toNat := rfl
      have hv' : (value (w'.heap order).count : ℕ) = (w'.heap order).count.toNat := rfl
      have hvv : (value curr.volume : ℕ) = curr.volume.toNat := rfl
      rw [hv, hv'] at hopen
      rw [hvv]
      simp only [hc, true_implies]
      by_cases hless : curr.counts w.heap < (w.heap order).count.toNat
      · -- the node is taken whole, and both go on with what is left
        rw [if_pos hless]
        rw [Nat.mod_eq_of_lt (by omega)] at hvol
        have hcounter : toInt UInt32 (((w.heap order).count.toNat : ℤ) - curr.volume.toNat) =
            (w'.heap order).count.toNat := by
          rw [toInt_of_lt (by omega) (by omega), hopen]
          omega
        have hih := ih w' hnext hord.2 (fun n hn => by
            have hsum := sumCounts_congr (hsame n hn)
            exact (hexact n (List.mem_cons_of_mem _ hn)).trans hsum.symm)
          (by omega) (by omega)
        rw [hprice] at hih
        have hfits : ∀ left, Fits sd (w.heap order).price w'.heap left next ↔
            Fits sd (w.heap order).price w.heap left next :=
          fun left => fits_congr fun n hn => counts_congr (hsame n hn)
        rw [hcounter, List.cons.injEq, ← hopen, ← hfits]
        simp only [true_and]
        exact hih
      · -- the order is filled here, and the walk has to end
        rw [if_neg hless]
        have hzero : ¬ 0 < (w'.heap order).count := by
          rw [pos_iff]
          show ¬ 0 < (w'.heap order).count.toNat
          omega
        rcases matchVisits_of_zero sd hzero next with ⟨hvisits, hmatch⟩
        rw [hvisits, hmatch, List.cons.injEq, iff_false_right hzero]
        simp only [true_and]
        rw [lockWalk_ends]
        apply ends_iff hpos hlt
        rw [hvol]
        exact Nat.mod_lt _ (by decide)
    · rw [if_neg hc, if_neg fun h => hc h.2, if_neg fun h => hc h.2]
      apply iff_of_true _ fun h => absurd h hc
      refine ⟨rfl, ?_⟩
      rw [pos_iff]
      exact Int.natCast_pos

theorem matchOrder_of_visits_nil {w : World UInt32 I} {ns : List (OrderNode UInt32)}
    (h : matchVisits sd order w ns = []) : (matchOrder sd order w ns).1 = w := by
  cases ns with
  | nil => rfl
  | cons curr next =>
    rw [matchVisits] at h
    split at h
    · cases h
    next hno => rw [matchOrder, if_neg hno]

/-- The walk and the loop agree exactly for counts below 2^31 that fit the chain. -/
theorem walkAgrees_iff {ns : List (OrderNode UInt32)} (w : World UInt32 I)
    (hnd : (ns.flatMap OrderNode.orders).Nodup) (hord : order ∉ ns.flatMap OrderNode.orders)
    (hexact : ∀ n ∈ ns, n.Exact w.heap) :
    WalkAgrees sd order w ns ↔
      (w.heap order).count.toNat < 2 ^ 31 ∧ (0 < (w.heap order).count.toNat →
        Fits sd (w.heap order).price w.heap (w.heap order).count.toNat ns) := by
  have hsize := (w.heap order).count.toNat_lt
  have hv : (value (w.heap order).count : ℕ) = (w.heap order).count.toNat := rfl
  unfold WalkAgrees
  dsimp only
  rw [hv]
  by_cases hlt : (w.heap order).count.toNat < 2 ^ 31
  · rw [toInt_of_lt (by omega) (by omega), and_iff_right hlt]
    by_cases hpos : 0 < (w.heap order).count.toNat
    · rw [lockWalk_agrees w hnd hord hexact hpos hlt]
      simp only [hpos, true_implies]
    · apply iff_of_true _ fun h => absurd h hpos
      have hzero : ¬ 0 < (w.heap order).count := fun h => hpos (pos_iff.mp h)
      rcases matchVisits_of_zero sd hzero ns with ⟨hvisits, hmatch⟩
      rw [lockWalk_of_not_pos (by omega), hvisits, hmatch]
      exact ⟨rfl, iff_of_false (by dsimp only; omega) hzero⟩
  · -- the counter is negative from the start
    have hneg : ¬ 0 < toInt UInt32 ((w.heap order).count.toNat : ℤ) := by
      show ¬ 0 < Int.bmod _ (2 ^ 32)
      have h := Int.add_bmod_right (((w.heap order).count.toNat : ℤ) - 2 ^ 32) (2 ^ 32)
      rw [show ((w.heap order).count.toNat : ℤ) =
        ((w.heap order).count.toNat : ℤ) - 2 ^ 32 + (2 ^ 32 : ℕ) by omega, h,
        Int.bmod_eq_of_le (by omega) (by omega)]
      omega
    rw [lockWalk_of_not_pos hneg]
    apply iff_of_false _ fun h => hlt h.1
    rintro ⟨hvisits, hadd⟩
    apply hneg
    rw [hadd, matchOrder_of_visits_nil hvisits.symm, pos_iff]
    show 0 < (w.heap order).count.toNat
    omega

namespace Engine

/-- The objects when `processBuyOrder` or `processSellOrder` is called. -/
def arrived (e : Engine UInt32 I) (o : Order UInt32 I) : World UInt32 I where
  heap := Function.update e.heap e.nextPtr o
  orders := e.orders

/-- In every state between commands, for every order that arrives there. -/
theorem walkAgrees_run {cs : List (Command UInt32 I)} (hids : (cs.filterMap newId).Nodup)
    (heap : Heap UInt32 I) (sd : Side) (orderId : UInt32) (i : I) (price count : UInt32)
    (inputTime : ℤ) :
    WalkAgrees sd.opp ((init heap).run cs).1.nextPtr
        (((init heap).run cs).1.arrived (newOrder sd orderId i price count inputTime))
        (((init heap).run cs).1.bookOf i sd.opp).next ↔
      count.toNat < 2 ^ 31 ∧ (0 < count.toNat →
        Fits sd.opp price ((init heap).run cs).1.heap count.toNat
          (((init heap).run cs).1.bookOf i sd.opp).next) := by
  have h := sound_run hids heap
  generalize ((init heap).run cs).1 = e at h ⊢
  have hnd := (List.nodup_append.mp (h.ptr.nodup i sd.opp)).2.1
  have hne : ∀ n ∈ (e.bookOf i sd.opp).next, ∀ p ∈ n.orders, p ≠ e.nextPtr := by
    intro n hn p hp
    have hrest : e.RestsIn i sd.opp p :=
      List.mem_append_right _ (List.mem_flatMap.mpr ⟨n, hn, hp⟩)
    exact (h.ptr.lt hrest).ne
  have hsame : ∀ n ∈ (e.bookOf i sd.opp).next, ∀ p ∈ n.orders,
      (e.arrived (newOrder sd orderId i price count inputTime)).heap p = e.heap p :=
    fun n hn p hp => Function.update_of_ne (hne n hn p hp) ..
  have hnew : (e.arrived (newOrder sd orderId i price count inputTime)).heap e.nextPtr =
      newOrder sd orderId i price count inputTime := Function.update_self ..
  rw [walkAgrees_iff _ hnd, hnew, fits_congr fun n hn => counts_congr (hsame n hn)]
  · exact Iff.rfl
  · intro hin
    rcases List.mem_flatMap.mp hin with ⟨n, hn, hp⟩
    exact hne n hn _ hp rfl
  · intro n hn
    have hsum := sumCounts_congr (hsame n hn)
    exact (h.volumes i sd.opp n (List.mem_cons_of_mem _ hn)).trans hsum.symm

/-- Two sells whose counts add up to 2^32: the volume of their node is 0. -/
def wrappedSells : List (Command UInt32 String) :=
  [.order .sell 1 "GOOG" 2700 2147483648 0, .order .sell 2 "GOOG" 2700 2147483648 1]

/-- A buy of 1 is filled in that node, and leaves the head of the buy side locked. -/
theorem not_walkAgrees_wrappedSells :
    (wrappedSells.filterMap newId).Nodup ∧
      ¬ WalkAgrees .sell ((init fun _ => newOrder .buy 0 "" 0 0 0).run wrappedSells).1.nextPtr
        (((init fun _ => newOrder .buy 0 "" 0 0 0).run wrappedSells).1.arrived
          (newOrder .buy 3 "GOOG" 2700 1 2))
        (((init fun _ => newOrder .buy 0 "" 0 0 0).run wrappedSells).1.bookOf "GOOG" .sell).next :=
  ⟨by decide, fun h => absurd h.2 (by decide)⟩

theorem walkAgrees_run_wrappedSells :
    WalkAgrees .sell ((init fun _ => newOrder .buy 0 "" 0 0 0).run wrappedSells).1.nextPtr
        (((init fun _ => newOrder .buy 0 "" 0 0 0).run wrappedSells).1.arrived
          (newOrder .buy 3 "GOOG" 2700 1 2))
        (((init fun _ => newOrder .buy 0 "" 0 0 0).run wrappedSells).1.bookOf "GOOG" .sell).next ↔
      (1 : UInt32).toNat < 2 ^ 31 ∧ (0 < (1 : UInt32).toNat →
        Fits .sell 2700 ((init fun _ => newOrder .buy 0 "" 0 0 0).run wrappedSells).1.heap
          (1 : UInt32).toNat
          (((init fun _ => newOrder .buy 0 "" 0 0 0).run wrappedSells).1.bookOf
            "GOOG" .sell).next) :=
  walkAgrees_run (by decide) _ .buy 3 "GOOG" 2700 1 2

end Engine

end MatchingEngine.Cpp
