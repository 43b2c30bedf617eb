import MatchingEngine.Cpp.Engine
import Mathlib.Data.List.Nodup
import Mathlib.Data.List.Basic

/-!
# The routines of a book on values

A node together with the objects its vector points at is a `Level`.  As long as no pointer occurs
twice, `matchOrder`, `add` and `processCancelOrder` act on levels as the pure functions below, and
leave every other object alone.
-/

set_option linter.unusedSectionVars false

namespace MatchingEngine.Cpp

variable {N I : Type} [Quantity N] [DecidableEq I]

/-- A node and its orders, front of the vector first. -/
structure Level (N I : Type) where
  price : UInt32
  orders : List (Order N I)
  deriving Repr

def OrderNode.level (heap : Heap N I) (n : OrderNode N) : Level N I :=
  { price := n.price, orders := n.orders.map heap }

abbrev levels (heap : Heap N I) (ns : List (OrderNode N)) : List (Level N I) :=
  ns.map (OrderNode.level heap)

/-- The fields of an order that no routine writes. -/
def Order.header (o : Order N I) : InputType × UInt32 × UInt32 × I × ℤ :=
  (o.type, o.orderId, o.price, o.instrument, o.inputTime)

def tradeLine (o r : Order N I) (q : N) : Line N I :=
  .executed r.orderId o.orderId r.executionId r.price q o.inputTime

/-- The incoming order `o` against resting orders, the first to trade first. -/
def fill (o : Order N I) : List (Order N I) → List (Order N I) × Order N I × List (Line N I)
  | [] => ([], o, [])
  | r :: rs =>
    if o.count = 0 then (r :: rs, o, [])
    else if r.count ≤ o.count then
      let (rs', o', out) := fill { o with count := o.count - r.count } rs
      (rs', o', tradeLine o r r.count :: out)
    else
      ({ r with count := r.count - o.count, executionId := r.executionId + 1 } :: rs,
        { o with count := 0 }, [tradeLine o r o.count])

def fillLevel (o : Order N I) (lv : Level N I) : Level N I × Order N I × List (Line N I) :=
  let (rs, o', out) := fill o lv.orders.reverse
  ({ lv with orders := rs.reverse }, o', out)

def matchLevels (sd : Side) :
    Order N I → List (Level N I) → List (Level N I) × Order N I × List (Line N I)
  | o, [] => ([], o, [])
  | o, lv :: lvs =>
    if 0 < o.count ∧ sd.Crosses o.price lv.price then
      let (lv', o', out) := fillLevel o lv
      let (lvs', o'', out') := matchLevels sd o' lvs
      (lv' :: lvs', o'', out ++ out')
    else (lv :: lvs, o, [])

def insertValue (o : Order N I) : List (Order N I) → List (Order N I)
  | [] => [o]
  | r :: rs => if r.inputTime < o.inputTime then o :: r :: rs else r :: insertValue o rs

def insertLevel (o : Order N I) (lv : Level N I) : Level N I :=
  { lv with orders := insertValue o lv.orders }

def placeLevel (o : Order N I) (lv : Level N I) (lvs : List (Level N I)) :
    Level N I × List (Level N I) :=
  if o.price ≠ lv.price then (lv, insertLevel o { price := o.price, orders := [] } :: lvs)
  else (insertLevel o lv, lvs)

def addLevels (sd : Side) (o : Order N I) (lv : Level N I) :
    List (Level N I) → Level N I × List (Level N I)
  | [] => placeLevel o lv []
  | next :: rest =>
    if sd.Better o.price next.price then placeLevel o lv (next :: rest)
    else if o.price = next.price then (lv, insertLevel o next :: rest)
    else
      let (next', rest') := addLevels sd o next rest
      (lv, next' :: rest')

/-- The levels less the order with this id, and whether it was found. -/
def cancelLevels (orderId price : UInt32) : List (Level N I) → List (Level N I) × Bool
  | [] => ([], false)
  | lv :: lvs =>
    if lv.price ≠ price then
      let (lvs', found) := cancelLevels orderId price lvs
      (lv :: lvs', found)
    else if lv.orders.any (fun r => decide (r.orderId = orderId)) then
      ({ lv with orders := lv.orders.eraseP (fun r => decide (r.orderId = orderId)) } :: lvs, true)
    else (lv :: lvs, false)

/-! ## Pointers and values -/

theorem level_congr {heap heap' : Heap N I} {n : OrderNode N}
    (h : ∀ p ∈ n.orders, heap' p = heap p) : n.level heap' = n.level heap := by
  rw [OrderNode.level, OrderNode.level, List.map_congr_left h]

theorem levels_congr {heap heap' : Heap N I} {ns : List (OrderNode N)}
    (h : ∀ n ∈ ns, ∀ p ∈ n.orders, heap' p = heap p) : levels heap' ns = levels heap ns :=
  List.map_congr_left fun n hn => level_congr (h n hn)

section Exec

variable (heap : Heap N I) (order it : OrderPtr)

theorem execHeap_header (p : OrderPtr) : (execHeap heap order it p).header = (heap p).header := by
  unfold execHeap
  split
  · by_cases hp : p = order
    · subst hp
      rw [Function.update_self]
      rfl
    · rw [Function.update_of_ne hp]
  · by_cases hp : p = order
    · subst hp
      by_cases hit : p = it
      · subst hit
        simp only [Function.update_self]
        rfl
      · simp only [Function.update_self, Function.update_of_ne hit]
        rfl
    · by_cases hit : p = it
      · subst hit
        simp only [Function.update_of_ne hp, Function.update_self]
        rfl
      · simp only [Function.update_of_ne hp, Function.update_of_ne hit]

theorem execHeap_other {p : OrderPtr} (hp : p ≠ order) (hit : p ≠ it) :
    execHeap heap order it p = heap p := by
  unfold execHeap
  split
  · rw [Function.update_of_ne hp]
  · simp only [Function.update_of_ne hp, Function.update_of_ne hit]

end Exec

theorem matchLoop_of_count_eq_zero {order : OrderPtr} {s : Pass N I}
    (h : (s.heap order).count = 0) (its : List OrderPtr) : matchLoop order its s = s := by
  cases its with
  | nil => rfl
  | cons it its => rw [matchLoop, if_pos h]

/-- What the inner loop does: it takes the first `k` orders and perhaps a part of the next. -/
structure LoopSpec (order : OrderPtr) (its : List OrderPtr) (s s' : Pass N I) (k : ℕ) : Prop where
  popped : s'.numPopback = s.numPopback + k
  bound : k ≤ its.length
  filled : fill (s.heap order) (its.map s.heap) =
    ((its.drop k).map s'.heap, s'.heap order, s'.out.drop s.out.length)
  out : s.out <+: s'.out
  frame : ∀ p, p ≠ order → p ∉ its.drop k → s'.heap p = s.heap p
  header : ∀ p, (s'.heap p).header = (s.heap p).header
  orders : s'.orders = if k = 0 then s.orders else s.orders.remove (s.heap order).orderId

theorem matchLoop_spec {order : OrderPtr} {its : List OrderPtr} (s : Pass N I) (hnd : its.Nodup)
    (hord : order ∉ its) : ∃ k, LoopSpec order its s (matchLoop order its s) k := by
  induction its generalizing s with
  | nil => exact ⟨0, rfl, le_rfl, by simp [fill, matchLoop], List.prefix_rfl, fun _ _ _ => rfl,
      fun _ => rfl, rfl⟩
  | cons it its ih =>
    obtain ⟨hit, hnd⟩ := List.nodup_cons.mp hnd
    have hoi : order ≠ it := List.ne_of_not_mem_cons hord
    have hoits : order ∉ its := List.not_mem_of_not_mem_cons hord
    by_cases hz : (s.heap order).count = 0
    · rw [matchLoop_of_count_eq_zero hz]
      exact ⟨0, rfl, Nat.zero_le _, by simp [fill, hz], List.prefix_rfl, fun _ _ _ => rfl,
        fun _ => rfl, rfl⟩
    · rw [matchLoop, if_neg hz]
      by_cases hf : Fills s.heap order it
      · -- the whole of `*it`: one more order to pop
        obtain ⟨k, hk⟩ := ih (matchOne order it s) hnd hoits
        have hheap : (matchOne order it s).heap =
            Function.update s.heap order
              { s.heap order with count := (s.heap order).count - (s.heap it).count } := by
          simp only [matchOne, execHeap, if_pos hf]
        have hmap : its.map (matchOne order it s).heap = its.map s.heap := by
          refine List.map_congr_left fun p hp => ?_
          rw [hheap, Function.update_of_ne (ne_of_mem_of_not_mem hp hoits)]
        have hout : (matchOne order it s).out = s.out ++ [execLine s.heap order it] := rfl
        have hfill := hk.filled
        rw [hmap, hheap, Function.update_self] at hfill
        refine ⟨k + 1, ?_, ?_, ?_, ?_, ?_, ?_, ?_⟩
        · rw [hk.popped]
          simp only [matchOne, if_pos hf]
          omega
        · exact Nat.succ_le_succ hk.bound
        · obtain ⟨t, ht⟩ := hk.out
          rw [hout] at ht
          have hdrop : (matchLoop order its (matchOne order it s)).out.drop s.out.length =
              execLine s.heap order it :: t := by
            rw [← ht, List.append_assoc, List.drop_left, List.singleton_append]
          have hdrop' : (matchLoop order its (matchOne order it s)).out.drop
              (matchOne order it s).out.length = t := by
            rw [← ht, hout, List.drop_left]
          rw [hdrop'] at hfill
          rw [List.map_cons, fill, if_neg hz, if_pos hf, hfill, hdrop, List.drop_succ_cons]
          simp only [execLine, countMatched, if_pos hf, tradeLine]
        · exact (List.prefix_append _ _).trans (hout ▸ hk.out)
        · intro p hp hpd
          rw [hk.frame p hp hpd, hheap, Function.update_of_ne hp]
        · intro p
          rw [hk.header, matchOne]
          exact execHeap_header ..
        · have hid : ((matchOne order it s).heap order).orderId = (s.heap order).orderId := by
            rw [hheap, Function.update_self]
          rw [hk.orders, hid, if_neg (Nat.succ_ne_zero k)]
          simp only [matchOne, execOrders, if_pos hf]
          split
          · rfl
          · exact Function.update_idem ..
      · -- a part of `*it`: the incoming order is filled and the loop breaks
        have hcount : ((matchOne order it s).heap order).count = 0 := by
          simp only [matchOne, execHeap, if_neg hf, Function.update_self]
        rw [matchLoop_of_count_eq_zero hcount]
        have hheapo : (matchOne order it s).heap order = { s.heap order with count := 0 } := by
          simp only [matchOne, execHeap, if_neg hf, Function.update_self,
            Function.update_of_ne hoi]
        have hheapit : (matchOne order it s).heap it =
            { s.heap it with
              count := (s.heap it).count - (s.heap order).count
              executionId := (s.heap it).executionId + 1 } := by
          simp only [matchOne, execHeap, if_neg hf, Function.update_of_ne hoi.symm,
            Function.update_self]
        have hmap : its.map (matchOne order it s).heap = its.map s.heap := by
          refine List.map_congr_left fun p hp => ?_
          exact execHeap_other _ _ _ (ne_of_mem_of_not_mem hp hoits) (ne_of_mem_of_not_mem hp hit)
        refine ⟨0, ?_, Nat.zero_le _, ?_, List.prefix_append _ _, ?_, ?_, ?_⟩
        · simp only [matchOne, if_neg hf, Nat.add_zero]
        · rw [List.drop_zero, List.map_cons, fill, if_neg hz, if_neg hf, List.map_cons, hmap,
            hheapo, hheapit]
          simp only [matchOne, List.drop_left, execLine, countMatched, if_neg hf, tradeLine]
        · intro p hp hpd
          exact execHeap_other _ _ _ hp (List.ne_of_not_mem_cons hpd)
        · intro p
          exact execHeap_header ..
        · simp only [matchOne, execOrders, if_neg hf, if_pos]

theorem exists_of_forall₂ {α β : Type} {R : α → β → Prop} {l : List α} {l' : List β}
    (h : List.Forall₂ R l l') {a : α} (ha : a ∈ l) : ∃ b ∈ l', R a b := by
  induction h with
  | nil => cases ha
  | cons hab _ ih =>
    rcases List.mem_cons.mp ha with rfl | htl
    · exact ⟨_, List.mem_cons_self, hab⟩
    · obtain ⟨b, hb, hr⟩ := ih htl
      exact ⟨b, List.mem_cons_of_mem _ hb, hr⟩

/-- What `matchOrder` does to a stretch of the chain. -/
structure MatchSpec (sd : Side) (order : OrderPtr) (w : World N I) (ns : List (OrderNode N))
    (w' : World N I) (ns' : List (OrderNode N)) (out : List (Line N I)) : Prop where
  levels : matchLevels sd (w.heap order) (levels w.heap ns) =
    (levels w'.heap ns', w'.heap order, out)
  nodes : List.Forall₂ (fun n' n => n'.price = n.price ∧ n'.orders <+: n.orders) ns' ns
  frame : ∀ p, p ≠ order → (∀ n ∈ ns', p ∉ n.orders) → w'.heap p = w.heap p
  header : ∀ p, (w'.heap p).header = (w.heap p).header
  orders : w'.orders = w.orders ∨ w'.orders = w.orders.remove (w.heap order).orderId

structure NodeSpec (order : OrderPtr) (w : World N I) (curr : OrderNode N)
    (w' : World N I) (curr' : OrderNode N) (out : List (Line N I)) : Prop where
  level : fillLevel (w.heap order) (curr.level w.heap) = (curr'.level w'.heap, w'.heap order, out)
  price : curr'.price = curr.price
  sub : curr'.orders <+: curr.orders
  frame : ∀ p, p ≠ order → p ∉ curr'.orders → w'.heap p = w.heap p
  header : ∀ p, (w'.heap p).header = (w.heap p).header
  orders : w'.orders = w.orders ∨ w'.orders = w.orders.remove (w.heap order).orderId

theorem matchNode_spec {order : OrderPtr} (w : World N I) {curr : OrderNode N}
    (hnd : curr.orders.Nodup) (hord : order ∉ curr.orders) :
    NodeSpec order w curr (matchNode w order curr).1 (matchNode w order curr).2.1
      (matchNode w order curr).2.2 := by
  let s : Pass N I :=
    { heap := w.heap, orders := w.orders, volume := curr.volume, numPopback := 0, out := [] }
  obtain ⟨k, hk⟩ := matchLoop_spec s
    (List.nodup_reverse.mpr hnd) (by rwa [List.mem_reverse])
  have hpop : (matchLoop order curr.orders.reverse s).numPopback = k := by
    rw [hk.popped]
    exact Nat.zero_add k
  have horders : (matchNode w order curr).2.1.orders = curr.orders.take (curr.orders.length - k) := by
    rw [← hpop]
    rfl
  have hdrop : curr.orders.reverse.drop k = (matchNode w order curr).2.1.orders.reverse := by
    rw [horders, List.drop_reverse]
  have hfill := hk.filled
  rw [hdrop] at hfill
  refine ⟨?_, rfl, ?_, ?_, hk.header, ?_⟩
  · have hrev : (curr.level w.heap).orders.reverse = curr.orders.reverse.map s.heap :=
      (List.map_reverse ..).symm
    rw [fillLevel, hrev]
    change (_ : Level N I × Order N I × List (Line N I)) = _
    rw [show w.heap order = s.heap order from rfl, hfill]
    simp only [List.map_reverse, List.reverse_reverse]
    rfl
  · rw [horders]
    exact List.take_prefix ..
  · intro p hp hpd
    exact hk.frame p hp (by rwa [hdrop, List.mem_reverse])
  · rcases Nat.eq_zero_or_pos k with h0 | hpos
    · exact Or.inl (hk.orders.trans (if_pos h0))
    · exact Or.inr (hk.orders.trans (if_neg (by omega)))

theorem matchOrder_spec (sd : Side) {order : OrderPtr} {ns : List (OrderNode N)} (w : World N I)
    (hnd : (ns.flatMap OrderNode.orders).Nodup) (hord : order ∉ ns.flatMap OrderNode.orders) :
    MatchSpec sd order w ns (matchOrder sd order w ns).1 (matchOrder sd order w ns).2.1
      (matchOrder sd order w ns).2.2 := by
  induction ns generalizing w with
  | nil => exact ⟨rfl, .nil, fun _ _ _ => rfl, fun _ => rfl, Or.inl rfl⟩
  | cons curr next ih =>
    rw [List.flatMap_cons, List.nodup_append] at hnd
    obtain ⟨hcurr, hnext, hdisj⟩ := hnd
    rw [List.flatMap_cons, List.mem_append, not_or] at hord
    by_cases hgo : 0 < (w.heap order).count ∧ sd.Crosses (w.heap order).price curr.price
    · rw [matchOrder, if_pos hgo]
      have h1 := matchNode_spec w hcurr hord.1
      generalize matchNode w order curr = r1 at h1
      obtain ⟨w1, curr', out⟩ := r1
      have h2 := ih w1 hnext hord.2
      dsimp only at h1 h2 ⊢
      generalize matchOrder sd order w1 next = r2 at h2
      obtain ⟨w2, next', out'⟩ := r2
      dsimp only at h2 ⊢
      -- the rest of the chain does not share pointers with `curr`
      have hsub : ∀ n' ∈ next', ∀ p ∈ n'.orders, p ∈ next.flatMap OrderNode.orders := by
        intro n' hn' p hp
        obtain ⟨n, hn, -, hpre⟩ := exists_of_forall₂ h2.nodes hn'
        exact List.mem_flatMap.mpr ⟨n, hn, hpre.subset hp⟩
      have hfr : Cpp.levels w1.heap next = Cpp.levels w.heap next := by
        refine levels_congr fun n hn p hp => h1.frame p ?_ fun hp' => ?_
        · rintro rfl
          exact hord.2 (List.mem_flatMap.mpr ⟨n, hn, hp⟩)
        · exact hdisj p (h1.sub.subset hp') p (List.mem_flatMap.mpr ⟨n, hn, hp⟩) rfl
      have hfr' : curr'.level w2.heap = curr'.level w1.heap := by
        refine level_congr fun p hp => h2.frame p ?_ fun n' hn' hp' => ?_
        · rintro rfl
          exact hord.1 (h1.sub.subset hp)
        · exact hdisj p (h1.sub.subset hp) p (hsub n' hn' p hp') rfl
      refine ⟨?_, .cons ⟨h1.price, h1.sub⟩ h2.nodes, ?_, fun p => ?_, ?_⟩
      · have hl2 := h2.levels
        rw [hfr] at hl2
        have hgo' : 0 < (w.heap order).count ∧
            sd.Crosses (w.heap order).price (curr.level w.heap).price := hgo
        rw [Cpp.levels, List.map_cons, matchLevels, if_pos hgo', h1.level]
        change (_ : List (Level N I) × Order N I × List (Line N I)) = _
        dsimp only
        rw [show List.map (OrderNode.level w.heap) next = Cpp.levels w.heap next from rfl, hl2,
          ← hfr']
        rfl
      · intro p hp hpn
        rw [h2.frame p hp fun n hn => hpn n (List.mem_cons_of_mem _ hn),
          h1.frame p hp (hpn curr' List.mem_cons_self)]
      · rw [h2.header, h1.header]
      · have hid : (w1.heap order).orderId = (w.heap order).orderId :=
          congrArg (fun h => h.2.1) (h1.header order)
        have h2o := h2.orders
        rw [hid] at h2o
        rcases h1.orders with h1o | h1o <;> rcases h2o with h2o | h2o <;> rw [h1o] at h2o
        · exact Or.inl h2o
        · exact Or.inr h2o
        · exact Or.inr h2o
        · exact Or.inr (h2o.trans (Function.update_idem ..))
    · rw [matchOrder, if_neg hgo]
      have hgo' : ¬ (0 < (w.heap order).count ∧
          sd.Crosses (w.heap order).price (curr.level w.heap).price) := hgo
      refine ⟨?_, List.forall₂_same.mpr fun _ _ => ⟨rfl, List.prefix_rfl⟩, fun _ _ _ => rfl,
        fun _ => rfl, Or.inl rfl⟩
      rw [Cpp.levels, List.map_cons, matchLevels, if_neg hgo']

/-! ## `add` and `processCancelOrder` -/

theorem insertByTime_map (heap : Heap N I) (order : OrderPtr) (its : List OrderPtr) :
    (insertByTime heap order its).map heap = insertValue (heap order) (its.map heap) := by
  induction its with
  | nil => rfl
  | cons it its ih =>
    rw [insertByTime, List.map_cons, insertValue]
    split
    · rfl
    · rw [List.map_cons, ih]

theorem insertOrder_level (heap : Heap N I) (order : OrderPtr) (curr : OrderNode N) :
    (insertOrder heap order curr).level heap = insertLevel (heap order) (curr.level heap) := by
  rw [OrderNode.level, insertLevel, insertOrder, insertByTime_map]
  rfl

theorem place_levels (heap : Heap N I) (order : OrderPtr) (curr : OrderNode N)
    (next : List (OrderNode N)) :
    placeLevel (heap order) (curr.level heap) (levels heap next) =
      ((place heap order curr next).1.level heap, levels heap (place heap order curr next).2) := by
  unfold placeLevel place
  by_cases h : (heap order).price ≠ curr.price
  · rw [if_pos h, if_pos (show (heap order).price ≠ (curr.level heap).price from h), levels, levels,
      List.map_cons, insertOrder_level]
    rfl
  · rw [if_neg h, if_neg (show ¬ (heap order).price ≠ (curr.level heap).price from h),
      insertOrder_level]

theorem addWalk_levels (sd : Side) (heap : Heap N I) (order : OrderPtr) (curr : OrderNode N)
    (next : List (OrderNode N)) :
    addLevels sd (heap order) (curr.level heap) (levels heap next) =
      ((addWalk sd heap order curr next).1.level heap,
        levels heap (addWalk sd heap order curr next).2) := by
  induction next generalizing curr with
  | nil => exact place_levels heap order curr []
  | cons n next ih =>
    rw [levels, List.map_cons, addLevels, addWalk]
    by_cases hb : sd.Better (heap order).price n.price
    · rw [if_pos hb, if_pos (show sd.Better _ (n.level heap).price from hb)]
      exact place_levels heap order curr (n :: next)
    · rw [if_neg hb, if_neg (show ¬ sd.Better _ (n.level heap).price from hb)]
      by_cases he : (heap order).price = n.price
      · rw [if_pos he, if_pos (show _ = (n.level heap).price from he), ← insertOrder_level]
        rfl
      · rw [if_neg he, if_neg (show ¬ _ = (n.level heap).price from he)]
        have h := ih n
        rw [levels] at h
        rw [h]
        rfl

theorem cancelOrder_spec (order : OrderPtr) (w : World N I) (ns : List (OrderNode N)) :
    cancelLevels (w.heap order).orderId (w.heap order).price (levels w.heap ns) =
        (levels w.heap (cancelOrder order w ns).2.1,
          (cancelLevels (w.heap order).orderId (w.heap order).price (levels w.heap ns)).2) ∧
      (cancelOrder order w ns).2.2 =
        [deletedLine (cancelLevels (w.heap order).orderId (w.heap order).price
          (levels w.heap ns)).2 (w.heap order)] ∧
      (cancelOrder order w ns).1 =
        if (cancelLevels (w.heap order).orderId (w.heap order).price (levels w.heap ns)).2 then
          { w with orders := w.orders.remove (w.heap order).orderId }
        else w := by
  induction ns with
  | nil => exact ⟨rfl, rfl, rfl⟩
  | cons curr next ih =>
    rw [levels, List.map_cons, cancelLevels, cancelOrder]
    by_cases hp : curr.price ≠ (w.heap order).price
    · rw [if_pos hp, if_pos (show (curr.level w.heap).price ≠ _ from hp)]
      obtain ⟨h1, h2, h3⟩ := ih
      rw [levels] at h1 h2 h3
      exact ⟨by rw [h1]; rfl, h2, h3⟩
    · rw [if_neg hp, if_neg (show ¬ (curr.level w.heap).price ≠ _ from hp)]
      have hany : (curr.level w.heap).orders.any
          (fun r => decide (r.orderId = (w.heap order).orderId)) =
          curr.orders.any (fun it => decide ((w.heap it).orderId = (w.heap order).orderId)) := by
        rw [OrderNode.level, List.any_map]
        rfl
      rw [hany]
      by_cases hf : curr.orders.any
          (fun it => decide ((w.heap it).orderId = (w.heap order).orderId)) = true
      · simp only [hf, if_true, and_true]
        rw [OrderNode.level, List.eraseP_map]
        rfl
      · rw [if_neg hf, if_neg hf]
        exact ⟨rfl, rfl, rfl⟩

end MatchingEngine.Cpp
