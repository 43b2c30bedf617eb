import MatchingEngine.Cpp.Reference
import Mathlib.Tactic.Abel

/-!
# The volumes of the nodes

`OrderNode::volume` is a word that every routine updates on its own.  With 32-bit arithmetic it stays
the sum of the counts behind the vector, whatever the counts are.
-/

set_option linter.unusedSectionVars false

namespace MatchingEngine.Cpp

variable {I : Type} [DecidableEq I]

/-- The counts of some orders, added as the code adds them. -/
def sumCounts (heap : Heap UInt32 I) (its : List OrderPtr) : UInt32 :=
  (its.map fun it => (heap it).count).sum

def OrderNode.Exact (heap : Heap UInt32 I) (n : OrderNode UInt32) : Prop :=
  n.volume = sumCounts heap n.orders

section Sums

variable {heap heap' : Heap UInt32 I} {its its' : List OrderPtr} {it : OrderPtr}

theorem sumCounts_cons : sumCounts heap (it :: its) = (heap it).count + sumCounts heap its :=
  List.sum_cons

theorem sumCounts_perm (h : its.Perm its') : sumCounts heap its = sumCounts heap its' :=
  (h.map _).sum_eq

theorem sumCounts_reverse : sumCounts heap its.reverse = sumCounts heap its :=
  sumCounts_perm (List.reverse_perm its)

theorem sumCounts_congr (h : ∀ p ∈ its, heap' p = heap p) :
    sumCounts heap' its = sumCounts heap its := by
  unfold sumCounts
  rw [List.map_congr_left fun p hp => by rw [h p hp]]

theorem sumCounts_erase (h : it ∈ its) :
    (heap it).count + sumCounts heap (its.erase it) = sumCounts heap its :=
  List.sum_map_erase (fun p => (heap p).count) h

/-- The sum as a number: modulo 2^32. -/
theorem toNat_sumCounts (heap : Heap UInt32 I) (its : List OrderPtr) :
    (sumCounts heap its).toNat = (its.map fun it => (heap it).count.toNat).sum % 2 ^ 32 := by
  induction its with
  | nil => rfl
  | cons it its ih =>
    rw [sumCounts_cons, UInt32.toNat_add, ih, List.map_cons, List.sum_cons, Nat.add_mod_mod]

end Sums

/-- The inner loop of `matchOrder` keeps the volume in step: what is left of it is what is left of
    the orders, besides `c`. -/
theorem matchLoop_volume {order : OrderPtr} {its : List OrderPtr} {s : Pass UInt32 I} {c : UInt32}
    (hnd : its.Nodup) (hord : order ∉ its) (hv : s.volume = c + sumCounts s.heap its) :
    ∃ k, (matchLoop order its s).numPopback = s.numPopback + k ∧
      (matchLoop order its s).volume = c + sumCounts (matchLoop order its s).heap (its.drop k) := by
  induction its generalizing s with
  | nil => exact ⟨0, rfl, hv⟩
  | cons it its ih =>
    rcases List.nodup_cons.mp hnd with ⟨hit, hnd'⟩
    have hoi : it ≠ order := (List.ne_of_not_mem_cons hord).symm
    have hoits : order ∉ its := List.not_mem_of_not_mem_cons hord
    rw [sumCounts_cons] at hv
    by_cases hz : (s.heap order).count = 0
    · rw [matchLoop_of_count_eq_zero hz]
      exact ⟨0, rfl, by rw [List.drop_zero, sumCounts_cons, hv]⟩
    · rw [matchLoop, if_neg hz]
      by_cases hf : Fills s.heap order it
      · have hheap : ∀ p ∈ its, (matchOne order it s).heap p = s.heap p := by
          intro p hp
          have hpo : p ≠ order := ne_of_mem_of_not_mem hp hoits
          simp only [matchOne, execHeap, if_pos hf, Function.update_of_ne hpo]
        have hvol : (matchOne order it s).volume =
            c + sumCounts (matchOne order it s).heap its := by
          rw [sumCounts_congr hheap]
          simp only [matchOne, countMatched, if_pos hf, hv]
          abel
        rcases ih hnd' hoits hvol with ⟨k, hpop, hk⟩
        refine ⟨k + 1, ?_, hk⟩
        rw [hpop]
        simp only [matchOne, if_pos hf]
        omega
      · -- the incoming order is filled, the loop ends with a part of `*it` left
        have hcount : ((matchOne order it s).heap order).count = 0 := by
          simp only [matchOne, execHeap, if_neg hf, Function.update_self]
        rw [matchLoop_of_count_eq_zero hcount]
        have hheap : ∀ p ∈ its, (matchOne order it s).heap p = s.heap p := by
          intro p hp
          exact execHeap_other _ _ _ (ne_of_mem_of_not_mem hp hoits) (ne_of_mem_of_not_mem hp hit)
        have hit' : ((matchOne order it s).heap it).count =
            (s.heap it).count - (s.heap order).count := by
          simp only [matchOne, execHeap, if_neg hf, Function.update_of_ne hoi, Function.update_self]
        refine ⟨0, ?_, ?_⟩
        · simp only [matchOne, if_neg hf, Nat.add_zero]
        · rw [List.drop_zero, sumCounts_cons, sumCounts_congr hheap, hit']
          simp only [matchOne, countMatched, if_neg hf, hv]
          abel

theorem matchNode_exact {order : OrderPtr} (w : World UInt32 I) {curr : OrderNode UInt32}
    (hnd : curr.orders.Nodup) (hord : order ∉ curr.orders) (hv : curr.Exact w.heap) :
    (matchNode w order curr).2.1.Exact (matchNode w order curr).1.heap := by
  have hloop := matchLoop_volume (c := 0)
    (s := { heap := w.heap, orders := w.orders, volume := curr.volume, numPopback := 0, out := [] })
    (List.nodup_reverse.mpr hnd) (by rwa [List.mem_reverse])
    (by rw [sumCounts_reverse, zero_add]; exact hv)
  rcases hloop with ⟨k, hpop, hk⟩
  rw [zero_add, List.drop_reverse, sumCounts_reverse] at hk
  rw [Nat.zero_add] at hpop
  show _ = sumCounts _ (curr.orders.take (curr.orders.length - _))
  rw [hpop]
  exact hk

theorem matchOrder_exact (sd : Side) {order : OrderPtr} {ns : List (OrderNode UInt32)}
    (w : World UInt32 I) (hnd : (ns.flatMap OrderNode.orders).Nodup)
    (hord : order ∉ ns.flatMap OrderNode.orders) (hv : ∀ n ∈ ns, n.Exact w.heap) :
    ∀ n ∈ (matchOrder sd order w ns).2.1, n.Exact (matchOrder sd order w ns).1.heap := by
  induction ns generalizing w with
  | nil =>
    intro n hn
    cases hn
  | cons curr next ih =>
    rw [List.flatMap_cons, List.nodup_append] at hnd
    rcases hnd with ⟨hcurr, hnext, hdisj⟩
    rw [List.flatMap_cons, List.mem_append, not_or] at hord
    by_cases hgo : 0 < (w.heap order).count ∧ sd.Crosses (w.heap order).price curr.price
    · rw [matchOrder, if_pos hgo]
      have h1 := matchNode_spec w hcurr hord.1
      have hcurr' := matchNode_exact w hcurr hord.1 (hv curr List.mem_cons_self)
      generalize matchNode w order curr = r1 at h1 hcurr'
      rcases r1 with ⟨w1, curr', out⟩
      dsimp only at h1 hcurr' ⊢
      -- the rest of the chain has not been touched
      have hrest : ∀ n ∈ next, n.Exact w1.heap := by
        intro n hn
        have hsame : sumCounts w1.heap n.orders = sumCounts w.heap n.orders := by
          apply sumCounts_congr
          intro p hp
          have hpn : p ∈ next.flatMap OrderNode.orders := List.mem_flatMap.mpr ⟨n, hn, hp⟩
          apply h1.frame p
          · rintro rfl
            exact hord.2 hpn
          · intro hp'
            exact hdisj p (h1.sub.subset hp') p hpn rfl
        exact (hv n (List.mem_cons_of_mem _ hn)).trans hsame.symm
      have h2 := matchOrder_spec sd w1 hnext hord.2
      have hih := ih w1 hnext hord.2 hrest
      generalize matchOrder sd order w1 next = r2 at h2 hih
      rcases r2 with ⟨w2, next', out'⟩
      dsimp only at h2 hih ⊢
      intro n hn
      rcases List.mem_cons.mp hn with rfl | hn
      · have hsame : sumCounts w2.heap n.orders = sumCounts w1.heap n.orders := by
          apply sumCounts_congr
          intro p hp
          have hpc := h1.sub.subset hp
          apply h2.frame p
          · rintro rfl
            exact hord.1 hpc
          · intro n' hn' hp'
            rcases exists_of_forall₂ h2.nodes hn' with ⟨m, hm, -, hpre⟩
            exact hdisj p hpc p (List.mem_flatMap.mpr ⟨m, hm, hpre.subset hp'⟩) rfl
        exact hcurr'.trans hsame.symm
      · exact hih n hn
    · rw [matchOrder, if_neg hgo]
      exact hv

theorem insertOrder_exact {heap : Heap UInt32 I} {order : OrderPtr} {curr : OrderNode UInt32}
    (hv : curr.Exact heap) : (insertOrder heap order curr).Exact heap := by
  show curr.volume + (heap order).count = sumCounts heap (insertByTime heap order curr.orders)
  rw [sumCounts_perm (insertByTime_perm heap order curr.orders), sumCounts_cons, hv, add_comm]

theorem place_exact {heap : Heap UInt32 I} {order : OrderPtr} {curr : OrderNode UInt32}
    {next : List (OrderNode UInt32)} (hv : ∀ n ∈ curr :: next, n.Exact heap) :
    ∀ n ∈ (place heap order curr next).1 :: (place heap order curr next).2, n.Exact heap := by
  have hcurr := hv curr List.mem_cons_self
  have hnext : ∀ n ∈ next, n.Exact heap := fun n hn => hv n (List.mem_cons_of_mem _ hn)
  unfold place
  split
  · have hnew : (OrderNode.new (heap order).price : OrderNode UInt32).Exact heap := rfl
    intro n hn
    simp only [List.mem_cons] at hn
    rcases hn with rfl | rfl | hn
    · exact hcurr
    · exact insertOrder_exact hnew
    · exact hnext n hn
  · intro n hn
    rcases List.mem_cons.mp hn with rfl | hn
    · exact insertOrder_exact hcurr
    · exact hnext n hn

theorem addWalk_exact (sd : Side) {heap : Heap UInt32 I} {order : OrderPtr}
    {curr : OrderNode UInt32} {next : List (OrderNode UInt32)}
    (hv : ∀ n ∈ curr :: next, n.Exact heap) :
    ∀ n ∈ (addWalk sd heap order curr next).1 :: (addWalk sd heap order curr next).2,
      n.Exact heap := by
  induction next generalizing curr with
  | nil => exact place_exact hv
  | cons m next ih =>
    rw [addWalk]
    split
    · exact place_exact hv
    · have hcurr := hv curr List.mem_cons_self
      have hnext : ∀ n ∈ m :: next, n.Exact heap := fun n hn => hv n (List.mem_cons_of_mem _ hn)
      split
      · intro n hn
        simp only [List.mem_cons] at hn
        rcases hn with rfl | rfl | hn
        · exact hcurr
        · exact insertOrder_exact (hnext m List.mem_cons_self)
        · exact hnext n (List.mem_cons_of_mem _ hn)
      · intro n hn
        rcases List.mem_cons.mp hn with rfl | hn
        · exact hcurr
        · exact ih hnext n hn

/-- A cancel takes off the volume the count of the object it was given, which is the object that
    leaves the vector if no other has its id. -/
theorem cancelOrder_exact {order : OrderPtr} {w : World UInt32 I} {ns : List (OrderNode UInt32)}
    (hid : ∀ n ∈ ns, ∀ p ∈ n.orders, (w.heap p).orderId = (w.heap order).orderId → p = order)
    (hv : ∀ n ∈ ns, n.Exact w.heap) : ∀ n ∈ (cancelOrder order w ns).2.1, n.Exact w.heap := by
  induction ns with
  | nil =>
    intro n hn
    cases hn
  | cons curr next ih =>
    have hih := ih (fun n hn => hid n (List.mem_cons_of_mem _ hn))
      fun n hn => hv n (List.mem_cons_of_mem _ hn)
    have hcurr := hv curr List.mem_cons_self
    have hnext : ∀ n ∈ next, n.Exact w.heap := fun n hn => hv n (List.mem_cons_of_mem _ hn)
    rw [cancelOrder]
    split
    · intro n hn
      rcases List.mem_cons.mp hn with rfl | hn
      · exact hcurr
      · exact hih n hn
    · dsimp only
      split
      next hf =>
        have hidc := hid curr List.mem_cons_self
        rcases List.any_eq_true.mp hf with ⟨it, hit, hitid⟩
        have hito : it = order := hidc it hit (of_decide_eq_true hitid)
        subst hito
        intro n hn
        rcases List.mem_cons.mp hn with rfl | hn
        · show curr.volume - (w.heap it).count = sumCounts w.heap (curr.orders.eraseP _)
          rw [eraseP_eq_erase fun p hp =>
            ⟨fun h => hidc p hp (of_decide_eq_true h), fun h => decide_eq_true (h ▸ rfl)⟩, hcurr,
            ← sumCounts_erase hit]
          abel
        · exact hnext n hn
      · exact hv

namespace Engine

variable {used : UInt32 → Prop} {e : Engine UInt32 I}

/-- Every node's volume is the sum of its orders' counts. -/
def VolumesExact (e : Engine UInt32 I) : Prop :=
  ∀ i sd, ∀ n ∈ (e.bookOf i sd).chain, n.Exact e.heap

theorem volumesExact_init (heap : Heap UInt32 I) : (init heap : Engine UInt32 I).VolumesExact := by
  intro i sd n hn
  rw [bookOf_init] at hn
  cases List.mem_singleton.mp hn
  rfl

/-- A chain of which nothing is touched. -/
theorem VolumesExact.frame {e' : Engine UInt32 I} (h : e.VolumesExact) {i : I} {sd : Side}
    (hbook : e'.bookOf i sd = e.bookOf i sd)
    (hheap : ∀ p, e.RestsIn i sd p → e'.heap p = e.heap p) :
    ∀ n ∈ (e'.bookOf i sd).chain, n.Exact e'.heap := by
  intro n hn
  rw [hbook] at hn
  have hsame : sumCounts e'.heap n.orders = sumCounts e.heap n.orders :=
    sumCounts_congr fun p hp => hheap p (List.mem_flatMap.mpr ⟨n, hn, hp⟩)
  exact (h i sd n hn).trans hsame.symm

section Order

variable {i : I} {sd : Side} {o : Order UInt32 I}

theorem matched_volumes (hi : e.PtrInv used) (hv : e.VolumesExact) (i : I) (sd : Side)
    (o : Order UInt32 I) {r : World UInt32 I × List (OrderNode UInt32) × List (Line UInt32 I)}
    (hr : r = matchOrder sd e.nextPtr
      { heap := Function.update e.heap e.nextPtr o, orders := e.orders } (e.bookOf i sd).next) :
    (e.matched i sd r.1 r.2.1).VolumesExact := by
  have hnd := List.nodup_append.mp (hi.nodup i sd)
  have hord : e.nextPtr ∉ (e.bookOf i sd).next.flatMap OrderNode.orders := by
    intro hp
    have hrest : e.RestsIn i sd e.nextPtr := List.mem_append_right _ hp
    exact (hi.lt hrest).ne rfl
  have hm := matchOrder_spec sd
    { heap := Function.update e.heap e.nextPtr o, orders := e.orders } hnd.2.1 hord
  have hexact := matchOrder_exact sd
    { heap := Function.update e.heap e.nextPtr o, orders := e.orders } hnd.2.1 hord (by
      intro n hn
      have hsame : sumCounts (Function.update e.heap e.nextPtr o) n.orders =
          sumCounts e.heap n.orders := by
        apply sumCounts_congr
        intro p hp
        apply Function.update_of_ne
        rintro rfl
        exact hord (List.mem_flatMap.mpr ⟨n, hn, hp⟩)
      exact (hv i sd n (List.mem_cons_of_mem _ hn)).trans hsame.symm)
  rw [← hr] at hm hexact
  intro j sd'
  by_cases h : j = i ∧ sd' = sd
  · rcases h with ⟨rfl, rfl⟩
    rw [bookOf_matched, if_pos ⟨rfl, rfl⟩]
    intro n hn
    rcases List.mem_cons.mp hn with rfl | hn
    · have hsame : sumCounts r.1.heap (e.bookOf j sd').head.orders =
          sumCounts e.heap (e.bookOf j sd').head.orders := by
        apply sumCounts_congr
        intro p hp
        apply matched_frame hi hm (List.mem_append_left _ hp)
        intro hpn
        exact hnd.2.2 p hp p (hm.orders_sub.subset hpn) rfl
      exact (hv j sd' _ List.mem_cons_self).trans hsame.symm
    · exact hexact n hn
  · apply hv.frame
    · rw [bookOf_matched, if_neg h]
    · intro p hp
      apply matched_frame hi hm hp
      intro hpn
      apply h
      exact hi.place hp (List.mem_append_right _ (hm.orders_sub.subset hpn))

theorem booked_volumes (hv : e.VolumesExact) (i : I) (sd : Side) (order : OrderPtr) :
    (e.booked i sd order).VolumesExact := by
  intro j sd'
  by_cases h : j = i ∧ sd' = sd
  · rw [bookOf_booked, if_pos h]
    exact addWalk_exact sd (hv i sd)
  · rw [bookOf_booked, if_neg h]
    exact hv j sd'

theorem cancelled_volumes (hi : e.PtrInv used) (hv : e.VolumesExact) (i : I) (sd : Side)
    {order : OrderPtr} {id : UInt32} (hs : e.orders id = some order) :
    (e.cancelled i sd order).VolumesExact := by
  have hid : (e.heap order).orderId = id := (hi.known id order hs).1
  have huniq : ∀ n ∈ (e.bookOf i sd).next, ∀ p ∈ n.orders,
      (e.heap p).orderId = (e.heap order).orderId → p = order := by
    intro n hn p hp heq
    have hrest : e.RestsIn i sd p :=
      List.mem_append_right _ (List.mem_flatMap.mpr ⟨n, hn, hp⟩)
    have hm := hi.mapped i sd p hrest
    rw [heq, hid, hs] at hm
    exact (Option.some.inj hm).symm
  have hheap : (e.cancelled i sd order).heap = e.heap := by
    show (cancelOrder order e.toWorld (e.bookOf i sd).next).1.heap = e.heap
    rw [(cancelOrder_spec order e.toWorld (e.bookOf i sd).next).2.2]
    split <;> rfl
  have hexact := cancelOrder_exact huniq fun n hn => hv i sd n (List.mem_cons_of_mem _ hn)
  intro j sd'
  rw [hheap]
  by_cases h : j = i ∧ sd' = sd
  · rw [bookOf_cancelled, if_pos h]
    intro n hn
    rcases List.mem_cons.mp hn with rfl | hn
    · exact hv i sd _ List.mem_cons_self
    · exact hexact n hn
  · rw [bookOf_cancelled, if_neg h]
    exact hv j sd'

end Order

/-- Every command keeps the volumes exact. -/
theorem exec_volumes (hi : e.PtrInv used) (hv : e.VolumesExact) (c : Command UInt32 I) :
    (e.exec c).1.VolumesExact := by
  cases c with
  | order sd orderId i price count inputTime =>
    have hmatched := matched_volumes hi hv i sd.opp
      (newOrder sd orderId i price count inputTime) rfl
    rw [exec_order]
    dsimp only
    split
    · exact booked_volumes hmatched i sd e.nextPtr
    · exact hmatched
  | cancel orderId inputTime =>
    rcases hs : e.orders orderId with _ | order
    · simp only [exec, HashMap.get, hs]
      exact hv
    · have h := cancelled_volumes hi hv (e.heap order).instrument
        (OrderBook.sideOf (e.heap order)) hs
      simp only [exec, HashMap.get, hs]
      exact h

end Engine

end MatchingEngine.Cpp
