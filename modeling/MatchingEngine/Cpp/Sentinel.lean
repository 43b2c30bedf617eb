import MatchingEngine.Cpp.Shape

/-!
# Orders in the head sentinel

The sentinel has price 0, and `add` compares prices with the node where its walk stopped, which can
be the sentinel.  An order that enters the sentinel is found neither by matching nor by cancelling;
one that enters a node after it is found by both for as long as it rests.
-/

set_option linter.unusedSectionVars false

namespace MatchingEngine.Cpp

open PriceTime
open Quantity (value)

section Walk

variable {N I : Type} [Quantity N] [DecidableEq I]

theorem not_better_zero (price : UInt32) : ¬ Side.buy.Better 0 price := by
  show ¬ price < 0
  rw [UInt32.lt_iff_toNat_lt, UInt32.toNat_zero]
  omega

theorem better_zero {price : UInt32} (h : price ≠ 0) : Side.sell.Better 0 price :=
  Side.better_of_not_better (fun hb => not_better_zero price hb) h

/-- The walk leaves the sentinel alone unless the price is 0 and nothing holds it back. -/
theorem addWalk_listed {sd : Side} {heap : Heap N I} {order : OrderPtr} {head : OrderNode N}
    {next : List (OrderNode N)} (hhead : head.price = 0)
    (h : (heap order).price ≠ 0 ∨ sd = .buy ∧ next ≠ []) :
    (addWalk sd heap order head next).1 = head := by
  have hplace : ∀ next' : List (OrderNode N), (heap order).price ≠ 0 →
      (place heap order head next').1 = head := by
    intro next' hne
    rw [place, if_pos (by rw [hhead]; exact hne)]
  cases next with
  | nil => exact hplace [] (h.resolve_right fun h => h.2 rfl)
  | cons n rest =>
    rw [addWalk]
    by_cases hb : sd.Better (heap order).price n.price
    · rw [if_pos hb]
      apply hplace
      rcases h with h | ⟨rfl, -⟩
      · exact h
      · intro hz
        rw [hz] at hb
        exact not_better_zero n.price hb
    · rw [if_neg hb]
      split <;> rfl

/-- An order of price 0 that nothing holds back enters the sentinel. -/
theorem addWalk_sentinel {sd : Side} {heap : Heap N I} {order : OrderPtr} {head : OrderNode N}
    {next : List (OrderNode N)} (hhead : head.price = 0)
    (hnext : sd = .sell → ∀ n ∈ next, n.price ≠ 0) (hprice : (heap order).price = 0)
    (h : sd = .sell ∨ next = []) :
    addWalk sd heap order head next = (insertOrder heap order head, next) := by
  have hplace : ∀ next' : List (OrderNode N),
      place heap order head next' = (insertOrder heap order head, next') := by
    intro next'
    rw [place, if_neg (by rw [hhead, hprice]; exact fun h => h rfl)]
  cases next with
  | nil => exact hplace []
  | cons n rest =>
    rcases h with rfl | h
    · rw [addWalk, if_pos]
      · exact hplace (n :: rest)
      · rw [hprice]
        exact better_zero (hnext rfl n List.mem_cons_self)
    · cases h

theorem mem_prices_addWalk {sd : Side} {heap : Heap N I} {order : OrderPtr} {curr : OrderNode N}
    {next : List (OrderNode N)} {price : UInt32}
    (h : price ∈ prices (addWalk sd heap order curr next).2) :
    price = (heap order).price ∨ price ∈ prices next := by
  have hplace : ∀ (curr' : OrderNode N) (next' : List (OrderNode N)),
      price ∈ prices (place heap order curr' next').2 →
        price = (heap order).price ∨ price ∈ prices next' := by
    intro curr' next' hp
    unfold place at hp
    split at hp
    · exact List.mem_cons.mp hp
    · exact Or.inr hp
  induction next generalizing curr with
  | nil => exact hplace curr [] h
  | cons n rest ih =>
    rw [addWalk] at h
    split at h
    · exact hplace curr (n :: rest) h
    · split at h
      · exact Or.inr h
      · rcases List.mem_cons.mp h with h | h
        · rw [(prices_addWalk sd heap order n rest).1] at h
          exact Or.inr (h ▸ List.mem_cons_self)
        · exact (ih h).imp_right (List.mem_cons_of_mem _)

end Walk

namespace Engine

section Places

variable {N I : Type} [Quantity N] [DecidableEq I] {used used' : UInt32 → Prop} {e : Engine N I}
  {i : I} {sd : Side} {p : OrderPtr}

/-- The order stands in a node after the head. -/
def Listed (e : Engine N I) (i : I) (sd : Side) (p : OrderPtr) : Prop :=
  p ∈ (e.bookOf i sd).next.flatMap OrderNode.orders

theorem restsIn_cases : e.RestsIn i sd p ↔ p ∈ (e.bookOf i sd).head.orders ∨ e.Listed i sd p := by
  rw [RestsIn, Book.chain, List.flatMap_cons, List.mem_append]
  rfl

theorem PtrInv.not_listed (h : e.PtrInv used) (hp : p ∈ (e.bookOf i sd).head.orders) :
    ¬ e.Listed i sd p := by
  intro hl
  have hnd := h.nodup i sd
  rw [Book.chain, List.flatMap_cons, List.nodup_append] at hnd
  exact hnd.2.2 p hp p hl rfl

/-- The books in which price 0 means the sentinel. -/
structure SentinelOk (e : Engine N I) : Prop where
  head : ∀ i sd, (e.bookOf i sd).head.price = 0
  sell : ∀ i, 0 ∉ prices (e.bookOf i .sell).next

theorem sentinelOk_init (heap : Heap N I) : (init heap : Engine N I).SentinelOk := by
  constructor
  · intro i sd
    rw [bookOf_init]
    rfl
  · intro i
    rw [bookOf_init]
    exact List.not_mem_nil

/-- An order at this price would be listed if it were booked now. -/
def Listable (e : Engine N I) (i : I) (sd : Side) (price : UInt32) : Prop :=
  price ≠ 0 ∨ sd = .buy ∧ (e.bookOf i sd).next ≠ []

theorem not_listable {price : UInt32} :
    ¬ e.Listable i sd price ↔ price = 0 ∧ (sd = .sell ∨ (e.bookOf i sd).next = []) := by
  unfold Listable
  cases sd <;> simp

theorem SentinelOk.matched {w' : World N I} {next : List (OrderNode N)} (h : e.SentinelOk)
    (hprices : prices next = prices (e.bookOf i sd).next) :
    (e.matched i sd w' next).SentinelOk := by
  constructor
  · intro j sd'
    rw [bookOf_matched]
    split
    · exact h.head i sd
    · exact h.head j sd'
  · intro j
    rw [bookOf_matched]
    split
    next heq =>
      have hsell := h.sell i
      rw [heq.2, ← hprices] at hsell
      exact hsell
    · exact h.sell j

/-- The head of the book after booking. -/
theorem SentinelOk.head_booked (h : e.SentinelOk) (i : I) (sd : Side) (order : OrderPtr) :
    (e.Listable i sd (e.heap order).price ∧
        ((e.booked i sd order).bookOf i sd).head = (e.bookOf i sd).head) ∨
      ¬ e.Listable i sd (e.heap order).price ∧
        ((e.booked i sd order).bookOf i sd).head =
          insertOrder e.heap order (e.bookOf i sd).head ∧
        ((e.booked i sd order).bookOf i sd).next = (e.bookOf i sd).next := by
  rw [bookOf_booked, if_pos ⟨rfl, rfl⟩]
  by_cases hl : e.Listable i sd (e.heap order).price
  · exact Or.inl ⟨hl, addWalk_listed (h.head i sd) hl⟩
  · rcases not_listable.mp hl with ⟨hprice, hor⟩
    have hwalk := addWalk_sentinel (h.head i sd) (fun hsd n hn hz => by
      subst hsd
      exact h.sell i (hz ▸ List.mem_map_of_mem hn)) hprice hor
    rw [hwalk]
    exact Or.inr ⟨hl, rfl, rfl⟩

theorem SentinelOk.booked (h : e.SentinelOk) (i : I) (sd : Side) (order : OrderPtr) :
    (e.booked i sd order).SentinelOk := by
  have hother : ∀ j sd', ¬ (j = i ∧ sd' = sd) →
      (e.booked i sd order).bookOf j sd' = e.bookOf j sd' := by
    intro j sd' hne
    rw [bookOf_booked, if_neg hne]
  constructor
  · intro j sd'
    by_cases heq : j = i ∧ sd' = sd
    · rcases heq with ⟨rfl, rfl⟩
      rcases h.head_booked j sd' order with ⟨-, hhead⟩ | ⟨-, hhead, -⟩
      · rw [hhead]
        exact h.head j sd'
      · rw [hhead]
        exact h.head j sd'
    · rw [hother j sd' heq]
      exact h.head j sd'
  · intro j
    by_cases heq : j = i ∧ Side.sell = sd
    · rcases heq with ⟨rfl, rfl⟩
      rcases h.head_booked j .sell order with ⟨hl, -⟩ | ⟨-, -, hnext⟩
      · have hprice : (e.heap order).price ≠ 0 := hl.resolve_right fun h => by cases h.1
        rw [bookOf_booked, if_pos ⟨rfl, rfl⟩]
        intro hz
        rcases mem_prices_addWalk hz with h0 | hz
        · exact hprice h0.symm
        · exact h.sell j hz
      · rw [hnext]
        exact h.sell j
    · rw [hother j .sell heq]
      exact h.sell j

theorem SentinelOk.exec (h : e.SentinelOk) (c : Command N I) : (e.exec c).1.SentinelOk := by
  cases c with
  | order sd orderId i price count inputTime =>
    rw [exec_order]
    dsimp only
    generalize hr : matchOrder sd.opp e.nextPtr _ (e.bookOf i sd.opp).next = r
    have hm : (e.matched i sd.opp r.1 r.2.1).SentinelOk := by
      apply h.matched
      rw [← hr, prices_matchOrder]
    split
    · exact hm.booked i sd e.nextPtr
    · exact hm
  | cancel orderId inputTime =>
    rcases hs : e.orders orderId with _ | order
    · simp only [Engine.exec, HashMap.get, hs]
      exact h
    · simp only [Engine.exec, HashMap.get, hs]
      show (e.cancelled (e.heap order).instrument (OrderBook.sideOf (e.heap order)) order).SentinelOk
      constructor
      · intro j sd'
        rw [bookOf_cancelled]
        split
        · exact h.head _ _
        · exact h.head j sd'
      · intro j
        rw [bookOf_cancelled]
        split
        next heq =>
          have hsell := h.sell (e.heap order).instrument
          rw [heq.2] at hsell
          rw [prices_cancelOrder]
          exact hsell
        · exact h.sell j

/-! ### Where orders stand after a command -/

section Order

variable {orderId price : UInt32} {count : N} {inputTime : ℤ}

/-- The two phases of a new order. -/
theorem exec_order_phases (hi : e.PtrInv used) (sd : Side) (orderId : UInt32) (i : I)
    (price : UInt32) (count : N) (inputTime : ℤ) :
    ∃ (w' : World N I) (next : List (OrderNode N)) (out : List (Line N I)),
      MatchSpec sd.opp e.nextPtr
        { heap := Function.update e.heap e.nextPtr (newOrder sd orderId i price count inputTime)
          orders := e.orders } (e.bookOf i sd.opp).next w' next out ∧
      (w'.heap e.nextPtr).price = price ∧ prices next = prices (e.bookOf i sd.opp).next ∧
      ((e.exec (.order sd orderId i price count inputTime)).1 = e.matched i sd.opp w' next ∨
        (e.exec (.order sd orderId i price count inputTime)).1 =
          (e.matched i sd.opp w' next).booked i sd e.nextPtr) := by
  have hnd := (List.nodup_append.mp (hi.nodup i sd.opp)).2.1
  have hord : e.nextPtr ∉ (e.bookOf i sd.opp).next.flatMap OrderNode.orders := by
    intro hp
    have hrest : e.RestsIn i sd.opp e.nextPtr := List.mem_append_right _ hp
    exact (hi.lt hrest).ne rfl
  have hm := matchOrder_spec sd.opp
    { heap := Function.update e.heap e.nextPtr (newOrder sd orderId i price count inputTime)
      orders := e.orders } hnd hord
  refine ⟨_, _, _, hm, ?_, prices_matchOrder .., ?_⟩
  · have hh := congrArg (fun x => x.2.2.1) (hm.header e.nextPtr)
    dsimp only [Order.header] at hh
    rw [Function.update_self] at hh
    exact hh
  · rw [exec_order]
    dsimp only
    split
    · exact Or.inr rfl
    · exact Or.inl rfl

end Order

/-- The fixed fields of an order are those it was made with. -/
theorem header_exec (hi : e.PtrInv used) (c : Command N I) (hlt : p < e.nextPtr) :
    ((e.exec c).1.heap p).header = (e.heap p).header := by
  cases c with
  | order sd orderId i price count inputTime =>
    rcases exec_order_phases hi sd orderId i price count inputTime with
      ⟨w', next, out, hm, -, -, hexec⟩
    have hheap : (e.exec (.order sd orderId i price count inputTime)).1.heap = w'.heap := by
      rcases hexec with hexec | hexec <;> rw [hexec] <;> rfl
    rw [hheap, hm.header]
    dsimp only
    rw [Function.update_of_ne (Nat.ne_of_lt hlt)]
  | cancel orderId inputTime =>
    rcases hs : e.orders orderId with _ | order
    · simp only [Engine.exec, HashMap.get, hs]
    · simp only [Engine.exec, HashMap.get, hs]
      show ((cancelOrder order e.toWorld _).1.heap p).header = _
      rw [(cancelOrder_spec ..).2.2]
      split <;> rfl

theorem header_exec_new (hi : e.PtrInv used) (sd : Side) (orderId : UInt32) (i : I)
    (price : UInt32) (count : N) (inputTime : ℤ) :
    ((e.exec (.order sd orderId i price count inputTime)).1.heap e.nextPtr).header =
      (newOrder sd orderId i price count inputTime).header := by
  rcases exec_order_phases hi sd orderId i price count inputTime with
    ⟨w', next, out, hm, -, -, hexec⟩
  have hheap : (e.exec (.order sd orderId i price count inputTime)).1.heap = w'.heap := by
    rcases hexec with hexec | hexec <;> rw [hexec] <;> rfl
  rw [hheap, hm.header]
  dsimp only
  rw [Function.update_self]

theorem head_matched {w' : World N I} {next : List (OrderNode N)} (j : I) (sd' : Side) :
    ((e.matched i sd w' next).bookOf j sd').head = (e.bookOf j sd').head := by
  rw [bookOf_matched]
  split
  next h => rw [h.1, h.2]
  · rfl

/-- The head sentinels take in new orders that are not listable, and no others. -/
theorem mem_head_exec (h : e.SentinelOk) (hi : e.PtrInv used) (i : I) (sd : Side) (p : OrderPtr)
    (c : Command N I) :
    p ∈ ((e.exec c).1.bookOf i sd).head.orders ↔
      p ∈ (e.bookOf i sd).head.orders ∨
        p = e.nextPtr ∧ (e.exec c).1.RestsIn i sd p ∧
          ∃ orderId price count inputTime, c = .order sd orderId i price count inputTime ∧
            ¬ e.Listable i sd price := by
  cases c with
  | order sd' orderId j price count inputTime =>
    rcases exec_order_phases hi sd' orderId j price count inputTime with
      ⟨w', next, out, hm, hprice, hprices, hexec⟩
    rcases hexec with hexec | hexec
    · -- filled on arrival
      rw [hexec, head_matched]
      refine (or_iff_left ?_).symm
      rintro ⟨rfl, hrest, -⟩
      exact (hi.lt (restsIn_matched hm hrest)).ne rfl
    · have hown : (e.matched j sd'.opp w' next).bookOf j sd' = e.bookOf j sd' := by
        rw [bookOf_matched, if_neg fun h => Side.ne_opp sd' h.2]
      by_cases heq : i = j ∧ sd = sd'
      · rcases heq with ⟨rfl, rfl⟩
        have hlist : (e.matched i sd.opp w' next).Listable i sd
            ((e.matched i sd.opp w' next).heap e.nextPtr).price ↔ e.Listable i sd price := by
          unfold Listable
          rw [hown]
          show (w'.heap e.nextPtr).price ≠ 0 ∨ _ ↔ _
          rw [hprice]
        rcases (h.matched hprices).head_booked i sd e.nextPtr with ⟨hl, hhead⟩ | ⟨hl, hhead, -⟩
        · rw [hexec, hhead, hown]
          refine (or_iff_left ?_).symm
          rintro ⟨-, -, orderId', price', count', inputTime', hc, hnl⟩
          cases hc
          exact hnl (hlist.mp hl)
        · have hmem : p ∈ ((((e.matched i sd.opp w' next).booked i sd e.nextPtr).bookOf i
              sd).head.orders) ↔ p = e.nextPtr ∨ p ∈ (e.bookOf i sd).head.orders := by
            rw [hhead, hown]
            exact (insertByTime_perm ..).mem_iff.trans List.mem_cons
          rw [hexec, hmem, or_comm]
          apply or_congr_right
          constructor
          · rintro rfl
            refine ⟨rfl, ?_, orderId, price, count, inputTime, rfl, fun hp => hl (hlist.mpr hp)⟩
            exact restsIn_cases.mpr (Or.inl (hmem.mpr (Or.inl rfl)))
          · exact fun hp => hp.1
      · rw [hexec, bookOf_booked, if_neg heq, head_matched]
        refine (or_iff_left ?_).symm
        rintro ⟨-, -, orderId', price', count', inputTime', hc, -⟩
        cases hc
        exact heq ⟨rfl, rfl⟩
  | cancel orderId inputTime =>
    have hhead : ((e.exec (.cancel orderId inputTime)).1.bookOf i sd).head =
        (e.bookOf i sd).head := by
      rcases hs : e.orders orderId with _ | order
      · simp only [Engine.exec, HashMap.get, hs]
      · simp only [Engine.exec, HashMap.get, hs]
        show ((e.cancelled _ _ order).bookOf i sd).head = _
        rw [bookOf_cancelled]
        split
        next heq => rw [heq.1, heq.2]
        · rfl
    rw [hhead]
    refine (or_iff_left ?_).symm
    rintro ⟨-, -, orderId', price', count', inputTime', hc, -⟩
    cases hc

theorem cancelOrder_sublist (order : OrderPtr) (w : World N I) (ns : List (OrderNode N)) :
    ((cancelOrder order w ns).2.1.flatMap OrderNode.orders).Sublist
      (ns.flatMap OrderNode.orders) := by
  induction ns with
  | nil => exact List.Sublist.refl _
  | cons curr next ih =>
    rw [cancelOrder]
    split
    · exact ih.append_left curr.orders
    · dsimp only
      split
      · exact List.eraseP_sublist.append_right _
      · exact List.Sublist.refl _

theorem restsIn_cancelled {order : OrderPtr} {j : I} {sd' : Side}
    (hp : (e.cancelled j sd' order).RestsIn i sd p) : e.RestsIn i sd p := by
  unfold RestsIn at *
  rw [bookOf_cancelled] at hp
  split at hp
  next heq =>
    rw [heq.1, heq.2]
    exact ((cancelOrder_sublist ..).append_left _).subset hp
  · exact hp

/-- What rests after a command rested before it, or is the new order. -/
theorem restsIn_exec (hi : e.PtrInv used) {c : Command N I} (hp : (e.exec c).1.RestsIn i sd p) :
    e.RestsIn i sd p ∨
      p = e.nextPtr ∧ ∃ orderId price count inputTime,
        c = .order sd orderId i price count inputTime := by
  cases c with
  | order sd' orderId j price count inputTime =>
    rcases exec_order_phases hi sd' orderId j price count inputTime with
      ⟨w', next, out, hm, -, -, hexec | hexec⟩
    · rw [hexec] at hp
      exact Or.inl (restsIn_matched hm hp)
    · rw [hexec] at hp
      rcases restsIn_booked.mp hp with ⟨rfl, rfl, rfl⟩ | hp
      · exact Or.inr ⟨rfl, orderId, price, count, inputTime, rfl⟩
      · exact Or.inl (restsIn_matched hm hp)
  | cancel orderId inputTime =>
    rcases hs : e.orders orderId with _ | order
    · simp only [Engine.exec, HashMap.get, hs] at hp
      exact Or.inl hp
    · simp only [Engine.exec, HashMap.get, hs] at hp
      exact Or.inl (restsIn_cancelled hp)

/-- An order that rests on does not move between the sentinel and the nodes after it. -/
theorem listed_exec (h : e.SentinelOk) (hi : e.PtrInv used) {c : Command N I}
    (hi' : (e.exec c).1.PtrInv used') (hlt : p < e.nextPtr)
    (hp : (e.exec c).1.RestsIn i sd p) : (e.exec c).1.Listed i sd p ↔ e.Listed i sd p := by
  have hold : e.RestsIn i sd p := by
    rcases restsIn_exec hi hp with hold | ⟨rfl, -⟩
    · exact hold
    · exact absurd hlt (Nat.lt_irrefl _)
  have hhead := mem_head_exec h hi i sd p c
  rw [or_iff_left fun h => absurd h.1 (Nat.ne_of_lt hlt)] at hhead
  constructor
  · intro hl
    apply (restsIn_cases.mp hold).resolve_left
    intro hin
    exact hi'.not_listed (hhead.mpr hin) hl
  · intro hl
    apply (restsIn_cases.mp hp).resolve_left
    intro hin
    exact hi.not_listed (hhead.mp hin) hl

end Places

end Engine

end MatchingEngine.Cpp
