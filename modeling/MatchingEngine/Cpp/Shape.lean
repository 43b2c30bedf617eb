import MatchingEngine.Cpp.Volumes

/-!
# The representation invariant of a book

What holds of every order book between commands, for arbitrary prices and counts.  An order of price
0 may stand in the head sentinel, whose price is 0; otherwise the head is a node like the others.
-/

set_option linter.unusedSectionVars false

namespace MatchingEngine.Cpp

open Quantity (value)

section Halves

variable {N I : Type} [Quantity N] [DecidableEq I]

/-- One side, the head sentinel included. -/
structure HalfOk (sd : Side) (instrument : I) (h : Half N I) : Prop where
  price : h.1.price = 0
  head : LevelOk sd instrument h.1
  next : SideOk sd instrument h.2

theorem HalfOk.empty (sd : Side) (instrument : I) : HalfOk (N := N) sd instrument Half.empty :=
  ⟨rfl, ⟨fun _ h => absurd h List.not_mem_nil, .nil⟩, SideOk.nil sd instrument⟩

/-- Past the first node the walk of `add` does not depend on the node it starts from. -/
theorem addLevels_start {sd : Side} {o : Order N I} {next : Level N I} {rest : List (Level N I)}
    (hb : ¬ sd.Better o.price next.price) (lv lv' : Level N I) :
    addLevels sd o lv (next :: rest) = (lv, (addLevels sd o lv' (next :: rest)).2) := by
  rw [addLevels, addLevels, if_neg hb, if_neg hb]
  split <;> rfl

theorem addLevels_half {sd : Side} {instrument : I} {o : Order N I} {h : Half N I}
    (hh : HalfOk sd instrument h) (ho : OrderOk sd instrument o.price o) :
    HalfOk sd instrument (addLevels sd o h.1 h.2) := by
  rcases h with ⟨head, lvs⟩
  rcases hh with ⟨hprice, hhead, hnext⟩
  dsimp only at hprice hhead hnext ⊢
  by_cases hne : o.price ≠ head.price
  · have hadd := addLevels_ok _ hnext ho hne
    refine ⟨?_, ?_, hadd.2.1⟩
    · rw [hadd.1]
      exact hprice
    · rw [hadd.1]
      exact hhead
  · -- the price is that of the sentinel
    rw [not_not] at hne
    have hplace : ∀ lvs' : List (Level N I), SideOk sd instrument lvs' →
        HalfOk sd instrument (placeLevel o head lvs') := by
      intro lvs' hok
      rw [placeLevel, if_neg fun h => h hne]
      exact ⟨hprice, hhead.insert (hne ▸ ho), hok⟩
    cases lvs with
    | nil => exact hplace [] hnext
    | cons next rest =>
      by_cases hb : sd.Better o.price next.price
      · rw [addLevels, if_pos hb]
        exact hplace (next :: rest) hnext
      · have hother : o.price ≠ o.price + 1 := by
          intro h
          have h1 := congrArg UInt32.toNat h
          rw [UInt32.toNat_add, UInt32.toNat_one] at h1
          omega
        have hadd := addLevels_ok { price := o.price + 1, orders := [] } hnext ho hother
        rw [addLevels_start hb head { price := o.price + 1, orders := [] }]
        exact ⟨hprice, hhead, hadd.2.1⟩

/-- Every side of every instrument is in order. -/
def Books.Shaped (b : Books N I) : Prop := ∀ i sd, HalfOk sd i (b.side i sd)

theorem Books.shaped_init : (Books.init : Books N I).Shaped := fun i sd => HalfOk.empty sd i

theorem Books.Shaped.set {b : Books N I} (h : b.Shaped) {i : I} {sd : Side} (half : Half N I)
    (hok : HalfOk sd i half) (known) :
    Books.Shaped { side := Books.set b.side i sd half, known } := by
  intro j sd'
  show HalfOk sd' j (Books.set _ _ _ _ j sd')
  rw [Books.set_apply]
  split
  next heq =>
    rw [heq.1, heq.2]
    exact hok
  · exact h j sd'

theorem Books.Shaped.exec {b : Books N I} (h : b.Shaped) (c : Command N I) :
    (b.exec c).1.Shaped := by
  cases c with
  | order sd orderId i price count time =>
    rcases hr : matchLevels sd.opp (newOrder sd orderId i price count time) (b.side i sd.opp).2
      with ⟨next, o', out⟩
    have hleft := matchLevels_left sd.opp (newOrder sd orderId i price count time)
      (b.side i sd.opp).2
    have hinc := matchLevels_incoming sd.opp (newOrder sd orderId i price count time)
      (b.side i sd.opp).2
    rw [hr] at hleft hinc
    dsimp only at hleft hinc
    have hopp := h i sd.opp
    have hmatched := h.set ((b.side i sd.opp).1, next)
      ⟨hopp.price, hopp.head, hopp.next.left hleft⟩ b.known
    rw [Books.exec_order b sd orderId i price count time hr.symm]
    dsimp only
    split
    next hpos =>
      have hok : OrderOk sd i o'.price o' := by
        rw [hinc]
        exact orderOk_new hpos
      exact hmatched.set _ (addLevels_half (h i sd) hok) (b.known.put orderId o'.header)
    · exact hmatched
  | cancel orderId time =>
    rcases hk : b.known orderId with _ | ⟨type, id, price, i, time'⟩
    · simp only [Books.exec, hk]
      exact h
    · obtain ⟨sd, hsd⟩ : ∃ sd : Side, (if type = .buy then .buy else .sell) = sd := ⟨_, rfl⟩
      have hcancel : HalfOk sd i
          ((b.side i sd).1, (cancelLevels id price (b.side i sd).2).1) :=
        ⟨(h i sd).price, (h i sd).head, cancelLevels_ok (h i sd).next id price⟩
      simp only [Books.exec, hk, hsd]
      exact h.set _ hcancel _

end Halves

/-! ## Nodes stay -/

section Prices

variable {N I : Type} [Quantity N] [DecidableEq I]

abbrev prices (ns : List (OrderNode N)) : List UInt32 := ns.map OrderNode.price

theorem prices_matchOrder (sd : Side) (order : OrderPtr) (w : World N I)
    (ns : List (OrderNode N)) : prices (matchOrder sd order w ns).2.1 = prices ns := by
  induction ns generalizing w with
  | nil => rfl
  | cons curr next ih =>
    rw [matchOrder]
    split
    · show curr.price :: prices _ = curr.price :: prices next
      rw [ih]
    · rfl

theorem prices_cancelOrder (order : OrderPtr) (w : World N I) (ns : List (OrderNode N)) :
    prices (cancelOrder order w ns).2.1 = prices ns := by
  induction ns with
  | nil => rfl
  | cons curr next ih =>
    rw [cancelOrder]
    split
    · show curr.price :: prices _ = curr.price :: prices next
      rw [ih]
    · dsimp only
      split <;> rfl

theorem prices_place (heap : Heap N I) (order : OrderPtr) (curr : OrderNode N)
    (next : List (OrderNode N)) :
    (place heap order curr next).1.price = curr.price ∧
      (prices next).Sublist (prices (place heap order curr next).2) := by
  unfold place
  split
  · exact ⟨rfl, List.sublist_cons_self ..⟩
  · exact ⟨rfl, List.Sublist.refl _⟩

/-- `add` puts at most one node between the others. -/
theorem prices_addWalk (sd : Side) (heap : Heap N I) (order : OrderPtr) (curr : OrderNode N)
    (next : List (OrderNode N)) :
    (addWalk sd heap order curr next).1.price = curr.price ∧
      (prices next).Sublist (prices (addWalk sd heap order curr next).2) := by
  induction next generalizing curr with
  | nil => exact prices_place heap order curr []
  | cons n next ih =>
    rw [addWalk]
    split
    · exact prices_place heap order curr (n :: next)
    · split
      · exact ⟨rfl, List.Sublist.refl _⟩
      · refine ⟨rfl, ?_⟩
        show (n.price :: prices next).Sublist ((addWalk sd heap order n next).1.price :: prices _)
        rw [(ih n).1]
        exact (ih n).2.cons_cons n.price

namespace Engine

variable {e e' : Engine N I}

/-- One book is exchanged for one with the nodes it had, and perhaps others. -/
theorem prices_exchange {j : I} {sd' : Side} {b : Book N}
    (hhead : b.head.price = (e.bookOf j sd').head.price)
    (hnext : (prices (e.bookOf j sd').next).Sublist (prices b.next))
    (he' : ∀ i sd, e'.bookOf i sd = if i = j ∧ sd = sd' then b else e.bookOf i sd) (i : I)
    (sd : Side) : (prices (e.bookOf i sd).chain).Sublist (prices (e'.bookOf i sd).chain) := by
  rw [he']
  split
  next h =>
    rw [h.1, h.2]
    show (_ :: prices _).Sublist (b.head.price :: prices b.next)
    rw [hhead]
    exact hnext.cons_cons _
  · exact List.Sublist.refl _

theorem prices_booked (e : Engine N I) (j : I) (sd' : Side) (order : OrderPtr) (i : I)
    (sd : Side) :
    (prices (e.bookOf i sd).chain).Sublist (prices ((e.booked j sd' order).bookOf i sd).chain) := by
  have hwalk := prices_addWalk sd' e.heap order (e.bookOf j sd').head (e.bookOf j sd').next
  exact prices_exchange hwalk.1 hwalk.2 bookOf_booked i sd

/-- No command takes a node away or gives it another price. -/
theorem prices_exec (e : Engine N I) (c : Command N I) (i : I) (sd : Side) :
    (prices (e.bookOf i sd).chain).Sublist (prices ((e.exec c).1.bookOf i sd).chain) := by
  cases c with
  | order sd' orderId j price count inputTime =>
    rw [exec_order]
    dsimp only
    generalize hr : matchOrder sd'.opp e.nextPtr _ (e.bookOf j sd'.opp).next = r
    have hprices : prices r.2.1 = prices (e.bookOf j sd'.opp).next := by
      rw [← hr, prices_matchOrder]
    have hmatched : (prices (e.bookOf i sd).chain).Sublist
        (prices ((e.matched j sd'.opp r.1 r.2.1).bookOf i sd).chain) :=
      prices_exchange (b := { head := (e.bookOf j sd'.opp).head, next := r.2.1 }) rfl
        (by rw [hprices]) bookOf_matched i sd
    split
    · exact hmatched.trans (prices_booked ..)
    · exact hmatched
  | cancel orderId inputTime =>
    rcases hs : e.orders orderId with _ | order
    · simp only [exec, HashMap.get, hs]
      exact List.Sublist.refl _
    · simp only [exec, HashMap.get, hs]
      exact prices_exchange (by rfl) (by rw [prices_cancelOrder]) bookOf_cancelled i sd

end Engine

end Prices

/-! ## Every run -/

variable {I : Type} [DecidableEq I]

/-- What holds of the order book of an instrument between commands.  The nodes after a head stand in
    the strict order of their prices, so none of them comes up twice. -/
structure OrderBook.Ok (heap : Heap UInt32 I) (ob : OrderBook UInt32) : Prop where
  descending : ob.buyBook.next.Pairwise fun n n' => n'.price < n.price
  ascending : ob.sellBook.next.Pairwise fun n n' => n.price < n'.price
  order : ∀ sd, ∀ n ∈ (ob.book sd).chain, ∀ p ∈ n.orders,
    (heap p).price = n.price ∧ (heap p).type = sideType sd ∧ 0 < (heap p).count
  byTime : ∀ sd, ∀ n ∈ (ob.book sd).chain,
    n.orders.Pairwise fun p p' => (heap p').inputTime ≤ (heap p).inputTime
  volume : ∀ sd, ∀ n ∈ (ob.book sd).chain,
    n.volume.toNat = (n.orders.map fun p => (heap p).count.toNat).sum % 2 ^ 32
  ids : (((ob.buyBook.chain ++ ob.sellBook.chain).flatMap OrderNode.orders).map
    fun p => (heap p).orderId).Nodup

namespace Engine

variable {used : UInt32 → Prop} {e : Engine UInt32 I}

structure Sound (used : UInt32 → Prop) (e : Engine UInt32 I) : Prop where
  ptr : e.PtrInv used
  shaped : e.view.Shaped
  volumes : e.VolumesExact

theorem sound_init (used : UInt32 → Prop) (heap : Heap UInt32 I) :
    (init heap : Engine UInt32 I).Sound used := by
  refine ⟨ptrInv_init used heap, ?_, volumesExact_init heap⟩
  rw [view_init]
  exact Books.shaped_init

theorem Sound.exec (h : e.Sound used) {c : Command UInt32 I}
    (hfresh : ∀ id, newId c = some id → ¬ used id) :
    (e.exec c).1.Sound (fun id => used id ∨ newId c = some id) := by
  rcases exec_view h.ptr c hfresh with ⟨hview, -, hptr⟩
  refine ⟨hptr, ?_, exec_volumes h.ptr h.volumes c⟩
  rw [hview]
  exact h.shaped.exec c

theorem Sound.run (h : e.Sound used) {cs : List (Command UInt32 I)}
    (hids : (cs.filterMap newId).Nodup) (hfresh : ∀ id ∈ cs.filterMap newId, ¬ used id) :
    (e.run cs).1.Sound (fun id => used id ∨ id ∈ cs.filterMap newId) := by
  induction cs generalizing e used with
  | nil => exact ⟨h.ptr.mono fun _ => Or.inl, h.shaped, h.volumes⟩
  | cons c cs ih =>
    have hstep := h.exec (c := c) fun id hid => hfresh id (mem_newIds_head hid)
    have hrun := ih hstep (newIds_tail hids) (newIds_tail_fresh hids hfresh)
    refine ⟨hrun.ptr.mono ?_, hrun.shaped, hrun.volumes⟩
    rintro id ((hu | hc) | hcs)
    · exact Or.inl hu
    · exact Or.inr (mem_newIds_head hc)
    · exact Or.inr ((List.sublist_cons_self c cs).filterMap newId |>.subset hcs)

theorem sound_run {cs : List (Command UInt32 I)} (hids : (cs.filterMap newId).Nodup)
    (heap : Heap UInt32 I) :
    ((init heap).run cs).1.Sound (fun id => id ∈ cs.filterMap newId) := by
  have h := (sound_init (fun _ => False) heap).run hids fun _ _ h => h
  exact ⟨h.ptr.mono fun _ hid => hid.resolve_left id, h.shaped, h.volumes⟩

theorem run_append_fst {N : Type} [Quantity N] (e : Engine N I) (cs cs' : List (Command N I)) :
    (e.run (cs ++ cs')).1 = ((e.run cs).1.run cs').1 := by
  induction cs generalizing e with
  | nil => rfl
  | cons c cs ih => exact ih (e.exec c).1

/-- The nodes of a side, head first, in the order of the levels they stand for. -/
theorem Sound.level (h : e.Sound used) {i : I} {sd : Side} {n : OrderNode UInt32}
    (hn : n ∈ (e.bookOf i sd).chain) : LevelOk sd i (n.level e.heap) := by
  rcases List.mem_cons.mp hn with rfl | hn
  · exact (h.shaped i sd).head
  · exact (h.shaped i sd).next.level _ (List.mem_map_of_mem hn)

theorem Sound.sorted (h : e.Sound used) (i : I) (sd : Side) :
    (e.bookOf i sd).next.Pairwise fun n n' => sd.Better n.price n'.price := by
  have hs : (levels e.heap (e.bookOf i sd).next).Pairwise
      fun lv lv' => sd.Better lv.price lv'.price := (h.shaped i sd).next.sorted
  rw [List.pairwise_map] at hs
  exact hs

/-- No two orders of an instrument have the same id. -/
theorem PtrInv.ids_nodup {N : Type} [Quantity N] {e : Engine N I} (h : e.PtrInv used) (i : I) :
    ((((e.bookOf i .buy).chain ++ (e.bookOf i .sell).chain).flatMap OrderNode.orders).map
      fun p => (e.heap p).orderId).Nodup := by
  rw [List.flatMap_append]
  have hrest : ∀ p, p ∈ (e.bookOf i .buy).chain.flatMap OrderNode.orders ++
      (e.bookOf i .sell).chain.flatMap OrderNode.orders → ∃ sd, e.RestsIn i sd p := by
    intro p hp
    rcases List.mem_append.mp hp with hp | hp
    · exact ⟨.buy, hp⟩
    · exact ⟨.sell, hp⟩
  apply List.Nodup.map_on
  · intro p hp p' hp' heq
    rcases hrest p hp with ⟨sd, hr⟩
    rcases hrest p' hp' with ⟨sd', hr'⟩
    have h1 := h.mapped i sd p hr
    have h2 := h.mapped i sd' p' hr'
    rw [heq, h2] at h1
    exact (Option.some.inj h1).symm
  · apply List.nodup_append.mpr
    refine ⟨h.nodup i .buy, h.nodup i .sell, ?_⟩
    rintro p hp p' hp' rfl
    have hside : (.buy : Side) = .sell := (h.place hp hp').2
    cases hside

theorem Sound.orderBook (h : e.Sound used) (i : I) :
    OrderBook.Ok e.heap (getBook e.orderBooks i) where
  descending := h.sorted i .buy
  ascending := h.sorted i .sell
  order := by
    intro sd n hn p hp
    have hok := (h.level (i := i) hn).orders (e.heap p) (List.mem_map_of_mem hp)
    exact ⟨hok.price, hok.type, pos_iff.mpr hok.count⟩
  byTime := fun sd n hn => List.pairwise_map.mp (h.level (i := i) hn).byTime
  volume := by
    intro sd n hn
    rw [← toNat_sumCounts]
    exact congrArg UInt32.toNat (h.volumes i sd n hn)
  ids := h.ptr.ids_nodup i

/-- The representation invariant holds after every run, and no node is lost on the way. -/
theorem orderBook_run {cs : List (Command UInt32 I)} (hids : (cs.filterMap newId).Nodup)
    (heap : Heap UInt32 I) (i : I) :
    OrderBook.Ok ((init heap).run cs).1.heap (getBook ((init heap).run cs).1.orderBooks i) ∧
      ∀ cs₁ c cs₂ sd, cs = cs₁ ++ c :: cs₂ →
        (prices (((init heap).run cs₁).1.bookOf i sd).chain).Sublist
          (prices (((init heap).run (cs₁ ++ [c])).1.bookOf i sd).chain) := by
  refine ⟨(sound_run hids heap).orderBook i, fun cs₁ c cs₂ sd _ => ?_⟩
  rw [run_append_fst]
  exact prices_exec _ c i sd

/-- Two sells whose counts add up to 2^32, a sell at price 0 and a buy. -/
def wrapped : List (Command UInt32 String) :=
  [.order .sell 1 "GOOG" 2700 2147483648 0, .order .sell 2 "GOOG" 2700 2147483648 1,
    .order .sell 3 "GOOG" 0 5 2, .order .buy 4 "GOOG" 2700 7 3]

theorem orderBook_run_wrapped :
    OrderBook.Ok ((init fun _ => newOrder .buy 0 "" 0 0 0).run wrapped).1.heap
        (getBook ((init fun _ => newOrder .buy 0 "" 0 0 0).run wrapped).1.orderBooks "GOOG") ∧
      ∀ cs₁ c cs₂ sd, wrapped = cs₁ ++ c :: cs₂ →
        (prices (((init fun _ => newOrder .buy 0 "" 0 0 0).run cs₁).1.bookOf "GOOG" sd).chain).Sublist
          (prices (((init fun _ => newOrder .buy 0 "" 0 0 0).run (cs₁ ++ [c])).1.bookOf
            "GOOG" sd).chain) :=
  orderBook_run (by decide) _ "GOOG"

end Engine

end MatchingEngine.Cpp
