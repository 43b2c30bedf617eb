import MatchingEngine.Cpp.Priority

/-!
# Serial runs follow the price-time rule

`Market` is the reference: per instrument and side the resting orders by id.  `Market.Step` says
what a command may do there and which lines it emits; it leaves open which of two orders with the
same price and time trades first, and the timestamp on the line of a cancel.  Every serial run of
the engine is a run of the reference.
-/

set_option linter.unusedSectionVars false

namespace MatchingEngine.Cpp

open PriceTime
open Quantity (value)

variable {N I : Type} [Quantity N] [DecidableEq I]

abbrev Market (I : Type) := I → Side → HalfBook UInt32 UInt32 ℤ

namespace Market

def empty : Market I := fun _ _ _ => none

def set (m : Market I) (i : I) (sd : Side) (b : HalfBook UInt32 UInt32 ℤ) : Market I :=
  Function.update m i (Function.update (m i) sd b)

def execLine (orderId : UInt32) (inputTime : ℤ) (e : Exec UInt32 UInt32) : Line ℕ I :=
  .executed e.restingId orderId e.execId e.price e.count inputTime

inductive Step : Market I → Command N I → List (Line ℕ I) → Market I → Prop
  | filled {m : Market I} {sd : Side} {orderId price : UInt32} {i : I} {count : N} {time : ℤ}
      {es : List (Exec UInt32 UInt32)} {b : HalfBook UInt32 UInt32 ℤ}
      (h : PriceTime.Fills sd.opp price (m i sd.opp) (value count) es b 0) :
      Step m (.order sd orderId i price count time) (es.map (execLine orderId time))
        (m.set i sd.opp b)
  | booked {m : Market I} {sd : Side} {orderId price : UInt32} {i : I} {count : N} {time : ℤ}
      {es : List (Exec UInt32 UInt32)} {b : HalfBook UInt32 UInt32 ℤ} {q : ℕ} (hq : 0 < q)
      (h : PriceTime.Fills sd.opp price (m i sd.opp) (value count) es b q) :
      Step m (.order sd orderId i price count time)
        (es.map (execLine orderId time) ++ [.added sd orderId i price q time])
        ((m.set i sd.opp b).set i sd
          (Function.update (m i sd) orderId
            (some { price, key := time, count := q, nextExec := 1 })))
  | accepted {m : Market I} {i : I} {sd : Side} {orderId : UInt32} {r : Resting UInt32 ℤ}
      {time time' : ℤ} (h : m i sd orderId = some r) :
      Step m (.cancel orderId time) [.deleted orderId true time']
        (m.set i sd (Function.update (m i sd) orderId none))
  | rejected {m : Market I} {orderId : UInt32} {time time' : ℤ}
      (h : ∀ i sd, m i sd orderId = none) :
      Step m (.cancel orderId time) [.deleted orderId false time'] m

inductive Run : Market I → List (Command N I) → List (Line ℕ I) → Market I → Prop
  | nil {m : Market I} : Run m [] [] m
  | cons {m m' m'' : Market I} {c : Command N I} {cs : List (Command N I)}
      {out outs : List (Line ℕ I)} (hstep : Step m c out m') (hrun : Run m' cs outs m'') :
      Run m (c :: cs) (out ++ outs) m''

theorem set_apply (m : Market I) (i j : I) (sd sd' : Side) (b : HalfBook UInt32 UInt32 ℤ) :
    m.set i sd b j sd' = if j = i ∧ sd' = sd then b else m j sd' := by
  unfold set
  by_cases hj : j = i
  · subst hj
    rw [Function.update_self]
    by_cases hsd : sd' = sd
    · subst hsd
      rw [Function.update_self, if_pos ⟨rfl, rfl⟩]
    · rw [Function.update_of_ne hsd, if_neg fun h => hsd h.2]
  · rw [Function.update_of_ne hj, if_neg fun h => hj h.1]

theorem set_eq_self (m : Market I) (i : I) (sd : Side) : m.set i sd (m i sd) = m := by
  unfold set
  rw [Function.update_eq_self, Function.update_eq_self]

end Market

def Priced : Command N I → Prop
  | .order _ _ _ price _ _ => 1 ≤ price
  | .cancel _ _ => True

instance (c : Command N I) : Decidable (Priced c) :=
  match c with
  | .order _ _ _ price _ _ => inferInstanceAs (Decidable (1 ≤ price))
  | .cancel _ _ => .isTrue trivial

/-- Ids of new orders are not reused and no price is 0. -/
structure WellFormed (cs : List (Command N I)) : Prop where
  ids : (cs.filterMap newId).Nodup
  priced : ∀ c ∈ cs, Priced c

/-- Every side is in order, and the head sentinels hold nothing. -/
def Books.SidesOk (b : Books N I) : Prop :=
  ∀ i sd, (b.side i sd).1 = { price := 0, orders := [] } ∧ SideOk sd i (b.side i sd).2

theorem Books.sidesOk_init : (Books.init : Books N I).SidesOk :=
  fun i sd => ⟨rfl, SideOk.nil sd i⟩

theorem Books.SidesOk.set {b : Books N I} (h : b.SidesOk) {i : I} {sd : Side}
    {lvs : List (Level N I)} (hok : SideOk sd i lvs) (known) :
    Books.SidesOk { side := Books.set b.side i sd ((b.side i sd).1, lvs), known } := by
  intro j sd'
  show (Books.set _ _ _ _ j sd').1 = _ ∧ SideOk sd' j (Books.set _ _ _ _ j sd').2
  rw [Books.set_apply]
  split
  next heq =>
    rw [heq.1, heq.2]
    exact ⟨(h i sd).1, hok⟩
  · exact h j sd'

theorem price_ne_zero {price : UInt32} (h : 1 ≤ price) : price ≠ 0 := by
  rintro rfl
  exact absurd h (by decide)

theorem orderOk_new {sd : Side} {orderId price : UInt32} {i : I} {count q : N} {time : ℤ}
    (hq : 0 < q) : OrderOk sd i price { newOrder sd orderId i price count time with count := q } :=
  ⟨rfl, rfl, rfl, pos_iff.mp hq, q, by
    show value 1 + value q ≤ value q + 1
    rw [Quantity.value_one, Nat.add_comm]⟩

/-- A new order after the matching phase, in the form the two phases of `exec` are proved with. -/
theorem Books.exec_order (b : Books N I) (sd : Side) (orderId : UInt32) (i : I) (price : UInt32)
    (count : N) (time : ℤ) {r : List (Level N I) × Order N I × List (Line N I)}
    (hr : r = matchLevels sd.opp (newOrder sd orderId i price count time) (b.side i sd.opp).2) :
    b.exec (.order sd orderId i price count time) =
      if 0 < r.2.1.count then
        ({ side := Books.set (Books.set b.side i sd.opp ((b.side i sd.opp).1, r.1)) i sd
             (addLevels sd r.2.1 (b.side i sd).1 (b.side i sd).2)
           known := b.known.put orderId r.2.1.header }, r.2.2 ++ [addLine sd r.2.1])
      else ({ b with side := Books.set b.side i sd.opp ((b.side i sd.opp).1, r.1) }, r.2.2) := by
  subst hr
  rfl

/-- One command keeps every side in order. -/
theorem Books.SidesOk.exec {b : Books N I} (h : b.SidesOk) {c : Command N I} (hc : Priced c) :
    (b.exec c).1.SidesOk := by
  cases c with
  | order sd orderId i price count time =>
    let o := newOrder sd orderId i price count time
    obtain ⟨r, hr⟩ : ∃ r, r = matchLevels sd.opp o (b.side i sd.opp).2 := ⟨_, rfl⟩
    have hleft : SideOk sd.opp i r.1 := by
      rw [hr]
      exact (h i sd.opp).2.left (matchLevels_left ..)
    have hinc : r.2.1 = { o with count := r.2.1.count } := by
      rw [hr]
      exact matchLevels_incoming ..
    have hmatched := h.set hleft b.known
    rw [Books.exec_order b sd orderId i price count time hr]
    split
    next hpos =>
      have hok : OrderOk sd i r.2.1.price r.2.1 := by
        rw [hinc]
        exact orderOk_new hpos
      have hne : r.2.1.price ≠ (b.side i sd).1.price := by
        rw [hinc, (h i sd).1]
        exact price_ne_zero hc
      have hadd := addLevels_ok _ (h i sd).2 hok hne
      have hown : (Books.set b.side i sd.opp ((b.side i sd.opp).1, r.1) i sd) = b.side i sd := by
        rw [Books.set_apply, if_neg fun h => absurd h.2 (Side.ne_opp sd)]
      have hres := hmatched.set hadd.2.1 (b.known.put orderId r.2.1.header)
      dsimp only at hres
      rw [hown] at hres
      rw [show addLevels sd r.2.1 (b.side i sd).1 (b.side i sd).2 =
        ((b.side i sd).1, (addLevels sd r.2.1 (b.side i sd).1 (b.side i sd).2).2) from
        Prod.ext hadd.1 rfl]
      exact hres
    · exact hmatched
  | cancel orderId time =>
    rcases hk : b.known orderId with _ | ⟨type, id, price, i, time'⟩
    · simp only [Books.exec, hk]
      exact h
    · simp only [Books.exec, hk]
      exact h.set (cancelLevels_ok (h i _).2 id price) _

/-- The resting orders of one state. -/
def Books.resting (b : Books N I) : Market I := fun i sd => Ladder.book (ladder (b.side i sd).2)

theorem Books.resting_set (side : I → Side → Half N I) (i : I) (sd : Side) (h : Half N I)
    (known known') :
    Books.resting { side := Books.set side i sd h, known } =
      (Books.resting { side, known := known' }).set i sd (Ladder.book (ladder h.2)) := by
  funext j sd'
  rw [Market.set_apply]
  unfold resting
  dsimp only
  rw [Books.set_apply]
  split <;> rfl

namespace Engine

variable {used : UInt32 → Prop} {e : Engine N I}

/-- The engine between commands. -/
structure Tidy (used : UInt32 → Prop) (e : Engine N I) : Prop where
  ptr : e.PtrInv used
  sides : e.view.SidesOk

/-- The resting orders of an engine. -/
def resting (e : Engine N I) : Market I := e.view.resting

theorem tidy_init (used : UInt32 → Prop) (heap : Heap N I) : (init heap : Engine N I).Tidy used :=
  ⟨ptrInv_init used heap, by
    rw [view_init]
    exact Books.sidesOk_init⟩

theorem resting_init (heap : Heap N I) : (init heap : Engine N I).resting = Market.empty := by
  rw [resting, view_init]
  rfl

/-- The ladder of some nodes lists the orders behind their pointers. -/
theorem ladder_perm (heap : Heap N I) (ns : List (OrderNode N)) :
    (ladder (levels heap ns)).Perm
      ((ns.flatMap OrderNode.orders).map fun p => (heap p).entry) := by
  induction ns with
  | nil => exact .refl _
  | cons n ns ih =>
    rw [levels, List.map_cons, ladder, List.flatMap_cons, List.flatMap_cons, List.map_append]
    refine .append ?_ ih
    refine ((List.reverse_perm _).map Order.entry).trans ?_
    rw [OrderNode.level, List.map_map]
    exact .refl _

theorem ladder_ids_perm (heap : Heap N I) (ns : List (OrderNode N)) :
    ((ladder (levels heap ns)).map Prod.fst).Perm
      ((ns.flatMap OrderNode.orders).map fun p => (heap p).orderId) := by
  have h := (ladder_perm heap ns).map Prod.fst
  rw [List.map_map] at h
  exact h

/-- On one side no two resting orders have the same id. -/
theorem PtrInv.ladder_ids (h : e.PtrInv used) (i : I) (sd : Side) :
    ((ladder (e.view.side i sd).2).map Prod.fst).Nodup := by
  refine (ladder_ids_perm e.heap (e.bookOf i sd).next).nodup_iff.mpr ?_
  have hsub : ∀ p ∈ (e.bookOf i sd).next.flatMap OrderNode.orders, e.RestsIn i sd p :=
    fun p hp => List.mem_append_right _ hp
  have hnd := h.nodup i sd
  rw [Book.chain, List.flatMap_cons] at hnd
  refine List.Nodup.map_on (fun p hp p' hp' heq => ?_) (List.nodup_append.mp hnd).2.1
  have h1 := h.mapped i sd p (hsub p hp)
  have h2 := h.mapped i sd p' (hsub p' hp')
  rw [heq, h2] at h1
  exact (Option.some.inj h1).symm

theorem Tidy.sorted (h : e.Tidy used) (i : I) (sd : Side) :
    (ladder (e.view.side i sd).2).Sorted sd :=
  ladder_sorted (h.sides i sd).2 (h.ptr.ladder_ids i sd)

theorem eq_side {sd : Side} {t : InputType} (h : sideType sd = t) :
    sd = if t = .buy then .buy else .sell := by
  subst h
  cases sd <;> rfl

theorem PtrInv.known_id (h : e.PtrInv used) {id id' : UInt32} {t : InputType}
    {y : UInt32 × I × ℤ} (hk : e.view.known id = some (t, id', y)) : id' = id := by
  rcases Option.map_eq_some_iff.mp hk with ⟨p, hp, heq⟩
  have hid := (h.known id p hp).1
  cases heq
  exact hid

/-- The map knows every resting order. -/
theorem Tidy.known (h : e.Tidy used) {i : I} {sd : Side} {x : UInt32 × Resting UInt32 ℤ}
    (hx : x ∈ ladder (e.view.side i sd).2) :
    e.view.known x.1 = some (sideType sd, x.1, x.2.price, i, x.2.key) := by
  rcases mem_ladder.mp hx with ⟨lv, hlv, r, hr, rfl⟩
  have hok := ((h.sides i sd).2.level lv hlv).orders r hr
  rcases List.mem_map.mp hlv with ⟨n, hn, rfl⟩
  rcases List.mem_map.mp hr with ⟨p, hp, rfl⟩
  have hrest : e.RestsIn i sd p :=
    List.mem_append_right _ (List.mem_flatMap.mpr ⟨n, hn, hp⟩)
  show Option.map _ (e.orders (e.heap p).orderId) = _
  rw [h.ptr.mapped i sd p hrest, Option.map_some, Order.header, hok.type, hok.instrument]
  rfl

/-- One command of the engine is a step of the reference. -/
theorem exec_refines (h : e.Tidy used) {c : Command N I}
    (hfresh : ∀ id, newId c = some id → ¬ used id)
    (hc : Priced c) :
    Market.Step e.resting c ((e.exec c).2.map Line.toNat) (e.exec c).1.resting ∧
      (e.exec c).1.Tidy (fun id => used id ∨ newId c = some id) := by
  rcases exec_view h.ptr c hfresh with ⟨hview, hout, hptr⟩
  have htidy : (e.exec c).1.Tidy (fun id => used id ∨ newId c = some id) := by
    refine ⟨hptr, ?_⟩
    rw [hview]
    exact h.sides.exec hc
  refine ⟨?_, htidy⟩
  have hsorted := htidy.sorted
  unfold resting
  rw [hview] at hsorted ⊢
  rw [hout]
  cases c with
  | order sd orderId i price count time =>
    let o := newOrder sd orderId i price count time
    obtain ⟨r, hr⟩ : ∃ r, r = matchLevels sd.opp o (e.view.side i sd.opp).2 := ⟨_, rfl⟩
    rcases matchLevels_ladder (h.sides i sd.opp).2 o with ⟨es, hes, hlines⟩
    have hfills := Ladder.fill_fills o.price (value o.count) (h.sorted i sd.opp)
    rw [← hr] at hes hlines
    rw [hes] at hfills
    have hinc : r.2.1 = { o with count := r.2.1.count } := by
      rw [hr]
      exact matchLevels_incoming ..
    rw [Books.exec_order _ sd orderId i price count time hr] at hsorted ⊢
    by_cases hpos : 0 < r.2.1.count
    · rw [if_pos hpos] at hsorted ⊢
      have hne : r.2.1.price ≠ (e.view.side i sd).1.price := by
        rw [hinc, (h.sides i sd).1]
        exact price_ne_zero hc
      have hnew := hsorted i sd
      dsimp only at hnew
      rw [Books.set_self] at hnew
      have hbook := Ladder.book_insert (h.sorted i sd) hnew fun x => mem_addLevels hne
      have hline : Line.toNat (addLine sd r.2.1) =
          .added sd orderId i price (value r.2.1.count) time := by
        rw [hinc]
        rfl
      have hnext : value r.2.1.executionId = 1 := by
        rw [hinc]
        exact Quantity.value_one
      have hbooked : Market.Step e.view.resting (.order sd orderId i price count time) _ _ :=
        .booked (pos_iff.mp hpos) hfills
      rw [Books.resting_set _ _ _ _ _ e.view.known, Books.resting_set _ _ _ _ _ e.view.known,
        List.map_append, hlines, List.map_singleton, hline, hbook, hnext, hinc]
      exact hbooked
    · rw [if_neg hpos]
      have hz : value r.2.1.count = 0 := by
        rw [pos_iff] at hpos
        omega
      rw [hz] at hfills
      rw [Books.resting_set _ _ _ _ _ e.view.known, hlines]
      exact .filled hfills
  | cancel orderId time =>
    rcases hk : e.view.known orderId with _ | ⟨type, id, price, i, time'⟩
    · simp only [Books.exec, hk]
      refine .rejected fun i sd => Ladder.book_eq_none fun x hx heq => ?_
      have hx' := h.known hx
      rw [heq, hk] at hx'
      cases hx'
    · have hid : id = orderId := h.ptr.known_id hk
      subst hid
      let sd : Side := if type = .buy then .buy else .sell
      have hplace : ∀ j sd', ∀ x ∈ ladder (e.view.side j sd').2, x.1 = id →
          sd' = sd ∧ x.2.price = price ∧ j = i := by
        intro j sd' x hx heq
        have hx' := h.known hx
        rw [heq, hk] at hx'
        injection hx' with hx'
        simp only [Prod.mk.injEq] at hx'
        exact ⟨eq_side hx'.1.symm, hx'.2.2.1.symm, hx'.2.2.2.1.symm⟩
      have hprice : ∀ x ∈ ladder (e.view.side i sd).2, x.1 = id → x.2.price = price :=
        fun x hx heq => (hplace i sd x hx heq).2.1
      have hcancel := cancelLevels_ladder (h.sides i sd).2 (h.ptr.ladder_ids i sd) hprice
      have hnew := hsorted i sd
      simp only [Books.exec, hk] at hnew ⊢
      rw [Books.set_self] at hnew
      have hbook := Ladder.book_erase (h.sorted i sd) hnew hcancel.2
      rw [Books.resting_set _ _ _ _ _ e.view.known, hbook]
      by_cases hfound : (cancelLevels id price (e.view.side i sd).2).2 = true
      · rcases hcancel.1.mp hfound with ⟨⟨id', r⟩, hx, rfl⟩
        rw [hfound]
        exact .accepted (Ladder.book_of_mem (h.sorted i sd) hx)
      · have hnone : ∀ j sd', e.view.resting j sd' id = none := by
          refine fun j sd' => Ladder.book_eq_none fun x hx heq => hfound (hcancel.1.mpr ?_)
          rcases hplace j sd' x hx heq with ⟨rfl, -, rfl⟩
          exact ⟨x, hx, heq⟩
        rw [Bool.not_eq_true] at hfound
        rw [hfound, ← hnone i sd]
        show Market.Step _ _ _ (Market.set _ i sd (Function.update (e.view.resting i sd) id _))
        rw [Function.update_eq_self, Market.set_eq_self]
        exact .rejected hnone

theorem mem_newIds_head {c : Command N I} {cs : List (Command N I)} {id : UInt32}
    (h : newId c = some id) : id ∈ (c :: cs).filterMap newId :=
  List.mem_filterMap.mpr ⟨c, List.mem_cons_self, h⟩

theorem newIds_tail {c : Command N I} {cs : List (Command N I)}
    (h : ((c :: cs).filterMap newId).Nodup) : (cs.filterMap newId).Nodup :=
  h.sublist (List.Sublist.filterMap newId (List.sublist_cons_self c cs))

theorem newIds_tail_fresh {c : Command N I} {cs : List (Command N I)}
    (h : ((c :: cs).filterMap newId).Nodup) (hfresh : ∀ id ∈ (c :: cs).filterMap newId, ¬ used id) :
    ∀ id ∈ cs.filterMap newId, ¬ (used id ∨ newId c = some id) := by
  rintro id hid (hused | hnew)
  · rcases List.mem_filterMap.mp hid with ⟨c', hc', hid'⟩
    exact hfresh id (List.mem_filterMap.mpr ⟨c', List.mem_cons_of_mem _ hc', hid'⟩) hused
  · rw [List.filterMap_cons, hnew] at h
    exact (List.nodup_cons.mp h).1 hid

/-- A run of well formed commands is a run of the reference. -/
theorem run_refines_of_tidy {cs : List (Command N I)} (h : e.Tidy used)
    (hids : (cs.filterMap newId).Nodup) (hfresh : ∀ id ∈ cs.filterMap newId, ¬ used id)
    (hc : ∀ c ∈ cs, Priced c) :
    Market.Run e.resting cs ((e.run cs).2.map Line.toNat) (e.run cs).1.resting := by
  induction cs generalizing e used with
  | nil => exact .nil
  | cons c cs ih =>
    have hstep := exec_refines h (fun id hid => hfresh id (mem_newIds_head hid))
      (hc c List.mem_cons_self)
    have hrun := ih hstep.2 (newIds_tail hids) (newIds_tail_fresh hids hfresh)
      fun c' hc' => hc c' (List.mem_cons_of_mem _ hc')
    rw [run, List.map_append]
    exact .cons hstep.1 hrun

/-- Serial runs refine the reference book. -/
theorem run_refines {cs : List (Command UInt32 I)} (h : WellFormed cs) (heap : Heap UInt32 I) :
    Market.Run Market.empty cs (((init heap).run cs).2.map Line.toNat)
      ((init heap).run cs).1.resting := by
  have hrun := run_refines_of_tidy (tidy_init (fun _ => False) heap) h.ids (fun _ _ h => h) h.priced
  rwa [resting_init] at hrun

/-- A resting order is hit in part, then in full by an order that books its remainder, and a late
    cancel of it is rejected. -/
def lateCancel : List (Command UInt32 String) :=
  [.order .sell 1 "GOOG" 2700 10 0, .order .buy 2 "GOOG" 2705 4 1, .order .buy 3 "GOOG" 2710 8 2,
    .cancel 1 3]

theorem run_refines_lateCancel :
    Market.Run Market.empty lateCancel
      (((init fun _ => newOrder .buy 0 "" 0 0 0).run lateCancel).2.map Line.toNat)
      ((init fun _ => newOrder .buy 0 "" 0 0 0).run lateCancel).1.resting :=
  run_refines (show WellFormed lateCancel from ⟨by decide, by decide⟩) _

end Engine

end MatchingEngine.Cpp
