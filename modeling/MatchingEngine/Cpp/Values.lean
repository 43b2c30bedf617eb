import MatchingEngine.Cpp.Sides

/-!
# The engine on values

`Books` is what an engine holds once pointers are read through: for each instrument and side the
levels, head first, and for each id in `Engine::orders` the fixed fields of the order behind it.
While order ids are not reused, no pointer is shared between two places (`PtrInv`), and every
command acts on the engine as `Books.exec` acts on its values (`exec_view`).
-/

set_option linter.unusedSectionVars false

namespace MatchingEngine.Cpp

variable {N I : Type} [Quantity N] [DecidableEq I]

/-- The id a new order brings. -/
def newId : Command N I → Option UInt32
  | .order _ orderId _ _ _ _ => some orderId
  | .cancel _ _ => none

def newOrder (sd : Side) (orderId : UInt32) (instrument : I) (price : UInt32) (count : N)
    (inputTime : ℤ) : Order N I :=
  { type := sideType sd, orderId, price, count, instrument, inputTime, executionId := 1 }

/-- The levels of one side: the head sentinel's and those after it. -/
abbrev Half (N I : Type) := Level N I × List (Level N I)

def Half.empty : Half N I := ({ price := 0, orders := [] }, [])

structure Books (N I : Type) where
  side : I → Side → Half N I
  known : HashMap UInt32 (InputType × UInt32 × UInt32 × I × ℤ)

namespace Books

def init : Books N I := { side := fun _ _ => Half.empty, known := fun _ => none }

def set (side : I → Side → Half N I) (i : I) (sd : Side) (h : Half N I) : I → Side → Half N I :=
  Function.update side i (Function.update (side i) sd h)

def exec (b : Books N I) : Command N I → Books N I × List (Line N I)
  | .order sd orderId i price count inputTime =>
    let o := newOrder sd orderId i price count inputTime
    let (next, o', out) := matchLevels sd.opp o (b.side i sd.opp).2
    let side := set b.side i sd.opp ((b.side i sd.opp).1, next)
    if 0 < o'.count then
      ({ side := set side i sd (addLevels sd o' (b.side i sd).1 (b.side i sd).2)
         known := b.known.put orderId o'.header }, out ++ [addLine sd o'])
    else ({ b with side }, out)
  | .cancel orderId inputTime =>
    match b.known orderId with
    | none => (b, [.deleted orderId false inputTime])
    | some (type, id, price, i, time) =>
      let sd : Side := if type = .buy then .buy else .sell
      let (next, found) := cancelLevels id price (b.side i sd).2
      ({ side := set b.side i sd ((b.side i sd).1, next)
         known := if found then b.known.remove id else b.known }, [.deleted id found time])

/-- Commands one after the other, with the lines of each. -/
def run (b : Books N I) : List (Command N I) → Books N I × List (List (Line N I))
  | [] => (b, [])
  | c :: cs =>
    let (b', out) := b.exec c
    let (b'', outs) := b'.run cs
    (b'', out :: outs)

theorem set_apply (side : I → Side → Half N I) (i j : I) (sd sd' : Side) (h : Half N I) :
    set side i sd h j sd' = if j = i ∧ sd' = sd then h else side j sd' := by
  unfold set
  by_cases hj : j = i
  · subst hj
    rw [Function.update_self]
    by_cases hsd : sd' = sd
    · subst hsd
      rw [Function.update_self, if_pos ⟨rfl, rfl⟩]
    · rw [Function.update_of_ne hsd, if_neg fun h => hsd h.2]
  · rw [Function.update_of_ne hj, if_neg fun h => hj h.1]

@[simp] theorem set_self (side : I → Side → Half N I) (i : I) (sd : Side) (h : Half N I) :
    set side i sd h i sd = h := by
  rw [set_apply, if_pos ⟨rfl, rfl⟩]

@[simp] theorem set_eq_self (side : I → Side → Half N I) (i : I) (sd : Side) :
    set side i sd (side i sd) = side := by
  unfold set
  rw [Function.update_eq_self, Function.update_eq_self]

end Books

/-- The head sentinel and the nodes after it. -/
def Book.chain (b : Book N) : List (OrderNode N) := b.head :: b.next

def Book.half (heap : Heap N I) (b : Book N) : Half N I := (b.head.level heap, levels heap b.next)

namespace Engine

def bookOf (e : Engine N I) (i : I) (sd : Side) : Book N := (getBook e.orderBooks i).book sd

def view (e : Engine N I) : Books N I where
  side := fun i sd => (e.bookOf i sd).half e.heap
  known := fun id => (e.orders id).map fun p => (e.heap p).header

/-- The order behind `p` stands in the book of instrument `i`, on side `sd`. -/
def RestsIn (e : Engine N I) (i : I) (sd : Side) (p : OrderPtr) : Prop :=
  p ∈ (e.bookOf i sd).chain.flatMap OrderNode.orders

/-- Every pointer stands in one place, fits that place, and is found under its order's id. -/
structure PtrInv (used : UInt32 → Prop) (e : Engine N I) : Prop where
  nodup : ∀ i sd, ((e.bookOf i sd).chain.flatMap OrderNode.orders).Nodup
  type : ∀ i sd p, e.RestsIn i sd p → (e.heap p).type = sideType sd
  instrument : ∀ i sd p, e.RestsIn i sd p → (e.heap p).instrument = i
  mapped : ∀ i sd p, e.RestsIn i sd p → e.orders (e.heap p).orderId = some p
  known : ∀ id p, e.orders id = some p → (e.heap p).orderId = id ∧ p < e.nextPtr ∧ used id

theorem PtrInv.place {used : UInt32 → Prop} {e : Engine N I} (h : e.PtrInv used) {i j : I}
    {sd sd' : Side} {p : OrderPtr} (hp : e.RestsIn i sd p) (hp' : e.RestsIn j sd' p) :
    i = j ∧ sd = sd' := by
  have ht := (h.type i sd p hp).symm.trans (h.type j sd' p hp')
  refine ⟨(h.instrument i sd p hp).symm.trans (h.instrument j sd' p hp'), ?_⟩
  cases sd <;> cases sd' <;> first | rfl | exact absurd ht (by decide)

theorem PtrInv.lt {used : UInt32 → Prop} {e : Engine N I} (h : e.PtrInv used) {i : I}
    {sd : Side} {p : OrderPtr} (hp : e.RestsIn i sd p) : p < e.nextPtr :=
  (h.known _ _ (h.mapped i sd p hp)).2.1

theorem PtrInv.mono {used used' : UInt32 → Prop} {e : Engine N I} (h : e.PtrInv used)
    (hu : ∀ id, used id → used' id) : e.PtrInv used' := by
  refine ⟨h.nodup, h.type, h.instrument, h.mapped, fun id p hs => ?_⟩
  rcases h.known id p hs with ⟨h1, h2, h3⟩
  exact ⟨h1, h2, hu id h3⟩

@[simp] theorem bookOf_init (heap : Heap N I) (i : I) (sd : Side) :
    (init heap : Engine N I).bookOf i sd = Book.empty :=
  OrderBook.book_empty sd

theorem view_init (heap : Heap N I) : (init heap : Engine N I).view = Books.init := by
  simp only [view, bookOf_init]
  rfl

theorem ptrInv_init (used : UInt32 → Prop) (heap : Heap N I) :
    (init heap : Engine N I).PtrInv used := by
  have hno : ∀ i sd p, ¬ (init heap : Engine N I).RestsIn i sd p := by
    intro i sd p hp
    rw [RestsIn, bookOf_init] at hp
    cases hp
  refine ⟨fun i sd => ?_, fun i sd p hp => absurd hp (hno i sd p),
    fun i sd p hp => absurd hp (hno i sd p), fun i sd p hp => absurd hp (hno i sd p), ?_⟩
  · rw [bookOf_init]
    exact List.nodup_nil
  · intro id p h
    cases h

end Engine

/-! ## Where the pointers go -/

theorem insertByTime_perm (heap : Heap N I) (order : OrderPtr) (its : List OrderPtr) :
    (insertByTime heap order its).Perm (order :: its) := by
  induction its with
  | nil => exact .refl _
  | cons it its ih =>
    rw [insertByTime]
    split
    · exact .refl _
    · exact (ih.cons it).trans (.swap order it its)

theorem insertOrder_perm (heap : Heap N I) (order : OrderPtr) (curr : OrderNode N)
    (rest : List OrderPtr) :
    ((insertOrder heap order curr).orders ++ rest).Perm (order :: (curr.orders ++ rest)) :=
  (insertByTime_perm heap order curr.orders).append_right rest

theorem place_perm (heap : Heap N I) (order : OrderPtr) (curr : OrderNode N)
    (next : List (OrderNode N)) :
    (((place heap order curr next).1 :: (place heap order curr next).2).flatMap
      OrderNode.orders).Perm (order :: (curr :: next).flatMap OrderNode.orders) := by
  unfold place
  split
  · have h := insertOrder_perm heap order (OrderNode.new (heap order).price : OrderNode N)
      (next.flatMap OrderNode.orders)
    exact (h.append_left curr.orders).trans List.perm_middle
  · exact insertOrder_perm heap order curr _

/-- Booking adds the one pointer and moves no other. -/
theorem addWalk_perm (sd : Side) (heap : Heap N I) (order : OrderPtr) (curr : OrderNode N)
    (next : List (OrderNode N)) :
    (((addWalk sd heap order curr next).1 :: (addWalk sd heap order curr next).2).flatMap
      OrderNode.orders).Perm (order :: (curr :: next).flatMap OrderNode.orders) := by
  induction next generalizing curr with
  | nil => exact place_perm heap order curr []
  | cons n next ih =>
    rw [addWalk]
    split
    · exact place_perm heap order curr (n :: next)
    · split
      · have h := insertOrder_perm heap order n (next.flatMap OrderNode.orders)
        exact (h.append_left curr.orders).trans List.perm_middle
      · exact ((ih n).append_left curr.orders).trans List.perm_middle

theorem eraseP_eq_erase {its : List OrderPtr} {order : OrderPtr} {f : OrderPtr → Bool}
    (h : ∀ it ∈ its, f it = true ↔ it = order) : its.eraseP f = its.erase order := by
  induction its with
  | nil => rfl
  | cons it its ih =>
    have hits := ih fun it' h' => h it' (List.mem_cons_of_mem _ h')
    by_cases hit : it = order
    · rw [List.eraseP_cons_of_pos ((h it List.mem_cons_self).mpr hit), hit, List.erase_cons_head]
    · rw [List.eraseP_cons_of_neg (fun hf => hit ((h it List.mem_cons_self).mp hf)),
        List.erase_cons_tail (by simpa using hit), hits]

/-- An accepted cancel takes exactly the pointer it was given, if no other has its id. -/
theorem cancelOrder_orders (order : OrderPtr) (w : World N I) {ns : List (OrderNode N)}
    (hnd : (ns.flatMap OrderNode.orders).Nodup)
    (hid : ∀ p ∈ ns.flatMap OrderNode.orders,
      (w.heap p).orderId = (w.heap order).orderId → p = order)
    {found : Bool}
    (hfound : (cancelLevels (w.heap order).orderId (w.heap order).price (levels w.heap ns)).2 =
      found) :
    (found = true → order ∈ ns.flatMap OrderNode.orders) ∧
      (cancelOrder order w ns).2.1.flatMap OrderNode.orders =
        if found then (ns.flatMap OrderNode.orders).erase order
        else ns.flatMap OrderNode.orders := by
  induction ns with
  | nil =>
    subst hfound
    exact ⟨fun h => Bool.noConfusion h, rfl⟩
  | cons curr next ih =>
    rw [List.flatMap_cons, List.nodup_append] at hnd
    rcases hnd with ⟨hcurr, hnext, hdisj⟩
    have hidc : ∀ it ∈ curr.orders, (w.heap it).orderId = (w.heap order).orderId → it = order :=
      fun it h => hid it (List.mem_append_left _ h)
    have hidn : ∀ p ∈ next.flatMap OrderNode.orders,
        (w.heap p).orderId = (w.heap order).orderId → p = order :=
      fun p h => hid p (List.mem_append_right _ h)
    rw [levels, List.map_cons, cancelLevels] at hfound
    rw [cancelOrder]
    by_cases hp : curr.price ≠ (w.heap order).price
    · rw [if_pos (show (curr.level w.heap).price ≠ _ from hp)] at hfound
      rcases ih hnext hidn hfound with ⟨hmem, hih⟩
      rw [if_pos hp]
      refine ⟨fun hf => List.mem_append_right _ (hmem hf), ?_⟩
      change curr.orders ++ (cancelOrder order w next).2.1.flatMap OrderNode.orders = _
      rw [hih, List.flatMap_cons]
      split
      next hf =>
        rw [List.erase_append_right _ fun h' => hdisj _ h' _ (hmem hf) rfl]
      · rfl
    · rw [if_neg (show ¬ (curr.level w.heap).price ≠ _ from hp), OrderNode.level,
        List.any_map] at hfound
      rw [if_neg hp]
      by_cases hf : curr.orders.any
          (fun it => decide ((w.heap it).orderId = (w.heap order).orderId)) = true
      · rw [if_pos (show List.any _ (_ ∘ _) = true from hf)] at hfound
        subst hfound
        rcases List.any_eq_true.mp hf with ⟨it, hit, hitid⟩
        have hito : it = order := hidc it hit (of_decide_eq_true hitid)
        subst hito
        rw [if_pos hf, if_pos rfl]
        refine ⟨fun _ => List.mem_append_left _ hit, ?_⟩
        change curr.orders.eraseP _ ++ _ = (curr.orders ++ next.flatMap OrderNode.orders).erase it
        rw [List.erase_append_left _ hit, eraseP_eq_erase fun it' h' =>
          ⟨fun h => hidc it' h' (of_decide_eq_true h), fun h => decide_eq_true (h ▸ rfl)⟩]
        rfl
      · rw [if_neg (show ¬ List.any _ (_ ∘ _) = true from hf)] at hfound
        subst hfound
        rw [if_neg hf]
        exact ⟨fun h => Bool.noConfusion h, rfl⟩

theorem MatchSpec.orders_sub {sd : Side} {order : OrderPtr} {w w' : World N I}
    {ns ns' : List (OrderNode N)} {out : List (Line N I)} (h : MatchSpec sd order w ns w' ns' out) :
    List.Sublist (ns'.flatMap OrderNode.orders) (ns.flatMap OrderNode.orders) := by
  have hn := h.nodes
  clear h
  induction hn with
  | nil => exact .slnil
  | cons hab _ ih => exact hab.2.sublist.append ih

namespace Engine

variable {used : UInt32 → Prop} {e : Engine N I}

theorem getBook_update (m : HashMap I (OrderBook N)) (i j : I) (ob : OrderBook N) :
    getBook (Function.update m i (some ob)) j = if j = i then ob else getBook m j := by
  by_cases h : j = i
  · subst h
    rw [if_pos rfl, getBook, HashMap.get, Function.update_self]
  · rw [if_neg h, getBook, HashMap.get, Function.update_of_ne h]
    rfl

theorem book_setBook_apply (ob : OrderBook N) (sd sd' : Side) (b : Book N) :
    (ob.setBook sd b).book sd' = if sd' = sd then b else ob.book sd' := by
  cases sd <;> cases sd' <;> rfl

theorem bookOf_setBook (m : HashMap I (OrderBook N)) (i j : I) (sd sd' : Side) (b : Book N) :
    (getBook (Function.update m i (some ((getBook m i).setBook sd b))) j).book sd' =
      if j = i ∧ sd' = sd then b else (getBook m j).book sd' := by
  rw [getBook_update]
  by_cases hj : j = i
  · subst hj
    rw [if_pos rfl, book_setBook_apply]
    by_cases hsd : sd' = sd
    · rw [if_pos hsd, if_pos ⟨rfl, hsd⟩]
    · rw [if_neg hsd, if_neg fun h => hsd h.2]
  · rw [if_neg hj, if_neg fun h => hj h.1]

section Order

variable {sd : Side} {i : I} {order : OrderPtr} {o : Order N I} {w' : World N I}
  {next : List (OrderNode N)} {out : List (Line N I)}

/-- The engine after the matching phase of a new order. -/
def matched (e : Engine N I) (i : I) (sd : Side) (w' : World N I) (next : List (OrderNode N)) :
    Engine N I where
  toWorld := w'
  nextPtr := e.nextPtr + 1
  orderBooks := Function.update e.orderBooks i
    (some ((getBook e.orderBooks i).setBook sd { head := (e.bookOf i sd).head, next }))

theorem bookOf_matched (j : I) (sd' : Side) :
    (e.matched i sd w' next).bookOf j sd' =
      if j = i ∧ sd' = sd then { head := (e.bookOf i sd).head, next } else e.bookOf j sd' :=
  bookOf_setBook ..

theorem restsIn_matched (hm : MatchSpec sd e.nextPtr w (e.bookOf i sd).next w' next out)
    {j : I} {sd' : Side} {p : OrderPtr} (hp : (e.matched i sd w' next).RestsIn j sd' p) :
    e.RestsIn j sd' p := by
  unfold RestsIn at *
  rw [bookOf_matched] at hp
  split at hp
  next h =>
    rw [h.1, h.2]
    rcases List.mem_append.mp hp with hp | hp
    · exact List.mem_append_left _ hp
    · exact List.mem_append_right _ (hm.orders_sub.subset hp)
  · exact hp

/-- An order that rests where nothing was matched is untouched. -/
theorem matched_frame (hi : e.PtrInv used)
    (hm : MatchSpec sd e.nextPtr
      { heap := Function.update e.heap e.nextPtr o, orders := e.orders } (e.bookOf i sd).next
      w' next out)
    {j : I} {sd' : Side} {p : OrderPtr} (hp : e.RestsIn j sd' p)
    (hno : p ∉ next.flatMap OrderNode.orders) : w'.heap p = e.heap p := by
  have hne : p ≠ e.nextPtr := (hi.lt hp).ne
  rw [hm.frame p hne fun n hn hpn => hno (List.mem_flatMap.mpr ⟨n, hn, hpn⟩)]
  exact Function.update_of_ne hne ..

/-- The matching phase on values, and the pointers after it. -/
theorem matched_view (hi : e.PtrInv used)
    (hm : MatchSpec sd e.nextPtr
      { heap := Function.update e.heap e.nextPtr o, orders := e.orders } (e.bookOf i sd).next
      w' next out)
    (hfresh : ¬ used o.orderId) :
    (e.matched i sd w' next).view =
        { e.view with
          side := Books.set e.view.side i sd
            ((e.view.side i sd).1, (matchLevels sd o (e.view.side i sd).2).1) } ∧
      w'.heap e.nextPtr = (matchLevels sd o (e.view.side i sd).2).2.1 ∧
      out = (matchLevels sd o (e.view.side i sd).2).2.2 ∧
      (e.matched i sd w' next).PtrInv used := by
  have hupd : ∀ p, p ≠ e.nextPtr → Function.update e.heap e.nextPtr o p = e.heap p :=
    fun p hp => Function.update_of_ne hp ..
  have hne : ∀ j sd' p, e.RestsIn j sd' p → p ≠ e.nextPtr := fun j sd' p hp => (hi.lt hp).ne
  have hlevels : levels (Function.update e.heap e.nextPtr o) (e.bookOf i sd).next =
      (e.view.side i sd).2 := by
    refine levels_congr fun n hn p hp => hupd p (hne i sd p ?_)
    exact List.mem_append_right _ (List.mem_flatMap.mpr ⟨n, hn, hp⟩)
  have hml := hm.levels
  dsimp only at hml
  rw [hlevels, Function.update_self] at hml
  have hheader : ∀ p, p ≠ e.nextPtr → (w'.heap p).header = (e.heap p).header := by
    intro p hp
    rw [hm.header]
    change (Function.update e.heap e.nextPtr o p).header = _
    rw [hupd p hp]
  have hkeep : ∀ j sd' p, e.RestsIn j sd' p → p ∉ next.flatMap OrderNode.orders →
      w'.heap p = e.heap p := fun j sd' p => matched_frame hi hm
  have hrest : ∀ p, p ∈ next.flatMap OrderNode.orders → e.RestsIn i sd p :=
    fun p hp => List.mem_append_right _ (hm.orders_sub.subset hp)
  have horders : w'.orders = e.orders := by
    rcases hm.orders with h | h
    · exact h
    · refine h.trans (HashMap.remove_of_none ?_)
      change e.orders (Function.update e.heap e.nextPtr o e.nextPtr).orderId = none
      rw [Function.update_self]
      rcases hs : e.orders o.orderId with _ | p
      · rfl
      · exact absurd (hi.known _ _ hs).2.2 hfresh
  refine ⟨?_, ?_, ?_, ?_⟩
  · rw [view, Books.mk.injEq]
    constructor
    · funext j sd'
      rw [Books.set_apply, bookOf_matched]
      split
      next h =>
        rw [Book.half, Prod.mk.injEq]
        constructor
        · refine level_congr fun p hp => ?_
          have hp' : e.RestsIn i sd p := List.mem_append_left _ hp
          refine hkeep i sd p hp' fun hpn => ?_
          exact (List.nodup_append.mp (hi.nodup i sd)).2.2 p hp p (hm.orders_sub.subset hpn) rfl
        · rw [hml]
          rfl
      next h =>
        have hk : ∀ p, e.RestsIn j sd' p → w'.heap p = e.heap p := by
          intro p hp
          refine hkeep j sd' p hp fun hpn => h ?_
          exact hi.place hp (hrest p hpn)
        rw [Book.half, Prod.mk.injEq]
        exact ⟨level_congr fun p hp => hk p (List.mem_append_left _ hp),
          levels_congr fun n hn p hp =>
            hk p (List.mem_append_right _ (List.mem_flatMap.mpr ⟨n, hn, hp⟩))⟩
    · funext id
      change (w'.orders id).map (fun p => (w'.heap p).header) = _
      rw [horders]
      rcases hs : e.orders id with _ | p
      · simp only [view, hs, Option.map_none]
      · simp only [view, hs, Option.map_some, hheader p (hi.known _ _ hs).2.1.ne]
  · rw [hml]
  · rw [hml]
  · have hr : ∀ j sd' p, (e.matched i sd w' next).RestsIn j sd' p → e.RestsIn j sd' p :=
      fun j sd' p hp => restsIn_matched hm hp
    refine ⟨fun j sd' => ?_, fun j sd' p hp => ?_, fun j sd' p hp => ?_, fun j sd' p hp => ?_, ?_⟩
    · rw [bookOf_matched]
      split
      next h => exact (hi.nodup i sd).sublist (hm.orders_sub.append_left _)
      · exact hi.nodup j sd'
    · have hh := congrArg Prod.fst (hheader p (hne _ _ _ (hr j sd' p hp)))
      exact hh.trans (hi.type j sd' p (hr j sd' p hp))
    · have hh := congrArg (fun x => x.2.2.2.1) (hheader p (hne _ _ _ (hr j sd' p hp)))
      exact hh.trans (hi.instrument j sd' p (hr j sd' p hp))
    · have hh := congrArg (fun x => x.2.1) (hheader p (hne _ _ _ (hr j sd' p hp)))
      change w'.orders (w'.heap p).orderId = some p
      rw [horders, show (w'.heap p).orderId = (e.heap p).orderId from hh]
      exact hi.mapped j sd' p (hr j sd' p hp)
    · intro id p hs
      change w'.orders id = some p at hs
      rw [horders] at hs
      rcases hi.known id p hs with ⟨hid, hlt, hu⟩
      have hh := congrArg (fun x => x.2.1) (hheader p hlt.ne)
      exact ⟨hh.trans hid, Nat.lt_succ_of_lt hlt, hu⟩

end Order

section Book

variable {i : I} {sd : Side} {order : OrderPtr}

/-- The engine with the order booked in its own book. -/
def booked (e : Engine N I) (i : I) (sd : Side) (order : OrderPtr) : Engine N I :=
  let walk := addWalk sd e.heap order (e.bookOf i sd).head (e.bookOf i sd).next
  { e with
    orders := e.orders.put (e.heap order).orderId order
    orderBooks := Function.update e.orderBooks i
      (some ((getBook e.orderBooks i).setBook sd { head := walk.1, next := walk.2 })) }

theorem bookOf_booked (j : I) (sd' : Side) :
    (e.booked i sd order).bookOf j sd' =
      if j = i ∧ sd' = sd then
        { head := (addWalk sd e.heap order (e.bookOf i sd).head (e.bookOf i sd).next).1
          next := (addWalk sd e.heap order (e.bookOf i sd).head (e.bookOf i sd).next).2 }
      else e.bookOf j sd' :=
  bookOf_setBook ..

theorem restsIn_booked {j : I} {sd' : Side} {p : OrderPtr} :
    (e.booked i sd order).RestsIn j sd' p ↔
      (p = order ∧ j = i ∧ sd' = sd) ∨ e.RestsIn j sd' p := by
  unfold RestsIn
  rw [bookOf_booked]
  by_cases h : j = i ∧ sd' = sd
  · rw [if_pos h, h.1, h.2]
    have hperm := addWalk_perm sd e.heap order (e.bookOf i sd).head (e.bookOf i sd).next
    refine hperm.mem_iff.trans ?_
    rw [List.mem_cons]
    simp only [and_self, and_true]
    rfl
  · rw [if_neg h]
    exact ⟨Or.inr, fun h' => h'.resolve_left fun hp => h hp.2⟩

/-- Booking on values, and the pointers after it. -/
theorem booked_view (i : I) (sd : Side) (order : OrderPtr) (hi : e.PtrInv used) (htype : (e.heap order).type = sideType sd)
    (hinst : (e.heap order).instrument = i) (hlt : order < e.nextPtr)
    (hfresh : ¬ used (e.heap order).orderId) :
    (e.booked i sd order).view =
        { side := Books.set e.view.side i sd
            (addLevels sd (e.heap order) (e.view.side i sd).1 (e.view.side i sd).2)
          known := e.view.known.put (e.heap order).orderId (e.heap order).header } ∧
      (e.booked i sd order).PtrInv (fun id => used id ∨ id = (e.heap order).orderId) := by
  have hnone : e.orders (e.heap order).orderId = none := by
    rcases hs : e.orders (e.heap order).orderId with _ | p
    · rfl
    · exact absurd (hi.known _ _ hs).2.2 hfresh
  have hput : (e.booked i sd order).orders =
      Function.update e.orders (e.heap order).orderId (some order) :=
    HashMap.put_of_none order hnone
  have hno : ∀ j sd', ¬ e.RestsIn j sd' order := by
    intro j sd' hr
    have hm := hi.mapped j sd' order hr
    rw [hnone] at hm
    cases hm
  refine ⟨?_, fun j sd' => ?_, fun j sd' p hp => ?_, fun j sd' p hp => ?_, fun j sd' p hp => ?_, ?_⟩
  · rw [view, Books.mk.injEq]
    constructor
    · funext j sd'
      rw [Books.set_apply, bookOf_booked]
      split
      · have h := addWalk_levels sd e.heap order (e.bookOf i sd).head (e.bookOf i sd).next
        exact h.symm
      · rfl
    · rw [HashMap.put_of_none _ (by simp only [view, hnone, Option.map_none])]
      funext id
      rw [hput]
      by_cases hid : id = (e.heap order).orderId
      · subst hid
        rw [Function.update_self, Function.update_self]
        rfl
      · rw [Function.update_of_ne hid, Function.update_of_ne hid]
        rfl
  · rw [bookOf_booked]
    split
    · have hperm := addWalk_perm sd e.heap order (e.bookOf i sd).head (e.bookOf i sd).next
      refine hperm.nodup_iff.mpr (List.nodup_cons.mpr ⟨hno i sd, hi.nodup i sd⟩)
    · exact hi.nodup j sd'
  · rcases restsIn_booked.mp hp with ⟨rfl, rfl, rfl⟩ | hp
    · exact htype
    · exact hi.type j sd' p hp
  · rcases restsIn_booked.mp hp with ⟨rfl, rfl, rfl⟩ | hp
    · exact hinst
    · exact hi.instrument j sd' p hp
  · rw [hput]
    change Function.update e.orders (e.heap order).orderId (some order) (e.heap p).orderId = some p
    rcases restsIn_booked.mp hp with ⟨rfl, -, -⟩ | hp
    · rw [Function.update_self]
    · have hm := hi.mapped j sd' p hp
      rw [Function.update_of_ne, hm]
      intro heq
      rw [heq, hnone] at hm
      cases hm
  · intro id p hs
    rw [hput] at hs
    by_cases hid : id = (e.heap order).orderId
    · subst hid
      rw [Function.update_self] at hs
      cases hs
      exact ⟨rfl, hlt, Or.inr rfl⟩
    · rw [Function.update_of_ne hid] at hs
      rcases hi.known id p hs with ⟨h1, h2, h3⟩
      exact ⟨h1, h2, Or.inl h3⟩

/-- The engine after `processCancelOrder` on the object `order`. -/
def cancelled (e : Engine N I) (i : I) (sd : Side) (order : OrderPtr) : Engine N I where
  toWorld := (cancelOrder order e.toWorld (e.bookOf i sd).next).1
  nextPtr := e.nextPtr
  orderBooks := Function.update e.orderBooks i (some ((getBook e.orderBooks i).setBook sd
    { head := (e.bookOf i sd).head
      next := (cancelOrder order e.toWorld (e.bookOf i sd).next).2.1 }))

theorem bookOf_cancelled (j : I) (sd' : Side) :
    (e.cancelled i sd order).bookOf j sd' =
      if j = i ∧ sd' = sd then
        { head := (e.bookOf i sd).head
          next := (cancelOrder order e.toWorld (e.bookOf i sd).next).2.1 }
      else e.bookOf j sd' :=
  bookOf_setBook ..

/-- Cancelling on values, and the pointers after it. -/
theorem cancelled_view (i : I) (sd : Side) (hi : e.PtrInv used) {id : UInt32} (hs : e.orders id = some order) :
    (e.cancelled i sd order).view =
        { side := Books.set e.view.side i sd
            ((e.view.side i sd).1,
              (cancelLevels id (e.heap order).price (e.view.side i sd).2).1)
          known := if (cancelLevels id (e.heap order).price (e.view.side i sd).2).2 then
            e.view.known.remove id else e.view.known } ∧
      (cancelOrder order e.toWorld (e.bookOf i sd).next).2.2 =
        [deletedLine (cancelLevels id (e.heap order).price (e.view.side i sd).2).2
          (e.heap order)] ∧
      (e.cancelled i sd order).PtrInv used := by
  have hid : (e.heap order).orderId = id := (hi.known id order hs).1
  -- whatever rests under this id is the object itself
  have huniq : ∀ j sd' p, e.RestsIn j sd' p → (e.heap p).orderId = (e.heap order).orderId →
      p = order := by
    intro j sd' p hp heq
    have hm := hi.mapped j sd' p hp
    rw [heq, hid, hs] at hm
    exact (Option.some.inj hm).symm
  have hspec := cancelOrder_spec order e.toWorld (e.bookOf i sd).next
  have hords := cancelOrder_orders order e.toWorld (List.nodup_append.mp (hi.nodup i sd)).2.1
    (fun p hp heq => huniq i sd p (List.mem_append_right _ hp) heq) rfl
  rw [hid] at hspec hords
  have hlv : (e.view.side i sd).2 = levels e.heap (e.bookOf i sd).next := rfl
  rw [hlv]
  generalize hfound : (cancelLevels id (e.heap order).price
    (levels e.heap (e.bookOf i sd).next)).2 = found at hspec hords
  rcases hspec with ⟨h1, h2, h3⟩
  rcases hords with ⟨hmem, hsub⟩
  have hheap : (e.cancelled i sd order).heap = e.heap := by
    change (cancelOrder order e.toWorld (e.bookOf i sd).next).1.heap = e.heap
    rw [h3]
    split <;> rfl
  have horders : (e.cancelled i sd order).orders =
      if found then e.orders.remove id else e.orders := by
    change (cancelOrder order e.toWorld (e.bookOf i sd).next).1.orders = _
    rw [h3]
    split <;> rfl
  have hrest : ∀ j sd' p, (e.cancelled i sd order).RestsIn j sd' p →
      e.RestsIn j sd' p ∧ (found = true → p ≠ order) := by
    intro j sd' p hp
    unfold RestsIn at hp ⊢
    rw [bookOf_cancelled] at hp
    split at hp
    next h =>
      rcases h with ⟨rfl, rfl⟩
      have hnd := List.nodup_append.mp (hi.nodup j sd')
      rcases List.mem_append.mp hp with hp | hp
      · refine ⟨List.mem_append_left _ hp, fun hf heq => ?_⟩
        exact hnd.2.2 p hp order (hmem hf) heq
      · change p ∈ (cancelOrder order e.toWorld _).2.1.flatMap OrderNode.orders at hp
        rw [hsub] at hp
        split at hp
        next hf =>
          refine ⟨List.mem_append_right _ (List.mem_of_mem_erase hp), fun _ heq => ?_⟩
          exact (List.Nodup.mem_erase_iff hnd.2.1).mp hp |>.1 heq
        next hf =>
          exact ⟨List.mem_append_right _ hp, fun hf' => absurd hf' hf⟩
    next h =>
      refine ⟨hp, fun hf heq => h ?_⟩
      exact hi.place hp (heq ▸ List.mem_append_right _ (hmem hf))
  refine ⟨?_, h2, fun j sd' => ?_, fun j sd' p hp => ?_, fun j sd' p hp => ?_,
    fun j sd' p hp => ?_, ?_⟩
  · rw [view, Books.mk.injEq, hheap, horders]
    constructor
    · funext j sd'
      rw [Books.set_apply, bookOf_cancelled]
      split
      · rw [Book.half, Prod.mk.injEq]
        exact ⟨rfl, (congrArg Prod.fst h1).symm⟩
      · rfl
    · funext id'
      cases found
      · rfl
      · simp only [if_true, HashMap.remove]
        by_cases hid' : id' = id
        · subst hid'
          rw [Function.update_self, Function.update_self]
          rfl
        · rw [Function.update_of_ne hid', Function.update_of_ne hid']
          rfl
  · rw [bookOf_cancelled]
    split
    · refine (hi.nodup i sd).sublist (List.Sublist.append_left ?_ _)
      change ((cancelOrder order e.toWorld (e.bookOf i sd).next).2.1.flatMap _).Sublist _
      rw [hsub]
      split
      · exact List.erase_sublist
      · exact List.Sublist.refl _
    · exact hi.nodup j sd'
  · rw [hheap]
    exact hi.type j sd' p (hrest j sd' p hp).1
  · rw [hheap]
    exact hi.instrument j sd' p (hrest j sd' p hp).1
  · rcases hrest j sd' p hp with ⟨hr, hne⟩
    rw [hheap, horders]
    split
    next hf =>
      rw [HashMap.remove, Function.update_of_ne]
      · exact hi.mapped j sd' p hr
      · rw [← hid]
        exact fun heq => hne hf (huniq j sd' p hr heq)
    · exact hi.mapped j sd' p hr
  · intro id' p hs'
    rw [horders] at hs'
    rw [hheap]
    have hsome : e.orders id' = some p := by
      split at hs'
      · by_cases hid' : id' = id
        · subst hid'
          rw [HashMap.remove, Function.update_self] at hs'
          cases hs'
        · rwa [HashMap.remove, Function.update_of_ne hid'] at hs'
      · exact hs'
    exact hi.known id' p hsome

end Book

theorem exec_order (sd : Side) (orderId : UInt32) (i : I) (price : UInt32) (count : N)
    (inputTime : ℤ) :
    e.exec (.order sd orderId i price count inputTime) =
      let r := matchOrder sd.opp e.nextPtr
        { heap := Function.update e.heap e.nextPtr
            (newOrder sd orderId i price count inputTime)
          orders := e.orders } (e.bookOf i sd.opp).next
      if 0 < (r.1.heap e.nextPtr).count then
        ((e.matched i sd.opp r.1 r.2.1).booked i sd e.nextPtr,
          r.2.2 ++ [addLine sd (r.1.heap e.nextPtr)])
      else (e.matched i sd.opp r.1 r.2.1, r.2.2) := by
  simp only [exec, OrderBook.processOrder]
  generalize hr : matchOrder sd.opp e.nextPtr
    { heap := Function.update e.heap e.nextPtr (newOrder sd orderId i price count inputTime)
      orders := e.orders } (e.bookOf i sd.opp).next = r
  have hr' : matchOrder sd.opp e.nextPtr
    { heap := Function.update e.heap e.nextPtr
        { type := sideType sd, orderId, price, count, instrument := i, inputTime, executionId := 1 }
      orders := e.orders } ((getBook e.orderBooks i).book sd.opp).next = r := hr
  rw [hr']
  rcases r with ⟨w', next, out⟩
  dsimp only
  by_cases hc : 0 < (w'.heap e.nextPtr).count
  · simp only [if_pos hc]
    have hbook : (e.matched i sd.opp w' next).bookOf i sd = (getBook e.orderBooks i).book sd := by
      rw [bookOf_matched, if_neg fun h => absurd h.2 (PriceTime.Side.ne_opp sd)]
      rfl
    rw [booked, hbook, matched]
    simp only [Function.update_idem, getBook_update, if_true, add, OrderBook.book_opp_setBook]
    rfl
  · simp only [if_neg hc]
    rfl

/-- Every command acts on the engine as it acts on its values. -/
theorem exec_view (hi : e.PtrInv used) (c : Command N I)
    (hfresh : ∀ id, newId c = some id → ¬ used id) :
    (e.exec c).1.view = (e.view.exec c).1 ∧ (e.exec c).2 = (e.view.exec c).2 ∧
      (e.exec c).1.PtrInv (fun id => used id ∨ newId c = some id) := by
  cases c with
  | order sd orderId i price count inputTime =>
    have hfr : ¬ used orderId := hfresh orderId rfl
    have hnd := (List.nodup_append.mp (hi.nodup i sd.opp)).2.1
    have hord : e.nextPtr ∉ (e.bookOf i sd.opp).next.flatMap OrderNode.orders :=
      fun hp => (hi.lt (show e.RestsIn i sd.opp _ from List.mem_append_right _ hp)).ne rfl
    let o := newOrder sd orderId i price count inputTime
    let w : World N I := { heap := Function.update e.heap e.nextPtr o, orders := e.orders }
    have hm := matchOrder_spec sd.opp w hnd hord
    rw [exec_order, show matchOrder sd.opp e.nextPtr _ (e.bookOf i sd.opp).next =
      matchOrder sd.opp e.nextPtr w (e.bookOf i sd.opp).next from rfl]
    generalize matchOrder sd.opp e.nextPtr w (e.bookOf i sd.opp).next = r at hm
    rcases r with ⟨w', next, out⟩
    dsimp only at hm ⊢
    rcases matched_view (o := o) hi hm hfr with ⟨hview, hheap, hout, hinv⟩
    have hinc : w'.heap e.nextPtr = { o with count := (w'.heap e.nextPtr).count } := by
      rw [hheap]
      exact matchLevels_incoming ..
    rw [Books.exec]
    dsimp only
    rw [← hheap, ← hout]
    by_cases hc : 0 < (w'.heap e.nextPtr).count
    · rw [if_pos hc, if_pos hc]
      have hid : (w'.heap e.nextPtr).orderId = orderId := by rw [hinc]; rfl
      have hb := booked_view i sd e.nextPtr hinv
        (by change (w'.heap e.nextPtr).type = _; rw [hinc]; rfl)
        (by change (w'.heap e.nextPtr).instrument = _; rw [hinc]; rfl)
        (Nat.lt_succ_self _) (by change ¬ used (w'.heap e.nextPtr).orderId; rwa [hid])
      rw [hview] at hb
      refine ⟨?_, rfl, ?_⟩
      · rw [hb.1]
        change Books.mk _ _ = Books.mk _ _
        have hown : Books.set e.view.side i sd.opp ((e.view.side i sd.opp).1,
            (matchLevels sd.opp o (e.view.side i sd.opp).2).1) i sd = e.view.side i sd := by
          rw [Books.set_apply, if_neg fun h => absurd h.2 (PriceTime.Side.ne_opp sd)]
        dsimp only
        rw [hown]
        change Books.mk _ (HashMap.put _ (w'.heap e.nextPtr).orderId _) = _
        rw [hid]
        rfl
      · apply hb.2.mono
        rintro id (hu | rfl)
        · exact Or.inl hu
        · exact Or.inr (congrArg some hid.symm)
    · rw [if_neg hc, if_neg hc]
      exact ⟨hview, rfl, hinv.mono fun _ => Or.inl⟩
  | cancel orderId inputTime =>
    rcases hs : e.orders orderId with _ | order
    · have hk : e.view.known orderId = none := by simp only [view, hs, Option.map_none]
      simp only [exec, HashMap.get, hs, Books.exec, hk]
      exact ⟨trivial, trivial, hi.mono fun _ => Or.inl⟩
    · have hk : e.view.known orderId = some (e.heap order).header := by
        simp only [view, hs, Option.map_some]
      have hid : (e.heap order).orderId = orderId := (hi.known orderId order hs).1
      have h := cancelled_view (e.heap order).instrument (OrderBook.sideOf (e.heap order)) hi hs
      have hexec : e.exec (.cancel orderId inputTime) =
          (e.cancelled (e.heap order).instrument (OrderBook.sideOf (e.heap order)) order,
            (cancelOrder order e.toWorld
              (e.bookOf (e.heap order).instrument (OrderBook.sideOf (e.heap order))).next).2.2) := by
        simp only [exec, HashMap.get, hs]
        rfl
      have hexecv : e.view.exec (.cancel orderId inputTime) =
          ({ side := Books.set e.view.side (e.heap order).instrument
               (OrderBook.sideOf (e.heap order))
               ((e.view.side (e.heap order).instrument (OrderBook.sideOf (e.heap order))).1,
                (cancelLevels orderId (e.heap order).price
                  (e.view.side (e.heap order).instrument (OrderBook.sideOf (e.heap order))).2).1)
             known := if (cancelLevels orderId (e.heap order).price
                (e.view.side (e.heap order).instrument (OrderBook.sideOf (e.heap order))).2).2 then
                e.view.known.remove orderId else e.view.known },
            [deletedLine (cancelLevels orderId (e.heap order).price
              (e.view.side (e.heap order).instrument (OrderBook.sideOf (e.heap order))).2).2
              (e.heap order)]) := by
        simp only [Books.exec, hk, Order.header, hid, deletedLine]
        rfl
      rw [hexec, hexecv]
      exact ⟨h.1, h.2.1, h.2.2.mono fun _ => Or.inl⟩

end Engine

end MatchingEngine.Cpp
