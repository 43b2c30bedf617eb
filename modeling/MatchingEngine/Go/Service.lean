import MatchingEngine.Go.Shape

/-!
# Where a booked order stands, and what it may count on

`AddOrder` starts its walk at the head sentinel, whose price is 0; matching and cancelling start
after it.  An order that stands after the head trades with every crossing order that has enough left
when its turn comes, and the cancel of its owner is accepted, while the sums of the prices fit.
-/

set_option linter.unusedSectionVars false

namespace MatchingEngine.Go

open PriceTime

variable {I T : Type} {sd : Side} {o : Order UInt32 I T} {node : OrderNode UInt32 I T}
  {next : List (OrderNode UInt32 I T)}

/-! ## What the routines leave, whatever the sums -/

/-- Every node has the price of an old one and orders of it. -/
def Stays (next next' : List (OrderNode UInt32 I T)) : Prop :=
  ∀ n' ∈ next', ∃ n ∈ next, n'.price = n.price ∧ ∀ e' ∈ n'.orders, ∃ e ∈ n.orders, e.header = e'.header

theorem Stays.refl : Stays next next := fun n hn => ⟨n, hn, rfl, fun e he => ⟨e, he, rfl⟩⟩

theorem executeLoop_price (os : List (Order UInt32 I T)) (left : UInt32) :
    (executeLoop o os left node).node.price = node.price := by
  induction os generalizing left node with
  | nil => rfl
  | cons e os ih =>
    rw [executeLoop]
    split
    · rfl
    · split
      · exact ih (left - e.count)
      · rfl

theorem stays_matched : Stays next ((matchOrder sd o next).next o next) := by
  intro n' hn'
  rcases List.mem_append.mp (List.mem_of_mem_drop hn') with hn | hn
  · rw [Matched.executed, List.map_map] at hn
    rcases List.mem_map.mp hn with ⟨x, hx, rfl⟩
    refine ⟨x.node, mem_of_visit next _ _ _ _ x hx, executeLoop_price _ _, ?_⟩
    intro e' he'
    rcases executeLoop_taken o x.left x.node rfl with
      ⟨gone, rest, hsplit, hheader, -⟩
    have hmem : e'.header ∈ rest.map Order.header := by
      rw [← hheader]
      exact List.mem_map_of_mem he'
    rcases List.mem_map.mp hmem with ⟨e, he, heq⟩
    exact ⟨e, hsplit ▸ List.mem_append_right gone he, heq⟩
  · exact ⟨n', List.mem_of_mem_drop hn, rfl, fun e he => ⟨e, he, rfl⟩⟩

theorem stays_cancelled : Stays next (cancelOrder o next).next := by
  induction next with
  | nil => exact Stays.refl
  | cons node next ih =>
    rw [cancelOrder]
    split
    · intro n' hn'
      rcases List.mem_cons.mp hn' with rfl | hn'
      · exact ⟨n', List.mem_cons_self, rfl, fun e he => ⟨e, he, rfl⟩⟩
      · rcases ih n' hn' with ⟨n, hn, h⟩
        exact ⟨n, List.mem_cons_of_mem node hn, h⟩
    · rcases hfind : node.orders.find? (sameId o) with _ | e
      · exact Stays.refl
      · have htail : ∀ n' ∈ next, ∃ n ∈ node :: next, n'.price = n.price ∧
            ∀ e' ∈ n'.orders, ∃ e ∈ n.orders, e.header = e'.header :=
          fun n' hn' => ⟨n', List.mem_cons_of_mem node hn', rfl, fun e he => ⟨e, he, rfl⟩⟩
        dsimp only
        split
        · exact htail
        · intro n' hn'
          rcases List.mem_cons.mp hn' with rfl | hn'
          · exact ⟨node, List.mem_cons_self, rfl,
              fun e he => ⟨e, List.mem_of_mem_eraseP he, rfl⟩⟩
          · exact htail n' hn'

/-! ## The head sentinel -/

theorem not_better_zero (price : UInt32) : ¬ Side.buy.Better 0 price := by
  show ¬ price < 0
  rw [UInt32.lt_iff_toNat_lt, UInt32.toNat_zero]
  omega

theorem better_zero {price : UInt32} (h : price ≠ 0) : Side.sell.Better 0 price :=
  Side.better_of_not_better (fun hb => not_better_zero price hb) h

/-- Whether an order of this price is put behind the head. -/
def Listable (sd : Side) (price : UInt32) (next : List (OrderNode UInt32 I T)) : Prop :=
  price ≠ 0 ∨ sd = .buy ∧ next ≠ []

theorem addWalk_perm (sd : Side) (o : Order UInt32 I T) (curr : OrderNode UInt32 I T)
    (next : List (OrderNode UInt32 I T)) :
    ((addWalk sd o curr next).1.orders ++ listed (addWalk sd o curr next).2).Perm
      (o :: (curr.orders ++ listed next)) := by
  have hplace : ∀ (curr : OrderNode UInt32 I T) (next : List (OrderNode UInt32 I T)),
      ((place o curr next).1.orders ++ listed (place o curr next).2).Perm
        (o :: (curr.orders ++ listed next)) := by
    intro curr next
    unfold place
    split
    · exact List.perm_middle
    · show (curr.orders ++ [o] ++ listed next).Perm _
      rw [List.append_assoc]
      exact List.perm_middle
  induction next generalizing curr with
  | nil => exact hplace curr []
  | cons node next ih =>
    rw [addWalk]
    split
    · exact hplace curr (node :: next)
    · split
      · show (curr.orders ++ (node.orders ++ [o] ++ listed next)).Perm _
        rw [List.append_assoc node.orders, ← List.append_assoc curr.orders]
        refine List.perm_middle.trans ?_
        rw [List.append_assoc]
        rfl
      · refine ((ih node).append_left curr.orders).trans ?_
        exact List.perm_middle

theorem addWalk_head (sd : Side) (o : Order UInt32 I T) (curr : OrderNode UInt32 I T)
    (next : List (OrderNode UInt32 I T)) :
    (addWalk sd o curr next).1 = curr ∨ (addWalk sd o curr next).1 = curr.append o := by
  have hplace : ∀ next' : List (OrderNode UInt32 I T),
      (place o curr next').1 = curr ∨ (place o curr next').1 = curr.append o := by
    intro next'
    unfold place
    split
    · exact Or.inl rfl
    · exact Or.inr rfl
  cases next with
  | nil => exact hplace []
  | cons node next =>
    rw [addWalk]
    split
    · exact hplace _
    · split <;> exact Or.inl rfl

theorem price_addWalk {curr : OrderNode UInt32 I T} :
    ∀ n ∈ (addWalk sd o curr next).2, n.price = o.price ∨ ∃ m ∈ next, n.price = m.price := by
  have hplace : ∀ (curr : OrderNode UInt32 I T) (next : List (OrderNode UInt32 I T)),
      ∀ n ∈ (place o curr next).2, n.price = o.price ∨ ∃ m ∈ next, n.price = m.price := by
    intro curr next n hn
    unfold place at hn
    split at hn
    · rcases List.mem_cons.mp hn with rfl | hn
      · exact Or.inl rfl
      · exact Or.inr ⟨n, hn, rfl⟩
    · exact Or.inr ⟨n, hn, rfl⟩
  have hold : ∀ {m : OrderNode UInt32 I T} {next : List (OrderNode UInt32 I T)}, m ∈ next →
      m.price = o.price ∨ ∃ m' ∈ next, m.price = m'.price := fun hm => Or.inr ⟨_, hm, rfl⟩
  induction next generalizing curr with
  | nil => exact hplace curr []
  | cons node next ih =>
    rw [addWalk]
    split
    · exact hplace curr (node :: next)
    · intro n hn
      split at hn
      next heq =>
        rcases List.mem_cons.mp hn with rfl | hn
        · exact Or.inl heq.symm
        · exact hold (List.mem_cons_of_mem node hn)
      next hne =>
        rcases List.mem_cons.mp hn with rfl | hn
        · refine Or.inr ⟨node, List.mem_cons_self, ?_⟩
          rcases addWalk_head sd o node next with hw | hw
          · rw [hw]
          · rw [hw]
            rfl
        · rcases ih n hn with hp | ⟨m, hm, hp⟩
          · exact Or.inl hp
          · exact Or.inr ⟨m, List.mem_cons_of_mem node hm, hp⟩

theorem addWalk_listable {head : OrderNode UInt32 I T} (hhead : head.price = 0)
    (h : Listable sd o.price next) : (addWalk sd o head next).1 = head := by
  have hplace : ∀ next' : List (OrderNode UInt32 I T), o.price ≠ 0 →
      (place o head next').1 = head := by
    intro next' hne
    rw [place, if_pos]
    rw [hhead]
    exact hne
  cases next with
  | nil =>
    rcases h with hne | ⟨-, hnil⟩
    · exact hplace [] hne
    · exact absurd rfl hnil
  | cons node next =>
    rw [addWalk]
    split
    next hb =>
      apply hplace
      rcases h with hne | ⟨rfl, -⟩
      · exact hne
      · intro hz
        rw [hz] at hb
        exact not_better_zero _ hb
    next hnb =>
      split <;> rfl

theorem addWalk_not_listable {head : OrderNode UInt32 I T} (hhead : head.price = 0)
    (hnext : sd = .sell → ∀ n ∈ next, n.price ≠ 0) (h : ¬ Listable sd o.price next) :
    addWalk sd o head next = (head.append o, next) := by
  rcases not_or.mp h with ⟨hz, hno⟩
  have hz' : o.price = 0 := not_not.mp hz
  have hplace : ∀ next' : List (OrderNode UInt32 I T),
      place o head next' = (head.append o, next') := by
    intro next'
    rw [place, if_neg]
    rw [hhead]
    exact not_not.mpr hz'
  cases next with
  | nil => exact hplace []
  | cons node next =>
    have hsell : sd = .sell := by
      cases sd with
      | buy => exact absurd ⟨rfl, List.cons_ne_nil _ _⟩ hno
      | sell => rfl
    subst hsell
    rw [addWalk, if_pos]
    · exact hplace _
    · rw [hz']
      exact better_zero (hnext rfl node List.mem_cons_self)

/-! ## The engine -/

variable [DecidableEq I] [DecidableEq T]

namespace Engine

variable {e : Engine UInt32 I T} {i : I} {a : ℕ} {used : UInt32 → Prop} {t : T}

/-- The orders on one side of a book, those in its head included. -/
def rests (e : Engine UInt32 I T) (i : I) (sd : Side) : List (Order UInt32 I T) :=
  (e.book i sd).head.orders ++ listed (e.book i sd).next

/-- What every state satisfies; `a` is the next address. -/
structure Base (e : Engine UInt32 I T) (a : ℕ) : Prop where
  head : ∀ i sd, (e.book i sd).head.price = 0
  sell : ∀ i, ∀ n ∈ (e.book i .sell).next, n.price ≠ 0
  address : ∀ i sd, ∀ o ∈ e.rests i sd, o.address < a

theorem base_init : (init : Engine UInt32 I T).Base 0 := by
  have hbook : ∀ i sd, (init : Engine UInt32 I T).book i sd = Book.empty := by
    intro i sd
    cases sd <;> rfl
  constructor
  · intro i sd
    rw [hbook]
    rfl
  · intro i n hn
    rw [hbook] at hn
    cases hn
  · intro i sd o ho
    rw [rests, hbook] at ho
    cases ho

/-- One chain is replaced by what is left of it. -/
theorem Base.stays {next' : List (OrderNode UInt32 I T)}
    {orders : ConcurrentHashMap UInt32 (Order UInt32 I T)} (h : e.Base a)
    (hs : Stays (e.book i sd).next next') :
    ({ e.setBook i sd { e.book i sd with next := next' } with orders } : Engine UInt32 I T).Base
      a where
  head := by
    intro j sd'
    show ((e.setBook i sd _).book j sd').head.price = 0
    rw [book_setBook]
    split
    · exact h.head i sd
    · exact h.head j sd'
  sell := by
    intro j n hn
    change n ∈ ((e.setBook i sd _).book j .sell).next at hn
    rw [book_setBook] at hn
    split at hn
    next heq =>
      rcases hs n hn with ⟨m, hm, hprice, -⟩
      rw [hprice]
      rw [← heq.2] at hm
      exact h.sell i m hm
    · exact h.sell j n hn
  address := by
    intro j sd' o ho
    change o ∈ ((e.setBook i sd _).book j sd').head.orders ++
      listed ((e.setBook i sd _).book j sd').next at ho
    rw [book_setBook] at ho
    split at ho
    · rcases List.mem_append.mp ho with ho | ho
      · exact h.address i sd o (List.mem_append_left _ ho)
      · rcases List.mem_flatMap.mp ho with ⟨n', hn', ho⟩
        rcases hs n' hn' with ⟨n, hn, -, hmem⟩
        rcases hmem o ho with ⟨o', ho', heq⟩
        rw [show o.address = o'.address from (header_address heq).symm]
        exact h.address i sd o'
          (List.mem_append_right _ (List.mem_flatMap.mpr ⟨n, hn, ho'⟩))
    · exact h.address j sd' o ho

theorem Base.matchActive (h : e.Base a) (sd : Side) (o : Order UInt32 I T) :
    (e.matchActive sd o).Base a := h.stays stays_matched

/-- A new order is put into its book. -/
theorem Base.addActive (h : e.Base a) (sd : Side) (o : Order UInt32 I T)
    (ho : o.address < a) : (e.addActive sd o).Base a := by
  have hbook : ∀ j sd', (e.addActive sd o).book j sd' = if j = o.instrument ∧ sd' = sd then
      addOrder sd o (e.book o.instrument sd) else e.book j sd' :=
    fun j sd' => book_setBook e o.instrument j sd sd' _
  have hperm := addWalk_perm sd o (e.book o.instrument sd).head
    (e.book o.instrument sd).next
  have hlist : Listable sd o.price (e.book o.instrument sd).next →
      (addOrder sd o (e.book o.instrument sd)).head = (e.book o.instrument sd).head :=
    addWalk_listable (h.head _ _)
  have hno : ¬ Listable sd o.price (e.book o.instrument sd).next →
      addWalk sd o (e.book o.instrument sd).head (e.book o.instrument sd).next =
        ((e.book o.instrument sd).head.append o, (e.book o.instrument sd).next) := by
    apply addWalk_not_listable (h.head _ _)
    rintro rfl
    exact h.sell _
  constructor
  · intro j sd'
    rw [hbook]
    split
    · by_cases hl : Listable sd o.price (e.book o.instrument sd).next
      · rw [hlist hl]
        exact h.head _ _
      · show (addWalk sd o _ _).1.price = 0
        rw [hno hl]
        exact h.head o.instrument sd
    · exact h.head j sd'
  · intro j n hn
    rw [hbook] at hn
    split at hn
    next heq =>
      rcases heq with ⟨-, rfl⟩
      by_cases hl : Listable .sell o.price (e.book o.instrument .sell).next
      · have hne : o.price ≠ 0 := hl.resolve_right fun hb => by cases hb.1
        rcases price_addWalk n hn with hp | ⟨m, hm, hp⟩
        · rw [hp]
          exact hne
        · rw [hp]
          exact h.sell _ m hm
      · change n ∈ (addWalk .sell o _ _).2 at hn
        rw [hno hl] at hn
        exact h.sell _ n hn
    · exact h.sell j n hn
  · intro j sd' o' ho'
    rw [rests, hbook] at ho'
    split at ho'
    · rcases List.mem_cons.mp (hperm.mem_iff.mp ho') with rfl | ho'
      · exact ho
      · exact h.address _ _ o' ho'
    · exact h.address j sd' o' ho'

theorem exec_order (e : Engine UInt32 I T) (t : T) (sd : Side) (orderId : UInt32) (i : I)
    (price count : UInt32) (inputTime : ℤ) :
    e.exec t (.order sd orderId i price count inputTime) =
      { e with nextAddress := e.nextAddress + 1 }.processActiveOrder sd
        (newOrder e.nextAddress sd orderId i price count inputTime t) := rfl

/-- The new order, with what is left of it after matching. -/
abbrev leftOrder (e : Engine UInt32 I T) (t : T) (sd : Side) (orderId : UInt32) (i : I)
    (price count : UInt32) (inputTime : ℤ) : Order UInt32 I T :=
  let o := newOrder e.nextAddress sd orderId i price count inputTime t
  o.setCount (matchOrder sd.opp o (e.book i sd.opp).next).left

/-- Either nothing is left of a new order, or it is added to its own book. -/
theorem exec_order_cases (e : Engine UInt32 I T) (t : T) (sd : Side) (orderId : UInt32) (i : I)
    (price count : UInt32) (inputTime : ℤ) :
    let e₁ : Engine UInt32 I T := { e with nextAddress := e.nextAddress + 1 }
    let o := newOrder e.nextAddress sd orderId i price count inputTime t
    let m := matchOrder sd.opp o (e.book i sd.opp).next
    (m.left = 0 ∧ e.exec t (.order sd orderId i price count inputTime) =
        (e₁.matchActive sd o, m.out o)) ∨
      0 < m.left ∧ e.exec t (.order sd orderId i price count inputTime) =
        ((e₁.matchActive sd o).addActive sd (e.leftOrder t sd orderId i price count inputTime),
          m.out o ++ [addLine sd (e.leftOrder t sd orderId i price count inputTime)]) := by
  intro e₁ o m
  rw [exec_order, processActiveOrder]
  dsimp only
  split
  next hpos => exact Or.inr ⟨hpos, rfl⟩
  next hz =>
    refine Or.inl ⟨?_, rfl⟩
    exact UInt32.le_antisymm (UInt32.not_lt.mp hz) (UInt32.zero_le)

theorem nextAddress_exec_order (e : Engine UInt32 I T) (t : T) (sd : Side) (orderId : UInt32) (i : I)
    (price count : UInt32) (inputTime : ℤ) :
    (e.exec t (.order sd orderId i price count inputTime)).1.nextAddress = e.nextAddress + 1 := by
  rcases e.exec_order_cases t sd orderId i price count inputTime with ⟨-, h⟩ | ⟨-, h⟩ <;> rw [h] <;>
    rfl

theorem exec_cancel_cases (e : Engine UInt32 I T) (t : T) (orderId : UInt32) (inputTime : ℤ) :
    e.exec t (.cancel orderId inputTime) = (e, [.deleted orderId false inputTime]) ∨
      ∃ o, e.orders orderId = some o ∧ o.rId = t ∧
        e.exec t (.cancel orderId inputTime) = e.processCancelOrder o := by
  simp only [exec, ConcurrentHashMap.get]
  split
  · exact Or.inl rfl
  next o ho =>
    split
    · exact Or.inl rfl
    next heq => exact Or.inr ⟨o, ho, not_not.mp heq, rfl⟩

/-- What `ProcessCancelOrder` leaves; the map loses the id only if an order was found. -/
theorem processCancelOrder_fst (e : Engine UInt32 I T) (o : Order UInt32 I T) :
    (e.processCancelOrder o).1 =
      { e.setBook o.instrument (sideOf o)
          { e.book o.instrument (sideOf o) with
            next := (cancelOrder o (e.book o.instrument (sideOf o)).next).next } with
        orders :=
          if (cancelOrder o (e.book o.instrument (sideOf o)).next).order = none then e.orders
          else e.orders.remove o.orderId } := by
  unfold processCancelOrder
  dsimp only
  split
  next h =>
    rw [if_pos h]
    rfl
  next h =>
    rw [if_neg (by rw [h]; exact fun hn => by cases hn)]
    rfl

theorem Base.exec (h : e.Base e.nextAddress) (t : T) (c : Command UInt32 I) :
    (e.exec t c).1.Base (e.exec t c).1.nextAddress := by
  cases c with
  | order sd orderId i price count inputTime =>
    rw [nextAddress_exec_order]
    have h₁ : Base { e with nextAddress := e.nextAddress + 1 } (e.nextAddress + 1) :=
      ⟨h.head, h.sell, fun j sd' o ho => (h.address j sd' o ho).trans_le (Nat.le_succ _)⟩
    have h₂ := h₁.matchActive sd (newOrder e.nextAddress sd orderId i price count inputTime t)
    rcases e.exec_order_cases t sd orderId i price count inputTime with ⟨-, heq⟩ | ⟨-, heq⟩
    · rw [heq]
      exact h₂
    · rw [heq]
      exact h₂.addActive sd _ (Nat.lt_succ_self _)
  | cancel orderId inputTime =>
    rcases e.exec_cancel_cases t orderId inputTime with heq | ⟨o, -, -, heq⟩
    · rw [heq]
      exact h
    · rw [heq, processCancelOrder_fst]
      exact h.stays stays_cancelled

theorem base_run {e : Engine UInt32 I T} (h : e.Base e.nextAddress)
    (cs : List (T × Command UInt32 I)) : (e.run cs).Base (e.run cs).nextAddress := by
  induction cs generalizing e with
  | nil => exact h
  | cons x cs ih => exact ih (h.exec x.1 x.2)

/-! ## Where a new order is put -/

/-- An order with this address rests on the side, in the head or after it. -/
def RestsAt (e : Engine UInt32 I T) (i : I) (sd : Side) (a : ℕ) : Prop :=
  ∃ o ∈ e.rests i sd, o.address = a

/-- It stands in a node after the head. -/
def ListedAt (e : Engine UInt32 I T) (i : I) (sd : Side) (a : ℕ) : Prop :=
  ∃ o ∈ listed (e.book i sd).next, o.address = a

theorem book_addActive (e : Engine UInt32 I T) (sd : Side) (o : Order UInt32 I T) (j : I)
    (sd' : Side) : (e.addActive sd o).book j sd' =
      if j = o.instrument ∧ sd' = sd then addOrder sd o (e.book o.instrument sd)
      else e.book j sd' := book_setBook e o.instrument j sd sd' _

/-- Matching leaves the own side alone. -/
theorem book_matchActive_own (e : Engine UInt32 I T) (sd : Side) (o : Order UInt32 I T) (i : I) :
    (e.matchActive sd o).book i sd = e.book i sd := by
  show (e.setBook o.instrument sd.opp _).book i sd = e.book i sd
  rw [book_setBook, if_neg]
  rintro ⟨-, h⟩
  exact Side.opp_ne sd h.symm

/-- A new order that is booked stands after the head if and only if it is listable. -/
theorem listed_iff (t : T) (i : I) (sd : Side) (orderId price count : UInt32) (inputTime : ℤ)
    (h : e.Base e.nextAddress)
    (hbooked : (e.exec t (.order sd orderId i price count inputTime)).1.RestsAt i sd
      e.nextAddress) :
    (e.exec t (.order sd orderId i price count inputTime)).1.ListedAt i sd e.nextAddress ↔
      Listable sd price (e.book i sd).next := by
  have hm : Base (matchActive { e with nextAddress := e.nextAddress + 1 } sd
      (newOrder e.nextAddress sd orderId i price count inputTime t)) e.nextAddress :=
    Base.matchActive (e := { e with nextAddress := e.nextAddress + 1 }) ⟨h.head, h.sell, h.address⟩
      sd _
  have hown := book_matchActive_own { e with nextAddress := e.nextAddress + 1 } sd
    (newOrder e.nextAddress sd orderId i price count inputTime t) i
  rcases e.exec_order_cases t sd orderId i price count inputTime with ⟨-, heq⟩ | ⟨-, heq⟩
  · -- nothing is left of the order, and no other has its address
    rw [heq] at hbooked
    rcases hbooked with ⟨o, ho, ha⟩
    exact absurd ha (hm.address i sd o ho).ne
  · rw [heq]
    unfold ListedAt
    rw [book_addActive, if_pos ⟨rfl, rfl⟩]
    show (∃ o ∈ listed (addOrder sd _ (book _ i sd)).next, _) ↔ _
    rw [hown]
    have hold : ∀ o ∈ (e.book i sd).head.orders ++ listed (e.book i sd).next,
        o.address ≠ e.nextAddress := fun o ho => (h.address i sd o ho).ne
    have hperm := addWalk_perm sd (e.leftOrder t sd orderId i price count inputTime)
      (e.book i sd).head (e.book i sd).next
    constructor
    · rintro ⟨o, ho, ha⟩
      by_contra hl
      change o ∈ listed (addWalk sd _ (e.book i sd).head (e.book i sd).next).2 at ho
      rw [addWalk_not_listable (h.head i sd) (by rintro rfl; exact h.sell i) hl] at ho
      exact hold o (List.mem_append_right _ ho) ha
    · intro hl
      refine ⟨e.leftOrder t sd orderId i price count inputTime, ?_, rfl⟩
      have hmem := hperm.mem_iff.mpr List.mem_cons_self
      rw [addWalk_listable (h.head i sd) hl] at hmem
      apply (List.mem_append.mp hmem).resolve_left
      intro hhead
      exact hold _ (List.mem_append_left _ hhead) rfl

end Engine

end MatchingEngine.Go
