import MatchingEngine.Go.Service

/-!
# The Go engine while the sums fit

The map of orders has every resting order under its id, so a cancel finds its order, and the chains
are in order, so the order's turn comes.  Order ids are unique across all connections.
-/

set_option linter.unusedSectionVars false

namespace MatchingEngine.Go

open PriceTime

variable {I T : Type} [DecidableEq I] [DecidableEq T] {sd : Side} {o : Order UInt32 I T}

/-- The id of a new order. -/
def newId (x : T × Command UInt32 I) : Option UInt32 :=
  match x.2 with
  | .order _ orderId _ _ _ _ => some orderId
  | .cancel _ _ => none

theorem get_set {m : ConcurrentHashMap UInt32 (Order UInt32 I T)} {key : UInt32}
    (h : m key = none) (value : Order UInt32 I T) :
    m.set key value = Function.update m key (some value) := by
  simp only [ConcurrentHashMap.set, h]

theorem foldl_remove (ids : List UInt32) (m : ConcurrentHashMap UInt32 (Order UInt32 I T))
    (id : UInt32) :
    ids.foldl ConcurrentHashMap.remove m id = if id ∈ ids then none else m id := by
  induction ids generalizing m with
  | nil => rfl
  | cons id' ids ih =>
    rw [List.foldl_cons, ih, ConcurrentHashMap.remove]
    by_cases hmem : id ∈ ids
    · rw [if_pos hmem, if_pos (List.mem_cons_of_mem id' hmem)]
    · rw [if_neg hmem]
      by_cases heq : id = id'
      · subst heq
        rw [Function.update_self, if_pos List.mem_cons_self]
      · rw [Function.update_of_ne heq, if_neg fun h => (List.mem_cons.mp h).elim heq hmem]

namespace Engine

variable {e : Engine UInt32 I T} {i : I} {a : ℕ} {used : UInt32 → Prop} {t : T}

/-- The state while the sums fit; `used` are the ids so far, `a` is the next address. -/
structure Sound (used : UInt32 → Prop) (e : Engine UInt32 I T) (a : ℕ) : Prop where
  base : e.Base a
  chain : ∀ i sd, ChainOk sd (e.book i sd).next
  place : ∀ i sd, ∀ o ∈ e.rests i sd, o.orderType = sideType sd ∧ o.instrument = i
  nodup : ∀ i sd, ((e.rests i sd).map Order.address).Nodup
  mapped : ∀ i sd, ∀ o ∈ e.rests i sd, ∃ o', e.orders o.orderId = some o' ∧ o'.header = o.header
  known : ∀ id o, e.orders id = some o → used id

theorem sound_init (used : UInt32 → Prop) : (init : Engine UInt32 I T).Sound used 0 := by
  have hbook : ∀ i sd, (init : Engine UInt32 I T).book i sd = Book.empty := by
    intro i sd
    cases sd <;> rfl
  have hrests : ∀ i sd, (init : Engine UInt32 I T).rests i sd = [] := by
    intro i sd
    rw [rests, hbook]
    rfl
  refine ⟨base_init, ?_, ?_, ?_, ?_, fun _ _ h => by cases h⟩
  · intro i sd
    rw [hbook]
    exact chainOk_nil
  · intro i sd o ho
    rw [hrests] at ho
    cases ho
  · intro i sd
    rw [hrests]
    exact List.nodup_nil
  · intro i sd o ho
    rw [hrests] at ho
    cases ho

theorem sideType_inj {sd sd' : Side} (h : sideType sd = sideType sd') : sd = sd' := by
  cases sd <;> cases sd' <;> first | rfl | cases h

/-- Two orders that rest under one id are one. -/
theorem Sound.header_eq (h : e.Sound used a) {i j : I} {sd sd' : Side} {o o' : Order UInt32 I T}
    (ho : o ∈ e.rests i sd) (ho' : o' ∈ e.rests j sd') (hid : o.orderId = o'.orderId) :
    o.header = o'.header := by
  rcases h.mapped i sd o ho with ⟨x, hx, hxo⟩
  rcases h.mapped j sd' o' ho' with ⟨y, hy, hyo⟩
  rw [hid, hy] at hx
  cases hx
  exact hxo.symm.trans hyo

/-- Some orders leave one chain, and the map loses their ids. -/
theorem Sound.take (h : e.Sound used a) {next' : List (OrderNode UInt32 I T)}
    (gone : List (Order UInt32 I T)) {orders : ConcurrentHashMap UInt32 (Order UInt32 I T)}
    (hstays : Stays (e.book i sd).next next') (hchain : ChainOk sd next')
    (hperm : ((listed (e.book i sd).next).map Order.header).Perm
      ((gone ++ listed next').map Order.header))
    (horders : ∀ id, orders id = if id ∈ gone.map Order.orderId then none else e.orders id) :
    ({ e.setBook i sd { e.book i sd with next := next' } with orders } :
      Engine UInt32 I T).Sound used a := by
  have hbook : ∀ j sd', ({ e.setBook i sd { e.book i sd with next := next' } with orders } :
      Engine UInt32 I T).book j sd' =
        if j = i ∧ sd' = sd then { e.book i sd with next := next' } else e.book j sd' :=
    fun j sd' => book_setBook e i j sd sd' _
  -- the headers of the chain, the orders that left it first
  have hrests : ((e.rests i sd).map Order.header).Perm
      ((gone ++ ((e.book i sd).head.orders ++ listed next')).map Order.header) := by
    rw [rests, List.map_append]
    refine (hperm.append_left _).trans ?_
    rw [List.map_append, List.map_append, List.map_append, ← List.append_assoc,
      ← List.append_assoc]
    exact List.perm_append_comm.append_right _
  have hold : ∀ o ∈ gone ++ ((e.book i sd).head.orders ++ listed next'),
      ∃ o' ∈ e.rests i sd, o'.header = o.header :=
    fun o ho => List.mem_map.mp (hrests.mem_iff.mpr (List.mem_map_of_mem ho))
  have haddr : ((gone ++ ((e.book i sd).head.orders ++ listed next')).map Order.address).Nodup := by
    have hmap := hrests.map Order.address
    rw [List.map_map, List.map_map] at hmap
    exact hmap.nodup (h.nodup i sd)
  rw [List.map_append, List.nodup_append] at haddr
  have hnew : ∀ j sd', ∀ o ∈ (if j = i ∧ sd' = sd then
      { e.book i sd with next := next' } else e.book j sd').head.orders ++
        listed (if j = i ∧ sd' = sd then
          { e.book i sd with next := next' } else e.book j sd').next,
      ∃ o' ∈ e.rests j sd', o'.header = o.header := by
    intro j sd' o ho
    split at ho
    next heq =>
      rw [heq.1, heq.2]
      exact hold o (List.mem_append_right gone ho)
    · exact ⟨o, ho, rfl⟩
  constructor
  case base => exact h.base.stays hstays
  case chain =>
    intro j sd'
    rw [hbook]
    split
    next heq =>
      rw [heq.2]
      exact hchain
    · exact h.chain j sd'
  case place =>
    intro j sd' o ho
    rw [rests, hbook] at ho
    rcases hnew j sd' o ho with ⟨o', ho', heq⟩
    have hp := h.place j sd' o' ho'
    exact ⟨(header_orderType heq).symm.trans hp.1, (header_instrument heq).symm.trans hp.2⟩
  case nodup =>
    intro j sd'
    rw [rests, hbook]
    split
    · exact haddr.2.1
    · exact h.nodup j sd'
  case mapped =>
    intro j sd' o ho
    rw [rests, hbook] at ho
    rcases hnew j sd' o ho with ⟨o', ho', heq⟩
    have hid : o'.orderId = o.orderId := header_orderId heq
    rcases h.mapped j sd' o' ho' with ⟨x, hx, hxo⟩
    refine ⟨x, ?_, hxo.trans heq⟩
    show orders o.orderId = some x
    rw [horders, if_neg, ← hid]
    · exact hx
    -- an order that left under the same id would be this one
    intro hgone
    rcases List.mem_map.mp hgone with ⟨g, hg, hgid⟩
    rcases hold g (List.mem_append_left _ hg) with ⟨g', hg', hgg⟩
    have hheader : g'.header = o'.header := by
      apply h.header_eq hg' ho'
      rw [hid, ← hgid]
      exact header_orderId hgg
    have hpg := h.place i sd g' hg'
    have hpo := h.place j sd' o' ho'
    have hj : j = i := by
      rw [← hpo.2, ← hpg.2]
      exact (header_instrument hheader).symm
    have hsd : sd' = sd := by
      apply sideType_inj
      rw [← hpo.1, ← hpg.1]
      exact (header_orderType hheader).symm
    rw [if_pos ⟨hj, hsd⟩] at ho
    apply haddr.2.2 g.address (List.mem_map_of_mem hg) o.address (List.mem_map_of_mem ho)
    exact header_address (hgg.symm.trans (hheader.trans heq))
  case known =>
    intro id o ho
    change orders id = some o at ho
    rw [horders] at ho
    split at ho
    · cases ho
    · exact h.known id o ho

theorem Sound.matchActive (h : e.Sound used a) (sd : Side) (o : Order UInt32 I T) :
    (e.matchActive sd o).Sound used a := by
  have hc := h.chain o.instrument sd.opp
  rcases matchLoop_kept sd.opp o hc.ok hc.small o.count false 0 0 with
    ⟨hshrinks, gone, rest, hsplit, hheader, hremoved⟩
  have hnext := next_eq_kept sd.opp o (e.book o.instrument sd.opp).next
  rw [matchOrder] at hnext
  rw [← hnext] at hheader hshrinks
  apply h.take gone stays_matched (hc.shrink hshrinks)
  · rw [hsplit, List.map_append, List.map_append]
    exact List.Perm.of_eq (congrArg (_ ++ ·) hheader.symm)
  · intro id
    rw [foldl_remove]
    rw [matchOrder, hremoved]
    rfl

theorem Sound.processCancelOrder (h : e.Sound used a) (o : Order UInt32 I T) :
    (e.processCancelOrder o).1.Sound used a := by
  have hc := h.chain o.instrument (sideOf o)
  rw [processCancelOrder_fst]
  have hshrink := hc.shrink (cancelOrder_shrinks (o := o) hc.ok)
  rcases cancelOrder_taken (o := o) hc.ok hc.small with ⟨hnone, heq⟩ | ⟨x, hx, hid, hperm⟩
  · apply h.take [] stays_cancelled hshrink
    · rw [heq, List.nil_append]
    · intro id
      rw [if_pos hnone]
      rfl
  · apply h.take [x] stays_cancelled hshrink
    · exact hperm.map _
    · intro id
      rw [if_neg (by rw [hx]; exact fun hn => by cases hn), ConcurrentHashMap.remove, List.map_singleton, hid]
      by_cases heq : id = o.orderId
      · subst heq
        rw [Function.update_self, if_pos (List.mem_singleton_self _)]
      · rw [Function.update_of_ne heq, if_neg fun h => heq (List.mem_singleton.mp h)]

theorem Sound.addActive (h : e.Sound used a) (sd : Side) (o : Order UInt32 I T)
    (htype : o.orderType = sideType sd) (haddr : o.address = a) (hpos : 0 < o.count.toNat)
    (hfit : atPrice o.price (e.book o.instrument sd).next + o.count.toNat < 2 ^ 32)
    (hfresh : ¬ used o.orderId) :
    (e.addActive sd o).Sound (fun id => used id ∨ id = o.orderId) (a + 1) := by
  have hnone : e.orders o.orderId = none := by
    rcases ho : e.orders o.orderId with _ | x
    · rfl
    · exact absurd (h.known _ x ho) hfresh
  have horders : (e.addActive sd o).orders = Function.update e.orders o.orderId (some o) :=
    get_set hnone o
  have hperm := addWalk_perm sd o (e.book o.instrument sd).head
    (e.book o.instrument sd).next
  have hrests : ∀ j sd', ((e.addActive sd o).rests j sd').Perm (e.rests j sd') ∨
      (j = o.instrument ∧ sd' = sd) ∧
        ((e.addActive sd o).rests j sd').Perm (o :: e.rests j sd') := by
    intro j sd'
    rw [rests, book_addActive]
    split
    next heq =>
      rw [heq.1, heq.2]
      exact Or.inr ⟨⟨rfl, rfl⟩, hperm⟩
    · exact Or.inl (List.Perm.refl _)
  have hmem : ∀ j sd', ∀ o' ∈ (e.addActive sd o).rests j sd', o' ∈ e.rests j sd' ∨
      (j = o.instrument ∧ sd' = sd) ∧ o' = o := by
    intro j sd' o' ho'
    rcases hrests j sd' with hp | ⟨heq, hp⟩
    · exact Or.inl (hp.mem_iff.mp ho')
    · rcases List.mem_cons.mp (hp.mem_iff.mp ho') with rfl | ho'
      · exact Or.inr ⟨heq, rfl⟩
      · exact Or.inl ho'
  constructor
  case base =>
    apply Base.addActive _ sd o (haddr ▸ Nat.lt_succ_self _)
    exact ⟨h.base.head, h.base.sell, fun j sd' o' ho' =>
      (h.base.address j sd' o' ho').trans_le (Nat.le_succ _)⟩
  case chain =>
    intro j sd'
    rw [book_addActive]
    split
    next heq =>
      rw [heq.2]
      have hc := h.chain o.instrument sd
      have hnew : ∀ x ∈ listed (e.book o.instrument sd).next, x.address < o.address := by
        intro x hx
        rw [haddr]
        exact h.base.address o.instrument sd x (List.mem_append_right _ hx)
      rcases addWalk_inserted o (e.book o.instrument sd).head hc.sorted with
        ⟨-, hins, -⟩ | ⟨heq', -, -⟩
      · exact hc.insert hins hpos hfit hnew
      · show ChainOk sd (addWalk sd o _ _).2
        rw [heq']
        exact hc
    · exact h.chain j sd'
  case place =>
    intro j sd' o' ho'
    rcases hmem j sd' o' ho' with ho' | ⟨⟨rfl, rfl⟩, rfl⟩
    · exact h.place j sd' o' ho'
    · exact ⟨htype, rfl⟩
  case nodup =>
    intro j sd'
    rcases hrests j sd' with hp | ⟨-, hp⟩
    · exact (hp.map _).nodup_iff.mpr (h.nodup j sd')
    · rw [(hp.map _).nodup_iff, List.map_cons, List.nodup_cons]
      refine ⟨?_, h.nodup j sd'⟩
      intro hin
      rcases List.mem_map.mp hin with ⟨x, hx, hxa⟩
      exact absurd (hxa.trans haddr) (h.base.address j sd' x hx).ne
  case mapped =>
    intro j sd' o' ho'
    rw [horders]
    rcases hmem j sd' o' ho' with ho' | ⟨-, rfl⟩
    · rcases h.mapped j sd' o' ho' with ⟨x, hx, hxo⟩
      have hne : o'.orderId ≠ o.orderId := by
        intro heq
        rw [heq, hnone] at hx
        cases hx
      exact ⟨x, by rw [Function.update_of_ne hne, hx], hxo⟩
    · exact ⟨o', Function.update_self .., rfl⟩
  case known =>
    intro id x hx
    rw [horders] at hx
    by_cases heq : id = o.orderId
    · exact Or.inr heq
    · rw [Function.update_of_ne heq] at hx
      exact Or.inl (h.known id x hx)

/-- The counts that rest at the price of a new order, with what will be left of it, fit in 32 bits. -/
def FitsCmd (e : Engine UInt32 I T) : Command UInt32 I → Prop
  | .order sd _ i price count _ =>
    atPrice price (e.book i sd).next +
      (count.toNat - crossing sd.opp price (e.book i sd.opp).next) < 2 ^ 32
  | .cancel _ _ => True

theorem Sound.mono {used' : UInt32 → Prop} {a' : ℕ} (h : e.Sound used a)
    (hused : ∀ id, used id → used' id) (hle : a ≤ a') : e.Sound used' a' where
  base := ⟨h.base.head, h.base.sell, fun i sd o ho => (h.base.address i sd o ho).trans_le hle⟩
  chain := h.chain
  place := h.place
  nodup := h.nodup
  mapped := h.mapped
  known := fun id o ho => hused id (h.known id o ho)

theorem Sound.exec (h : e.Sound used e.nextAddress) (t : T) {c : Command UInt32 I}
    (hfresh : ∀ id, newId (t, c) = some id → ¬ used id) (hfit : e.FitsCmd c) :
    (e.exec t c).1.Sound (fun id => used id ∨ newId (t, c) = some id)
      (e.exec t c).1.nextAddress := by
  cases c with
  | order sd orderId i price count inputTime =>
    rw [nextAddress_exec_order]
    have h₁ : Sound used { e with nextAddress := e.nextAddress + 1 } e.nextAddress :=
      ⟨⟨h.base.head, h.base.sell, h.base.address⟩, h.chain, h.place, h.nodup, h.mapped, h.known⟩
    have h₂ := h₁.matchActive sd (newOrder e.nextAddress sd orderId i price count inputTime t)
    rcases e.exec_order_cases t sd orderId i price count inputTime with ⟨-, heq⟩ | ⟨hpos, heq⟩
    · rw [heq]
      exact h₂.mono (fun _ => Or.inl) (Nat.le_succ _)
    · rw [heq]
      have hleft := matchLoop_left (o := newOrder e.nextAddress sd orderId i price count inputTime t)
        (h.chain i sd.opp) count false 0 0
      have h₃ := h₂.addActive sd (e.leftOrder t sd orderId i price count inputTime) rfl rfl
        (UInt32.lt_iff_toNat_lt.mp hpos) ?_ (hfresh orderId rfl)
      · apply h₃.mono _ (le_refl _)
        rintro id (hid | rfl)
        · exact Or.inl hid
        · exact Or.inr rfl
      · show atPrice price (book _ i sd).next + (matchLoop sd.opp _ _ count false 0 0).left.toNat < _
        rw [book_matchActive_own, hleft]
        exact hfit
  | cancel orderId inputTime =>
    rcases e.exec_cancel_cases t orderId inputTime with heq | ⟨o, -, -, heq⟩
    · rw [heq]
      exact h.mono (fun _ => Or.inl) (le_refl _)
    · rw [heq]
      have h' := h.processCancelOrder o
      rw [processCancelOrder_fst] at h' ⊢
      exact h'.mono (fun _ => Or.inl) (le_refl _)

/-- Every command of the run meets the condition on the sums. -/
def FitsRun (e : Engine UInt32 I T) : List (T × Command UInt32 I) → Prop
  | [] => True
  | (t, c) :: cs => e.FitsCmd c ∧ FitsRun (e.exec t c).1 cs

/-! ## What a listed order may count on -/

/-- The counts of the listed orders with a better price, or with the same and added before. -/
def ahead (e : Engine UInt32 I T) (i : I) (sd : Side) (p : Order UInt32 I T) : ℕ :=
  total ((listed (e.book i sd).next).filter fun q =>
    sd.Better q.price p.price ∨ q.price = p.price ∧ q.address < p.address)

/-- The order at this address stands after the head, trades when its turn comes, and its owner can
    cancel it. -/
structure ServedAt (e : Engine UInt32 I T) (i : I) (sd : Side) (p : Order UInt32 I T) : Prop where
  listed : p ∈ listed (e.book i sd).next
  trades : ∀ t orderId price count inputTime, sd.Crosses price p.price →
    e.ahead i sd p < count.toNat →
    ∃ matched, .executed p.orderId orderId p.executionId p.price matched inputTime ∈
      (e.exec t (.order sd.opp orderId i price count inputTime)).2
  cancel : ∀ inputTime, ∃ inputTime',
    (e.exec p.rId (.cancel p.orderId inputTime)).2 = [.deleted p.orderId true inputTime']

variable {p : Order UInt32 I T}

/-- What the walk takes before it gets to an order is at most what stands ahead of it. -/
theorem Sound.split_at (h : e.Sound used a) (hp : p ∈ Go.listed (e.book i sd).next) :
    ∃ pre n post os os', (e.book i sd).next = pre ++ n :: post ∧ n.orders = os ++ p :: os' ∧
      n.price = p.price ∧ (∀ m ∈ pre, sd.Better m.price p.price) ∧
      total (Go.listed pre) + total os ≤ e.ahead i sd p := by
  have hc := h.chain i sd
  rcases List.mem_flatMap.mp hp with ⟨n, hn, hpn⟩
  rcases List.append_of_mem hn with ⟨pre, post, hnext⟩
  rcases List.append_of_mem hpn with ⟨os, os', horders⟩
  have hprice := hc.priced n hn p hpn
  have hs := hc.sorted
  rw [hnext, prices, List.map_append, List.map_cons, List.pairwise_append] at hs
  have hpre : ∀ m ∈ pre, sd.Better m.price p.price := by
    intro m hm
    rw [hprice]
    exact hs.2.2 _ (List.mem_map_of_mem hm) _ List.mem_cons_self
  have harrival := hc.arrival n hn
  rw [horders, List.map_append, List.map_cons, List.pairwise_append] at harrival
  refine ⟨pre, n, post, os, os', hnext, horders, hprice.symm, hpre, ?_⟩
  have h1 : (Go.listed pre).filter (fun q => decide (sd.Better q.price p.price ∨
      q.price = p.price ∧ q.address < p.address)) = Go.listed pre := by
    apply List.filter_eq_self.mpr
    intro q hq
    rcases List.mem_flatMap.mp hq with ⟨m, hm, hqm⟩
    apply decide_eq_true
    left
    rw [hc.priced m (hnext ▸ List.mem_append_left _ hm) q hqm]
    exact hpre m hm
  have h2 : os.filter (fun q => decide (sd.Better q.price p.price ∨
      q.price = p.price ∧ q.address < p.address)) = os := by
    apply List.filter_eq_self.mpr
    intro q hq
    apply decide_eq_true
    right
    constructor
    · rw [hprice]
      exact hc.priced n hn q (horders ▸ List.mem_append_left _ hq)
    · exact harrival.2.2 _ (List.mem_map_of_mem hq) _ List.mem_cons_self
  have hlisted : Go.listed (e.book i sd).next =
      Go.listed pre ++ (os ++ p :: os' ++ Go.listed post) := by
    rw [hnext, Go.listed, List.flatMap_append, List.flatMap_cons, horders]
  rw [ahead, hlisted, List.filter_append, List.filter_append, List.filter_append, total_append,
    total_append, total_append, h1, h2]
  omega

theorem Sound.trades (h : e.Sound used a) (hp : p ∈ Go.listed (e.book i sd).next) (t : T)
    {orderId price count : UInt32} (inputTime : ℤ) (hcross : sd.Crosses price p.price)
    (hq : e.ahead i sd p < count.toNat) :
    ∃ matched, .executed p.orderId orderId p.executionId p.price matched inputTime ∈
      (e.exec t (.order sd.opp orderId i price count inputTime)).2 := by
  rcases h.split_at hp with ⟨pre, n, post, os, os', hnext, horders, hprice, hpre, hle⟩
  have hc := h.chain i sd
  have hin : ∀ m ∈ pre, m ∈ (e.book i sd).next := fun m hm => hnext ▸ List.mem_append_left _ hm
  rcases matchLoop_reaches post
    (o := newOrder e.nextAddress sd.opp orderId i price count inputTime t)
    (fun m hm => hc.ok m (hin m hm)) (fun m hm => hc.small m (hin m hm))
    (fun m hm => hcross.of_better (hpre m hm)) (hprice ▸ hcross) horders (lt_of_le_of_lt hle hq)
    false 0 0 with ⟨matched, hmem⟩
  rw [← hnext] at hmem
  refine ⟨matched, ?_⟩
  have hcases := e.exec_order_cases t sd.opp orderId i price count inputTime
  rw [Side.opp_opp] at hcases
  rcases hcases with ⟨-, heq⟩ | ⟨-, heq⟩
  · rw [heq]
    exact hmem
  · rw [heq]
    exact List.mem_append_left _ hmem

theorem Sound.cancels (h : e.Sound used a) (hp : p ∈ Go.listed (e.book i sd).next)
    (inputTime : ℤ) :
    ∃ inputTime', (e.exec p.rId (.cancel p.orderId inputTime)).2 =
      [.deleted p.orderId true inputTime'] := by
  have hrest : p ∈ e.rests i sd := List.mem_append_right _ hp
  rcases h.mapped i sd p hrest with ⟨o, ho, hop⟩
  have hpl := h.place i sd p hrest
  have hinstr : o.instrument = i := (header_instrument hop).trans hpl.2
  have hside : sideOf o = sd := by
    rw [sideOf, header_orderType hop, hpl.1]
    cases sd <;> rfl
  rcases List.mem_flatMap.mp hp with ⟨n, hn, hpn⟩
  have hc := h.chain i sd
  have hprice : n.price = o.price := by
    rw [header_price hop]
    exact (hc.priced n hn p hpn).symm
  rcases cancelOrder_found hc hn hprice hpn (header_orderId hop) with ⟨x, hx⟩
  refine ⟨o.inputTime, ?_⟩
  have hexec : e.exec p.rId (.cancel p.orderId inputTime) = e.processCancelOrder o := by
    simp only [Engine.exec, ConcurrentHashMap.get, ho, header_rId hop, ne_eq, not_true_eq_false,
      if_false]
  rw [hexec]
  simp only [Engine.processCancelOrder, hinstr, hside, hx, header_orderId hop]

theorem Sound.served (h : e.Sound used a) (hp : p ∈ Go.listed (e.book i sd).next) :
    e.ServedAt i sd p :=
  ⟨hp, fun t _ _ _ inputTime hcross hq => h.trades hp t inputTime hcross hq, h.cancels hp⟩

/-! ## Runs -/

variable {cs cs' : List (T × Command UInt32 I)} {x : T × Command UInt32 I}

theorem run_append (e : Engine UInt32 I T) (cs cs' : List (T × Command UInt32 I)) :
    e.run (cs ++ cs') = (e.run cs).run cs' := by
  induction cs generalizing e with
  | nil => rfl
  | cons x cs ih => exact ih (e.exec x.1 x.2).1

theorem Sound.run {e : Engine UInt32 I T} {used : UInt32 → Prop}
    (h : e.Sound used e.nextAddress) (hids : (cs.filterMap newId).Nodup)
    (hfresh : ∀ id ∈ cs.filterMap newId, ¬ used id) (hfit : e.FitsRun cs) :
    (e.run cs).Sound (fun id => used id ∨ id ∈ cs.filterMap newId) (e.run cs).nextAddress := by
  induction cs generalizing e used with
  | nil => exact h.mono (fun _ => Or.inl) (le_refl _)
  | cons x cs ih =>
    have hmem : ∀ {id}, newId x = some id → id ∈ (x :: cs).filterMap newId :=
      fun hid => List.mem_filterMap.mpr ⟨x, List.mem_cons_self, hid⟩
    have hstep := h.exec x.1 (c := x.2) (fun id hid => hfresh id (hmem hid)) hfit.1
    have hsub := (List.sublist_cons_self x cs).filterMap newId
    have hrest : ∀ id ∈ cs.filterMap newId, ¬ (used id ∨ newId x = some id) := by
      rintro id hid (hu | hx)
      · exact hfresh id (hsub.subset hid) hu
      · rw [List.filterMap_cons, hx] at hids
        exact (List.nodup_cons.mp hids).1 hid
    apply (ih hstep (hids.sublist hsub) hrest hfit.2).mono _ (le_refl _)
    rintro id ((hu | hx) | hid)
    · exact Or.inl hu
    · exact Or.inr (hmem hx)
    · exact Or.inr (hsub.subset hid)

/-- Only a new order is put into a head. -/
theorem head_exec (e : Engine UInt32 I T) (t : T) (c : Command UInt32 I) (i : I) (sd : Side) :
    ∀ p ∈ ((e.exec t c).1.book i sd).head.orders,
      p ∈ (e.book i sd).head.orders ∨ p.address = e.nextAddress := by
  have hset : ∀ (e' : Engine UInt32 I T) (j : I) (sd' : Side) (next' : List (OrderNode UInt32 I T)),
      ((e'.setBook j sd' { e'.book j sd' with next := next' }).book i sd).head =
        (e'.book i sd).head := by
    intro e' j sd' next'
    rw [book_setBook]
    split
    next heq => rw [heq.1, heq.2]
    · rfl
  intro p hp
  cases c with
  | order sd' orderId j price count inputTime =>
    rcases e.exec_order_cases t sd' orderId j price count inputTime with ⟨-, heq⟩ | ⟨-, heq⟩
    · rw [heq] at hp
      change p ∈ ((Engine.setBook _ _ _ _).book i sd).head.orders at hp
      rw [hset] at hp
      exact Or.inl hp
    · rw [heq, book_addActive] at hp
      split at hp
      next hij =>
        have hbook : (matchActive { e with nextAddress := e.nextAddress + 1 } sd'
            (newOrder e.nextAddress sd' orderId j price count inputTime t)).book j sd' =
              e.book j sd' := book_matchActive_own _ sd' _ j
        have hi : i = j := hij.1
        change p ∈ (addWalk sd' _ (book _ j sd').head (book _ j sd').next).1.orders at hp
        rw [hbook] at hp
        rw [hi, hij.2]
        rcases addWalk_head sd' (e.leftOrder t sd' orderId j price count inputTime)
          (e.book j sd').head (e.book j sd').next with hw | hw
        · rw [hw] at hp
          exact Or.inl hp
        · rw [hw] at hp
          rcases List.mem_append.mp hp with hp | hp
          · exact Or.inl hp
          · cases List.mem_singleton.mp hp
            exact Or.inr rfl
      · change p ∈ ((Engine.setBook _ _ _ _).book i sd).head.orders at hp
        rw [hset] at hp
        exact Or.inl hp
  | cancel orderId inputTime =>
    rcases e.exec_cancel_cases t orderId inputTime with heq | ⟨o, -, -, heq⟩
    · rw [heq] at hp
      exact Or.inl hp
    · rw [heq, processCancelOrder_fst] at hp
      change p ∈ ((Engine.setBook _ _ _ _).book i sd).head.orders at hp
      rw [hset] at hp
      exact Or.inl hp

theorem nextAddress_exec (e : Engine UInt32 I T) (t : T) (c : Command UInt32 I) :
    e.nextAddress ≤ (e.exec t c).1.nextAddress := by
  cases c with
  | order sd orderId i price count inputTime =>
    rw [nextAddress_exec_order]
    exact Nat.le_succ _
  | cancel orderId inputTime =>
    rcases e.exec_cancel_cases t orderId inputTime with heq | ⟨o, -, -, heq⟩
    · rw [heq]
    · rw [heq, processCancelOrder_fst]
      exact le_refl _

/-- An order that is not in the head does not get there. -/
theorem not_head_run {e : Engine UInt32 I T} {a : ℕ} (hlt : a < e.nextAddress)
    (h : ∀ p ∈ (e.book i sd).head.orders, p.address ≠ a) (cs : List (T × Command UInt32 I)) :
    ∀ p ∈ ((e.run cs).book i sd).head.orders, p.address ≠ a := by
  induction cs generalizing e with
  | nil => exact h
  | cons x cs ih =>
    apply ih (hlt.trans_le (nextAddress_exec e x.1 x.2))
    intro p hp
    rcases head_exec e x.1 x.2 i sd p hp with hold | hnew
    · exact h p hold
    · rw [hnew]
      exact hlt.ne'

/-- A booked order is served for as long as it rests, whatever follows while the sums fit, if and
    only if it was listable. -/
theorem served_iff {orderId price count : UInt32} {inputTime : ℤ}
    (hx : x = (t, .order sd orderId i price count inputTime))
    (hids : ((cs ++ [x]).filterMap newId).Nodup)
    (hfit : (init : Engine UInt32 I T).FitsRun (cs ++ [x]))
    (hbooked : ((init : Engine UInt32 I T).run (cs ++ [x])).RestsAt i sd
      ((init : Engine UInt32 I T).run cs).nextAddress) :
    (∀ cs', ((cs ++ x :: cs').filterMap newId).Nodup →
        (init : Engine UInt32 I T).FitsRun (cs ++ x :: cs') →
        ∀ p ∈ ((init : Engine UInt32 I T).run (cs ++ x :: cs')).rests i sd,
          p.address = ((init : Engine UInt32 I T).run cs).nextAddress →
          ((init : Engine UInt32 I T).run (cs ++ x :: cs')).ServedAt i sd p) ↔
      Listable sd price (((init : Engine UInt32 I T).run cs).book i sd).next := by
  subst hx
  have hbase : ((init : Engine UInt32 I T).run cs).Base _ := base_run base_init cs
  have hlisted := listed_iff t i sd orderId price count inputTime hbase
    (by rw [run_append] at hbooked; exact hbooked)
  have hsound : ∀ cs', (cs'.filterMap newId).Nodup → (init : Engine UInt32 I T).FitsRun cs' →
      ((init : Engine UInt32 I T).run cs').Sound (fun id => False ∨ id ∈ cs'.filterMap newId)
        ((init : Engine UInt32 I T).run cs').nextAddress :=
    fun cs' hids' hfit' => Sound.run (sound_init (fun _ => False)) hids' (fun _ _ h => h) hfit'
  constructor
  · intro hall
    rcases hbooked with ⟨p, hp, ha⟩
    have hs := hall [] hids hfit p hp ha
    rw [← hlisted]
    refine ⟨p, ?_, ha⟩
    have hmem := hs.listed
    rw [run_append] at hmem
    exact hmem
  · intro hl cs' hids' hfit' p hp ha
    have hs := hsound _ hids' hfit'
    apply hs.served
    apply (List.mem_append.mp hp).resolve_left
    intro hhead
    have hnot : ∀ q ∈ (((init : Engine UInt32 I T).run
        (cs ++ [(t, .order sd orderId i price count inputTime)])).book i sd).head.orders,
        q.address ≠ ((init : Engine UInt32 I T).run cs).nextAddress := by
      rcases hlisted.mpr hl with ⟨y, hy, hya⟩
      have hnd := (hsound _ hids hfit).nodup i sd
      rw [rests, List.map_append, List.nodup_append] at hnd
      intro q hq hqa
      apply hnd.2.2 q.address (List.mem_map_of_mem hq) y.address _ (hqa.trans hya.symm)
      apply List.mem_map_of_mem
      rw [run_append]
      exact hy
    rw [List.append_cons, run_append] at hhead
    apply not_head_run _ hnot cs' p hhead ha
    rw [run_append]
    show _ < (Engine.exec _ t _).1.nextAddress
    rw [nextAddress_exec_order]
    exact Nat.lt_succ_self _

end Engine

end MatchingEngine.Go
