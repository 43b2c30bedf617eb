import MatchingEngine.Go.Remainder
import MatchingEngine.Go.Engine

/-!
# The chain of a book while the sums fit

Sorted by price, the orders of a node in arrival order, and the volumes exact: matching takes orders
from the front and cancelling takes one out, and both drop the nodes that get empty; adding puts an
order behind those of its price.
-/

namespace MatchingEngine.Go

variable {I T : Type} {sd : Side} {o : Order UInt32 I T} {node : OrderNode UInt32 I T}
  {next next' : List (OrderNode UInt32 I T)}

/-- The orders that stand after the head. -/
abbrev listed (next : List (OrderNode UInt32 I T)) : List (Order UInt32 I T) :=
  next.flatMap OrderNode.orders

/-- What does not change of an order. -/
def Order.header (o : Order UInt32 I T) : Order UInt32 I T := { o with count := 0, executionId := 0 }

section Header

variable {o o' : Order UInt32 I T} (h : o.header = o'.header)

include h

theorem header_address : o.address = o'.address := congrArg (fun x => x.address) h

theorem header_orderType : o.orderType = o'.orderType := congrArg (fun x => x.orderType) h

theorem header_orderId : o.orderId = o'.orderId := congrArg (fun x => x.orderId) h

theorem header_price : o.price = o'.price := congrArg (fun x => x.price) h

theorem header_instrument : o.instrument = o'.instrument := congrArg (fun x => x.instrument) h

theorem header_rId : o.rId = o'.rId := congrArg (fun x => x.rId) h

end Header

/-- What is left of a node. -/
structure OrderNode.Shrunk (node node' : OrderNode UInt32 I T) : Prop where
  ok : node'.Ok
  price : node'.price = node.price
  total : total node'.orders ≤ total node.orders
  orders : (node'.orders.map Order.header).Sublist (node.orders.map Order.header)

theorem OrderNode.Shrunk.refl (h : node.Ok) : node.Shrunk node :=
  ⟨h, rfl, le_refl _, List.Sublist.refl _⟩

/-- What is left of a chain: of some of its nodes. -/
def Shrinks (next next' : List (OrderNode UInt32 I T)) : Prop :=
  ∃ mid : List (OrderNode UInt32 I T), mid.Sublist next ∧ List.Forall₂ OrderNode.Shrunk mid next'

theorem Shrinks.refl (h : ∀ n ∈ next, n.Ok) : Shrinks next next :=
  ⟨next, List.Sublist.refl _, List.forall₂_same.mpr fun n hn => OrderNode.Shrunk.refl (h n hn)⟩

theorem Shrinks.drop (h : Shrinks next next') : Shrinks (node :: next) next' := by
  rcases h with ⟨mid, hsub, hmid⟩
  exact ⟨mid, hsub.cons node, hmid⟩

theorem Shrinks.cons {node' : OrderNode UInt32 I T} (hnode : node.Shrunk node')
    (h : Shrinks next next') : Shrinks (node :: next) (node' :: next') := by
  rcases h with ⟨mid, hsub, hmid⟩
  exact ⟨node :: mid, hsub.cons_cons node, hmid.cons hnode⟩

/-! ## Matching -/

/-- The orders that an `executeOrder` takes are the first ones, and their ids leave the map. -/
theorem executeLoop_taken (o : Order UInt32 I T) {os : List (Order UInt32 I T)} (left : UInt32)
    (node : OrderNode UInt32 I T) (hos : node.orders = os) :
    ∃ gone rest, os = gone ++ rest ∧
      (executeLoop o os left node).node.orders.map Order.header = rest.map Order.header ∧
      (executeLoop o os left node).removed = gone.map Order.orderId := by
  induction os generalizing left node with
  | nil => exact ⟨[], [], rfl, by rw [executeLoop, hos], rfl⟩
  | cons e rest ih =>
    rw [executeLoop]
    split
    · exact ⟨[], e :: rest, rfl, by rw [hos], rfl⟩
    · split
      · rcases ih (left - e.count) (node.remove e rest) rfl with
          ⟨gone, rest', hsplit, hheader, hremoved⟩
        refine ⟨e :: gone, rest', ?_, hheader, ?_⟩
        · rw [hsplit, List.cons_append]
        · dsimp only
          rw [hremoved, List.map_cons]
      · exact ⟨[], e :: rest, rfl, rfl, rfl⟩

theorem executeOrder_shrunk (h : node.Ok) (left : UInt32) :
    node.Shrunk (executeOrder o left node).node := by
  have hspec := executeLoop_spec o left h rfl
  rcases executeLoop_taken o left node rfl with
    ⟨gone, rest, hsplit, hheader, -⟩
  refine ⟨hspec.1, hspec.2.1, ?_, ?_⟩
  · show total (executeLoop o node.orders left node).node.orders ≤ total node.orders
    rw [hspec.2.2.2]
    exact Nat.sub_le _ _
  · show ((executeLoop o node.orders left node).node.orders.map Order.header).Sublist _
    rw [hheader, hsplit, List.map_append]
    exact List.sublist_append_right _ _

/-- The chain that is left of `next` when the calls of these visits have finished. -/
def kept (o : Order UInt32 I T) (next : List (OrderNode UInt32 I T))
    (visits : List (Visit UInt32 I T)) : List (OrderNode UInt32 I T) :=
  ((visits.filter fun x => ¬ x.Popped).map fun x => (executeOrder o x.left x.node).node) ++
    next.drop visits.length

theorem next_eq_kept (sd : Side) (o : Order UInt32 I T) (next : List (OrderNode UInt32 I T)) :
    (matchOrder sd o next).next o next = kept o next (matchOrder sd o next).visits := by
  rcases matchOrder_popped sd o next with ⟨xs, ys, hvisits, hxs, hys, hlen⟩
  have hfx : xs.filter (fun x => decide (¬ x.Popped)) = [] :=
    List.filter_eq_nil_iff.mpr fun x hx => by simpa using hxs x hx
  have hfy : ys.filter (fun x => decide (¬ x.Popped)) = ys :=
    List.filter_eq_self.mpr fun y hy => by simpa using hys y hy
  rw [kept, Matched.next, Matched.nodes, Matched.executed, hlen, hvisits, List.filter_append, hfx, hfy,
    List.nil_append, List.map_append, List.map_append, List.append_assoc,
    List.drop_append_of_le_length (by simp), List.drop_of_length_le (by simp), List.nil_append,
    List.map_map]
  rfl

/-- Matching takes the first orders; their ids leave the map. -/
theorem matchLoop_kept (sd : Side) (o : Order UInt32 I T) (hok : ∀ n ∈ next, n.Ok)
    (hsmall : ∀ n ∈ next, total n.orders < 2 ^ 32) (v : UInt32) (pop : Bool) (headNext curr : ℕ) :
    Shrinks next (kept o next (matchLoop sd o next v pop headNext curr).visits) ∧
      ∃ gone rest, listed next = gone ++ rest ∧
        (listed (kept o next (matchLoop sd o next v pop headNext curr).visits)).map Order.header =
          rest.map Order.header ∧
        ((matchLoop sd o next v pop headNext curr).executed o).flatMap Executed.removed =
          gone.map Order.orderId := by
  induction next generalizing v pop headNext curr with
  | nil => exact ⟨Shrinks.refl hok, [], [], rfl, rfl, rfl⟩
  | cons node next ih =>
    have hstay : kept o (node :: next) [] = node :: next := rfl
    rcases List.forall_mem_cons.mp hok with ⟨hnode, hnext⟩
    rcases List.forall_mem_cons.mp hsmall with ⟨hnode', hnext'⟩
    rw [matchLoop]
    split
    · exact ⟨Shrinks.refl hok, [], _, rfl, rfl, rfl⟩
    · rcases executeLoop_taken o v node rfl with
        ⟨gone₁, rest₁, hsplit₁, hheader₁, hremoved₁⟩
      by_cases hpop : node.volume ≤ v
      · rw [if_pos hpop]
        dsimp only
        have hempty : (executeOrder o v node).node.orders = [] := by
          rw [executeOrder_empty_iff hnode, ← Nat.mod_eq_of_lt hnode', ← hnode.toNat_volume]
          exact UInt32.le_iff_toNat_le.mp hpop
        rcases ih hnext hnext' (v - node.volume) true (if pop = true then curr else headNext)
          (curr + 1) with ⟨hshrinks, gone, rest, hsplit, hheader, hremoved⟩
        generalize matchLoop sd o next (v - node.volume) true _ (curr + 1) = r at *
        have hkept : kept o (node :: next) ({ left := v, node } :: r.visits) =
            kept o next r.visits := by
          rw [kept, kept, List.filter_cons_of_neg (by simpa [Visit.Popped] using hpop)]
          rfl
        -- the whole node goes
        have hrest₁ : rest₁ = [] := by
          rw [executeOrder] at hempty
          rw [hempty, List.map_nil] at hheader₁
          exact List.map_eq_nil_iff.mp hheader₁.symm
        rw [hrest₁, List.append_nil] at hsplit₁
        rw [hkept]
        refine ⟨hshrinks.drop, gone₁ ++ gone, rest, ?_, hheader, ?_⟩
        · rw [listed, List.flatMap_cons, hsplit₁, List.append_assoc, ← hsplit]
        · show (executeOrder o v node).removed ++ (r.executed o).flatMap Executed.removed = _
          rw [hremoved, List.map_append]
          exact congrArg (· ++ _) hremoved₁
      · rw [if_neg hpop]
        dsimp only
        have hz := (matchLoop_zero sd o next false
          (if pop = true then curr else headNext) (curr + 1)).1
        generalize matchLoop sd o next 0 false _ (curr + 1) = r at hz ⊢
        have hkept : kept o (node :: next) ({ left := v, node } :: r.visits) =
            (executeOrder o v node).node :: next := by
          rw [kept, hz, List.filter_cons_of_pos (by simpa [Visit.Popped] using hpop)]
          rfl
        rw [hkept]
        refine ⟨(Shrinks.refl hnext).cons (executeOrder_shrunk hnode v), gone₁,
          rest₁ ++ listed next, ?_, ?_, ?_⟩
        · rw [listed, List.flatMap_cons, hsplit₁, List.append_assoc]
        · rw [listed, List.flatMap_cons, List.map_append, List.map_append]
          exact congrArg (· ++ _) hheader₁
        · show (executeOrder o v node).removed ++ (r.executed o).flatMap Executed.removed = _
          rw [Matched.executed, hz, List.map_nil, List.flatMap_nil, List.append_nil]
          exact hremoved₁

/-! ## The chain -/

abbrev prices (next : List (OrderNode UInt32 I T)) : List UInt32 := next.map OrderNode.price

/-- The nodes after the head of a book. -/
structure ChainOk (sd : Side) (next : List (OrderNode UInt32 I T)) : Prop where
  ok : ∀ n ∈ next, n.Ok
  small : ∀ n ∈ next, total n.orders < 2 ^ 32
  sorted : (prices next).Pairwise sd.Better
  priced : ∀ n ∈ next, ∀ o ∈ n.orders, o.price = n.price
  arrival : ∀ n ∈ next, (n.orders.map Order.address).Pairwise (· < ·)

theorem chainOk_nil : ChainOk sd ([] : List (OrderNode UInt32 I T)) where
  ok := fun _ h => by cases h
  small := fun _ h => by cases h
  sorted := List.Pairwise.nil
  priced := fun _ h => by cases h
  arrival := fun _ h => by cases h

theorem ChainOk.tail (h : ChainOk sd (node :: next)) : ChainOk sd next where
  ok := (List.forall_mem_cons.mp h.ok).2
  small := (List.forall_mem_cons.mp h.small).2
  sorted := (List.pairwise_cons.mp h.sorted).2
  priced := (List.forall_mem_cons.mp h.priced).2
  arrival := (List.forall_mem_cons.mp h.arrival).2

theorem ChainOk.head_better (h : ChainOk sd (node :: next)) :
    ∀ n ∈ next, sd.Better node.price n.price :=
  fun _ hn => (List.pairwise_cons.mp h.sorted).1 _ (List.mem_map_of_mem hn)

theorem mem_of_header {os os' : List (Order UInt32 I T)}
    (h : (os'.map Order.header).Sublist (os.map Order.header)) (ho : o ∈ os') :
    ∃ o' ∈ os, o'.header = o.header :=
  List.mem_map.mp (h.subset (List.mem_map_of_mem ho))

theorem address_sublist {os os' : List (Order UInt32 I T)}
    (h : (os'.map Order.header).Sublist (os.map Order.header)) :
    (os'.map Order.address).Sublist (os.map Order.address) := by
  have hmap := h.map Order.address
  rw [List.map_map, List.map_map] at hmap
  exact hmap

theorem Shrinks.mem (h : Shrinks next next') {n' : OrderNode UInt32 I T} (hn : n' ∈ next') :
    ∃ n ∈ next, n.Shrunk n' := by
  rcases h with ⟨mid, hsub, hmid⟩
  rcases (List.forall₂_iff_get.mp hmid) with ⟨hlen, hget⟩
  rcases List.mem_iff_get.mp hn with ⟨k, rfl⟩
  have hk : k.1 < mid.length := by
    rw [hlen]
    exact k.2
  exact ⟨mid.get ⟨k.1, hk⟩, hsub.subset (List.get_mem _ _), hget k.1 hk k.2⟩

theorem Shrinks.prices (h : Shrinks next next') : (prices next').Sublist (prices next) := by
  rcases h with ⟨mid, hsub, hmid⟩
  have heq : Go.prices next' = Go.prices mid := by
    clear hsub
    induction hmid with
    | nil => rfl
    | cons hn _ ih =>
      rw [Go.prices, Go.prices, List.map_cons, List.map_cons, hn.price]
      exact congrArg (_ :: ·) ih
  rw [heq]
  exact hsub.map _

theorem ChainOk.shrink (h : ChainOk sd next) (hs : Shrinks next next') : ChainOk sd next' where
  ok := by
    intro n hn
    rcases hs.mem hn with ⟨m, -, hm⟩
    exact hm.ok
  small := by
    intro n hn
    rcases hs.mem hn with ⟨m, hmem, hm⟩
    exact lt_of_le_of_lt hm.total (h.small m hmem)
  sorted := h.sorted.sublist hs.prices
  priced := by
    intro n hn e he
    rcases hs.mem hn with ⟨m, hmem, hm⟩
    rcases mem_of_header hm.orders he with ⟨e', he', heq⟩
    rw [hm.price, ← h.priced m hmem e' he']
    exact (header_price heq).symm
  arrival := by
    intro n hn
    rcases hs.mem hn with ⟨m, hmem, hm⟩
    exact (h.arrival m hmem).sublist (address_sublist hm.orders)

/-- The counts of the orders that cross a limit, taken together. -/
def crossing (sd : Side) (limit : UInt32) (next : List (OrderNode UInt32 I T)) : ℕ :=
  total ((listed next).filter fun e => sd.Crosses limit e.price)

theorem ChainOk.crossing_cons {limit : UInt32} (h : ChainOk sd (node :: next))
    (hc : sd.Crosses limit node.price) :
    crossing sd limit (node :: next) = total node.orders + crossing sd limit next := by
  have hall : node.orders.filter (fun e => sd.Crosses limit e.price) = node.orders := by
    apply List.filter_eq_self.mpr
    intro e he
    rw [h.priced node List.mem_cons_self e he]
    exact decide_eq_true hc
  rw [crossing, listed, List.flatMap_cons, List.filter_append, total_append, hall]
  rfl

theorem ChainOk.crossing_none {limit : UInt32} (h : ChainOk sd (node :: next))
    (hc : ¬ sd.Crosses limit node.price) : crossing sd limit (node :: next) = 0 := by
  have hnone : (listed (node :: next)).filter (fun e => sd.Crosses limit e.price) = [] := by
    apply List.filter_eq_nil_iff.mpr
    intro e he hce
    have hce' := of_decide_eq_true hce
    rcases List.mem_flatMap.mp he with ⟨n, hn, hen⟩
    rw [h.priced n hn e hen] at hce'
    rcases List.mem_cons.mp hn with rfl | hn
    · exact hc hce'
    · exact hc (hce'.of_better (h.head_better n hn))
  rw [crossing, hnone, total_nil]

/-- What `MatchOrder` returns is what the crossing orders leave of the count. -/
theorem matchLoop_left (h : ChainOk sd next) (v : UInt32) (pop : Bool) (headNext curr : ℕ) :
    (matchLoop sd o next v pop headNext curr).left.toNat =
      v.toNat - crossing sd o.price next := by
  induction next generalizing v pop headNext curr with
  | nil => rfl
  | cons node next ih =>
    have hw := (h.ok node List.mem_cons_self).toNat_volume
    rw [Nat.mod_eq_of_lt (h.small node List.mem_cons_self)] at hw
    rw [matchLoop]
    split
    next hstop =>
      dsimp only
      by_cases hv : v = 0
      · rw [hv, UInt32.toNat_zero, Nat.zero_sub]
      · rw [h.crossing_none (hstop.resolve_left hv), Nat.sub_zero]
    next hgo =>
      rw [h.crossing_cons (not_not.mp (not_or.mp hgo).2)]
      by_cases hpop : node.volume ≤ v
      · rw [if_pos hpop]
        dsimp only
        rw [ih h.tail, UInt32.toNat_sub_of_le _ _ hpop, hw, Nat.sub_sub]
      · rw [if_neg hpop]
        dsimp only
        rw [(matchLoop_zero sd o next false _ _).2.1, UInt32.toNat_zero]
        rw [UInt32.le_iff_toNat_le, hw] at hpop
        omega

/-- An order trades if the count goes beyond everything that stands before it. -/
theorem executeLoop_reaches (o p : Order UInt32 I T) (node : OrderNode UInt32 I T)
    {os : List (Order UInt32 I T)} (os' : List (Order UInt32 I T)) {left : UInt32} (h : total os < left.toNat) :
    ∃ count, executeLine o p count ∈ (executeLoop o (os ++ p :: os') left node).out := by
  induction os generalizing left node with
  | nil =>
    have hz : left ≠ 0 := by
      rintro rfl
      exact absurd h (Nat.not_lt_zero _)
    rw [List.nil_append, executeLoop, if_neg hz]
    split
    · exact ⟨p.count, List.mem_cons_self⟩
    · exact ⟨left, List.mem_cons_self⟩
  | cons e os ih =>
    rw [total_cons] at h
    have hz : left ≠ 0 := by
      rintro rfl
      exact absurd h (Nat.not_lt_zero _)
    have hle : e.count ≤ left := by
      rw [UInt32.le_iff_toNat_le]
      omega
    have hlt : total os < (left - e.count).toNat := by
      rw [UInt32.toNat_sub_of_le _ _ hle]
      omega
    rcases ih (node.remove e (os ++ p :: os')) hlt with ⟨count, hmem⟩
    rw [List.cons_append, executeLoop, if_neg hz, if_pos hle]
    exact ⟨count, List.mem_cons_of_mem _ hmem⟩

theorem matchLoop_reaches {p : Order UInt32 I T} {pre : List (OrderNode UInt32 I T)}
    (post : List (OrderNode UInt32 I T)) {os os' : List (Order UInt32 I T)} (hok : ∀ n ∈ pre, n.Ok)
    (hsmall : ∀ n ∈ pre, total n.orders < 2 ^ 32)
    (hcross : ∀ n ∈ pre, sd.Crosses o.price n.price) (hnode : sd.Crosses o.price node.price)
    (horders : node.orders = os ++ p :: os') {v : UInt32}
    (h : total (listed pre) + total os < v.toNat) (pop : Bool) (headNext curr : ℕ) :
    ∃ count, executeLine o p count ∈
      (matchLoop sd o (pre ++ node :: post) v pop headNext curr).out o := by
  have hv : v ≠ 0 := by
    rintro rfl
    exact absurd h (Nat.not_lt_zero _)
  induction pre generalizing v pop headNext curr with
  | nil =>
    have hgo : ¬ (v = 0 ∨ ¬ sd.Crosses o.price node.price) :=
      fun h => h.elim hv (absurd hnode)
    have hlt : total os < v.toNat := lt_of_le_of_lt (Nat.le_add_left _ _) h
    rcases executeLoop_reaches o p node os' hlt with ⟨count, hmem⟩
    rw [← horders] at hmem
    rw [List.nil_append, matchLoop, if_neg hgo]
    exact ⟨count, List.mem_append_left _ hmem⟩
  | cons m pre ih =>
    rcases List.forall_mem_cons.mp hok with ⟨hm, hok'⟩
    rcases List.forall_mem_cons.mp hsmall with ⟨hm', hsmall'⟩
    rcases List.forall_mem_cons.mp hcross with ⟨hmc, hcross'⟩
    have hw := hm.toNat_volume
    rw [Nat.mod_eq_of_lt hm'] at hw
    rw [listed, List.flatMap_cons, total_append] at h
    have hgo : ¬ (v = 0 ∨ ¬ sd.Crosses o.price m.price) := fun h => h.elim hv (absurd hmc)
    have hpop : m.volume ≤ v := by
      rw [UInt32.le_iff_toNat_le, hw]
      omega
    have hlt : total (listed pre) + total os < (v - m.volume).toNat := by
      rw [UInt32.toNat_sub_of_le _ _ hpop, hw, listed]
      omega
    have hv' : v - m.volume ≠ 0 := by
      intro hz
      rw [hz] at hlt
      exact absurd hlt (Nat.not_lt_zero _)
    rcases ih hok' hsmall' hcross' hlt true (if pop = true then curr else headNext) (curr + 1) hv'
      with ⟨count, hmem⟩
    rw [List.cons_append, matchLoop, if_neg hgo, if_pos hpop]
    exact ⟨count, List.mem_append_right _ hmem⟩

/-! ## Cancelling -/

theorem cancelOrder_shrinks (h : ∀ n ∈ next, n.Ok) : Shrinks next (cancelOrder o next).next := by
  induction next with
  | nil => exact Shrinks.refl h
  | cons node next ih =>
    rcases List.forall_mem_cons.mp h with ⟨hnode, hnext⟩
    rw [cancelOrder]
    split
    · exact (ih hnext).cons (OrderNode.Shrunk.refl hnode)
    · rcases hfind : node.orders.find? (sameId o) with _ | e
      · exact Shrinks.refl h
      · have hok := hnode.remove (perm_cons_eraseP hfind)
        dsimp only
        split
        · exact (Shrinks.refl hnext).drop
        · apply (Shrinks.refl hnext).cons
          refine ⟨hok, rfl, ?_, List.eraseP_sublist.map _⟩
          have hsum := (perm_cons_eraseP hfind).map (fun e => e.count.toNat) |>.sum_eq
          rw [List.map_cons, List.sum_cons] at hsum
          show total (node.orders.eraseP (sameId o)) ≤ total node.orders
          unfold total
          omega

/-- An order that stands in the node of its price is found. -/
theorem cancelOrder_found (h : ChainOk sd next) {n : OrderNode UInt32 I T} {e : Order UInt32 I T}
    (hn : n ∈ next) (hprice : n.price = o.price) (he : e ∈ n.orders) (hid : o.orderId = e.orderId) :
    ∃ e', (cancelOrder o next).order = some e' := by
  induction next with
  | nil => cases hn
  | cons node next ih =>
    rw [cancelOrder]
    rcases List.mem_cons.mp hn with rfl | hn
    · rw [if_neg (not_not.mpr hprice)]
      rcases hfind : n.orders.find? (sameId o) with _ | e'
      · exact absurd (decide_eq_true hid) (List.find?_eq_none.mp hfind e he)
      · refine ⟨e', ?_⟩
        dsimp only
        split <;> rfl
    · have hne : node.price ≠ o.price := by
        rw [← hprice]
        exact (h.head_better n hn).ne
      rw [if_pos hne]
      exact ih h.tail hn

/-- What is taken out stood there with the id, and the rest stays as it was; nothing is taken out
    beside it. -/
theorem cancelOrder_taken (hok : ∀ n ∈ next, n.Ok) (hsmall : ∀ n ∈ next, total n.orders < 2 ^ 32) :
    ((cancelOrder o next).order = none ∧ (cancelOrder o next).next = next) ∨
      ∃ e, (cancelOrder o next).order = some e ∧ e.orderId = o.orderId ∧
        (listed next).Perm (e :: listed (cancelOrder o next).next) := by
  induction next with
  | nil => exact Or.inl ⟨rfl, rfl⟩
  | cons node next ih =>
    rcases List.forall_mem_cons.mp hok with ⟨hnode, hnext⟩
    rcases List.forall_mem_cons.mp hsmall with ⟨hnode', hnext'⟩
    rw [cancelOrder]
    split
    · rcases ih hnext hnext' with ⟨hnone, heq⟩ | ⟨e, he, hid, hperm⟩
      · exact Or.inl ⟨hnone, congrArg (node :: ·) heq⟩
      · refine Or.inr ⟨e, he, hid, ?_⟩
        have happ := hperm.append_left node.orders
        exact happ.trans List.perm_middle
    · rcases hfind : node.orders.find? (sameId o) with _ | e
      · exact Or.inl ⟨rfl, rfl⟩
      · have hperm := perm_cons_eraseP hfind
        have hsame : sameId o e = true := List.find?_some hfind
        have hid : e.orderId = o.orderId := (of_decide_eq_true hsame).symm
        have hshrunk : total (node.orders.eraseP (sameId o)) < 2 ^ 32 := by
          have hsum := hperm.map (fun e => e.count.toNat) |>.sum_eq
          rw [List.map_cons, List.sum_cons] at hsum
          unfold total at hnode' ⊢
          omega
        dsimp only
        split
        next hz =>
          -- the sum fits, so volume 0 means that the node is empty
          have hok' := hnode.remove hperm
          have hempty : node.orders.eraseP (sameId o) = [] := by
            have hw := hok'.toNat_volume
            rw [hz] at hw
            apply (total_eq_zero hok'.positive).mp
            exact (Nat.mod_eq_of_lt hshrunk).symm.trans hw.symm
          rw [hempty] at hperm
          exact Or.inr ⟨e, rfl, hid, hperm.append_right (listed next)⟩
        · exact Or.inr ⟨e, rfl, hid, hperm.append_right (listed next)⟩

/-! ## Adding -/

/-- The chain with an order behind those of its price. -/
inductive Inserted (sd : Side) (o : Order UInt32 I T) :
    List (OrderNode UInt32 I T) → List (OrderNode UInt32 I T) → Prop
  | new (pre : List (OrderNode UInt32 I T)) {post : List (OrderNode UInt32 I T)}
      (hpre : ∀ n ∈ pre, sd.Better n.price o.price)
      (hpost : ∀ n ∈ post, sd.Better o.price n.price) :
      Inserted sd o (pre ++ post) (pre ++ (OrderNode.new o.price).append o :: post)
  | behind (pre : List (OrderNode UInt32 I T)) {post : List (OrderNode UInt32 I T)}
      {n : OrderNode UInt32 I T} (hprice : o.price = n.price) : Inserted sd o (pre ++ n :: post) (pre ++ n.append o :: post)

theorem Inserted.cons (h : Inserted sd o next next') (hb : sd.Better node.price o.price) :
    Inserted sd o (node :: next) (node :: next') := by
  cases h with
  | new pre hpre hpost =>
    exact Inserted.new (node :: pre) (List.forall_mem_cons.mpr ⟨hb, hpre⟩) hpost
  | behind pre hprice => exact Inserted.behind (node :: pre) hprice

/-- The order goes after the head, unless its price is the head's and nothing stands before it. -/
theorem addWalk_inserted (o : Order UInt32 I T) (curr : OrderNode UInt32 I T)
    (hs : (prices next).Pairwise sd.Better) :
    ((addWalk sd o curr next).1 = curr ∧ Inserted sd o next (addWalk sd o curr next).2 ∧
        (o.price ≠ curr.price ∨ ∃ n ∈ next, ¬ sd.Better o.price n.price)) ∨
      (addWalk sd o curr next = (curr.append o, next) ∧ o.price = curr.price ∧
        ∀ n ∈ next, sd.Better o.price n.price) := by
  induction next generalizing curr with
  | nil =>
    rw [addWalk, place]
    split
    next hne =>
      have hnil : ∀ n ∈ ([] : List (OrderNode UInt32 I T)), sd.Better o.price n.price :=
        fun _ h => by cases h
      exact Or.inl ⟨rfl, Inserted.new [] (fun _ h => by cases h) hnil, Or.inl hne⟩
    next heq => exact Or.inr ⟨rfl, not_not.mp heq, fun _ h => by cases h⟩
  | cons node next ih =>
    rcases List.pairwise_cons.mp hs with ⟨hnode, hnext⟩
    rw [addWalk]
    split
    next hb =>
      have hall : ∀ n ∈ node :: next, sd.Better o.price n.price := by
        intro n hn
        rcases List.mem_cons.mp hn with rfl | hn
        · exact hb
        · exact hb.trans (hnode _ (List.mem_map_of_mem hn))
      rw [place]
      split
      next hne => exact Or.inl ⟨rfl, Inserted.new [] (fun _ h => by cases h) hall, Or.inl hne⟩
      next heq => exact Or.inr ⟨rfl, not_not.mp heq, hall⟩
    next hnb =>
      have hex : ∃ n ∈ node :: next, ¬ sd.Better o.price n.price :=
        ⟨node, List.mem_cons_self, hnb⟩
      split
      next heq => exact Or.inl ⟨rfl, Inserted.behind [] heq, Or.inr hex⟩
      next hne =>
        have hb : sd.Better node.price o.price :=
          PriceTime.Side.better_of_not_better hnb hne
        rcases ih node hnext with ⟨h1, h2, -⟩ | ⟨-, heq, -⟩
        · refine Or.inl ⟨rfl, ?_, Or.inr hex⟩
          dsimp only
          rw [h1]
          exact h2.cons hb
        · exact absurd heq hne

theorem Inserted.listed_perm (h : Inserted sd o next next') :
    (listed next').Perm (o :: listed next) := by
  cases h with
  | new pre hpre hpost =>
    rw [listed, listed, List.flatMap_append, List.flatMap_append, List.flatMap_cons]
    exact List.perm_middle
  | @behind pre post n hprice =>
    rw [listed, listed, List.flatMap_append, List.flatMap_append, List.flatMap_cons,
      List.flatMap_cons]
    show (_ ++ (n.orders ++ [o] ++ _)).Perm _
    rw [List.append_assoc n.orders [o], ← List.append_assoc _ n.orders, ← List.append_assoc _ n.orders]
    exact List.perm_middle

/-- The counts that rest at a price. -/
def atPrice (price : UInt32) (next : List (OrderNode UInt32 I T)) : ℕ :=
  total ((listed next).filter fun e => e.price = price)

theorem ChainOk.total_le_atPrice (h : ChainOk sd next) (hn : node ∈ next) :
    total node.orders ≤ atPrice node.price next := by
  rcases List.append_of_mem hn with ⟨pre, post, rfl⟩
  have hall : node.orders.filter (fun e => decide (e.price = node.price)) = node.orders := by
    apply List.filter_eq_self.mpr
    intro e he
    exact decide_eq_true (h.priced node hn e he)
  rw [atPrice, listed, List.flatMap_append, List.flatMap_cons, List.filter_append,
    List.filter_append, total_append, total_append, hall]
  omega

theorem ChainOk.insert (h : ChainOk sd next) (hi : Inserted sd o next next')
    (hpos : 0 < o.count.toNat) (hfit : atPrice o.price next + o.count.toNat < 2 ^ 32)
    (hnew : ∀ e ∈ listed next, e.address < o.address) : ChainOk sd next' := by
  cases hi with
  | @new pre post hpre hpost =>
    have hmem : ∀ n ∈ pre ++ (OrderNode.new o.price).append o :: post,
        n = (OrderNode.new o.price).append o ∨ n ∈ pre ++ post := by
      intro n hn
      rcases List.mem_append.mp hn with hn | hn
      · exact Or.inr (List.mem_append_left _ hn)
      · rcases List.mem_cons.mp hn with hn | hn
        · exact Or.inl hn
        · exact Or.inr (List.mem_append_right _ hn)
    constructor
    case ok =>
      intro n hn
      rcases hmem n hn with rfl | hn
      · exact (ok_new o.price).append hpos
      · exact h.ok n hn
    case small =>
      intro n hn
      rcases hmem n hn with rfl | hn
      · show o.count.toNat + 0 < 2 ^ 32
        omega
      · exact h.small n hn
    case sorted =>
      have hs := h.sorted
      rw [prices, List.map_append, List.pairwise_append] at hs
      rw [prices, List.map_append, List.map_cons, List.pairwise_append, List.pairwise_cons]
      refine ⟨hs.1, ⟨List.forall_mem_map.mpr hpost, hs.2.1⟩, ?_⟩
      intro p hp q hq
      rcases List.mem_map.mp hp with ⟨n, hn, rfl⟩
      rcases List.mem_cons.mp hq with rfl | hq
      · exact hpre n hn
      · exact hs.2.2 _ (List.mem_map_of_mem hn) q hq
    case priced =>
      intro n hn e he
      rcases hmem n hn with rfl | hn
      · cases List.mem_singleton.mp he
        rfl
      · exact h.priced n hn e he
    case arrival =>
      intro n hn
      rcases hmem n hn with rfl | hn
      · exact List.pairwise_singleton _ _
      · exact h.arrival n hn
  | @behind pre post n hprice =>
    have hn : n ∈ pre ++ n :: post := List.mem_append_right _ List.mem_cons_self
    have hmem : ∀ m ∈ pre ++ n.append o :: post, m = n.append o ∨ m ∈ pre ++ n :: post := by
      intro m hm
      rcases List.mem_append.mp hm with hm | hm
      · exact Or.inr (List.mem_append_left _ hm)
      · rcases List.mem_cons.mp hm with hm | hm
        · exact Or.inl hm
        · exact Or.inr (List.mem_append_right _ (List.mem_cons_of_mem n hm))
    constructor
    case ok =>
      intro m hm
      rcases hmem m hm with rfl | hm
      · exact (h.ok n hn).append hpos
      · exact h.ok m hm
    case small =>
      intro m hm
      rcases hmem m hm with rfl | hm
      · have hle := h.total_le_atPrice hn
        rw [← hprice] at hle
        show total (n.orders ++ [o]) < 2 ^ 32
        rw [total_append, total_cons, total_nil]
        omega
      · exact h.small m hm
    case sorted =>
      have hs := h.sorted
      rw [prices, List.map_append, List.map_cons] at hs ⊢
      exact hs
    case priced =>
      intro m hm e he
      rcases hmem m hm with rfl | hm
      · rcases List.mem_append.mp he with he | he
        · exact h.priced n hn e he
        · cases List.mem_singleton.mp he
          exact hprice
      · exact h.priced m hm e he
    case arrival =>
      intro m hm
      rcases hmem m hm with rfl | hm
      · show ((n.orders ++ [o]).map Order.address).Pairwise (· < ·)
        rw [List.map_append, List.pairwise_append]
        refine ⟨h.arrival n hn, List.pairwise_singleton _ _, ?_⟩
        intro a ha b hb
        cases List.mem_singleton.mp hb
        rcases List.mem_map.mp ha with ⟨e, he, rfl⟩
        exact hnew e (List.mem_flatMap.mpr ⟨n, hn, he⟩)
      · exact h.arrival m hm

end MatchingEngine.Go
