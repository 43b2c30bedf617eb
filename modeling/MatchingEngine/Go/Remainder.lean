import MatchingEngine.Go.Book
import Mathlib.Tactic.Abel

/-!
# The remainder that `MatchOrder` computes

`MatchOrder` decides from `node.volume` what is left of an order and which nodes go, before the
executions take place; `CancelOrder` unlinks a node of volume 0.  The volume is the sum of the counts
modulo 2^32, so the decision is right as long as the sum itself fits, and beyond that only if less
than the volume is left of the order.
-/

namespace MatchingEngine.Go

variable {I T : Type} {sd : Side} {o : Order UInt32 I T} {node : OrderNode UInt32 I T}
  {next : List (OrderNode UInt32 I T)}

/-! ## The counts of a node -/

/-- The counts of some orders taken together. -/
def total (os : List (Order UInt32 I T)) : ℕ := (os.map fun o => o.count.toNat).sum

@[simp] theorem total_nil : total ([] : List (Order UInt32 I T)) = 0 := rfl

@[simp] theorem total_cons (os : List (Order UInt32 I T)) :
    total (o :: os) = o.count.toNat + total os := List.sum_cons

@[simp] theorem total_append (os os' : List (Order UInt32 I T)) :
    total (os ++ os') = total os + total os' := by
  rw [total, List.map_append, List.sum_append]
  rfl

/-- What every node satisfies: the volume is the sum in machine words, and no order is empty. -/
structure OrderNode.Ok (node : OrderNode UInt32 I T) : Prop where
  volume : node.volume = (node.orders.map Order.count).sum
  positive : ∀ o ∈ node.orders, 0 < o.count.toNat

theorem toNat_sum_count (os : List (Order UInt32 I T)) :
    (os.map Order.count).sum.toNat = total os % 2 ^ 32 := by
  rw [UInt32.toNat_sum, List.map_map]
  rfl

theorem OrderNode.Ok.toNat_volume (h : node.Ok) : node.volume.toNat = total node.orders % 2 ^ 32 := by
  rw [h.volume, toNat_sum_count]

theorem total_eq_zero {os : List (Order UInt32 I T)} (h : ∀ o ∈ os, 0 < o.count.toNat) :
    total os = 0 ↔ os = [] := by
  cases os with
  | nil => simp
  | cons o os =>
    have hpos := h o List.mem_cons_self
    rw [total_cons]
    constructor
    · intro hz
      omega
    · exact fun h => by cases h

theorem ok_new (price : UInt32) : (OrderNode.new price : OrderNode UInt32 I T).Ok where
  volume := rfl
  positive := fun _ h => by cases h

theorem ok_sentinel : (OrderNode.sentinel : OrderNode UInt32 I T).Ok where
  volume := rfl
  positive := fun _ h => by cases h

theorem OrderNode.Ok.append (h : node.Ok) (hpos : 0 < o.count.toNat) : (node.append o).Ok where
  volume := by
    unfold OrderNode.append
    dsimp only
    rw [List.map_append, List.sum_append, h.volume]
    simp
  positive := by
    intro e he
    rcases List.mem_append.mp he with he | he
    · exact h.positive e he
    · cases List.mem_singleton.mp he
      exact hpos

/-- The element `e` is taken out, in front or further back. -/
theorem OrderNode.Ok.remove (h : node.Ok) {e : Order UInt32 I T} {rest : List (Order UInt32 I T)}
    (hperm : node.orders.Perm (e :: rest)) : (node.remove e rest).Ok where
  volume := by
    unfold OrderNode.remove
    dsimp only
    rw [h.volume, (hperm.map _).sum_eq, List.map_cons, List.sum_cons]
    abel
  positive := fun e' he' => h.positive e' (hperm.mem_iff.mpr (List.mem_cons_of_mem e he'))

theorem OrderNode.Ok.update (h : node.Ok) {e : Order UInt32 I T} {rest : List (Order UInt32 I T)}
    {left : UInt32} (horders : node.orders = e :: rest) (hlt : left < e.count) :
    (node.update e (updatedOrder e left) rest).Ok where
  volume := by
    have hsum : node.volume = e.count + (rest.map Order.count).sum := by
      rw [h.volume, horders, List.map_cons, List.sum_cons]
    show node.volume - e.count + (e.count - left) = e.count - left + (rest.map Order.count).sum
    rw [hsum]
    abel
  positive := by
    intro e' he'
    rcases List.mem_cons.mp he' with rfl | he'
    · show 0 < (e.count - left).toNat
      rw [UInt32.lt_iff_toNat_lt] at hlt
      rw [UInt32.toNat_sub_of_le _ _ (UInt32.le_iff_toNat_le.mpr hlt.le)]
      omega
    · exact h.positive e' (horders ▸ List.mem_cons_of_mem e he')

/-! ## One `executeOrder` -/

/-- The count that a line says was matched. -/
def countMatched : Line UInt32 I → ℕ
  | .executed _ _ _ _ count _ => count.toNat
  | .added .. => 0
  | .deleted .. => 0

def matched (out : List (Line UInt32 I)) : ℕ := (out.map countMatched).sum

@[simp] theorem matched_nil : matched ([] : List (Line UInt32 I)) = 0 := rfl

@[simp] theorem matched_executeLine (e : Order UInt32 I T) (count : UInt32)
    (out : List (Line UInt32 I)) :
    matched (executeLine o e count :: out) = count.toNat + matched out := List.sum_cons

theorem matched_append (out out' : List (Line UInt32 I)) :
    matched (out ++ out') = matched out + matched out' := by
  rw [matched, List.map_append, List.sum_append]
  rfl

/-- The orders are served until nothing is left of the count, and what is not matched stays. -/
theorem executeLoop_spec (o : Order UInt32 I T) {os : List (Order UInt32 I T)} (left : UInt32)
    (h : node.Ok) (hos : node.orders = os) :
    (executeLoop o os left node).node.Ok ∧
      (executeLoop o os left node).node.price = node.price ∧
      matched (executeLoop o os left node).out = min left.toNat (total os) ∧
      total (executeLoop o os left node).node.orders = total os - left.toNat := by
  induction os generalizing left node with
  | nil =>
    rw [executeLoop]
    refine ⟨h, rfl, ?_, ?_⟩
    · simp
    · simp [hos]
  | cons e rest ih =>
    rw [executeLoop]
    split
    next hz =>
      rw [hz]
      refine ⟨h, rfl, ?_, ?_⟩
      · simp
      · simp [hos]
    next hz =>
      split
      next hle =>
        -- the front order goes
        have hle' := UInt32.le_iff_toNat_le.mp hle
        rcases ih (left - e.count) (h.remove (List.Perm.of_eq hos)) rfl with
          ⟨hok, hprice, hmatched, htotal⟩
        rw [UInt32.toNat_sub_of_le _ _ hle] at hmatched htotal
        refine ⟨hok, hprice, ?_, ?_⟩
        · dsimp only
          rw [matched_executeLine, hmatched, total_cons]
          omega
        · dsimp only
          rw [htotal, total_cons]
          omega
      next hnle =>
        -- it stays with a part of its count
        have hlt : left < e.count := UInt32.not_le.mp hnle
        have hlt' := UInt32.lt_iff_toNat_lt.mp hlt
        refine ⟨h.update hos hlt, rfl, ?_, ?_⟩
        · dsimp only
          rw [matched_executeLine, matched_nil, total_cons]
          omega
        · show total ({ e with executionId := _, count := e.count - left } :: rest) = _
          rw [total_cons, total_cons]
          dsimp only
          rw [UInt32.toNat_sub_of_le _ _ (UInt32.le_iff_toNat_le.mpr hlt'.le)]
          omega

theorem executeOrder_ok (h : node.Ok) (left : UInt32) : (executeOrder o left node).node.Ok :=
  (executeLoop_spec o left h rfl).1

theorem matched_executeOrder (h : node.Ok) (left : UInt32) :
    matched (executeOrder o left node).out = min left.toNat (total node.orders) :=
  (executeLoop_spec o left h rfl).2.2.1

/-- The node is empty afterwards if the count reaches the sum. -/
theorem executeOrder_empty_iff (h : node.Ok) (left : UInt32) :
    (executeOrder o left node).node.orders = [] ↔ total node.orders ≤ left.toNat := by
  have hspec := executeLoop_spec o left h rfl
  rw [executeOrder, ← total_eq_zero hspec.1.positive, hspec.2.2.2]
  omega

/-! ## `MatchOrder` -/

/-- The visits whose node `MatchOrder` takes out of the chain. -/
def Visit.Popped (x : Visit UInt32 I T) : Prop := x.node.volume ≤ x.left

instance decidablePopped (x : Visit UInt32 I T) : Decidable x.Popped :=
  inferInstanceAs (Decidable (x.node.volume ≤ x.left))

/-- A visit with nothing left starts no call. -/
theorem matchLoop_zero (sd : Side) (o : Order UInt32 I T) (next : List (OrderNode UInt32 I T))
    (pop : Bool) (headNext curr : ℕ) :
    (matchLoop sd o next 0 pop headNext curr).visits = [] ∧
      (matchLoop sd o next 0 pop headNext curr).left = 0 ∧
      (matchLoop sd o next 0 pop headNext curr).headNext = if pop then curr else headNext := by
  cases next with
  | nil => exact ⟨rfl, rfl, rfl⟩
  | cons node next =>
    rw [matchLoop, if_pos (Or.inl rfl)]
    exact ⟨rfl, rfl, rfl⟩

/-- The nodes that are taken out come first, and the head is linked to the one behind them. -/
theorem matchLoop_popped (sd : Side) (o : Order UInt32 I T) (next : List (OrderNode UInt32 I T))
    (v : UInt32) (pop : Bool) (headNext curr : ℕ) :
    ∃ xs ys, (matchLoop sd o next v pop headNext curr).visits = xs ++ ys ∧
      (∀ x ∈ xs, x.Popped) ∧ (∀ y ∈ ys, ¬ y.Popped) ∧
      (matchLoop sd o next v pop headNext curr).headNext =
        if pop = true ∨ xs ≠ [] then curr + xs.length else headNext := by
  induction next generalizing v pop headNext curr with
  | nil =>
    refine ⟨[], [], rfl, fun _ h => (by cases h), fun _ h => (by cases h), ?_⟩
    cases pop <;> simp [matchLoop]
  | cons node next ih =>
    by_cases hstop : v = 0 ∨ ¬ sd.Crosses o.price node.price
    · rw [matchLoop, if_pos hstop]
      refine ⟨[], [], rfl, fun _ h => (by cases h), fun _ h => (by cases h), ?_⟩
      cases pop <;> simp
    · rw [matchLoop, if_neg hstop]
      by_cases hpop : node.volume ≤ v
      · rw [if_pos hpop]
        dsimp only
        rcases ih (v - node.volume) true (if pop = true then curr else headNext) (curr + 1) with
          ⟨xs, ys, hvisits, hxs, hys, hhead⟩
        refine ⟨{ left := v, node } :: xs, ys, ?_, ?_, hys, ?_⟩
        · rw [hvisits, List.cons_append]
        · intro x hx
          rcases List.mem_cons.mp hx with rfl | hx
          · exact hpop
          · exact hxs x hx
        · rw [if_pos (Or.inl rfl)] at hhead
          rw [hhead, if_pos (Or.inr (List.cons_ne_nil _ _)), List.length_cons]
          omega
      · rw [if_neg hpop]
        dsimp only
        rcases matchLoop_zero sd o next false
          (if pop = true then curr else headNext) (curr + 1) with ⟨hvisits, -, hhead⟩
        refine ⟨[], [{ left := v, node }], ?_, fun _ h => (by cases h), ?_, ?_⟩
        · rw [hvisits, List.nil_append]
        · intro y hy
          cases List.mem_singleton.mp hy
          exact hpop
        · rw [hhead]
          cases pop <;> simp

/-- The visits of `MatchOrder`: the nodes that are taken out, and the others. -/
theorem matchOrder_popped (sd : Side) (o : Order UInt32 I T) (next : List (OrderNode UInt32 I T)) :
    ∃ xs ys, (matchOrder sd o next).visits = xs ++ ys ∧ (∀ x ∈ xs, x.Popped) ∧
      (∀ y ∈ ys, ¬ y.Popped) ∧ (matchOrder sd o next).headNext = xs.length := by
  rcases matchLoop_popped sd o next o.count false 0 0 with ⟨xs, ys, hvisits, hxs, hys, hhead⟩
  refine ⟨xs, ys, hvisits, hxs, hys, ?_⟩
  rw [matchOrder, hhead]
  cases xs with
  | nil => rfl
  | cons x xs => simp

/-- What `MatchOrder` unlinks are the nodes of the calls with enough left for the volume. -/
theorem unlinked_iff (o : Order UInt32 I T) (next : List (OrderNode UInt32 I T))
    (P : OrderNode UInt32 I T → Prop) :
    (∀ n ∈ (matchOrder sd o next).unlinked o next, P n) ↔
      ∀ x ∈ (matchOrder sd o next).visits, x.Popped → P (executeOrder o x.left x.node).node := by
  rcases matchOrder_popped sd o next with ⟨xs, ys, hvisits, hxs, hys, hlen⟩
  have hunlinked : (matchOrder sd o next).unlinked o next =
      xs.map fun x => (executeOrder o x.left x.node).node := by
    rw [Matched.unlinked, Matched.nodes, Matched.executed, hlen]
    show List.take xs.length (_ ++ _) = _
    rw [hvisits, List.map_append, List.map_append, List.append_assoc, List.take_append_of_le_length (by simp),
      List.take_of_length_le (by simp), List.map_map]
    rfl
  rw [hunlinked, hvisits]
  constructor
  · intro h x hx hpop
    rcases List.mem_append.mp hx with hx | hx
    · exact h _ (List.mem_map_of_mem hx)
    · exact absurd hpop (hys x hx)
  · intro h n hn
    rcases List.mem_map.mp hn with ⟨x, hx, rfl⟩
    exact h x (List.mem_append_left ys hx) (hxs x hx)

/-- With `v` left in front of these nodes: where the sum of a crossing node does not fit in 32 bits,
    less than its volume is left. -/
def Fits (sd : Side) (limit : UInt32) : ℕ → List (OrderNode UInt32 I T) → Prop
  | _, [] => True
  | v, node :: next =>
    v = 0 ∨ ¬ sd.Crosses limit node.price ∨
      (2 ^ 32 ≤ total node.orders → v < total node.orders % 2 ^ 32) ∧
        Fits sd limit (v - total node.orders) next

instance decidableFits (sd : Side) (limit : UInt32) :
    (v : ℕ) → (next : List (OrderNode UInt32 I T)) → Decidable (Fits sd limit v next)
  | _, [] => inferInstanceAs (Decidable True)
  | v, node :: next =>
    have := decidableFits sd limit (v - total node.orders) next
    inferInstanceAs (Decidable (v = 0 ∨ ¬ sd.Crosses limit node.price ∨
      (2 ^ 32 ≤ total node.orders → v < total node.orders % 2 ^ 32) ∧
        Fits sd limit (v - total node.orders) next))

theorem fits_zero (limit : UInt32) (next : List (OrderNode UInt32 I T)) : Fits sd limit 0 next := by
  cases next with
  | nil => trivial
  | cons node next => exact Or.inl rfl

/-- `MatchOrder` and the calls it starts agree: what it returns is what they leave, and the nodes
    that it takes out are empty when they have finished. -/
structure MatchAgrees (sd : Side) (o : Order UInt32 I T) (next : List (OrderNode UInt32 I T)) :
    Prop where
  remainder : (matchOrder sd o next).left.toNat + matched ((matchOrder sd o next).out o) =
    o.count.toNat
  unlinked : ∀ n ∈ (matchOrder sd o next).unlinked o next, n.orders = []

theorem matchLoop_agrees_iff (h : ∀ n ∈ next, n.Ok) (v : UInt32) (pop : Bool)
    (headNext curr : ℕ) :
    ((matchLoop sd o next v pop headNext curr).left.toNat +
          matched ((matchLoop sd o next v pop headNext curr).out o) = v.toNat ∧
        ∀ x ∈ (matchLoop sd o next v pop headNext curr).visits, x.Popped →
          (executeOrder o x.left x.node).node.orders = []) ↔
      Fits sd o.price v.toNat next := by
  induction next generalizing v pop headNext curr with
  | nil =>
    apply iff_of_true _ trivial
    exact ⟨rfl, fun _ hx => by cases hx⟩
  | cons node next ih =>
    have hnode := h node List.mem_cons_self
    have hnext : ∀ n ∈ next, n.Ok := fun n hn => h n (List.mem_cons_of_mem node hn)
    rw [Fits]
    by_cases hstop : v = 0 ∨ ¬ sd.Crosses o.price node.price
    · rw [matchLoop, if_pos hstop]
      apply iff_of_true
      · exact ⟨rfl, fun _ hx => by cases hx⟩
      · rcases hstop with rfl | hc
        · exact Or.inl rfl
        · exact Or.inr (Or.inl hc)
    · rcases not_or.mp hstop with ⟨hv, hc⟩
      have hv' : v.toNat ≠ 0 := fun hz => hv (UInt32.toNat_inj.mp hz)
      rw [or_iff_right hv', or_iff_right hc, matchLoop, if_neg hstop]
      have hw := hnode.toNat_volume
      have hempty := executeOrder_empty_iff (o := o) hnode v
      have hcount := matched_executeOrder (o := o) hnode v
      have hlt := v.toNat_lt
      by_cases hpop : node.volume ≤ v
      · rw [if_pos hpop]
        dsimp only
        have hle := UInt32.le_iff_toNat_le.mp hpop
        rw [hw] at hle
        have hsub : (v - node.volume).toNat = v.toNat - total node.orders % 2 ^ 32 := by
          rw [UInt32.toNat_sub_of_le _ _ hpop, hw]
        have hih := ih hnext (v - node.volume) true (if pop = true then curr else headNext)
          (curr + 1)
        rw [hsub] at hih
        generalize matchLoop sd o next (v - node.volume) true _ (curr + 1) = r at hih ⊢
        have hout : matched (Matched.out { r with visits := { left := v, node } :: r.visits } o) =
            matched (executeOrder o v node).out + matched (r.out o) := matched_append _ _
        rw [hout, hcount, List.forall_mem_cons]
        constructor
        · rintro ⟨hr, hp, hx⟩
          have hle' := hempty.mp (hp hpop)
          rw [Nat.mod_eq_of_lt (by omega)] at hih hle ⊢
          exact ⟨by omega, hih.mp ⟨by omega, hx⟩⟩
        · rintro ⟨hfit, hf⟩
          have hlt' : total node.orders < 2 ^ 32 := by
            by_contra hge
            have := hfit (by omega)
            omega
          rw [Nat.mod_eq_of_lt hlt'] at hih hle
          rcases hih.mpr hf with ⟨hr, hx⟩
          exact ⟨by omega, fun _ => hempty.mpr hle, hx⟩
      · -- the rest of the order is matched here, and the walk ends
        rw [if_neg hpop]
        dsimp only
        rw [UInt32.le_iff_toNat_le, hw] at hpop
        have hmod := Nat.mod_le (total node.orders) (2 ^ 32)
        have hz := matchLoop_zero sd o next false
          (if pop = true then curr else headNext) (curr + 1)
        generalize matchLoop sd o next 0 false _ (curr + 1) = r at hz ⊢
        rcases hz with ⟨hvisits, hleft, -⟩
        apply iff_of_true
        · rw [hleft, hvisits]
          constructor
          · show (0 : UInt32).toNat + matched ((executeOrder o v node).out ++ []) = v.toNat
            rw [List.append_nil, hcount, UInt32.toNat_zero]
            omega
          · intro x hx hp
            cases List.mem_singleton.mp hx
            rw [Visit.Popped, UInt32.le_iff_toNat_le, hw] at hp
            exact absurd hp hpop
        · rw [show v.toNat - total node.orders = 0 by omega]
          exact ⟨fun _ => by omega, fits_zero _ _⟩

theorem matchAgrees_iff (h : ∀ n ∈ next, n.Ok) (o : Order UInt32 I T) :
    MatchAgrees sd o next ↔ Fits sd o.price o.count.toNat next := by
  rw [← matchLoop_agrees_iff (o := o) h o.count false 0 0]
  constructor
  · intro ha
    exact ⟨ha.remainder, (unlinked_iff o next fun n => n.orders = []).mp ha.unlinked⟩
  · intro ha
    exact ⟨ha.1, (unlinked_iff o next fun n => n.orders = []).mpr ha.2⟩

/-! ## `CancelOrder` -/

/-- Every node that `CancelOrder` takes out is empty. -/
def CancelAgrees (o : Order UInt32 I T) (next : List (OrderNode UInt32 I T)) : Prop :=
  ∀ n ∈ (cancelOrder o next).unlinked, n.orders = []

/-- In the first node of the price: what stands there besides the first order with the id, if there
    is one, does not add up to a multiple of 2^32 other than 0. -/
def CancelFits (o : Order UInt32 I T) : List (OrderNode UInt32 I T) → Prop
  | [] => True
  | node :: next =>
    if node.price ≠ o.price then CancelFits o next
    else
      node.orders.any (sameId o) →
        2 ^ 32 ∣ total (node.orders.eraseP (sameId o)) → total (node.orders.eraseP (sameId o)) = 0

instance decidableCancelFits (o : Order UInt32 I T) :
    (next : List (OrderNode UInt32 I T)) → Decidable (CancelFits o next)
  | [] => inferInstanceAs (Decidable True)
  | node :: next =>
    have := decidableCancelFits o next
    inferInstanceAs (Decidable (if node.price ≠ o.price then CancelFits o next
      else node.orders.any (sameId o) →
        2 ^ 32 ∣ total (node.orders.eraseP (sameId o)) →
          total (node.orders.eraseP (sameId o)) = 0))

theorem perm_cons_eraseP {os : List (Order UInt32 I T)} {e : Order UInt32 I T}
    (h : os.find? (sameId o) = some e) : os.Perm (e :: os.eraseP (sameId o)) := by
  induction os with
  | nil => cases h
  | cons e' os ih =>
    by_cases hs : sameId o e' = true
    · rw [List.find?_cons_of_pos hs] at h
      cases h
      rw [List.eraseP_cons_of_pos hs]
    · rw [List.find?_cons_of_neg hs] at h
      rw [List.eraseP_cons_of_neg hs]
      exact ((ih h).cons e').trans (List.Perm.swap e e' _)

theorem cancelAgrees_iff (h : ∀ n ∈ next, n.Ok) (o : Order UInt32 I T) :
    CancelAgrees o next ↔ CancelFits o next := by
  induction next with
  | nil =>
    apply iff_of_true _ trivial
    exact fun _ hn => by cases hn
  | cons node next ih =>
    have hnode := h node List.mem_cons_self
    have hnext : ∀ n ∈ next, n.Ok := fun n hn => h n (List.mem_cons_of_mem node hn)
    rw [CancelAgrees, cancelOrder, CancelFits]
    by_cases hprice : node.price ≠ o.price
    · rw [if_pos hprice, if_pos hprice]
      exact ih hnext
    · rw [if_neg hprice, if_neg hprice]
      rcases hfind : node.orders.find? (sameId o) with _ | e
      · apply iff_of_true
        · exact fun _ hn => by cases hn
        · intro hany
          rcases List.any_eq_true.mp hany with ⟨e, he, hs⟩
          exact absurd hs (List.find?_eq_none.mp hfind e he)
      · have hok := hnode.remove (perm_cons_eraseP hfind)
        have hany : node.orders.any (sameId o) = true :=
          List.any_eq_true.mpr ⟨e, List.mem_of_find?_eq_some hfind, List.find?_some hfind⟩
        have hw := hok.toNat_volume
        have hpos := total_eq_zero hok.positive
        have hzero : (node.remove e (node.orders.eraseP (sameId o))).volume = 0 ↔
            2 ^ 32 ∣ total (node.orders.eraseP (sameId o)) := by
          rw [← UInt32.toNat_inj, hw, Nat.dvd_iff_mod_eq_zero]
          rfl
        dsimp only
        constructor
        · intro ha _ hdvd
          rw [if_pos (hzero.mpr hdvd)] at ha
          exact hpos.mpr (ha _ (List.mem_singleton_self _))
        · intro hfit n hn
          split at hn
          next hv =>
            cases List.mem_singleton.mp hn
            exact hpos.mp (hfit hany (hzero.mp hv))
          · cases hn

/-! ## Chains that adds, matches and cancels make -/

/-- The books that `AddOrder`, `MatchOrder` with the calls it starts, and `CancelOrder` make of an
    empty one.  `ProcessActiveOrder` adds an order only if something is left of it. -/
inductive Book.Reachable (sd : Side) : Book UInt32 I T → Prop
  | empty : Reachable sd Book.empty
  | added {b : Book UInt32 I T} (h : Reachable sd b) (o : Order UInt32 I T) (hleft : 0 < o.count) :
      Reachable sd (addOrder sd o b)
  | matched {b : Book UInt32 I T} (h : Reachable sd b) (o : Order UInt32 I T) :
      Reachable sd { b with next := (matchOrder sd o b.next).next o b.next }
  | cancelled {b : Book UInt32 I T} (h : Reachable sd b) (o : Order UInt32 I T) :
      Reachable sd { b with next := (cancelOrder o b.next).next }

theorem ok_place {curr : OrderNode UInt32 I T} (hcurr : curr.Ok) (hnext : ∀ n ∈ next, n.Ok)
    (hpos : 0 < o.count.toNat) :
    (place o curr next).1.Ok ∧ ∀ n ∈ (place o curr next).2, n.Ok := by
  unfold place
  split
  · exact ⟨hcurr, List.forall_mem_cons.mpr ⟨(ok_new o.price).append hpos, hnext⟩⟩
  · exact ⟨hcurr.append hpos, hnext⟩

theorem ok_addWalk {curr : OrderNode UInt32 I T} (hcurr : curr.Ok) (hnext : ∀ n ∈ next, n.Ok)
    (hpos : 0 < o.count.toNat) :
    (addWalk sd o curr next).1.Ok ∧ ∀ n ∈ (addWalk sd o curr next).2, n.Ok := by
  induction next generalizing curr with
  | nil => exact ok_place hcurr hnext hpos
  | cons node rest ih =>
    rcases List.forall_mem_cons.mp hnext with ⟨hnode, hrest⟩
    rw [addWalk]
    split
    · exact ok_place hcurr hnext hpos
    · split
      · exact ⟨hcurr, List.forall_mem_cons.mpr ⟨hnode.append hpos, hrest⟩⟩
      · rcases ih hnode hrest with ⟨h1, h2⟩
        exact ⟨hcurr, List.forall_mem_cons.mpr ⟨h1, h2⟩⟩

theorem mem_of_visit (next : List (OrderNode UInt32 I T)) (v : UInt32) (pop : Bool)
    (headNext curr : ℕ) :
    ∀ x ∈ (matchLoop sd o next v pop headNext curr).visits, x.node ∈ next := by
  induction next generalizing v pop headNext curr with
  | nil => exact fun _ hx => by cases hx
  | cons node next ih =>
    intro x hx
    rw [matchLoop] at hx
    split at hx
    · cases hx
    · rcases List.mem_cons.mp hx with rfl | hx
      · exact List.mem_cons_self
      · split at hx
        · exact List.mem_cons_of_mem node (ih _ _ _ _ x hx)
        · exact List.mem_cons_of_mem node (ih _ _ _ _ x hx)

theorem ok_matched (h : ∀ n ∈ next, n.Ok) :
    ∀ n ∈ (matchOrder sd o next).next o next, n.Ok := by
  intro n hn
  rcases List.mem_append.mp (List.mem_of_mem_drop hn) with hn | hn
  · rw [Matched.executed, List.map_map] at hn
    rcases List.mem_map.mp hn with ⟨x, hx, rfl⟩
    exact executeOrder_ok (h _ (mem_of_visit next _ _ _ _ x hx)) x.left
  · exact h n (List.mem_of_mem_drop hn)

theorem ok_cancelled (h : ∀ n ∈ next, n.Ok) : ∀ n ∈ (cancelOrder o next).next, n.Ok := by
  induction next with
  | nil => exact h
  | cons node next ih =>
    rcases List.forall_mem_cons.mp h with ⟨hnode, hnext⟩
    rw [cancelOrder]
    split
    · exact List.forall_mem_cons.mpr ⟨hnode, ih hnext⟩
    · rcases hfind : node.orders.find? (sameId o) with _ | e
      · exact h
      · dsimp only
        split
        · exact hnext
        · exact List.forall_mem_cons.mpr ⟨hnode.remove (perm_cons_eraseP hfind), hnext⟩

theorem Book.Reachable.ok {b : Book UInt32 I T} (h : b.Reachable sd) :
    b.head.Ok ∧ ∀ n ∈ b.next, n.Ok := by
  induction h with
  | empty => exact ⟨ok_sentinel, fun _ hn => by cases hn⟩
  | added _ o hleft ih => exact ok_addWalk ih.1 ih.2 (UInt32.lt_iff_toNat_lt.mp hleft)
  | matched _ o ih => exact ⟨ih.1, ok_matched ih.2⟩
  | cancelled _ o ih => exact ⟨ih.1, ok_cancelled ih.2⟩

/-- The pre-computed remainder and the unlinking agree with the executions exactly where the sums
    fit. -/
theorem Book.agrees_iff {b : Book UInt32 I T} (h : b.Reachable sd) :
    (∀ o, MatchAgrees sd o b.next ↔ Fits sd o.price o.count.toNat b.next) ∧
      ∀ o, CancelAgrees o b.next ↔ CancelFits o b.next :=
  ⟨matchAgrees_iff h.ok.2, cancelAgrees_iff h.ok.2⟩

section Wrapped

/-- Orders at one price; two of the sells have 2^31 units each. -/
def wrappedOrder (orderType : InputType) (orderId count : UInt32) : Order UInt32 Unit Unit :=
  { address := orderId.toNat, orderType, orderId, price := 2700, count, instrument := (),
    inputTime := 0, rId := (), executionId := 1 }

abbrev wrappedSells : Book UInt32 Unit Unit :=
  addOrder .sell (wrappedOrder .sell 2 2147483648)
    (addOrder .sell (wrappedOrder .sell 1 2147483648) Book.empty)

abbrev wrappedSells' : Book UInt32 Unit Unit := addOrder .sell (wrappedOrder .sell 3 5) wrappedSells

theorem reachable_wrappedSells : wrappedSells.Reachable .sell :=
  .added (.added .empty _ (by decide)) _ (by decide)

theorem agrees_iff_wrappedSells :
    (¬ Fits .sell 2700 1 wrappedSells.next ∧ Fits .sell 2600 1 wrappedSells.next) ∧
      MatchAgrees .sell (wrappedOrder .buy 3 0) wrappedSells.next :=
  ⟨⟨by decide, by decide⟩, ((Book.agrees_iff reachable_wrappedSells).1 _).mpr (by decide)⟩

/-- A buy of one unit is matched and comes back whole, and the node goes with both sells in it; so
    does the node of the larger book when its third order is cancelled. -/
theorem not_agrees_wrappedSells :
    ¬ ∀ b : Book UInt32 Unit Unit, b.Reachable .sell →
      (∀ o, MatchAgrees .sell o b.next) ∧ ∀ o, CancelAgrees o b.next := by
  intro h
  have hmatch := ((h wrappedSells reachable_wrappedSells).1 (wrappedOrder .buy 3 1)).remainder
  exact absurd hmatch (by decide)

theorem not_cancelAgrees_wrappedSells :
    wrappedSells'.Reachable .sell ∧ ¬ CancelAgrees (wrappedOrder .sell 3 5) wrappedSells'.next := by
  refine ⟨.added reachable_wrappedSells _ (by decide), ?_⟩
  rw [cancelAgrees_iff (Book.Reachable.added reachable_wrappedSells _ (by decide)).ok.2]
  decide

end Wrapped

end MatchingEngine.Go
