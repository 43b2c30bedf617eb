import Mathlib

/-!
# Price-time priority

One side of an order book as a partial map from order ids to resting orders, and the rule by which
an incoming order trades with it.  Prices `P` and time keys `K` are arbitrary linear orders.  The
rule is a relation: where two orders share price and key, either may trade first.  A `Ladder` is a
list of resting orders in priority order, and `Ladder.fill` its obvious matching pass; the pass
obeys the rule (`fill_fills`).
-/

set_option linter.unusedSectionVars false

namespace PriceTime

/-- The two halves of an order book. -/
inductive Side
  | buy
  | sell
  deriving DecidableEq, Repr, Inhabited

namespace Side

def opp : Side → Side
  | buy => sell
  | sell => buy

@[simp] theorem opp_opp (sd : Side) : sd.opp.opp = sd := by cases sd <;> rfl

@[simp] theorem opp_ne (sd : Side) : sd.opp ≠ sd := by cases sd <;> decide

@[simp] theorem ne_opp (sd : Side) : sd ≠ sd.opp := by cases sd <;> decide

theorem eq_or_eq_opp (sd sd' : Side) : sd' = sd ∨ sd' = sd.opp := by
  cases sd <;> cases sd' <;> decide

variable {P : Type} [LinearOrder P]

/-- Price `p` stands strictly ahead of `q` on this side: higher for buys, lower for sells. -/
def Better : Side → P → P → Prop
  | buy, p, q => q < p
  | sell, p, q => p < q

instance (sd : Side) (p q : P) : Decidable (sd.Better p q) :=
  match sd with
  | buy => inferInstanceAs (Decidable (q < p))
  | sell => inferInstanceAs (Decidable (p < q))

/-- An incoming order with limit `p` trades with an order resting on this side at price `q`. -/
def Crosses : Side → P → P → Prop
  | buy, p, q => p ≤ q
  | sell, p, q => q ≤ p

instance (sd : Side) (p q : P) : Decidable (sd.Crosses p q) :=
  match sd with
  | buy => inferInstanceAs (Decidable (p ≤ q))
  | sell => inferInstanceAs (Decidable (q ≤ p))

variable {sd : Side} {p q r : P}

theorem crosses_iff : sd.Crosses p q ↔ ¬ sd.Better p q := by
  cases sd <;> simp [Crosses, Better]

theorem Better.irrefl : ¬ sd.Better p p := by
  cases sd <;> simp [Better]

theorem Better.trans (hpq : sd.Better p q) (hqr : sd.Better q r) : sd.Better p r := by
  cases sd
  · exact lt_trans hqr hpq
  · exact lt_trans hpq hqr

theorem Better.asymm (hpq : sd.Better p q) : ¬ sd.Better q p :=
  fun hqp => Better.irrefl (hpq.trans hqp)

theorem Better.ne (hpq : sd.Better p q) : p ≠ q := by
  rintro rfl
  exact Better.irrefl hpq

/-- Prices are totally ordered on a side. -/
theorem better_of_not_better (h : ¬ sd.Better p q) (hne : p ≠ q) : sd.Better q p := by
  cases sd
  · exact lt_of_le_of_ne (not_lt.mp h) hne
  · exact lt_of_le_of_ne (not_lt.mp h) (Ne.symm hne)

/-- The crossing prices of a side are an initial segment of its priority order. -/
theorem Crosses.of_better (hc : sd.Crosses p r) (hb : sd.Better q r) : sd.Crosses p q := by
  rw [crosses_iff] at *
  exact fun hpq => hc (hpq.trans hb)

end Side

/-- A resting order; `nextExec` is the execution id of its next trade. -/
structure Resting (P K : Type) where
  price : P
  key : K
  count : ℕ
  nextExec : ℕ
  deriving DecidableEq, Repr

/-- An execution: the resting order, its execution id, the price and the count traded. -/
structure Exec (Id P : Type) where
  restingId : Id
  execId : ℕ
  price : P
  count : ℕ
  deriving DecidableEq, Repr

/-- One side of a book. -/
abbrev HalfBook (Id P K : Type) := Id → Option (Resting P K)

variable {Id P K : Type} [DecidableEq Id] [LinearOrder P] [LinearOrder K]

/-- `r` is a resting order of the best price that crosses the limit, and no other order at that
    price has an earlier key. -/
structure Eligible (sd : Side) (b : HalfBook Id P K) (limit : P) (id : Id) (r : Resting P K) :
    Prop where
  resting : b id = some r
  crosses : sd.Crosses limit r.price
  best : ∀ id' r', b id' = some r' → ¬ sd.Better r'.price r.price
  earliest : ∀ id' r', b id' = some r' → r'.price = r.price → r.key ≤ r'.key

/-- The book after `q` of the order `r` with this id has traded. -/
def afterTrade (b : HalfBook Id P K) (id : Id) (r : Resting P K) (q : ℕ) : HalfBook Id P K :=
  Function.update b id
    (if q < r.count then some { r with count := r.count - q, nextExec := r.nextExec + 1 } else none)

/-- An incoming order trades with eligible orders until it is filled or nothing crosses. -/
inductive Fills (sd : Side) (limit : P) :
    HalfBook Id P K → ℕ → List (Exec Id P) → HalfBook Id P K → ℕ → Prop
  | stop {b : HalfBook Id P K} {q : ℕ}
      (h : q = 0 ∨ ∀ id r, b id = some r → ¬ sd.Crosses limit r.price) : Fills sd limit b q [] b q
  | trade {b b' : HalfBook Id P K} {q q' : ℕ} {id : Id} {r : Resting P K} {es : List (Exec Id P)}
      (hq : 0 < q) (he : Eligible sd b limit id r)
      (h : Fills sd limit (afterTrade b id r (min q r.count)) (q - min q r.count) es b' q') :
      Fills sd limit b q (⟨id, r.nextExec, r.price, min q r.count⟩ :: es) b' q'

/-! ## Ladders -/

/-- Resting orders with their ids, the next to trade first. -/
abbrev Ladder (Id P K : Type) := List (Id × Resting P K)

namespace Ladder

/-- `x` may stand before `y` on a ladder. -/
def Before (sd : Side) (x y : Id × Resting P K) : Prop :=
  x.1 ≠ y.1 ∧ (sd.Better x.2.price y.2.price ∨ x.2.price = y.2.price ∧ x.2.key ≤ y.2.key)

/-- A ladder in priority order, without repeated ids. -/
abbrev Sorted (sd : Side) (l : Ladder Id P K) : Prop := l.Pairwise (Before sd)

/-- The half book a ladder stands for. -/
def book (l : Ladder Id P K) : HalfBook Id P K := fun id => (l.find? (·.1 = id)).map Prod.snd

theorem book_cons (id : Id) (r : Resting P K) (l : Ladder Id P K) :
    book ((id, r) :: l) = Function.update (book l) id (some r) := by
  funext id'
  by_cases h : id = id'
  · subst h
    simp [book]
  · simp [book, h, Function.update_of_ne (Ne.symm h)]

theorem book_eq_none {l : Ladder Id P K} {id : Id} (h : ∀ x ∈ l, x.1 ≠ id) : book l id = none := by
  simpa [book] using h

theorem mem_of_book {l : Ladder Id P K} {id : Id} {r : Resting P K} (h : book l id = some r) :
    (id, r) ∈ l := by
  simp only [book, Option.map_eq_some_iff] at h
  obtain ⟨⟨id', r'⟩, hfind, rfl⟩ := h
  have hid := List.find?_some hfind
  simp only [decide_eq_true_eq] at hid
  exact hid ▸ List.mem_of_find?_eq_some hfind

theorem book_of_mem {sd : Side} {l : Ladder Id P K} (hs : l.Sorted sd) {id : Id} {r : Resting P K}
    (h : (id, r) ∈ l) : book l id = some r := by
  induction l with
  | nil => cases h
  | cons x l ih =>
    obtain ⟨id', r'⟩ := x
    rw [book_cons]
    rcases List.mem_cons.mp h with heq | htl
    · cases heq
      exact Function.update_self ..
    · have hne := ((List.pairwise_cons.mp hs).1 _ htl).1
      rw [Function.update_of_ne (Ne.symm hne)]
      exact ih (List.pairwise_cons.mp hs).2 htl

theorem Sorted.head_notin {sd : Side} {id : Id} {r : Resting P K} {l : Ladder Id P K}
    (hs : Sorted sd ((id, r) :: l)) : book l id = none :=
  book_eq_none fun _ hx => (List.pairwise_cons.mp hs |>.1 _ hx).1.symm

/-- The head of a ladder is eligible if it crosses. -/
theorem Sorted.eligible_head {sd : Side} {id : Id} {r : Resting P K} {l : Ladder Id P K} {limit : P}
    (hs : Sorted sd ((id, r) :: l)) (hc : sd.Crosses limit r.price) :
    Eligible sd (book ((id, r) :: l)) limit id r := by
  have hle : ∀ id' r', book ((id, r) :: l) id' = some r' →
      r' = r ∨ sd.Better r.price r'.price ∨ r.price = r'.price ∧ r.key ≤ r'.key := by
    intro id' r' h
    rcases List.mem_cons.mp (mem_of_book h) with heq | htl
    · cases heq
      exact Or.inl rfl
    · exact Or.inr (List.pairwise_cons.mp hs |>.1 _ htl).2
  refine ⟨by rw [book_cons, Function.update_self], hc, ?_, ?_⟩
  · intro id' r' h
    rcases hle id' r' h with rfl | hb | ⟨heq, -⟩
    · exact Side.Better.irrefl
    · exact hb.asymm
    · rw [heq]
      exact Side.Better.irrefl
  · intro id' r' h hp
    rcases hle id' r' h with rfl | hb | ⟨-, hk⟩
    · exact le_rfl
    · exact absurd hp.symm hb.ne
    · exact hk

/-- Nothing on a ladder crosses if its head does not. -/
theorem Sorted.not_crosses {sd : Side} {x : Id × Resting P K} {l : Ladder Id P K} {limit : P}
    (hs : Sorted sd (x :: l)) (hc : ¬ sd.Crosses limit x.2.price) :
    ∀ y ∈ x :: l, ¬ sd.Crosses limit y.2.price := by
  intro y hy hcy
  rcases List.mem_cons.mp hy with rfl | htl
  · exact hc hcy
  · rcases (List.pairwise_cons.mp hs |>.1 _ htl).2 with hb | ⟨heq, -⟩
    · exact hc (hcy.of_better hb)
    · exact hc (heq ▸ hcy)

/-- The matching pass over a ladder: what is left of it, the executions, and the open count. -/
def fill (sd : Side) (limit : P) : ℕ → Ladder Id P K → Ladder Id P K × List (Exec Id P) × ℕ
  | q, [] => ([], [], q)
  | q, (id, r) :: l =>
    if q = 0 ∨ ¬ sd.Crosses limit r.price then ((id, r) :: l, [], q)
    else if q < r.count then
      ((id, { r with count := r.count - q, nextExec := r.nextExec + 1 }) :: l,
        [⟨id, r.nextExec, r.price, q⟩], 0)
    else
      let (l', es, q') := fill sd limit (q - r.count) l
      (l', ⟨id, r.nextExec, r.price, r.count⟩ :: es, q')

@[simp] theorem fill_zero (sd : Side) (limit : P) (l : Ladder Id P K) :
    fill sd limit 0 l = (l, [], 0) := by
  cases l with
  | nil => rfl
  | cons x l => rw [fill, if_pos (Or.inl rfl)]

theorem fill_of_not_crosses {sd : Side} {limit : P} {l : Ladder Id P K}
    (h : ∀ x ∈ l, ¬ sd.Crosses limit x.2.price) (q : ℕ) : fill sd limit q l = (l, [], q) := by
  cases l with
  | nil => rfl
  | cons x l => rw [fill, if_pos (Or.inr (h x List.mem_cons_self))]

/-- Where every order crosses, a pass over `l ++ l'` goes on with what `l` leaves open. -/
theorem fill_append {sd : Side} {limit : P} {l : Ladder Id P K}
    (h : ∀ x ∈ l, sd.Crosses limit x.2.price) (q : ℕ) (l' : Ladder Id P K) :
    fill sd limit q (l ++ l') =
      let s := fill sd limit q l
      let s' := fill sd limit s.2.2 l'
      (s.1 ++ s'.1, s.2.1 ++ s'.2.1, s'.2.2) := by
  induction l generalizing q with
  | nil => rfl
  | cons x l ih =>
    rcases x with ⟨id, r⟩
    have hc : sd.Crosses limit r.price := h _ List.mem_cons_self
    by_cases hq : q = 0
    · subst hq
      simp only [fill_zero, List.nil_append]
    · have hgo : ¬ (q = 0 ∨ ¬ sd.Crosses limit r.price) := fun h => h.elim hq fun h => h hc
      rw [List.cons_append, fill, fill, if_neg hgo, if_neg hgo]
      split
      · simp only [fill_zero, List.append_nil, List.cons_append]
      · rw [ih fun x hx => h x (List.mem_cons_of_mem _ hx)]
        simp only [List.cons_append]

/-- The executions of whole orders, one after the other. -/
def whole (l : Ladder Id P K) : List (Exec Id P) :=
  l.map fun x => ⟨x.1, x.2.nextExec, x.2.price, x.2.count⟩

/-- The counts of a ladder taken together. -/
def volume (l : Ladder Id P K) : ℕ := (l.map fun x => x.2.count).sum

@[simp] theorem volume_cons (x : Id × Resting P K) (l : Ladder Id P K) :
    volume (x :: l) = x.2.count + volume l := List.sum_cons

theorem volume_append (l l' : Ladder Id P K) : volume (l ++ l') = volume l + volume l' := by
  rw [volume, List.map_append, List.sum_append]
  rfl

/-- A pass with more than the counts of crossing orders takes them all. -/
theorem fill_whole {sd : Side} {limit : P} {l : Ladder Id P K}
    (h : ∀ x ∈ l, sd.Crosses limit x.2.price) {q : ℕ} (hq : volume l < q) :
    fill sd limit q l = ([], whole l, q - volume l) := by
  induction l generalizing q with
  | nil => rfl
  | cons x l ih =>
    rcases x with ⟨id, r⟩
    rw [volume_cons] at hq
    have hgo : ¬ (q = 0 ∨ ¬ sd.Crosses limit r.price) := by
      rintro (hz | hc)
      · omega
      · exact hc (h _ List.mem_cons_self)
    have hih := ih (fun x hx => h x (List.mem_cons_of_mem _ hx)) (q := q - r.count)
      (by dsimp only at hq; omega)
    rw [fill, if_neg hgo, if_neg (by dsimp only at hq; omega), hih]
    simp only [whole, List.map_cons, volume_cons, Nat.sub_sub]

/-- An order trades if it crosses and something is left after those before it. -/
theorem fill_reaches {sd : Side} {limit : P} {l l' : Ladder Id P K} {id : Id} {r : Resting P K}
    (h : ∀ x ∈ l, sd.Crosses limit x.2.price) (hc : sd.Crosses limit r.price) {q : ℕ}
    (hq : volume l < q) :
    ∃ e ∈ (fill sd limit q (l ++ (id, r) :: l')).2.1, e.restingId = id ∧ e.price = r.price := by
  have hgo : ¬ (q - volume l = 0 ∨ ¬ sd.Crosses limit r.price) := by
    rintro (hz | hnc)
    · omega
    · exact hnc hc
  rw [fill_append h, fill_whole h hq]
  dsimp only
  rw [fill, if_neg hgo]
  split
  · exact ⟨_, List.mem_append_right _ List.mem_cons_self, rfl, rfl⟩
  · exact ⟨_, List.mem_append_right _ List.mem_cons_self, rfl, rfl⟩

/-- Before a pass trades with an order it has taken every order before it whole. -/
theorem fill_split {sd : Side} {limit : P} {q : ℕ} {l : Ladder Id P K} {es es' : List (Exec Id P)}
    {e : Exec Id P} (h : (fill sd limit q l).2.1 = es ++ e :: es') :
    ∃ l₁ x l₂, l = l₁ ++ x :: l₂ ∧ e.restingId = x.1 ∧ es = whole l₁ := by
  induction q, l using fill.induct sd limit generalizing es with
  | case1 q => simp [fill] at h
  | case2 q id r l hstop =>
    rw [fill, if_pos hstop] at h
    simp at h
  | case3 q id r l hgo hlt =>
    rw [fill, if_neg hgo, if_pos hlt] at h
    cases es with
    | nil =>
      cases h
      exact ⟨[], (id, r), l, rfl, rfl, rfl⟩
    | cons e₁ es => simp at h
  | case4 q id r l hgo hge l' es₀ q' hrec ih =>
    rw [fill, if_neg hgo, if_neg hge, hrec] at h
    cases es with
    | nil =>
      cases h
      exact ⟨[], (id, r), l, rfl, rfl, rfl⟩
    | cons e₁ es =>
      rw [List.cons_append, List.cons.injEq] at h
      rw [hrec] at ih
      rcases ih h.2 with ⟨l₁, x, l₂, rfl, hx, rfl⟩
      exact ⟨(id, r) :: l₁, x, l₂, rfl, hx, by rw [← h.1]; rfl⟩

/-- A pass with something left over has taken every crossing order. -/
theorem volume_crossing_lt {sd : Side} (limit : P) (q : ℕ) {l : Ladder Id P K} (hs : Sorted sd l)
    (h : 0 < (fill sd limit q l).2.2) :
    volume (l.filter fun x => decide (sd.Crosses limit x.2.price)) < q := by
  induction q, l using fill.induct sd limit with
  | case1 q => exact h
  | case2 q id r l hstop =>
    rw [fill, if_pos hstop] at h
    have hnone : ((id, r) :: l).filter (fun x => decide (sd.Crosses limit x.2.price)) = [] := by
      apply List.filter_eq_nil_iff.mpr
      intro x hx
      rw [decide_eq_true_iff]
      exact hs.not_crosses (hstop.resolve_left (Nat.ne_of_gt h)) x hx
    rw [hnone]
    exact h
  | case3 q id r l hgo hlt =>
    rw [fill, if_neg hgo, if_pos hlt] at h
    exact absurd h (Nat.lt_irrefl 0)
  | case4 q id r l hgo hge l' es₀ q' hrec ih =>
    rw [fill, if_neg hgo, if_neg hge, hrec] at h
    rw [not_or, not_not] at hgo
    rw [hrec] at ih
    have hih := ih (List.pairwise_cons.mp hs).2 h
    rw [List.filter_cons, if_pos (decide_eq_true_iff.mpr hgo.2), volume_cons]
    dsimp only
    omega

/-- What stands before `x` has less open than all that may stand before it. -/
theorem volume_before_le {sd : Side} {l l' : Ladder Id P K} {x : Id × Resting P K}
    (hs : Sorted sd (l ++ x :: l')) (p : Id × Resting P K → Bool)
    (hp : ∀ y, Before sd y x → p y = true) : volume l ≤ volume ((l ++ x :: l').filter p) := by
  have hall : l.filter p = l := by
    apply List.filter_eq_self.mpr
    intro y hy
    exact hp y ((List.pairwise_append.mp hs).2.2 y hy x List.mem_cons_self)
  rw [List.filter_append, hall, volume_append]
  omega

/-- A pass that does not reach the count of the first order leaves every order on the ladder. -/
theorem fill_ids_of_lt {sd : Side} {limit : P} {q : ℕ} {l : Ladder Id P K}
    (h : ∀ x, l.head? = some x → sd.Crosses limit x.2.price → q = 0 ∨ q < x.2.count) :
    (fill sd limit q l).1.map Prod.fst = l.map Prod.fst := by
  cases l with
  | nil => rfl
  | cons x l =>
    rcases x with ⟨id, r⟩
    rw [fill]
    split
    · rfl
    next hgo =>
      rw [not_or, not_not] at hgo
      rw [if_pos ((h _ rfl hgo.2).resolve_left hgo.1)]
      rfl

/-- A pass only takes ids off the front of a ladder. -/
theorem fill_ids_suffix (sd : Side) (limit : P) (q : ℕ) (l : Ladder Id P K) :
    (fill sd limit q l).1.map Prod.fst <:+ l.map Prod.fst := by
  induction q, l using fill.induct sd limit with
  | case1 q => exact List.suffix_refl _
  | case2 q id r l hstop =>
    rw [fill, if_pos hstop]
  | case3 q id r l hgo hlt =>
    rw [fill, if_neg hgo, if_pos hlt]
    rfl
  | case4 q id r l hgo hge l' es q' hrec ih =>
    rw [fill, if_neg hgo, if_neg hge, hrec]
    rw [hrec] at ih
    exact ih.trans (List.suffix_cons _ _)

/-- The first order is gone after a pass that reaches its count. -/
theorem fill_head_notin {sd : Side} {limit : P} {q : ℕ} {id : Id} {r : Resting P K}
    {l : Ladder Id P K} (hs : Sorted sd ((id, r) :: l)) (hc : sd.Crosses limit r.price)
    (hq : 0 < q) (hle : r.count ≤ q) :
    ∀ x ∈ (fill sd limit q ((id, r) :: l)).1, x.1 ≠ id := by
  intro x hx heq
  have hgo : ¬ (q = 0 ∨ ¬ sd.Crosses limit r.price) := fun h => h.elim (by omega) fun h => h hc
  rw [fill, if_neg hgo, if_neg (by omega)] at hx
  have hmem := (fill_ids_suffix sd limit (q - r.count) l).subset (List.mem_map_of_mem hx)
  rcases List.mem_map.mp hmem with ⟨y, hy, hyx⟩
  exact ((List.pairwise_cons.mp hs).1 y hy).1 (heq.symm.trans hyx.symm)

/-- A half book read off a ladder without repeated ids. -/
theorem book_eq_some_iff {sd : Side} {l : Ladder Id P K} (hs : l.Sorted sd) {id : Id}
    {r : Resting P K} : book l id = some r ↔ (id, r) ∈ l :=
  ⟨mem_of_book, book_of_mem hs⟩

theorem book_insert {sd : Side} {l l' : Ladder Id P K} {id : Id} {r : Resting P K}
    (hs : l.Sorted sd) (hs' : l'.Sorted sd) (h : ∀ x, x ∈ l' ↔ x = (id, r) ∨ x ∈ l) :
    book l' = Function.update (book l) id (some r) := by
  funext id'
  by_cases heq : id' = id
  · subst heq
    rw [Function.update_self]
    exact book_of_mem hs' ((h _).mpr (Or.inl rfl))
  · rw [Function.update_of_ne heq]
    ext r'
    rw [book_eq_some_iff hs', book_eq_some_iff hs, h]
    exact or_iff_right fun hx => heq (congrArg Prod.fst hx)

theorem book_erase {sd : Side} {l l' : Ladder Id P K} {id : Id}
    (hs : l.Sorted sd) (hs' : l'.Sorted sd) (h : ∀ x, x ∈ l' ↔ x ∈ l ∧ x.1 ≠ id) :
    book l' = Function.update (book l) id none := by
  funext id'
  by_cases heq : id' = id
  · subst heq
    rw [Function.update_self]
    exact book_eq_none fun x hx => ((h x).mp hx).2
  · rw [Function.update_of_ne heq]
    ext r'
    rw [book_eq_some_iff hs', book_eq_some_iff hs, h]
    exact and_iff_left heq

/-- The pass obeys the price-time rule. -/
theorem fill_fills {sd : Side} (limit : P) (q : ℕ) {l : Ladder Id P K} (hs : l.Sorted sd) :
    Fills sd limit (book l) q (fill sd limit q l).2.1 (book (fill sd limit q l).1)
      (fill sd limit q l).2.2 := by
  induction q, l using fill.induct sd limit with
  | case1 q => exact .stop (Or.inr fun id r h => by cases h)
  | case2 q id r l hstop =>
    rw [fill, if_pos hstop]
    refine .stop (hstop.imp_right fun hc id' r' h => ?_)
    exact hs.not_crosses hc _ (mem_of_book h)
  | case3 q id r l hgo hlt =>
    rw [fill, if_neg hgo, if_pos hlt]
    rw [not_or, not_not] at hgo
    have hmin : min q r.count = q := Nat.min_eq_left (Nat.le_of_lt hlt)
    have htrade : afterTrade (book ((id, r) :: l)) id r q =
        book ((id, { r with count := r.count - q, nextExec := r.nextExec + 1 }) :: l) := by
      rw [afterTrade, if_pos hlt, book_cons, book_cons, Function.update_idem]
    have h := Fills.trade (Nat.pos_of_ne_zero hgo.1) (hs.eligible_head hgo.2)
      (.stop (Or.inl (by omega)))
    rwa [hmin, htrade, Nat.sub_self] at h
  | case4 q id r l hgo hge l' es q' hrec ih =>
    rw [fill, if_neg hgo, if_neg hge, hrec]
    rw [not_or, not_not] at hgo
    have hmin : min q r.count = r.count := Nat.min_eq_right (Nat.le_of_not_lt hge)
    have htrade : afterTrade (book ((id, r) :: l)) id r r.count = book l := by
      rw [afterTrade, if_neg (Nat.lt_irrefl _), book_cons, Function.update_idem,
        ← hs.head_notin, Function.update_eq_self]
    have hih := ih (List.pairwise_cons.mp hs).2
    rw [hrec, ← htrade] at hih
    have h := Fills.trade (Nat.pos_of_ne_zero hgo.1) (hs.eligible_head hgo.2)
      (hmin.symm ▸ hih)
    rwa [hmin] at h

end Ladder

end PriceTime
