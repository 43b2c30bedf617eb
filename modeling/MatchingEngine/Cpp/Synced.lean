import MatchingEngine.Cpp.Rules

/-!
# The books of the grader

A booked order stands in three places: its status, `all_orders` and the multiset of its side.  These
agree (`Synced`), so that a line is accepted exactly where the statuses permit it, and the books agree
after it as well.
-/

namespace MatchingEngine.Cpp.Grader

open Text SortedMultiset PriceTime

variable {ptype : PriorityType} {stype : SortByTimestampType} {orders orders' : Orders}
  {sd : Side} {i : Bytes} {id p q : UInt32} {o o' : OrderStatus} {c c' : Checking}

/-! ## The books -/

/-- What the books say is what the statuses say. -/
structure Synced (ptype : PriorityType) (stype : SortByTimestampType) (c : Checking) : Prop where
  ids : ∀ id o, c.orders id = some o → o.orderId = id
  all : ∀ i id p, (c.book i).allOrders id = some p ↔ p = id ∧ ∃ sd o, Rests c.orders i sd id o
  mem : ∀ i sd id, id ∈ (c.book i).side sd ↔ ∃ o, Rests c.orders i sd id o
  nodup : ∀ i sd, ((c.book i).side sd).Nodup
  sorted : ∀ i sd, Sorted (pointerOrdering ptype stype c.orders sd) ((c.book i).side sd)

namespace InstBook

variable {book : InstBook} {sd' : Side} {l : List UInt32}

theorem side_setSide : (book.setSide sd l).side sd' = if sd' = sd then l else book.side sd' := by
  cases sd <;> cases sd' <;> rfl

theorem allOrders_setSide : (book.setSide sd l).allOrders = book.allOrders := by
  cases sd <;> rfl

theorem side_erase : (book.erase id).side sd = book.side sd := by
  cases sd <;> rfl

theorem side_emplace : (book.emplace id p).side sd = book.side sd := by
  cases sd <;> rfl

end InstBook

theorem modify_self {f : OrderStatus → OrderStatus} (h : orders id = some o) :
    modify orders id f id = some (f o) := by
  unfold modify
  rw [Function.update_self, deref_of_some h]

theorem modify_of_ne {f : OrderStatus → OrderStatus} (h : p ≠ id) : modify orders id f p = orders p :=
  Function.update_of_ne h ..

theorem deref_modify_self {f : OrderStatus → OrderStatus} :
    deref (modify orders id f) id = f (deref orders id) := by
  unfold deref modify
  rw [Function.update_self]
  rfl

theorem deref_modify_of_ne {f : OrderStatus → OrderStatus} (h : p ≠ id) :
    deref (modify orders id f) p = deref orders p := by
  unfold deref
  rw [modify_of_ne h]

theorem modify_modify {f g : OrderStatus → OrderStatus} :
    modify (modify orders id f) id g = modify orders id (g ∘ f) := by
  unfold modify
  rw [Function.update_idem]
  congr 2
  exact congrArg g deref_modify_self

theorem modify_comm {f g : OrderStatus → OrderStatus} (h : p ≠ id) :
    modify (modify orders id f) p g = modify (modify orders p g) id f := by
  have hp : deref (modify orders id f) p = deref orders p := deref_modify_of_ne h
  have hid : deref (modify orders p g) id = deref orders id := deref_modify_of_ne h.symm
  unfold modify at hp hid ⊢
  rw [hp, hid]
  exact Function.update_comm h.symm ..

/-- A change that keeps the key keeps the order of the books. -/
theorem key_modify {f : OrderStatus → OrderStatus} (h : ∀ o : OrderStatus, (f o).key = o.key)
    (q : UInt32) : (deref (modify orders id f) q).key = (deref orders q).key := by
  by_cases hq : q = id
  · subst hq
    rw [deref_modify_self, h]
  · rw [deref_modify_of_ne hq]

section Lists

variable {l l' : List UInt32} {best price restingOrderId : UInt32} {wrong : String}

theorem not_better_of_ordering (h : ordering ptype stype sd o o' = false) :
    ¬ sd.Better o.price o'.price := by
  intro hlt
  cases ptype with
  | priceTime => exact of_decide_eq_false h (Or.inl hlt)
  | time => exact of_decide_eq_false h hlt

/-- An order that crosses lets the best one cross. -/
theorem crosses_head (hs : Sorted (pointerOrdering ptype stype orders sd) (best :: l))
    (hq : q ∈ best :: l) (hc : sd.Crosses price (deref orders q).price) :
    sd.Crosses price (deref orders best).price := by
  rw [Side.crosses_iff] at hc ⊢
  intro hlt
  rcases List.mem_cons.mp hq with rfl | hq
  · exact hc hlt
  · rcases better_or sd (deref orders q).price hlt with hlt' | hlt'
    · exact hc hlt'
    · exact not_better_of_ordering ((List.pairwise_cons.mp hs).1 q hq) hlt'

/-- The best order, or one equal to it, is an order that none is ahead of. -/
theorem mem_upTo_head {lt : UInt32 → UInt32 → Bool} (hlt : StrictWeak lt) (hs : Sorted lt (best :: l)) :
    p ∈ upTo lt best (best :: l) ↔ p ∈ best :: l ∧ ∀ q ∈ best :: l, lt q p = false := by
  rw [hs.mem_upTo hlt]
  refine and_congr_right fun hp => ⟨?_, fun h => h best List.mem_cons_self⟩
  intro h q hq
  cases hqp : lt q p with
  | false => rfl
  | true =>
    rcases List.mem_cons.mp hq with rfl | hq
    · rw [h] at hqp
      cases hqp
    · rcases hlt.weak best hqp with hqb | hbp
      · rw [(List.pairwise_cons.mp hs).1 q hq] at hqb
        cases hqb
      · rw [h] at hbp
        cases hbp

theorem find_orderId (hids : ∀ q ∈ l, (deref orders q).orderId = q) :
    (l.find? fun it => p = (deref orders it).orderId) = if p ∈ l then some p else none := by
  induction l with
  | nil => rfl
  | cons a l ih =>
    rw [List.find?_cons, hids a List.mem_cons_self]
    by_cases hpa : p = a
    · subst hpa
      simp
    · rw [ih fun q hq => hids q (List.mem_cons_of_mem _ hq)]
      simp [hpa]

theorem matchBest_ok (hs : Sorted (pointerOrdering ptype stype orders sd) (best :: l))
    (hids : ∀ q ∈ best :: l, (deref orders q).orderId = q) (hp : (deref orders p).orderId = p) :
    InstBook.matchBest ptype stype orders sd best p (best :: l) wrong restingOrderId = .ok l' ↔
      (p ∈ best :: l ∧ ∀ q ∈ best :: l, pointerOrdering ptype stype orders sd q p = false) ∧
        l' = if (deref orders p).full then (best :: l).erase p else best :: l := by
  have hrange : ∀ q ∈ upTo (pointerOrdering ptype stype orders sd) best (best :: l),
      (deref orders q).orderId = q := fun q hq => hids q (List.takeWhile_subset _ hq)
  unfold InstBook.matchBest
  dsimp only
  rw [hp, find_orderId hrange, ← mem_upTo_head strictWeak_pointerOrdering hs]
  by_cases hmem : p ∈ upTo (pointerOrdering ptype stype orders sd) best (best :: l)
  · rw [if_pos hmem]
    exact ⟨fun h => ⟨hmem, (Except.ok.inj h).symm⟩, fun h => congrArg _ h.2.symm⟩
  · rw [if_neg hmem]
    constructor
    · rintro ⟨⟩
    · rintro ⟨h, -⟩
      exact absurd h hmem

theorem matchEarliest_ok (hs : Sorted (pointerOrdering .time stype orders sd) l) (hnd : l.Nodup)
    (hids : ∀ q ∈ l, (deref orders q).orderId = q) (hp : (deref orders p).orderId = p)
    (hprice : p ∈ l → (deref orders p).price = price) :
    InstBook.matchEarliest stype orders sd price p l = .ok l' ↔
      (∀ q ∈ l, sd.Crosses price (deref orders q).price →
        (deref orders p).timestamp stype ≤ (deref orders q).timestamp stype) ∧
        l' = if (deref orders p).full then l.erase p else l := by
  induction l generalizing l' with
  | nil =>
    unfold InstBook.matchEarliest
    constructor
    · rintro ⟨⟩
      refine ⟨by simp, by split <;> rfl⟩
    · rintro ⟨-, rfl⟩
      split <;> rfl
  | cons it its ih =>
    rcases List.pairwise_cons.mp hs with ⟨hit, hs⟩
    rcases List.nodup_cons.mp hnd with ⟨hnot, hnd⟩
    have hids' : ∀ q ∈ its, (deref orders q).orderId = q :=
      fun q hq => hids q (List.mem_cons_of_mem _ hq)
    have hprice' : p ∈ its → (deref orders p).price = price :=
      fun hq => hprice (List.mem_cons_of_mem _ hq)
    unfold InstBook.matchEarliest
    dsimp only
    split
    next hfar =>
      -- nothing from here on is within the price
      have hfar' : sd.Better price (deref orders it).price := of_decide_eq_true hfar
      have hbeyond : ∀ q ∈ it :: its, ¬ sd.Crosses price (deref orders q).price := by
        intro q hq hc
        rcases List.mem_cons.mp hq with rfl | hq
        · exact Side.crosses_iff.mp hc hfar'
        · rcases better_or sd (deref orders q).price hfar' with hlt | hlt
          · exact Side.crosses_iff.mp hc hlt
          · exact not_better_of_ordering (hit q hq) hlt
      have hpn : p ∉ it :: its := by
        intro hmem
        apply hbeyond p hmem
        rw [hprice hmem, Side.crosses_iff]
        exact Side.Better.irrefl
      rw [List.erase_of_not_mem hpn, ite_self]
      exact ⟨fun h => ⟨fun q hq hc => absurd hc (hbeyond q hq), (Except.ok.inj h).symm⟩,
        fun h => congrArg _ h.2.symm⟩
    next hfar =>
      have hcross : sd.Crosses price (deref orders it).price :=
        Side.crosses_iff.mpr (of_decide_eq_false (Bool.eq_false_iff.mpr hfar))
      simp only [bind_ok, check_ok, decide_eq_true_eq, ih hs hnd hids' hprice', exists_const]
      rw [hp, hids it List.mem_cons_self]
      constructor
      · rintro ⟨hle, its', ⟨hall, rfl⟩, hl'⟩
        refine ⟨?_, ?_⟩
        · intro q hq hc
          rcases List.mem_cons.mp hq with rfl | hq
          · exact hle
          · exact hall q hq hc
        · split at hl'
          next hfull =>
            rcases hfull with ⟨hfull, rfl⟩
            cases hl'
            rw [if_pos hfull, if_pos hfull, List.erase_cons_head, List.erase_of_not_mem hnot]
          next hfull =>
            cases hl'
            by_cases hf : (deref orders p).full
            · rw [if_pos hf, if_pos hf, List.erase_cons_tail]
              simpa using fun heq => hfull ⟨hf, heq.symm⟩
            · rw [if_neg hf, if_neg hf]
      · rintro ⟨hall, rfl⟩
        refine ⟨hall it List.mem_cons_self hcross, _,
          ⟨fun q hq hc => hall q (List.mem_cons_of_mem _ hq) hc, rfl⟩, ?_⟩
        by_cases hf : (deref orders p).full
        · rw [if_pos hf, if_pos hf]
          by_cases heq : p = it
          · subst heq
            rw [if_pos ⟨hf, rfl⟩, List.erase_cons_head, List.erase_of_not_mem hnot]
          · rw [if_neg fun h => heq h.2, List.erase_cons_tail]
            simpa using Ne.symm heq
        · rw [if_neg hf, if_neg hf, if_neg fun h => hf h.1]

end Lists

/-! ## One line -/

section Steps

variable {r n : OrderStatus} {price executionId count : UInt32} {texts : InstBook.ExecuteTexts}
  {x : Orders × InstBook}

theorem Rests.deref (h : Rests orders i sd id o) : deref orders id = o := deref_of_some h.status

/-- The book without the order. -/
def InstBook.without (book : InstBook) (sd : Side) (id : UInt32) : InstBook :=
  (book.setSide sd ((book.side sd).erase id)).erase id

theorem key_take (o : OrderStatus) : (o.take count).key = o.key := rfl

theorem key_execute (o : OrderStatus) : o.execute.key = o.key := rfl

theorem key_settle (o : OrderStatus) : o.settle.key = o.key := by
  unfold OrderStatus.settle
  split <;> rfl

theorem Synced.search_ok (h : Synced ptype stype c) {wrong : String} {best rid : UInt32}
    {l l' : List UInt32} (hl : (c.book i).side sd = best :: l) (hr : c.orders id = some r)
    (hprice : r.price = price) (hmem : id ∈ best :: l) :
    InstBook.search ptype stype (modify c.orders id (.take count)) sd best id (best :: l) wrong rid
        price = .ok l' ↔
      (∀ id' o', Rests c.orders i sd id' o' → First ptype stype sd r o') ∧
        l' = if (r.take count).full then (best :: l).erase id else best :: l := by
  have hkey : ∀ q, (deref (modify c.orders id (.take count)) q).key = (deref c.orders q).key :=
    key_modify key_take
  have hord : pointerOrdering ptype stype (modify c.orders id (.take count)) sd =
      pointerOrdering ptype stype c.orders sd := pointerOrdering_congr hkey
  have hr' : deref (modify c.orders id (.take count)) id = r.take count := by
    rw [deref_modify_self, deref_of_some hr]
  have hid : r.orderId = id := h.ids id r hr
  have hs : Sorted (pointerOrdering ptype stype (modify c.orders id (.take count)) sd) (best :: l) := by
    rw [hord, ← hl]
    exact h.sorted i sd
  have hrests : ∀ q, q ∈ best :: l ↔ ∃ o, Rests c.orders i sd q o := by
    intro q
    rw [← hl]
    exact h.mem i sd q
  have hids : ∀ q ∈ best :: l, (deref (modify c.orders id (.take count)) q).orderId = q := by
    intro q hq
    rcases (hrests q).mp hq with ⟨o, ho⟩
    by_cases hqid : q = id
    · subst hqid
      rw [hr']
      exact hid
    · rw [deref_modify_of_ne hqid, ho.deref]
      exact h.ids q o ho.status
  unfold InstBook.search
  cases ptype with
  | priceTime =>
    dsimp only
    rw [matchBest_ok hs hids (by rw [hr']; exact hid), hr', hord]
    refine and_congr_left fun _ => ?_
    constructor
    · rintro ⟨-, hfirst⟩ id' o' ho'
      have hlt := hfirst id' ((hrests id').mpr ⟨o', ho'⟩)
      unfold pointerOrdering at hlt
      rw [ho'.deref, deref_of_some hr] at hlt
      exact hlt
    · refine fun hfirst => ⟨hmem, ?_⟩
      intro q hq
      rcases (hrests q).mp hq with ⟨o', ho'⟩
      unfold pointerOrdering
      rw [ho'.deref, deref_of_some hr]
      exact hfirst q o' ho'
  | time =>
    dsimp only
    have hnd := h.nodup i sd
    rw [hl] at hnd
    rw [matchEarliest_ok hs hnd hids (by rw [hr']; exact hid) (by rw [hr']; exact fun _ => hprice), hr']
    refine and_congr_left fun _ => ?_
    have htime : (r.take count).timestamp stype = r.timestamp stype := by cases stype <;> rfl
    constructor
    · intro hall id' o' ho' hc
      have hkey' := hkey id'
      rw [ho'.deref] at hkey'
      have hle := hall id' ((hrests id').mpr ⟨o', ho'⟩)
        (by rw [price_of_key hkey', ← hprice]; exact hc)
      rwa [htime, timestamp_of_key hkey'] at hle
    · intro hfirst q hq hc
      rcases (hrests q).mp hq with ⟨o', ho'⟩
      have hkey' := hkey q
      rw [ho'.deref] at hkey'
      rw [price_of_key hkey', ← hprice] at hc
      rw [htime, timestamp_of_key hkey']
      exact hfirst q o' ho' hc

theorem setSide_self {book : InstBook} : book.setSide sd (book.side sd) = book := by
  cases sd <;> rfl

/-- The trade with an order of the side. -/
theorem Synced.execute_rests (h : Synced ptype stype c) (hr : Rests c.orders i sd id r)
    (hprice : r.price = price) :
    InstBook.execute ptype stype sd texts id executionId price count c.orders (c.book i) = .ok x ↔
      ((∀ id' o', Rests c.orders i sd id' o' → First ptype stype sd r o') ∧
        r.executionId + 1 = executionId) ∧
        x = (modify c.orders id fun r => (r.take count).execute,
          if (r.take count).full then (c.book i).without sd id else c.book i) := by
  have hmem : id ∈ (c.book i).side sd := (h.mem i sd id).mpr ⟨r, hr⟩
  have hall : (c.book i).allOrders id = some id := (h.all i id id).mpr ⟨rfl, _, _, hr⟩
  unfold InstBook.execute
  cases hl : (c.book i).side sd with
  | nil =>
    rw [hl] at hmem
    cases hmem
  | cons best l =>
    rw [hl] at hmem
    have hr' : deref (modify c.orders id (.take count)) id = r.take count := by
      rw [deref_modify_self, hr.deref]
    dsimp only
    simp only [bind_ok, check_ok, at_ok, hall, Option.some.injEq, exists_eq_left', decide_eq_true_eq,
      exists_const, h.search_ok hl hr.status hprice hmem]
    rw [deref_modify_self, hr', modify_modify]
    constructor
    · rintro ⟨-, l', ⟨hfirst, rfl⟩, hid, hx⟩
      refine ⟨⟨hfirst, hid⟩, ?_⟩
      rw [← Except.ok.inj hx]
      congr 1
      by_cases hfull : (r.take count).full
      · rw [if_pos hfull, if_pos hfull, if_pos hfull, InstBook.without, hl]
      · rw [if_neg hfull, if_neg hfull, if_neg hfull, ← hl, setSide_self]
    · rintro ⟨⟨hfirst, hid⟩, rfl⟩
      refine ⟨?_, _, ⟨hfirst, rfl⟩, hid, ?_⟩
      · -- the price of the line is that of the order, which the best one is not behind
        have hs := h.sorted i sd
        rw [hl] at hs
        apply crosses_head hs hmem
        rw [hr.deref, hprice, Side.crosses_iff]
        exact Side.Better.irrefl
      · congr 2
        by_cases hfull : (r.take count).full
        · rw [if_pos hfull, if_pos hfull, if_pos hfull, InstBook.without, hl]
        · rw [if_neg hfull, if_neg hfull, if_neg hfull, ← hl, setSide_self]

/-- No trade takes an order of the other side: at its price nothing crosses. -/
theorem Synced.execute_ok (h : Synced ptype stype c) (hun : Uncrossed c.orders)
    (hr : c.orders id = some r) (hb : r.state = .booked) (hi : r.instrument = i)
    (hprice : r.price = price) :
    InstBook.execute ptype stype sd texts id executionId price count c.orders (c.book i) = .ok x ↔
      ((r.type = sd ∧ ∀ id' o', Rests c.orders i sd id' o' → First ptype stype sd r o') ∧
        r.executionId + 1 = executionId) ∧
        x = (modify c.orders id fun r => (r.take count).execute,
          if (r.take count).full then (c.book i).without sd id else c.book i) := by
  by_cases htype : r.type = sd
  · rw [h.execute_rests ⟨hr, hb, hi, htype⟩ hprice]
    simp only [htype, true_and]
  · constructor
    · intro hok
      unfold InstBook.execute at hok
      cases hl : (c.book i).side sd with
      | nil =>
        rw [hl] at hok
        cases hok
      | cons best l =>
        rw [hl] at hok
        simp only [bind_ok, check_ok, decide_eq_true_eq, exists_const] at hok
        have hmem : best ∈ (c.book i).side sd := by
          rw [hl]
          exact List.mem_cons_self
        rcases (h.mem i sd best).mp hmem with ⟨o, ho⟩
        have hcross := hok.1
        rw [ho.deref, ← hprice] at hcross
        have htype' := (Side.eq_or_eq_opp sd r.type).resolve_left htype
        exact absurd hcross (hun i sd best o id r ho ⟨hr, hb, hi, htype'⟩)
    · rintro ⟨⟨⟨heq, -⟩, -⟩, -⟩
      exact absurd heq htype

/-- An order leaves the book, or nothing of the books changes. -/
theorem Synced.leave (h : Synced ptype stype c) (id : UInt32) (g : Prop) [Decidable g]
    {book : Bytes → InstBook} (hids : ∀ q o, orders q = some o → o.orderId = q)
    (hkey : ∀ q, (deref orders q).key = (deref c.orders q).key)
    (hrests : ∀ i sd q, (∃ o, Rests orders i sd q o) ↔
      (∃ o, Rests c.orders i sd q o) ∧ ¬ (g ∧ q = id))
    (hside : ∀ i sd, (book i).side sd =
      if g then ((c.book i).side sd).erase id else (c.book i).side sd)
    (hall : ∀ i q, (book i).allOrders q = if g ∧ q = id then none else (c.book i).allOrders q) :
    Synced ptype stype { orders, book } where
  ids := hids
  all := by
    intro i q p
    show (book i).allOrders q = some p ↔ p = q ∧ ∃ sd o, Rests orders i sd q o
    rw [hall]
    simp only [hrests]
    split
    next hgone =>
      constructor
      · rintro ⟨⟩
      · rintro ⟨-, sd, -, hnot⟩
        exact absurd hgone hnot
    next hgone =>
      rw [h.all]
      simp only [hgone, not_false_eq_true, and_true]
  mem := by
    intro i sd q
    show q ∈ (book i).side sd ↔ ∃ o, Rests orders i sd q o
    rw [hside, hrests]
    split
    next hgone =>
      rw [(h.nodup i sd).mem_erase_iff, h.mem, and_comm]
      simp [hgone]
    next hgone =>
      rw [h.mem]
      simp [hgone]
  nodup := by
    intro i sd
    show ((book i).side sd).Nodup
    rw [hside]
    split
    · exact (h.nodup i sd).erase id
    · exact h.nodup i sd
  sorted := by
    intro i sd
    show Sorted (pointerOrdering ptype stype orders sd) ((book i).side sd)
    rw [hside, pointerOrdering_congr hkey]
    split
    · exact List.Pairwise.sublist List.erase_sublist (h.sorted i sd)
    · exact h.sorted i sd

theorem addFor_eq (ptype : PriorityType) (stype : SortByTimestampType) (sd : Side) :
    ∃ text, InstBook.addFor ptype stype sd = InstBook.add ptype stype sd text := by
  cases sd with
  | buy => exact ⟨_, rfl⟩
  | sell => exact ⟨_, rfl⟩

theorem executeFor_eq (ptype : PriorityType) (stype : SortByTimestampType) (sd : Side) :
    ∃ texts, InstBook.executeFor ptype stype sd = InstBook.execute ptype stype sd.opp texts := by
  cases sd with
  | buy => exact ⟨_, rfl⟩
  | sell => exact ⟨_, rfl⟩

/-- No order of the other side crosses exactly if the best one does not. -/
theorem Synced.uncrossed_iff (h : Synced ptype stype c) :
    (∀ best ∈ ((c.book i).side sd).head?, ¬ sd.Crosses price (deref c.orders best).price) ↔
      ∀ id' o', Rests c.orders i sd id' o' → ¬ sd.Crosses price o'.price := by
  constructor
  · intro hbest id' o' ho' hc
    have hmem : id' ∈ (c.book i).side sd := (h.mem i sd id').mpr ⟨o', ho'⟩
    have hs := h.sorted i sd
    cases hl : (c.book i).side sd with
    | nil =>
      rw [hl] at hmem
      cases hmem
    | cons best l =>
      rw [hl] at hmem hs hbest
      apply hbest best rfl
      apply crosses_head hs hmem
      rwa [ho'.deref]
  · intro hall best hbest
    rcases (h.mem i sd best).mp (List.mem_of_head? hbest) with ⟨o', ho'⟩
    rw [ho'.deref]
    exact hall best o' ho'

theorem Synced.add_ok (h : Synced ptype stype c) {text : String} {book : InstBook}
    {f : OrderStatus → OrderStatus} (hr : c.orders id = some r) (ha : r.state = .active) :
    InstBook.add ptype stype sd text id price (modify c.orders id f) (c.book i) = .ok book ↔
      (∀ id' o', Rests c.orders i sd.opp id' o' → ¬ sd.opp.Crosses price o'.price) ∧
        book = ((c.book i).setSide sd (SortedMultiset.insert
          (pointerOrdering ptype stype (modify c.orders id f) sd) id ((c.book i).side sd))).emplace id id := by
  have hbest : ∀ best ∈ ((c.book i).side sd.opp).head?,
      deref (modify c.orders id f) best = deref c.orders best := by
    intro best hbest
    rcases (h.mem i sd.opp best).mp (List.mem_of_head? hbest) with ⟨o', ho'⟩
    apply deref_modify_of_ne
    rintro rfl
    have hbooked := ho'.booked
    cases hr.symm.trans ho'.status
    rw [ha] at hbooked
    cases hbooked
  unfold InstBook.add
  dsimp only
  simp only [bind_ok, check_ok, decide_eq_true_eq, exists_const]
  rw [← h.uncrossed_iff]
  constructor
  · rintro ⟨hcross, hb⟩
    exact ⟨fun best hb => hbest best hb ▸ hcross best hb, (Except.ok.inj hb).symm⟩
  · rintro ⟨hcross, rfl⟩
    exact ⟨fun best hb => (hbest best hb).symm ▸ hcross best hb, rfl⟩

/-- An order enters the book. -/
theorem Synced.enter (h : Synced ptype stype c) {f : OrderStatus → OrderStatus}
    (hr : c.orders id = some r) (ha : r.state = .active) (hf : (f r).state = .booked)
    (hfid : (f r).orderId = r.orderId) :
    Synced ptype stype
      { orders := modify c.orders id f
        book := Function.update c.book (f r).instrument
          (((c.book (f r).instrument).setSide (f r).type (SortedMultiset.insert
            (pointerOrdering ptype stype (modify c.orders id f) (f r).type) id
              ((c.book (f r).instrument).side (f r).type))).emplace id id) } := by
  have hnot : ∀ i sd, id ∉ (c.book i).side sd := by
    intro i sd hid
    rcases (h.mem i sd id).mp hid with ⟨o, ho⟩
    have hbooked := ho.booked
    cases hr.symm.trans ho.status
    rw [ha] at hbooked
    cases hbooked
  have hnone : ∀ i, (c.book i).allOrders id = none := by
    intro i
    cases hall : (c.book i).allOrders id with
    | none => rfl
    | some p =>
      rcases (h.all i id p).mp hall with ⟨rfl, sd, o, ho⟩
      exact absurd ((h.mem i sd p).mpr ⟨o, ho⟩) (hnot i sd)
  have hrests : ∀ i sd q, (∃ o, Rests (modify c.orders id f) i sd q o) ↔
      (∃ o, Rests c.orders i sd q o) ∨ q = id ∧ i = (f r).instrument ∧ sd = (f r).type := by
    intro i sd q
    by_cases hq : q = id
    · subst hq
      constructor
      · rintro ⟨o, ho⟩
        cases (modify_self hr).symm.trans ho.status
        exact Or.inr ⟨rfl, ho.instrument.symm, ho.type.symm⟩
      · rintro (⟨o, ho⟩ | ⟨-, rfl, rfl⟩)
        · exact absurd ((h.mem i sd q).mpr ⟨o, ho⟩) (hnot i sd)
        · exact ⟨f r, modify_self hr, hf, rfl, rfl⟩
    · constructor
      · rintro ⟨o, ho⟩
        exact Or.inl ⟨o, (modify_of_ne hq).symm.trans ho.status, ho.booked, ho.instrument, ho.type⟩
      · rintro (⟨o, ho⟩ | ⟨heq, -⟩)
        · exact ⟨o, (modify_of_ne hq).trans ho.status, ho.booked, ho.instrument, ho.type⟩
        · exact absurd heq hq
  have hside : ∀ i sd, (Function.update c.book (f r).instrument
      (((c.book (f r).instrument).setSide (f r).type (SortedMultiset.insert
        (pointerOrdering ptype stype (modify c.orders id f) (f r).type) id
          ((c.book (f r).instrument).side (f r).type))).emplace id id) i).side sd =
      if i = (f r).instrument ∧ sd = (f r).type then SortedMultiset.insert
        (pointerOrdering ptype stype (modify c.orders id f) sd) id ((c.book i).side sd)
      else (c.book i).side sd := by
    intro i sd
    by_cases hi : i = (f r).instrument
    · subst hi
      rw [Function.update_self, InstBook.side_emplace, InstBook.side_setSide]
      by_cases hsd : sd = (f r).type
      · subst hsd
        rw [if_pos rfl, if_pos ⟨rfl, rfl⟩]
      · rw [if_neg hsd, if_neg fun hand => hsd hand.2]
    · rw [Function.update_of_ne hi, if_neg fun hand => hi hand.1]
  -- the orders that are in the books compare as before
  have hold : ∀ i sd, Sorted (pointerOrdering ptype stype (modify c.orders id f) sd)
      ((c.book i).side sd) := by
    intro i sd
    apply (h.sorted i sd).congr
    intro a ha b hb
    unfold pointerOrdering
    rw [deref_modify_of_ne (ne_of_mem_of_not_mem ha (hnot i sd)),
      deref_modify_of_ne (ne_of_mem_of_not_mem hb (hnot i sd))]
  constructor
  · intro q o hq
    by_cases heq : q = id
    · subst heq
      cases (modify_self hr).symm.trans hq
      exact hfid.trans (h.ids q r hr)
    · exact h.ids q o ((modify_of_ne heq).symm.trans hq)
  · intro i q p
    dsimp only
    simp only [hrests]
    by_cases hi : i = (f r).instrument
    · subst hi
      rw [Function.update_self]
      unfold InstBook.emplace
      dsimp only
      rw [InstBook.allOrders_setSide]
      by_cases hq : q = id
      · subst hq
        rw [Function.update_self, hnone]
        constructor
        · rintro ⟨⟩
          exact ⟨rfl, (f r).type, Or.inr ⟨rfl, rfl, rfl⟩⟩
        · rintro ⟨rfl, -⟩
          rfl
      · rw [Function.update_of_ne hq, h.all]
        simp only [hq, false_and, or_false]
    · rw [Function.update_of_ne hi, h.all]
      simp only [hi, false_and, and_false, or_false]
  · intro i sd q
    dsimp only
    rw [hside, hrests, ← h.mem]
    split
    next hat =>
      rw [mem_insert]
      simp only [hat, and_self, and_true]
      exact or_comm
    next hat =>
      simp only [hat, and_false, or_false]
  · intro i sd
    dsimp only
    rw [hside]
    split
    · rw [(perm_insert _ _ _).nodup_iff, List.nodup_cons]
      exact ⟨hnot i sd, h.nodup i sd⟩
    · exact h.nodup i sd
  · intro i sd
    dsimp only
    rw [hside]
    split
    · exact (hold i sd).insert strictWeak_pointerOrdering id
    · exact hold i sd

variable {output : ParsedEngineOutput} {tin tout : ℕ}

theorem Synced.buySell (h : Synced ptype stype c)
    (hok : checkBuySell ptype stype sd id i price tin tout c = .ok c') :
    (∃ o, c.orders id = some o ∧ MayBook c.orders sd i price o) ∧
      c'.orders = modify c.orders id (.book tin tout) ∧ Synced ptype stype c' := by
  rcases addFor_eq ptype stype sd with ⟨text, htext⟩
  unfold checkBuySell at hok
  simp only [bind_ok, check_ok, at_ok, decide_eq_true_eq, exists_const, htext] at hok
  rcases hok with ⟨r, hr, ha, rfl, hopen, rfl, rfl, book, hbook, hc'⟩
  rcases (h.add_ok hr ha).mp hbook with ⟨hcross, rfl⟩
  cases hc'
  exact ⟨⟨r, hr, ha, rfl, hopen, rfl, hcross, rfl⟩, rfl,
    h.enter (f := .book tin tout) hr ha rfl rfl⟩

theorem Synced.buySell_of (h : Synced ptype stype c) (hr : c.orders id = some r)
    (hmay : MayBook c.orders sd i price r) :
    ∃ c', checkBuySell ptype stype sd id i price tin tout c = .ok c' := by
  rcases addFor_eq ptype stype sd with ⟨text, htext⟩
  rcases hmay with ⟨ha, rfl, hopen, rfl, hcross, rfl⟩
  unfold checkBuySell
  simp only [bind_ok, check_ok, at_ok, decide_eq_true_eq, exists_const, htext]
  exact ⟨_, r, hr, ha, rfl, hopen, rfl, rfl, _, (h.add_ok hr ha).mpr ⟨hcross, rfl⟩, rfl⟩

/-- The books after an order left them. -/
theorem Synced.without (h : Synced ptype stype c) (hr : Rests c.orders i sd id r) (j : Bytes)
    (sd' : Side) : (Function.update c.book i ((c.book i).without sd id) j).side sd' =
      ((c.book j).side sd').erase id := by
  have hother : ∀ j sd', ¬ (j = i ∧ sd' = sd) → ((c.book j).side sd').erase id = (c.book j).side sd' := by
    intro j sd' hne
    apply List.erase_of_not_mem
    intro hmem
    rcases (h.mem j sd' id).mp hmem with ⟨o, ho⟩
    cases hr.status.symm.trans ho.status
    exact hne ⟨ho.instrument.symm.trans hr.instrument, ho.type.symm.trans hr.type⟩
  by_cases hj : j = i
  · subst hj
    rw [Function.update_self, InstBook.without, InstBook.side_erase, InstBook.side_setSide]
    split
    next hsd => rw [hsd]
    next hsd => rw [hother j sd' fun hand => hsd hand.2]
  · rw [Function.update_of_ne hj, hother j sd' fun hand => hj hand.1]

theorem Synced.without_all (h : Synced ptype stype c) (hr : Rests c.orders i sd id r) (j : Bytes)
    (q : UInt32) : (Function.update c.book i ((c.book i).without sd id) j).allOrders q =
      if q = id then none else (c.book j).allOrders q := by
  by_cases hj : j = i
  · subst hj
    rw [Function.update_self]
    unfold InstBook.without InstBook.erase
    dsimp only
    rw [InstBook.allOrders_setSide]
    split
    next hq => rw [hq, Function.update_self]
    next hq => rw [Function.update_of_ne hq]
  · rw [Function.update_of_ne hj]
    split
    next hq =>
      cases hall : (c.book j).allOrders q with
      | none => rfl
      | some p =>
        rcases (h.all j q p).mp hall with ⟨rfl, sd', o, ho⟩
        subst hq
        cases hr.status.symm.trans ho.status
        exact absurd (ho.instrument.symm.trans hr.instrument) hj
    · rfl

/-- An order that stays or leaves, all others being as before. -/
theorem rests_modify {f : OrderStatus → OrderStatus} {g : Prop} (hr : orders id = some r)
    (hinst : (f r).instrument = r.instrument) (htype : (f r).type = r.type)
    (hstate : (f r).state = .booked ↔ r.state = .booked ∧ ¬ g) (j : Bytes) (sd' : Side) (q : UInt32) :
    (∃ o, Rests (modify orders id f) j sd' q o) ↔
      (∃ o, Rests orders j sd' q o) ∧ ¬ (g ∧ q = id) := by
  by_cases hq : q = id
  · subst hq
    constructor
    · rintro ⟨o, ho⟩
      cases (modify_self hr).symm.trans ho.status
      rcases hstate.mp ho.booked with ⟨hb, hgone⟩
      exact ⟨⟨r, hr, hb, hinst.symm.trans ho.instrument, htype.symm.trans ho.type⟩,
        fun hand => hgone hand.1⟩
    · rintro ⟨⟨o, ho⟩, hgone⟩
      cases hr.symm.trans ho.status
      exact ⟨f r, modify_self hr, hstate.mpr ⟨ho.booked, fun hg => hgone ⟨hg, rfl⟩⟩,
        hinst.trans ho.instrument, htype.trans ho.type⟩
  · constructor
    · rintro ⟨o, ho⟩
      exact ⟨⟨o, (modify_of_ne hq).symm.trans ho.status, ho.booked, ho.instrument, ho.type⟩,
        fun hand => hq hand.2⟩
    · rintro ⟨⟨o, ho⟩, -⟩
      exact ⟨o, (modify_of_ne hq).trans ho.status, ho.booked, ho.instrument, ho.type⟩

theorem state_settle (o : OrderStatus) :
    o.settle.state = if o.full then .filled else o.state := by
  unfold OrderStatus.settle
  split <;> rfl

theorem instrument_settle (o : OrderStatus) : o.settle.instrument = o.instrument := by
  unfold OrderStatus.settle
  split <;> rfl

theorem type_settle (o : OrderStatus) : o.settle.type = o.type := by
  unfold OrderStatus.settle
  split <;> rfl

theorem orderId_settle (o : OrderStatus) : o.settle.orderId = o.orderId := by
  unfold OrderStatus.settle
  split <;> rfl

/-- The statuses after a trade. -/
def traded (orders : Orders) (rid nid count : UInt32) : Orders :=
  modify (modify orders rid fun r => (r.take count).execute.settle) nid fun n => (n.take count).settle

theorem Synced.trade (h : Synced ptype stype c) {rid nid : UInt32} (hr : c.orders rid = some r)
    (hn : c.orders nid = some n) (hb : r.state = .booked) (ha : n.state = .active) :
    Synced ptype stype
      { orders := traded c.orders rid nid count
        book := Function.update c.book r.instrument
          (if (r.take count).full then (c.book r.instrument).without r.type rid
            else c.book r.instrument) } := by
  have hne : nid ≠ rid := by
    rintro rfl
    cases hr.symm.trans hn
    rw [hb] at ha
    cases ha
  have hrests : Rests c.orders r.instrument r.type rid r := ⟨hr, hb, rfl, rfl⟩
  have hn' : modify c.orders rid (fun r => (r.take count).execute.settle) nid = some n :=
    (modify_of_ne hne).trans hn
  have hfill : (r.take count).execute.full = (r.take count).full := rfl
  apply h.leave rid ((r.take count).full = true)
  · intro q o hq
    unfold traded at hq
    by_cases hqn : q = nid
    · subst hqn
      cases (modify_self hn').symm.trans hq
      exact (orderId_settle _).trans (h.ids q n hn)
    · rw [modify_of_ne hqn] at hq
      by_cases hqr : q = rid
      · subst hqr
        cases (modify_self hr).symm.trans hq
        exact (orderId_settle _).trans (h.ids q r hr)
      · rw [modify_of_ne hqr] at hq
        exact h.ids q o hq
  · intro q
    unfold traded
    rw [key_modify fun o => key_settle (o.take count),
      key_modify fun o => key_settle (o.take count).execute]
  · intro i sd q
    unfold traded
    rw [rests_modify (f := fun n => (n.take count).settle) (g := False) hn' (instrument_settle _)
        (type_settle _),
      rests_modify (f := fun r => (r.take count).execute.settle) (g := (r.take count).full = true) hr
        (instrument_settle _) (type_settle _)]
    · simp only [false_and, not_false_eq_true, and_true]
    · rw [state_settle, hfill, hb]
      show (if (r.take count).full then OrderState.filled else r.state) = .booked ↔ _
      rw [hb]
      split
      next hfull => simp [hfull]
      next hfull => simp [hfull]
    · rw [state_settle, ha]
      show (if (n.take count).full then OrderState.filled else n.state) = .booked ↔ _
      rw [ha]
      split
      · simp
      · simp
  · intro i sd
    split
    · exact h.without hrests i sd
    · rw [Function.update_eq_self]
  · intro i q
    by_cases hfull : (r.take count).full
    · rw [if_pos hfull, h.without_all hrests]
      simp only [hfull, true_and]
    · rw [if_neg hfull, Function.update_eq_self, if_neg fun hand => hfull hand.1]

/-- The writes of `checkExec` one after the other. -/
theorem traded_eq {rid nid : UInt32} (hne : nid ≠ rid) :
    modify (modify (modify (modify c.orders rid fun r => (r.take count).execute) nid (.take count))
      nid .settle) rid .settle = traded c.orders rid nid count := by
  rw [modify_modify, modify_comm hne.symm, modify_modify]
  rfl

theorem Synced.exec_iff (h : Synced ptype stype c) (hun : Uncrossed c.orders) {rid nid : UInt32} :
    checkExec ptype stype rid nid executionId price count c = .ok c' ↔
      ∃ r n, (c.orders rid = some r ∧ c.orders nid = some n ∧
        MayTrade ptype stype c.orders executionId price count r n) ∧
        c' = { orders := traded c.orders rid nid count
               book := Function.update c.book r.instrument
                (if (r.take count).full then (c.book r.instrument).without r.type rid
                  else c.book r.instrument) } := by
  unfold checkExec
  simp only [bind_ok, check_ok, at_ok, decide_eq_true_eq, exists_const]
  constructor
  · rintro ⟨r, hr, n, hn, hb, ha, rfl, hi, x, hx, hle, hle', hc'⟩
    rcases executeFor_eq ptype stype n.type with ⟨texts, htexts⟩
    rw [htexts] at hx
    rcases (h.execute_ok hun hr hb rfl rfl).mp hx with
      ⟨⟨⟨htype, hfirst⟩, hid⟩, rfl⟩
    have hne : nid ≠ rid := by
      rintro rfl
      cases hr.symm.trans hn
      rw [hb] at ha
      cases ha
    dsimp only at hle hle' hc'
    rw [deref_modify_of_ne hne.symm, deref_modify_self, deref_of_some hr] at hle
    rw [deref_modify_self, deref_modify_of_ne hne, deref_of_some hn] at hle'
    rw [traded_eq hne] at hc'
    refine ⟨r, n, ⟨hr, hn, hb, ha, rfl, hi, htype, ?_, hid, hle, hle'⟩, ?_⟩
    · intro id' o' ho'
      rw [htype] at ho' ⊢
      exact hfirst id' o' ho'
    · rw [htype]
      exact (Except.ok.inj hc').symm
  · rintro ⟨r, n, ⟨hr, hn, hmay⟩, rfl⟩
    rcases executeFor_eq ptype stype n.type with ⟨texts, htexts⟩
    have hne : nid ≠ rid := by
      rintro rfl
      cases hr.symm.trans hn
      have ha := hmay.active
      rw [hmay.booked] at ha
      cases ha
    refine ⟨r, hr, n, hn, hmay.booked, hmay.active, hmay.price, hmay.instrument,
      (modify c.orders rid fun r => (r.take count).execute,
        if (r.take count).full then (c.book r.instrument).without n.type.opp rid
        else c.book r.instrument), ?_, ?_, ?_, ?_⟩
    · rw [htexts]
      refine (h.execute_ok hun hr hmay.booked rfl hmay.price).mpr
        ⟨⟨⟨hmay.sides, ?_⟩, hmay.executionId⟩, rfl⟩
      intro id' o' ho'
      have hfirst := hmay.first id' o'
      rw [hmay.sides] at hfirst
      exact hfirst ho'
    · dsimp only
      rw [deref_modify_of_ne hne.symm, deref_modify_self, deref_of_some hr]
      exact hmay.resting
    · dsimp only
      rw [deref_modify_self, deref_modify_of_ne hne, deref_of_some hn]
      exact hmay.new
    · dsimp only
      rw [traded_eq hne, hmay.sides]

theorem InstBook.erase_setSide {book : InstBook} :
    (book.erase id).setSide sd ((book.side sd).erase id) = book.without sd id := by
  cases sd <;> rfl

theorem Synced.cancel_accept (h : Synced ptype stype c) (hr : Rests c.orders i sd id r) :
    InstBook.cancel ptype stype id true c.orders (c.book i) =
      .ok (modify c.orders id .cancel, (c.book i).without sd id) := by
  have hall : (c.book i).allOrders id = some id := (h.all i id id).mpr ⟨rfl, _, _, hr⟩
  have hkey : ∀ q, (deref (modify c.orders id .cancel) q).key = (deref c.orders q).key :=
    key_modify fun _ => rfl
  have hr' : deref (modify c.orders id .cancel) id = r.cancel := by
    rw [deref_modify_self, hr.deref]
  have hmem : id ∈ (c.book i).side sd := (h.mem i sd id).mpr ⟨r, hr⟩
  have hrange : ∀ q ∈ equalRange (pointerOrdering ptype stype c.orders sd) id ((c.book i).side sd),
      (deref (modify c.orders id .cancel) q).orderId = q := by
    intro q hq
    rcases (h.mem i sd q).mp (((h.sorted i sd).mem_equalRange strictWeak_pointerOrdering).mp hq).1.1
      with ⟨o, ho⟩
    by_cases hqid : q = id
    · subst hqid
      rw [hr']
      exact h.ids q r hr.status
    · rw [deref_modify_of_ne hqid, ho.deref]
      exact h.ids q o ho.status
  have hin : id ∈ equalRange (pointerOrdering ptype stype c.orders sd) id ((c.book i).side sd) :=
    ((h.sorted i sd).mem_equalRange strictWeak_pointerOrdering).mpr
      ⟨⟨hmem, strictWeak_pointerOrdering.irrefl id⟩, strictWeak_pointerOrdering.irrefl id⟩
  have htype : r.cancel.type = sd := hr.type
  have hid : r.cancel.orderId = id := h.ids id r hr.status
  unfold InstBook.cancel
  rw [if_pos rfl]
  refine bind_ok.mpr ⟨id, at_ok.mpr hall, ?_⟩
  dsimp only
  rw [hr', htype, hid, InstBook.side_erase, pointerOrdering_congr hkey, find_orderId hrange, if_pos hin]
  dsimp only
  rw [InstBook.erase_setSide]

theorem Synced.cancel_iff (h : Synced ptype stype c) {accept : Bool} :
    checkCancel ptype stype id accept c = .ok c' ↔
      ∃ r, (c.orders id = some r ∧ (accept = true ↔ r.state = .booked)) ∧
        c' = if accept then
          { orders := modify c.orders id .cancel
            book := Function.update c.book r.instrument ((c.book r.instrument).without r.type id) }
        else c := by
  unfold checkCancel
  simp only [bind_ok, check_ok, at_ok, decide_eq_true_eq, exists_const]
  cases accept with
  | true =>
    simp only [true_imp_iff, Bool.true_eq_false, false_imp_iff, true_and, if_true, true_iff]
    constructor
    · rintro ⟨r, hr, hb, x, hx, hc'⟩
      rw [h.cancel_accept ⟨hr, hb, rfl, rfl⟩] at hx
      cases hx
      exact ⟨r, ⟨hr, hb⟩, (Except.ok.inj hc').symm⟩
    · rintro ⟨r, ⟨hr, hb⟩, rfl⟩
      exact ⟨r, hr, hb, _, h.cancel_accept ⟨hr, hb, rfl, rfl⟩, rfl⟩
  | false =>
    simp only [Bool.false_eq_true, false_imp_iff, true_imp_iff, true_and, if_false, false_iff]
    have hnone : ∀ r, c.orders id = some r → r.state ≠ .booked →
        InstBook.cancel ptype stype id false c.orders (c.book r.instrument) =
          .ok (c.orders, c.book r.instrument) := by
      intro r hr hb
      have hall : (c.book r.instrument).allOrders id = none := by
        cases hall : (c.book r.instrument).allOrders id with
        | none => rfl
        | some p =>
          rcases (h.all _ _ p).mp hall with ⟨rfl, sd, o, ho⟩
          cases hr.symm.trans ho.status
          exact absurd ho.booked hb
      unfold InstBook.cancel
      rw [if_neg (by decide), hall]
      rfl
    have hbook : ∀ r : OrderStatus,
        Function.update c.book r.instrument (c.book r.instrument) = c.book :=
      fun r => Function.update_eq_self ..
    constructor
    · rintro ⟨r, hr, hb, x, hx, hc'⟩
      rw [hnone r hr hb] at hx
      cases hx
      refine ⟨r, ⟨hr, hb⟩, ?_⟩
      rw [← Except.ok.inj hc', hbook]
    · rintro ⟨r, ⟨hr, hb⟩, rfl⟩
      refine ⟨r, hr, hb, _, hnone r hr hb, ?_⟩
      rw [hbook]

theorem Synced.cancelled (h : Synced ptype stype c) (hr : Rests c.orders i sd id r) :
    Synced ptype stype
      { orders := modify c.orders id .cancel
        book := Function.update c.book i ((c.book i).without sd id) } := by
  apply h.leave id True
  · intro q o hq
    by_cases hqid : q = id
    · subst hqid
      cases (modify_self hr.status).symm.trans hq
      exact h.ids q r hr.status
    · exact h.ids q o ((modify_of_ne hqid).symm.trans hq)
  · exact key_modify fun _ => rfl
  · intro i sd q
    rw [rests_modify (f := .cancel) (g := True) hr.status rfl rfl]
    simp [OrderStatus.cancel]
  · intro j sd'
    rw [if_pos trivial]
    exact h.without hr j sd'
  · intro j q
    rw [h.without_all hr]
    simp only [true_and]

end Steps

end MatchingEngine.Cpp.Grader
