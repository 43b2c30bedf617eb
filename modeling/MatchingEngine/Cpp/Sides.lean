import MatchingEngine.Cpp.Levels

/-!
# One side of a book stays in order

`SideOk` collects what the levels of a side satisfy between commands: prices strictly ordered,
each vector by non-increasing input time, each order at its own price, side and instrument and with
a positive count.  Matching, booking and cancelling keep it.
-/

set_option linter.unusedSectionVars false

namespace MatchingEngine.Cpp

variable {N I : Type} [Quantity N] [DecidableEq I]

open Quantity (value)

theorem pos_of_ne_zero {q : N} (h : q ≠ 0) : 0 < value q := by
  refine Nat.pos_of_ne_zero fun h0 => h (Quantity.value_inj ?_)
  rw [h0, Quantity.value_zero]

theorem pos_iff {q : N} : 0 < q ↔ 0 < value q := by
  rw [Quantity.lt_iff, Quantity.value_zero]

theorem eq_zero_iff {q : N} : q = 0 ↔ value q = 0 :=
  ⟨fun h => h ▸ Quantity.value_zero, fun h => Quantity.value_inj (h.trans Quantity.value_zero.symm)⟩

/-- The execution id of an order stays below the count it was booked with, so it never wraps. -/
def ExecOk (r : Order N I) : Prop :=
  ∃ booked : N, value r.executionId + value r.count ≤ value booked + 1

/-- What is left of `r` after a trade that did not fill it. -/
def Reduced (r' r : Order N I) : Prop :=
  r' = r ∨ ∃ q : N, 0 < value q ∧ value q < value r.count ∧
    r' = { r with count := r.count - q, executionId := r.executionId + 1 }

theorem Reduced.header {r' r : Order N I} (h : Reduced r' r) : r'.header = r.header := by
  rcases h with rfl | ⟨q, -, -, rfl⟩ <;> rfl

theorem Reduced.pos {r' r : Order N I} (h : Reduced r' r) (hr : 0 < value r.count) :
    0 < value r'.count := by
  rcases h with rfl | ⟨q, -, hlt, rfl⟩
  · exact hr
  · rw [Quantity.value_sub (Quantity.le_iff.mpr hlt.le)]
    omega

theorem value_executionId {r : Order N I} (h : ExecOk r) (h2 : 2 ≤ value r.count) :
    value (r.executionId + 1) = value r.executionId + 1 := by
  obtain ⟨booked, hb⟩ := h
  exact Quantity.value_succ (b := booked) (Quantity.lt_iff.mpr (by omega))

theorem Reduced.execOk {r' r : Order N I} (h : Reduced r' r) (hr : ExecOk r) : ExecOk r' := by
  rcases h with rfl | ⟨q, hq, hlt, rfl⟩
  · exact hr
  · have hsucc := value_executionId hr (by omega)
    obtain ⟨booked, hb⟩ := hr
    refine ⟨booked, ?_⟩
    rw [hsucc, Quantity.value_sub (Quantity.le_iff.mpr hlt.le)]
    omega

/-- Matching takes orders off the front of the priority order and may reduce the next one. -/
theorem fill_reduced (o : Order N I) (rs : List (Order N I)) :
    ∃ k, List.Forall₂ Reduced (fill o rs).1 (rs.drop k) := by
  induction rs generalizing o with
  | nil => exact ⟨0, .nil⟩
  | cons r rs ih =>
    rw [fill]
    split
    · exact ⟨0, List.forall₂_same.mpr fun _ _ => Or.inl rfl⟩
    next hz =>
      split
      · obtain ⟨k, hk⟩ := ih { o with count := o.count - r.count }
        exact ⟨k + 1, hk⟩
      next hlt =>
        rw [Quantity.le_iff] at hlt
        refine ⟨0, .cons (Or.inr ⟨o.count, pos_of_ne_zero hz, by omega, rfl⟩) ?_⟩
        exact List.forall₂_same.mpr fun _ _ => Or.inl rfl

/-- The incoming order loses count and nothing else. -/
theorem fill_incoming (o : Order N I) (rs : List (Order N I)) :
    (fill o rs).2.1 = { o with count := (fill o rs).2.1.count } := by
  induction rs generalizing o with
  | nil => rfl
  | cons r rs ih =>
    rw [fill]
    split
    · rfl
    · split
      · exact ih { o with count := o.count - r.count }
      · rfl

/-- A level after matching: some orders off the back, the last of the others perhaps reduced. -/
structure LevelLeft (lv' lv : Level N I) : Prop where
  price : lv'.price = lv.price
  orders : ∃ k, List.Forall₂ Reduced lv'.orders (lv.orders.take k)

theorem LevelLeft.refl (lv : Level N I) : LevelLeft lv lv :=
  ⟨rfl, lv.orders.length, by
    rw [List.take_length]
    exact List.forall₂_same.mpr fun _ _ => Or.inl rfl⟩

theorem fillLevel_left (o : Order N I) (lv : Level N I) : LevelLeft (fillLevel o lv).1 lv := by
  obtain ⟨k, hk⟩ := fill_reduced o lv.orders.reverse
  refine ⟨rfl, lv.orders.length - k, ?_⟩
  rw [List.drop_reverse] at hk
  exact List.forall₂_reverse_iff.mp (by simpa [fillLevel] using hk)

theorem matchLevels_left (sd : Side) (o : Order N I) (lvs : List (Level N I)) :
    List.Forall₂ LevelLeft (matchLevels sd o lvs).1 lvs := by
  induction lvs generalizing o with
  | nil => exact .nil
  | cons lv lvs ih =>
    rw [matchLevels]
    split
    · exact .cons (fillLevel_left o lv) (ih _)
    · exact List.forall₂_same.mpr fun lv _ => LevelLeft.refl lv

theorem fillLevel_incoming (o : Order N I) (lv : Level N I) :
    (fillLevel o lv).2.1 = { o with count := (fillLevel o lv).2.1.count } :=
  fill_incoming o lv.orders.reverse

theorem matchLevels_incoming (sd : Side) (o : Order N I) (lvs : List (Level N I)) :
    (matchLevels sd o lvs).2.1 = { o with count := (matchLevels sd o lvs).2.1.count } := by
  induction lvs generalizing o with
  | nil => rfl
  | cons lv lvs ih =>
    rw [matchLevels]
    split
    · refine (ih (fillLevel o lv).2.1).trans ?_
      change _ = { o with count := (matchLevels sd (fillLevel o lv).2.1 lvs).2.1.count }
      rw [fillLevel_incoming]
    · rfl

/-- A resting order in its place: its own side, instrument and price, and something left of it. -/
structure OrderOk (sd : Side) (instrument : I) (price : UInt32) (r : Order N I) : Prop where
  type : r.type = sideType sd
  price : r.price = price
  instrument : r.instrument = instrument
  count : 0 < value r.count
  exec : ExecOk r

theorem OrderOk.reduced {sd : Side} {instrument : I} {price : UInt32} {r' r : Order N I}
    (h : OrderOk sd instrument price r) (hr : Reduced r' r) : OrderOk sd instrument price r' := by
  have hh := hr.header
  simp only [Order.header, Prod.mk.injEq] at hh
  exact ⟨hh.1.trans h.type, hh.2.2.1.trans h.price, hh.2.2.2.1.trans h.instrument, hr.pos h.count,
    hr.execOk h.exec⟩

abbrev ByTime (rs : List (Order N I)) : Prop :=
  rs.Pairwise fun r r' => r'.inputTime ≤ r.inputTime

structure LevelOk (sd : Side) (instrument : I) (lv : Level N I) : Prop where
  orders : ∀ r ∈ lv.orders, OrderOk sd instrument lv.price r
  byTime : ByTime lv.orders

structure SideOk (sd : Side) (instrument : I) (lvs : List (Level N I)) : Prop where
  sorted : lvs.Pairwise fun lv lv' => sd.Better lv.price lv'.price
  level : ∀ lv ∈ lvs, LevelOk sd instrument lv

theorem SideOk.nil (sd : Side) (instrument : I) : SideOk (N := N) sd instrument [] :=
  ⟨.nil, fun _ h => absurd h List.not_mem_nil⟩

theorem byTime_reduced {rs' rs : List (Order N I)} (h : List.Forall₂ Reduced rs' rs)
    (ht : ByTime rs) : ByTime rs' := by
  induction h with
  | nil => exact .nil
  | cons hred hrest ih =>
    obtain ⟨hhead, htail⟩ := List.pairwise_cons.mp ht
    refine List.Pairwise.cons (fun r' hr' => ?_) (ih htail)
    obtain ⟨r, hr, hred'⟩ := exists_of_forall₂ hrest hr'
    have h1 := congrArg (fun x => x.2.2.2.2) hred.header
    have h2 := congrArg (fun x => x.2.2.2.2) hred'.header
    simp only [Order.header] at h1 h2
    rw [h1, h2]
    exact hhead r hr

theorem LevelOk.left {sd : Side} {instrument : I} {lv' lv : Level N I}
    (h : LevelOk sd instrument lv) (hl : LevelLeft lv' lv) : LevelOk sd instrument lv' := by
  obtain ⟨hp, k, hk⟩ := hl
  constructor
  · intro r' hr'
    obtain ⟨r, hr, hred⟩ := exists_of_forall₂ hk hr'
    rw [hp]
    exact (h.orders r (List.mem_of_mem_take hr)).reduced hred
  · exact byTime_reduced hk (h.byTime.sublist (List.take_sublist k lv.orders))

theorem sorted_of_prices {sd : Side} {lvs lvs' : List (Level N I)}
    (h : List.Forall₂ LevelLeft lvs' lvs)
    (hs : lvs.Pairwise fun lv lv' => sd.Better lv.price lv'.price) :
    lvs'.Pairwise fun lv lv' => sd.Better lv.price lv'.price := by
  induction h with
  | nil => exact .nil
  | cons hl hrest ih =>
    obtain ⟨hhead, htail⟩ := List.pairwise_cons.mp hs
    refine List.Pairwise.cons (fun lv' hlv' => ?_) (ih htail)
    obtain ⟨lv, hlv, hl'⟩ := exists_of_forall₂ hrest hlv'
    rw [hl.price, hl'.price]
    exact hhead lv hlv

theorem SideOk.left {sd : Side} {instrument : I} {lvs lvs' : List (Level N I)}
    (h : SideOk sd instrument lvs) (hl : List.Forall₂ LevelLeft lvs' lvs) :
    SideOk sd instrument lvs' := by
  refine ⟨sorted_of_prices hl h.sorted, fun lv' hlv' => ?_⟩
  obtain ⟨lv, hlv, hleft⟩ := exists_of_forall₂ hl hlv'
  exact (h.level lv hlv).left hleft

/-! ## Booking -/

theorem mem_insertValue {o r : Order N I} {rs : List (Order N I)} :
    r ∈ insertValue o rs ↔ r = o ∨ r ∈ rs := by
  induction rs with
  | nil => simp [insertValue]
  | cons r' rs ih =>
    rw [insertValue]
    split
    · simp
    · rw [List.mem_cons, ih, List.mem_cons]
      exact or_left_comm

theorem insertValue_byTime {o : Order N I} {rs : List (Order N I)} (h : ByTime rs) :
    ByTime (insertValue o rs) := by
  induction rs with
  | nil => exact List.pairwise_singleton ..
  | cons r rs ih =>
    obtain ⟨hhead, htail⟩ := List.pairwise_cons.mp h
    rw [insertValue]
    split
    next hlt =>
      refine List.Pairwise.cons (fun r' hr' => ?_) h
      rcases List.mem_cons.mp hr' with rfl | hr'
      · exact hlt.le
      · exact (hhead r' hr').trans hlt.le
    next hge =>
      refine List.Pairwise.cons (fun r' hr' => ?_) (ih htail)
      rcases mem_insertValue.mp hr' with rfl | hr'
      · exact not_lt.mp hge
      · exact hhead r' hr'

theorem LevelOk.insert {sd : Side} {instrument : I} {o : Order N I} {lv : Level N I}
    (h : LevelOk sd instrument lv) (ho : OrderOk sd instrument lv.price o) :
    LevelOk sd instrument (insertLevel o lv) := by
  refine ⟨fun r hr => ?_, insertValue_byTime h.byTime⟩
  rcases mem_insertValue.mp hr with rfl | hr
  · exact ho
  · exact h.orders r hr

theorem levelOk_new {sd : Side} {instrument : I} {o : Order N I}
    (ho : OrderOk sd instrument o.price o) :
    LevelOk sd instrument (insertLevel o { price := o.price, orders := [] }) :=
  LevelOk.insert ⟨fun _ h => absurd h List.not_mem_nil, .nil⟩ ho

/-- `add` from a node whose price stands ahead of the order's: the node itself stays, and the order
    has its level after it.  The head sentinel is such a node for every price but 0. -/
theorem addLevels_ok {sd : Side} {instrument : I} {o : Order N I} (lv : Level N I)
    {lvs : List (Level N I)} (h : SideOk sd instrument lvs)
    (ho : OrderOk sd instrument o.price o) (hne : o.price ≠ lv.price) :
    (addLevels sd o lv lvs).1 = lv ∧ SideOk sd instrument (addLevels sd o lv lvs).2 ∧
      ∀ lv' ∈ (addLevels sd o lv lvs).2, lv'.price = o.price ∨ ∃ lv'' ∈ lvs, lv'.price = lv''.price := by
  induction lvs generalizing lv with
  | nil =>
    rw [addLevels, placeLevel, if_pos hne]
    exact ⟨rfl, ⟨List.pairwise_singleton .., by simpa using levelOk_new ho⟩, by simp [insertLevel]⟩
  | cons next rest ih =>
    obtain ⟨hhead, htail⟩ := List.pairwise_cons.mp h.sorted
    have hrest : SideOk sd instrument rest :=
      ⟨htail, fun lv' hlv' => h.level lv' (List.mem_cons_of_mem _ hlv')⟩
    rw [addLevels]
    by_cases hb : sd.Better o.price next.price
    · rw [if_pos hb, placeLevel, if_pos hne]
      refine ⟨rfl, ⟨List.Pairwise.cons (fun lv' hlv' => ?_) h.sorted, fun lv' hlv' => ?_⟩, ?_⟩
      · rcases List.mem_cons.mp hlv' with rfl | hlv'
        · exact hb
        · exact hb.trans (hhead lv' hlv')
      · rcases List.mem_cons.mp hlv' with rfl | hlv'
        · exact levelOk_new ho
        · exact h.level lv' hlv'
      · intro lv' hlv'
        rcases List.mem_cons.mp hlv' with rfl | hlv'
        · exact Or.inl rfl
        · exact Or.inr ⟨lv', hlv', rfl⟩
    · rw [if_neg hb]
      by_cases he : o.price = next.price
      · rw [if_pos he]
        refine ⟨rfl, ⟨List.Pairwise.cons hhead htail, fun lv' hlv' => ?_⟩, ?_⟩
        · rcases List.mem_cons.mp hlv' with rfl | hlv'
          · exact (h.level next List.mem_cons_self).insert (he ▸ ho)
          · exact hrest.level lv' hlv'
        · intro lv' hlv'
          rcases List.mem_cons.mp hlv' with rfl | hlv'
          · exact Or.inl he.symm
          · exact Or.inr ⟨lv', List.mem_cons_of_mem _ hlv', rfl⟩
      · rw [if_neg he]
        obtain ⟨hfst, hok, hprices⟩ := ih _ hrest he
        have hworse := PriceTime.Side.better_of_not_better hb he
        refine ⟨rfl, ⟨List.Pairwise.cons (fun lv' hlv' => ?_) hok.sorted, fun lv' hlv' => ?_⟩, ?_⟩
        · rw [hfst]
          rcases hprices lv' hlv' with hp | ⟨lv'', hlv'', hp⟩
          · rw [hp]
            exact hworse
          · rw [hp]
            exact hhead lv'' hlv''
        · rcases List.mem_cons.mp hlv' with rfl | hlv'
          · rw [hfst]
            exact h.level next List.mem_cons_self
          · exact hok.level lv' hlv'
        · intro lv' hlv'
          rcases List.mem_cons.mp hlv' with rfl | hlv'
          · rw [hfst]
            exact Or.inr ⟨next, List.mem_cons_self, rfl⟩
          · rcases hprices lv' hlv' with hp | ⟨lv'', hlv'', hp⟩
            · exact Or.inl hp
            · exact Or.inr ⟨lv'', List.mem_cons_of_mem _ hlv'', hp⟩

/-! ## Cancelling -/

theorem cancelLevels_prices (orderId price : UInt32) (lvs : List (Level N I)) :
    List.Forall₂ (fun lv' lv => lv'.price = lv.price ∧ List.Sublist lv'.orders lv.orders)
      (cancelLevels orderId price lvs).1 lvs := by
  induction lvs with
  | nil => exact .nil
  | cons lv lvs ih =>
    have hrefl : List.Forall₂ (fun lv' lv : Level N I => lv'.price = lv.price ∧
        List.Sublist lv'.orders lv.orders) lvs lvs :=
      List.forall₂_same.mpr fun _ _ => ⟨rfl, List.Sublist.refl _⟩
    rw [cancelLevels]
    split
    · exact .cons ⟨rfl, List.Sublist.refl _⟩ ih
    · split
      · exact .cons ⟨rfl, List.eraseP_sublist⟩ hrefl
      · exact .cons ⟨rfl, List.Sublist.refl _⟩ hrefl

theorem cancelLevels_ok {sd : Side} {instrument : I} {lvs : List (Level N I)}
    (h : SideOk sd instrument lvs) (orderId price : UInt32) :
    SideOk sd instrument (cancelLevels orderId price lvs).1 := by
  have hl := cancelLevels_prices orderId price lvs
  generalize (cancelLevels orderId price lvs).1 = lvs' at hl
  constructor
  · have hs := h.sorted
    clear h
    induction hl with
    | nil => exact .nil
    | cons hlv hrest ih =>
      obtain ⟨hhead, htail⟩ := List.pairwise_cons.mp hs
      refine List.Pairwise.cons (fun lv' hlv' => ?_) (ih htail)
      obtain ⟨lv, hmem, hp, -⟩ := exists_of_forall₂ hrest hlv'
      rw [hlv.1, hp]
      exact hhead lv hmem
  · intro lv' hlv'
    obtain ⟨lv, hmem, hp, hsub⟩ := exists_of_forall₂ hl hlv'
    have hok := h.level lv hmem
    exact ⟨fun r hr => hp ▸ hok.orders r (hsub.subset hr), hok.byTime.sublist hsub⟩

end MatchingEngine.Cpp
