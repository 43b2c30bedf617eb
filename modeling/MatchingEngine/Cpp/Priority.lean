import MatchingEngine.Cpp.Values

/-!
# The levels of a side as a ladder

Read off level by level, each vector from its back, the orders of one side are a `PriceTime.Ladder`.
On it `matchLevels` is the matching pass of the library, booking adds one entry and an accepted
cancel takes one away.
-/

set_option linter.unusedSectionVars false

namespace MatchingEngine.Cpp

open PriceTime
open Quantity (value)

variable {N I : Type} [Quantity N] [DecidableEq I]

def Order.entry (r : Order N I) : UInt32 × Resting UInt32 ℤ :=
  (r.orderId, { price := r.price, key := r.inputTime, count := value r.count,
                nextExec := value r.executionId })

def Level.entries (lv : Level N I) : Ladder UInt32 UInt32 ℤ := lv.orders.reverse.map Order.entry

def ladder (lvs : List (Level N I)) : Ladder UInt32 UInt32 ℤ := lvs.flatMap Level.entries

def execTo (o : Order N I) (e : Exec UInt32 UInt32) : Line ℕ I :=
  .executed e.restingId o.orderId e.execId e.price e.count o.inputTime

theorem mem_entries {lv : Level N I} {x : UInt32 × Resting UInt32 ℤ} :
    x ∈ lv.entries ↔ ∃ r ∈ lv.orders, r.entry = x := by
  simp [Level.entries]

theorem mem_ladder {lvs : List (Level N I)} {x : UInt32 × Resting UInt32 ℤ} :
    x ∈ ladder lvs ↔ ∃ lv ∈ lvs, ∃ r ∈ lv.orders, r.entry = x := by
  simp [ladder, mem_entries]

/-! ## Matching -/

theorem fill_ladder {sd : Side} {instrument : I} {price : UInt32} {o : Order N I}
    {rs : List (Order N I)} (h : ∀ r ∈ rs, OrderOk sd instrument price r)
    (hc : sd.Crosses o.price price) :
    ∃ es, Ladder.fill sd o.price (value o.count) (rs.map Order.entry) =
        ((fill o rs).1.map Order.entry, es, value (fill o rs).2.1.count) ∧
      (fill o rs).2.2.map Line.toNat = es.map (execTo o) := by
  induction rs generalizing o with
  | nil => exact ⟨[], rfl, rfl⟩
  | cons r rs ih =>
    have hr := h r List.mem_cons_self
    rw [fill]
    by_cases hz : o.count = 0
    · rw [if_pos hz, hz, Quantity.value_zero, Ladder.fill_zero]
      exact ⟨[], rfl, rfl⟩
    · have hgo : ¬ (value o.count = 0 ∨ ¬ sd.Crosses o.price r.price) := by
        rw [hr.price]
        exact fun h => h.elim (fun h => hz (eq_zero_iff.mpr h)) fun h => h hc
      rw [if_neg hz, List.map_cons, Order.entry, Ladder.fill, if_neg hgo]
      by_cases hle : r.count ≤ o.count
      · -- the whole of `r` trades
        have hle' : value r.count ≤ value o.count := Quantity.le_iff.mp hle
        rw [if_pos hle, if_neg (show ¬ value o.count < value r.count by omega)]
        rcases ih (o := { o with count := o.count - r.count })
          (fun r' h' => h r' (List.mem_cons_of_mem _ h')) hc with ⟨es, hes, hout⟩
        rw [Quantity.value_sub hle] at hes
        refine ⟨⟨r.orderId, value r.executionId, r.price, value r.count⟩ :: es, ?_, ?_⟩
        · dsimp only at hes ⊢
          rw [hes]
        · dsimp only
          rw [List.map_cons, hout]
          rfl
      · have hlt : value o.count < value r.count := by
          rw [Quantity.le_iff] at hle
          omega
        rw [if_neg hle, if_pos hlt]
        have hexec := value_executionId hr.exec
          (by have := pos_of_ne_zero hz; omega)
        refine ⟨[⟨r.orderId, value r.executionId, r.price, value o.count⟩], ?_, rfl⟩
        rw [List.map_cons, Order.entry, hexec, Quantity.value_sub (Quantity.le_iff.mpr hlt.le),
          Quantity.value_zero]

/-- The matching pass over the levels is the matching pass over the ladder. -/
theorem matchLevels_ladder {sd : Side} {instrument : I} {lvs : List (Level N I)}
    (h : SideOk sd instrument lvs) (o : Order N I) :
    ∃ es, Ladder.fill sd o.price (value o.count) (ladder lvs) =
        (ladder (matchLevels sd o lvs).1, es, value (matchLevels sd o lvs).2.1.count) ∧
      (matchLevels sd o lvs).2.2.map Line.toNat = es.map (execTo o) := by
  induction lvs generalizing o with
  | nil => exact ⟨[], rfl, rfl⟩
  | cons lv lvs ih =>
    have hlv := h.level lv List.mem_cons_self
    rcases List.pairwise_cons.mp h.sorted with ⟨hhead, htail⟩
    rw [matchLevels]
    by_cases hgo : 0 < o.count ∧ sd.Crosses o.price lv.price
    · rw [if_pos hgo]
      have hrev : ∀ r ∈ lv.orders.reverse, OrderOk sd instrument lv.price r :=
        fun r hr => hlv.orders r (List.mem_reverse.mp hr)
      have hcross : ∀ x ∈ lv.entries, sd.Crosses o.price x.2.price := by
        intro x hx
        rcases mem_entries.mp hx with ⟨r, hr, rfl⟩
        show sd.Crosses o.price r.price
        rw [(hlv.orders r hr).price]
        exact hgo.2
      rcases fill_ladder hrev hgo.2 with ⟨es, hes, hout⟩
      have hprice : (fillLevel o lv).2.1.price = o.price := by rw [fillLevel_incoming]
      have hexec : execTo (fillLevel o lv).2.1 = execTo o := by
        rw [fillLevel_incoming]
        rfl
      rcases ih ⟨htail, fun lv' h' => h.level lv' (List.mem_cons_of_mem _ h')⟩
        (fillLevel o lv).2.1 with ⟨es', hes', hout'⟩
      rw [hprice] at hes'
      rw [hexec] at hout'
      have hleft : (fill o lv.orders.reverse).1.map Order.entry = (fillLevel o lv).1.entries := by
        simp only [Level.entries, fillLevel, List.reverse_reverse]
      refine ⟨es ++ es', ?_, ?_⟩
      · rw [ladder, List.flatMap_cons, Ladder.fill_append hcross, Level.entries, hes, hleft]
        show (_, _, _) = _
        rw [show Ladder.fill sd o.price (value (fill o lv.orders.reverse).2.1.count)
          (lvs.flatMap Level.entries) = _ from hes']
        rfl
      · show List.map _ ((fillLevel o lv).2.2 ++ _) = _
        rw [List.map_append, List.map_append, hout']
        exact congrArg (· ++ es'.map (execTo o)) hout
    · rw [if_neg hgo]
      refine ⟨[], ?_, rfl⟩
      by_cases hz : o.count = 0
      · rw [hz, Quantity.value_zero, Ladder.fill_zero]
      · have hnc : ¬ sd.Crosses o.price lv.price :=
          fun hc => hgo ⟨pos_iff.mpr (pos_of_ne_zero hz), hc⟩
        refine Ladder.fill_of_not_crosses (fun x hx => ?_) _
        rcases mem_ladder.mp hx with ⟨lv', hlv', r, hr, rfl⟩
        show ¬ sd.Crosses o.price r.price
        rw [((h.level lv' hlv').orders r hr).price]
        rcases List.mem_cons.mp hlv' with rfl | hmem
        · exact hnc
        · exact fun hc => hnc (hc.of_better (hhead lv' hmem))

/-! ## Priority order -/

theorem ladder_sorted {sd : Side} {instrument : I} {lvs : List (Level N I)}
    (h : SideOk sd instrument lvs) (hid : ((ladder lvs).map Prod.fst).Nodup) :
    (ladder lvs).Sorted sd := by
  have hne : (ladder lvs).Pairwise fun x y => x.1 ≠ y.1 := List.pairwise_map.mp hid
  refine hne.and ?_
  rw [ladder, List.pairwise_flatMap]
  constructor
  · intro lv hlv
    rw [Level.entries, List.pairwise_map, List.pairwise_reverse]
    refine (h.level lv hlv).byTime.imp_of_mem fun {r r'} hr hr' htime => Or.inr ⟨?_, htime⟩
    exact ((h.level lv hlv).orders r' hr').price.trans ((h.level lv hlv).orders r hr).price.symm
  · refine h.sorted.imp_of_mem fun {lv lv'} hlv hlv' hb => ?_
    intro x hx y hy
    rcases mem_entries.mp hx with ⟨r, hr, rfl⟩
    rcases mem_entries.mp hy with ⟨r', hr', rfl⟩
    refine Or.inl ?_
    show sd.Better r.price r'.price
    rw [((h.level lv hlv).orders r hr).price, ((h.level lv' hlv').orders r' hr').price]
    exact hb

/-! ## Booking and cancelling -/

theorem mem_ladder_insert {o : Order N I} {lv : Level N I} {lvs : List (Level N I)}
    {x : UInt32 × Resting UInt32 ℤ} :
    x ∈ ladder (insertLevel o lv :: lvs) ↔ x = o.entry ∨ x ∈ ladder (lv :: lvs) := by
  simp only [ladder, List.flatMap_cons, List.mem_append, mem_entries, insertLevel, mem_insertValue]
  constructor
  · rintro (⟨r, rfl | hr, rfl⟩ | h)
    · exact Or.inl rfl
    · exact Or.inr (Or.inl ⟨r, hr, rfl⟩)
    · exact Or.inr (Or.inr h)
  · rintro (rfl | ⟨r, hr, rfl⟩ | h)
    · exact Or.inl ⟨o, Or.inl rfl, rfl⟩
    · exact Or.inl ⟨r, Or.inr hr, rfl⟩
    · exact Or.inr h

theorem addLevels_fst (sd : Side) {o : Order N I} {lv : Level N I} (hne : o.price ≠ lv.price)
    (lvs : List (Level N I)) : (addLevels sd o lv lvs).1 = lv := by
  cases lvs with
  | nil => rw [addLevels, placeLevel, if_pos hne]
  | cons next rest =>
    rw [addLevels]
    split
    · rw [placeLevel, if_pos hne]
    · split <;> rfl

theorem mem_addLevels {sd : Side} {o : Order N I} {lv : Level N I} {lvs : List (Level N I)}
    (hne : o.price ≠ lv.price) {x : UInt32 × Resting UInt32 ℤ} :
    x ∈ ladder (addLevels sd o lv lvs).2 ↔ x = o.entry ∨ x ∈ ladder lvs := by
  have hnew : ∀ lvs' : List (Level N I),
      x ∈ ladder (placeLevel o lv lvs').2 ↔ x = o.entry ∨ x ∈ ladder lvs' := by
    intro lvs'
    rw [placeLevel, if_pos hne, mem_ladder_insert]
    exact Iff.rfl
  induction lvs generalizing lv with
  | nil => exact hnew []
  | cons next rest ih =>
    rw [addLevels]
    by_cases hb : sd.Better o.price next.price
    · rw [if_pos hb]
      exact hnew _
    · rw [if_neg hb]
      by_cases he : o.price = next.price
      · rw [if_pos he]
        exact mem_ladder_insert
      · rw [if_neg he]
        have hwalk := addLevels_fst sd he rest
        have h := ih he fun lvs' => by
          rw [placeLevel, if_pos he, mem_ladder_insert]
          exact Iff.rfl
        show x ∈ ladder ((addLevels sd o next rest).1 :: (addLevels sd o next rest).2) ↔ _
        rw [hwalk]
        simp only [ladder, List.flatMap_cons, List.mem_append] at h ⊢
        exact (or_congr_right h).trans or_left_comm

theorem mem_eraseP_of_ids {rs : List (Order N I)} (hid : (rs.map Order.orderId).Nodup)
    (orderId : UInt32) {r : Order N I} :
    r ∈ rs.eraseP (fun r => decide (r.orderId = orderId)) ↔ r ∈ rs ∧ r.orderId ≠ orderId := by
  induction rs with
  | nil => simp
  | cons r' rs ih =>
    rcases List.nodup_cons.mp hid with ⟨hnot, hid⟩
    by_cases he : r'.orderId = orderId
    · rw [List.eraseP_cons_of_pos (by simpa using he)]
      have hrs : ∀ x ∈ rs, x.orderId ≠ orderId := fun x hx heq =>
        hnot (List.mem_map.mpr ⟨x, hx, heq.trans he.symm⟩)
      constructor
      · intro hr
        exact ⟨List.mem_cons_of_mem _ hr, hrs r hr⟩
      · rintro ⟨hr, hne⟩
        rcases List.mem_cons.mp hr with rfl | hr
        · exact absurd he hne
        · exact hr
    · rw [List.eraseP_cons_of_neg (by simpa using he), List.mem_cons, ih hid, List.mem_cons]
      constructor
      · rintro (rfl | ⟨hr, hne⟩)
        · exact ⟨Or.inl rfl, he⟩
        · exact ⟨Or.inr hr, hne⟩
      · rintro ⟨rfl | hr, hne⟩
        · exact Or.inl rfl
        · exact Or.inr ⟨hr, hne⟩

theorem entries_ids (lv : Level N I) :
    lv.entries.map Prod.fst = (lv.orders.map Order.orderId).reverse := by
  rw [Level.entries, List.map_map, ← List.map_reverse]
  rfl

/-- A cancel that names the price of its order finds it if it rests here, and takes it away. -/
theorem cancelLevels_ladder {sd : Side} {instrument : I} {lvs : List (Level N I)}
    (h : SideOk sd instrument lvs) (hid : ((ladder lvs).map Prod.fst).Nodup)
    {orderId price : UInt32} (hprice : ∀ x ∈ ladder lvs, x.1 = orderId → x.2.price = price) :
    ((cancelLevels orderId price lvs).2 = true ↔ ∃ x ∈ ladder lvs, x.1 = orderId) ∧
      ∀ x, x ∈ ladder (cancelLevels orderId price lvs).1 ↔ x ∈ ladder lvs ∧ x.1 ≠ orderId := by
  induction lvs with
  | nil => simp [cancelLevels, ladder]
  | cons lv lvs ih =>
    rcases List.pairwise_cons.mp h.sorted with ⟨hhead, htail⟩
    have hcons : ∀ (lv' : Level N I) (lvs' : List (Level N I)) x,
        x ∈ ladder (lv' :: lvs') ↔ x ∈ lv'.entries ∨ x ∈ ladder lvs' := by
      intro lv' lvs' x
      simp [ladder]
    have hids : (lv.orders.map Order.orderId).Nodup ∧ ((ladder lvs).map Prod.fst).Nodup := by
      rw [ladder, List.flatMap_cons, List.map_append, List.nodup_append, entries_ids] at hid
      exact ⟨List.nodup_reverse.mp hid.1, hid.2.1⟩
    have hlvs : SideOk sd instrument lvs :=
      ⟨htail, fun lv' h' => h.level lv' (List.mem_cons_of_mem _ h')⟩
    have hpriceOf : ∀ lv' ∈ lv :: lvs, ∀ x ∈ lv'.entries, x.2.price = lv'.price := by
      intro lv' hlv' x hx
      rcases mem_entries.mp hx with ⟨r, hr, rfl⟩
      exact ((h.level lv' hlv').orders r hr).price
    rw [cancelLevels]
    by_cases hp : lv.price ≠ price
    · rcases ih hlvs hids.2 fun x hx => hprice x ((hcons ..).mpr (Or.inr hx)) with ⟨hfound, hmem⟩
      -- nothing at another price has this id
      have hno : ∀ x ∈ lv.entries, x.1 ≠ orderId := by
        intro x hx heq
        have h1 := hprice x ((hcons ..).mpr (Or.inl hx)) heq
        have h2 := hpriceOf lv List.mem_cons_self x hx
        exact hp (h2.symm.trans h1)
      rw [if_pos hp]
      dsimp only
      constructor
      · rw [hfound]
        constructor
        · rintro ⟨x, hx, heq⟩
          exact ⟨x, (hcons ..).mpr (Or.inr hx), heq⟩
        · rintro ⟨x, hx, heq⟩
          rcases (hcons ..).mp hx with hx | hx
          · exact absurd heq (hno x hx)
          · exact ⟨x, hx, heq⟩
      · intro x
        rw [hcons, hcons, hmem]
        constructor
        · rintro (hx | ⟨hx, hne⟩)
          · exact ⟨Or.inl hx, hno x hx⟩
          · exact ⟨Or.inr hx, hne⟩
        · rintro ⟨hx | hx, hne⟩
          · exact Or.inl hx
          · exact Or.inr ⟨hx, hne⟩
    · have hno : ∀ x ∈ ladder lvs, x.1 ≠ orderId := by
        intro x hx heq
        have h1 := hprice x ((hcons ..).mpr (Or.inr hx)) heq
        rcases mem_ladder.mp hx with ⟨lv', hlv', r, hr, rfl⟩
        have h2 := hpriceOf lv' (List.mem_cons_of_mem _ hlv') r.entry
          (mem_entries.mpr ⟨r, hr, rfl⟩)
        rw [not_not] at hp
        exact (hhead lv' hlv').ne (hp.trans (h1.symm.trans h2))
      have hany : lv.orders.any (fun r => decide (r.orderId = orderId)) = true ↔
          ∃ x ∈ ladder (lv :: lvs), x.1 = orderId := by
        rw [List.any_eq_true]
        constructor
        · rintro ⟨r, hr, heq⟩
          exact ⟨r.entry, (hcons ..).mpr (Or.inl (mem_entries.mpr ⟨r, hr, rfl⟩)),
            of_decide_eq_true heq⟩
        · rintro ⟨x, hx, heq⟩
          rcases (hcons ..).mp hx with hx | hx
          · rcases mem_entries.mp hx with ⟨r, hr, rfl⟩
            exact ⟨r, hr, decide_eq_true heq⟩
          · exact absurd heq (hno x hx)
      rw [if_neg hp]
      by_cases hf : lv.orders.any (fun r => decide (r.orderId = orderId)) = true
      · rw [if_pos hf]
        refine ⟨iff_of_true rfl (hany.mp hf), fun x => ?_⟩
        rw [hcons, hcons, mem_entries, mem_entries]
        simp only [mem_eraseP_of_ids hids.1]
        constructor
        · rintro (⟨r, ⟨hr, hne⟩, rfl⟩ | hx)
          · exact ⟨Or.inl ⟨r, hr, rfl⟩, hne⟩
          · exact ⟨Or.inr hx, hno x hx⟩
        · rintro ⟨⟨r, hr, rfl⟩ | hx, hne⟩
          · exact Or.inl ⟨r, ⟨hr, hne⟩, rfl⟩
          · exact Or.inr hx
      · rw [if_neg hf]
        refine ⟨iff_of_false Bool.false_ne_true fun h => hf (hany.mpr h), fun x => ?_⟩
        exact ⟨fun hx => ⟨hx, fun heq => hf (hany.mpr ⟨x, hx, heq⟩)⟩, fun hx => hx.1⟩

end MatchingEngine.Cpp
