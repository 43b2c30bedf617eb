import MatchingEngine.Cpp.Reference

/-!
# `Engine::orders` and the resting orders

`matchOrder` takes a filled resting order out of its node but removes the incoming order's id from
the map, which holds no such entry.  The entry of the filled order stays for good: the map is exact
after a run if and only if no order of the run filled a resting one.
-/

set_option linter.unusedSectionVars false

namespace MatchingEngine.Cpp

open PriceTime
open Quantity (value)

variable {N I : Type} [Quantity N] [DecidableEq I]

namespace Books

variable {b : Books N I}

/-- The ids resting on one side, the next to trade first. -/
def ids (b : Books N I) (i : I) (sd : Side) : List UInt32 :=
  (ladder (b.side i sd).2).map Prod.fst

def Rests (b : Books N I) (id : UInt32) : Prop := ∃ i sd, id ∈ b.ids i sd

/-- Every id the map knows rests. -/
def Exact (b : Books N I) : Prop := ∀ id, b.known id ≠ none → b.Rests id

/-- The new order reaches the count of the resting order it would trade with first. -/
def FillsResting (b : Books N I) : Command N I → Prop
  | .order sd _ i price count _ =>
    ∃ x, (ladder (b.side i sd.opp).2).head? = some x ∧ sd.opp.Crosses price x.2.price ∧
      0 < value count ∧ x.2.count ≤ value count
  | .cancel _ _ => False

theorem mem_ids {i : I} {sd : Side} {id : UInt32} :
    id ∈ b.ids i sd ↔ ∃ x ∈ ladder (b.side i sd).2, x.1 = id := List.mem_map

theorem ids_set (side : I → Side → Half N I) (i j : I) (sd sd' : Side) (h : Half N I) (known) :
    ids { side := set side i sd h, known } j sd' =
      if j = i ∧ sd' = sd then (ladder h.2).map Prod.fst else ids { side, known } j sd' := by
  unfold ids
  dsimp only
  rw [set_apply]
  split <;> rfl

section Order

variable {sd : Side} {orderId price : UInt32} {i : I} {count : N} {time : ℤ}
  {r : List (Level N I) × Order N I × List (Line N I)}

/-- The ids that rest after a new order. -/
theorem ids_order (h : b.SidesOk) (hc : 1 ≤ price)
    (hr : r = matchLevels sd.opp (newOrder sd orderId i price count time) (b.side i sd.opp).2)
    (j : I) (sd' : Side) (id : UInt32) :
    id ∈ (b.exec (.order sd orderId i price count time)).1.ids j sd' ↔
      if j = i ∧ sd' = sd.opp then
        id ∈ (Ladder.fill sd.opp price (value count) (ladder (b.side i sd.opp).2)).1.map Prod.fst
      else id ∈ b.ids j sd' ∨ 0 < r.2.1.count ∧ j = i ∧ sd' = sd ∧ id = orderId := by
  let o := newOrder sd orderId i price count time
  rcases matchLevels_ladder (h i sd.opp).2 o with ⟨es, hes, -⟩
  have hfill : (Ladder.fill sd.opp price (value count) (ladder (b.side i sd.opp).2)).1 =
      ladder r.1 := by
    rw [hr]
    exact congrArg Prod.fst hes
  have hinc : r.2.1 = { o with count := r.2.1.count } := by
    rw [hr]
    exact matchLevels_incoming ..
  rw [hfill, exec_order b sd orderId i price count time hr]
  by_cases hpos : 0 < r.2.1.count
  · rw [if_pos hpos, ids_set, ids_set]
    by_cases hopp : j = i ∧ sd' = sd.opp
    · rw [if_pos hopp, if_pos hopp, if_neg]
      rw [hopp.2]
      exact fun h => Side.opp_ne sd h.2
    · rw [if_neg hopp, if_neg hopp]
      by_cases hown : j = i ∧ sd' = sd
      · rcases hown with ⟨rfl, rfl⟩
        have hne : r.2.1.price ≠ (b.side j sd').1.price := by
          rw [hinc, (h j sd').1]
          exact price_ne_zero hc
        have hentry : r.2.1.entry.1 = orderId := by
          rw [hinc]
          rfl
        rw [if_pos ⟨rfl, rfl⟩]
        show id ∈ (ladder (addLevels sd' r.2.1 (b.side j sd').1 (b.side j sd').2).2).map Prod.fst ↔ _
        rw [List.mem_map, mem_ids]
        simp only [mem_addLevels hne]
        constructor
        · rintro ⟨x, rfl | hx, rfl⟩
          · exact Or.inr ⟨hpos, trivial, trivial, hentry⟩
          · exact Or.inl ⟨x, hx, rfl⟩
        · rintro (⟨x, hx, rfl⟩ | ⟨-, -, -, rfl⟩)
          · exact ⟨x, Or.inr hx, rfl⟩
          · exact ⟨_, Or.inl rfl, hentry⟩
      · rw [if_neg hown]
        exact (or_iff_left fun h => hown ⟨h.2.1, h.2.2.1⟩).symm
  · rw [if_neg hpos, ids_set]
    split
    · exact Iff.rfl
    · exact (or_iff_left fun h => hpos h.1).symm

theorem known_order
    (hr : r = matchLevels sd.opp (newOrder sd orderId i price count time) (b.side i sd.opp).2)
    (id : UInt32) :
    (b.exec (.order sd orderId i price count time)).1.known id = b.known id ∨
      0 < r.2.1.count ∧ id = orderId := by
  rw [exec_order b sd orderId i price count time hr]
  by_cases hpos : 0 < r.2.1.count
  · rw [if_pos hpos]
    by_cases hid : id = orderId
    · exact Or.inr ⟨hpos, hid⟩
    · exact Or.inl (HashMap.put_of_ne b.known _ hid)
  · rw [if_neg hpos]
    exact Or.inl rfl

end Order

end Books

namespace Engine

variable {used : UInt32 → Prop} {e : Engine N I}

/-- An entry of `Engine::orders` is exactly a resting order under its own id. -/
def MapExact (e : Engine N I) : Prop :=
  ∀ id p, e.orders.get id = some p ↔ (∃ i sd, e.RestsIn i sd p) ∧ (e.heap p).orderId = id

theorem restsIn_iff (h : e.Tidy used) {i : I} {sd : Side} {p : OrderPtr} :
    e.RestsIn i sd p ↔ p ∈ (e.bookOf i sd).next.flatMap OrderNode.orders := by
  have hhead := congrArg Level.orders (h.sides i sd).1
  have hnil : (e.bookOf i sd).head.orders = [] := List.map_eq_nil_iff.mp hhead
  rw [RestsIn, Book.chain, List.flatMap_cons, hnil, List.nil_append]

theorem ids_view (i : I) (sd : Side) :
    (e.view.ids i sd).Perm
      (((e.bookOf i sd).next.flatMap OrderNode.orders).map fun p => (e.heap p).orderId) :=
  ladder_ids_perm e.heap (e.bookOf i sd).next

theorem mapExact_iff (h : e.Tidy used) : e.MapExact ↔ e.view.Exact := by
  constructor
  · intro hx id hknown
    rcases hp : e.orders id with _ | p
    · exact absurd (by simp only [view, hp, Option.map_none]) hknown
    · rcases (hx id p).mp hp with ⟨⟨i, sd, hrest⟩, hid⟩
      refine ⟨i, sd, (ids_view i sd).mem_iff.mpr ?_⟩
      exact List.mem_map.mpr ⟨p, (restsIn_iff h).mp hrest, hid⟩
  · intro hx id p
    constructor
    · intro hp
      have hknown : e.view.known id ≠ none := by simp [view, show e.orders id = some p from hp]
      rcases hx id hknown with ⟨i, sd, hid⟩
      rcases List.mem_map.mp ((ids_view i sd).mem_iff.mp hid) with ⟨p', hp', hid'⟩
      have hrest := (restsIn_iff h).mpr hp'
      have hmap := h.ptr.mapped i sd p' hrest
      rw [hid', show e.orders id = some p from hp] at hmap
      cases hmap
      exact ⟨⟨i, sd, hrest⟩, hid'⟩
    · rintro ⟨⟨i, sd, hrest⟩, rfl⟩
      exact h.ptr.mapped i sd p hrest

/-- The place of a resting id is the one the map knows. -/
theorem Tidy.place (h : e.Tidy used) {id : UInt32} {i j : I} {sd : Side}
    (hi : id ∈ e.view.ids i sd) {t : InputType} {id' : UInt32} {price : UInt32} {time : ℤ}
    (hk : e.view.known id = some (t, id', price, j, time)) : i = j ∧ sideType sd = t := by
  rcases List.mem_map.mp hi with ⟨x, hx, rfl⟩
  have hk' := h.known hx
  rw [hk] at hk'
  injection hk' with hk'
  simp only [Prod.mk.injEq] at hk'
  exact ⟨hk'.2.2.2.1.symm, hk'.1.symm⟩

theorem not_known_of_fresh (h : e.Tidy used) {id : UInt32} (hid : ¬ used id) :
    e.view.known id = none := by
  rcases hp : e.orders id with _ | p
  · simp only [view, hp, Option.map_none]
  · exact absurd (h.ptr.known id p hp).2.2 hid

theorem known_of_mem_ids (h : e.Tidy used) {id : UInt32} {i : I} {sd : Side}
    (hid : id ∈ e.view.ids i sd) :
    ∃ price time, e.view.known id = some (sideType sd, id, price, i, time) := by
  rcases List.mem_map.mp hid with ⟨x, hx, rfl⟩
  exact ⟨_, _, h.known hx⟩

theorem sideType_inj {sd sd' : Side} (h : sideType sd = sideType sd') : sd = sd' :=
  (eq_side h).trans (eq_side rfl).symm

/-- A step keeps the map exact if it fills no resting order, and never repairs it. -/
theorem exact_exec_iff (h : e.Tidy used) {c : Command N I}
    (hfresh : ∀ id, newId c = some id → ¬ used id) (hc : Priced c) :
    (e.view.exec c).1.Exact ↔ e.view.Exact ∧ ¬ e.view.FillsResting c := by
  have htidy := (exec_refines h hfresh hc).2
  have hview := (exec_view h.ptr c hfresh).1
  cases c with
  | order sd orderId i price count time =>
    obtain ⟨r, hr⟩ : ∃ r, r = matchLevels sd.opp (newOrder sd orderId i price count time)
      (e.view.side i sd.opp).2 := ⟨_, rfl⟩
    have hids := Books.ids_order h.sides hc hr
    have hknown := Books.known_order (b := e.view) hr
    have hnone := not_known_of_fresh h (hfresh orderId rfl)
    constructor
    · intro hx
      constructor
      · -- an entry that is stale before the order is stale after it
        intro id hk
        have hne : id ≠ orderId := fun heq => hk (heq ▸ hnone)
        have hk' := (hknown id).resolve_right fun h => hne h.2
        rcases hx id (hk' ▸ hk) with ⟨j, sd', hid⟩
        rw [hids] at hid
        split at hid
        · exact ⟨i, sd.opp, (Ladder.fill_ids_suffix ..).subset hid⟩
        · exact ⟨j, sd', hid.resolve_right fun h => hne h.2.2.2⟩
      · -- a filled order leaves its entry behind
        rintro ⟨⟨id, x⟩, hhead, hcross, hpos, hle⟩
        have hsorted := h.sorted i sd.opp
        rcases List.head?_eq_some_iff.mp hhead with ⟨l, hl⟩
        have hrest : id ∈ e.view.ids i sd.opp := by
          rw [Books.ids, hl]
          exact List.mem_cons_self
        rcases known_of_mem_ids h hrest with ⟨p, t, hk⟩
        have hne : id ≠ orderId := by
          rintro rfl
          rw [hnone] at hk
          cases hk
        have hk' := (hknown id).resolve_right fun h => hne h.2
        rcases hx id (by rw [hk', hk]; exact Option.some_ne_none _) with ⟨j, sd', hid⟩
        have hid' := hid
        rw [← hview] at hid'
        have hk'' : (e.exec (.order sd orderId i price count time)).1.view.known id =
            some (sideType sd.opp, id, p, i, t) := by rw [hview, hk', hk]
        have hplace := htidy.place hid' hk''
        rw [hids, if_pos ⟨hplace.1, sideType_inj hplace.2⟩] at hid
        rw [hl] at hid hsorted
        rcases List.mem_map.mp hid with ⟨y, hy, hyid⟩
        exact Ladder.fill_head_notin hsorted hcross hpos hle y hy hyid
    · rintro ⟨hx, hno⟩ id hk
      rcases hknown id with hk' | ⟨hpos, rfl⟩
      · rw [hk'] at hk
        rcases hx id hk with ⟨j, sd', hid⟩
        refine ⟨j, sd', ?_⟩
        rw [hids]
        split
        next heq =>
          rw [Ladder.fill_ids_of_lt]
          · rw [heq.1, heq.2] at hid
            exact hid
          · intro x hhead hcross
            by_contra hnot
            exact hno ⟨x, hhead, hcross, by omega, by omega⟩
        · exact Or.inl hid
      · refine ⟨i, sd, ?_⟩
        rw [hids, if_neg fun h => Side.ne_opp sd h.2]
        exact Or.inr ⟨hpos, rfl, rfl, rfl⟩
  | cancel orderId time =>
    rcases hk : e.view.known orderId with _ | ⟨type, id, price, i, time'⟩
    · simp only [Books.exec, hk]
      exact (and_iff_left id).symm
    · have hid : id = orderId := h.ptr.known_id hk
      subst hid
      obtain ⟨sd, hsd⟩ : ∃ sd : Side, (if type = .buy then .buy else .sell) = sd := ⟨_, rfl⟩
      have hplace : ∀ j sd', id ∈ e.view.ids j sd' → j = i ∧ sd' = sd := by
        intro j sd' hid
        have hp := h.place hid hk
        exact ⟨hp.1, (eq_side hp.2).trans hsd⟩
      have hprice : ∀ x ∈ ladder (e.view.side i sd).2, x.1 = id → x.2.price = price := by
        intro x hx heq
        have hx' := h.known hx
        rw [heq, hk] at hx'
        injection hx' with hx'
        simp only [Prod.mk.injEq] at hx'
        exact hx'.2.2.1.symm
      have hcancel := cancelLevels_ladder (h.sides i sd).2 (h.ptr.ladder_ids i sd) hprice
      have hfound : (cancelLevels id price (e.view.side i sd).2).2 = true ↔ e.view.Rests id := by
        rw [hcancel.1]
        constructor
        · rintro ⟨x, hx, rfl⟩
          exact ⟨i, sd, List.mem_map_of_mem hx⟩
        · rintro ⟨j, sd', hid⟩
          rcases hplace j sd' hid with ⟨rfl, rfl⟩
          exact List.mem_map.mp hid
      have hrests : ∀ id', (e.view.exec (.cancel id time)).1.Rests id' ↔
          e.view.Rests id' ∧ id' ≠ id := by
        have hids : ∀ j sd' id', id' ∈ (e.view.exec (.cancel id time)).1.ids j sd' ↔
            id' ∈ e.view.ids j sd' ∧ id' ≠ id := by
          intro j sd' id'
          simp only [Books.exec, hk, hsd]
          rw [Books.ids_set]
          split
          next heq =>
            rw [heq.1, heq.2, List.mem_map, Books.mem_ids]
            simp only [show ∀ x, _ ↔ _ from hcancel.2]
            constructor
            · rintro ⟨x, ⟨hx, hne⟩, rfl⟩
              exact ⟨⟨x, hx, rfl⟩, hne⟩
            · rintro ⟨⟨x, hx, rfl⟩, hne⟩
              exact ⟨x, ⟨hx, hne⟩, rfl⟩
          next hne =>
            refine (and_iff_left_of_imp fun hid => ?_).symm
            rintro rfl
            exact hne (hplace j sd' hid)
        intro id'
        simp only [Books.Rests, hids]
        constructor
        · rintro ⟨j, sd', hid, hne⟩
          exact ⟨⟨j, sd', hid⟩, hne⟩
        · rintro ⟨⟨j, sd', hid⟩, hne⟩
          exact ⟨j, sd', hid, hne⟩
      have hknown : ∀ id', id' ≠ id ∨ ¬ e.view.Rests id →
          (e.view.exec (.cancel id time)).1.known id' = e.view.known id' := by
        intro id' hor
        simp only [Books.exec, hk, hsd]
        split
        next hf => exact Function.update_of_ne (hor.resolve_right fun h => h (hfound.mp hf)) ..
        · rfl
      have hgone : e.view.Rests id → (e.view.exec (.cancel id time)).1.known id = none := by
        intro hrest
        simp only [Books.exec, hk, hsd]
        rw [if_pos (hfound.mpr hrest)]
        exact Function.update_self ..
      constructor
      · intro hx
        refine ⟨fun id' hk' => ?_, fun h => h⟩
        by_cases hor : id' ≠ id ∨ ¬ e.view.Rests id
        · exact ((hrests id').mp (hx id' (hknown id' hor ▸ hk'))).1
        · rw [not_or, not_not, not_not] at hor
          exact hor.1 ▸ hor.2
      · rintro ⟨hx, -⟩ id' hk'
        have hne : id' ≠ id := by
          rintro rfl
          exact hk' (hgone (hx id' (by rw [hk]; exact Option.some_ne_none _)))
        rw [hknown id' (Or.inl hne)] at hk'
        exact (hrests id').mpr ⟨hx id' hk', hne⟩

theorem exec_mapExact_iff (h : e.Tidy used) {c : Command N I}
    (hfresh : ∀ id, newId c = some id → ¬ used id) (hc : Priced c) :
    (e.exec c).1.MapExact ↔ e.MapExact ∧ ¬ e.view.FillsResting c := by
  rw [mapExact_iff (exec_refines h hfresh hc).2, mapExact_iff h, (exec_view h.ptr c hfresh).1]
  exact exact_exec_iff h hfresh hc

theorem run_mapExact_iff {cs : List (Command N I)} (h : e.Tidy used)
    (hids : (cs.filterMap newId).Nodup) (hfresh : ∀ id ∈ cs.filterMap newId, ¬ used id)
    (hc : ∀ c ∈ cs, Priced c) :
    (e.run cs).1.MapExact ↔ e.MapExact ∧
      ∀ cs₁ c cs₂, cs = cs₁ ++ c :: cs₂ → ¬ (e.run cs₁).1.view.FillsResting c := by
  induction cs generalizing e used with
  | nil =>
    refine (and_iff_left fun cs₁ c cs₂ heq => ?_).symm
    cases cs₁ <;> cases heq
  | cons c cs ih =>
    have hstep := exec_mapExact_iff h (fun id hid => hfresh id (mem_newIds_head hid))
      (hc c List.mem_cons_self)
    have hrun := ih (exec_refines h (fun id hid => hfresh id (mem_newIds_head hid))
      (hc c List.mem_cons_self)).2 (newIds_tail hids) (newIds_tail_fresh hids hfresh)
      fun c' hc' => hc c' (List.mem_cons_of_mem _ hc')
    rw [show (e.run (c :: cs)).1 = ((e.exec c).1.run cs).1 from rfl, hrun, hstep, and_assoc]
    refine and_congr_right fun _ => ⟨?_, ?_⟩
    · rintro ⟨hno, hrest⟩ cs₁ c' cs₂ heq
      cases cs₁ with
      | nil =>
        cases heq
        exact hno
      | cons c₁ cs₁ =>
        cases heq
        exact hrest cs₁ c' cs₂ rfl
    · intro hall
      exact ⟨hall [] c cs rfl, fun cs₁ c' cs₂ heq => hall (c :: cs₁) c' cs₂ (by rw [heq]; rfl)⟩

theorem mapExact_init (heap : Heap N I) : (init heap : Engine N I).MapExact := by
  rw [mapExact_iff (tidy_init (fun _ => False) heap), view_init]
  intro id h
  exact absurd rfl h

/-- The id map is exact after a run if and only if no order of the run filled a resting one. -/
theorem mapExact_run {cs : List (Command UInt32 I)} (h : WellFormed cs) (heap : Heap UInt32 I) :
    ((init heap).run cs).1.MapExact ↔
      ∀ cs₁ c cs₂, cs = cs₁ ++ c :: cs₂ → ¬ ((init heap).run cs₁).1.view.FillsResting c := by
  rw [run_mapExact_iff (tidy_init (fun _ => False) heap) h.ids (fun _ _ h => h) h.priced]
  exact and_iff_right (mapExact_init heap)

/-- A buy takes the whole of the sell order 1, which stays in the map. -/
def fullFill : List (Command UInt32 String) :=
  [.order .sell 1 "GOOG" 2700 10 0, .order .buy 2 "GOOG" 2705 10 1]

theorem not_mapExact_fullFill :
    WellFormed fullFill ∧
      ¬ ((init fun _ => newOrder .buy 0 "" 0 0 0).run fullFill).1.MapExact := by
  have hwf : WellFormed fullFill := ⟨by decide, by decide⟩
  refine ⟨hwf, fun h => ?_⟩
  rw [run_mapExact_iff (tidy_init (fun _ => False) _) hwf.ids (fun _ _ h => h) hwf.priced] at h
  refine h.2 [_] _ [] rfl ⟨(1, ⟨2700, 0, 10, 1⟩), rfl, ?_, ?_, ?_⟩ <;> decide

theorem mapExact_run_fullFill :
    ((init fun _ => newOrder .buy 0 "" 0 0 0).run fullFill).1.MapExact ↔
      ∀ cs₁ c cs₂, fullFill = cs₁ ++ c :: cs₂ →
        ¬ ((init fun _ => newOrder .buy 0 "" 0 0 0).run cs₁).1.view.FillsResting c :=
  mapExact_run ⟨by decide, by decide⟩ _

end Engine

end MatchingEngine.Cpp
