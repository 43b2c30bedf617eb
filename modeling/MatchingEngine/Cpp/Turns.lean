import MatchingEngine.Cpp.Service

/-!
# First come, first served

`add` puts an order before the first one that came strictly earlier, so of two orders with one time
the later stands nearer to the back, and `matchOrder` takes it first.  Commands of one connection are
served in turn as long as no order is booked beside one with its own time.
-/

set_option linter.unusedSectionVars false

namespace MatchingEngine

/-- What a line says was traded of the resting order `a`. -/
def Line.traded {N I : Type} [Quantity N] (a : UInt32) : Line N I → ℕ
  | .executed r _ _ _ q _ => if r = a then Quantity.value q else 0
  | _ => 0

namespace Cpp

open PriceTime
open Quantity (value)

section Lines

variable {N I : Type} [Quantity N]

def traded (a : UInt32) (out : List (Line N I)) : ℕ := (out.map (Line.traded a)).sum

theorem traded_toNat (a : UInt32) (out : List (Line N I)) :
    traded a (out.map Line.toNat) = traded a out := by
  unfold traded
  rw [List.map_map]
  congr 1
  apply List.map_congr_left
  intro l _
  cases l <;> rfl

theorem le_traded {a n : UInt32} {ex q : N} {price : UInt32} {t : ℤ} {out : List (Line N I)}
    (h : .executed a n ex price q t ∈ out) : value q ≤ traded a out := by
  induction out with
  | nil => cases h
  | cons l out ih =>
    show _ ≤ l.traded a + traded a out
    rcases List.mem_cons.mp h with rfl | h
    · simp only [Line.traded, if_true]
      omega
    · exact (ih h).trans (Nat.le_add_left ..)

end Lines

section Stamps

variable {N I : Type} [Quantity N]

/-- The id of a new order with its time. -/
def stamp : Command N I → Option (UInt32 × ℤ)
  | .order _ orderId _ _ _ inputTime => some (orderId, inputTime)
  | .cancel _ _ => none

theorem stamps_fst (cs : List (Command N I)) :
    (cs.filterMap stamp).map Prod.fst = cs.filterMap newId := by
  rw [List.map_filterMap]
  congr 1
  funext c
  cases c <;> rfl

theorem stamps_sorted {cs : List (Command N I)}
    (h : (cs.map Command.inputTime).Pairwise (· ≤ ·)) :
    (cs.filterMap stamp).Pairwise fun x y => x.2 ≤ y.2 := by
  rw [List.pairwise_filterMap]
  apply (List.pairwise_map.mp h).imp
  intro c c' hle x hx y hy
  cases c with
  | cancel => cases hx
  | order =>
    cases c' with
    | cancel => cases hy
    | order =>
      cases hx
      cases hy
      exact hle

/-- Of two ids in sending order the first has the time that is not later. -/
theorem stamps_le {xs : List (UInt32 × ℤ)} (hids : (xs.map Prod.fst).Nodup)
    (hs : xs.Pairwise fun x y => x.2 ≤ y.2) {a b : UInt32} {ta tb : ℤ} (ha : (a, ta) ∈ xs)
    (hb : (b, tb) ∈ xs) (hab : List.Sublist [a, b] (xs.map Prod.fst)) : ta ≤ tb := by
  rcases List.sublist_map_iff.mp hab with ⟨ys, hys, heq⟩
  rcases ys with _ | ⟨⟨a', ta'⟩, _ | ⟨⟨b', tb'⟩, _ | ⟨z, zs⟩⟩⟩ <;> simp at heq
  rcases heq with ⟨rfl, rfl⟩
  have hle := hs.sublist hys
  have hinj := List.inj_on_of_nodup_map hids
  have h1 := hinj ha (hys.subset List.mem_cons_self) rfl
  have h2 := hinj hb (hys.subset (List.mem_cons_of_mem _ List.mem_cons_self)) rfl
  cases h1
  cases h2
  exact (List.pairwise_cons.mp hle).1 _ List.mem_cons_self

end Stamps

namespace Engine

variable {I : Type} [DecidableEq I] {used used' : UInt32 → Prop} {e : Engine UInt32 I} {i : I}
  {sd : Side} {p q : OrderPtr} {cs : List (Command UInt32 I)}

/-- In the run of these commands no line names an order as traded while another one that was sent
    before it rests at its price. -/
def FirstCome (heap : Heap UInt32 I) (cs : List (Command UInt32 I)) : Prop :=
  ∀ cs₁ c cs₂, cs = cs₁ ++ c :: cs₂ →
    ∀ out b orderId executionId price matched inputTime out',
      (((init heap).run cs₁).1.exec c).2 =
        out ++ .executed b orderId executionId price matched inputTime :: out' →
      ∀ i sd p q, ((init heap).run cs₁).1.RestsIn i sd p → ((init heap).run cs₁).1.RestsIn i sd q →
        (((init heap).run cs₁).1.heap p).price = (((init heap).run cs₁).1.heap q).price →
        (((init heap).run cs₁).1.heap q).orderId = b →
        List.Sublist [(((init heap).run cs₁).1.heap p).orderId, b] (cs₁.filterMap newId) →
        (((init heap).run cs₁).1.heap p).count.toNat ≤
          traded (((init heap).run cs₁).1.heap p).orderId out

/-- The counts of the listed orders that an order with this limit trades with. -/
def crossing (e : Engine UInt32 I) (i : I) (sd : Side) (price : UInt32) : ℕ :=
  ((((e.bookOf i sd).next.flatMap OrderNode.orders).filter
    fun q => sd.Crosses price (e.heap q).price).map fun q => (e.heap q).count.toNat).sum

/-- A new order with something to book comes later than every listed order at its price, and stands
    on the list if and only if they do. -/
def Untied (e : Engine UInt32 I) : Command UInt32 I → Prop
  | .order sd _ i price count inputTime =>
    e.crossing i sd.opp price < count.toNat →
      ∀ p, e.RestsIn i sd p → (e.heap p).price = price →
        (e.Listed i sd p ↔ e.Listable i sd price) ∧
          (e.Listed i sd p → (e.heap p).inputTime ≠ inputTime)
  | .cancel _ _ => True

instance decidableRestsIn (e : Engine UInt32 I) (i : I) (sd : Side) (p : OrderPtr) :
    Decidable (e.RestsIn i sd p) :=
  inferInstanceAs (Decidable (p ∈ (e.bookOf i sd).chain.flatMap OrderNode.orders))

instance decidableListed (e : Engine UInt32 I) (i : I) (sd : Side) (p : OrderPtr) :
    Decidable (e.Listed i sd p) :=
  inferInstanceAs (Decidable (p ∈ (e.bookOf i sd).next.flatMap OrderNode.orders))

instance decidableListable (e : Engine UInt32 I) (i : I) (sd : Side) (price : UInt32) :
    Decidable (e.Listable i sd price) :=
  inferInstanceAs (Decidable (price ≠ 0 ∨ sd = .buy ∧ (e.bookOf i sd).next ≠ []))

instance decidableUntied (e : Engine UInt32 I) (c : Command UInt32 I) : Decidable (e.Untied c) :=
  match c with
  | .order sd _ i price count inputTime =>
    inferInstanceAs (Decidable (e.crossing i sd.opp price < count.toNat →
      ∀ p ∈ (e.bookOf i sd).chain.flatMap OrderNode.orders, (e.heap p).price = price →
        (e.Listed i sd p ↔ e.Listable i sd price) ∧
          (e.Listed i sd p → (e.heap p).inputTime ≠ inputTime)))
  | .cancel _ _ => .isTrue trivial

/-- The orders that rest carry the time they were sent with, and no two at one price share it. -/
structure InTurn (cs : List (Command UInt32 I)) (e : Engine UInt32 I) : Prop where
  dated : ∀ i sd p, e.RestsIn i sd p →
    ((e.heap p).orderId, (e.heap p).inputTime) ∈ cs.filterMap stamp
  apart : ∀ i sd p q, e.RestsIn i sd p → e.RestsIn i sd q → p ≠ q →
    (e.heap p).price = (e.heap q).price →
      (e.Listed i sd p ↔ e.Listed i sd q) ∧
        (e.Listed i sd p → (e.heap p).inputTime ≠ (e.heap q).inputTime)

/-! ## One step -/

/-- An order that is booked has more than the counts it crosses. -/
theorem Sound.crossing_lt (h : e.Sound used) {orderId price count : UInt32} {inputTime : ℤ}
    (hfresh : ¬ used orderId)
    (hp : (e.exec (.order sd orderId i price count inputTime)).1.RestsIn i sd e.nextPtr) :
    e.crossing i sd.opp price < count.toNat := by
  let o : Order UInt32 I := newOrder sd orderId i price count inputTime
  have hnd := (List.nodup_append.mp (h.ptr.nodup i sd.opp)).2.1
  have hnew : ∀ j sd', ¬ e.RestsIn j sd' e.nextPtr := fun j sd' hrest => (h.ptr.lt hrest).ne rfl
  have hm := matchOrder_spec sd.opp
    { heap := Function.update e.heap e.nextPtr o, orders := e.orders } hnd
    fun hin => hnew i sd.opp (List.mem_append_right _ hin)
  have hmatched := matched_view h.ptr hm hfresh
  have hpos : 0 < (matchLevels sd.opp o (e.view.side i sd.opp).2).2.1.count := by
    rw [exec_order] at hp
    dsimp only at hp
    split at hp
    next hpos =>
      rw [← hmatched.2.1]
      exact hpos
    · exact absurd (restsIn_matched hm hp) (hnew i sd)
  rcases matchLevels_ladder (h.shaped i sd.opp).next o with ⟨es, hes, -⟩
  have hlt := Ladder.volume_crossing_lt price count.toNat (h.ladder_sorted i sd.opp) (by
    show 0 < (Ladder.fill sd.opp o.price (value o.count) _).2.2
    rw [hes]
    exact pos_iff.mp hpos)
  rw [volume_ladder] at hlt
  exact hlt

theorem InTurn.exec (h : InTurn cs e) (hs : e.Sound used) (hz : e.SentinelOk)
    {c : Command UInt32 I} (hfresh : ∀ id, newId c = some id → ¬ used id) (hu : e.Untied c) :
    InTurn (cs ++ [c]) (e.exec c).1 := by
  have hs' := hs.exec hfresh
  have hheader : ∀ p, p < e.nextPtr → ((e.exec c).1.heap p).orderId = (e.heap p).orderId ∧
      ((e.exec c).1.heap p).price = (e.heap p).price ∧
      ((e.exec c).1.heap p).inputTime = (e.heap p).inputTime := by
    intro p hlt
    have hh := header_exec hs.ptr c hlt
    simp only [Order.header, Prod.mk.injEq] at hh
    exact ⟨hh.2.1, hh.2.2.1, hh.2.2.2.2⟩
  have hlisted : ∀ i sd p, p < e.nextPtr → (e.exec c).1.RestsIn i sd p →
      ((e.exec c).1.Listed i sd p ↔ e.Listed i sd p) :=
    fun i sd p hlt hp => listed_exec hz hs.ptr hs'.ptr hlt hp
  -- the new order beside an old one
  have hnew : ∀ i sd q, (e.exec c).1.RestsIn i sd e.nextPtr → e.RestsIn i sd q →
      (e.exec c).1.RestsIn i sd q →
      ((e.exec c).1.heap e.nextPtr).price = ((e.exec c).1.heap q).price →
      ((e.exec c).1.Listed i sd e.nextPtr ↔ (e.exec c).1.Listed i sd q) ∧
        ((e.exec c).1.Listed i sd q →
          ((e.exec c).1.heap q).inputTime ≠ ((e.exec c).1.heap e.nextPtr).inputTime) := by
    intro i sd q hp hold hq hprice
    rcases restsIn_exec hs.ptr hp with hin | ⟨-, orderId, price, count, inputTime, rfl⟩
    · exact absurd rfl (hs.ptr.lt hin).ne
    · have hlt := hs.ptr.lt hold
      have hh := header_exec_new hs.ptr sd orderId i price count inputTime
      simp only [Order.header, newOrder, Prod.mk.injEq] at hh
      rw [hh.2.2.1, (hheader q hlt).2.1] at hprice
      have huntied := hu (hs.crossing_lt (hfresh orderId rfl) hp) q hold hprice.symm
      rw [hlisted i sd q hlt hq, listed_iff hz hs.ptr hs'.ptr hp, hh.2.2.2.2, (hheader q hlt).2.2]
      exact ⟨huntied.1.symm, huntied.2⟩
  constructor
  · intro i sd p hp
    rw [List.filterMap_append, List.mem_append]
    rcases restsIn_exec hs.ptr hp with hold | ⟨rfl, orderId, price, count, inputTime, rfl⟩
    · have hh := hheader p (hs.ptr.lt hold)
      rw [hh.1, hh.2.2]
      exact Or.inl (h.dated i sd p hold)
    · have hh := header_exec_new hs.ptr sd orderId i price count inputTime
      simp only [Order.header, newOrder, Prod.mk.injEq] at hh
      rw [hh.2.1, hh.2.2.2.2]
      exact Or.inr List.mem_cons_self
  · intro i sd p q hp hq hne hprice
    rcases restsIn_exec hs.ptr hp with hpold | ⟨rfl, -⟩
    · rcases restsIn_exec hs.ptr hq with hqold | ⟨rfl, -⟩
      · have hplt := hs.ptr.lt hpold
        have hqlt := hs.ptr.lt hqold
        rw [(hheader p hplt).2.1, (hheader q hqlt).2.1] at hprice
        rw [hlisted i sd p hplt hp, hlisted i sd q hqlt hq, (hheader p hplt).2.2,
          (hheader q hqlt).2.2]
        exact h.apart i sd p q hpold hqold hne hprice
      · rcases hnew i sd p hq hpold hp hprice.symm with ⟨h1, h2⟩
        exact ⟨h1.symm, h2⟩
    · rcases restsIn_exec hs.ptr hq with hqold | ⟨rfl, -⟩
      · rcases hnew i sd q hp hqold hq hprice with ⟨h1, h2⟩
        exact ⟨h1, fun hl => (h2 (h1.mp hl)).symm⟩
      · exact absurd rfl hne

/-! ## Every run -/

theorem inTurn_init (heap : Heap UInt32 I) : InTurn [] (init heap : Engine UInt32 I) := by
  have hno : ∀ i sd p, ¬ (init heap : Engine UInt32 I).RestsIn i sd p := by
    intro i sd p hp
    rw [RestsIn, bookOf_init] at hp
    cases hp
  exact ⟨fun i sd p hp => absurd hp (hno i sd p), fun i sd p q hp => absurd hp (hno i sd p)⟩

theorem inTurn_run (hids : (cs.filterMap newId).Nodup) (heap : Heap UInt32 I)
    (hu : ∀ cs₁ c cs₂, cs = cs₁ ++ c :: cs₂ → ((init heap).run cs₁).1.Untied c) :
    InTurn cs ((init heap).run cs).1 := by
  induction cs using List.reverseRecOn with
  | nil => exact inTurn_init heap
  | append_singleton cs c ih =>
    rw [List.filterMap_append, List.nodup_append] at hids
    have hprev := ih hids.1 fun cs₁ c' cs₂ heq => hu cs₁ c' (cs₂ ++ [c]) (by rw [heq]; simp)
    rw [run_append_fst]
    apply hprev.exec (sound_run hids.1 heap) (sentinelOk_run (sentinelOk_init heap) cs)
    · intro id hid hold
      exact hids.2.2 id hold id (mem_newIds_head hid) rfl
    · exact hu cs c [] rfl

/-- The executions a command prints, and the ladder they were taken from. -/
theorem Sound.executed (h : e.Sound used) {c : Command UInt32 I}
    (hfresh : ∀ id, newId c = some id → ¬ used id) {out out' : List (Line UInt32 I)}
    {b orderId executionId price matched : UInt32} {inputTime : ℤ}
    (hout : (e.exec c).2 = out ++ .executed b orderId executionId price matched inputTime :: out') :
    ∃ i sd l x l', ladder (e.view.side i sd).2 = l ++ x :: l' ∧ x.1 = b ∧
      ∀ y ∈ l, y.2.count ≤ traded y.1 out := by
  rw [(exec_view h.ptr c hfresh).2.1] at hout
  cases c with
  | cancel orderId' inputTime' =>
    rcases hk : e.view.known orderId' with _ | ⟨type, id, price', i, time⟩
    · simp only [Books.exec, hk] at hout
      rcases out with _ | ⟨l, _ | ⟨l', out⟩⟩ <;> cases hout
    · simp only [Books.exec, hk] at hout
      rcases out with _ | ⟨l, _ | ⟨l', out⟩⟩ <;> cases hout
  | order sd orderId' i price' count time =>
    let o : Order UInt32 I := newOrder sd orderId' i price' count time
    rcases matchLevels_ladder (h.shaped i sd.opp).next o with ⟨es, hes, hlines⟩
    -- the line is one of the matching phase
    have hmatch : ∃ out'', (matchLevels sd.opp o (e.view.side i sd.opp).2).2.2 =
        out ++ .executed b orderId executionId price matched inputTime :: out'' := by
      rw [Books.exec_order e.view sd orderId' i price' count time rfl] at hout
      split at hout
      · rcases List.append_eq_append_iff.mp hout with ⟨l, hl, hr⟩ | ⟨l, hl, hr⟩
        · rcases l with _ | ⟨x, _ | ⟨y, l⟩⟩ <;> cases hr
        · rcases l with _ | ⟨x, l⟩
          · cases hr
          · rw [List.cons_append, List.cons.injEq] at hr
            rw [hl, hr.1]
            exact ⟨l, rfl⟩
      · exact ⟨out', hout⟩
    rcases hmatch with ⟨out'', hmatch⟩
    rw [hmatch, List.map_append, List.map_cons] at hlines
    rcases List.map_eq_append_iff.mp hlines.symm with ⟨es₁, es₂, rfl, hes₁, hes₂⟩
    rcases List.map_eq_cons_iff.mp hes₂ with ⟨x, es₃, rfl, hx, -⟩
    rcases Ladder.fill_split (congrArg (fun r => r.2.1) hes) with ⟨l, y, l', hl, hy, rfl⟩
    refine ⟨i, sd.opp, l, y, l', hl, ?_, ?_⟩
    · simp only [execTo, Line.toNat, Line.executed.injEq] at hx
      rw [← hy, hx.1]
    · intro z hz
      have hline : execTo o ⟨z.1, z.2.nextExec, z.2.price, z.2.count⟩ ∈ out.map Line.toNat := by
        rw [← hes₁]
        exact List.mem_map_of_mem (List.mem_map.mpr ⟨z, hz, rfl⟩)
      have hle := le_traded hline
      rw [traded_toNat] at hle
      exact hle

/-- Orders of one connection trade in the order in which they were sent, if no order is booked beside
    one with its own time. -/
theorem firstCome_of_untied (hids : (cs.filterMap newId).Nodup)
    (htimes : (cs.map Command.inputTime).Pairwise (· ≤ ·)) (heap : Heap UInt32 I)
    (hu : ∀ cs₁ c cs₂, cs = cs₁ ++ c :: cs₂ → ((init heap).run cs₁).1.Untied c) :
    FirstCome heap cs := by
  intro cs₁ c cs₂ heq out b orderId executionId price matched inputTime out' hout i sd p q hp hq
    hprice hb hsent
  subst heq
  rw [List.filterMap_append, List.nodup_append] at hids
  rw [List.map_append, List.pairwise_append] at htimes
  have hs := sound_run hids.1 heap
  have hturn := inTurn_run hids.1 heap fun cs₀ c' cs₃ heq =>
    hu cs₀ c' (cs₃ ++ c :: cs₂) (by rw [heq]; simp)
  have hfresh : ∀ id, newId c = some id → ¬ id ∈ cs₁.filterMap newId := by
    intro id hid hold
    exact hids.2.2 id hold id (mem_newIds_head hid) rfl
  rcases hs.executed hfresh hout with ⟨j, sd', l, x, l', hl, hx, hfull⟩
  -- the order named on the line is `q`, so it stands on the ladder of its own side
  have hxmem : x ∈ ladder (((init heap).run cs₁).1.view.side j sd').2 := by
    rw [hl]
    exact List.mem_append_right _ List.mem_cons_self
  rcases mem_ladder_iff.mp hxmem with ⟨q', hq', rfl⟩
  have hqq : q' = q := hs.ptr.eq_of_id hq (Listed.restsIn hq') (hx.trans hb.symm)
  subst hqq
  rcases hs.ptr.place hq (Listed.restsIn hq') with ⟨rfl, rfl⟩
  have hne : p ≠ q' := by
    rintro rfl
    rw [hb] at hsent
    exact List.not_nodup_pair b (hids.1.sublist hsent)
  rcases hturn.apart i sd p q' hp hq hne hprice with ⟨hiff, htime⟩
  have hplisted := hiff.mpr hq'
  have hle : (((init heap).run cs₁).1.heap p).inputTime ≤
      (((init heap).run cs₁).1.heap q').inputTime := by
    have hstamps := stamps_fst cs₁
    apply stamps_le _ (stamps_sorted htimes.1) (hturn.dated i sd p hp) (hturn.dated i sd q' hq)
    · rw [hstamps, hb]
      exact hsent
    · rw [hstamps]
      exact hids.1
  have hlt := lt_of_le_of_ne hle (htime hplisted)
  -- so `p` stands before it, and has traded whole
  have hpmem : (((init heap).run cs₁).1.heap p).entry ∈
      ladder (((init heap).run cs₁).1.view.side i sd).2 := mem_ladder_iff.mpr ⟨p, hplisted, rfl⟩
  have hsorted := hs.ladder_sorted i sd
  rw [hl] at hpmem hsorted
  rcases List.mem_append.mp hpmem with hbefore | hafter
  · exact hfull _ hbefore
  · rcases List.mem_cons.mp hafter with hsame | hafter
    · exact absurd (hs.ptr.eq_of_id hq hp (congrArg Prod.fst hsame)) hne
    · have hord := (List.pairwise_cons.mp (List.pairwise_append.mp hsorted).2.1).1 _ hafter
      rcases hord.2 with hbetter | ⟨-, hkey⟩
      · exact absurd hprice.symm hbetter.ne
      · exact absurd hlt (not_lt.mpr hkey)

/-- Two sells at one price received within the same microsecond, and a buy for half of one. -/
def tied : List (Command UInt32 String) :=
  [.order .sell 1 "GOOG" 2700 10 0, .order .sell 2 "GOOG" 2700 10 0,
    .order .buy 3 "GOOG" 2700 5 1]

theorem not_firstCome_tied :
    (tied.filterMap newId).Nodup ∧ (tied.map Command.inputTime).Pairwise (· ≤ ·) ∧
      ¬ FirstCome (fun _ => newOrder .buy 0 "" 0 0 0) tied := by
  refine ⟨by decide, by decide, fun h => ?_⟩
  have h2 := h (tied.take 2) (.order .buy 3 "GOOG" 2700 5 1) [] rfl [] 2 3 1 2700 5 1 [] (by decide)
    "GOOG" .sell 0 1 (by decide) (by decide) (by decide) (by decide) (by decide)
  exact absurd h2 (by decide)

/-- The same with one microsecond between the sells. -/
def untied : List (Command UInt32 String) :=
  [.order .sell 1 "GOOG" 2700 10 0, .order .sell 2 "GOOG" 2700 10 1,
    .order .buy 3 "GOOG" 2700 5 2]

theorem firstCome_untied : FirstCome (fun _ => newOrder .buy 0 "" 0 0 0) untied := by
  refine firstCome_of_untied (by decide) (by decide) _ fun cs₁ c cs₂ heq => ?_
  rcases cs₁ with _ | ⟨c₁, _ | ⟨c₂, _ | ⟨c₃, cs₁⟩⟩⟩
  · cases heq
    decide
  · cases heq
    decide
  · cases heq
    decide
  · cases cs₁ <;> cases heq

end Engine

end Cpp

end MatchingEngine
