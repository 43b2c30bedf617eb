import MatchingEngine.Cpp.Sentinel

/-!
# Which booked orders are served

An order that stands in a node after the head trades with every crossing order that has enough left
when its turn comes, and its cancel is accepted.  It stands there exactly if it was booked at a price
other than 0, or as a buy while its chain was not empty.
-/

set_option linter.unusedSectionVars false

namespace MatchingEngine.Cpp

open PriceTime
open Quantity (value)

variable {I : Type} [DecidableEq I]

namespace Engine

variable {used used' : UInt32 → Prop} {e : Engine UInt32 I} {i : I} {sd : Side} {p q : OrderPtr}

/-- `q` trades before `p`: it has a better price, or the same and did not come later. -/
abbrev Ahead (heap : Heap UInt32 I) (sd : Side) (p q : OrderPtr) : Prop :=
  q ≠ p ∧ (sd.Better (heap q).price (heap p).price ∨
    (heap q).price = (heap p).price ∧ (heap q).inputTime ≤ (heap p).inputTime)

/-- The counts of all listed orders that trade before `p`. -/
def ahead (e : Engine UInt32 I) (i : I) (sd : Side) (p : OrderPtr) : ℕ :=
  ((((e.bookOf i sd).next.flatMap OrderNode.orders).filter fun q => Ahead e.heap sd p q).map
    fun q => (e.heap q).count.toNat).sum

/-- What the owner of an order on the book may count on. -/
structure Served (used : UInt32 → Prop) (e : Engine UInt32 I) (i : I) (sd : Side) (p : OrderPtr) :
    Prop where
  listed : e.Listed i sd p
  trades : ∀ orderId price count inputTime, ¬ used orderId → sd.Crosses price (e.heap p).price →
    e.ahead i sd p < count.toNat →
    ∃ executionId matched, .executed (e.heap p).orderId orderId executionId (e.heap p).price matched
      inputTime ∈ (e.exec (.order sd.opp orderId i price count inputTime)).2
  cancel : ∀ inputTime, ∃ inputTime',
    (e.exec (.cancel (e.heap p).orderId inputTime)).2 =
      [.deleted (e.heap p).orderId true inputTime']

theorem Sound.ladder_sorted (h : e.Sound used) (i : I) (sd : Side) :
    (ladder (e.view.side i sd).2).Sorted sd :=
  Cpp.ladder_sorted (h.shaped i sd).next (h.ptr.ladder_ids i sd)

theorem mem_ladder_iff {x : UInt32 × Resting UInt32 ℤ} :
    x ∈ ladder (e.view.side i sd).2 ↔ ∃ q, e.Listed i sd q ∧ (e.heap q).entry = x :=
  (ladder_perm e.heap (e.bookOf i sd).next).mem_iff.trans List.mem_map

theorem Listed.restsIn (h : e.Listed i sd p) : e.RestsIn i sd p := restsIn_cases.mpr (Or.inr h)

theorem PtrInv.eq_of_id (h : e.PtrInv used) {j : I} {sd' : Side} (hp : e.RestsIn i sd p)
    (hq : e.RestsIn j sd' q) (hid : (e.heap q).orderId = (e.heap p).orderId) : q = p := by
  have h1 := h.mapped i sd p hp
  have h2 := h.mapped j sd' q hq
  rw [hid, h1] at h2
  exact (Option.some.inj h2).symm

theorem volume_ladder (e : Engine UInt32 I) (i : I) (sd : Side)
    (f : UInt32 × Resting UInt32 ℤ → Bool) :
    Ladder.volume ((ladder (e.view.side i sd).2).filter f) =
      ((((e.bookOf i sd).next.flatMap OrderNode.orders).filter fun q => f (e.heap q).entry).map
        fun q => (e.heap q).count.toNat).sum := by
  have hperm := (ladder_perm e.heap (e.bookOf i sd).next).filter f
  have hvol : Ladder.volume ((ladder (e.view.side i sd).2).filter f) =
      Ladder.volume ((((e.bookOf i sd).next.flatMap OrderNode.orders).map
        fun q => (e.heap q).entry).filter f) := (hperm.map _).sum_eq
  rw [hvol, List.filter_map, Ladder.volume, List.map_map]
  rfl

/-- What the pass over the ladder takes before `p` is at most what stands ahead of `p`. -/
theorem Sound.split_at (h : e.Sound used) (hp : e.Listed i sd p) :
    ∃ l l', ladder (e.view.side i sd).2 = l ++ (e.heap p).entry :: l' ∧
      Ladder.volume l ≤ e.ahead i sd p := by
  have hmem : (e.heap p).entry ∈ ladder (e.view.side i sd).2 := mem_ladder_iff.mpr ⟨p, hp, rfl⟩
  rcases List.append_of_mem hmem with ⟨l, l', hl⟩
  refine ⟨l, l', hl, ?_⟩
  have hs := h.ladder_sorted i sd
  rw [hl] at hs
  let before : UInt32 × Resting UInt32 ℤ → Bool := fun y =>
    decide (y.1 ≠ (e.heap p).orderId ∧ (sd.Better y.2.price (e.heap p).price ∨
      y.2.price = (e.heap p).price ∧ y.2.key ≤ (e.heap p).inputTime))
  have hle := Ladder.volume_before_le hs before fun y hy => decide_eq_true hy
  rw [← hl] at hle
  refine hle.trans (le_of_eq ?_)
  rw [volume_ladder, ahead]
  congr 2
  apply List.filter_congr
  intro q hq
  show decide _ = decide _
  apply decide_eq_decide.mpr
  apply and_congr_left
  intro _
  apply not_congr
  constructor
  · exact fun hid => h.ptr.eq_of_id hp.restsIn (Listed.restsIn hq) hid
  · rintro rfl
    rfl

/-- A listed order trades when its turn comes. -/
theorem Sound.trades (h : e.Sound used) (hp : e.Listed i sd p) {orderId price count : UInt32}
    (inputTime : ℤ) (hfresh : ¬ used orderId) (hc : sd.Crosses price (e.heap p).price)
    (hq : e.ahead i sd p < count.toNat) :
    ∃ executionId matched, .executed (e.heap p).orderId orderId executionId (e.heap p).price matched
      inputTime ∈ (e.exec (.order sd.opp orderId i price count inputTime)).2 := by
  rcases h.split_at hp with ⟨l, l', hl, hle⟩
  have hs := h.ladder_sorted i sd
  let o : Order UInt32 I := newOrder sd.opp orderId i price count inputTime
  rcases matchLevels_ladder (h.shaped i sd).next o with ⟨es, hes, hout⟩
  -- whatever stands before `p` crosses, as its price is no worse
  have hcross : ∀ x ∈ l, sd.Crosses o.price x.2.price := by
    intro x hx
    rw [hl] at hs
    rcases ((List.pairwise_append.mp hs).2.2 x hx _ List.mem_cons_self).2 with hb | ⟨heq, -⟩
    · exact Side.Crosses.of_better hc hb
    · rw [heq]
      exact hc
  have hreach : ∃ x ∈ (Ladder.fill sd o.price (value o.count)
      (l ++ (e.heap p).entry :: l')).2.1,
      x.restingId = (e.heap p).orderId ∧ x.price = (e.heap p).price :=
    Ladder.fill_reaches (r := (e.heap p).entry.2) hcross hc (lt_of_le_of_lt hle hq)
  rw [← hl] at hreach
  rcases hreach with ⟨x, hx, hxid, hxprice⟩
  rw [hes] at hx
  -- the line printed for this execution
  have hline : execTo o x ∈ (matchLevels sd o (e.view.side i sd).2).2.2.map Line.toNat := by
    rw [hout]
    exact List.mem_map_of_mem hx
  rcases List.mem_map.mp hline with ⟨line, hline, htoNat⟩
  have hexec := (exec_view h.ptr (.order sd.opp orderId i price count inputTime) (by
    intro id hid
    cases hid
    exact hfresh)).2.1
  have hprinted : line ∈ (e.exec (.order sd.opp orderId i price count inputTime)).2 := by
    rw [hexec, Books.exec_order e.view sd.opp orderId i price count inputTime rfl, Side.opp_opp]
    split
    · exact List.mem_append_left _ hline
    · exact hline
  cases line with
  | executed r n ex pr c t =>
    simp only [Line.toNat, execTo, Line.executed.injEq] at htoNat
    rcases htoNat with ⟨rfl, rfl, -, rfl, -, rfl⟩
    rw [hxid, hxprice] at hprinted
    exact ⟨ex, c, hprinted⟩
  | added => cases htoNat
  | deleted => cases htoNat

/-- The cancel of a listed order is accepted. -/
theorem Sound.cancels (h : e.Sound used) (hp : e.Listed i sd p) (inputTime : ℤ) :
    (e.exec (.cancel (e.heap p).orderId inputTime)).2 =
      [.deleted (e.heap p).orderId true (e.heap p).inputTime] := by
  have hmap := h.ptr.mapped i sd p hp.restsIn
  have hknown : e.view.known (e.heap p).orderId = some (e.heap p).header := by
    simp only [view, hmap, Option.map_some]
  have hside : (if (e.heap p).type = .buy then .buy else .sell : Side) = sd := by
    rw [h.ptr.type i sd p hp.restsIn]
    cases sd <;> rfl
  have hprice : ∀ x ∈ ladder (e.view.side i sd).2, x.1 = (e.heap p).orderId →
      x.2.price = (e.heap p).price := by
    intro x hx hid
    rcases mem_ladder_iff.mp hx with ⟨q, hq, rfl⟩
    have heq : q = p := h.ptr.eq_of_id hp.restsIn (Listed.restsIn hq) hid
    rw [heq]
    rfl
  have hfound := ((cancelLevels_ladder (h.shaped i sd).next (h.ptr.ladder_ids i sd) hprice).1).mpr
    ⟨(e.heap p).entry, mem_ladder_iff.mpr ⟨p, hp, rfl⟩, rfl⟩
  have hexec := (exec_view h.ptr (.cancel (e.heap p).orderId inputTime) (fun _ hid => by cases hid)).2.1
  rw [hexec]
  simp only [Books.exec, hknown, Order.header, h.ptr.instrument i sd p hp.restsIn, hside, hfound]

/-! ## Runs -/

theorem nextPtr_exec (e : Engine UInt32 I) (c : Command UInt32 I) :
    e.nextPtr ≤ (e.exec c).1.nextPtr := by
  cases c with
  | order sd orderId j price count inputTime =>
    rw [exec_order]
    dsimp only
    split <;> exact Nat.le_succ _
  | cancel orderId inputTime =>
    rcases hs : e.orders orderId with _ | order
    · simp only [Engine.exec, HashMap.get, hs]
      exact le_rfl
    · simp only [Engine.exec, HashMap.get, hs]
      exact le_rfl

theorem sentinelOk_run (h : e.SentinelOk) (cs : List (Command UInt32 I)) :
    (e.run cs).1.SentinelOk := by
  induction cs generalizing e with
  | nil => exact h
  | cons c cs ih => exact ih (h.exec c)

/-- What rests at the end of a run has stood in one place all the time. -/
theorem Sound.listed_run (h : e.Sound used) (hz : e.SentinelOk) {cs : List (Command UInt32 I)}
    (hids : (cs.filterMap newId).Nodup) (hfresh : ∀ id ∈ cs.filterMap newId, ¬ used id)
    (hlt : p < e.nextPtr) (hp : (e.run cs).1.RestsIn i sd p) :
    e.RestsIn i sd p ∧ ((e.run cs).1.Listed i sd p ↔ e.Listed i sd p) := by
  induction cs generalizing e used with
  | nil => exact ⟨hp, Iff.rfl⟩
  | cons c cs ih =>
    have hstep := h.exec (c := c) fun id hid => hfresh id (mem_newIds_head hid)
    rcases ih hstep (hz.exec c) (newIds_tail hids) (newIds_tail_fresh hids hfresh)
      (lt_of_lt_of_le hlt (nextPtr_exec e c)) hp with ⟨hrest, hiff⟩
    constructor
    · rcases restsIn_exec h.ptr hrest with hold | ⟨rfl, -⟩
      · exact hold
      · exact absurd hlt (Nat.lt_irrefl _)
    · exact hiff.trans (listed_exec hz h.ptr hstep.ptr hlt hrest)

theorem Sound.served (h : e.Sound used) (hp : e.Listed i sd p) : e.Served used i sd p :=
  ⟨hp, fun _ _ _ inputTime hfresh hc hq => h.trades hp inputTime hfresh hc hq,
    fun inputTime => ⟨_, h.cancels hp inputTime⟩⟩

/-- A new order that is booked stands after the head if and only if it is listable. -/
theorem listed_iff (h : e.SentinelOk) (hi : e.PtrInv used) {orderId price count : UInt32}
    {inputTime : ℤ} (hi' : (e.exec (.order sd orderId i price count inputTime)).1.PtrInv used')
    (hp : (e.exec (.order sd orderId i price count inputTime)).1.RestsIn i sd e.nextPtr) :
    (e.exec (.order sd orderId i price count inputTime)).1.Listed i sd e.nextPtr ↔
      e.Listable i sd price := by
  have hhead := mem_head_exec h hi i sd e.nextPtr
    (.order sd orderId i price count inputTime)
  have hnew : e.nextPtr ∉ (e.bookOf i sd).head.orders := by
    intro hin
    exact (hi.lt (restsIn_cases.mpr (Or.inl hin))).ne rfl
  rw [or_iff_right hnew] at hhead
  constructor
  · intro hl
    by_contra hno
    exact hi'.not_listed (hhead.mpr ⟨rfl, hp, _, _, _, _, rfl, hno⟩) hl
  · intro hl
    apply (restsIn_cases.mp hp).resolve_left
    intro hin
    rcases hhead.mp hin with ⟨-, -, _, _, _, _, hc, hno⟩
    cases hc
    exact hno hl

/-- An order that is booked is served for as long as it rests if and only if it was listable. -/
theorem served_iff {cs : List (Command UInt32 I)} {c : Command UInt32 I}
    {orderId price count : UInt32} {inputTime : ℤ}
    (hc : c = .order sd orderId i price count inputTime)
    (hids : ((cs ++ [c]).filterMap newId).Nodup) (heap : Heap UInt32 I)
    (hbooked : ((init heap).run (cs ++ [c])).1.RestsIn i sd ((init heap).run cs).1.nextPtr) :
    (∀ cs', ((cs ++ c :: cs').filterMap newId).Nodup →
        ((init heap).run (cs ++ c :: cs')).1.RestsIn i sd ((init heap).run cs).1.nextPtr →
        ((init heap).run (cs ++ c :: cs')).1.Served (fun id => id ∈ (cs ++ c :: cs').filterMap newId)
          i sd ((init heap).run cs).1.nextPtr) ↔
      ((init heap).run cs).1.Listable i sd price := by
  subst hc
  have hcs : (cs.filterMap newId).Nodup :=
    hids.sublist ((List.sublist_append_left cs _).filterMap newId)
  have h := sound_run hcs heap
  have hz := sentinelOk_run (sentinelOk_init heap) cs
  have h' := sound_run hids heap
  have hz' := sentinelOk_run (sentinelOk_init heap)
    (cs ++ [.order sd orderId i price count inputTime])
  have hlt := h'.ptr.lt hbooked
  have hlisted : ((init heap).run (cs ++ [.order sd orderId i price count inputTime])).1.Listed i sd
      ((init heap).run cs).1.nextPtr ↔ ((init heap).run cs).1.Listable i sd price := by
    rw [run_append_fst] at h' hbooked ⊢
    exact listed_iff hz h.ptr h'.ptr hbooked
  constructor
  · intro hall
    exact hlisted.mp (hall [] hids hbooked).listed
  · intro hl cs' hids' hp
    have hsound := sound_run hids' heap
    apply hsound.served
    rw [List.append_cons] at hids' hp ⊢
    rw [run_append_fst] at hp ⊢
    rw [List.filterMap_append, List.nodup_append] at hids'
    refine ((h'.listed_run hz' hids'.2.1 ?_ hlt hp).2).mpr (hlisted.mpr hl)
    exact fun id hid hold => hids'.2.2 id hold id hid rfl

end Engine

end MatchingEngine.Cpp
