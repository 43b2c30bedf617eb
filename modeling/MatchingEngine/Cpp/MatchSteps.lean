import MatchingEngine.Cpp.AddSteps

/-!
# Matching an order

`matchOrder` after the mutex of the book is released.  The nodes that the walk locked are visited
one by one, the trades at each are what was pending there.
-/

set_option linter.unusedSectionVars false

namespace MatchingEngine.Cpp

open LockChain PriceTime

variable {I T : Type} [DecidableEq I] [DecidableEq T] {s s' : Sys ℕ I T} {V V' : View I T} {t : T}
  {j : Job I} {pc pc' : Pc ℕ I} {i : I} {sd : Side} {l m m' r : List (Cell I T)} {c d : Cell I T}
  {v : ℤ}

/-- The count of the order as such does not matter to what is queued. -/
theorem Queued.count {o : Order ℕ I} {q x : ℕ} {ns : List (Cell I T)} (h : Queued o q ns) :
    Queued { o with count := x } q ns := by
  induction ns generalizing q with
  | nil => trivial
  | cons n ns ih => exact ⟨h.1, ih h.2⟩

/-- `head.m.unlock()`. -/
theorem Inv.matchHead (h : Inv s V) (hpc : (s.thread t).pc = .matchHead j v)
    (hs : s.step t = some s') : ∃ V', Inv s' V' ∧ Quiet s s' V V' := by
  rw [Sys.step, hpc] at hs
  rcases h.opp hpc rfl with ⟨l, cells, r, hV, hcells, hrest, ⟨c, as, rfl, hc0, hpend, hgoing⟩⟩
  have hV' : V j.book j.side.opp = l ++ c :: (as ++ r) := by rw [hV]; simp
  have hsh := h.shows j.book j.side.opp
  rw [hV'] at hsh
  have hc : c.owner = some t := hcells c (by simp)
  dsimp only at hs
  rw [← hc0, Sys.unlock_eq hsh hc] at hs
  apply h.opp_relock hpc rfl hV' hpend (Or.inl hc) (Or.inr rfl) (Option.some.inj hs).symm rfl rfl rfl
    rfl rfl
  · refine ⟨l ++ [{ c with owner := none }], as, r, by simp, ?_, ?_, hgoing, ?_⟩
    · intro e he
      exact hcells e (by simp [he])
    · intro e he
      simp only [List.mem_append, List.mem_cons, List.not_mem_nil, or_false] at he
      rcases he with (he | rfl) | he
      · exact hrest e (by simp [he])
      · rintro ⟨⟩
      · exact hrest e (by simp [he])
    · rw [show (s.node j.book j.side.opp c.addr).next = _ from hsh.next_eq]
      cases as <;> cases r <;> rfl
  · exact fun _ _ hb => hb

/-- `if (order->count > 0) addBook.add(order)` once nothing of the other side is held. -/
theorem Inv.afterMatch (h : Inv s V) {curr : Option Addr}
    (hpc : (s.thread t).pc = .matchTest j v curr)
    (hnil : Holds Cell.owner Cell.key t (V j.book j.side.opp) fun cells _ => cells = [])
    (hcount : (s.heap j.order).count = v.toNat) :
    ∃ V', Inv (s.afterMatch t j) V' ∧ Quiet s (s.afterMatch t j) V V' := by
  rcases h.own hpc rfl with ⟨l, cells, r, hV, hcells, hrest, hbook⟩
  unfold Sys.afterMatch
  split
  next hpos =>
    have hv : 0 < v := by
      have hv' : 0 < v.toNat := hcount ▸ hpos
      omega
    have hbook' : ∃ c, cells = [c] ∧ c.addr = 0 ∧
        c.pend = .add j.side { s.heap j.order with count := v.toNat } := by
      have hb : Booking j.side (s.heap j.order) v cells := hbook
      rwa [Booking, if_pos hv] at hb
    rcases hbook' with ⟨c, rfl, hc0, hpend⟩
    have hpend' : c.pend = .add j.side (s.heap j.order) := by
      rw [hpend, ← hcount]
    have hV' : V j.book j.side = l ++ c :: r := by rw [hV]; simp
    have hsh := h.shows j.book j.side
    rw [hV'] at hsh
    have hnext : (s.node j.book j.side c.addr).next = _ := hsh.next_eq
    have hpop : c.pend.numPopback = 0 := by
      rw [hpend]
      rfl
    rw [hc0] at hnext
    apply h.own_retag hpc (.addWalk j 0 (s.node j.book j.side 0).next) rfl rfl rfl (Or.inl rfl) rfl
      hV' (hcells c (by simp)) hrest c.pend hpop hpop rfl rfl
    · exact ⟨⟨c, rfl, hc0, hpend', Or.inl hc0⟩, hnext.symm⟩
    · exact hnil
    · exact fun _ => rfl
  next hpos =>
    have hv : ¬ 0 < v := by
      have hv' : ¬ 0 < v.toNat := hcount ▸ hpos
      omega
    have hown : Holds Cell.owner Cell.key t (V j.book j.side) fun cells _ => cells = [] := by
      apply (h.own hpc rfl).imp
      intro cells nxt _ hb
      have hb' : Booking j.side (s.heap j.order) v cells := hb
      rwa [Booking, if_neg hv] at hb'
    have hself := Sys.finish_self s t
    refine ⟨V, h.stay hpc (Light.finish s t) (fun _ _ => rfl) (by rw [hself]; rfl) ?_ ?_ ?_⟩
    · apply turn_finish
      · rw [hpc]
        rintro ⟨⟩
      · rw [hself]
      · rw [hself]
    · rw [hself]
      apply holds_of_no_job rfl
      intro i sd
      by_cases hi : i = j.book
      · subst hi
        rcases Side.eq_or_eq_opp j.side sd with rfl | rfl
        · exact hown
        · exact hnil
      · apply h.elsewhere hpc
        intro j' hj
        cases hj
        exact hi
    · apply account_finish (by rw [hpc]; rfl) rfl rfl
      unfold promise
      rw [hpc]
      dsimp only [Pc.job]
      rw [due_of_nil hown, due_of_nil hnil]
      simp [Pc.lines]

/-- The test of the outer loop: it goes on at the nodes that the walk locked, and nowhere else. -/
theorem Inv.matchTest (h : Inv s V) {curr : Option Addr}
    (hpc : (s.thread t).pc = .matchTest j v curr) (hs : s.step t = some s') :
    ∃ V', Inv s' V' ∧ Quiet s s' V V' := by
  rw [Sys.step.eq_def, hpc] at hs
  rcases h.opp hpc rfl with ⟨l, cells, r, hV, hcells, hrest, ⟨hpassed, hqueued, hleft, hended⟩, hcurr⟩
  have hsh := h.shows j.book j.side.opp
  cases cells with
  | nil =>
    have hnil : Holds Cell.owner Cell.key t (V j.book j.side.opp) fun cells _ => cells = [] :=
      ⟨l, [], r, hV, hcells, hrest, rfl⟩
    cases r with
    | nil =>
      subst hcurr
      cases Option.some.inj hs
      exact h.afterMatch hpc hnil hleft
    | cons d r =>
      have hcurr' : curr = some d.addr := hcurr
      subst hcurr'
      dsimp only at hs
      have hprice : (s.node j.book j.side.opp d.addr).price = d.node.price :=
        congrArg OrderNode.price (hsh.node d (by simp [hV]))
      rw [hprice, if_neg] at hs
      · cases Option.some.inj hs
        exact h.afterMatch hpc hnil hleft
      · rintro ⟨hpos, hcross⟩
        rcases hended with hz | hn
        · have : (s.heap j.order).count = v.toNat := hleft
          omega
        · exact hn d.key rfl hcross
  | cons c as =>
    have hcurr' : curr = some c.addr := hcurr
    subst hcurr'
    dsimp only at hs
    rcases hpassed with ⟨hpos, hcross, hpassed⟩
    rcases hqueued with ⟨hpend, hqueued⟩
    have hnode : (s.node j.book j.side.opp c.addr).toOrderNode = c.node :=
      hsh.node c (by simp [hV])
    have hprice := congrArg OrderNode.price hnode
    rw [hprice, if_pos ⟨hpos, hcross⟩] at hs
    cases Option.some.inj hs
    have hV' : V j.book j.side.opp = l ++ c :: (as ++ r) := by rw [hV]; simp
    have hblock : Holds Cell.owner Cell.key t (V j.book j.side.opp) fun cells nxt =>
        (Pc.matchNode j v c.addr (s.node j.book j.side.opp c.addr).orders.reverse 0).oppBlock
          (s.heap j.order) cells nxt j.side.opp := by
      refine ⟨l, c :: as, r, hV, hcells, hrest, ?_⟩
      refine ⟨c, as, rfl, rfl, hpend, Nat.zero_le _, Or.inr ?_, hcross, hpassed, hqueued, hleft,
        hended⟩
      rw [hnode]
      rfl
    have hself : (s.goto t (.matchNode j v c.addr
        (s.node j.book j.side.opp c.addr).orders.reverse 0)).thread t = { s.thread t with
          pc := .matchNode j v c.addr (s.node j.book j.side.opp c.addr).orders.reverse 0 } :=
      Function.update_self ..
    refine ⟨V, h.stay hpc (Light.goto ..) (fun _ _ => rfl) (by rw [hself]; rfl) ?_ ?_ ?_⟩
    · exact h.turn hpc rfl (by rw [hself]; rfl) (by rw [hself]; exact Or.inl rfl) (by rw [hself])
    · have hown := h.own hpc rfl
      rw [hself]
      apply holds_of_job rfl
      · exact hown
      · exact hblock
      · intro i sd hi
        apply h.elsewhere hpc
        intro j' hj
        cases hj
        exact hi
    · apply account_busy
      · rw [hself, hpc]
        rfl
      · rw [hself]
      · rw [hself]
      · unfold promise
        rw [hself, hpc]
        rfl

theorem Inv.matchPrint (h : Inv s V) {curr : Addr} {its : List OrderPtr} {k : ℕ}
    {line : Line ℕ I} (hpc : (s.thread t).pc = .matchPrint j v curr its k line)
    (hs : s.step t = some s') : ∃ V', Inv s' V' ∧ Quiet s s' V V' := by
  rw [Sys.step, hpc] at hs
  cases Option.some.inj hs
  exact h.stay_print hpc (.matchNode j v curr its k) _ rfl rfl rfl (Or.inl rfl) rfl rfl
    (fun _ _ hb => hb) fun _ _ hb => hb

/-! ## At one node -/

theorem fill_of_zero {o : Order ℕ I} (h : o.count = 0) (rs : List (Order ℕ I)) :
    fill o rs = (rs, o, []) := by
  cases rs with
  | nil => rfl
  | cons r rs => rw [fill, if_pos h]

theorem fillLevel_of_done {o : Order ℕ I} {lv : Level ℕ I} (h : o.count = 0 ∨ lv.orders = []) :
    fillLevel o lv = (lv, o, []) := by
  have hfill : fill o lv.orders.reverse = (lv.orders.reverse, o, []) := by
    rcases h with h | h
    · exact fill_of_zero h _
    · rw [h]
      rfl
  unfold fillLevel
  rw [hfill]
  simp

/-- `curr->orders.pop_back()` as often as needed, `curr->m.unlock(); curr = next`. -/
theorem Inv.matchLeave (h : Inv s V) {a : Addr} {its : List OrderPtr} {k : ℕ} {n : Node ℕ T}
    (hpc : (s.thread t).pc = .matchNode j v a its k)
    (hdone : (s.heap j.order).count = 0 ∨ its = [])
    (hn : n = s.node j.book j.side.opp a)
    (hs : s' = (s.setNode j.book j.side.opp a
        { n with orders := n.orders.take (n.orders.length - k) }).unlock t j.book j.side.opp a
          (.matchTest j v n.next)) :
    ∃ V', Inv s' V' ∧ Quiet s s' V V' := by
  rcases h.opp hpc rfl with ⟨l, cells, r, hV, hcells, hrest, ⟨c, as, rfl, rfl, hpend, hk, hits, hcross,
    hpassed, hqueued, hleft, hended⟩⟩
  have hV' : V j.book j.side.opp = l ++ c :: (as ++ r) := by rw [hV]; simp
  have hV₁ : V j.book j.side.opp = l ++ [c] ++ (as ++ r) := by rw [hV]; simp
  have hsh := h.shows j.book j.side.opp
  rw [hV'] at hsh
  have hc : c.owner = some t := hcells c (by simp)
  let o := s.heap j.order
  have hnode : n.toOrderNode = c.node := hn ▸ hsh.node c (by simp)
  have horders : c.node.orders.map s.heap = c.orders := hsh.orders c (by simp)
  have hlen : c.node.orders.length = c.orders.length := by rw [← horders, List.length_map]
  let c₁ : Cell I T :=
    { c with
      node := { c.node with orders := c.node.orders.take (c.node.orders.length - k) }
      orders := c.orders.take (c.orders.length - k), pend := .none }
  have hvol : c.node.volume = total c₁.orders := by
    have := h.volume j.book j.side.opp c (by simp [hV'])
    rwa [hpend] at this
  -- either nothing is left of the order or nothing of the node
  have hdone' : o.count = 0 ∨ c₁.orders = [] := by
    rcases hdone with hz | rfl
    · exact Or.inl hz
    · rcases hits with hz | hits
      · exact Or.inl hz
      · have hge := List.drop_eq_nil_iff.mp hits.symm
        rw [List.length_reverse, hlen] at hge
        refine Or.inr ?_
        show c.orders.take (c.orders.length - k) = []
        rw [Nat.sub_eq_zero_of_le hge, List.take_zero]
  have hact : act c.pend c.level (settled (as ++ r)) =
      (c₁.level :: settled (as ++ r), []) := by
    rw [hpend]
    dsimp only [act]
    rw [fillLevel_of_done (show o.count = 0 ∨ (c.level.dropLast k).orders = [] from hdone')]
    rfl
  let s₁ : Sys ℕ I T := s.setNode j.book j.side.opp c.addr
    { n with orders := n.orders.take (n.orders.length - k) }
  have hsh₁ : Shows (s₁.chain j.book j.side.opp) s₁.heap (l ++ c₁ :: (as ++ r)) := by
    show Shows ((s.setNode _ _ _ _).chain _ _) s.heap _
    rw [Sys.chain_setNode, if_pos ⟨rfl, rfl⟩]
    apply hsh.setNode c₁ rfl
    · show ({ n.toOrderNode with
        orders := n.toOrderNode.orders.take (n.toOrderNode.orders.length - k) } : OrderNode ℕ) = _
      rw [hnode]
    · rw [hn]
      exact hsh.mutex c (by simp)
    · rw [hn]
      rfl
    · show (c.node.orders.take (c.node.orders.length - k)).map s.heap =
        c.orders.take (c.orders.length - k)
      rw [List.map_take, horders, hlen]
    · exact fun _ _ => rfl
  have hs' : s' = (s₁.setMutex j.book j.side.opp c.addr none).goto t (.matchTest j v n.next) := by
    rw [hs]
    exact Sys.unlock_eq (c := c₁) hsh₁ hc
  have hself : s'.thread t = { s.thread t with pc := .matchTest j v n.next } := by
    rw [hs']
    exact Function.update_self ..
  have hl : Light s s' t := by
    rw [hs']
    exact (Light.setNode s t _ _ _ _).trans (Sys.light_setMutex _ _ _)
  have hheap : s'.heap = s.heap := hl.heap
  have hrun : run [c] (settled (as ++ r)) = (c₁.level :: settled (as ++ r), []) := by
    simp only [run, List.append_nil]
    rw [hact]
    rfl
  have hrun' : run [{ c₁ with owner := none }] (settled (as ++ r)) =
      (c₁.level :: settled (as ++ r), []) := rfl
  have hon : OnStretch s s' t j.book j.side.opp l [c] [{ c₁ with owner := none }] (as ++ r) := by
    refine ⟨hl.other, hl.frame.header, hl.fault.trans h.fault, hl.bookM, ?_, ?_, ?_, ?_, ?_, ?_, rfl,
      ?_, ?_, ?_⟩
    · rw [hself, hpc]
      rfl
    · intro i sd hne
      rw [hs']
      show (s₁.setMutex _ _ _ _).chain i sd = _
      rw [Sys.chain_setMutex_of_ne hne]
      show (s.setNode _ _ _ _).chain i sd = _
      rw [Sys.chain_setNode, if_neg hne]
    · intro p _ _
      rw [hheap]
    · rw [hheap, hs', ← List.append_cons]
      exact Sys.shows_setMutex hsh₁ none
    · simpa using Or.inl hc
    · simp [c₁]
    · intro e he
      exact ⟨_, List.mem_singleton_self _, by rw [List.mem_singleton.mp he]; rfl⟩
    · intro e he
      rw [List.mem_singleton.mp he]
      show c.node.volume = total (List.take (c₁.orders.length - 0) c₁.orders)
      rw [Nat.sub_zero, List.take_length]
      exact hvol
    · rw [hrun, hrun']
  apply h.opp_step hpc rfl (by rw [hself]; rfl) hV₁ hon
  · apply h.objs.move hl.frame
      (h.turn hpc rfl (by rw [hself]; rfl) (by rw [hself]; exact Or.inl rfl) (by rw [hself]))
    intro i sd
    by_cases hi : i = j.book ∧ sd = j.side.opp
    · rcases hi with ⟨rfl, rfl⟩
      rw [View.set_self, hV₁]
      simp only [ptrs_append, ptrs_cons]
      refine List.Sublist.append (List.Sublist.append (List.Sublist.refl _) ?_)
        (List.Sublist.refl _)
      exact List.Sublist.append (List.take_sublist _ _) (List.Sublist.refl _)
    · rw [View.set_of_ne _ _ hi]
  · refine ⟨l ++ [{ c₁ with owner := none }], as, r, by simp, ?_, ?_, ?_⟩
    · intro e he
      exact hcells e (by simp [he])
    · intro e he
      simp only [List.mem_append, List.mem_cons, List.not_mem_nil, or_false] at he
      rcases he with (he | rfl) | he
      · exact hrest e (by simp [he])
      · rintro ⟨⟩
      · exact hrest e (by simp [he])
    · rw [hself, hheap]
      have hq : o.count - c.node.volume = o.count := by
        rcases hdone' with hz | hnil
        · rw [hz, Nat.zero_sub]
        · rw [hvol, hnil]
          rfl
      have hgoing : Going j.side.opp o v as (r.head?.map Cell.key) (o.count - c.node.volume) :=
        ⟨hpassed, hqueued, hleft, hended⟩
      rw [hq] at hgoing
      refine ⟨hgoing, ?_⟩
      have hnext : n.next = ((as ++ r).head?.map Cell.key).map Prod.fst := by
        rw [hn]
        exact hsh.next_eq
      rw [hnext]
      cases as <;> cases r <;> rfl
  · intro cells nxt hb
    rw [hself, hheap]
    exact hb
  · apply account_busy
    · rw [hself, hpc]
      rfl
    · rw [hself]
    · rw [hself]
    · have hjob : (s.thread t).pc.job = some j := by rw [hpc]; rfl
      have hjob' : (s'.thread t).pc.job = some j := by rw [hself]; rfl
      have hdue : ∀ W : View I T, W j.book j.side.opp = l ++ [{ c₁ with owner := none }] ++ (as ++ r) →
          due t (W j.book j.side.opp) = due t (V j.book j.side.opp) := by
        intro W hW
        rw [hW, hV₁]
        unfold due
        have hrun₁ := hrun
        have hrun₂ := hrun'
        unfold settled at hrun₁ hrun₂
        rw [run_append, run_append l, run_append (l ++ [c]), run_append l, hrun₁, hrun₂]
      unfold promise
      rw [hjob, hjob']
      dsimp only
      rw [hdue _ (View.set_self ..), View.set_of_ne _ _ fun h => Side.ne_opp _ h.2, hself, hpc]
      rfl

section Exec

variable {o r : Order ℕ I} {price : UInt32} {rs : List (Order ℕ I)}

theorem fillLevel_full (hz : o.count ≠ 0) (hle : r.count ≤ o.count) :
    fillLevel o { price, orders := rs ++ [r] } =
      ((fillLevel { o with count := o.count - r.count } { price, orders := rs }).1,
        (fillLevel { o with count := o.count - r.count } { price, orders := rs }).2.1,
        tradeLine o r r.count ::
          (fillLevel { o with count := o.count - r.count } { price, orders := rs }).2.2) := by
  unfold fillLevel
  simp only [List.reverse_append, List.reverse_cons, List.reverse_nil, List.nil_append,
    List.singleton_append]
  rw [fill, if_neg hz, if_pos hle]

theorem fillLevel_part (hz : o.count ≠ 0) (hlt : ¬ r.count ≤ o.count) :
    fillLevel o { price, orders := rs ++ [r] } =
      ({ price, orders := rs ++
          [{ r with count := r.count - o.count, executionId := r.executionId + 1 }] },
        { o with count := 0 }, [tradeLine o r o.count]) := by
  unfold fillLevel
  simp only [List.reverse_append, List.reverse_cons, List.reverse_nil, List.nil_append,
    List.singleton_append]
  rw [fill, if_neg hz, if_neg hlt]
  simp

/-- One trade of the inner loop, seen from the node. -/
structure ExecSpec (heap : Heap ℕ I) (order it : OrderPtr) (ps its : List OrderPtr) (k k' : ℕ)
    (price : UInt32) : Prop where
  incoming : ∃ x, execHeap heap order it order = { heap order with count := x } ∧
    (x = 0 ∨ its = ps.reverse.drop k') ∧
    x - (total ((ps.map heap).take (ps.length - k)) - countMatched heap order it) =
      (heap order).count - total ((ps.map heap).take (ps.length - k))
  bound : k' ≤ ps.length
  volume : total ((ps.map (execHeap heap order it)).take (ps.length - k')) =
    total ((ps.map heap).take (ps.length - k)) - countMatched heap order it
  fills : (fillLevel (heap order) { price, orders := (ps.map heap).take (ps.length - k) }).1 =
    (fillLevel (execHeap heap order it order)
      { price, orders := (ps.map (execHeap heap order it)).take (ps.length - k') }).1
  lines : (fillLevel (heap order) { price, orders := (ps.map heap).take (ps.length - k) }).2.2 =
    execLine heap order it ::
      (fillLevel (execHeap heap order it order)
        { price, orders := (ps.map (execHeap heap order it)).take (ps.length - k') }).2.2

theorem exec_spec {heap : Heap ℕ I} {order it : OrderPtr} {ps its : List OrderPtr} {k : ℕ}
    (hk : k ≤ ps.length) (hits : it :: its = ps.reverse.drop k) (hnd : ps.Nodup)
    (hord : order ∉ ps) (hz : (heap order).count ≠ 0) (price : UInt32) :
    ExecSpec heap order it ps its k (if Fills heap order it then k + 1 else k) price := by
  -- the vector is what is left, the order to trade with, and what is already filled
  obtain ⟨ys, hps, hys⟩ : ∃ ys, ps = its.reverse ++ it :: ys ∧ ys.length = k := by
    refine ⟨(ps.reverse.take k).reverse, ?_, by simp [hk]⟩
    have h := congrArg List.reverse (List.take_append_drop k ps.reverse)
    rw [← hits, List.reverse_append, List.reverse_reverse, List.reverse_cons,
      List.append_assoc] at h
    exact h.symm
  have hlen : ps.length - k = its.length + 1 := by
    rw [hps, List.length_append, List.length_cons, List.length_reverse, hys]
    omega
  have htake : ∀ f : Heap ℕ I, (ps.map f).take (ps.length - k) = its.reverse.map f ++ [f it] := by
    intro f
    rw [hlen, hps, List.map_append, List.map_cons]
    rw [show its.reverse.map f ++ f it :: ys.map f = (its.reverse.map f ++ [f it]) ++ ys.map f by simp]
    exact List.take_left' (by simp)
  have hit : it ∈ ps := by rw [hps]; simp
  have hoi : order ≠ it := by
    rintro rfl
    exact hord hit
  have hitits : it ∉ its := by
    rw [hps] at hnd
    intro hin
    have := (List.nodup_append.mp hnd).2.2 it (by simpa using hin) it (by simp)
    exact this rfl
  have hordits : order ∉ its := by
    intro hin
    apply hord
    rw [hps]
    simp [hin]
  have hmap : its.reverse.map (execHeap heap order it) = its.reverse.map heap := by
    apply List.map_congr_left
    intro p hp
    rw [List.mem_reverse] at hp
    exact execHeap_other heap order it (ne_of_mem_of_not_mem hp hordits)
      (ne_of_mem_of_not_mem hp hitits)
  have hvol : total (its.reverse.map heap ++ [heap it]) =
      total (its.reverse.map heap) + (heap it).count := by
    rw [total_append]
    simp [total]
  have hdrop : its = ps.reverse.drop (k + 1) := by
    rw [← List.drop_drop, ← hits]
    rfl
  by_cases hf : Fills heap order it
  · have hle : (heap it).count ≤ (heap order).count := hf
    have hcm : countMatched heap order it = (heap it).count := if_pos hf
    have hnew : execHeap heap order it order =
        { heap order with count := (heap order).count - (heap it).count } := by
      simp only [execHeap, if_pos hf, Function.update_self]
    have hline : execLine heap order it = tradeLine (heap order) (heap it) (heap it).count := by
      unfold execLine
      rw [hcm]
      rfl
    have htake' : (ps.map (execHeap heap order it)).take (ps.length - (k + 1)) =
        its.reverse.map heap := by
      rw [show ps.length - (k + 1) = its.length by omega, hps, List.map_append, hmap]
      exact List.take_left' (by simp)
    rw [if_pos hf]
    constructor
    · refine ⟨_, hnew, Or.inr hdrop, ?_⟩
      rw [htake, hvol, hcm]
      omega
    · omega
    · rw [htake', htake, hvol, hcm]
      omega
    · rw [htake', htake, fillLevel_full hz hle, hnew]
    · rw [htake', htake, fillLevel_full hz hle, hnew, hline]
  · have hlt : ¬ (heap it).count ≤ (heap order).count := hf
    have hcm : countMatched heap order it = (heap order).count := if_neg hf
    have hnew : execHeap heap order it order = { heap order with count := 0 } := by
      simp only [execHeap, if_neg hf, Function.update_self, Function.update_of_ne hoi]
    have hold : execHeap heap order it it =
        { heap it with
          count := (heap it).count - (heap order).count
          executionId := (heap it).executionId + 1 } := by
      simp only [execHeap, if_neg hf, Function.update_self, Function.update_of_ne hoi.symm]
    have hline : execLine heap order it = tradeLine (heap order) (heap it) (heap order).count := by
      unfold execLine
      rw [hcm]
      rfl
    have hzero : (execHeap heap order it order).count = 0 := by rw [hnew]
    rw [if_neg hf]
    constructor
    · refine ⟨_, hnew, Or.inl rfl, ?_⟩
      rw [htake, hvol]
      omega
    · exact hk
    · rw [htake, htake, hmap, hvol, total_append, hold, hcm]
      simp only [total, List.map_cons, List.map_nil, List.sum_cons, List.sum_nil]
      omega
    · rw [fillLevel_of_done (Or.inl hzero), htake, htake, fillLevel_part hz hlt, hmap, hold]
    · rw [fillLevel_of_done (Or.inl hzero), htake, fillLevel_part hz hlt, hline]

end Exec

/-- One round of the inner loop. -/
theorem Inv.matchExec (h : Inv s V) {a : Addr} {it : OrderPtr} {its : List OrderPtr} {k k' : ℕ}
    {n : Node ℕ T} (hpc : (s.thread t).pc = .matchNode j v a (it :: its) k)
    (hz : (s.heap j.order).count ≠ 0) (hn : n = s.node j.book j.side.opp a)
    (hk' : k' = if Fills s.heap j.order it then k + 1 else k)
    (hs : s' = Sys.goto
      { s.setNode j.book j.side.opp a
          { n with volume := n.volume - countMatched s.heap j.order it } with
        heap := execHeap s.heap j.order it
        orders := execOrders s.heap j.order it s.orders }
      t (.matchPrint j v a its k' (execLine s.heap j.order it))) :
    ∃ V', Inv s' V' ∧ Quiet s s' V V' := by
  rcases h.opp hpc rfl with ⟨l, cells, r, hV, hcells, hrest, ⟨c, as, rfl, rfl, hpend, hk, hits, hcross,
    hpassed, hqueued, hleft, hended⟩⟩
  have hits' : it :: its = c.node.orders.reverse.drop k := hits.resolve_left hz
  have hV' : V j.book j.side.opp = l ++ c :: (as ++ r) := by rw [hV]; simp
  have hV₁ : V j.book j.side.opp = l ++ [c] ++ (as ++ r) := by rw [hV]; simp
  have hsh := h.shows j.book j.side.opp
  rw [hV'] at hsh
  have hc : c.owner = some t := hcells c (by simp)
  have hnode : n.toOrderNode = c.node := hn ▸ hsh.node c (by simp)
  have horders : c.node.orders.map s.heap = c.orders := hsh.orders c (by simp)
  have hlen : c.node.orders.length = c.orders.length := by rw [← horders, List.length_map]
  have hnd := h.objs.nodup j.book j.side.opp
  rw [hV', ptrs_append, ptrs_cons] at hnd
  have hflying := h.objs.flying t j.order (by rw [hpc]; rfl)
  have hin : ∀ p, p ∈ ptrs (V j.book j.side.opp) → p ≠ j.order := by
    rintro p hp rfl
    exact hflying.1 _ _ hp
  have hcV : ∀ p ∈ c.node.orders, p ∈ ptrs (V j.book j.side.opp) := by
    intro p hp
    rw [hV']
    exact mem_ptrs.mpr ⟨c, by simp, hp⟩
  have hitc : it ∈ c.node.orders := by
    have hmem : it ∈ c.node.orders.reverse.drop k := hits' ▸ List.mem_cons_self
    exact List.mem_reverse.mp (List.mem_of_mem_drop hmem)
  have hord : j.order ∉ c.node.orders := fun hmem => hin _ (hcV _ hmem) rfl
  have hspec := exec_spec (hlen ▸ hk) hits'
    ((List.nodup_append.mp (List.nodup_append.mp hnd).2.1).1) hord hz c.node.price
  rw [← hk'] at hspec
  rcases hspec with ⟨⟨x, hnew, hdone, hrem⟩, hbound, hvolume, hfills, hlines⟩
  rw [horders, hlen] at hrem hvolume hfills hlines
  rw [hlen] at hbound
  have hvol : c.node.volume = total (c.orders.take (c.orders.length - k)) := by
    have := h.volume j.book j.side.opp c (by simp [hV'])
    rwa [hpend] at this
  let heap' := execHeap s.heap j.order it
  let c' : Cell I T :=
    { c with
      node := { c.node with volume := c.node.volume - countMatched s.heap j.order it }
      orders := c.node.orders.map heap'
      pend := .fill (heap' j.order) k' }
  have hself : s'.thread t = { s.thread t with
      pc := .matchPrint j v c.addr its k' (execLine s.heap j.order it) } := by
    rw [hs]
    exact Function.update_self ..
  have hheap : s'.heap = heap' := by
    rw [hs]
    rfl
  have hframe : Frame s s' t := by
    rw [hs]
    constructor
    · intro u hu
      exact Function.update_of_ne hu ..
    · rfl
    · exact fun p => execHeap_header ..
    · exact fun i hi => s.orderBooks_setChain _ i _ _ hi
    · intro id p hp
      have hp' : execOrders s.heap j.order it s.orders id = some p := hp
      unfold execOrders HashMap.remove at hp'
      split at hp'
      · by_cases hid : id = (s.heap j.order).orderId
        · subst hid
          simp at hp'
        · rwa [Function.update_of_ne hid] at hp'
      · exact hp'
  have hact : act c.pend c.level (settled (as ++ r)) =
      ((act c'.pend c'.level (settled (as ++ r))).1,
        execLine s.heap j.order it :: (act c'.pend c'.level (settled (as ++ r))).2) := by
    have hlv : (c.level).dropLast k =
        { price := c.node.price, orders := c.orders.take (c.orders.length - k) } := rfl
    have hlv' : (c'.level).dropLast k' =
        { price := c.node.price
          orders := (c.node.orders.map heap').take (c.orders.length - k') } := by
      unfold Level.dropLast
      show _ = ({ price := c.node.price, orders := _ } : Level ℕ I)
      congr 2
      show (c.node.orders.map heap').length - k' = _
      rw [List.length_map, hlen]
    rw [hpend]
    dsimp only [act, c']
    rw [hlv]
    have hlv₂ := hlv'
    dsimp only [c'] at hlv₂
    rw [hlv₂, hfills, hlines]
  have hrun : run [c] (settled (as ++ r)) =
      ((run [c'] (settled (as ++ r))).1,
        (some t, execLine s.heap j.order it) :: (run [c'] (settled (as ++ r))).2) := by
    simp only [run, List.append_nil]
    rw [hact, ← hc]
    rfl
  have hon : OnStretch s s' t j.book j.side.opp l [c] [c'] (as ++ r) := by
    constructor
    · exact hframe.other
    · exact hframe.header
    · rw [hs]
      exact h.fault
    · intro i
      rw [hs]
      exact s.getBook_setChain_m _ i _ _
    · rw [hself, hpc]
      rfl
    · intro i sd hne
      rw [hs]
      show (s.setNode _ _ _ _).chain i sd = _
      rw [Sys.chain_setNode, if_neg hne]
    · intro p hp hne
      rw [hheap]
      apply execHeap_other
      · exact hne _ (by rw [hpc]; rfl)
      · rintro rfl
        apply hp
        rw [ptrs_cons]
        simp [hitc]
    · rw [hheap, ← List.append_cons]
      have hch : s'.chain j.book j.side.opp = (s.setNode j.book j.side.opp c.addr
          { n with volume := n.volume - countMatched s.heap j.order it }).chain
            j.book j.side.opp := by
        rw [hs]
        rfl
      rw [hch, Sys.chain_setNode, if_pos ⟨rfl, rfl⟩]
      apply hsh.setNode c' rfl
      · show ({ n.toOrderNode with
          volume := n.toOrderNode.volume - countMatched s.heap j.order it } : OrderNode ℕ) = _
        rw [hnode]
      · rw [hn]
        exact hsh.mutex c (by simp)
      · rw [hn]
        rfl
      · rfl
      · intro p hp
        apply execHeap_other
        · apply hin
          rw [hV']
          rw [ptrs_append] at hp ⊢
          rw [ptrs_cons]
          simp only [List.mem_append] at hp ⊢
          tauto
        · -- the trade is with an order of this node, and each stands in one node
          rintro rfl
          rw [ptrs_append] at hp
          rcases List.mem_append.mp hp with hp | hp
          · exact (List.nodup_append.mp hnd).2.2 p hp p
              (List.mem_append_left _ hitc) rfl
          · exact (List.nodup_append.mp (List.nodup_append.mp hnd).2.1).2.2 p hitc p hp rfl
    · intro e he
      rw [List.mem_singleton.mp he]
      exact Or.inl hc
    · intro e he
      rw [List.mem_singleton.mp he]
      exact Or.inl hc
    · rfl
    · intro e he
      exact ⟨c', List.mem_singleton_self _, by rw [List.mem_singleton.mp he]; rfl⟩
    · intro e he
      rw [List.mem_singleton.mp he]
      show c.node.volume - countMatched s.heap j.order it =
        total ((c.node.orders.map heap').take ((c.node.orders.map heap').length - k'))
      rw [List.length_map, hlen, hvolume, hvol]
    · rw [hrun]
  apply h.opp_step hpc rfl (by rw [hself]; rfl) hV₁ hon
  · apply h.objs.move hframe
      (h.turn hpc rfl (by rw [hself]; rfl) (by rw [hself]; exact Or.inl rfl) (by rw [hself]))
    intro i sd
    by_cases hi : i = j.book ∧ sd = j.side.opp
    · rcases hi with ⟨rfl, rfl⟩
      rw [View.set_self, hV₁]
      simp only [ptrs_append, ptrs_cons]
      exact List.Sublist.refl _
    · rw [View.set_of_ne _ _ hi]
  · refine ⟨l, c' :: as, r, by simp, ?_, hrest, ?_⟩
    · intro e he
      rcases List.mem_cons.mp he with rfl | he
      · exact hc
      · exact hcells e (List.mem_cons_of_mem _ he)
    · rw [hself, hheap]
      show (Pc.matchPrint j v c.addr its k' (execLine s.heap j.order it)).oppBlock
        (execHeap s.heap j.order it j.order) _ _ _
      rw [hnew]
      have hcount : x - c'.node.volume = (s.heap j.order).count - c.node.volume := by
        show x - (c.node.volume - countMatched s.heap j.order it) = _
        rw [hvol, hrem]
      have hgoing : Going j.side.opp { s.heap j.order with count := x } v as
          (r.head?.map Cell.key) (x - c'.node.volume) := by
        rw [hcount]
        exact ⟨hpassed, hqueued.count, hleft, hended⟩
      refine ⟨c', as, rfl, rfl, ?_, ?_, hdone, hcross, hgoing⟩
      · show Pend.fill (execHeap s.heap j.order it j.order) k' = _
        rw [hnew]
      · show k' ≤ (c.node.orders.map heap').length
        rw [List.length_map, hlen]
        exact hbound
  · intro cells nxt hb
    rw [hself, hheap]
    show Booking _ (execHeap s.heap j.order it j.order) v cells
    rw [hnew]
    exact hb
  · apply account_busy
    · rw [hself, hpc]
      rfl
    · rw [hself]
    · rw [hself]
    · have hdue : due t (V.set j.book j.side.opp (l ++ [c'] ++ (as ++ r)) j.book j.side) =
          due t (V j.book j.side) := by
        rw [View.set_of_ne _ _ fun h => Side.ne_opp _ h.2]
      have hset : settled (as ++ r) = (run as (settled r)).1 := by
        rw [settled, run_append]
        rfl
      have hrunall : (run (c :: as) (settled r)).2 =
          (some t, execLine s.heap j.order it) :: (run (c' :: as) (settled r)).2 := by
        rw [run, run, ← hset, hact, ← hc]
        rfl
      have hself' : (s'.thread t).out = (s.thread t).out := by rw [hself]
      have hV₂ : V.set j.book j.side.opp (l ++ [c'] ++ (as ++ r)) j.book j.side.opp =
          l ++ c' :: as ++ r := by
        rw [View.set_self]
        simp
      rw [promise_opp hV hrest (fun d hd hne => absurd (hcells d hd) hne) (by rw [hpc]; rfl),
        promise_opp hV₂ hrest ?_ (by rw [hself]; rfl), hrunall, hdue,
        hself', hself, hpc]
      · simp [Pc.lines]
      · intro d hd hne
        rcases List.mem_cons.mp hd with rfl | hd
        · exact absurd hc hne
        · exact absurd (hcells d (List.mem_cons_of_mem _ hd)) hne

/-- A visit of one node. -/
theorem Inv.matchNode (h : Inv s V) {a : Addr} {its : List OrderPtr} {k : ℕ}
    (hpc : (s.thread t).pc = .matchNode j v a its k) (hs : s.step t = some s') :
    ∃ V', Inv s' V' ∧ Quiet s s' V V' := by
  rw [Sys.step, hpc] at hs
  cases its with
  | nil => exact h.matchLeave hpc (Or.inr rfl) rfl (Option.some.inj hs).symm
  | cons it its =>
    dsimp only at hs
    split at hs
    next hz => exact h.matchLeave hpc (Or.inl hz) rfl (Option.some.inj hs).symm
    next hz => exact h.matchExec hpc hz rfl rfl (Option.some.inj hs).symm

end MatchingEngine.Cpp
