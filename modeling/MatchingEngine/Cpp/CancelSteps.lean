import MatchingEngine.Cpp.AddSteps

/-!
# Cancelling an order

`processCancelOrder` from the head on.  Its effect is pending where it will look next; it takes
place when the order leaves its vector.
-/

set_option linter.unusedSectionVars false

namespace MatchingEngine.Cpp

open LockChain PriceTime

variable {I T : Type} [DecidableEq I] [DecidableEq T] {s s' : Sys ℕ I T} {V V' : View I T} {t : T}
  {j : Job I} {pc pc' : Pc ℕ I} {i : I} {sd : Side} {l m m' r : List (Cell I T)} {c d : Cell I T}

section Levels

variable {orderId price : UInt32} {lv : Level ℕ I} {rest : List (Level ℕ I)}

theorem cancelLevels_on (h : lv.price ≠ price) :
    cancelLevels orderId price (lv :: rest) =
      (lv :: (cancelLevels orderId price rest).1, (cancelLevels orderId price rest).2) := by
  rw [cancelLevels, if_pos h]

theorem cancelLevels_missed (h : lv.price = price)
    (hany : lv.orders.any (fun r => decide (r.orderId = orderId)) = false) :
    cancelLevels orderId price (lv :: rest) = (lv :: rest, false) := by
  rw [cancelLevels, if_neg (not_not.mpr h), if_neg (by rw [hany]; decide)]

theorem cancelLevels_found (h : lv.price = price)
    (hany : lv.orders.any (fun r => decide (r.orderId = orderId)) = true) :
    cancelLevels orderId price (lv :: rest) =
      ({ lv with orders := lv.orders.eraseP fun r => decide (r.orderId = orderId) } :: rest,
        true) := by
  rw [cancelLevels, if_neg (not_not.mpr h), if_pos hany]

end Levels

/-- `if (curr != nullptr) curr->m.lock()` behind the head. -/
theorem Inv.lockFirst (h : Inv s V) (hpc : (s.thread t).pc = .lockFirst j)
    (hs : s.step t = some s') : ∃ V', Inv s' V' ∧ Quiet s s' V V' := by
  rw [Sys.step, hpc] at hs
  dsimp only at hs
  rcases h.own hpc rfl with ⟨l, cells, r, hV, hcells, hrest, ⟨c, rfl, hc0, hpend, -⟩⟩
  have hV' : V j.book j.side = l ++ c :: r := by rw [hV]; simp
  have hc : c.owner = some t := hcells c (by simp)
  have hsh := h.shows j.book j.side
  rw [hV'] at hsh
  have hpop : c.pend.numPopback = 0 := by
    rw [hpend]
    rfl
  have hnext : (s.node j.book j.side 0).next = (r.head?.map Cell.key).map Prod.fst := by
    have hn := hsh.next_eq
    rwa [hc0] at hn
  rw [hnext] at hs
  cases r with
  | nil =>
    cases Option.some.inj hs
    apply h.own_retag hpc (.unlockHead j none) rfl rfl rfl (Or.inl rfl) rfl hV' hc hrest .none hpop rfl
    · rw [hpend]
      rfl
    · rw [hpend]
      rfl
    · exact ⟨_, rfl, hc0, rfl, trivial⟩
    · exact h.opp hpc rfl
    · exact fun _ => rfl
  | cons d r =>
    apply h.own_lock hpc hs rfl rfl rfl (Or.inl rfl) rfl rfl hV' hc hrest .none
      (s.heap j.order).cancel hpop rfl rfl
    · rw [hpend]
      rfl
    · rw [hpend]
      rfl
    · exact fun _ _ => ⟨_, _, rfl, hc0, rfl, rfl, rfl, trivial⟩
    · exact h.opp hpc rfl
    · exact fun _ => rfl

/-- The only locked node is unlocked; the thread goes on empty-handed. -/
theorem Inv.unlockOnly (h : Inv s V) (hpc : (s.thread t).pc = pc)
    (hs : s' = s.unlock t j.book j.side c.addr pc')
    (hj : pc.job = some j) (hj' : pc'.job = some j) (hbl : pc'.bookLocked = pc.bookLocked)
    (hfl : pc'.inFlight = pc.inFlight ∨ pc'.inFlight = none) (hent : pc'.entered = pc.entered)
    (hlines : pc'.lines s.heap = pc.lines s.heap)
    (hV : V j.book j.side = l ++ [c] ++ r) (hc : c.owner = some t)
    (hrest : ∀ e ∈ l ++ r, e.owner ≠ some t) (hpend : c.pend = .none)
    (hown : ∀ nxt, pc'.ownBlock (s.heap j.order) ([] : List (Cell I T)) nxt)
    (hopp : ∀ (cells : List (Cell I T)) nxt, pc.oppBlock (s.heap j.order) cells nxt j.side.opp →
      pc'.oppBlock (s.heap j.order) cells nxt j.side.opp) :
    ∃ V', Inv s' V' ∧ Quiet s s' V V' := by
  have hV' : V j.book j.side = l ++ c :: r := by rw [hV]; simp
  have hsh := h.shows j.book j.side
  rw [hV'] at hsh
  rw [Sys.unlock_eq hsh hc] at hs
  apply h.own_relock hpc hj hV' hpend (Or.inl hc) (Or.inr rfl) hs hj' hbl hfl hent hlines _ hopp
  refine ⟨l ++ { c with owner := none } :: r, [], [], by simp, by simp, ?_, hown _⟩
  intro e he
  simp only [List.append_nil, List.mem_append, List.mem_cons] at he
  rcases he with he | rfl | he
  · exact hrest e (by simp [he])
  · rintro ⟨⟩
  · exact hrest e (by simp [he])

/-- `head->m.unlock()`. -/
theorem Inv.unlockHead (h : Inv s V) {curr : Option Addr}
    (hpc : (s.thread t).pc = .unlockHead j curr) (hs : s.step t = some s') :
    ∃ V', Inv s' V' ∧ Quiet s s' V V' := by
  rw [Sys.step, hpc] at hs
  cases curr with
  | none =>
    rcases h.own hpc rfl with ⟨l, cells, r, hV, hcells, hrest, ⟨c, rfl, hc0, hpend, -⟩⟩
    rw [← hc0] at hs
    exact h.unlockOnly hpc (Option.some.inj hs).symm rfl rfl rfl (Or.inl rfl) rfl rfl hV
      (hcells c (by simp)) hrest hpend (fun _ => rfl) fun _ _ hb => hb
  | some a =>
    rcases h.own hpc rfl with ⟨l, cells, r, hV, hcells, hrest, ⟨c, d, rfl, hc0, rfl, hpc', hpd, -⟩⟩
    rw [← hc0] at hs
    apply h.unlockFirst hpc (Option.some.inj hs).symm rfl rfl rfl (Or.inl rfl) rfl rfl hV
      (hcells c (by simp)) (hcells d (by simp)) hrest hpc'
    · exact ⟨d, rfl, rfl, hpd, trivial⟩
    · exact fun _ _ hb => hb

/-- `curr->m.unlock(); curr = next`. -/
theorem Inv.cancelOn (h : Inv s V) {curr next : Addr} (hpc : (s.thread t).pc = .cancelOn j curr next)
    (hs : s.step t = some s') : ∃ V', Inv s' V' ∧ Quiet s s' V V' := by
  rw [Sys.step, hpc] at hs
  rcases h.own hpc rfl with ⟨l, cells, r, hV, hcells, hrest, ⟨c, d, rfl, rfl, rfl, hpc', hpd, -⟩⟩
  apply h.unlockFirst hpc (Option.some.inj hs).symm rfl rfl rfl (Or.inl rfl) rfl rfl hV
    (hcells c (by simp)) (hcells d (by simp)) hrest hpc'
  · exact ⟨d, rfl, rfl, hpd, trivial⟩
  · exact fun _ _ hb => hb

theorem Inv.cancelEnd (h : Inv s V) {curr : Addr} (hpc : (s.thread t).pc = .cancelEnd j curr)
    (hs : s.step t = some s') : ∃ V', Inv s' V' ∧ Quiet s s' V V' := by
  rw [Sys.step, hpc] at hs
  rcases h.own hpc rfl with ⟨l, cells, r, hV, hcells, hrest, ⟨c, rfl, rfl, hpend, -⟩⟩
  exact h.unlockOnly hpc (Option.some.inj hs).symm rfl rfl rfl (Or.inl rfl) rfl rfl hV
    (hcells c (by simp)) hrest hpend (fun _ => rfl) fun _ _ hb => hb

theorem Inv.cancelMissed (h : Inv s V) {curr : Addr} (hpc : (s.thread t).pc = .cancelMissed j curr)
    (hs : s.step t = some s') : ∃ V', Inv s' V' ∧ Quiet s s' V V' := by
  rw [Sys.step, hpc] at hs
  rcases h.own hpc rfl with ⟨l, cells, r, hV, hcells, hrest, ⟨c, rfl, rfl, hpend, -⟩⟩
  exact h.unlockOnly hpc (Option.some.inj hs).symm rfl rfl rfl (Or.inl rfl) rfl rfl hV
    (hcells c (by simp)) hrest hpend (fun _ => rfl) fun _ _ hb => hb

theorem Inv.printRejected (h : Inv s V) (hpc : (s.thread t).pc = .printRejected j)
    (hs : s.step t = some s') : ∃ V', Inv s' V' ∧ Quiet s s' V V' := by
  rw [Sys.step, hpc] at hs
  let line : Line ℕ I := deletedLine false (s.heap j.order)
  have hs' : s' = (s.print t line).finish t := (Option.some.inj hs).symm
  have hprint : (s.print t line).thread t =
      { s.thread t with out := (s.thread t).out ++ [line] } := Function.update_self ..
  have hself : (s'.thread t).pc = .ready ∧ (s'.thread t).cmds = (s.thread t).cmds.tail := by
    rw [hs', Sys.finish_self, hprint]
    exact ⟨rfl, rfl⟩
  have hnil : ∀ i sd, Holds Cell.owner Cell.key t (V i sd) fun cells _ => cells = [] := by
    intro i sd
    apply (h.holds t i sd).imp
    intro cells nxt _ hb
    rw [hpc] at hb
    unfold Pc.block at hb
    simpa [Pc.job, Pc.ownBlock, Pc.oppBlock] using hb
  have hl : Light s s' t := hs' ▸ (Light.print s t line).trans (Light.finish _ t)
  refine ⟨V, h.stay hpc hl (fun _ _ => by rw [hs']; rfl) (by rw [hself.1]; rfl) ?_ ?_ ?_⟩
  · apply turn_finish
    · rw [hpc]
      rintro ⟨⟩
    · exact hself.1
    · exact hself.2
  · intro i sd
    rw [hself.1]
    exact hnil i sd
  · rw [hs']
    apply account_finish (by rw [hpc]; rfl) (by rw [hprint]) (by rw [hprint])
    unfold promise
    rw [hprint, hpc]
    dsimp only [Pc.job]
    rw [due_of_nil (hnil _ _), due_of_nil (hnil _ _)]
    simp [Pc.lines, line]

theorem Inv.printAccepted (h : Inv s V) {curr : Addr}
    (hpc : (s.thread t).pc = .printAccepted j curr) (hs : s.step t = some s') :
    ∃ V', Inv s' V' ∧ Quiet s s' V V' := by
  rw [Sys.step, hpc] at hs
  cases Option.some.inj hs
  exact h.stay_print hpc (.cancelUnlock j curr) _ rfl rfl rfl (Or.inl rfl) rfl rfl
    (fun _ _ hb => hb) fun _ _ hb => hb

theorem Inv.cancelUnlock (h : Inv s V) {curr : Addr} (hpc : (s.thread t).pc = .cancelUnlock j curr)
    (hs : s.step t = some s') : ∃ V', Inv s' V' ∧ Quiet s s' V V' := by
  rw [Sys.step, hpc] at hs
  rcases h.own hpc rfl with ⟨l, cells, r, hV, hcells, hrest, ⟨c, rfl, rfl, hpend, -⟩⟩
  exact h.unlock_finish hpc rfl rfl rfl rfl hV (hcells c (by simp)) hrest hpend
    (fun _ _ hb => hb) (Option.some.inj hs).symm

/-! ## At one node -/

theorem total_eraseP {rs : List (Order ℕ I)} {f : Order ℕ I → Bool} {n : ℕ}
    (hany : rs.any f = true) (hn : ∀ r ∈ rs, f r = true → r.count = n) :
    total (rs.eraseP f) = total rs - n := by
  induction rs with
  | nil => cases hany
  | cons r rs ih =>
    by_cases hr : f r = true
    · have hcount := hn r List.mem_cons_self hr
      rw [List.eraseP_cons_of_pos hr]
      simp only [total, List.map_cons, List.sum_cons]
      omega
    · have hrs : rs.any f = true := by simpa [hr] using hany
      have hle : n ≤ total rs := by
        rcases List.any_eq_true.mp hrs with ⟨r', hr', hf⟩
        rw [← hn r' (List.mem_cons_of_mem _ hr') hf]
        exact List.single_le_sum (fun _ _ => Nat.zero_le _) _ (List.mem_map_of_mem hr')
      rw [List.eraseP_cons_of_neg hr]
      have := ih hrs fun r' hr' => hn r' (List.mem_cons_of_mem _ hr')
      simp only [total, List.map_cons, List.sum_cons] at this hle ⊢
      omega

/-- The order leaves its vector. -/
theorem Inv.cancelAccept (h : Inv s V) (hpc : (s.thread t).pc = .cancelTest j (some c.addr))
    (hV : V j.book j.side = l ++ [c] ++ r) (hc : c.owner = some t)
    (hrest : ∀ e ∈ l ++ r, e.owner ≠ some t) (hpend : c.pend = (s.heap j.order).cancel)
    (hprice : c.node.price = (s.heap j.order).price)
    (hany : c.node.orders.any (s.sameId j.order) = true)
    {n : Node ℕ T} (hn : n = s.node j.book j.side c.addr)
    (hs : s' = ({ s.setNode j.book j.side c.addr
        { n with
          volume := n.volume - (s.heap j.order).count
          orders := n.orders.eraseP (s.sameId j.order) } with
        orders := s.orders.remove (s.heap j.order).orderId } : Sys ℕ I T).goto t
          (.printAccepted j c.addr)) :
    ∃ V', Inv s' V' ∧ Quiet s s' V V' := by
  have hV' : V j.book j.side = l ++ c :: r := by rw [hV]; simp
  have hsh := h.shows j.book j.side
  rw [hV'] at hsh
  let o := s.heap j.order
  let f : Order ℕ I → Bool := fun r => decide (r.orderId = o.orderId)
  let c' : Cell I T :=
    { c with
      node := { c.node with
        volume := c.node.volume - o.count, orders := c.node.orders.eraseP (s.sameId j.order) }
      orders := c.orders.eraseP f, pend := .none }
  have hnode : n.toOrderNode = c.node := hn ▸ hsh.node c (by simp)
  have horders : c.node.orders.map s.heap = c.orders := hsh.orders c (by simp)
  have hsame : s.sameId j.order = f ∘ s.heap := rfl
  have hany' : c.orders.any f = true := by
    rw [← horders, List.any_map, ← hsame]
    exact hany
  -- ids are not shared, so what is found is the order itself
  have hcount : ∀ x ∈ c.orders, f x = true → x.count = o.count := by
    intro x hx hfx
    rw [← horders] at hx
    rcases List.mem_map.mp hx with ⟨p, hp, rfl⟩
    have hp' := h.objs.place j.book j.side p (mem_ptrs.mpr ⟨c, by simp [hV'], hp⟩)
    have href := h.objs.ref t j.order (by rw [hpc]; rfl)
    rw [h.objs.ids p j.order hp'.1 href (of_decide_eq_true hfx)]
  have hself : s'.thread t = { s.thread t with pc := .printAccepted j c.addr } := by
    rw [hs]
    exact Function.update_self ..
  have hother : ∀ u, u ≠ t → s'.thread u = s.thread u := by
    intro u hu
    rw [hs]
    exact Function.update_of_ne hu ..
  have hheap : s'.heap = s.heap := by rw [hs]; rfl
  have hchain : ∀ i sd, s'.chain i sd = (s.setNode j.book j.side c.addr
      { n with
        volume := n.volume - o.count, orders := n.orders.eraseP (s.sameId j.order) }).chain i sd := by
    intro i sd
    rw [hs]
    rfl
  have hact : act c.pend c.level (settled r) = ({ c.level with orders := c.orders.eraseP f } :: settled r,
      [deletedLine true o]) := by
    rw [hpend]
    dsimp only [act, Order.cancel]
    rw [cancelLevels_found hprice hany']
    rfl
  have hrun : run [c] (settled r) = ({ c.level with orders := c.orders.eraseP f } :: settled r,
      [(some t, deletedLine true o)]) := by
    simp only [run, hc, List.append_nil]
    rw [hact]
    rfl
  have hrun' : run [c'] (settled r) =
      ({ c.level with orders := c.orders.eraseP f } :: settled r, []) := rfl
  have hon : OnStretch s s' t j.book j.side l [c] [c'] r := by
    refine ⟨hother, fun p => by rw [hheap], ?_, ?_, ?_, ?_, ?_, ?_, ?_, ?_, rfl, ?_, ?_, ?_⟩
    · rw [hs]
      exact h.fault
    · intro i
      rw [hs]
      exact s.getBook_setChain_m j.book i j.side _
    · rw [hself, hpc]
      rfl
    · intro i sd hne
      rw [hchain, Sys.chain_setNode, if_neg hne]
    · intro p _ _
      rw [hheap]
    · rw [hheap, hchain, Sys.chain_setNode, if_pos ⟨rfl, rfl⟩, ← List.append_cons]
      apply hsh.setNode c' rfl
      · show ({ n.toOrderNode with
          volume := n.toOrderNode.volume - o.count
          orders := n.toOrderNode.orders.eraseP (s.sameId j.order) } : OrderNode ℕ) = c'.node
        rw [hnode]
      · rw [hn]
        exact hsh.mutex c (by simp)
      · rw [hn]
        rfl
      · show (c.node.orders.eraseP (s.sameId j.order)).map s.heap = c.orders.eraseP f
        rw [← horders, List.eraseP_map, hsame]
      · exact fun _ _ => rfl
    · simpa using Or.inl hc
    · simpa [c'] using Or.inl hc
    · intro e he
      exact ⟨c', by simp, by rw [List.mem_singleton.mp he]; rfl⟩
    · intro e he
      rw [List.mem_singleton.mp he]
      have hvol := h.volume j.book j.side c (by simp [hV'])
      rw [hpend, show (o.cancel : Pend I).numPopback = 0 from rfl, Nat.sub_zero,
        List.take_length] at hvol
      show c.node.volume - o.count = total (List.take ((c.orders.eraseP f).length - 0) _)
      rw [Nat.sub_zero, List.take_length, total_eraseP hany' hcount, hvol]
    · rw [hrun, hrun']
  apply h.own_step hpc rfl (by rw [hself]; rfl) hV hon
  · have hf : Frame s s' t := by
      refine ⟨hother, by rw [hs]; rfl, fun p => by rw [hheap], ?_, ?_⟩
      · intro i hi
        rw [hs]
        exact s.orderBooks_setChain j.book i j.side _ hi
      · intro id p hp
        rw [hs] at hp
        have hp' : HashMap.remove s.orders o.orderId id = some p := hp
        unfold HashMap.remove at hp'
        by_cases hid : id = o.orderId
        · rw [hid, Function.update_self] at hp'
          cases hp'
        · rwa [Function.update_of_ne hid] at hp'
    apply h.objs.move hf
    · exact h.turn hpc rfl (by rw [hself]; rfl) (by rw [hself]; exact Or.inl rfl) (by rw [hself])
    · intro i sd
      by_cases hi : i = j.book ∧ sd = j.side
      · rcases hi with ⟨rfl, rfl⟩
        rw [View.set_self, hV]
        simp only [ptrs_append]
        apply List.Sublist.append _ (List.Sublist.refl _)
        apply List.Sublist.append (List.Sublist.refl _)
        simp only [ptrs_cons]
        apply List.Sublist.append _ (List.Sublist.refl _)
        exact List.eraseP_sublist
      · rw [View.set_of_ne _ _ hi]
  · refine ⟨l, _, r, rfl, by simp [c', hc], hrest, ?_⟩
    rw [hself]
    exact ⟨c', rfl, rfl, rfl, trivial⟩
  · have hopp := h.opp hpc rfl
    rw [hself, hheap]
    exact hopp
  · apply Inv.account_own hpc rfl (by rw [hself]; rfl) (by rw [hself]; rfl) (by rw [hself])
      (by rw [hself]) hV hrest
    · simp [hc]
    · simp [c']
    · exact due_of_nil (h.opp hpc rfl)
    · rw [hself, hheap, hrun, hrun']
      simp only [Pc.lines, List.map_cons, List.map_nil, List.append_nil]
      rfl

theorem Inv.cancelTest (h : Inv s V) {curr : Option Addr}
    (hpc : (s.thread t).pc = .cancelTest j curr) (hs : s.step t = some s') :
    ∃ V', Inv s' V' ∧ Quiet s s' V V' := by
  rw [Sys.step.eq_def, hpc] at hs
  cases curr with
  | none =>
    cases Option.some.inj hs
    exact h.stay_job hpc (.printRejected j) rfl rfl rfl (Or.inl rfl) rfl rfl (fun _ _ hb => hb)
      fun _ _ hb => hb
  | some a =>
    dsimp only at hs
    rcases h.own hpc rfl with ⟨l, cells, r, hV, hcells, hrest, ⟨c, rfl, rfl, hpend, -⟩⟩
    have hV' : V j.book j.side = l ++ c :: r := by rw [hV]; simp
    have hc : c.owner = some t := hcells c (by simp)
    have hsh := h.shows j.book j.side
    rw [hV'] at hsh
    have hnode : (s.node j.book j.side c.addr).toOrderNode = c.node := hsh.node c (by simp)
    have horders : c.node.orders.map s.heap = c.orders := hsh.orders c (by simp)
    have hpop : c.pend.numPopback = 0 := by
      rw [hpend]
      rfl
    split at hs
    next hne =>
      have hne' : c.level.price ≠ (s.heap j.order).price := by
        rw [hnode] at hne
        exact hne
      rw [show (s.node j.book j.side c.addr).next = _ from hsh.next_eq] at hs
      cases r with
      | nil =>
        cases Option.some.inj hs
        apply h.own_retag hpc (.cancelEnd j c.addr) rfl rfl rfl (Or.inl rfl) rfl hV' hc hrest .none
          hpop rfl
        · rw [hpend]
          dsimp only [act, Order.cancel]
          rw [cancelLevels_on hne']
          rfl
        · rw [hpend]
          dsimp only [act, Order.cancel]
          rw [cancelLevels_on hne']
          rfl
        · exact ⟨_, rfl, rfl, rfl, trivial⟩
        · exact h.opp hpc rfl
        · exact fun _ => rfl
      | cons d r =>
        apply h.own_lock hpc hs rfl rfl rfl (Or.inl rfl) rfl rfl hV' hc hrest .none
          (s.heap j.order).cancel hpop rfl rfl
        · rw [hpend]
          dsimp only [act, Order.cancel]
          rw [cancelLevels_on hne']
        · rw [hpend]
          dsimp only [act, Order.cancel]
          rw [cancelLevels_on hne']
          rfl
        · exact fun _ _ => ⟨_, _, rfl, rfl, rfl, rfl, rfl, trivial⟩
        · exact h.opp hpc rfl
        · exact fun _ => rfl
    next heq =>
      have heq' : c.node.price = (s.heap j.order).price := by
        rw [← hnode]
        exact not_not.mp heq
      split at hs
      next hany =>
        rw [hnode] at hany
        exact h.cancelAccept hpc hV hc hrest hpend heq' hany rfl (Option.some.inj hs).symm
      next hany =>
        cases Option.some.inj hs
        have hmissed : c.level.orders.any
            (fun r => decide (r.orderId = (s.heap j.order).orderId)) = false := by
          rw [hnode, Bool.not_eq_true] at hany
          show c.orders.any _ = false
          rw [← horders, List.any_map]
          exact hany
        apply h.own_retag hpc (.cancelMissed j c.addr) rfl rfl rfl (Or.inl rfl) rfl hV' hc hrest
          .none hpop rfl
        · rw [hpend]
          dsimp only [act, Order.cancel]
          rw [cancelLevels_missed heq' hmissed]
        · rw [hpend]
          dsimp only [act, Order.cancel]
          rw [cancelLevels_missed heq' hmissed]
          rfl
        · exact ⟨_, rfl, rfl, rfl, trivial⟩
        · exact h.opp hpc rfl
        · exact fun _ => rfl

end MatchingEngine.Cpp
