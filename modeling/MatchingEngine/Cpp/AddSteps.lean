import MatchingEngine.Cpp.Moves

/-!
# Booking an order

`add` walks the chain of its own side hand over hand.  What is left of its work moves along: from
the node it holds to the next one, until the order is in the vector and its line printed.
-/

set_option linter.unusedSectionVars false

namespace MatchingEngine.Cpp

open LockChain PriceTime

variable {I T : Type} [DecidableEq I] [DecidableEq T] {s s' : Sys ℕ I T} {V V' : View I T} {t : T}
  {j : Job I} {pc pc' : Pc ℕ I} {i : I} {sd : Side} {l m m' r : List (Cell I T)} {c d : Cell I T}
  {p q : Pend I}

/-- The account of a thread that works on the chain of its own side only. -/
theorem Inv.account_own (hpc : (s.thread t).pc = pc) (hj : pc.job = some j)
    (hj' : (s'.thread t).pc.job = some j)
    (hent : (s'.thread t).pc.entered = pc.entered)
    (hcmds : (s'.thread t).cmds = (s.thread t).cmds)
    (hhist : (s'.thread t).history = (s.thread t).history)
    (hV : V j.book j.side = l ++ m ++ r) (hrest : ∀ c ∈ l ++ r, c.owner ≠ some t)
    (hidle : ∀ c ∈ m, c.owner ≠ some t → c.pend = .none)
    (hidle' : ∀ c ∈ m', c.owner ≠ some t → c.pend = .none)
    (hopp : due t (V j.book j.side.opp) = [])
    (hlines : (s'.thread t).out ++ (s'.thread t).pc.lines s'.heap ++
        (run m' (settled r)).2.map Prod.snd =
      (s.thread t).out ++ pc.lines s.heap ++ (run m (settled r)).2.map Prod.snd) :
    account s' (V.set j.book j.side (l ++ m' ++ r)) t = account s V t := by
  apply account_busy (by rw [hpc]; exact hent) hcmds hhist
  have hopp' : due t ((V.set j.book j.side (l ++ m' ++ r)) j.book j.side.opp) = [] := by
    rw [View.set_of_ne _ _ fun h => Side.opp_ne _ h.2]
    exact hopp
  rw [promise_own (View.set_self ..) hrest hidle' hopp' hj',
    promise_own hV hrest hidle hopp (by rw [hpc]; exact hj), hlines, hpc]

/-- A thread goes on and what is pending at one of its nodes changes its form. -/
theorem Inv.own_retag (h : Inv s V) (hpc : (s.thread t).pc = pc) (pc' : Pc ℕ I)
    (hj : pc.job = some j) (hj' : pc'.job = some j) (hbl : pc'.bookLocked = pc.bookLocked)
    (hfl : pc'.inFlight = pc.inFlight ∨ pc'.inFlight = none) (hent : pc'.entered = pc.entered)
    (hV : V j.book j.side = l ++ c :: r) (hc : c.owner = some t)
    (hrest : ∀ d ∈ l ++ r, d.owner ≠ some t) (p : Pend I)
    (hpop : c.pend.numPopback = 0) (hpop' : p.numPopback = 0)
    (hact : (act p c.level (settled r)).1 = (act c.pend c.level (settled r)).1)
    (hlines : pc'.lines s.heap ++ (act p c.level (settled r)).2 =
      pc.lines s.heap ++ (act c.pend c.level (settled r)).2)
    (hown : pc'.ownBlock (s.heap j.order) [{ c with pend := p }] (r.head?.map Cell.key))
    (hnil : Holds Cell.owner Cell.key t (V j.book j.side.opp) fun cells _ => cells = [])
    (hopp' : ∀ nxt, pc'.oppBlock (s.heap j.order) ([] : List (Cell I T)) nxt j.side.opp) :
    ∃ V', Inv (s.goto t pc') V' ∧ Quiet s (s.goto t pc') V V' := by
  have hself : (s.goto t pc').thread t = { s.thread t with pc := pc' } := Function.update_self ..
  have hV' : V j.book j.side = l ++ [c] ++ r := by rw [hV, List.append_cons]
  have hrun : ∀ (x : Pend I), run [{ c with pend := x }] (settled r) =
      ((act x c.level (settled r)).1, (act x c.level (settled r)).2.map fun line => (c.owner, line)) := by
    intro x
    simp only [run, List.append_nil]
    rfl
  have hl := Light.goto s t pc'
  have hs : OnStretch s (s.goto t pc') t j.book j.side l [c] [{ c with pend := p }] r := by
    apply hl.onStretch h hV'
    · rw [hself, hpc]
      exact hbl
    · exact fun _ _ _ => rfl
    · apply (h.shows j.book j.side).retag
      rw [hV']
      simp [Shows.phys]
    · rfl
    · simpa using hpop
    · simpa using hpop'
    · simpa using Or.inl hc
    · simpa using Or.inl hc
    · rw [hrun, hact]
      have := hrun c.pend
      exact (congrArg Prod.fst this).symm
  apply h.own_step hpc hj (by rw [hself]; exact hj') hV' hs
  · apply h.objs_job hpc hj hl (by rw [hself]; exact hj') (by rw [hself]; exact hfl) (by rw [hself])
    rw [hV', ptrs_of_base (show _ = (l ++ [c] ++ r).map Cell.base by simp [Cell.base])]
  · refine ⟨l, _, r, rfl, by simpa using hc, hrest, ?_⟩
    rw [hself]
    exact hown
  · apply hnil.imp
    rintro cells nxt - rfl
    rw [hself]
    exact hopp' nxt
  · apply Inv.account_own hpc hj (by rw [hself]; exact hj') (by rw [hself]; exact hent)
      (by rw [hself]) (by rw [hself]) hV' hrest
    · simpa using fun h => absurd hc h
    · simpa using fun h => absurd hc h
    · exact due_of_nil hnil
    · have hc' : run [c] (settled r) = _ := hrun c.pend
      rw [hself, hrun, hc', List.map_map, List.map_map, List.append_assoc, List.append_assoc]
      show _ ++ (pc'.lines s.heap ++ List.map id _) = _ ++ (pc.lines s.heap ++ List.map id _)
      rw [List.map_id, List.map_id, hlines]

/-- `next->m.lock()`: what is pending moves to where it will be done. -/
theorem Inv.own_lock (h : Inv s V) (hpc : (s.thread t).pc = pc)
    (hs : s.lock t j.book j.side d.addr pc' = some s')
    (hj : pc.job = some j) (hj' : pc'.job = some j) (hbl : pc'.bookLocked = pc.bookLocked)
    (hfl : pc'.inFlight = pc.inFlight ∨ pc'.inFlight = none) (hent : pc'.entered = pc.entered)
    (hline : pc'.lines s.heap = pc.lines s.heap)
    (hV : V j.book j.side = l ++ c :: d :: r) (hc : c.owner = some t)
    (hrest : ∀ e ∈ l ++ d :: r, e.owner ≠ some t) (p q : Pend I)
    (hpop : c.pend.numPopback = 0) (hpopp : p.numPopback = 0) (hpopq : q.numPopback = 0)
    (hlevels : (act p c.level (act q d.level (settled r)).1).1 =
      (act c.pend c.level (d.level :: settled r)).1)
    (hlines : (act p c.level (act q d.level (settled r)).1).2 ++ (act q d.level (settled r)).2 =
      (act c.pend c.level (d.level :: settled r)).2)
    (hown : ∀ x : Option T, d.pend = .none → pc'.ownBlock (s.heap j.order)
      [{ c with pend := p }, { d with owner := x, pend := q }] (r.head?.map Cell.key))
    (hnil : Holds Cell.owner Cell.key t (V j.book j.side.opp) fun cells _ => cells = [])
    (hopp' : ∀ nxt, pc'.oppBlock (s.heap j.order) ([] : List (Cell I T)) nxt j.side.opp) :
    ∃ V', Inv s' V' ∧ Quiet s s' V V' := by
  have hsh := h.shows j.book j.side
  have hV₁ : V j.book j.side = (l ++ [c]) ++ d :: r := by rw [hV]; simp
  rw [hV₁] at hsh
  rcases Sys.lock_cases hs hsh (hrest d (by simp)) with ⟨hfree, hs'⟩
  have hpend : d.pend = .none := h.idle j.book j.side d (by simp [hV]) hfree
  have hV' : V j.book j.side = l ++ [c, d] ++ r := by rw [hV]; simp
  have hself : s'.thread t = { s.thread t with pc := pc' } := by
    rw [hs']
    exact Function.update_self ..
  have hl : Light s s' t := hs' ▸ Sys.light_setMutex pc' _ (some t)
  have hheap : s'.heap = s.heap := hl.heap
  have hrun : run [c, d] (settled r) = ((act c.pend c.level (d.level :: settled r)).1,
      (act c.pend c.level (d.level :: settled r)).2.map fun line => (c.owner, line)) := by
    simp only [run, hpend, act, List.map_nil, List.append_nil]
  have hrun' : run [{ c with pend := p }, { d with owner := some t, pend := q }] (settled r) =
      ((act p c.level (act q d.level (settled r)).1).1,
        (act p c.level (act q d.level (settled r)).1).2.map (fun line => (c.owner, line)) ++
          (act q d.level (settled r)).2.map fun line => (some t, line)) := by
    simp only [run, List.append_nil]
    rfl
  have hon : OnStretch s s' t j.book j.side l [c, d]
      [{ c with pend := p }, { d with owner := some t, pend := q }] r := by
    apply hl.onStretch h hV'
    · rw [hself, hpc]
      exact hbl
    · intro i sd hne
      rw [hs']
      exact Sys.chain_setMutex_of_ne hne
    · have hsh' := Sys.shows_setMutex hsh (some t)
      rw [hs']
      apply hsh'.retag
      simp [Shows.phys]
    · rfl
    · intro e he
      simp only [List.mem_cons, List.not_mem_nil, or_false] at he
      rcases he with rfl | rfl
      · exact hpop
      · rw [hpend]
        rfl
    · simp [hpopp, hpopq]
    · simp [hc, hfree]
    · simp [hc]
    · rw [hrun, hrun', hlevels]
  apply h.own_step hpc hj (by rw [hself]; exact hj') hV' hon
  · apply h.objs_job hpc hj hl (by rw [hself]; exact hj') (by rw [hself]; exact hfl) (by rw [hself])
    rw [hV', ptrs_of_base (show _ = (l ++ [c, d] ++ r).map Cell.base by simp [Cell.base])]
  · refine ⟨l, _, r, rfl, by simp [hc], ?_, ?_⟩
    · intro e he
      apply hrest e
      simp only [List.mem_append, List.mem_cons] at he ⊢
      tauto
    · rw [hself, hheap]
      exact hown _ hpend
  · apply hnil.imp
    rintro cells nxt - rfl
    rw [hself, hheap]
    exact hopp' nxt
  · apply Inv.account_own hpc hj (by rw [hself]; exact hj') (by rw [hself]; exact hent)
      (by rw [hself]) (by rw [hself]) hV'
    · intro e he
      apply hrest e
      simp only [List.mem_append, List.mem_cons] at he ⊢
      tauto
    · intro e he hne
      simp only [List.mem_cons, List.not_mem_nil, or_false] at he
      rcases he with rfl | rfl
      · exact absurd hc hne
      · exact hpend
    · simp [hc]
    · exact due_of_nil hnil
    · rw [hself, hheap, hrun, hrun']
      dsimp only
      rw [hline, List.map_append, List.map_map, List.map_map, List.map_map]
      show _ ++ (List.map id _ ++ List.map id _) = _ ++ List.map id _
      rw [List.map_id, List.map_id, List.map_id, hlines]

section Levels

variable {o : Order ℕ I} {lv next : Level ℕ I} {rest : List (Level ℕ I)}

theorem addLevels_break (h : sd.Better o.price next.price) :
    addLevels sd o lv (next :: rest) = placeLevel o lv (next :: rest) := by
  rw [addLevels, if_pos h]

theorem addLevels_found (h : ¬ sd.Better o.price next.price) (he : o.price = next.price) :
    addLevels sd o lv (next :: rest) = (lv, insertLevel o next :: rest) := by
  rw [addLevels, if_neg h, if_pos he]

theorem addLevels_on (h : ¬ sd.Better o.price next.price) (he : o.price ≠ next.price) :
    addLevels sd o lv (next :: rest) =
      (lv, (addLevels sd o next rest).1 :: (addLevels sd o next rest).2) := by
  rw [addLevels, if_neg h, if_neg he]

theorem placeLevel_here (he : o.price = lv.price) :
    placeLevel o lv rest = (insertLevel o lv, rest) := by
  rw [placeLevel, if_neg (not_not.mpr he)]

theorem placeLevel_new (he : o.price ≠ lv.price) :
    placeLevel o lv rest = (lv, insertLevel o { price := o.price, orders := [] } :: rest) := by
  rw [placeLevel, if_pos he]

end Levels

theorem Inv.addWalk (h : Inv s V) {curr : Addr} {next : Option Addr}
    (hpc : (s.thread t).pc = .addWalk j curr next) (hs : s.step t = some s') :
    ∃ V', Inv s' V' ∧ Quiet s s' V V' := by
  rw [Sys.step.eq_def, hpc] at hs
  rcases h.own hpc rfl with ⟨l, cells, r, hV, hcells, hrest, ⟨c, rfl, rfl, hpend, hbehind⟩, hnxt⟩
  have hV' : V j.book j.side = l ++ c :: r := by rw [hV]; simp
  have hc : c.owner = some t := hcells c (by simp)
  cases next with
  | none =>
    cases Option.some.inj hs
    cases r with
    | cons d r => cases hnxt
    | nil =>
      apply h.own_retag hpc (.addPlace j c.addr) rfl rfl rfl (Or.inl rfl) rfl hV' hc hrest
        (.place j.side (s.heap j.order))
      · rw [hpend]
        rfl
      · rfl
      · rw [hpend]
        rfl
      · rw [hpend]
        rfl
      · exact ⟨_, rfl, rfl, rfl, Or.inr ⟨hbehind, fun _ hn => by cases hn⟩⟩
      · exact h.opp hpc rfl
      · exact fun _ => rfl
  | some a =>
    dsimp only at hs
    cases r with
    | nil => cases hnxt
    | cons d r =>
      have hda : d.addr = a := Option.some.inj hnxt
      subst hda
      have hV₁ : V j.book j.side = l ++ c :: d :: r := by rw [hV]; simp
      have hsh := h.shows j.book j.side
      have hprice : (s.node j.book j.side d.addr).price = d.node.price :=
        congrArg OrderNode.price (hsh.node d (by simp [hV₁]))
      have hpopc : c.pend.numPopback = 0 := by
        rw [hpend]
        rfl
      rw [hprice] at hs
      split at hs
      next hb =>
        -- the order goes between the two nodes
        apply h.own_lock hpc hs rfl rfl rfl (Or.inl rfl) rfl rfl hV₁ hc hrest
          (.place j.side (s.heap j.order)) .none hpopc rfl rfl
        · rw [hpend]
          dsimp only [act]
          rw [addLevels_break (show j.side.Better _ d.level.price from hb)]
        · rw [hpend]
          rfl
        · exact fun _ _ => ⟨_, _, rfl, rfl, rfl, rfl, rfl, hbehind, hb⟩
        · exact h.opp hpc rfl
        · exact fun _ => rfl
      next hb =>
        split at hs
        next he =>
          apply h.own_lock hpc hs rfl rfl rfl (Or.inl rfl) rfl rfl hV₁ hc hrest .none
            (.place j.side (s.heap j.order)) hpopc rfl rfl
          · rw [hpend]
            dsimp only [act]
            rw [addLevels_found (show ¬ j.side.Better _ d.level.price from hb) he,
              placeLevel_here (show _ = d.level.price from he)]
          · rw [hpend]
            rfl
          · exact fun _ _ => ⟨_, _, rfl, rfl, rfl, rfl, rfl, he⟩
          · exact h.opp hpc rfl
          · exact fun _ => rfl
        next he =>
          apply h.own_lock hpc hs rfl rfl rfl (Or.inl rfl) rfl rfl hV₁ hc hrest .none
            (.add j.side (s.heap j.order)) hpopc rfl rfl
          · rw [hpend]
            dsimp only [act]
            rw [addLevels_on (show ¬ j.side.Better _ d.level.price from hb) he]
          · rw [hpend]
            rfl
          · exact fun _ _ => ⟨_, _, rfl, rfl, rfl, rfl, rfl, Side.better_of_not_better hb he⟩
          · exact h.opp hpc rfl
          · exact fun _ => rfl

/-- `next->m.unlock(); break`. -/
theorem Inv.addBreak (h : Inv s V) {curr next : Addr}
    (hpc : (s.thread t).pc = .addBreak j curr next) (hs : s.step t = some s') :
    ∃ V', Inv s' V' ∧ Quiet s s' V V' := by
  rw [Sys.step, hpc] at hs
  dsimp only at hs
  rcases h.own hpc rfl with ⟨l, cells, r, hV, hcells, hrest, ⟨c, d, rfl, rfl, rfl, hpc', hpd, hbehind,
    hb⟩⟩
  have hV' : V j.book j.side = (l ++ [c]) ++ d :: r := by rw [hV]; simp
  have hsh := h.shows j.book j.side
  rw [hV'] at hsh
  have hd : d.owner = some t := hcells d (by simp)
  rw [Sys.unlock_eq hsh hd] at hs
  apply h.own_relock hpc rfl hV' hpd (Or.inl hd) (Or.inr rfl) (Option.some.inj hs).symm rfl rfl
    (Or.inl rfl) rfl rfl
  · refine ⟨l, [c], { d with owner := none } :: r, by simp, ?_, ?_, ?_⟩
    · intro e he
      exact hcells e (by simp at he ⊢; exact Or.inl he)
    · intro e he
      simp only [List.mem_append, List.mem_cons] at he
      rcases he with he | rfl | he
      · exact hrest e (by simp [he])
      · rintro ⟨⟩
      · exact hrest e (by simp [he])
    · refine ⟨c, rfl, rfl, hpc', Or.inr ⟨hbehind, ?_⟩⟩
      intro k hk
      cases hk
      exact hb
  · exact fun _ _ hb => hb

/-- The first of two locked nodes is unlocked. -/
theorem Inv.unlockFirst (h : Inv s V) (hpc : (s.thread t).pc = pc)
    (hs : s' = s.unlock t j.book j.side c.addr pc')
    (hj : pc.job = some j) (hj' : pc'.job = some j) (hbl : pc'.bookLocked = pc.bookLocked)
    (hfl : pc'.inFlight = pc.inFlight ∨ pc'.inFlight = none) (hent : pc'.entered = pc.entered)
    (hlines : pc'.lines s.heap = pc.lines s.heap)
    (hV : V j.book j.side = l ++ [c, d] ++ r) (hc : c.owner = some t) (hd : d.owner = some t)
    (hrest : ∀ e ∈ l ++ r, e.owner ≠ some t) (hpend : c.pend = .none)
    (hown : pc'.ownBlock (s.heap j.order) [d] (r.head?.map Cell.key))
    (hopp : ∀ (cells : List (Cell I T)) nxt, pc.oppBlock (s.heap j.order) cells nxt j.side.opp →
      pc'.oppBlock (s.heap j.order) cells nxt j.side.opp) :
    ∃ V', Inv s' V' ∧ Quiet s s' V V' := by
  have hV' : V j.book j.side = l ++ c :: d :: r := by rw [hV]; simp
  have hsh := h.shows j.book j.side
  rw [hV'] at hsh
  rw [Sys.unlock_eq hsh hc] at hs
  apply h.own_relock hpc hj hV' hpend (Or.inl hc) (Or.inr rfl) hs hj' hbl hfl hent hlines _ hopp
  refine ⟨l ++ [{ c with owner := none }], [d], r, by simp, by simpa using hd, ?_, hown⟩
  intro e he
  simp only [List.mem_append, List.mem_cons, List.not_mem_nil, or_false] at he
  rcases he with (he | rfl) | he
  · exact hrest e (by simp [he])
  · rintro ⟨⟩
  · exact hrest e (by simp [he])

/-- `curr->m.unlock(); curr = next; break`. -/
theorem Inv.addFound (h : Inv s V) {curr next : Addr}
    (hpc : (s.thread t).pc = .addFound j curr next) (hs : s.step t = some s') :
    ∃ V', Inv s' V' ∧ Quiet s s' V V' := by
  rw [Sys.step, hpc] at hs
  rcases h.own hpc rfl with ⟨l, cells, r, hV, hcells, hrest, ⟨c, d, rfl, rfl, rfl, hpc', hpd, he⟩⟩
  apply h.unlockFirst hpc (Option.some.inj hs).symm rfl rfl rfl (Or.inl rfl) rfl rfl hV
    (hcells c (by simp)) (hcells d (by simp)) hrest hpc'
  · exact ⟨d, rfl, rfl, hpd, Or.inl he⟩
  · exact fun _ _ hb => hb

/-- `curr->m.unlock(); curr = next; next = curr->next`. -/
theorem Inv.addOn (h : Inv s V) {curr next : Addr} (hpc : (s.thread t).pc = .addOn j curr next)
    (hs : s.step t = some s') : ∃ V', Inv s' V' ∧ Quiet s s' V V' := by
  rw [Sys.step, hpc] at hs
  rcases h.own hpc rfl with ⟨l, cells, r, hV, hcells, hrest, ⟨c, d, rfl, rfl, rfl, hpc', hpd, he⟩⟩
  have hsh := h.shows j.book j.side
  rw [show V j.book j.side = (l ++ [c]) ++ d :: r by rw [hV]; simp] at hsh
  apply h.unlockFirst hpc (Option.some.inj hs).symm rfl rfl rfl (Or.inl rfl) rfl rfl hV
    (hcells c (by simp)) (hcells d (by simp)) hrest hpc'
  · exact ⟨⟨d, rfl, rfl, hpd, Or.inr he⟩, hsh.next_eq.symm⟩
  · exact fun _ _ hb => hb

/-- `curr->m.unlock()` behind which the new node stands. -/
theorem Inv.addLinked (h : Inv s V) {prev curr : Addr}
    (hpc : (s.thread t).pc = .addLinked j prev curr) (hs : s.step t = some s') :
    ∃ V', Inv s' V' ∧ Quiet s s' V V' := by
  rw [Sys.step, hpc] at hs
  rcases h.own hpc rfl with ⟨l, cells, r, hV, hcells, hrest, ⟨c, d, rfl, rfl, rfl, hpc', hpd, he⟩⟩
  apply h.unlockFirst hpc (Option.some.inj hs).symm rfl rfl rfl (Or.inl rfl) rfl rfl hV
    (hcells c (by simp)) (hcells d (by simp)) hrest hpc'
  · exact ⟨d, rfl, rfl, hpd, he⟩
  · exact fun _ _ hb => hb

/-- A new node behind `curr`, or none if `curr` has the price. -/
theorem Inv.addPlace (h : Inv s V) {curr : Addr} (hpc : (s.thread t).pc = .addPlace j curr)
    (hs : s.step t = some s') : ∃ V', Inv s' V' ∧ Quiet s s' V V' := by
  rw [Sys.step, hpc] at hs
  dsimp only at hs
  rcases h.own hpc rfl with ⟨l, cells, r, hV, hcells, hrest, ⟨c, rfl, rfl, hpend, hplace⟩⟩
  have hV' : V j.book j.side = l ++ c :: r := by rw [hV]; simp
  have hc : c.owner = some t := hcells c (by simp)
  have hsh := h.shows j.book j.side
  rw [hV'] at hsh
  have hprice : ((s.chain j.book j.side).node c.addr).price = c.node.price :=
    congrArg OrderNode.price (hsh.node c (by simp))
  rw [hprice] at hs
  split at hs
  next hne =>
    let o := s.heap j.order
    let d : Cell I T :=
      { addr := (s.chain j.book j.side).nextAddr, owner := some t, node := OrderNode.new o.price,
        orders := [], pend := .insert j.side o }
    let ch : Chain ℕ T :=
      { node := Function.update
          (Function.update (s.chain j.book j.side).node (s.chain j.book j.side).nextAddr
            { OrderNode.new o.price with
              next := ((s.chain j.book j.side).node c.addr).next, m := some t }) c.addr
          { (s.chain j.book j.side).node c.addr with next := some (s.chain j.book j.side).nextAddr }
        nextAddr := (s.chain j.book j.side).nextAddr + 1 }
    have hs' : s' = (s.setChain j.book j.side ch).goto t (.addLinked j c.addr d.addr) :=
      (Option.some.inj hs).symm
    have hself : s'.thread t = { s.thread t with pc := .addLinked j c.addr d.addr } := by
      rw [hs']
      exact Function.update_self ..
    have hl : Light s s' t := by
      rw [hs']
      refine Light.trans ?_ (Light.goto ..)
      exact ⟨fun _ _ => rfl, rfl, rfl, rfl, rfl, fun i => s.getBook_setChain_m j.book i j.side _,
        fun i hi => s.orderBooks_setChain j.book i j.side _ hi⟩
    have hheap : s'.heap = s.heap := hl.heap
    have hchain : ∀ i sd, s'.chain i sd = (s.setChain j.book j.side ch).chain i sd := by
      intro i sd
      rw [hs']
      rfl
    have hrun : run [c] (settled r) =
        ((act c.pend c.level (settled r)).1, (act c.pend c.level (settled r)).2.map fun x => (some t, x)) := by
      simp only [run, List.append_nil, hc]
    have hd : d.level = { price := o.price, orders := [] } := rfl
    have hrun' : run [{ c with pend := .none }, d] (settled r) =
        (c.level :: insertLevel o d.level :: settled r, [(some t, addLine j.side o)]) := rfl
    have hact : act c.pend c.level (settled r) =
        (c.level :: insertLevel o d.level :: settled r, [addLine j.side o]) := by
      rw [hpend]
      dsimp only [act]
      rw [placeLevel_new (show o.price ≠ c.level.price from hne), hd]
    have hon : OnStretch s s' t j.book j.side l [c] [{ c with pend := .none }, d] r := by
      refine ⟨hl.other, hl.frame.header, hl.fault.trans h.fault, hl.bookM, ?_, ?_, ?_, ?_, ?_, ?_, rfl,
        ?_, ?_, ?_⟩
      · rw [hself, hpc]
        rfl
      · intro i sd hne
        rw [hchain, Sys.chain_setChain, if_neg hne]
      · intro p _ _
        rw [hheap]
      · rw [hheap, hchain, Sys.chain_setChain, if_pos ⟨rfl, rfl⟩]
        have hins := hsh.insert (d := d)
          (n := { OrderNode.new o.price with next := ((s.chain j.book j.side).node c.addr).next,
                                             m := some t }) rfl rfl rfl rfl rfl
        exact hins.retag (by simp [Shows.phys])
      · simpa using Or.inl hc
      · simp [hc, d]
      · simp [Cell.key]
      · intro e he
        simp only [List.mem_cons, List.not_mem_nil, or_false] at he
        rcases he with rfl | rfl
        · have hvol := h.volume j.book j.side c (by simp [hV'])
          rw [hpend] at hvol
          exact hvol
        · rfl
      · rw [hrun, hrun', hact]
    apply h.own_step hpc rfl (by rw [hself]; rfl) hV hon
    · apply h.objs_job hpc rfl hl (by rw [hself]; rfl) (by rw [hself]; exact Or.inl rfl)
        (by rw [hself])
      have hptrs : ptrs (l ++ [{ c with pend := .none }, d] ++ r) = ptrs (V j.book j.side) := by
        rw [hV]
        simp [ptrs, d, OrderNode.new]
      rw [hptrs]
    · refine ⟨l, _, r, rfl, by simp [hc, d], hrest, ?_⟩
      rw [hself, hheap]
      exact ⟨_, d, rfl, rfl, rfl, rfl, rfl, rfl⟩
    · have hopp := h.opp hpc rfl
      rw [hself, hheap]
      exact hopp
    · apply Inv.account_own hpc rfl (by rw [hself]; rfl) (by rw [hself]; rfl) (by rw [hself])
        (by rw [hself]) hV hrest
      · simp [hc]
      · simp [d]
      · exact due_of_nil (h.opp hpc rfl)
      · rw [hself, hheap, hrun, hrun', hact]
        rfl
  next he =>
    cases Option.some.inj hs
    have he' : (s.heap j.order).price = c.node.price := not_not.mp he
    apply h.own_retag hpc (.addInsert j c.addr) rfl rfl rfl (Or.inl rfl) rfl hV' hc hrest
      (.insert j.side (s.heap j.order))
    · rw [hpend]
      rfl
    · rfl
    · rw [hpend]
      dsimp only [act]
      rw [placeLevel_here (show _ = c.level.price from he')]
    · rw [hpend]
      rfl
    · exact ⟨_, rfl, rfl, rfl, he'⟩
    · exact h.opp hpc rfl
    · exact fun _ => rfl

/-! ## The vector -/

/-- The order enters the map and the vector of a node. -/
theorem Objs.insert (h : Objs s V) (pc' : Pc ℕ I) (hpc : (s.thread t).pc = pc)
    (hj : pc.job = some j) (hfl : pc.inFlight = some j.order)
    (hpc' : (s'.thread t).pc = pc') (hj' : pc'.job = some j) (hfl' : pc'.inFlight = none)
    (hcmds : (s'.thread t).cmds = (s.thread t).cmds)
    (hother : ∀ u, u ≠ t → s'.thread u = s.thread u) (hheap : s'.heap = s.heap)
    (hnext : s'.nextPtr = s.nextPtr)
    (hbooks : ∀ i, s.orderBooks i ≠ none → s'.orderBooks i ≠ none)
    (hbook : s'.orderBooks j.book ≠ none)
    (horders : s'.orders = s.orders.put (s.heap j.order).orderId j.order)
    (hptrs : (ptrs (V' j.book j.side)).Perm (j.order :: ptrs (V j.book j.side)))
    (helse : ∀ i sd, ¬ (i = j.book ∧ sd = j.side) → V' i sd = V i sd) : Objs s' V' := by
  have hflt : (s.thread t).pc.inFlight = some j.order := by rw [hpc]; exact hfl
  have hjob := h.job t j (by rw [hpc]; exact hj)
  have hlt : j.order < s.nextPtr := by
    apply h.ref t
    rw [hpc, Pc.ref_of_job hj]
  rcases h.flying t j.order hflt with ⟨hout, hall, hunmapped⟩
  have hmem : ∀ i sd p, p ∈ ptrs (V' i sd) →
      (p = j.order ∧ i = j.book ∧ sd = j.side) ∨ p ∈ ptrs (V i sd) := by
    intro i sd p hp
    by_cases hi : i = j.book ∧ sd = j.side
    · rcases hi with ⟨rfl, rfl⟩
      rcases List.mem_cons.mp (hptrs.mem_iff.mp hp) with rfl | hp
      · exact Or.inl ⟨rfl, rfl, rfl⟩
      · exact Or.inr hp
    · rw [helse i sd hi] at hp
      exact Or.inr hp
  have hflu : ∀ u p, (s'.thread u).pc.inFlight = some p → u ≠ t ∧ (s.thread u).pc.inFlight = some p := by
    intro u p hp
    by_cases hu : u = t
    · subst hu
      rw [hpc', hfl'] at hp
      cases hp
    · rw [hother u hu] at hp
      exact ⟨hu, hp⟩
  have htodo : ∀ u, (s'.thread u).todo = (s.thread u).todo := by
    intro u
    by_cases hu : u = t
    · subst hu
      have h1 : (s'.thread u).todo = (s'.thread u).cmds.tail := by
        unfold Thread.todo
        rw [hpc']
        cases pc' <;> first | rfl | cases hj'
      have h2 : (s.thread u).todo = (s.thread u).cmds.tail := by
        unfold Thread.todo
        rw [hpc]
        cases pc <;> first | rfl | cases hj
      rw [h1, h2, hcmds]
    · rw [hother u hu]
  constructor
  · intro i sd
    by_cases hi : i = j.book ∧ sd = j.side
    · rcases hi with ⟨rfl, rfl⟩
      rw [hptrs.nodup_iff]
      exact List.nodup_cons.mpr ⟨hout _ _, h.nodup _ _⟩
    · rw [helse i sd hi]
      exact h.nodup i sd
  · intro i sd p hp
    rw [hnext, hheap]
    rcases hmem i sd p hp with ⟨rfl, rfl, rfl⟩ | hp
    · exact ⟨hlt, hjob⟩
    · exact h.place i sd p hp
  · rw [hnext, hheap]
    exact h.type
  · intro u p hp
    rw [hnext]
    by_cases hu : u = t
    · subst hu
      rw [hpc'] at hp
      rw [Pc.ref_of_job hj'] at hp
      cases hp
      exact hlt
    · rw [hother u hu] at hp
      exact h.ref u p hp
  · intro u j' hj₂
    rw [hheap]
    by_cases hu : u = t
    · subst hu
      rw [hpc', hj'] at hj₂
      cases hj₂
      exact hjob
    · rw [hother u hu] at hj₂
      exact h.job u j' hj₂
  · intro u p hp
    rw [hheap]
    apply hbooks
    by_cases hu : u = t
    · subst hu
      rw [hpc'] at hp
      rw [hp] at hj'
      cases hj'
    · rw [hother u hu] at hp
      exact h.booked u p hp
  · intro u p hp
    rcases hflu u p hp with ⟨hu, hp'⟩
    rcases h.flying u p hp' with ⟨h1, h2, h3⟩
    refine ⟨?_, ?_, ?_⟩
    · intro i sd hin
      rcases hmem i sd p hin with ⟨rfl, -, -⟩ | hin
      · exact hall u hu hp'
      · exact h1 i sd hin
    · intro w hw heq
      exact h2 w hw (hflu w p heq).2
    · intro id heq
      rw [horders] at heq
      by_cases hid : id = (s.heap j.order).orderId
      · subst hid
        cases hm : s.orders (s.heap j.order).orderId with
        | none =>
          rw [HashMap.put_of_none _ hm, Function.update_self] at heq
          cases heq
          exact hall u hu hp'
        | some q =>
          simp only [HashMap.put, hm] at heq
          cases heq
          exact h3 _ hm
      · rw [HashMap.put_of_ne _ _ hid] at heq
        exact h3 id heq
  · intro id p hp
    rw [hnext, hheap]
    rw [horders] at hp
    have hold : s.orders id = some p → p < s.nextPtr ∧ (s.heap p).orderId = id ∧
        s'.orderBooks (s.heap p).instrument ≠ none := by
      intro hp
      rcases h.mapped id p hp with ⟨h1, h2, h3⟩
      exact ⟨h1, h2, hbooks _ h3⟩
    by_cases hid : id = (s.heap j.order).orderId
    · subst hid
      cases hm : s.orders (s.heap j.order).orderId with
      | none =>
        rw [HashMap.put_of_none _ hm, Function.update_self] at hp
        cases hp
        rw [hjob.2]
        exact ⟨hlt, rfl, hbook⟩
      | some q =>
        simp only [HashMap.put, hm] at hp
        cases hp
        exact hold hm
    · rw [HashMap.put_of_ne _ _ hid] at hp
      exact hold hp
  · rw [hnext, hheap]
    exact h.ids
  · intro u
    rw [htodo, hnext, hheap]
    exact h.fresh u
  · intro u
    rw [htodo]
    exact h.todo u
  · intro u w huw
    rw [htodo, htodo]
    exact h.apart u w huw

theorem total_insertValue (o : Order ℕ I) (rs : List (Order ℕ I)) :
    total (insertValue o rs) = total rs + o.count := by
  induction rs with
  | nil => simp [insertValue, total]
  | cons r rs ih =>
    rw [insertValue]
    split
    · simp only [total, List.map_cons, List.sum_cons]
      omega
    · simp only [total, List.map_cons, List.sum_cons] at ih ⊢
      omega

/-- The order enters the vector. -/
theorem Inv.addInsert (h : Inv s V) {curr : Addr} (hpc : (s.thread t).pc = .addInsert j curr)
    (hs : s.step t = some s') : ∃ V', Inv s' V' ∧ Quiet s s' V V' := by
  rw [Sys.step, hpc] at hs
  dsimp only at hs
  rcases h.own hpc rfl with ⟨l, cells, r, hV, hcells, hrest, ⟨c, rfl, rfl, hpend, hprice⟩⟩
  have hV' : V j.book j.side = l ++ c :: r := by rw [hV]; simp
  have hc : c.owner = some t := hcells c (by simp)
  have hsh := h.shows j.book j.side
  rw [hV'] at hsh
  let o := s.heap j.order
  let n := s.node j.book j.side c.addr
  let c' : Cell I T :=
    { c with
      node := insertOrder s.heap j.order c.node, orders := insertValue o c.orders, pend := .none }
  have hnode : n.toOrderNode = c.node := hsh.node c (by simp)
  have horders : c.node.orders.map s.heap = c.orders := hsh.orders c (by simp)
  have hs' := (Option.some.inj hs).symm
  have hself : s'.thread t = { s.thread t with pc := .addPrint j c.addr } := by
    rw [hs']
    exact Function.update_self ..
  have hother : ∀ u, u ≠ t → s'.thread u = s.thread u := by
    intro u hu
    rw [hs']
    exact Function.update_of_ne hu ..
  have hheap : s'.heap = s.heap := by rw [hs']; rfl
  have hchain : ∀ i sd, s'.chain i sd = (s.setNode j.book j.side c.addr
      { n with toOrderNode := insertOrder s.heap j.order n.toOrderNode }).chain i sd := by
    intro i sd
    rw [hs']
    rfl
  have hbooks : ∀ i, s.orderBooks i ≠ none → s'.orderBooks i ≠ none := by
    intro i hi
    rw [hs']
    exact s.orderBooks_setChain j.book i j.side _ hi
  have hrun : run [c] (settled r) = (insertLevel o c.level :: settled r,
      [(some t, addLine j.side o)]) := by
    simp only [run, hpend, act, hc, List.append_nil]
    rfl
  have hrun' : run [c'] (settled r) = (insertLevel o c.level :: settled r, []) := rfl
  have hon : OnStretch s s' t j.book j.side l [c] [c'] r := by
    refine ⟨hother, fun p => by rw [hheap], ?_, ?_, ?_, ?_, ?_, ?_, ?_, ?_, rfl, ?_, ?_, ?_⟩
    · rw [hs']
      exact h.fault
    · intro i
      rw [hs']
      exact s.getBook_setChain_m j.book i j.side _
    · rw [hself, hpc]
      rfl
    · intro i sd hne
      rw [hchain, Sys.chain_setNode, if_neg hne]
    · intro p _ _
      rw [hheap]
    · rw [hheap, hchain, Sys.chain_setNode, if_pos ⟨rfl, rfl⟩, ← List.append_cons]
      apply hsh.setNode c' rfl
      · show insertOrder s.heap j.order n.toOrderNode = _
        rw [hnode]
      · exact hsh.mutex c (by simp)
      · rfl
      · show (insertByTime s.heap j.order c.node.orders).map s.heap = insertValue o c.orders
        rw [insertByTime_map, horders]
      · exact fun _ _ => rfl
    · simpa using Or.inl hc
    · simpa [c'] using Or.inl hc
    · intro e he
      exact ⟨c', by simp, by rw [List.mem_singleton.mp he]; rfl⟩
    · intro e he
      rw [List.mem_singleton.mp he]
      have hvol := h.volume j.book j.side c (by simp [hV'])
      rw [hpend, show (Pend.insert j.side o).numPopback = 0 from rfl, Nat.sub_zero,
        List.take_length] at hvol
      show c.node.volume + o.count = total (List.take ((insertValue o c.orders).length - 0) _)
      rw [Nat.sub_zero, List.take_length, total_insertValue, hvol]
    · rw [hrun, hrun']
  apply h.own_step hpc rfl (by rw [hself]; rfl) hV hon
  · have hptrs : (ptrs (l ++ [c'] ++ r)).Perm (j.order :: ptrs (l ++ [c] ++ r)) := by
      have hins : c'.node.orders.Perm (j.order :: c.node.orders) := insertByTime_perm ..
      have hptrs' : ∀ e : Cell I T, ptrs (l ++ [e] ++ r) = ptrs l ++ e.node.orders ++ ptrs r := by
        intro e
        simp [ptrs]
      rw [hptrs', hptrs', List.append_assoc, List.append_assoc]
      exact ((hins.append_right (ptrs r)).append_left (ptrs l)).trans List.perm_middle
    apply h.objs.insert (.addPrint j c.addr) hpc rfl rfl (by rw [hself]) rfl rfl
      (by rw [hself]) hother hheap (by rw [hs']; rfl) hbooks
    · rw [hs']
      show Function.update s.orderBooks j.book _ j.book ≠ none
      rw [Function.update_self]
      rintro ⟨⟩
    · rw [hs']
      rfl
    · rw [View.set_self, hV]
      exact hptrs
    · intro i sd hne
      exact View.set_of_ne _ _ hne
  · refine ⟨l, _, r, rfl, by simp [c', hc], hrest, ?_⟩
    rw [hself]
    refine ⟨c', rfl, rfl, rfl, ?_⟩
    exact (insertByTime_perm s.heap j.order c.node.orders).mem_iff.mpr List.mem_cons_self
  · have hopp := h.opp hpc rfl
    rw [hself, hheap]
    exact hopp
  · apply Inv.account_own hpc rfl (by rw [hself]; rfl) (by rw [hself]; rfl) (by rw [hself])
      (by rw [hself]) hV hrest
    · simp [hc]
    · simp [c']
    · exact due_of_nil (h.opp hpc rfl)
    · rw [hself, hheap, hrun, hrun']
      simp only [Pc.lines, List.map_cons, List.map_nil, List.append_nil]
      rfl

/-! ## The end of `add` -/

/-- A thread prints a line that its place promised. -/
theorem Inv.stay_print (h : Inv s V) (hpc : (s.thread t).pc = pc) (pc' : Pc ℕ I)
    (line : Line ℕ I) (hj : pc.job = some j) (hj' : pc'.job = some j)
    (hbl : pc'.bookLocked = pc.bookLocked)
    (hfl : pc'.inFlight = pc.inFlight ∨ pc'.inFlight = none) (hent : pc'.entered = pc.entered)
    (hlines : pc.lines s.heap = line :: pc'.lines s.heap)
    (hown : ∀ (cells : List (Cell I T)) nxt, pc.ownBlock (s.heap j.order) cells nxt →
      pc'.ownBlock (s.heap j.order) cells nxt)
    (hopp : ∀ (cells : List (Cell I T)) nxt, pc.oppBlock (s.heap j.order) cells nxt j.side.opp →
      pc'.oppBlock (s.heap j.order) cells nxt j.side.opp) :
    ∃ V', Inv ((s.print t line).goto t pc') V' ∧ Quiet s ((s.print t line).goto t pc') V V' := by
  have hself : ((s.print t line).goto t pc').thread t =
      { s.thread t with pc := pc', out := (s.thread t).out ++ [line] } := by
    simp [Sys.goto, Sys.print]
  refine ⟨V, h.stay hpc ((Light.print s t line).trans (Light.goto _ t pc')) (fun _ _ => rfl)
    (by rw [hself]; exact hbl) ?_ ?_ ?_⟩
  · exact h.turn hpc hj (by rw [hself]; exact hj') (by rw [hself]; exact hfl) (by rw [hself])
  · intro i sd
    rw [hself]
    apply (h.holds t i sd).imp
    intro cells nxt _ hb
    rw [hpc] at hb
    exact Pc.block_imp hj hj' (hown cells nxt) (hopp cells nxt) hb
  · apply account_busy
    · rw [hself, hpc]
      exact hent
    · rw [hself]
    · rw [hself]
    · unfold promise
      rw [hself, hpc]
      dsimp only
      rw [hj, hj', hlines]
      simp only [List.append_assoc, List.singleton_append]
      rfl

theorem Inv.addPrint (h : Inv s V) {curr : Addr} (hpc : (s.thread t).pc = .addPrint j curr)
    (hs : s.step t = some s') : ∃ V', Inv s' V' ∧ Quiet s s' V V' := by
  rw [Sys.step, hpc] at hs
  cases Option.some.inj hs
  exact h.stay_print hpc (.addUnlock j curr) _ rfl rfl rfl (Or.inl rfl) rfl rfl
    (fun _ _ hb => hb) fun _ _ hb => hb

/-- The last mutex is unlocked and the command is over. -/
theorem Inv.unlock_finish (h : Inv s V) (hpc : (s.thread t).pc = pc) (hj : pc.job = some j)
    (hbl : pc.bookLocked = none) (hent : pc.entered = true) (hlines : pc.lines s.heap = [])
    (hV : V j.book j.side = l ++ [c] ++ r) (hc : c.owner = some t)
    (hrest : ∀ d ∈ l ++ r, d.owner ≠ some t) (hpend : c.pend = .none)
    (hopp : ∀ (cells : List (Cell I T)) nxt, pc.oppBlock (s.heap j.order) cells nxt j.side.opp →
      cells = [])
    (hs : s' = (s.unlock t j.book j.side c.addr .ready).finish t) :
    ∃ V', Inv s' V' ∧ Quiet s s' V V' := by
  have hV' : V j.book j.side = l ++ c :: r := by rw [hV]; simp
  have hsh := h.shows j.book j.side
  rw [hV'] at hsh
  rw [Sys.unlock_eq hsh hc] at hs
  have hmid : ((s.setMutex j.book j.side c.addr none).goto t .ready).thread t =
      { s.thread t with pc := .ready } := Function.update_self ..
  have hself : (s'.thread t).pc = .ready ∧ (s'.thread t).cmds = (s.thread t).cmds.tail := by
    rw [hs, Sys.finish_self, hmid]
    exact ⟨rfl, rfl⟩
  have hl : Light s s' t := by
    rw [hs]
    exact (Sys.light_setMutex .ready c.addr none).trans (Light.finish _ t)
  apply h.own_finish hpc hj hself.1 hV
    (h.relock hpc hV' hpend (Or.inl hc) (Or.inr rfl) hl (fun _ _ => by rw [hs]; rfl)
      (by rw [hself.1, hbl]; rfl))
  · apply h.objs.move hl.frame
    · apply turn_finish
      · rw [hpc]
        rintro rfl
        cases hj
      · exact hself.1
      · exact hself.2
    · intro i sd
      by_cases hi : i = j.book ∧ sd = j.side
      · rcases hi with ⟨rfl, rfl⟩
        rw [View.set_self, hV', ptrs_of_base (show _ = (l ++ c :: r).map Cell.base by simp [Cell.base])]
      · rw [View.set_of_ne _ _ hi]
  · refine ⟨l ++ [{ c with owner := none }] ++ r, [], [], by simp, by simp, ?_, rfl⟩
    intro d hd
    simp only [List.mem_append, List.mem_cons, List.not_mem_nil, or_false] at hd
    rcases hd with (hd | rfl) | hd
    · exact hrest d (by simp [hd])
    · rintro ⟨⟩
    · exact hrest d (by simp [hd])
  · exact hopp
  · rw [hs]
    apply account_finish (by rw [hpc]; exact hent) (by rw [hmid]) (by rw [hmid])
    have hopp' : due t (V j.book j.side.opp) = [] :=
      due_of_nil ((h.opp hpc hj).imp fun cells nxt _ hb => hopp cells nxt hb)
    have hrun : run [c] (settled r) = (c.level :: settled r, []) := by
      simp only [run, hpend, act, List.map_nil, List.append_nil]
    rw [hmid, promise_own hV hrest (by simp [hpend]) hopp' (by rw [hpc]; exact hj), hpc, hlines,
      hrun]
    simp

theorem Inv.addUnlock (h : Inv s V) {curr : Addr} (hpc : (s.thread t).pc = .addUnlock j curr)
    (hs : s.step t = some s') : ∃ V', Inv s' V' ∧ Quiet s s' V V' := by
  rw [Sys.step, hpc] at hs
  rcases h.own hpc rfl with ⟨l, cells, r, hV, hcells, hrest, ⟨c, rfl, rfl, hpend, -⟩⟩
  exact h.unlock_finish hpc rfl rfl rfl rfl hV (hcells c (by simp)) hrest hpend
    (fun _ _ hb => hb) (Option.some.inj hs).symm

end MatchingEngine.Cpp
