import MatchingEngine.Cpp.Moves

/-!
# A new order under the mutex of its book

From `matchBook.head.m.lock()` to `addBook.head.m.lock()`: the walk over the volumes locks one node
after the other.
-/

set_option linter.unusedSectionVars false

namespace MatchingEngine.Cpp

open LockChain PriceTime

variable {I T : Type} [DecidableEq I] [DecidableEq T] {s s' : Sys ℕ I T} {V : View I T} {t : T}
  {j : Job I} {v : ℤ}

theorem not_owner_of_nil {cs : List (Cell I T)}
    (h : Holds Cell.owner Cell.key t cs fun cells _ => cells = []) :
    ∀ c ∈ cs, c.owner ≠ some t := by
  rcases h with ⟨l, cells, r, rfl, -, hrest, rfl⟩
  intro c hc
  exact hrest c (by simpa using hc)

theorem Inv.lockMatchHead (h : Inv s V) (hpc : (s.thread t).pc = .lockMatchHead j)
    (hs : s.step t = some s') : ∃ V', Inv s' V' ∧ Quiet s s' V V' := by
  rw [Sys.step, hpc] at hs
  dsimp only at hs
  have hsh := h.shows j.book j.side.opp
  rcases hsh.exists_head with ⟨c, r, hV, hc⟩
  have hnot := not_owner_of_nil (h.opp hpc rfl)
  rw [hV] at hsh hnot
  rw [← hc] at hs
  rcases Sys.lock_cases (l := []) hs hsh (hnot c (by simp)) with ⟨hfree, hs'⟩
  have hpend : c.pend = .none := h.idle j.book j.side.opp c (by simp [hV]) hfree
  apply h.opp_relock (l := []) hpc rfl hV hpend (Or.inr hfree) (Or.inl rfl) hs' rfl rfl rfl rfl rfl
  · refine ⟨[], [{ c with owner := some t }], r, by simp, by simp, ?_, ?_⟩
    · intro d hd
      exact hnot d (by simpa using Or.inr hd)
    · refine ⟨⟨⟨_, [], rfl, hc, trivial, ?_⟩, by simpa using hpend⟩, ?_⟩
      · exact (Int.toNat_natCast _).symm
      · exact (hsh.next_eq (l := [])).symm
  · exact fun _ _ h => h

/-- The walk over the volumes ends. -/
theorem Inv.afterWalk (h : Inv s V) {curr : Option Addr} (hpc : (s.thread t).pc = .walk j v curr)
    (hend : ¬ 0 < v ∨ curr = none) :
    ∃ V', Inv (s.goto t (Sys.afterWalk j v)) V' ∧ Quiet s (s.goto t (Sys.afterWalk j v)) V V' := by
  have hended : ∀ nxt : Option (Addr × UInt32), nxt.map Prod.fst = curr →
      Ended j.side.opp (s.heap j.order).price v.toNat nxt := by
    intro nxt hnxt
    rcases hend with hv | rfl
    · exact Or.inl (by omega)
    · refine Or.inr fun k hk => ?_
      rw [hk] at hnxt
      cases hnxt
  unfold Sys.afterWalk
  split
  next hv =>
    apply h.stay_job hpc (.lockAddHead j v) rfl rfl rfl (Or.inl rfl) rfl rfl
    · exact fun _ _ hb => hb
    · exact fun _ nxt hb => ⟨hb.1, hended nxt hb.2, hv⟩
  next hv =>
    apply h.stay_job hpc (.unlockBook j v) rfl rfl rfl (Or.inl rfl) rfl rfl
    · intro cells nxt hb
      simp only [Pc.ownBlock, if_neg hv]
      exact hb
    · exact fun _ nxt hb => ⟨hb.1, hended nxt hb.2⟩

/-- `curr->m.lock()` in the walk over the volumes. -/
theorem Inv.walk (h : Inv s V) {curr : Option Addr} (hpc : (s.thread t).pc = .walk j v curr)
    (hs : s.step t = some s') : ∃ V', Inv s' V' ∧ Quiet s s' V V' := by
  rw [Sys.step.eq_def, hpc] at hs
  cases curr with
  | none =>
    cases Option.some.inj hs
    exact h.afterWalk hpc (Or.inr rfl)
  | some a =>
    dsimp only at hs
    by_cases hv : 0 < v
    · rw [if_pos hv] at hs
      rcases h.opp hpc rfl with ⟨l, cells, r, hV, hcells, hrest, ⟨⟨c₀, as, rfl, hc₀, hpass, hleft⟩,
        hnone⟩, hnxt⟩
      have hsh := h.shows j.book j.side.opp
      cases r with
      | nil => cases hnxt
      | cons c r =>
        have hca : c.addr = a := Option.some.inj hnxt
        subst hca
        rw [hV] at hsh
        have hnot : c.owner ≠ some t := hrest c (by simp)
        have hnode : (s.node j.book j.side.opp c.addr).toOrderNode = c.node := hsh.node c (by simp)
        have hprice : (s.node j.book j.side.opp c.addr).price = c.node.price :=
          congrArg OrderNode.price hnode
        have hvol : (s.node j.book j.side.opp c.addr).volume = c.node.volume :=
          congrArg OrderNode.volume hnode
        rw [hprice, hvol] at hs
        have hfree : c.owner = none := by
          split at hs
          · exact (Sys.lock_cases hs hsh hnot).1
          · exact (Sys.lock_cases hs hsh hnot).1
        have hpend : c.pend = .none := h.idle j.book j.side.opp c (by simp [hV]) hfree
        have hhold : ∀ P : List (Cell I T) → Option (Addr × UInt32) → Prop,
            P (c₀ :: as ++ [{ c with owner := some t }]) (r.head?.map Cell.key) →
            Holds Cell.owner Cell.key t (l ++ c₀ :: as ++ { c with owner := some t } :: r) P := by
          intro P hP
          refine ⟨l, c₀ :: as ++ [{ c with owner := some t }], r, by simp, ?_, ?_, hP⟩
          · intro d hd
            rcases List.mem_append.mp hd with hd | hd
            · exact hcells d hd
            · rw [List.mem_singleton.mp hd]
          · intro d hd
            apply hrest d
            simp only [List.mem_append, List.mem_cons] at hd ⊢
            tauto
        split at hs
        next hcross =>
          rcases Sys.lock_cases hs hsh hnot with ⟨-, hs'⟩
          apply h.opp_relock hpc rfl hV hpend (Or.inr hfree) (Or.inl rfl) hs' rfl rfl rfl rfl rfl
          · apply hhold
            exact ⟨c₀ :: as, _, rfl, rfl, hpend, ⟨⟨c₀, as, rfl, hc₀, hpass, hleft⟩, hnone⟩, hv,
              hcross⟩
          · exact fun _ _ hb => hb
        next hcross =>
          rcases Sys.lock_cases hs hsh hnot with ⟨-, hs'⟩
          apply h.opp_relock hpc rfl hV hpend (Or.inr hfree) (Or.inl rfl) hs' rfl rfl rfl rfl rfl
          · apply hhold
            refine ⟨⟨⟨c₀, as ++ [{ c with owner := some t }], rfl, hc₀, ?_, ?_⟩, ?_⟩, ?_⟩
            · apply hpass.append
              refine ⟨?_, not_not.mp hcross, trivial⟩
              rw [hleft]
              omega
            · rw [left_append, hleft]
              show v.toNat - c.node.volume = (v - (c.node.volume : ℤ)).toNat
              omega
            · intro d hd
              rcases List.mem_append.mp hd with hd | hd
              · exact hnone d hd
              · rw [List.mem_singleton.mp hd]
                exact hpend
            · exact hsh.next_eq.symm
          · exact fun _ _ hb => hb
    · rw [if_neg hv] at hs
      cases Option.some.inj hs
      exact h.afterWalk hpc (Or.inl hv)

/-- `curr->m.unlock(); break`. -/
theorem Inv.walkBreak (h : Inv s V) {curr : Addr} (hpc : (s.thread t).pc = .walkBreak j v curr)
    (hs : s.step t = some s') : ∃ V', Inv s' V' ∧ Quiet s s' V V' := by
  rw [Sys.step, hpc] at hs
  dsimp only at hs
  rcases h.opp hpc rfl with ⟨l, cells, r, hV, hcells, hrest, ⟨as, c, rfl, rfl, hpend, hwalked, hv,
    hcross⟩⟩
  have hV' : V j.book j.side.opp = (l ++ as) ++ c :: r := by rw [hV]; simp
  have hsh := h.shows j.book j.side.opp
  rw [hV'] at hsh
  have hc : c.owner = some t := hcells c (by simp)
  rw [Sys.unlock_eq hsh hc] at hs
  have haw : (Sys.afterWalk j v : Pc ℕ I) = .lockAddHead j v := if_pos hv
  rw [haw] at hs
  apply h.opp_relock hpc rfl hV' hpend (Or.inl hc) (Or.inr rfl) (Option.some.inj hs).symm rfl rfl rfl
    rfl rfl
  · refine ⟨l, as, { c with owner := none } :: r, by simp, ?_, ?_, hwalked, ?_, hv⟩
    · intro d hd
      exact hcells d (by simp [hd])
    · intro d hd
      simp only [List.mem_append, List.mem_cons] at hd
      rcases hd with hd | rfl | hd
      · exact hrest d (by simp [hd])
      · rintro ⟨⟩
      · exact hrest d (by simp [hd])
    · refine Or.inr fun k hk => ?_
      cases hk
      exact hcross
  · exact fun _ _ hb => hb

/-- `addBook.head.m.lock()`. -/
theorem Inv.lockAddHead (h : Inv s V) (hpc : (s.thread t).pc = .lockAddHead j v)
    (hs : s.step t = some s') : ∃ V', Inv s' V' ∧ Quiet s s' V V' := by
  rw [Sys.step, hpc] at hs
  dsimp only at hs
  have hsh := h.shows j.book j.side
  rcases hsh.exists_head with ⟨c, r, hV, hc⟩
  have hnot := not_owner_of_nil (h.own hpc rfl)
  rw [hV] at hsh hnot
  rw [← hc] at hs
  rcases Sys.lock_cases (l := []) hs hsh (hnot c (by simp)) with ⟨hfree, hs'⟩
  have hpend : c.pend = .none := h.idle j.book j.side c (by simp [hV]) hfree
  rcases h.opp hpc rfl with ⟨-, -, -, -, -, -, -, -, hv⟩
  apply h.own_relock (l := []) hpc rfl hV hpend (Or.inr hfree) (Or.inl rfl) hs' rfl rfl
    (Or.inl rfl) rfl rfl
  · refine ⟨[], [{ c with owner := some t }], r, by simp, by simp, ?_, ?_⟩
    · intro d hd
      exact hnot d (by simpa using Or.inr hd)
    · simp only [Pc.ownBlock, if_pos hv]
      exact ⟨_, rfl, hc, hpend⟩
  · exact fun _ _ hb => ⟨hb.1, hb.2.1⟩

end MatchingEngine.Cpp
