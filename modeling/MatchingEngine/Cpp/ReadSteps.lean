import MatchingEngine.Cpp.Moves

/-!
# Reading a command

From `connection.ReadInput` to the first mutex: a new order gets its object and its book, a cancel
looks up its order.
-/

set_option linter.unusedSectionVars false

namespace MatchingEngine.Cpp

open LockChain PriceTime

variable {I T : Type} [DecidableEq I] [DecidableEq T] {s s' : Sys ℕ I T} {V : View I T} {t : T}
  {j : Job I} {pc pc' : Pc ℕ I} {i : I} {sd : Side} {orderId price : UInt32} {count : ℕ}
  {inputTime : ℤ} {cs : List (Command ℕ I)}

/-- The object of a new order. -/
def Sys.alloc {N : Type} (s : Sys N I T) (o : Order N I) : Sys N I T :=
  { s with heap := Function.update s.heap s.nextPtr o, nextPtr := s.nextPtr + 1 }

theorem Inv.objs_alloc (h : Inv s V) (hpc : (s.thread t).pc = .ready)
    (hcmds : (s.thread t).cmds = .order sd orderId i price count inputTime :: cs)
    (hs : s' = (s.alloc (newOrder sd orderId i price count inputTime)).goto t
      (.getBook { book := i, side := sd, order := s.nextPtr })) : Objs s' V := by
  have ho := h.objs
  have hself : (s'.thread t) = { s.thread t with
      pc := .getBook { book := i, side := sd, order := s.nextPtr } } := by
    rw [hs]
    exact Function.update_self ..
  have hother : ∀ u, u ≠ t → s'.thread u = s.thread u := by
    intro u hu
    rw [hs]
    exact Function.update_of_ne hu ..
  have hnew : s'.heap s.nextPtr = newOrder sd orderId i price count inputTime := by
    rw [hs]
    exact Function.update_self ..
  have hold : ∀ p, p < s.nextPtr → s'.heap p = s.heap p := by
    intro p hp
    rw [hs]
    exact Function.update_of_ne hp.ne ..
  have hnext : s'.nextPtr = s.nextPtr + 1 := by rw [hs]; rfl
  have horders : s'.orders = s.orders := by rw [hs]; rfl
  have hbooks : s'.orderBooks = s.orderBooks := by rw [hs]; rfl
  have hup : ∀ p, p < s.nextPtr → p < s.nextPtr + 1 := fun p hp => Nat.lt_succ_of_lt hp
  have hdown : ∀ p, p < s.nextPtr + 1 → p ≠ s.nextPtr → p < s.nextPtr :=
    fun p hp hne => lt_of_le_of_ne (Nat.lt_succ_iff.mp hp) hne
  have href : ∀ u p, (s.thread u).pc.inFlight = some p → p < s.nextPtr := by
    intro u p hp
    apply ho.ref u p
    revert hp
    cases (s.thread u).pc <;> intro hp <;> cases hp <;> rfl
  have htodo : (s.thread t).todo.filterMap newId = orderId :: cs.filterMap newId := by
    rw [Thread.todo, hpc, hcmds]
    rfl
  have htodo' : (s'.thread t).todo.filterMap newId = cs.filterMap newId := by
    rw [Thread.todo, hself, hcmds]
    rfl
  have hsub : ∀ u, ((s'.thread u).todo.filterMap newId).Sublist
      ((s.thread u).todo.filterMap newId) := by
    intro u
    by_cases hu : u = t
    · subst hu
      rw [htodo, htodo']
      exact List.sublist_cons_self ..
    · rw [hother u hu]
  have hfreshNew : ∀ p < s.nextPtr, (s.heap p).orderId ≠ orderId := by
    apply ho.fresh t
    rw [htodo]
    exact List.mem_cons_self
  constructor
  · exact ho.nodup
  · intro i' sd' p hp
    have hp' := ho.place i' sd' p hp
    rw [hnext, hold p hp'.1]
    exact ⟨hup p hp'.1, hp'.2⟩
  · intro p hp
    by_cases heq : p = s.nextPtr
    · subst heq
      rw [hnew]
      exact ⟨sd, rfl⟩
    · have hlt : p < s.nextPtr := hdown p (hnext ▸ hp) heq
      rw [hold p hlt]
      exact ho.type p hlt
  · intro u p hp
    by_cases hu : u = t
    · subst hu
      rw [hself] at hp
      cases hp
      rw [hnext]
      exact Nat.lt_succ_self _
    · rw [hother u hu] at hp
      rw [hnext]
      exact hup p (ho.ref u p hp)
  · intro u j hj
    by_cases hu : u = t
    · subst hu
      rw [hself] at hj
      cases hj
      dsimp only
      rw [hnew]
      exact ⟨rfl, rfl⟩
    · rw [hother u hu] at hj
      rw [hold _ (ho.ref u _ (Pc.ref_of_job hj))]
      exact ho.job u j hj
  · intro u p hp
    by_cases hu : u = t
    · subst hu
      rw [hself] at hp
      cases hp
    · rw [hother u hu] at hp
      rw [hbooks, hold p (ho.ref u p (by rw [hp]; rfl))]
      exact ho.booked u p hp
  · intro u p hp
    by_cases hu : u = t
    · subst hu
      rw [hself] at hp
      cases hp
      refine ⟨?_, ?_, ?_⟩
      · intro i' sd' hm
        exact absurd (ho.place i' sd' _ hm).1 (lt_irrefl _)
      · intro w hw heq
        rw [hother w hw] at heq
        exact absurd (href w _ heq) (lt_irrefl _)
      · intro id heq
        rw [horders] at heq
        exact absurd (ho.mapped id _ heq).1 (lt_irrefl _)
    · rw [hother u hu] at hp
      rcases ho.flying u p hp with ⟨h1, h2, h3⟩
      refine ⟨h1, ?_, by rwa [horders]⟩
      intro w hw heq
      by_cases hwt : w = t
      · subst hwt
        rw [hself] at heq
        cases heq
        exact absurd (href u _ hp) (lt_irrefl _)
      · rw [hother w hwt] at heq
        exact h2 w hw heq
  · intro id p hp
    rw [horders] at hp
    rcases ho.mapped id p hp with ⟨h1, h2, h3⟩
    rw [hnext, hold p h1, hbooks]
    exact ⟨hup p h1, h2, h3⟩
  · intro p q hp hq heq
    rw [hnext] at hp hq
    by_cases hpn : p = s.nextPtr
    · by_cases hqn : q = s.nextPtr
      · rw [hpn, hqn]
      · have hq' := hdown q hq hqn
        rw [hpn, hnew, hold q hq'] at heq
        exact absurd heq.symm (hfreshNew q hq')
    · have hp' := hdown p hp hpn
      by_cases hqn : q = s.nextPtr
      · rw [hqn, hnew, hold p hp'] at heq
        exact absurd heq (hfreshNew p hp')
      · have hq' := hdown q hq hqn
        rw [hold p hp', hold q hq'] at heq
        exact ho.ids p q hp' hq' heq
  · intro u id hid p hp
    rw [hnext] at hp
    by_cases hpn : p = s.nextPtr
    · rw [hpn, hnew]
      rintro rfl
      by_cases hu : u = t
      · subst hu
        have hnd := ho.todo u
        rw [htodo] at hnd
        rw [htodo'] at hid
        exact (List.nodup_cons.mp hnd).1 hid
      · rw [hother u hu] at hid
        apply ho.apart t u (Ne.symm hu) _ _ hid
        rw [htodo]
        exact List.mem_cons_self
    · have hp' := hdown p hp hpn
      rw [hold p hp']
      exact ho.fresh u id ((hsub u).subset hid) p hp'
  · intro u
    exact (ho.todo u).sublist (hsub u)
  · intro u w huw id hid hid'
    exact ho.apart u w huw id ((hsub u).subset hid) ((hsub w).subset hid')

/-- A place at which nothing is locked. -/
theorem Pc.block_nil {heap : Heap ℕ I} {nxt : Option (Addr × UInt32)}
    (hown : ∀ o : Order ℕ I, pc.ownBlock o ([] : List (Cell I T)) nxt)
    (hopp : ∀ (o : Order ℕ I) sd, pc.oppBlock o ([] : List (Cell I T)) nxt sd) :
    pc.block ([] : List (Cell I T)) nxt heap i sd := by
  unfold Pc.block
  cases pc.job with
  | none => rfl
  | some j =>
    dsimp only
    split
    · split
      · exact hown _
      · exact hopp _ _
    · rfl

/-- `ReadInput` returns a new order. -/
theorem Inv.readOrder (h : Inv s V) (hpc : (s.thread t).pc = .ready)
    (hcmds : (s.thread t).cmds = .order sd orderId i price count inputTime :: cs)
    (hs : s' = (s.alloc (newOrder sd orderId i price count inputTime)).goto t
      (.getBook { book := i, side := sd, order := s.nextPtr })) :
    ∃ V', Inv s' V' ∧ Quiet s s' V V' := by
  have hself : (s'.thread t) = { s.thread t with
      pc := .getBook { book := i, side := sd, order := s.nextPtr } } := by
    rw [hs]
    exact Function.update_self ..
  have hother : ∀ u, u ≠ t → s'.thread u = s.thread u := by
    intro u hu
    rw [hs]
    exact Function.update_of_ne hu ..
  have hold : ∀ p, p < s.nextPtr → s'.heap p = s.heap p := by
    intro p hp
    rw [hs]
    exact Function.update_of_ne hp.ne ..
  have hchain : ∀ i sd, s'.chain i sd = s.chain i sd := by
    intro i sd
    rw [hs]
    rfl
  refine ⟨V, ?_, ?_⟩
  · apply h.move hother
    · rw [hs]
      exact h.fault
    · intro p hp
      rw [hold p hp]
    · intro u p _ hp
      rcases Pc.job_of_inFlight hp with ⟨j, hj, rfl⟩
      exact hold _ (h.objs.ref u _ (Pc.ref_of_job hj))
    · intro i' sd'
      rw [hchain]
      apply (h.shows i' sd').frame
      intro p hp
      exact hold p (h.objs.place i' sd' p hp).1
    · exact fun _ _ => Change.refl t _
    · intro i' u
      have hm : (s'.getBook i').m = (s.getBook i').m := by rw [hs]; rfl
      rw [hm, h.bookM]
      by_cases hu : u = t
      · subst hu
        rw [hself, hpc]
        exact iff_of_false (fun hn => by cases hn) (fun hn => by cases hn)
      · rw [hother u hu]
    · intro i' sd'
      apply (h.elsewhere hpc (fun _ hj => by cases hj)).imp
      rintro cells nxt - rfl
      rw [hself]
      exact Pc.block_nil (fun _ => rfl) fun _ _ => rfl
    · exact h.volume
    · exact h.objs_alloc hpc hcmds hs
  · constructor
    · exact fun _ _ => rfl
    · intro u
      by_cases hu : u = t
      · subst hu
        apply account_idle <;> simp [hpc, hself, Pc.entered]
      · have hlines : (s.thread u).pc.lines s'.heap = (s.thread u).pc.lines s.heap := by
          have href := h.objs.ref u
          revert href
          cases (s.thread u).pc with
          | unlockHead j curr =>
            intro href
            cases curr with
            | none => simp only [Pc.lines, hold _ (href j.order rfl)]
            | some curr => rfl
          | cancelTest j curr =>
            intro href
            cases curr with
            | none => simp only [Pc.lines, hold _ (href j.order rfl)]
            | some curr => rfl
          | _ =>
            intro href
            first
              | rfl
              | simp only [Pc.lines, hold _ (href _ rfl)]
        unfold account promise
        rw [hother u hu, hlines]

/-- A thread with nothing locked goes on to a place with nothing locked. -/
theorem Inv.stay_free (h : Inv s V) (hpc : (s.thread t).pc = pc) (hl : Light s s' t)
    (hchain : ∀ i sd, s'.chain i sd = s.chain i sd)
    (hfree : ∀ (o : Order ℕ I) (cells : List (Cell I T)) nxt sd,
      (pc.ownBlock o cells nxt → cells = []) ∧ (pc.oppBlock o cells nxt sd → cells = []))
    (hbl : (s'.thread t).pc.bookLocked = pc.bookLocked)
    (hturn : Turn s (s.thread t) (s'.thread t))
    (hfree' : ∀ (o : Order ℕ I) nxt sd,
      (s'.thread t).pc.ownBlock o ([] : List (Cell I T)) nxt ∧
        (s'.thread t).pc.oppBlock o ([] : List (Cell I T)) nxt sd)
    (hacc : account s' V t = account s V t) : Inv s' V ∧ Quiet s s' V V := by
  apply h.stay hpc hl hchain hbl hturn _ hacc
  intro i sd
  apply (h.holds t i sd).imp
  intro cells nxt _ hb
  rw [hpc] at hb
  have hnil : cells = [] := by
    unfold Pc.block at hb
    cases hj : pc.job with
    | none =>
      rw [hj] at hb
      exact hb
    | some j =>
      rw [hj] at hb
      dsimp only at hb
      split at hb
      · split at hb
        · exact (hfree _ _ nxt sd).1 hb
        · exact (hfree _ _ nxt sd).2 hb
      · exact hb
  subst hnil
  exact Pc.block_nil (fun o => (hfree' o nxt .buy).1) fun o sd => (hfree' o nxt sd).2

/-- `ReadInput` returns a cancel. -/
theorem Inv.readCancel (h : Inv s V) (hpc : (s.thread t).pc = .ready) (orderId : UInt32)
    (inputTime : ℤ) :
    ∃ V', Inv (s.goto t (.getOrder orderId inputTime)) V' ∧
      Quiet s (s.goto t (.getOrder orderId inputTime)) V V' := by
  have hself : ((s.goto t (.getOrder orderId inputTime)).thread t) =
      { s.thread t with pc := .getOrder orderId inputTime } := Function.update_self ..
  refine ⟨V, h.stay_free hpc (Light.goto ..) (fun _ _ => rfl) (fun _ _ _ _ => ⟨id, id⟩) ?_ ?_ ?_ ?_⟩
  · rw [hself]
    rfl
  · rw [hself]
    refine ⟨fun _ hp => (by cases hp), fun _ hp => (by cases hp), fun _ hj => (by cases hj),
      fun _ hp => (by cases hp), ?_⟩
    unfold Thread.todo
    rw [hpc]
    exact List.tail_sublist _
  · rw [hself]
    exact fun _ _ _ => ⟨rfl, rfl⟩
  · apply account_idle <;> simp [hpc, hself, Pc.entered]

theorem Inv.getBook (h : Inv s V) (hpc : (s.thread t).pc = .getBook j)
    (hs : s.step t = some s') : ∃ V', Inv s' V' ∧ Quiet s s' V V' := by
  rw [Sys.step, hpc] at hs
  dsimp only at hs
  split at hs
  · cases Option.some.inj hs
    exact h.stay_job hpc (.putBook j) rfl rfl rfl (Or.inl rfl) rfl rfl (fun _ _ hb => hb)
      fun _ _ hb => hb
  · cases Option.some.inj hs
    exact h.stay_job hpc (.lockBook j) rfl rfl rfl (Or.inl rfl) rfl rfl (fun _ _ hb => hb)
      fun _ _ hb => hb

theorem Inv.putBook (h : Inv s V) (hpc : (s.thread t).pc = .putBook j)
    (hs : s.step t = some s') : ∃ V', Inv s' V' ∧ Quiet s s' V V' := by
  rw [Sys.step, hpc] at hs
  have hs' := Option.some.inj hs
  have hself : s'.thread t = { s.thread t with pc := .getBook j } := by
    rw [← hs']
    exact Function.update_self ..
  -- a book that is not there reads as an empty one
  have hget : ∀ i, s'.getBook i = s.getBook i := by
    intro i
    rw [← hs']
    show (HashMap.put s.orderBooks j.book SharedBook.empty i).getD SharedBook.empty =
      (s.orderBooks i).getD SharedBook.empty
    by_cases hi : i = j.book
    · subst hi
      cases hb : s.orderBooks j.book with
      | none => rw [HashMap.put_of_none _ hb, Function.update_self]; rfl
      | some b => simp only [HashMap.put, hb]
    · rw [HashMap.put_of_ne _ _ hi]
  have hl : Light s s' t := by
    refine ⟨?_, by rw [← hs']; rfl, by rw [← hs']; rfl, by rw [← hs']; rfl, by rw [← hs']; rfl, ?_, ?_⟩
    · intro u hu
      rw [← hs']
      exact Function.update_of_ne hu ..
    · intro i
      rw [hget]
    · intro i hi
      rw [← hs']
      show HashMap.put s.orderBooks j.book SharedBook.empty i ≠ none
      by_cases hij : i = j.book
      · subst hij
        rcases Option.ne_none_iff_exists'.mp hi with ⟨b, hb⟩
        simpa only [HashMap.put, hb] using hi
      · rwa [HashMap.put_of_ne _ _ hij]
  refine ⟨V, h.stay_free hpc hl ?_ (fun _ _ _ _ => ⟨id, id⟩) ?_ ?_ ?_ ?_⟩
  · intro i sd
    unfold Sys.chain
    rw [hget]
  · rw [hself]
    rfl
  · apply h.turn hpc rfl
    · rw [hself]
      rfl
    · rw [hself]
      exact Or.inl rfl
    · rw [hself]
  · rw [hself]
    exact fun _ _ _ => ⟨rfl, rfl⟩
  · apply account_idle <;> simp [hpc, hself, Pc.entered]

/-- `Engine::orders.get(...)` finds the order. -/
theorem Inv.getOrder_hit (h : Inv s V) {order : OrderPtr}
    (hpc : (s.thread t).pc = .getOrder orderId inputTime) (hget : s.orders orderId = some order) :
    ∃ V', Inv (s.goto t (.getBookOf order)) V' ∧ Quiet s (s.goto t (.getBookOf order)) V V' := by
  have hself : ((s.goto t (.getBookOf order)).thread t) =
      { s.thread t with pc := .getBookOf order } := Function.update_self ..
  have hmap := h.objs.mapped orderId order hget
  refine ⟨V, h.stay_free hpc (Light.goto ..) (fun _ _ => rfl) (fun _ _ _ _ => ⟨id, id⟩) ?_ ?_ ?_ ?_⟩
  · rw [hself]
    rfl
  · rw [hself]
    refine ⟨fun _ hp => (by cases hp), ?_, fun _ hj => (by cases hj), ?_, ?_⟩
    · intro p hp
      cases hp
      exact hmap.1
    · intro p hp
      cases hp
      exact hmap.2.2
    · unfold Thread.todo
      rw [hpc]
  · rw [hself]
    exact fun _ _ _ => ⟨rfl, rfl⟩
  · apply account_idle <;> simp [hpc, hself, Pc.entered]

theorem sideOf_eq {o : Order ℕ I} (h : o.type = sideType sd) : OrderBook.sideOf o = sd := by
  unfold OrderBook.sideOf
  rw [h]
  cases sd <;> rfl

theorem Inv.getBookOf (h : Inv s V) {order : OrderPtr} (hpc : (s.thread t).pc = .getBookOf order)
    (hs : s.step t = some s') : ∃ V', Inv s' V' ∧ Quiet s s' V V' := by
  rw [Sys.step, hpc] at hs
  dsimp only at hs
  have hlt : order < s.nextPtr := h.objs.ref t order (by rw [hpc]; rfl)
  rcases h.objs.type order hlt with ⟨sd, hsd⟩
  have hside := sideOf_eq hsd
  split at hs
  · cases hs
  · cases Option.some.inj hs
    rw [hside]
    have hself : ((s.goto t (.lockHead ⟨(s.heap order).instrument, sd, order⟩)).thread t) =
        { s.thread t with pc := .lockHead ⟨(s.heap order).instrument, sd, order⟩ } :=
      Function.update_self ..
    refine ⟨V, h.stay_free hpc (Light.goto ..) (fun _ _ => rfl) (fun _ _ _ _ => ⟨id, id⟩)
      ?_ ?_ ?_ ?_⟩
    · rw [hself]
      rfl
    · rw [hself]
      refine ⟨fun _ hp => (by cases hp), ?_, ?_, fun _ hp => (by cases hp), ?_⟩
      · intro p hp
        cases hp
        exact hlt
      · intro j hj
        cases hj
        exact ⟨hsd, rfl⟩
      · unfold Thread.todo
        rw [hpc]
    · rw [hself]
      exact fun _ _ _ => ⟨rfl, rfl⟩
    · apply account_idle <;> simp [hpc, hself, Pc.entered]

/-- The output for an id that the map does not know. -/
theorem Inv.printMiss (h : Inv s V) (hpc : (s.thread t).pc = .printMiss orderId inputTime)
    (hs : s.step t = some s') : ∃ V', Inv s' V' ∧ Quiet s s' V V' := by
  rw [Sys.step, hpc] at hs
  cases Option.some.inj hs
  have hprint : (s.print t (.deleted orderId false inputTime)).thread t =
      { s.thread t with out := (s.thread t).out ++ [.deleted orderId false inputTime] } :=
    Function.update_self ..
  have hself : ((s.print t (.deleted orderId false inputTime)).finish t).thread t = _ :=
    Function.update_self ..
  rw [hprint] at hself
  refine ⟨V, h.stay_free hpc ((Light.print ..).trans (Light.finish ..)) (fun _ _ => rfl)
    (fun _ _ _ _ => ⟨id, id⟩) ?_ ?_ ?_ ?_⟩
  · rw [hself]
    rfl
  · apply turn_finish
    · rw [hpc]
      rintro ⟨⟩
    · rw [hself]
    · rw [hself]
  · rw [hself]
    exact fun _ _ _ => ⟨rfl, rfl⟩
  · apply account_finish
    · rw [hpc]
      rfl
    · rw [hprint]
    · rw [hprint]
    · rw [hprint]
      unfold promise
      rw [hpc]
      simp [Pc.lines, Pc.job]

/-- `m.lock()`. -/
theorem Inv.lockBook (h : Inv s V) (hpc : (s.thread t).pc = .lockBook j)
    (hs : s.step t = some s') : ∃ V', Inv s' V' ∧ Quiet s s' V V' := by
  rw [Sys.step, hpc] at hs
  dsimp only at hs
  unfold Sys.lockM at hs
  have hnot : (s.getBook j.book).m ≠ some t := by
    intro hm
    have hbl := (h.bookM j.book t).mp hm
    rw [hpc] at hbl
    cases hbl
  cases hm : (s.getBook j.book).m with
  | some u =>
    rw [hm] at hs hnot
    dsimp only at hs
    rw [if_neg fun heq => hnot (congrArg some heq)] at hs
    cases hs
  | none =>
    rw [hm] at hs
    have hs' := Option.some.inj hs
    have hself : s'.thread t = { s.thread t with pc := .lockMatchHead j } := by
      rw [← hs']
      exact Function.update_self ..
    have hother : ∀ u, u ≠ t → s'.thread u = s.thread u := by
      intro u hu
      rw [← hs']
      exact Function.update_of_ne hu ..
    have hget : ∀ i, s'.getBook i =
        if i = j.book then { s.getBook j.book with m := some t } else s.getBook i := by
      intro i
      rw [← hs']
      exact s.getBook_setBook j.book i _
    have hchain : ∀ i sd, s'.chain i sd = s.chain i sd := by
      intro i sd
      unfold Sys.chain
      rw [hget]
      split
      next hi => rw [hi]
      · rfl
    have hheap : s'.heap = s.heap := by rw [← hs']; rfl
    refine ⟨V, ?_, ?_⟩
    · apply h.move hother
      · rw [← hs']
        exact h.fault
      · intro p _
        rw [hheap]
      · intro u p _ _
        rw [hheap]
      · intro i sd
        rw [hchain, hheap]
        exact h.shows i sd
      · exact fun _ _ => Change.refl t _
      · intro i u
        rw [hget]
        by_cases hi : i = j.book
        · subst hi
          rw [if_pos rfl]
          by_cases hu : u = t
          · subst hu
            rw [hself]
            exact iff_of_true rfl rfl
          · rw [hother u hu, ← h.bookM, hm]
            exact iff_of_false (fun heq => hu (Option.some.inj heq).symm) (fun hn => by cases hn)
        · rw [if_neg hi, h.bookM]
          by_cases hu : u = t
          · subst hu
            rw [hself, hpc]
            exact iff_of_false (fun hn => by cases hn) fun heq => hi (Option.some.inj heq).symm
          · rw [hother u hu]
      · intro i sd
        rw [hself, hheap]
        apply (h.holds t i sd).imp
        intro cells nxt _ hb
        rw [hpc] at hb
        have hj : (.lockBook j : Pc ℕ I).job = some j := rfl
        exact Pc.block_imp hj rfl id id hb
      · exact h.volume
      · apply h.objs.move (t := t) ⟨hother, by rw [← hs']; rfl, fun p => by rw [hheap], ?_, ?_⟩
        · apply h.turn hpc rfl
          · rw [hself]
            rfl
          · rw [hself]
            exact Or.inl rfl
          · rw [hself]
        · exact fun _ _ => List.Sublist.refl _
        · intro i hi
          rw [← hs']
          show Function.update s.orderBooks j.book _ i ≠ none
          by_cases hij : i = j.book
          · subst hij
            rw [Function.update_self]
            rintro ⟨⟩
          · rwa [Function.update_of_ne hij]
        · intro id p hp
          rwa [← hs'] at hp
    · constructor
      · exact fun _ _ => rfl
      · intro u
        by_cases hu : u = t
        · subst hu
          apply account_idle <;> simp [hpc, hself, Pc.entered]
        · unfold account promise
          rw [hother u hu, hheap]

end MatchingEngine.Cpp
