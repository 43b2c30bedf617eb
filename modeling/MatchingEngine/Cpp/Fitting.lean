import MatchingEngine.Cpp.Words
import MatchingEngine.Cpp.Deadlock
import MatchingEngine.Cpp.Received

/-!
# Runs in which no word wraps

Three results of the code can be too large for their types: the count as an `int`, `v` less a volume
and a volume plus a count.  As long as these fit every step is exact, because the volume of a node is
the sum of its counts and an order is partly filled at most as often as it has units.
-/

set_option linter.unusedSectionVars false

namespace MatchingEngine.Cpp

open LockChain

variable {I T : Type} [DecidableEq I] [DecidableEq T] {t : T}

/-- The three results that the step of thread `t` can compute fit. -/
structure Sys.Fits (s : Sys UInt32 I T) (t : T) : Prop where
  head : ∀ j, (s.thread t).pc = .lockMatchHead j → InInt (s.heap j.order).count.toNat
  walk : ∀ j v curr, (s.thread t).pc = .walk j v (some curr) → 0 < v →
    j.side.opp.Crosses (s.heap j.order).price (s.node j.book j.side.opp curr).price →
    InInt (v - (s.node j.book j.side.opp curr).volume.toNat)
  insert : ∀ j curr, (s.thread t).pc = .addInsert j curr →
    (s.node j.book j.side curr).volume.toNat + (s.heap j.order).count.toNat < 2 ^ 32

/-- The states that runs with `uint32_t` counts reach while the results fit. -/
inductive Sys.Fitting (heap : Heap UInt32 I) (cmds : T → List (Command UInt32 I)) :
    Sys UInt32 I T → Prop
  | init : Fitting heap cmds (Sys.init heap cmds)
  | step {s s' : Sys UInt32 I T} {t : T} (h : Fitting heap cmds s) (hfit : s.Fits t)
      (hs : s.step t = some s') : Fitting heap cmds s'

/-- The commands with their counts as numbers. -/
def commandsToNat (cmds : T → List (Command UInt32 I)) : T → List (Command ℕ I) :=
  fun t => (cmds t).map Command.toNat

/-! ## The execution ids -/

/-- Every partial fill takes a unit of the count and gives one to the execution id. -/
def Sys.Numbered (s : Sys ℕ I T) : Prop :=
  ∀ p < s.nextPtr, (s.heap p).executionId + (s.heap p).count ≤ 2 ^ 32

section Numbered

variable {s s' : Sys ℕ I T} {V : View I T} {heap : Heap ℕ I} {order it p : OrderPtr}

theorem execHeap_numbered (hcount : (heap order).count ≠ 0)
    (h : (heap p).executionId + (heap p).count ≤ 2 ^ 32) :
    (execHeap heap order it p).executionId + (execHeap heap order it p).count ≤ 2 ^ 32 := by
  unfold execHeap
  split
  · -- the whole resting order
    by_cases hp : p = order
    · subst hp
      rw [Function.update_self]
      dsimp only
      omega
    · rwa [Function.update_of_ne hp]
  next hfills =>
    by_cases hp : p = order
    · subst hp
      rw [Function.update_self]
      dsimp only
      by_cases hit : p = it
      · exact absurd (by rw [hit]) hfills
      · rw [Function.update_of_ne hit]
        omega
    · rw [Function.update_of_ne hp]
      by_cases hit : p = it
      · subst hit
        rw [Function.update_self]
        dsimp only
        have hlt : (heap order).count < (heap p).count := not_le.mp hfills
        omega
      · rwa [Function.update_of_ne hit]

/-- A command of the engine brings a word. -/
theorem Stepped.numbered (hs : Stepped s s' t) (h : s.Numbered)
    (hword : ∀ sd orderId i price count inputTime, (s.thread t).cmds.head? =
      some (.order sd orderId i price count inputTime) → count < 2 ^ 32) : s'.Numbered := by
  cases hs with
  | @readOrder _ _ _ _ count _ hpc hcmd hs =>
    subst hs
    intro p hp
    have hcount := hword _ _ _ _ _ _ hcmd
    by_cases heq : p = s.nextPtr
    · subst heq
      show (Function.update s.heap s.nextPtr _ s.nextPtr).executionId +
        (Function.update s.heap s.nextPtr _ s.nextPtr).count ≤ 2 ^ 32
      rw [Function.update_self]
      show 1 + count ≤ 2 ^ 32
      omega
    · show (Function.update s.heap s.nextPtr _ p).executionId +
        (Function.update s.heap s.nextPtr _ p).count ≤ 2 ^ 32
      rw [Function.update_of_ne heq]
      exact h p (lt_of_le_of_ne (Nat.lt_succ_iff.mp hp) heq)
  | readCancel hpc hcmd hs | miss hpc hget hs | hit hpc hget hs | aim hpc hs =>
    subst hs
    exact h
  | go hpc hs hj hj' hphase hquiet =>
    intro p hp
    rw [hs.nextPtr] at hp
    rw [hs.heap]
    exact h p hp
  | exec hpc hthread hcount hheap horders hnext hlog =>
    intro p hp
    rw [hnext] at hp
    rw [hheap]
    exact execHeap_numbered hcount (h p hp)
  | insert hpc hthread hheap horders hnext hlog | accept hpc hthread hheap horders hnext hlog =>
    intro p hp
    rw [hnext] at hp
    rw [hheap]
    exact h p hp
  | print hpc hs hj hj' hphase hline hearly hquiet | printLast hpc hline hphase hs =>
    subst hs
    exact h
  | finish hphase hs =>
    intro p hp
    rw [hs.nextPtr] at hp
    rw [hs.heap]
    exact h p hp

theorem le_total {rs : List (Order ℕ I)} {r : Order ℕ I} (h : r ∈ rs) : r.count ≤ total rs :=
  List.single_le_sum (fun _ _ => Nat.zero_le _) _ (List.mem_map_of_mem h)

/-- The order that is next in the vector counts in the volume of the node. -/
theorem Inv.count_le_volume (h : Inv s V) {j : Job I} {v : ℤ} {curr : Addr}
    {its : List OrderPtr} {k : ℕ} (hpc : (s.thread t).pc = .matchNode j v curr (it :: its) k)
    (hz : (s.heap j.order).count ≠ 0) :
    (s.heap it).count ≤ (s.node j.book j.side.opp curr).volume := by
  rcases h.opp hpc rfl with ⟨l, cells, r, hV, -, -, ⟨c, as, rfl, rfl, hpend, -, hits, -⟩⟩
  have hc : c ∈ V j.book j.side.opp := by
    rw [hV]
    simp
  have hnode : (s.node j.book j.side.opp c.addr).toOrderNode = c.node :=
    (h.shows j.book j.side.opp).node c hc
  rw [show (s.node j.book j.side.opp c.addr).volume = c.node.volume from
    congrArg OrderNode.volume hnode, h.volume _ _ c hc, hpend]
  have hlist : it :: its = c.node.orders.reverse.drop k := hits.resolve_left hz
  have hmem : it ∈ c.node.orders.take (c.node.orders.length - k) := by
    have hit : it ∈ c.node.orders.reverse.drop k := hlist ▸ List.mem_cons_self
    rwa [List.drop_reverse, List.mem_reverse] at hit
  apply le_total
  rw [← (h.shows j.book j.side.opp).orders c hc, ← List.map_take, List.length_map]
  exact List.mem_map_of_mem hmem

theorem Inv.cancelled_le_volume (h : Inv s V) {j : Job I} {curr : Addr}
    (hpc : (s.thread t).pc = .cancelTest j (some curr))
    (hany : (s.node j.book j.side curr).orders.any (s.sameId j.order) = true) :
    (s.heap j.order).count ≤ (s.node j.book j.side curr).volume := by
  rcases h.own hpc rfl with ⟨l, cells, r, hV, -, -, ⟨c, rfl, rfl, hpend, -⟩⟩
  have hc : c ∈ V j.book j.side := by
    rw [hV]
    simp
  have hnode : (s.node j.book j.side c.addr).toOrderNode = c.node :=
    (h.shows j.book j.side).node c hc
  rw [show (s.node j.book j.side c.addr).orders = c.node.orders from
    congrArg OrderNode.orders hnode] at hany
  rw [show (s.node j.book j.side c.addr).volume = c.node.volume from
    congrArg OrderNode.volume hnode, h.volume _ _ c hc, hpend]
  rcases List.any_eq_true.mp hany with ⟨p, hp, hid⟩
  have hlt : p < s.nextPtr := (h.objs.place _ _ p (mem_ptrs.mpr ⟨c, hc, hp⟩)).1
  have hp' : p = j.order :=
    h.objs.ids p j.order hlt (h.objs.ref t _ (Pc.ref_of_job (hpc ▸ rfl))) (of_decide_eq_true hid)
  subst hp'
  apply le_total
  rw [← (h.shows j.book j.side).orders c hc]
  show s.heap j.order ∈ (c.node.orders.map s.heap).take ((c.node.orders.map s.heap).length - 0)
  rw [Nat.sub_zero, List.take_length]
  exact List.mem_map_of_mem hp

end Numbered

/-! ## Every step is exact -/

variable {s s' : Sys UInt32 I T} {V : View I T} {heap : Heap UInt32 I}
  {cmds : T → List (Command UInt32 I)}

theorem Sys.Fits.exact (hfit : s.Fits t) (h : Inv s.toNat V) (hnum : s.toNat.Numbered) :
    s.Exact t where
  head := hfit.head
  walk := hfit.walk
  insert := hfit.insert
  trade := by
    intro j v curr it its k hpc hz
    have hpc' : (s.toNat.thread t).pc = .matchNode j v curr (it :: its) k := pc_toNat hpc
    have hz' : (s.toNat.heap j.order).count ≠ 0 := fun heq => hz (UInt32.toNat.inj heq)
    have hit : it < s.toNat.nextPtr := by
      rcases mem_ptrs.mp (h.its_mem hpc' hz' it List.mem_cons_self) with ⟨c, hc, hp⟩
      exact (h.objs.place _ _ it (mem_ptrs.mpr ⟨c, hc, hp⟩)).1
    constructor
    · have hle := h.count_le_volume hpc' hz'
      rw [Sys.node_toNat] at hle
      have hmatched : countMatched s.heap j.order it ≤ (s.heap it).count := by
        unfold countMatched
        split
        · exact UInt32.le_refl _
        next hfills => exact (not_le.mp hfills).le
      exact hmatched.trans (UInt32.le_iff_toNat_le.mpr hle)
    · intro hfills
      have hsum := hnum it hit
      have hlt : (s.heap j.order).count.toNat < (s.heap it).count.toNat :=
        UInt32.lt_iff_toNat_lt.mp (not_le.mp hfills)
      have hpos : (s.heap j.order).count.toNat ≠ 0 := hz'
      have hid : (s.toNat.heap it).executionId = (s.heap it).executionId.toNat := rfl
      have hcount : (s.toNat.heap it).count = (s.heap it).count.toNat := rfl
      omega
  cancel := by
    intro j curr hpc _ hany
    have hle := h.cancelled_le_volume (pc_toNat hpc) (by
      rw [Sys.node_toNat, sameId_toNat]
      exact hany)
    rw [Sys.node_toNat] at hle
    exact UInt32.le_iff_toNat_le.mpr hle

/-- While the results fit, the engine with words does what the engine with numbers does. -/
theorem Sys.Fitting.simulates (hids : UniqueIds (commandsToNat cmds)) (h : Fitting heap cmds s) :
    Reachable (fun p => (heap p).toNat) (commandsToNat cmds) s.toNat ∧ s.toNat.Numbered := by
  induction h with
  | init =>
    rw [toNat_init]
    exact ⟨.init, fun p hp => absurd hp (Nat.not_lt_zero p)⟩
  | @step s s' t h hfit hs ih =>
    rcases ih with ⟨hreach, hnum⟩
    rcases hreach.inv hids with ⟨⟨V, hinv⟩, -⟩
    have hs' := step_toNat (hfit.exact hinv hnum) hs
    have hreach' := hreach.step hs'
    rcases hreach'.inv hids with ⟨⟨V', hinv'⟩, -⟩
    refine ⟨hreach', (step_cases hs' hinv'.fault).numbered hnum ?_⟩
    intro sd orderId i price count inputTime hcmd
    have hmap : (s.toNat.thread t).cmds = (s.thread t).cmds.map Command.toNat := rfl
    rw [hmap, List.head?_map, Option.map_eq_some_iff] at hcmd
    rcases hcmd with ⟨c, -, hc⟩
    cases c with
    | order sd orderId i price count inputTime =>
      cases hc
      exact count.toNat_lt
    | cancel orderId inputTime => cases hc

/-! ## Sessions whose counts add up to less than 2^31 -/

/-- The count a command brings. -/
def Command.brings {N I : Type} [Quantity N] : Command N I → ℕ
  | .order _ _ _ _ count _ => Quantity.value count
  | .cancel _ _ => 0

section Submitted

variable [Fintype T] {s s' : Sys ℕ I T} {V : View I T} {p : OrderPtr}

def Thread.unread (th : Thread ℕ I) : ℕ := (th.todo.map Command.brings).sum

/-- What the orders have left, with what the threads have not read. -/
def Sys.submitted (s : Sys ℕ I T) : ℕ :=
  ∑ p ∈ Finset.range s.nextPtr, (s.heap p).count + ∑ t, (s.thread t).unread

theorem execHeap_count_le (heap : Heap ℕ I) (order it p : OrderPtr) :
    (execHeap heap order it p).count ≤ (heap p).count := by
  unfold execHeap
  split
  · by_cases hp : p = order
    · subst hp
      rw [Function.update_self]
      exact Nat.sub_le ..
    · rw [Function.update_of_ne hp]
  · by_cases hp : p = order
    · subst hp
      rw [Function.update_self]
      exact Nat.zero_le _
    · rw [Function.update_of_ne hp]
      by_cases hit : p = it
      · subst hit
        rw [Function.update_self]
        exact Nat.sub_le ..
      · rw [Function.update_of_ne hit]

theorem Pc.ready_of_job {pc : Pc ℕ I} {j : Job I} (h : pc.job = some j) : pc ≠ .ready := by
  rintro rfl
  cases h

theorem Thread.todo_of_ne {th : Thread ℕ I} (h : th.pc ≠ .ready) : th.todo = th.cmds.tail := by
  unfold Thread.todo
  split
  next hpc => exact absurd hpc h
  · rfl

/-- What is to be read stays, but for the command that is read. -/
theorem Stepped.todo (hs : Stepped s s' t) : (s'.thread t).todo = (s.thread t).todo ∨
    (s.thread t).pc = .ready ∧ (s'.thread t).todo = (s.thread t).todo.tail := by
  have hsame : ∀ th' : Thread ℕ I, (s.thread t).pc ≠ .ready → th'.pc ≠ .ready →
      th'.cmds = (s.thread t).cmds → th'.todo = (s.thread t).todo := by
    intro th' h h' hcmds
    rw [Thread.todo_of_ne h, Thread.todo_of_ne h', hcmds]
  have hread : ∀ th' : Thread ℕ I, (s.thread t).pc = .ready → th'.pc ≠ .ready →
      th'.cmds = (s.thread t).cmds → th'.todo = (s.thread t).todo.tail := by
    intro th' h h' hcmds
    rw [Thread.todo_of_ne h', hcmds]
    unfold Thread.todo
    rw [h]
  have hend : ∀ th' : Thread ℕ I, (s.thread t).pc ≠ .ready → th'.pc = .ready →
      th'.cmds = (s.thread t).cmds.tail → th'.todo = (s.thread t).todo := by
    intro th' h h' hcmds
    rw [Thread.todo_of_ne h, ← hcmds]
    unfold Thread.todo
    rw [h']
  cases hs with
  | readOrder hpc hcmd hs | readCancel hpc hcmd hs =>
    subst hs
    refine Or.inr ⟨hpc, ?_⟩
    simp only [Sys.goto, Function.update_self]
    exact hread _ hpc (by rintro ⟨⟩) rfl
  | miss hpc hget hs | hit hpc hget hs | aim hpc hs =>
    subst hs
    refine Or.inl ?_
    simp only [Sys.goto, Function.update_self]
    exact hsame _ (by rw [hpc]; rintro ⟨⟩) (by rintro ⟨⟩) rfl
  | go hpc hs hj hj' hphase hquiet =>
    rw [hs.thread, Function.update_self]
    exact Or.inl (hsame _ (hpc ▸ Pc.ready_of_job hj) (Pc.ready_of_job hj') rfl)
  | exec hpc hthread hcount hheap horders hnext hlog
  | insert hpc hthread hheap horders hnext hlog | accept hpc hthread hheap horders hnext hlog =>
    rw [hthread, Function.update_self]
    exact Or.inl (hsame _ (by rw [hpc]; rintro ⟨⟩) (by rintro ⟨⟩) rfl)
  | print hpc hs hj hj' hphase hline hearly hquiet =>
    subst hs
    simp only [Sys.goto, Sys.print, Function.update_self]
    exact Or.inl (hsame _ (hpc ▸ Pc.ready_of_job hj) (Pc.ready_of_job hj') rfl)
  | printLast hpc hline hphase hs =>
    subst hs
    simp only [Sys.finish, Sys.print, Function.update_self]
    refine Or.inl (hend _ ?_ rfl rfl)
    rintro heq
    rw [← hpc, heq] at hphase
    rcases hphase with hphase | hphase <;> cases hphase
  | finish hphase hs =>
    rw [hs.thread, Function.update_self]
    refine Or.inl (hend _ ?_ rfl rfl)
    intro heq
    rw [heq] at hphase
    rcases hphase with ⟨hphase, -⟩ | hphase | hphase <;> cases hphase

theorem Stepped.unread_other (hs : Stepped s s' t) {u : T} (hu : u ≠ t) :
    (s'.thread u).unread = (s.thread u).unread := by
  rw [hs.other hu]

/-- Nothing comes from nowhere. -/
theorem Stepped.submitted (hs : Stepped s s' t) : s'.submitted ≤ s.submitted := by
  have hsum : ∀ n, (s'.thread t).unread + n ≤ (s.thread t).unread →
      ∑ u, (s'.thread u).unread + n ≤ ∑ u, (s.thread u).unread := by
    intro n hn
    rw [← Finset.add_sum_erase _ _ (Finset.mem_univ t),
      ← Finset.add_sum_erase (a := t) _ (fun u => (s.thread u).unread) (Finset.mem_univ t)]
    have hrest : ∑ u ∈ Finset.univ.erase t, (s'.thread u).unread =
        ∑ u ∈ Finset.univ.erase t, (s.thread u).unread :=
      Finset.sum_congr rfl fun u hu => hs.unread_other (Finset.ne_of_mem_erase hu)
    omega
  have hle : (s'.thread t).unread ≤ (s.thread t).unread := by
    unfold Thread.unread
    rcases hs.todo with heq | ⟨-, heq⟩
    · rw [heq]
    · rw [heq, List.map_tail]
      exact (List.tail_sublist _).sum_le_sum fun _ _ => Nat.zero_le _
  have hkeep : s'.nextPtr = s.nextPtr → (∀ p, (s'.heap p).count ≤ (s.heap p).count) →
      s'.submitted ≤ s.submitted := by
    intro hnext hcount
    unfold Sys.submitted
    rw [hnext]
    have hheap : ∑ p ∈ Finset.range s.nextPtr, (s'.heap p).count ≤
        ∑ p ∈ Finset.range s.nextPtr, (s.heap p).count :=
      Finset.sum_le_sum fun p _ => hcount p
    have hthreads := hsum 0 hle
    omega
  cases hs with
  | @readOrder side orderId instrument price count inputTime hpc hcmd hs =>
    have hunread : (s'.thread t).unread + count ≤ (s.thread t).unread := by
      have htodo : (s.thread t).todo = (s.thread t).cmds := by
        unfold Thread.todo
        rw [hpc]
      have htodo' : (s'.thread t).todo = (s.thread t).cmds.tail := by
        subst hs
        simp only [Sys.goto, Function.update_self]
        rfl
      unfold Thread.unread
      rw [htodo, htodo']
      cases hcmds : (s.thread t).cmds with
      | nil =>
        rw [hcmds] at hcmd
        cases hcmd
      | cons c cs =>
        rw [hcmds] at hcmd
        cases hcmd
        rw [List.map_cons, List.sum_cons]
        exact (Nat.add_comm ..).le
    have hthreads := hsum count hunread
    have hnext : s'.nextPtr = s.nextPtr + 1 := by
      rw [hs]
      rfl
    have hheap : ∑ p ∈ Finset.range s'.nextPtr, (s'.heap p).count =
        ∑ p ∈ Finset.range s.nextPtr, (s.heap p).count + count := by
      have halloc : s'.heap = Function.update s.heap s.nextPtr
          (newOrder side orderId instrument price count inputTime) := by
        rw [hs]
        rfl
      rw [hnext, Finset.sum_range_succ, halloc]
      congr 1
      · apply Finset.sum_congr rfl
        intro p hp
        rw [Function.update_of_ne (Nat.ne_of_lt (Finset.mem_range.mp hp))]
      · rw [Function.update_self]
        rfl
    unfold Sys.submitted
    rw [hheap]
    omega
  | readCancel hpc hcmd hs | miss hpc hget hs | hit hpc hget hs | aim hpc hs =>
    subst hs
    exact hkeep rfl fun _ => le_rfl
  | go hpc hs hj hj' hphase hquiet =>
    apply hkeep hs.nextPtr
    intro p
    rw [hs.heap]
  | exec hpc hthread hcount hheap horders hnext hlog =>
    apply hkeep hnext
    intro p
    rw [hheap]
    exact execHeap_count_le ..
  | insert hpc hthread hheap horders hnext hlog | accept hpc hthread hheap horders hnext hlog =>
    apply hkeep hnext
    intro p
    rw [hheap]
  | print hpc hs hj hj' hphase hline hearly hquiet | printLast hpc hline hphase hs =>
    subst hs
    exact hkeep rfl fun _ => le_rfl
  | finish hphase hs =>
    apply hkeep hs.nextPtr
    intro p
    rw [hs.heap]

/-- A vector holds orders that are all different. -/
theorem Inv.total_le (h : Inv s V) {i : I} {sd : Side} {c : Cell I T} (hc : c ∈ V i sd)
    (ps : List OrderPtr) (hps : (ps ++ c.node.orders).Nodup) (hlt : ∀ p ∈ ps, p < s.nextPtr) :
    total (ps.map s.heap) + total c.orders ≤ s.submitted := by
  rw [← total_append, ← (h.shows i sd).orders c hc, ← List.map_append]
  have hsum : total ((ps ++ c.node.orders).map s.heap) =
      ∑ p ∈ (ps ++ c.node.orders).toFinset, (s.heap p).count := by
    rw [List.sum_toFinset _ hps]
    unfold total
    rw [List.map_map]
    rfl
  rw [hsum]
  refine le_trans (Finset.sum_le_sum_of_subset ?_) (Nat.le_add_right ..)
  intro p hp
  rw [Finset.mem_range]
  rcases List.mem_append.mp (List.mem_toFinset.mp hp) with hp | hp
  · exact hlt p hp
  · exact (h.objs.place i sd p (mem_ptrs.mpr ⟨c, hc, hp⟩)).1

theorem Sys.count_le_submitted (hp : p < s.nextPtr) : (s.heap p).count ≤ s.submitted :=
  le_trans (Finset.single_le_sum (f := fun q => (s.heap q).count) (fun _ _ => Nat.zero_le _)
    (Finset.mem_range.mpr hp)) (Nat.le_add_right ..)

theorem total_take_le (rs : List (Order ℕ I)) (k : ℕ) : total (rs.take k) ≤ total rs := by
  conv_rhs => rw [← List.take_append_drop k rs, total_append]
  exact Nat.le_add_right ..

theorem left_le (c : ℕ) (cs : List (Cell I T)) : left c cs ≤ c := by
  induction cs generalizing c with
  | nil => exact le_rfl
  | cons d cs ih => exact (ih _).trans (Nat.sub_le ..)

theorem Inv.volume_le_total (h : Inv s V) {i : I} {sd : Side} {c : Cell I T} (hc : c ∈ V i sd) :
    (s.node i sd c.addr).volume ≤ total c.orders := by
  have hnode : (s.node i sd c.addr).toOrderNode = c.node := (h.shows i sd).node c hc
  rw [show (s.node i sd c.addr).volume = c.node.volume from congrArg OrderNode.volume hnode,
    h.volume i sd c hc]
  exact total_take_le ..

theorem Inv.volume_le (h : Inv s V) {i : I} {sd : Side} {c : Cell I T} (hc : c ∈ V i sd) :
    (s.node i sd c.addr).volume ≤ s.submitted := by
  have hnodup : ([] ++ c.node.orders).Nodup := by
    rcases List.append_of_mem hc with ⟨l, r, hV⟩
    have hall := h.objs.nodup i sd
    rw [hV, ptrs_append, ptrs_cons] at hall
    exact (List.nodup_append.mp (List.nodup_append.mp hall).2.1).1
  have hsum := h.total_le hc [] hnodup (by simp)
  have hvol := h.volume_le_total hc
  omega

end Submitted

section Session

variable [Fintype T]

theorem inInt_of_lt {n : ℕ} (h : n < 2 ^ 31) : InInt (n : ℤ) := by
  unfold InInt
  omega

/-- With less than 2^31 units about, every result fits. -/
theorem Inv.fits (h : Inv s.toNat V) (hlt : s.toNat.submitted < 2 ^ 31) : s.Fits t where
  head := by
    intro j hpc
    have href := h.objs.ref t _ (Pc.ref_of_job (congrArg Pc.job (pc_toNat hpc)))
    exact inInt_of_lt ((Sys.count_le_submitted href).trans_lt hlt)
  walk := by
    intro j v curr hpc hv hcross
    have hpc' : (s.toNat.thread t).pc = .walk j v (some curr) := pc_toNat hpc
    have href := h.objs.ref t _ (Pc.ref_of_job (congrArg Pc.job hpc'))
    have hcount := (Sys.count_le_submitted href).trans_lt hlt
    rcases h.opp hpc' rfl with ⟨l, cells, r, hV, -, -, ⟨⟨c, as, -, -, -, hleft⟩, -⟩, hnxt⟩
    have hv' : v.toNat ≤ (s.toNat.heap j.order).count := hleft ▸ left_le ..
    -- the node in front of the stretch
    cases r with
    | nil => cases hnxt
    | cons d r =>
      have hd : d ∈ V j.book j.side.opp := by
        rw [hV]
        simp
      have haddr : d.addr = curr := Option.some.inj hnxt
      have hvol := h.volume_le hd
      rw [haddr, Sys.node_toNat] at hvol
      have hvol' : (s.node j.book j.side.opp curr).volume.toNat ≤ s.toNat.submitted := hvol
      unfold InInt
      omega
  insert := by
    intro j curr hpc
    have hpc' : (s.toNat.thread t).pc = .addInsert j curr := pc_toNat hpc
    have href := h.objs.ref t _ (Pc.ref_of_job (congrArg Pc.job hpc'))
    have hflying := (h.objs.flying t j.order (congrArg Pc.inFlight hpc')).1
    rcases h.own hpc' rfl with ⟨l, cells, r, hV, -, -, ⟨c, rfl, haddr, -, -⟩⟩
    have hc : c ∈ V j.book j.side := by
      rw [hV]
      simp
    have hnodup : ([j.order] ++ c.node.orders).Nodup := by
      apply List.nodup_cons.mpr
      refine ⟨fun hp => hflying _ _ (mem_ptrs.mpr ⟨c, hc, hp⟩), ?_⟩
      have hall := h.objs.nodup j.book j.side
      rw [hV, ptrs_append, ptrs_append, ptrs_cons] at hall
      exact (List.nodup_append.mp (List.nodup_append.mp (List.nodup_append.mp hall).1).2.1).1
    have hsum := h.total_le hc [j.order] hnodup (by simpa using href)
    have hvol := h.volume_le_total hc
    rw [haddr, Sys.node_toNat] at hvol
    have hvol' : (s.node j.book j.side curr).volume.toNat ≤ total c.orders := hvol
    have hone : total ([j.order].map s.toNat.heap) = (s.heap j.order).count.toNat := by
      unfold total
      simp only [List.map_cons, List.map_nil, List.sum_singleton]
      rfl
    omega

end Session

/-- Two orders that trade and a cancel that comes too late. -/
def crossingWords : Bool → List (Command UInt32 String)
  | true => [.order .buy 1 "GOOG" 2705 10 1]
  | false => [.order .sell 2 "GOOG" 2700 10 2, .cancel 2 3]

theorem commandsToNat_crossing : commandsToNat crossingWords = crossing := by
  funext t
  cases t <;> rfl

end MatchingEngine.Cpp
