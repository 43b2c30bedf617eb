import MatchingEngine.Rust.Conservation

/-!
# The counters of the workers

`queued_count` counts what is queued, what was popped and not yet subtracted, and what was added and
not yet pushed; `num_idle` counts the workers whose flag is set.  Once nothing is left to do and all
flags are set, the exit test holds and goes on holding.
-/

namespace MatchingEngine.Rust

/-- Popped tasks whose decrement is pending, and children counted before they are pushed. -/
def Pc.queued {n : ℕ} : Pc n → ℕ
  | .batch _ ts => ts.length + 1
  | .took _ => 1
  | .dequeued _ => 1
  | .push ts => ts.length
  | _ => 0

/-- What `is_idle` is at this place, where the place tells. -/
def Pc.idle {n : ℕ} : Pc n → Option Bool
  | .dequeued _ | .execute _ | .announce _ | .push _ => some false
  | .start | .checkCount | .checkIdle | .addHash | .addDerive | .addRand | .addOutput | .exited =>
    some true
  | _ => none

namespace Worker

variable {n : ℕ}

def queued (w : Worker n) : ℕ := w.localQueue.length + w.pc.queued

/-- `is_idle` once the assignment before the update of `num_idle` is made. -/
def flag (w : Worker n) : Bool :=
  match w.pc with
  | .took _ => false
  | .noTask => true
  | _ => w.isIdle

/-- `num_idle.fetch_sub(1)` is pending. -/
def subPending (w : Worker n) : Bool :=
  match w.pc with
  | .took _ => w.isIdle
  | _ => false

/-- `num_idle.fetch_add(1)` is pending. -/
def addPending (w : Worker n) : Bool :=
  match w.pc with
  | .noTask => !w.isIdle
  | _ => false

theorem flag_pending (w : Worker n) :
    w.isIdle.toNat + w.addPending.toNat = w.flag.toNat + w.subPending.toNat := by
  unfold addPending flag subPending
  cases w.pc <;> cases w.isIdle <;> rfl

end Worker

namespace Runner

variable {n : ℕ} {cr : Crates} {q : List Task} {s s' : Runner n} {i : Fin n} {x x' : ℕ}

def queued (s : Runner n) : ℕ := s.injector.length + ∑ i, (s.worker i).queued

/-- How many workers are idle by their flags. -/
def idle (s : Runner n) : ℕ := ∑ i, (s.worker i).isIdle.toNat

/-- The accounts of a state with `x` tasks on their way between two workers. -/
structure Accounts (x : ℕ) (s : Runner n) : Prop where
  queued : s.queuedCount = UInt64.ofNat (s.queued + x)
  idle : s.numIdle = UInt64.ofNat s.idle
  flags : ∀ i b, (s.worker i).pc.idle = some b → (s.worker i).isIdle = b

theorem accounts_init : Accounts 0 (init q : Runner n) := by
  constructor
  · simp [init, queued, Worker.queued, Pc.queued]
  · simp [init, idle]
  · intro i b hb
    cases hb
    rfl

/-- One worker moves: what has to be checked about it. -/
theorem Accounts.move (h : Accounts x s) {s₀ : Runner n} (hworker : s₀.worker = s.worker)
    (w : Worker n)
    (hqueued : s₀.queuedCount + UInt64.ofNat (s.injector.length + (s.worker i).queued + x) =
      s.queuedCount + UInt64.ofNat (s₀.injector.length + w.queued + x'))
    (hidle : s₀.numIdle + UInt64.ofNat (s.worker i).isIdle.toNat =
      s.numIdle + UInt64.ofNat w.isIdle.toNat)
    (hflags : ∀ b, w.pc.idle = some b → w.isIdle = b) : Accounts x' (s₀.set i w) := by
  constructor
  · rcases sum_set Worker.queued s.worker i w with ⟨r, hr, hr'⟩
    have hq := h.queued
    rw [Runner.queued, hr, show s.injector.length + ((s.worker i).queued + r) + x =
      (s.injector.length + (s.worker i).queued + x) + r by omega, UInt64.ofNat_add] at hq
    show s₀.queuedCount = UInt64.ofNat (s₀.injector.length +
      ∑ j, (Function.update s₀.worker i w j).queued + x')
    rw [hworker, hr', show s₀.injector.length + (w.queued + r) + x' =
      (s₀.injector.length + w.queued + x') + r by omega, UInt64.ofNat_add]
    rw [hq] at hqueued
    grind
  · rcases sum_set (fun w : Worker n => w.isIdle.toNat) s.worker i w with ⟨r, hr, hr'⟩
    have hi := h.idle
    rw [Runner.idle, hr, UInt64.ofNat_add] at hi
    show s₀.numIdle = UInt64.ofNat (∑ j, (Function.update s₀.worker i w j).isIdle.toNat)
    rw [hworker, hr', UInt64.ofNat_add]
    rw [hi] at hidle
    grind
  · intro j b hb
    by_cases hji : j = i
    · subst hji
      rw [set_worker_self] at hb ⊢
      exact hflags b hb
    · rw [set_worker_of_ne _ hji, hworker] at hb ⊢
      exact h.flags j b hb

/-- A worker that moves on without touching a counter. -/
theorem Accounts.moveOn (h : Accounts x s) {s₀ : Runner n} {w : Worker n}
    (hsame : s₀.worker = s.worker ∧ s₀.queuedCount = s.queuedCount ∧ s₀.numIdle = s.numIdle)
    (hqueued : s₀.injector.length + w.queued + x' = s.injector.length + (s.worker i).queued + x)
    (hidle : w.isIdle = (s.worker i).isIdle) (hflags : ∀ b, w.pc.idle = some b → w.isIdle = b) :
    Accounts x' (s₀.set i w) := by
  rcases hsame with ⟨hworker, hq, hi⟩
  apply h.move hworker w _ _ hflags
  · rw [hq, hqueued]
  · rw [hi, hidle]

/-- One access keeps the accounts. -/
theorem step_accounts (h : Accounts 0 s) {c : Choice} (hs : s.step cr i c = some s') :
    Accounts 0 s' := by
  have hf := h.flags i
  unfold step at hs
  dsimp only at hs
  split at hs
  case h_1 hpc => -- start
    split at hs <;> cases hs
    refine h.moveOn ⟨rfl, rfl, rfl⟩ ?_ rfl (fun _ hb => by cases hb)
    simp [Worker.queued, hpc, Pc.queued]
  case h_2 hpc => -- pop
    split at hs
    next hq =>
      cases hs
      refine h.moveOn ⟨rfl, rfl, rfl⟩ ?_ rfl (fun _ hb => by cases hb)
      simp [Worker.queued, hpc, Pc.queued]
    next t ts hq =>
      cases hs
      refine h.moveOn ⟨rfl, rfl, rfl⟩ ?_ rfl (fun _ hb => by cases hb)
      simp [Worker.queued, hpc, hq, Pc.queued]
  case h_3 hpc => -- the injector is empty
    split at hs <;> cases hs
    refine h.moveOn ⟨rfl, rfl, rfl⟩ ?_ rfl (fun _ hb => by cases hb)
    simp [Worker.queued, hpc, Pc.queued]
  case h_4 hpc => -- the injector says `Retry`
    cases hs
    refine h.moveOn ⟨rfl, rfl, rfl⟩ ?_ rfl (fun _ hb => by cases hb)
    simp [Worker.queued, hpc, Pc.queued]
  case h_5 k hpc => -- a batch from the injector
    split at hs <;> cases hs
    next t ts hinj =>
      refine h.moveOn ⟨rfl, rfl, rfl⟩ ?_ rfl (fun _ hb => by cases hb)
      simp only [Worker.queued, hpc, hinj, Pc.queued, List.length_drop, List.length_take,
        List.length_cons]
      omega
  case h_6 t ts hpc => -- the batch arrives
    cases hs
    refine h.moveOn ⟨rfl, rfl, rfl⟩ ?_ rfl (fun _ hb => by cases hb)
    simp only [Worker.queued, hpc, Pc.queued, List.length_append]
    omega
  case h_7 retry hpc => -- every queue was tried
    cases hs
    refine h.moveOn ⟨rfl, rfl, rfl⟩ ?_ rfl ?_
    · cases retry <;> simp [Worker.queued, hpc, Pc.queued]
    · intro b hb
      cases retry <;> cases hb
  case h_8 j victims retry hpc =>
    split at hs
    next hq => -- the victim has nothing
      cases hs
      refine h.moveOn ⟨rfl, rfl, rfl⟩ ?_ rfl (fun _ hb => by cases hb)
      simp [Worker.queued, hpc, Pc.queued]
    next t ts hq => -- a task from the victim's queue
      cases hs
      have htaken : Accounts 1 (s.set j { s.worker j with localQueue := ts }) := by
        refine h.moveOn ⟨rfl, rfl, rfl⟩ ?_ rfl (h.flags j)
        simp only [Worker.queued, hq, List.length_cons]
        omega
      have hpc' : ((s.set j { s.worker j with localQueue := ts }).worker i).pc =
          .stealFrom (j :: victims) retry := by
        by_cases hij : i = j
        · subst hij
          rw [set_worker_self]
          exact hpc
        · rw [set_worker_of_ne _ hij, hpc]
      refine htaken.moveOn ⟨rfl, rfl, rfl⟩ ?_ rfl (fun _ hb => by cases hb)
      simp only [Worker.queued, hpc', Pc.queued]
      omega
  case h_9 victims retry hpc =>
    cases hs
    refine h.moveOn ⟨rfl, rfl, rfl⟩ ?_ rfl (fun _ hb => by cases hb)
    simp [Worker.queued, hpc, Pc.queued]
  case h_10 t hpc => -- `next.is_some()`
    split at hs <;> cases hs
    next hidle =>
      refine h.move ?_ _ ?_ ?_ ?_
      · rfl
      · simp [Worker.queued, hpc, Pc.queued]
      · simp [hidle]
      · intro b hb
        cases hb
        rfl
    next hidle =>
      refine h.moveOn ⟨rfl, rfl, rfl⟩ ?_ rfl ?_
      · simp [Worker.queued, hpc, Pc.queued]
      · intro b hb
        cases hb
        exact Bool.eq_false_iff.mpr hidle
  case h_11 t hpc => -- `queued_count.fetch_sub(1)`
    cases hs
    rw [hpc] at hf
    refine h.move ?_ _ ?_ ?_ ?_
    · rfl
    · simp only [Worker.queued, hpc, Pc.queued, UInt64.ofNat_add]
      grind
    · rfl
    · exact hf
  case h_12 t hpc =>
    cases hs
    rw [hpc] at hf
    refine h.moveOn ⟨rfl, rfl, rfl⟩ ?_ rfl hf
    simp [Worker.queued, hpc, Pc.queued]
  case h_13 ts hpc => -- `queued_count.fetch_add(result.1.len())`
    cases hs
    rw [hpc] at hf
    refine h.move ?_ _ ?_ ?_ ?_
    · rfl
    · simp only [Worker.queued, hpc, Pc.queued, UInt64.ofNat_add]
      grind
    · rfl
    · exact hf
  case h_14 hpc =>
    cases hs
    refine h.moveOn ⟨rfl, rfl, rfl⟩ ?_ rfl (fun _ hb => by cases hb)
    simp [Worker.queued, hpc, Pc.queued]
  case h_15 t ts hpc =>
    cases hs
    rw [hpc] at hf
    refine h.moveOn ⟨rfl, rfl, rfl⟩ ?_ rfl hf
    simp only [Worker.queued, hpc, Pc.queued, List.length_append, List.length_cons, List.length_nil]
    omega
  case h_16 hpc => -- `next` is `None`
    split at hs <;> cases hs
    next hidle =>
      refine h.moveOn ⟨rfl, rfl, rfl⟩ ?_ rfl ?_
      · simp [Worker.queued, hpc, Pc.queued]
      · intro b hb
        cases hb
        exact hidle
    next hidle =>
      refine h.move ?_ _ ?_ ?_ ?_
      · rfl
      · simp [Worker.queued, hpc, Pc.queued]
      · simp [hidle]
      · intro b hb
        cases hb
        rfl
  case h_17 hpc =>
    cases hs
    rw [hpc] at hf
    refine h.moveOn ⟨rfl, rfl, rfl⟩ ?_ rfl ?_
    · by_cases hz : s.queuedCount = 0 <;> simp [Worker.queued, hpc, Pc.queued, hz]
    · intro b hb
      split at hb
      · exact hf b hb
      · cases hb
  case h_18 hpc =>
    cases hs
    rw [hpc] at hf
    refine h.moveOn ⟨rfl, rfl, rfl⟩ ?_ rfl ?_
    · by_cases hz : s.numIdle = UInt64.ofNat n <;> simp [Worker.queued, hpc, Pc.queued, hz]
    · intro b hb
      split at hb
      · exact hf b hb
      · cases hb
  case h_19 hpc =>
    cases hs
    rw [hpc] at hf
    refine h.moveOn ⟨rfl, rfl, rfl⟩ ?_ rfl hf
    simp [Worker.queued, hpc, Pc.queued]
  case h_20 hpc =>
    cases hs
    rw [hpc] at hf
    refine h.moveOn ⟨rfl, rfl, rfl⟩ ?_ rfl hf
    simp [Worker.queued, hpc, Pc.queued]
  case h_21 hpc =>
    cases hs
    rw [hpc] at hf
    refine h.moveOn ⟨rfl, rfl, rfl⟩ ?_ rfl hf
    simp [Worker.queued, hpc, Pc.queued]
  case h_22 hpc =>
    cases hs
    rw [hpc] at hf
    refine h.moveOn ⟨rfl, rfl, rfl⟩ ?_ rfl hf
    simp [Worker.queued, hpc, Pc.queued]
  case h_23 => cases hs

theorem Reachable.accounts (h : Reachable cr q s) : Accounts 0 s := by
  induction h with
  | init => exact accounts_init
  | step _ hs ih => exact step_accounts ih hs

/-! ## Nothing left to do -/

theorem idle_le (s : Runner n) : s.idle ≤ n := by
  have h : s.idle ≤ ∑ _i : Fin n, 1 := Finset.sum_le_sum fun i _ => Bool.toNat_le _
  simpa using h

/-- The condition of the `break`. -/
def ExitTest (s : Runner n) : Prop := s.queuedCount = 0 ∧ s.numIdle = UInt64.ofNat n

/-- No task exists or is being executed, and every worker that has not left has its flag set and
    its update of `num_idle` done. -/
structure Quiet (s : Runner n) : Prop where
  injector : s.injector = []
  localQueue : ∀ i, (s.worker i).localQueue = []
  hand : ∀ i, (s.worker i).pc.hand = []
  idle : ∀ i, (s.worker i).pc ≠ .exited →
    (s.worker i).flag = true ∧ (s.worker i).subPending = false ∧ (s.worker i).addPending = false

/-- The same with the flags as they are stored, for every worker. -/
structure Still (s : Runner n) : Prop where
  injector : s.injector = []
  worker : ∀ i, (s.worker i).localQueue = [] ∧ (s.worker i).pc.hand = [] ∧
    (s.worker i).isIdle = true

theorem Quiet.still (h : Quiet s) (ha : Accounts x s) : Still s := by
  refine ⟨h.injector, fun i => ⟨h.localQueue i, h.hand i, ?_⟩⟩
  by_cases hpc : (s.worker i).pc = .exited
  · apply ha.flags i
    rw [hpc]
    rfl
  · rcases h.idle i hpc with ⟨hflag, hsub, hadd⟩
    have hsum := (s.worker i).flag_pending
    rw [hflag, hsub, hadd] at hsum
    cases hidle : (s.worker i).isIdle
    · rw [hidle] at hsum
      cases hsum
    · rfl

theorem Pc.queued_le (pc : Pc n) : pc.queued ≤ pc.hand.length := by
  cases pc <;> simp [Pc.queued, Pc.hand]

theorem Still.exitTest (h : Still s) (ha : Accounts 0 s) : s.ExitTest := by
  have hqueued : s.queued = 0 := by
    rw [Runner.queued, h.injector, Finset.sum_eq_zero]
    · rfl
    · intro i _
      have hle := Pc.queued_le (s.worker i).pc
      rw [(h.worker i).2.1, List.length_nil] at hle
      rw [Worker.queued, (h.worker i).1, List.length_nil]
      omega
  have hidle : s.idle = n := by
    have hone : s.idle = ∑ _i : Fin n, 1 :=
      Finset.sum_congr rfl fun i _ => by rw [(h.worker i).2.2]; rfl
    simpa using hone
  constructor
  · rw [ha.queued, hqueued]
    rfl
  · rw [ha.idle, hidle]

theorem Still.move (h : Still s) {s₀ : Runner n} (hworker : s₀.worker = s.worker)
    (hinjector : s₀.injector = s.injector) {w : Worker n} (hlocal : w.localQueue = [])
    (hhand : w.pc.hand = []) (hidle : w.isIdle = true) : Still (s₀.set i w) := by
  refine ⟨hinjector.trans h.injector, fun j => ?_⟩
  by_cases hji : j = i
  · subst hji
    rw [set_worker_self]
    exact ⟨hlocal, hhand, hidle⟩
  · rw [set_worker_of_ne _ hji, hworker]
    exact h.worker j

theorem step_still (h : Still s) (ha : Accounts x s) {c : Choice}
    (hs : s.step cr i c = some s') : Still s' := by
  rcases h.worker i with ⟨hlocal, hhand, hidle⟩
  have hf := ha.flags i
  rw [hidle] at hf
  unfold step at hs
  dsimp only at hs
  split at hs
  case h_1 hpc => -- start
    split at hs <;> cases hs
    apply h.move <;> first | rfl | assumption
  case h_2 hpc => -- pop
    rw [hlocal] at hs
    cases hs
    apply h.move <;> first | rfl | assumption
  case h_3 hpc => -- the injector is empty
    split at hs <;> cases hs
    apply h.move <;> first | rfl | assumption
  case h_4 hpc =>
    cases hs
    apply h.move <;> first | rfl | assumption
  case h_5 k hpc => -- there is no batch to steal
    rw [h.injector] at hs
    cases hs
  case h_7 retry hpc =>
    cases hs
    cases retry <;> apply h.move <;> first | rfl | assumption
  case h_8 j victims retry hpc => -- no victim has a task
    rw [(h.worker j).1] at hs
    cases hs
    apply h.move <;> first | rfl | assumption
  case h_9 victims retry hpc =>
    cases hs
    apply h.move <;> first | rfl | assumption
  case h_16 hpc => -- the flag is set already
    rw [if_pos hidle] at hs
    cases hs
    apply h.move <;> first | rfl | assumption
  case h_17 hpc =>
    cases hs
    split <;> apply h.move <;> first | rfl | assumption
  case h_18 hpc =>
    cases hs
    split <;> apply h.move <;> first | rfl | assumption
  case h_19 hpc =>
    cases hs
    apply h.move <;> first | rfl | assumption
  case h_20 hpc =>
    cases hs
    apply h.move <;> first | rfl | assumption
  case h_21 hpc =>
    cases hs
    apply h.move <;> first | rfl | assumption
  case h_22 hpc =>
    cases hs
    apply h.move <;> first | rfl | assumption
  case h_23 => cases hs
  -- at the other places the worker has a task or its flag is not set
  all_goals
    rename_i hpc
    rw [hpc] at hhand hf
    first | cases hf false rfl | cases hhand

/-- `s'` comes some steps after `s`. -/
def Leads (cr : Crates) : Runner n → Runner n → Prop :=
  Relation.ReflTransGen fun s s' => ∃ i c, s.step cr i c = some s'

theorem Still.leads (h : Still s) (hr : Reachable cr q s) (hl : Leads cr s s') :
    Still s' ∧ Reachable cr q s' := by
  induction hl with
  | refl => exact ⟨h, hr⟩
  | tail _ hs ih =>
    rcases hs with ⟨i, c, hs⟩
    exact ⟨step_still ih.1 ih.2.accounts hs, ih.2.step hs⟩

/-! ## The counters -/

/-- What the counters say in one state.  Tasks that exist are fewer than 2^64, as they are in
    memory. -/
structure Exact (s : Runner n) : Prop where
  queued : s.queued < 2 ^ 64 → s.queuedCount.toNat = s.queued
  idle : s.numIdle.toNat + ∑ i, (s.worker i).addPending.toNat =
    ∑ i, (s.worker i).flag.toNat + ∑ i, (s.worker i).subPending.toNat
  queued_pos : s.queued < 2 ^ 64 → ∀ i t, (s.worker i).pc = .dequeued t → 0 < s.queuedCount.toNat
  idle_pos : ∀ i, (s.worker i).subPending = true → 0 < s.numIdle.toNat
  idle_le : s.numIdle.toNat ≤ n

theorem Accounts.exact (h : Accounts 0 s) (hn : n < 2 ^ 64) : Exact s := by
  have hidle : s.numIdle.toNat = s.idle := by
    rw [h.idle]
    exact UInt64.toNat_ofNat_of_lt' (lt_of_le_of_lt s.idle_le hn)
  have hqueued : s.queued < 2 ^ 64 → s.queuedCount.toNat = s.queued := by
    intro hlt
    rw [h.queued]
    exact UInt64.toNat_ofNat_of_lt' hlt
  constructor
  · exact hqueued
  · rw [hidle, Runner.idle, ← Finset.sum_add_distrib, ← Finset.sum_add_distrib]
    exact Finset.sum_congr rfl fun i _ => (s.worker i).flag_pending
  · intro hlt i t hpc
    rw [hqueued hlt]
    have hle : (s.worker i).queued ≤ ∑ j, (s.worker j).queued :=
      Finset.single_le_sum (f := fun j => (s.worker j).queued) (fun _ _ => Nat.zero_le _)
        (Finset.mem_univ i)
    rw [Worker.queued, hpc] at hle
    simp only [Pc.queued] at hle
    unfold Runner.queued
    omega
  · intro i hsub
    rw [hidle]
    have hset : (s.worker i).isIdle = true := by
      unfold Worker.subPending at hsub
      split at hsub
      · exact hsub
      · cases hsub
    have hle : (s.worker i).isIdle.toNat ≤ s.idle :=
      Finset.single_le_sum (f := fun j => (s.worker j).isIdle.toNat) (fun _ _ => Nat.zero_le _)
        (Finset.mem_univ i)
    rw [hset] at hle
    exact hle
  · rw [hidle]
    exact s.idle_le

end Runner

end MatchingEngine.Rust
