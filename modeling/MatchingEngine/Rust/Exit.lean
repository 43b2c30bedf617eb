import MatchingEngine.Rust.Accounting

/-!
# When a worker leaves its loop

The exit test reads `queued_count` and later `num_idle`.  In between, a task can be queued and taken
by a worker whose flag is still set; the first worker then leaves while that task is in hand.  The
test is right exactly when `queued_count` is still 0 at the second read.
-/

namespace MatchingEngine.Rust

/-- A worker that has popped a task and still has its flag set holds what it counts as queued. -/
theorem Pc.queued_eq {n : ℕ} {pc : Pc n} (h : pc.idle ≠ some false) :
    pc.queued = pc.hand.length := by
  cases pc <;> first | rfl | exact absurd rfl h

namespace Runner

variable {n : ℕ} {cr : Crates} {q : List Task} {s s' : Runner n} {i : Fin n}

/-- No task is queued, taken and not finished, or generated and not pushed. -/
def NoTask (s : Runner n) : Prop :=
  s.injector = [] ∧ ∀ i, (s.worker i).localQueue = [] ∧ (s.worker i).pc.hand = []

instance decidableNoTask (s : Runner n) : Decidable s.NoTask :=
  inferInstanceAs (Decidable (_ ∧ ∀ _, _ ∧ _))

/-- `break`: worker `i` goes on from its loop to the additions after it. -/
def Leaves (cr : Crates) (s s' : Runner n) (i : Fin n) : Prop :=
  s.step cr i .go = some s' ∧ (s.worker i).pc = .checkIdle ∧ (s'.worker i).pc = .addHash

theorem step_checkIdle (cr : Crates) (hpc : (s.worker i).pc = .checkIdle) :
    s.step cr i .go = some (s.set i
      { s.worker i with pc := if s.numIdle = UInt64.ofNat n then .addHash else .pop }) := by
  unfold step
  dsimp only
  rw [hpc]

theorem Leaves.numIdle (h : Leaves cr s s' i) : s.numIdle = UInt64.ofNat n := by
  rcases h with ⟨hs, hpc, hpc'⟩
  rw [step_checkIdle cr hpc] at hs
  cases hs
  rw [set_worker_self] at hpc'
  by_contra hne
  rw [if_neg hne] at hpc'
  cases hpc'

/-- When `num_idle` is the number of workers every flag is set. -/
theorem Accounts.all_idle (h : Accounts 0 s) (hn : n < 2 ^ 64) (hidle : s.numIdle = UInt64.ofNat n)
    (i : Fin n) : (s.worker i).isIdle = true := by
  have hcount : s.idle = n := by
    have heq := congrArg UInt64.toNat (h.idle.symm.trans hidle)
    rw [UInt64.toNat_ofNat_of_lt' (lt_of_le_of_lt s.idle_le hn),
      UInt64.toNat_ofNat_of_lt' hn] at heq
    exact heq
  by_contra hno
  have hlt : s.idle < ∑ _j : Fin n, 1 := by
    apply Finset.sum_lt_sum
    · intro j _
      exact Bool.toNat_le _
    · refine ⟨i, Finset.mem_univ i, ?_⟩
      rw [Bool.eq_false_iff.mpr hno]
      exact Nat.zero_lt_one
  simp only [Finset.sum_const, Finset.card_univ, Fintype.card_fin, smul_eq_mul, mul_one] at hlt
  omega

/-- Then every task in hand is counted as queued. -/
theorem Accounts.noTask_iff (h : Accounts 0 s) (hidle : ∀ i, (s.worker i).isIdle = true) :
    s.NoTask ↔ s.queued = 0 := by
  have hqueued : ∀ i, (s.worker i).queued =
      (s.worker i).localQueue.length + (s.worker i).pc.hand.length := by
    intro i
    rw [Worker.queued, Pc.queued_eq]
    intro hflag
    have hf := h.flags i false hflag
    rw [hidle i] at hf
    cases hf
  unfold Runner.queued NoTask
  rw [Nat.add_eq_zero_iff, Finset.sum_eq_zero_iff, List.length_eq_zero_iff]
  apply and_congr_right
  intro _
  apply forall_congr'
  intro i
  rw [hqueued i, Nat.add_eq_zero_iff, List.length_eq_zero_iff, List.length_eq_zero_iff]
  simp

/-- A worker leaves its loop with no task left if and only if `queued_count` is still 0 then. -/
theorem leaves_noTask_iff (hn : n < 2 ^ 64) (hr : Reachable cr q s) (h : Leaves cr s s' i) :
    s.NoTask ↔ s.queuedCount = 0 ∧ s.queued < 2 ^ 64 := by
  have ha := hr.accounts
  rw [ha.noTask_iff (ha.all_idle hn h.numIdle), ha.queued]
  constructor
  · intro hz
    rw [hz]
    exact ⟨rfl, by decide⟩
  · rintro ⟨hz, hlt⟩
    have hnat := congrArg UInt64.toNat hz
    rw [Nat.add_zero, UInt64.toNat_ofNat_of_lt' hlt] at hnat
    exact hnat

/-- Crates whose generator draws the largest number. -/
def largestCrates : Crates where
  Rng := UInt64
  seedFromU64 := id
  genRange := fun _ hi rng => (hi - 1, rng)
  genU64 := fun rng => (rng, rng + 1)
  fillBytes := fun k rng => (List.replicate k 0, rng)
  sha256 := id
  pbkdf2 := fun _ _ _ => List.replicate 64 0

/-- A task with one child. -/
def oneChild : List Task := [{ typ := .derive, seed := 7, height := 1, maxChildren := 1 }]

/-- Worker 1 runs the task, worker 0 reads `queued_count` meanwhile, worker 2 takes the child, and
    worker 1 goes idle again. -/
def oneChildSchedule : List (Fin 3 × Choice) :=
  [(0, .go), (1, .go), (2, .go), (1, .go), (1, .take 0), (1, .go), (1, .go), (1, .go)] ++
    List.replicate 8 (0, .go) ++ List.replicate 3 (2, .go) ++ List.replicate 4 (1, .go) ++
    [(2, .go)] ++ List.replicate 7 (1, .go)

theorem oneChild_leaves :
    ∃ s s' : Runner 3, Reachable largestCrates oneChild s ∧ Leaves largestCrates s s' 0 ∧
      ¬ s.NoTask := by
  have hrun : ((init oneChild : Runner 3).run largestCrates oneChildSchedule).any (fun s =>
      decide ((s.worker 0).pc = .checkIdle ∧ s.numIdle = UInt64.ofNat 3 ∧ ¬ s.NoTask)) = true := by
    decide +kernel
  rcases hs : (init oneChild : Runner 3).run largestCrates oneChildSchedule with _ | s
  · rw [hs] at hrun
    cases hrun
  · rw [hs] at hrun
    rcases of_decide_eq_true hrun with ⟨hpc, hidle, hno⟩
    refine ⟨s, s.set 0 { s.worker 0 with pc := .addHash }, Reachable.init.run hs, ⟨?_, hpc, ?_⟩, hno⟩
    · rw [step_checkIdle _ hpc, if_pos hidle]
    · rw [set_worker_self]

/-- Worker 0 leaves its loop while worker 2 has a task in hand. -/
theorem not_noTask_oneChild :
    ∃ s s' : Runner 3, Reachable largestCrates oneChild s ∧ Leaves largestCrates s s' 0 ∧
      ¬ s.NoTask :=
  oneChild_leaves

theorem leaves_noTask_iff_oneChild :
    ∃ s s' : Runner 3, Leaves largestCrates s s' 0 ∧
      (s.NoTask ↔ s.queuedCount = 0 ∧ s.queued < 2 ^ 64) := by
  rcases oneChild_leaves with ⟨s, s', hr, h, -⟩
  exact ⟨s, s', h, leaves_noTask_iff (by decide) hr h⟩

end Runner

end MatchingEngine.Rust
