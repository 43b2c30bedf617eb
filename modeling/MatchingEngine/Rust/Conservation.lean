import MatchingEngine.Rust.Runner

/-!
# No task is lost or run twice

Every task that was generated and not yet executed is in the injector, in a local queue or in a
worker's hands, and the forests of these tasks together with the executed ones are the initial
forests (`Inv.tasks`).  A worker leaves its loop only after it found its own queue and the injector
empty, and nobody fills them again; so when all have left, nothing is outstanding.
-/

namespace MatchingEngine.Rust

open Multiset (bind)

/-- The tasks in a worker's hands. -/
def Pc.hand {n : ℕ} : Pc n → List Task
  | .batch t ts => t :: ts
  | .took t => [t]
  | .dequeued t => [t]
  | .execute t => [t]
  | .announce ts => ts
  | .push ts => ts
  | _ => []

/-- The worker's own queue was empty and it has not pushed since. -/
def Pc.Drained {n : ℕ} : Pc n → Prop
  | .stealInjector | .batch _ _ | .stealFrom _ _ | .noTask | .checkCount | .checkIdle
  | .addHash | .addDerive | .addRand | .addOutput | .exited => True
  | _ => False

/-- The worker saw the injector empty. -/
def Pc.SawEmpty {n : ℕ} : Pc n → Prop
  | .stealFrom _ retry => retry = false
  | .noTask | .checkCount | .checkIdle
  | .addHash | .addDerive | .addRand | .addOutput | .exited => True
  | _ => False

namespace Worker

variable {n : ℕ}

def tasks (w : Worker n) : Multiset Task := (w.localQueue : Multiset Task) + (w.pc.hand : Multiset Task)

/-- The part of the local counters that is not yet in the global ones. -/
def unflushed (w : Worker n) : Counters :=
  match w.pc with
  | .addDerive => { w.locals with numHash := 0 }
  | .addRand => { w.locals with numHash := 0, numDerive := 0 }
  | .addOutput => { w.locals with numHash := 0, numDerive := 0, numRand := 0 }
  | .exited => 0
  | _ => w.locals

end Worker

namespace Runner

variable {n : ℕ} (cr : Crates)

/-- The forests of some tasks. -/
def forests (ts : Multiset Task) : Multiset Task := ts.bind fun t => (t.forest cr : Multiset Task)

/-- What every reachable state satisfies, with the tasks `x` on their way between two workers. -/
structure Inv (initialQueue : List Task) (x : Multiset Task) (s : Runner n) : Prop where
  tasks : (s.executed : Multiset Task) + forests cr (s.injector + x + ∑ i, (s.worker i).tasks) =
    forests cr initialQueue
  totals : s.counters + ∑ i, (s.worker i).unflushed = (s.executed.map (Counters.ofTask cr)).sum
  drained : ∀ i, (s.worker i).pc.Drained → (s.worker i).localQueue = []
  injector : ∀ i, (s.worker i).pc.SawEmpty → s.injector = []

variable {cr} {q : List Task} {x x' : Multiset Task} {s : Runner n} {i : Fin n}

theorem forests_add (ts us : Multiset Task) :
    forests cr (ts + us) = forests cr ts + forests cr us := Multiset.add_bind ..

theorem forests_singleton (t : Task) :
    forests cr {t} = {t} + forests cr ((t.execute cr).2 : Multiset Task) := by
  unfold forests
  rw [Multiset.singleton_bind, Task.forest_eq, Multiset.coe_bind]
  rfl

theorem forests_coe (ts : List Task) :
    forests cr (ts : Multiset Task) = (ts.flatMap fun t => t.forest cr : List Task) :=
  Multiset.coe_bind ..

theorem coe_cons (t : Task) (ts : List Task) :
    ((t :: ts : List Task) : Multiset Task) = {t} + (ts : Multiset Task) := by
  rw [Multiset.singleton_add, Multiset.cons_coe]

/-- A sum over the workers after worker `i` has moved. -/
theorem sum_set {M : Type} [AddCommMonoid M] (f : Worker n → M) (v : Fin n → Worker n) (i : Fin n)
    (w : Worker n) : ∃ r, ∑ j, f (v j) = f (v i) + r ∧ ∑ j, f (Function.update v i w j) = f w + r := by
  refine ⟨∑ j ∈ Finset.univ.erase i, f (v j), (Finset.add_sum_erase _ _ (Finset.mem_univ i)).symm, ?_⟩
  rw [← Finset.add_sum_erase _ _ (Finset.mem_univ i), Function.update_self]
  congr 1
  apply Finset.sum_congr rfl
  intro j hj
  rw [Function.update_of_ne (Finset.ne_of_mem_erase hj)]

/-- One worker moves: what has to be checked about it. -/
theorem Inv.move (h : Inv cr q x s) {s₀ : Runner n} (hworker : s₀.worker = s.worker) (w : Worker n)
    (htasks : (s₀.executed : Multiset Task) + forests cr (s₀.injector + x' + w.tasks) =
      s.executed + forests cr (s.injector + x + (s.worker i).tasks))
    (htotals : ∃ d, s₀.counters + w.unflushed = s.counters + (s.worker i).unflushed + d ∧
      (s₀.executed.map (Counters.ofTask cr)).sum = (s.executed.map (Counters.ofTask cr)).sum + d)
    (hdrained : w.pc.Drained → w.localQueue = [])
    (hinjector : s.injector = [] → s₀.injector = [])
    (hsaw : w.pc.SawEmpty → s₀.injector = []) :
    Inv cr q x' (s₀.set i w) := by
  have hother : ∀ j, j ≠ i → (s₀.set i w).worker j = s.worker j := by
    intro j hj
    rw [Runner.set, hworker]
    exact Function.update_of_ne hj ..
  have hself : (s₀.set i w).worker i = w := Function.update_self ..
  constructor
  · rcases sum_set Worker.tasks s.worker i w with ⟨r, hr, hr'⟩
    have ht := h.tasks
    rw [hr, ← add_assoc, forests_add, ← add_assoc, ← htasks] at ht
    show (s₀.executed : Multiset Task) + forests cr (s₀.injector + x' +
      ∑ j, (Function.update s₀.worker i w j).tasks) = _
    rw [hworker, hr', ← add_assoc, forests_add, ← add_assoc, ht]
  · rcases sum_set Worker.unflushed s.worker i w with ⟨r, hr, hr'⟩
    rcases htotals with ⟨d, hd, hd'⟩
    have ht := h.totals
    rw [hr] at ht
    show s₀.counters + ∑ j, (Function.update s₀.worker i w j).unflushed =
      (s₀.executed.map (Counters.ofTask cr)).sum
    rw [hworker, hr', ← add_assoc, hd, hd', ← ht]
    abel
  · intro j hj
    by_cases hji : j = i
    · rw [hji, hself] at hj ⊢
      exact hdrained hj
    · rw [hother j hji] at hj ⊢
      exact h.drained j hj
  · intro j hj
    by_cases hji : j = i
    · rw [hji, hself] at hj
      exact hsaw hj
    · rw [hother j hji] at hj
      exact hinjector (h.injector j hj)

theorem inv_init : Inv cr q 0 (init q : Runner n) := by
  constructor
  · simp [init, Worker.tasks, Pc.hand]
  · simp [init, Worker.unflushed]
  · intro i h
    cases h
  · intro i h
    cases h

/-- A worker that only moves on, with the same tasks and local counters. -/
theorem Inv.moveOn (h : Inv cr q 0 s) {s₀ : Runner n} {w : Worker n}
    (hsame : s₀.worker = s.worker ∧ s₀.executed = s.executed ∧ s₀.injector = s.injector ∧
      s₀.counters = s.counters)
    (htasks : w.tasks = (s.worker i).tasks) (hunflushed : w.unflushed = (s.worker i).unflushed)
    (hdrained : w.pc.Drained → w.localQueue = []) (hsaw : w.pc.SawEmpty → s.injector = []) :
    Inv cr q 0 (s₀.set i w) := by
  rcases hsame with ⟨hworker, hexecuted, hinjector, hcounters⟩
  apply h.move hworker w
  · rw [hexecuted, hinjector, htasks]
  · refine ⟨0, ?_, ?_⟩
    · rw [hcounters, hunflushed, add_zero]
    · rw [hexecuted, add_zero]
  · exact hdrained
  · intro hs
    rw [hinjector, hs]
  · rwa [hinjector]

/-- A worker that adds a part of its local counters to the global ones. -/
theorem Inv.flush (h : Inv cr q 0 s) {s₀ : Runner n} {w : Worker n}
    (hsame : s₀.worker = s.worker ∧ s₀.executed = s.executed ∧ s₀.injector = s.injector)
    (htasks : w.tasks = (s.worker i).tasks)
    (hcounters : s₀.counters + w.unflushed = s.counters + (s.worker i).unflushed)
    (hdrained : w.localQueue = []) (hsaw : s.injector = []) : Inv cr q 0 (s₀.set i w) := by
  rcases hsame with ⟨hworker, hexecuted, hinjector⟩
  apply h.move hworker w
  · rw [hexecuted, hinjector, htasks]
  · refine ⟨0, ?_, ?_⟩
    · rw [hcounters, add_zero]
    · rw [hexecuted, add_zero]
  · exact fun _ => hdrained
  · intro hs
    rw [hinjector, hs]
  · exact fun _ => hinjector.trans hsaw

/-- One access keeps the invariant. -/
theorem step_inv (h : Inv cr q 0 s) {c : Choice} {s' : Runner n} (hs : s.step cr i c = some s') :
    Inv cr q 0 s' := by
  have hd := h.drained i
  have hi := h.injector i
  unfold step at hs
  dsimp only at hs
  split at hs
  case h_1 hpc => -- start
    split at hs <;> cases hs
    refine h.moveOn ⟨rfl, rfl, rfl, rfl⟩ ?_ ?_ (fun h => h.elim) (fun h => h.elim)
    · simp [Worker.tasks, hpc, Pc.hand]
    · simp [Worker.unflushed, hpc]
  case h_2 hpc => -- pop
    split at hs
    next hq =>
      cases hs
      refine h.moveOn ⟨rfl, rfl, rfl, rfl⟩ ?_ ?_ (fun _ => hq) (fun h => h.elim)
      · simp [Worker.tasks, hpc, Pc.hand]
      · simp [Worker.unflushed, hpc]
    next t ts hq =>
      cases hs
      refine h.moveOn ⟨rfl, rfl, rfl, rfl⟩ ?_ ?_ (fun h => h.elim) (fun h => h.elim)
      · simp only [Worker.tasks, hpc, hq, Pc.hand, coe_cons, Multiset.coe_nil]
        abel
      · simp [Worker.unflushed, hpc]
  case h_3 hpc => -- the injector is empty
    split at hs <;> cases hs
    next hinj =>
      rw [hpc] at hd
      refine h.moveOn ⟨rfl, rfl, rfl, rfl⟩ ?_ ?_ (fun _ => hd trivial) (fun _ => hinj)
      · simp [Worker.tasks, hpc, Pc.hand]
      · simp [Worker.unflushed, hpc]
  case h_4 hpc => -- the injector says `Retry`
    cases hs
    rw [hpc] at hd
    refine h.moveOn ⟨rfl, rfl, rfl, rfl⟩ ?_ ?_ (fun _ => hd trivial) ?_
    · simp [Worker.tasks, hpc, Pc.hand]
    · simp [Worker.unflushed, hpc]
    · intro h
      cases h
  case h_5 k hpc => -- a batch from the injector
    split at hs <;> cases hs
    next t ts hinj =>
      rw [hpc] at hd
      refine h.move ?_ _ ?_ ⟨0, ?_, (add_zero _).symm⟩ (fun _ => hd trivial) ?_ (fun h => h.elim)
      · rfl
      · have hbatch : (ts : Multiset Task) = (ts.drop k : List Task) + (ts.take k : List Task) := by
          rw [add_comm, Multiset.coe_add, List.take_append_drop]
        congr 2
        simp only [Worker.tasks, hpc, Pc.hand, hinj, coe_cons, Multiset.coe_nil]
        rw [hbatch]
        abel
      · simp [Worker.unflushed, hpc]
      · intro h
        rw [hinj] at h
        cases h
  case h_6 t ts hpc => -- the batch arrives
    cases hs
    refine h.moveOn ⟨rfl, rfl, rfl, rfl⟩ ?_ ?_ (fun h => h.elim) (fun h => h.elim)
    · simp only [Worker.tasks, hpc, Pc.hand, coe_cons, Multiset.coe_nil, ← Multiset.coe_add]
      abel
    · simp [Worker.unflushed, hpc]
  case h_7 retry hpc => -- every queue was tried
    cases hs
    rw [hpc] at hd hi
    refine h.moveOn ⟨rfl, rfl, rfl, rfl⟩ ?_ ?_ (fun _ => hd trivial) ?_
    · cases retry <;> simp [Worker.tasks, hpc, Pc.hand]
    · cases retry <;> simp [Worker.unflushed, hpc]
    · cases retry
      · exact fun _ => hi rfl
      · exact fun h => h.elim
  case h_8 j victims retry hpc =>
    rw [hpc] at hd hi
    split at hs
    next hq => -- the victim has nothing
      cases hs
      refine h.moveOn ⟨rfl, rfl, rfl, rfl⟩ ?_ ?_ (fun _ => hd trivial) hi
      · simp [Worker.tasks, hpc, Pc.hand]
      · simp [Worker.unflushed, hpc]
    next t ts hq => -- a task from the victim's queue
      cases hs
      have htaken : Inv cr q {t} (s.set j { s.worker j with localQueue := ts }) := by
        refine h.move rfl _ ?_ ⟨0, (add_zero _).symm, (add_zero _).symm⟩ ?_ id (h.injector j)
        · congr 2
          simp only [Worker.tasks, hq, coe_cons]
          abel
        · intro hj
          rw [h.drained j hj] at hq
          cases hq
      have hpc' : ((s.set j { s.worker j with localQueue := ts }).worker i).pc =
          .stealFrom (j :: victims) retry := by
        by_cases hij : i = j
        · subst hij
          rw [set_worker_self]
          exact hpc
        · rw [set_worker_of_ne _ hij, hpc]
      refine htaken.move rfl _ ?_ ⟨0, ?_, (add_zero _).symm⟩ (fun h => h.elim) id (fun h => h.elim)
      · congr 2
        simp only [Worker.tasks, hpc', Pc.hand, coe_cons, Multiset.coe_nil]
        abel
      · simp [Worker.unflushed, hpc']
  case h_9 victims retry hpc =>
    cases hs
    rw [hpc] at hd
    refine h.moveOn ⟨rfl, rfl, rfl, rfl⟩ ?_ ?_ (fun _ => hd trivial) ?_
    · simp [Worker.tasks, hpc, Pc.hand]
    · simp [Worker.unflushed, hpc]
    · intro h
      cases h
  case h_10 t hpc => -- `next.is_some()`
    split at hs <;> cases hs <;>
      refine h.moveOn ⟨rfl, rfl, rfl, rfl⟩ ?_ ?_ (fun h => h.elim) (fun h => h.elim)
    · simp [Worker.tasks, hpc, Pc.hand]
    · simp [Worker.unflushed, hpc]
    · simp [Worker.tasks, hpc, Pc.hand]
    · simp [Worker.unflushed, hpc]
  case h_11 t hpc =>
    cases hs
    refine h.moveOn ⟨rfl, rfl, rfl, rfl⟩ ?_ ?_ (fun h => h.elim) (fun h => h.elim)
    · simp [Worker.tasks, hpc, Pc.hand]
    · simp [Worker.unflushed, hpc]
  case h_12 t hpc => -- the task is executed: its forest becomes itself and its children's
    cases hs
    refine h.move ?_ _ ?_ ⟨Counters.ofTask cr t, ?_, ?_⟩ (fun h => h.elim) id (fun h => h.elim)
    · rfl
    · simp only [Worker.tasks, hpc, Pc.hand, forests_add, ← Multiset.coe_add, Multiset.coe_singleton,
        forests_singleton]
      abel
    · simp only [Worker.unflushed, hpc, Counters.record_eq]
      exact (add_assoc ..).symm
    · simp
  case h_13 ts hpc =>
    cases hs
    refine h.moveOn ⟨rfl, rfl, rfl, rfl⟩ ?_ ?_ (fun h => h.elim) (fun h => h.elim)
    · simp [Worker.tasks, hpc, Pc.hand]
    · simp [Worker.unflushed, hpc]
  case h_14 hpc =>
    cases hs
    refine h.moveOn ⟨rfl, rfl, rfl, rfl⟩ ?_ ?_ (fun h => h.elim) (fun h => h.elim)
    · simp [Worker.tasks, hpc, Pc.hand]
    · simp [Worker.unflushed, hpc]
  case h_15 t ts hpc =>
    cases hs
    refine h.moveOn ⟨rfl, rfl, rfl, rfl⟩ ?_ ?_ (fun h => h.elim) (fun h => h.elim)
    · simp only [Worker.tasks, hpc, Pc.hand, coe_cons, Multiset.coe_nil, ← Multiset.coe_add]
      abel
    · simp [Worker.unflushed, hpc]
  case h_16 hpc => -- `next` is `None`
    rw [hpc] at hd hi
    split at hs <;> cases hs <;>
      refine h.moveOn ⟨rfl, rfl, rfl, rfl⟩ ?_ ?_ (fun _ => hd trivial) (fun _ => hi trivial)
    · simp [Worker.tasks, hpc, Pc.hand]
    · simp [Worker.unflushed, hpc]
    · simp [Worker.tasks, hpc, Pc.hand]
    · simp [Worker.unflushed, hpc]
  case h_17 hpc =>
    cases hs
    rw [hpc] at hd hi
    refine h.moveOn ⟨rfl, rfl, rfl, rfl⟩ ?_ ?_ (fun _ => hd trivial) (fun _ => hi trivial)
    · by_cases hz : s.queuedCount = 0 <;> simp [Worker.tasks, hpc, Pc.hand, hz]
    · by_cases hz : s.queuedCount = 0 <;> simp [Worker.unflushed, hpc, hz]
  case h_18 hpc =>
    cases hs
    rw [hpc] at hd hi
    refine h.moveOn ⟨rfl, rfl, rfl, rfl⟩ ?_ ?_ (fun _ => hd trivial) (fun _ => hi trivial)
    · by_cases hz : s.numIdle = UInt64.ofNat n <;> simp [Worker.tasks, hpc, Pc.hand, hz]
    · by_cases hz : s.numIdle = UInt64.ofNat n <;> simp [Worker.unflushed, hpc, hz]
  case h_19 hpc =>
    cases hs
    rw [hpc] at hd hi
    refine h.flush ⟨rfl, rfl, rfl⟩ ?_ ?_ (hd trivial) (hi trivial)
    · simp [Worker.tasks, hpc, Pc.hand]
    · simp [Worker.unflushed, hpc, Counters.add_def]
  case h_20 hpc =>
    cases hs
    rw [hpc] at hd hi
    refine h.flush ⟨rfl, rfl, rfl⟩ ?_ ?_ (hd trivial) (hi trivial)
    · simp [Worker.tasks, hpc, Pc.hand]
    · simp [Worker.unflushed, hpc, Counters.add_def]
  case h_21 hpc =>
    cases hs
    rw [hpc] at hd hi
    refine h.flush ⟨rfl, rfl, rfl⟩ ?_ ?_ (hd trivial) (hi trivial)
    · simp [Worker.tasks, hpc, Pc.hand]
    · simp [Worker.unflushed, hpc, Counters.add_def]
  case h_22 hpc =>
    cases hs
    rw [hpc] at hd hi
    refine h.flush ⟨rfl, rfl, rfl⟩ ?_ ?_ (hd trivial) (hi trivial)
    · simp [Worker.tasks, hpc, Pc.hand]
    · simp [Worker.unflushed, hpc, Counters.add_def, Counters.zero_def]
  case h_23 => cases hs

theorem Reachable.inv (h : Reachable cr q s) : Inv cr q 0 s := by
  induction h with
  | init => exact inv_init
  | step _ hs ih => exact step_inv ih hs

/-- When every worker has left its loop nothing is outstanding. -/
theorem Inv.executed_of_joined (h : Inv cr q 0 s) (hn : 0 < n) (hj : s.Joined) :
    s.executed.Perm (q.flatMap fun t => t.forest cr) := by
  have hsaw : ∀ i, (s.worker i).pc.SawEmpty := fun i => by rw [hj i]; trivial
  have hdrained : ∀ i, (s.worker i).pc.Drained := fun i => by rw [hj i]; trivial
  have hinjector : s.injector = [] := h.injector ⟨0, hn⟩ (hsaw _)
  have hworkers : ∑ i, (s.worker i).tasks = 0 := by
    apply Finset.sum_eq_zero
    intro i _
    rw [Worker.tasks, h.drained i (hdrained i), hj i]
    rfl
  have ht := h.tasks
  rw [hinjector, hworkers, Multiset.coe_nil, add_zero, add_zero, forests_coe] at ht
  exact Multiset.coe_eq_coe.mp (by simpa [forests] using ht)

theorem Inv.counters_of_joined (h : Inv cr q 0 s) (hn : 0 < n) (hj : s.Joined) :
    s.counters = sequential cr q := by
  have hflushed : ∑ i, (s.worker i).unflushed = 0 := by
    apply Finset.sum_eq_zero
    intro i _
    rw [Worker.unflushed, hj i]
  have ht := h.totals
  rw [hflushed, add_zero] at ht
  rw [ht, sequential, foldl_record, zero_add]
  exact ((h.executed_of_joined hn hj).map _).sum_eq

/-- Crates whose generator counts upwards from its seed. -/
def countingCrates : Crates where
  Rng := UInt64
  seedFromU64 := id
  genRange := fun lo _ rng => (lo, rng)
  genU64 := fun rng => (rng, rng + 1)
  fillBytes := fun k rng => (List.replicate k 0, rng)
  sha256 := id
  pbkdf2 := fun _ _ _ => List.replicate 64 0

/-- One task and two workers: the first runs the task while the second waits for it. -/
def oneTask : List Task := [{ typ := .random, seed := 7, height := 0, maxChildren := 5 }]

def oneTaskSchedule : List (Fin 2 × Choice) :=
  [(0, .go), (1, .go), (0, .go), (0, .take 0), (1, .go), (1, .go), (1, .retry)] ++
    List.replicate 6 (0, .go) ++ [(1, .go), (1, .go)] ++ List.replicate 12 (0, .go) ++
    List.replicate 11 (1, .go)

end Runner

end MatchingEngine.Rust
