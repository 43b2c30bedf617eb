import Mathlib

/-!
# Tasks (`task.rs`)

A task yields an output and its children, one level lower.  The generators and hash functions come
from other crates and are a parameter.
-/

namespace MatchingEngine.Rust

/-- The functions of `rand`, `rand_chacha` and `ring` that a task calls. -/
structure Crates where
  Rng : Type
  seedFromU64 : UInt64 → Rng
  /-- `gen_range(lo..hi)` -/
  genRange : ℕ → ℕ → Rng → ℕ × Rng
  genU64 : Rng → UInt64 × Rng
  fillBytes : ℕ → Rng → List UInt8 × Rng
  sha256 : List UInt8 → List UInt8
  /-- `PBKDF2_HMAC_SHA512` with its iterations, salt and secret -/
  pbkdf2 : ℕ → List UInt8 → List UInt8 → List UInt8

inductive TaskType
  | hash
  | derive
  | random
  deriving DecidableEq, Repr

structure Task where
  typ : TaskType
  seed : UInt64
  height : ℕ
  maxChildren : ℕ
  deriving DecidableEq, Repr

/-- `TYPE_ARRAY`, indexed by a number below 3. -/
def typeArray : ℕ → TaskType
  | 0 => .hash
  | 1 => .derive
  | _ => .random

/-- `u64::from_le_bytes`. -/
def u64FromLeBytes (bytes : List UInt8) : UInt64 :=
  bytes.foldr (fun b acc => acc * 256 + b.toUInt64) 0

section

variable (cr : Crates)

/-- The iterator of `generate_set`: each task draws its type and then its seed. -/
def drawTasks (height maxChildren : ℕ) : ℕ → cr.Rng → List Task
  | 0, _ => []
  | num + 1, rng =>
    let (k, rng) := cr.genRange 0 3 rng
    let (seed, rng) := cr.genU64 rng
    { typ := typeArray k, seed, height, maxChildren } :: drawTasks height maxChildren num rng

def generateSet (seed : UInt64) (height maxChildren maxNum : ℕ) : List Task :=
  let rng := cr.seedFromU64 seed
  let (numTasks, rng) := cr.genRange 0 (maxNum + 1) rng
  drawTasks cr height maxChildren numTasks rng

def doHash (task : Task) : UInt64 :=
  let rng := cr.seedFromU64 task.seed
  let (rounds, rng) := cr.genRange 0x10000 0x20000 rng
  let (state, rng) := cr.fillBytes 32 rng
  let state := cr.sha256^[rounds] state
  let (takeFrom, _) := cr.genRange 0 24 rng
  u64FromLeBytes ((state.drop takeFrom).take 8)

def doDerive (task : Task) : UInt64 :=
  let rng := cr.seedFromU64 task.seed
  let (state, rng) := cr.fillBytes 64 rng
  let (rounds, rng) := cr.genRange 0x10000 0x20000 rng
  let out := cr.pbkdf2 rounds (state.take 32) (state.drop 32)
  let (takeFrom, _) := cr.genRange 0 56 rng
  u64FromLeBytes ((out.drop takeFrom).take 8)

def doRandom (task : Task) : UInt64 :=
  let rng := cr.seedFromU64 task.seed
  let (rounds, rng) := cr.genRange 0x10000 0x20000 rng
  let rng := (fun rng => (cr.genU64 rng).2)^[rounds] rng
  (cr.genU64 rng).1

namespace Task

def output (task : Task) : UInt64 :=
  match task.typ with
  | .hash => doHash cr task
  | .derive => doDerive cr task
  | .random => doRandom cr task

def execute (task : Task) : UInt64 × List Task :=
  let output := task.output cr
  (output,
    if task.height = 0 then []
    else generateSet cr (task.seed ^^^ output) (task.height - 1) task.maxChildren task.maxChildren)

def generateInitial (seed : UInt64) (startingHeight maxChildren : ℕ) : List Task :=
  generateSet cr seed startingHeight maxChildren 64

/-- The task and everything it spawns down to `levels` below it, parents first. -/
def subtree : ℕ → Task → List Task
  | 0, task => [task]
  | levels + 1, task => task :: (task.execute cr).2.flatMap (subtree levels)

/-- The forest that a task generates. -/
def forest (task : Task) : List Task := task.subtree cr task.height

end Task

variable {cr}

theorem drawTasks_height {height maxChildren num : ℕ} {rng : cr.Rng} {t : Task}
    (h : t ∈ drawTasks cr height maxChildren num rng) : t.height = height := by
  induction num generalizing rng with
  | zero => cases h
  | succ num ih =>
    rw [drawTasks] at h
    rcases List.mem_cons.mp h with rfl | h
    · rfl
    · exact ih h

namespace Task

theorem execute_of_height_zero {t : Task} (h : t.height = 0) : (t.execute cr).2 = [] := if_pos h

theorem execute_of_height_ne_zero {t : Task} (h : t.height ≠ 0) :
    (t.execute cr).2 =
      generateSet cr (t.seed ^^^ t.output cr) (t.height - 1) t.maxChildren t.maxChildren :=
  if_neg h

theorem child_height {t c : Task} (h : c ∈ (t.execute cr).2) : c.height + 1 = t.height := by
  by_cases hz : t.height = 0
  · rw [execute_of_height_zero hz] at h
    cases h
  · have hc : c.height = t.height - 1 := by
      rw [execute_of_height_ne_zero hz] at h
      exact drawTasks_height h
    omega

/-- A forest is its root and the forests of the root's children. -/
theorem forest_eq (t : Task) :
    t.forest cr = t :: (t.execute cr).2.flatMap fun c => c.forest cr := by
  unfold forest
  by_cases hz : t.height = 0
  · rw [hz, subtree, execute_of_height_zero hz]
    rfl
  · obtain ⟨k, hk⟩ : ∃ k, t.height = k + 1 := ⟨t.height - 1, by omega⟩
    rw [hk, subtree]
    congr 1
    apply List.flatMap_congr
    intro c hc
    have hch := child_height hc
    rw [show c.height = k by omega]

end Task

end

/-- The counters of a run: the outputs combined by `^` and the tasks of each type. -/
structure Counters where
  combinedOutput : UInt64
  numHash : UInt64
  numDerive : UInt64
  numRand : UInt64
  deriving DecidableEq, Repr

namespace Counters

/-- The counters after one more task. -/
def record (cr : Crates) (c : Counters) (task : Task) : Counters :=
  let c := match task.typ with
    | .hash => { c with numHash := c.numHash + 1 }
    | .derive => { c with numDerive := c.numDerive + 1 }
    | .random => { c with numRand := c.numRand + 1 }
  { c with combinedOutput := c.combinedOutput ^^^ (task.execute cr).1 }

instance : Zero Counters := ⟨⟨0, 0, 0, 0⟩⟩

instance : Add Counters where
  add c d :=
    { combinedOutput := c.combinedOutput ^^^ d.combinedOutput
      numHash := c.numHash + d.numHash
      numDerive := c.numDerive + d.numDerive
      numRand := c.numRand + d.numRand }

theorem add_def (c d : Counters) :
    c + d = ⟨c.combinedOutput ^^^ d.combinedOutput, c.numHash + d.numHash,
      c.numDerive + d.numDerive, c.numRand + d.numRand⟩ := rfl

theorem zero_def : (0 : Counters) = ⟨0, 0, 0, 0⟩ := rfl

instance : AddCommMonoid Counters where
  add_assoc a b c := by simp only [add_def, UInt64.xor_assoc, add_assoc]
  zero_add a := by simp only [add_def, zero_def, UInt64.zero_xor, zero_add]
  add_zero a := by simp only [add_def, zero_def, UInt64.xor_zero, add_zero]
  add_comm a b := by
    simp only [add_def, UInt64.xor_comm a.combinedOutput, add_comm a.numHash,
      add_comm a.numDerive, add_comm a.numRand]
  nsmul := nsmulRec

/-- What one task adds to the counters. -/
def ofTask (cr : Crates) (task : Task) : Counters := (0 : Counters).record cr task

theorem record_eq (cr : Crates) (c : Counters) (task : Task) :
    c.record cr task = c + ofTask cr task := by
  rcases htyp : task.typ <;> simp [ofTask, record, add_def, zero_def, htyp]

end Counters

/-- The sequential runner: one traversal of the forest of the initial tasks. -/
def sequential (cr : Crates) (tasks : List Task) : Counters :=
  (tasks.flatMap fun t => t.forest cr).foldl (Counters.record cr) 0

theorem foldl_record (cr : Crates) (c : Counters) (tasks : List Task) :
    tasks.foldl (Counters.record cr) c = c + (tasks.map (Counters.ofTask cr)).sum := by
  induction tasks generalizing c with
  | nil => exact (add_zero c).symm
  | cons t tasks ih =>
    rw [List.foldl_cons, ih, Counters.record_eq, List.map_cons, List.sum_cons, add_assoc]

end MatchingEngine.Rust
