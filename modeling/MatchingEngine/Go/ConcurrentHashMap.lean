import MatchingEngine.Lib.Chains
import MatchingEngine.Go.Engine

/-!
# `ConcurrentHashMap` of the Go engine

`Get`, `Set` and `Remove` on the nodes of the table, each between its locks.  The size of the table is
an `int`, and `getHash` divides by what is left of it in a `uint32`.
-/

set_option linter.unusedSectionVars false

namespace MatchingEngine.Go.ConcurrentHashMap

variable {K V : Type} [DecidableEq K]

namespace Chained

open Chains (Memory Denotes)

variable (sum32 : K → UInt32) (size : ℕ) (m : Memory K V)

/-- `uint32(m.size)`. -/
def modulus : ℕ := size % 2 ^ 32

/-- `int(h.Sum32() % uint32(m.size))`; a division by 0 panics. -/
def getHash (key : K) : Option ℕ :=
  if modulus size = 0 then none else some ((sum32 key).toNat % modulus size)

/-- The index when there is no panic. -/
def index (key : K) : ℕ := (sum32 key).toNat % modulus size

/-- `m.hashTable[h]`; an index out of range panics. -/
def bucket (h : ℕ) : Option (Option Chains.Ptr) := if h < size then some (m.head h) else none

/-- The loop for a key in its bucket, from the head on. -/
def walk (key : K) : Option (ℕ × Option Chains.Ptr × Option Chains.Ptr) :=
  match getHash sum32 size key with
  | none => none
  | some h =>
    match bucket size m h with
    | none => none
    | some head => (m.seek key (m.nextPtr + 1) none head).map fun x => (h, x)

def get (key : K) : Option (Option V) :=
  match walk sum32 size m key with
  | none => none
  | some (_, _, none) => some none
  | some (_, _, some curr) => (m.node curr).map fun n => some n.value

def set (key : K) (value : V) : Option (Memory K V) :=
  match walk sum32 size m key with
  | none => none
  | some (_, _, some _) => some m
  | some (h, prev, none) => some ((m.alloc key value).link h prev (some m.nextPtr))

def remove (key : K) : Option (Memory K V × Bool) :=
  match walk sum32 size m key with
  | none => none
  | some (_, _, none) => some (m, false)
  | some (h, prev, some curr) => (m.node curr).map fun n => (m.link h prev n.next, true)

def exec : MapOp K V → Option (Memory K V × MapResult V)
  | .get key => (get sum32 size m key).map fun value => (m, .found value)
  | .put key value => (set sum32 size m key value).map fun m' => (m', .done)
  | .remove key => (remove sum32 size m key).map fun x => (x.1, .removed x.2)

variable {sum32 size m} {b : HashTable K V (index sum32 size)}

theorem modulus_pos (hsize : ¬ 2 ^ 32 ∣ size) : 0 < modulus size := by
  rw [Nat.dvd_iff_mod_eq_zero] at hsize
  unfold modulus
  omega

/-- The index is in range whatever is lost of the size. -/
theorem index_lt (hsize : ¬ 2 ^ 32 ∣ size) (key : K) : index sum32 size key < size := by
  have hlt := Nat.mod_lt (sum32 key).toNat (modulus_pos hsize)
  have hle : modulus size ≤ size := Nat.mod_le ..
  exact Nat.lt_of_lt_of_le hlt hle

theorem walk_eq (hsize : ¬ 2 ^ 32 ∣ size) (key : K) :
    walk sum32 size m key =
      (m.seek key (m.nextPtr + 1) none (m.head (index sum32 size key))).map fun x =>
        (index sum32 size key, x) := by
  unfold walk getHash bucket
  rw [if_neg (Nat.ne_of_gt (modulus_pos hsize))]
  dsimp only
  have hlt : (sum32 key).toNat % modulus size < size := index_lt hsize key
  rw [if_pos hlt]
  rfl

theorem exec_denotes (hsize : ¬ 2 ^ 32 ∣ size) (h : Denotes m b) (op : MapOp K V) :
    ∃ m', Denotes m' (b.exec op) ∧
      exec sum32 size m op = some (m', id (FiniteMap.exec b.get op).2) := by
  rcases h.seek op.key with ⟨prev, curr, hseek, hcases⟩
  have hwalk : walk sum32 size m op.key = _ := walk_eq hsize op.key
  rw [hseek] at hwalk
  cases op with
  | get key =>
    refine ⟨m, h, ?_⟩
    unfold exec get
    dsimp only [MapOp.key] at hwalk hcases
    rcases hcases with ⟨rfl, hget, -⟩ | ⟨p, n, rfl, hnode, hget, -⟩
    · simp only [hwalk, FiniteMap.exec, hget]
      rfl
    · simp only [hwalk, Option.map_some, hnode, FiniteMap.exec, hget]
      rfl
  | put key value =>
    unfold exec set
    dsimp only [MapOp.key] at hwalk hcases
    rcases hcases with ⟨rfl, hget, -, hput⟩ | ⟨p, n, rfl, hnode, hget, hput, -⟩
    · refine ⟨_, hput value, ?_⟩
      simp only [hwalk]
      rfl
    · refine ⟨_, hput value, ?_⟩
      simp only [hwalk]
      rfl
  | remove key =>
    unfold exec remove
    dsimp only [MapOp.key] at hwalk hcases
    rcases hcases with ⟨rfl, hget, hremove, -⟩ | ⟨p, n, rfl, hnode, hget, -, hremove, -⟩
    · refine ⟨_, hremove, ?_⟩
      simp only [hwalk, FiniteMap.exec, hget]
      rfl
    · refine ⟨_, hremove, ?_⟩
      simp only [hwalk, Option.map_some, hnode, FiniteMap.exec, hget]
      rfl

/-- The map that the engine is modelled with is the one that the nodes stand for. -/
theorem eq_of_denotes (hsize : ¬ 2 ^ 32 ∣ size) (h : Denotes m b) (key : K) (value : V) :
    get sum32 size m key = some (ConcurrentHashMap.get b.get key) ∧
      (∃ m', ∃ b' : HashTable K V (index sum32 size), Denotes m' b' ∧ set sum32 size m key value = some m' ∧
        b'.get = ConcurrentHashMap.set b.get key value) ∧
      ∃ m', ∃ b' : HashTable K V (index sum32 size), Denotes m' b' ∧
        remove sum32 size m key = some (m', (ConcurrentHashMap.get b.get key).isSome) ∧
        b'.get = ConcurrentHashMap.remove b.get key := by
  rcases exec_denotes hsize h (.get key) with ⟨_, -, hget⟩
  rcases exec_denotes hsize h (.put key value) with ⟨m₁, hm₁, hset⟩
  rcases exec_denotes hsize h (.remove key) with ⟨m₂, hm₂, hremove⟩
  refine ⟨?_, ⟨m₁, _, hm₁, ?_, b.get_exec (.put key value)⟩, m₂, _, hm₂, ?_,
    b.get_exec (.remove key)⟩
  · rcases Option.map_eq_some_iff.mp hget with ⟨v, hv, heq⟩
    cases heq
    exact hv
  · rcases Option.map_eq_some_iff.mp hset with ⟨m', hm', heq⟩
    cases heq
    exact hm'
  · rcases Option.map_eq_some_iff.mp hremove with ⟨x, hx, heq⟩
    simp only [id, FiniteMap.exec, Prod.mk.injEq, MapResult.removed.injEq] at heq
    rw [hx, ← heq.1]
    exact congrArg (fun bound => some (x.1, bound)) heq.2

theorem refines (hsize : ¬ 2 ^ 32 ∣ size) :
    MapOp.Refines (exec sum32 size)
      (fun m (b : HashTable K V (index sum32 size)) => Denotes m b) id :=
  fun _ _ op h => exec_denotes hsize h op

/-- With nothing left of the size there is no call that returns. -/
theorem exec_eq_none (hsize : 2 ^ 32 ∣ size) (op : MapOp K V) : exec sum32 size m op = none := by
  have hzero : modulus size = 0 := Nat.dvd_iff_mod_eq_zero.mp hsize
  have hhash : ∀ key, walk sum32 size m key = none := by
    intro key
    unfold walk getHash
    rw [if_pos hzero]
  cases op with
  | get key =>
    unfold exec get
    simp only [hhash]
    rfl
  | put key value =>
    unfold exec set
    simp only [hhash]
    rfl
  | remove key =>
    unfold exec remove
    simp only [hhash]
    rfl

end Chained

end MatchingEngine.Go.ConcurrentHashMap
