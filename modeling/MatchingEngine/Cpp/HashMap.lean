import MatchingEngine.Lib.Chains

/-!
# `HashMap` of the C++ engine

`get`, `put` and `remove` on the nodes of the table.  The locks of the buckets are left out: a call has
its bucket for itself.
-/

set_option linter.unusedSectionVars false

namespace MatchingEngine.Cpp.HashMap.Chained

open Chains (Memory Denotes)

variable {K V : Type} [DecidableEq K] (hashF : K → ℕ) (size : ℕ) (m : Memory K V)

/-- `hashF(key) % size`; the remainder by 0 is undefined. -/
def hash (key : K) : Option ℕ := if size = 0 then none else some (hashF key % size)

def get (key : K) : Option (Option V) :=
  match hash hashF size key with
  | none => none
  | some h =>
    match m.seek key (m.nextPtr + 1) none (m.head h) with
    | none => none
    | some (_, none) => some none
    | some (_, some curr) => (m.node curr).map fun n => some n.value

/-- If the key exists, it does nothing. -/
def put (key : K) (value : V) : Option (Memory K V) :=
  match hash hashF size key with
  | none => none
  | some h =>
    match m.seek key (m.nextPtr + 1) none (m.head h) with
    | none => none
    | some (prev, none) => some ((m.alloc key value).link h prev (some m.nextPtr))
    | some (_, some _) => some m

def remove (key : K) : Option (Memory K V) :=
  match hash hashF size key with
  | none => none
  | some h =>
    match m.seek key (m.nextPtr + 1) none (m.head h) with
    | none => none
    | some (_, none) => some m
    -- `delete curr` comes last
    | some (prev, some curr) => (m.node curr).map fun n => (m.link h prev n.next).free curr

def exec : MapOp K V → Option (Memory K V × MapResult V)
  | .get key => (get hashF size m key).map fun value => (m, .found value)
  | .put key value => (put hashF size m key value).map fun m' => (m', .done)
  | .remove key => (remove hashF size m key).map fun m' => (m', .done)

/-- `remove` returns nothing. -/
def answer : MapResult V → MapResult V
  | .removed _ => .done
  | r => r

variable {hashF size m} {b : HashTable K V fun key => hashF key % size}

theorem hash_eq (hsize : 1 ≤ size) (key : K) : hash hashF size key = some (hashF key % size) :=
  if_neg (Nat.ne_of_gt hsize)

theorem exec_denotes (hsize : 1 ≤ size) (h : Denotes m b) (op : MapOp K V) :
    ∃ m', Denotes m' (b.exec op) ∧
      exec hashF size m op = some (m', answer (FiniteMap.exec b.get op).2) := by
  rcases h.seek op.key with ⟨prev, curr, hseek, hcases⟩
  have hhash : hash hashF size op.key = some (hashF op.key % size) := hash_eq hsize op.key
  cases op with
  | get key =>
    refine ⟨m, h, ?_⟩
    unfold exec get
    dsimp only [MapOp.key] at hhash hseek hcases
    rcases hcases with ⟨rfl, hget, -⟩ | ⟨p, n, rfl, hnode, hget, -⟩
    · simp only [hhash, hseek, FiniteMap.exec, hget]
      rfl
    · simp only [hhash, hseek, hnode, FiniteMap.exec, hget]
      rfl
  | put key value =>
    unfold exec put
    dsimp only [MapOp.key] at hhash hseek hcases
    rcases hcases with ⟨rfl, hget, -, hput⟩ | ⟨p, n, rfl, hnode, hget, hput, -⟩
    · refine ⟨_, hput value, ?_⟩
      simp only [hhash, hseek]
      rfl
    · refine ⟨_, hput value, ?_⟩
      simp only [hhash, hseek]
      rfl
  | remove key =>
    unfold exec remove
    dsimp only [MapOp.key] at hhash hseek hcases
    rcases hcases with ⟨rfl, hget, hremove, -⟩ | ⟨p, n, rfl, hnode, hget, -, -, hremove⟩
    · refine ⟨_, hremove, ?_⟩
      simp only [hhash, hseek]
      rfl
    · refine ⟨_, hremove, ?_⟩
      simp only [hhash, hseek, hnode]
      rfl

theorem refines (hsize : 1 ≤ size) :
    MapOp.Refines (exec hashF size)
      (fun m (b : HashTable K V fun key => hashF key % size) => Denotes m b) answer :=
  fun _ _ op h => exec_denotes hsize h op

end MatchingEngine.Cpp.HashMap.Chained
