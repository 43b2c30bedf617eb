import MatchingEngine.Cpp.HashMap
import MatchingEngine.Go.ConcurrentHashMap

/-!
# The hash maps of both engines

Any calls on either map, from the empty one on, return what they return on a finite map, for any hash
function and any size of the table that a `uint32` does not turn into 0.
-/

namespace MatchingEngine

open Chains (Memory)

variable {K V : Type} [DecidableEq K]

/-- The calls on the C++ map, and on the Go map. -/
def runCpp (hashF : K → ℕ) (size : ℕ) (ops : List (MapOp K V)) :
    Option (Memory K V × List (MapResult V)) :=
  MapOp.run (Cpp.HashMap.Chained.exec hashF size) Memory.empty ops

def runGo (sum32 : K → UInt32) (size : ℕ) (ops : List (MapOp K V)) :
    Option (Memory K V × List (MapResult V)) :=
  MapOp.run (Go.ConcurrentHashMap.Chained.exec sum32 size) Memory.empty ops

theorem runCpp_refines (hashF : K → ℕ) {size : ℕ} (hsize : 1 ≤ size) (ops : List (MapOp K V)) :
    ∃ m, ∃ b : HashTable K V fun key => hashF key % size, Chains.Denotes m b ∧
      runCpp hashF size ops =
        some (m, (FiniteMap.results (fun _ => none) ops).map Cpp.HashMap.Chained.answer) :=
  MapOp.run_answers (Cpp.HashMap.Chained.refines hsize) Chains.denotes_empty ops

theorem runGo_refines (sum32 : K → UInt32) {size : ℕ} (hsize : ¬ 2 ^ 32 ∣ size)
    (ops : List (MapOp K V)) :
    ∃ m, ∃ b : HashTable K V (Go.ConcurrentHashMap.Chained.index sum32 size), Chains.Denotes m b ∧
      runGo sum32 size ops = some (m, FiniteMap.results (fun _ => none) ops) := by
  rcases MapOp.run_answers (Go.ConcurrentHashMap.Chained.refines hsize) Chains.denotes_empty ops with
    ⟨m, b, h, hrun⟩
  rw [List.map_id] at hrun
  exact ⟨m, b, h, hrun⟩

theorem found_injective : Function.Injective (MapResult.found : Option V → MapResult V) := by
  intro v w h
  cases h
  rfl

/-- The C++ map returns what the finite map returns, less what `remove` says; the Go map returns what
    it returns if and only if something is left of its size in 32 bits, or there is no call.  A call
    that returns does not change what the keys of others are mapped to. -/
theorem hashMaps_iff (hashF : K → ℕ) (sum32 : K → UInt32) (size : ℕ) (hsize : 1 ≤ size)
    (ops : List (MapOp K V)) :
    ((runCpp hashF size ops).map Prod.snd =
        some ((FiniteMap.results (fun _ => none) ops).map Cpp.HashMap.Chained.answer) ∧
      ∀ m rs op m' r key, runCpp hashF size ops = some (m, rs) →
        Cpp.HashMap.Chained.exec hashF size m op = some (m', r) → key ≠ op.key →
        Cpp.HashMap.Chained.get hashF size m' key = Cpp.HashMap.Chained.get hashF size m key) ∧
    (((runGo sum32 size ops).map Prod.snd = some (FiniteMap.results (fun _ => none) ops) ↔
        ¬ 2 ^ 32 ∣ size ∨ ops = []) ∧
      ∀ m rs op m' r key, runGo sum32 size ops = some (m, rs) →
        Go.ConcurrentHashMap.Chained.exec sum32 size m op = some (m', r) → key ≠ op.key →
        Go.ConcurrentHashMap.Chained.get sum32 size m' key =
          Go.ConcurrentHashMap.Chained.get sum32 size m key) := by
  refine ⟨⟨?_, ?_⟩, ⟨?_, ?_⟩, ?_⟩
  · rcases runCpp_refines hashF hsize ops with ⟨m, b, -, hrun⟩
    rw [hrun]
    rfl
  · intro m rs op m' r key hrun hop hkey
    rcases runCpp_refines hashF hsize ops with ⟨m₁, b, hm, hrun'⟩
    rw [hrun] at hrun'
    cases hrun'
    have hget := MapOp.get_of_ne (Cpp.HashMap.Chained.refines hsize) hm hop hkey
    unfold Cpp.HashMap.Chained.exec at hget
    rw [Option.map_map, Option.map_map] at hget
    exact Option.map_injective found_injective hget
  · intro hrun
    by_cases hsize' : 2 ^ 32 ∣ size
    · right
      cases ops with
      | nil => rfl
      | cons op ops =>
        unfold runGo MapOp.run at hrun
        rw [Go.ConcurrentHashMap.Chained.exec_eq_none hsize'] at hrun
        cases hrun
    · exact Or.inl hsize'
  · intro hcond
    rcases hcond with hsize' | rfl
    · rcases runGo_refines sum32 hsize' ops with ⟨m, b, -, hrun⟩
      rw [hrun]
      rfl
    · rfl
  · intro m rs op m' r key hrun hop hkey
    have hsize' : ¬ 2 ^ 32 ∣ size := by
      intro hdvd
      rw [Go.ConcurrentHashMap.Chained.exec_eq_none hdvd] at hop
      cases hop
    rcases runGo_refines sum32 hsize' ops with ⟨m₁, b, hm, hrun'⟩
    rw [hrun] at hrun'
    cases hrun'
    have hget := MapOp.get_of_ne (Go.ConcurrentHashMap.Chained.refines hsize') hm hop hkey
    unfold Go.ConcurrentHashMap.Chained.exec at hget
    rw [Option.map_map, Option.map_map] at hget
    exact Option.map_injective found_injective hget

/-- Three keys in one bucket; the one in the middle is removed. -/
def colliding : List (MapOp ℕ ℕ) :=
  [.put 1 10, .put 2 20, .put 3 30, .put 2 21, .remove 2, .get 1, .get 2, .get 3, .remove 2]

theorem hashMaps_colliding :
    (runCpp (fun _ => 5) 4 colliding).map Prod.snd =
        some [.done, .done, .done, .done, .done, .found (some 10), .found none, .found (some 30),
          .done] ∧
      (runGo (fun _ => 5) 4 colliding).map Prod.snd =
        some [.done, .done, .done, .done, .removed true, .found (some 10), .found none,
          .found (some 30), .removed false] := by
  have hboth := hashMaps_iff (fun _ => 5) (fun _ => 5) 4 (by decide) colliding
  refine ⟨hboth.1.1.trans ?_, (hboth.2.1.mpr (Or.inl (by decide))).trans ?_⟩
  · decide
  · decide

/-- With 2^32 buckets the Go map divides by 0 in its first call. -/
theorem not_hashMaps_wide :
    runGo (V := ℕ) (fun _ : ℕ => 0) (2 ^ 32) [.get 0] = none ∧
      ¬ ∀ (sum32 : ℕ → UInt32) (size : ℕ) (ops : List (MapOp ℕ ℕ)), 1 ≤ size →
        (runGo sum32 size ops).map Prod.snd = some (FiniteMap.results (fun _ => none) ops) := by
  have hnone : runGo (V := ℕ) (fun _ : ℕ => 0) (2 ^ 32) [.get 0] = none := rfl
  refine ⟨hnone, fun hall => ?_⟩
  have hsome := hall (fun _ => 0) (2 ^ 32) [.get 0] (by decide)
  rw [hnone] at hsome
  cases hsome

end MatchingEngine
