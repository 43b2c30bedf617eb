import Mathlib.Logic.Function.Basic
import Mathlib.Data.List.Nodup

/-!
# Hash tables with chains

Each bucket is a chain of entries.  Looking up, adding and taking away an entry walk the chain of the
key's bucket; adding a key that is present changes nothing.  `get` after an operation is what it is on
a finite map, whatever keys share a bucket.
-/

namespace HashTable

variable {K V : Type} [DecidableEq K]

/-- The entry of a key in a chain. -/
def find (key : K) : List (K × V) → Option V
  | [] => none
  | (k, v) :: rest => if k = key then some v else find key rest

/-- A new entry goes to the end of the chain. -/
def append (key : K) (value : V) : List (K × V) → List (K × V)
  | [] => [(key, value)]
  | (k, v) :: rest => if k = key then (k, v) :: rest else (k, v) :: append key value rest

/-- The chain without the first entry of a key. -/
def unlink (key : K) : List (K × V) → List (K × V)
  | [] => []
  | (k, v) :: rest => if k = key then rest else (k, v) :: unlink key rest

theorem find_append (key key' : K) (value : V) (chain : List (K × V)) :
    find key' (append key value chain) =
      if key' = key then some ((find key chain).getD value) else find key' chain := by
  induction chain with
  | nil =>
    rw [append]
    by_cases h : key' = key
    · subst h
      simp [find]
    · simp [find, h, Ne.symm h]
  | cons x rest ih =>
    rcases x with ⟨k, v⟩
    rw [append]
    by_cases hk : k = key
    · subst hk
      rw [if_pos rfl]
      by_cases h : key' = k
      · subst h
        simp [find]
      · rw [if_neg h]
    · rw [if_neg hk, find, ih]
      by_cases h : key' = key
      · subst h
        rw [if_neg hk, if_pos rfl, if_pos rfl, find, if_neg hk]
      · rw [if_neg h, if_neg h, find]

/-- No key stands twice in a chain. -/
abbrev Distinct (chain : List (K × V)) : Prop := (chain.map Prod.fst).Nodup

theorem find_eq_none {key : K} {chain : List (K × V)} (h : key ∉ chain.map Prod.fst) :
    find key chain = none := by
  induction chain with
  | nil => rfl
  | cons x rest ih =>
    rw [List.map_cons, List.mem_cons, not_or] at h
    rw [find, if_neg (Ne.symm h.1), ih h.2]

theorem find_unlink (key key' : K) {chain : List (K × V)} (hd : Distinct chain) :
    find key' (unlink key chain) = if key' = key then none else find key' chain := by
  induction chain with
  | nil => simp [unlink, find]
  | cons x rest ih =>
    rcases x with ⟨k, v⟩
    rcases List.nodup_cons.mp hd with ⟨hk, hrest⟩
    rw [unlink]
    by_cases heq : k = key
    · subst heq
      rw [if_pos rfl]
      by_cases h : key' = k
      · subst h
        rw [if_pos rfl]
        exact find_eq_none hk
      · rw [if_neg h, find, if_neg (Ne.symm h)]
    · rw [if_neg heq, find, ih hrest]
      by_cases h : key' = key
      · subst h
        rw [if_neg heq, if_pos rfl, if_pos rfl]
      · rw [if_neg h, if_neg h, find]

theorem keys_append (key : K) (value : V) (chain : List (K × V)) :
    (append key value chain).map Prod.fst =
      if key ∈ chain.map Prod.fst then chain.map Prod.fst else chain.map Prod.fst ++ [key] := by
  induction chain with
  | nil => rfl
  | cons x rest ih =>
    rcases x with ⟨k, v⟩
    rw [append]
    by_cases hk : k = key
    · subst hk
      simp
    · rw [if_neg hk, List.map_cons, ih, List.map_cons]
      by_cases h : key ∈ rest.map Prod.fst
      · rw [if_pos h, if_pos (List.mem_cons_of_mem _ h)]
      · rw [if_neg h, if_neg fun h' => (List.mem_cons.mp h').elim (fun h' => hk h'.symm) h]
        rfl

theorem Distinct.append {chain : List (K × V)} (h : Distinct chain) (key : K) (value : V) :
    Distinct (append key value chain) := by
  unfold Distinct
  rw [keys_append]
  split
  · exact h
  next hk =>
    rw [List.nodup_append]
    refine ⟨h, List.nodup_singleton key, ?_⟩
    rintro k hk' k' hk''
    cases List.mem_singleton.mp hk''
    rintro rfl
    exact hk hk'

theorem unlink_sublist (key : K) (chain : List (K × V)) : (unlink key chain).Sublist chain := by
  induction chain with
  | nil => exact List.Sublist.refl _
  | cons x rest ih =>
    rw [unlink]
    split
    · exact List.sublist_cons_self x rest
    · exact ih.cons_cons x

theorem Distinct.unlink {chain : List (K × V)} (h : Distinct chain) (key : K) :
    Distinct (unlink key chain) :=
  h.sublist ((unlink_sublist key chain).map Prod.fst)

end HashTable

/-- A table: the buckets, each with the keys it is for, and none of them twice. -/
structure HashTable (K V : Type) (index : K → ℕ) where
  bucket : ℕ → List (K × V)
  distinct : ∀ i, HashTable.Distinct (bucket i)

namespace HashTable

variable {K V : Type} [DecidableEq K] {index : K → ℕ}

def empty : HashTable K V index where
  bucket := fun _ => []
  distinct := fun _ => List.nodup_nil

def get (m : HashTable K V index) (key : K) : Option V := find key (m.bucket (index key))

/-- The table with another chain in the bucket of a key. -/
def setBucket (m : HashTable K V index) (key : K) (chain : List (K × V)) (h : Distinct chain) :
    HashTable K V index where
  bucket := Function.update m.bucket (index key) chain
  distinct := by
    intro i
    by_cases hi : i = index key
    · subst hi
      rw [Function.update_self]
      exact h
    · rw [Function.update_of_ne hi]
      exact m.distinct i

def put (m : HashTable K V index) (key : K) (value : V) : HashTable K V index :=
  m.setBucket key (append key value (m.bucket (index key)))
    ((m.distinct (index key)).append key value)

def remove (m : HashTable K V index) (key : K) : HashTable K V index :=
  m.setBucket key (unlink key (m.bucket (index key))) ((m.distinct (index key)).unlink key)

@[simp] theorem get_empty (key : K) : (empty : HashTable K V index).get key = none := rfl

/-- A change of one bucket is seen by the keys of that bucket only. -/
theorem get_setBucket (m : HashTable K V index) (key key' : K) {chain : List (K × V)}
    (h : Distinct chain) :
    (m.setBucket key chain h).get key' =
      if index key' = index key then find key' chain else m.get key' := by
  unfold get setBucket
  dsimp only
  by_cases hi : index key' = index key
  · rw [hi, Function.update_self, if_pos rfl]
  · rw [Function.update_of_ne hi, if_neg hi]

theorem get_put (m : HashTable K V index) (key key' : K) (value : V) :
    (m.put key value).get key' =
      if key' = key then some ((m.get key).getD value) else m.get key' := by
  rw [put, get_setBucket, find_append]
  by_cases h : key' = key
  · subst h
    rw [if_pos rfl, if_pos rfl, if_pos rfl]
    rfl
  · rw [if_neg h, if_neg h]
    split
    next hi => rw [get, hi]
    · rfl

/-- A put binds nothing but its own key, and that one only if it was unbound. -/
theorem get_put_eq_some {m : HashTable K V index} {key key' : K} {value v : V} :
    (m.put key value).get key' = some v ↔
      m.get key' = some v ∨ (key' = key ∧ m.get key = none ∧ v = value) := by
  rw [get_put]
  by_cases h : key' = key
  · subst h
    rw [if_pos rfl]
    cases m.get key' with
    | none => simp [eq_comm]
    | some w => simp
  · rw [if_neg h]
    simp [h]

theorem get_put_self_isSome (m : HashTable K V index) (key : K) (value : V) :
    ∃ v, (m.put key value).get key = some v :=
  ⟨(m.get key).getD value, by rw [get_put, if_pos rfl]⟩

theorem get_remove (m : HashTable K V index) (key key' : K) :
    (m.remove key).get key' = if key' = key then none else m.get key' := by
  rw [remove, get_setBucket, find_unlink _ _ (m.distinct (index key))]
  by_cases h : key' = key
  · subst h
    rw [if_pos rfl, if_pos rfl, if_pos rfl]
  · rw [if_neg h, if_neg h]
    split
    next hi => rw [get, hi]
    · rfl

end HashTable

/-! ## The finite map -/

/-- A call on a map. -/
inductive MapOp (K V : Type)
  | get (key : K)
  | put (key : K) (value : V)
  | remove (key : K)

/-- What the call returns; `removed` says whether the key was bound. -/
inductive MapResult (V : Type)
  | found (value : Option V)
  | done
  | removed (bound : Bool)
  deriving DecidableEq, Repr

def MapOp.key {K V : Type} : MapOp K V → K
  | .get key | .put key _ | .remove key => key

abbrev FiniteMap (K V : Type) := K → Option V

namespace FiniteMap

variable {K V : Type} [DecidableEq K]

/-- A put of a key that is bound changes nothing. -/
def put (m : FiniteMap K V) (key : K) (value : V) : FiniteMap K V :=
  match m key with
  | some _ => m
  | none => Function.update m key (some value)

def remove (m : FiniteMap K V) (key : K) : FiniteMap K V := Function.update m key none

def exec (m : FiniteMap K V) : MapOp K V → FiniteMap K V × MapResult V
  | .get key => (m, .found (m key))
  | .put key value => (m.put key value, .done)
  | .remove key => (m.remove key, .removed (m key).isSome)

/-- What the calls return one after the other. -/
def results (m : FiniteMap K V) : List (MapOp K V) → List (MapResult V)
  | [] => []
  | op :: ops => (m.exec op).2 :: results (m.exec op).1 ops

theorem exec_of_ne (m : FiniteMap K V) {op : MapOp K V} {key : K} (h : key ≠ op.key) :
    (m.exec op).1 key = m key := by
  cases op with
  | get key' => rfl
  | put key' value =>
    show m.put key' value key = m key
    unfold put
    cases m key' with
    | none => exact Function.update_of_ne h (some value) m
    | some v => rfl
  | remove key' => exact Function.update_of_ne h none m

end FiniteMap

namespace HashTable

variable {K V : Type} [DecidableEq K] {index : K → ℕ}

def exec (m : HashTable K V index) : MapOp K V → HashTable K V index
  | .get _ => m
  | .put key value => m.put key value
  | .remove key => m.remove key

/-- A call changes the table as it changes the map that the table stands for. -/
theorem get_exec (m : HashTable K V index) (op : MapOp K V) :
    (m.exec op).get = (FiniteMap.exec m.get op).1 := by
  funext key'
  cases op with
  | get key => rfl
  | put key value =>
    show (m.put key value).get key' = FiniteMap.put m.get key value key'
    rw [get_put]
    unfold FiniteMap.put
    by_cases h : key' = key
    · subst h
      rw [if_pos rfl]
      cases hget : m.get key' with
      | none => exact (Function.update_self key' (some value) m.get).symm
      | some v => exact hget.symm
    · rw [if_neg h]
      cases m.get key with
      | none => exact (Function.update_of_ne h (some value) m.get).symm
      | some v => rfl
  | remove key =>
    show (m.remove key).get key' = FiniteMap.remove m.get key key'
    rw [get_remove]
    unfold FiniteMap.remove
    by_cases h : key' = key
    · subst h
      rw [if_pos rfl, Function.update_self]
    · rw [if_neg h, Function.update_of_ne h]

end HashTable

/-! ## Implementations -/

namespace MapOp

variable {K V M R : Type} {index : K → ℕ}

/-- The calls one after the other, on an implementation with states `M`; there is nothing after a call
    without result. -/
def run (exec : M → MapOp K V → Option (M × R)) : M → List (MapOp K V) → Option (M × List R)
  | m, [] => some (m, [])
  | m, op :: ops =>
    match exec m op with
    | none => none
    | some (m', r) => (run exec m' ops).map fun x => (x.1, r :: x.2)

variable [DecidableEq K] {exec : M → MapOp K V → Option (M × R)}
  {Denotes : M → HashTable K V index → Prop} {answer : MapResult V → R}

/-- Each call on the implementation is the call on the table that its state stands for, and returns
    what `answer` makes of the result on the finite map. -/
def Refines (exec : M → MapOp K V → Option (M × R)) (Denotes : M → HashTable K V index → Prop)
    (answer : MapResult V → R) : Prop :=
  ∀ m b op, Denotes m b → ∃ m', Denotes m' (b.exec op) ∧
    exec m op = some (m', answer (FiniteMap.exec b.get op).2)

/-- An implementation whose calls are those of a table runs like the finite map. -/
theorem run_answers (hexec : Refines exec Denotes answer) {m : M} {b : HashTable K V index}
    (h : Denotes m b) (ops : List (MapOp K V)) :
    ∃ m' b', Denotes m' b' ∧
      run exec m ops = some (m', (FiniteMap.results b.get ops).map answer) := by
  induction ops generalizing m b with
  | nil => exact ⟨m, b, h, rfl⟩
  | cons op ops ih =>
    rcases hexec m b op h with ⟨m₁, h₁, heq⟩
    rcases ih h₁ with ⟨m', b', h', hrun⟩
    refine ⟨m', b', h', ?_⟩
    unfold run
    rw [heq]
    dsimp only
    rw [hrun, HashTable.get_exec]
    rfl

/-- A call on one key leaves alone what the others are mapped to. -/
theorem get_of_ne (hexec : Refines exec Denotes answer) {m m' : M} {b : HashTable K V index}
    (h : Denotes m b) {op : MapOp K V} {r : R} (hop : exec m op = some (m', r)) {key : K}
    (hkey : key ≠ op.key) :
    (exec m' (.get key)).map Prod.snd = (exec m (.get key)).map Prod.snd := by
  rcases hexec m b op h with ⟨m₁, h₁, heq⟩
  rw [hop] at heq
  cases heq
  rcases hexec m b (.get key) h with ⟨_, -, hget⟩
  rcases hexec m' _ (.get key) h₁ with ⟨_, -, hget'⟩
  rw [hget, hget', HashTable.get_exec]
  show some (answer (.found ((FiniteMap.exec b.get op).1 key))) = some (answer (.found (b.get key)))
  rw [FiniteMap.exec_of_ne _ hkey]

end MapOp
