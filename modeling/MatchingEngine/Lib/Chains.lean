import MatchingEngine.Lib.HashTable
import Mathlib.Data.List.Perm.Subperm

/-!
# Hash tables of linked nodes

The chains of a hash table as nodes in a memory.  `seek` is the walk with a trailing pointer that both
adding and removing an entry start with; what they do then is a change of one `next` pointer or of the
head of the bucket.  `Shows` ties the memory to the chains of a `HashTable`.
-/

set_option linter.unusedSectionVars false

namespace Chains

abbrev Ptr := ℕ

structure Node (K V : Type) where
  key : K
  value : V
  next : Option Ptr

/-- The heads of the buckets and the nodes; there is none at an address that is free. -/
structure Memory (K V : Type) where
  head : ℕ → Option Ptr
  node : Ptr → Option (Node K V)
  /-- the next address to be handed out -/
  nextPtr : Ptr

namespace Memory

variable {K V : Type}

def empty : Memory K V where
  head := fun _ => none
  node := fun _ => none
  nextPtr := 0

variable (m : Memory K V)

/-- A new node without successor, at `m.nextPtr`. -/
def alloc (key : K) (value : V) : Memory K V :=
  { m with
    node := Function.update m.node m.nextPtr (some { key, value, next := none })
    nextPtr := m.nextPtr + 1 }

def free (p : Ptr) : Memory K V := { m with node := Function.update m.node p none }

def setNext (p : Ptr) (next : Option Ptr) : Memory K V :=
  { m with node := Function.update m.node p ((m.node p).map fun n => { n with next }) }

def setHead (i : ℕ) (p : Option Ptr) : Memory K V := { m with head := Function.update m.head i p }

/-- The bucket's head, or the node `prev`, is made to point to `next`. -/
def link (i : ℕ) (prev next : Option Ptr) : Memory K V :=
  match prev with
  | none => m.setHead i next
  | some p => m.setNext p next

variable [DecidableEq K]

/-- The walk from `curr` to the node of the key or to the end, with the node before it.  A walk that
    meets a free address, or is not over after `fuel` nodes, has no result. -/
def seek (key : K) : ℕ → Option Ptr → Option Ptr → Option (Option Ptr × Option Ptr)
  | 0, _, _ => none
  | _ + 1, prev, none => some (prev, none)
  | fuel + 1, prev, some p =>
    match m.node p with
    | none => none
    | some n => if n.key = key then some (prev, some p) else seek key fuel (some p) n.next

end Memory

/-! ## Chains in a memory -/

/-- A node of a chain with its address. -/
structure Cell (K V : Type) where
  ptr : Ptr
  key : K
  value : V

variable {K V : Type}

def Cell.entry (c : Cell K V) : K × V := (c.key, c.value)

/-- The nodes from `start` are these. -/
def Linked (node : Ptr → Option (Node K V)) : Option Ptr → List (Cell K V) → Prop
  | start, [] => start = none
  | start, c :: cells => start = some c.ptr ∧
      ∃ next, node c.ptr = some { key := c.key, value := c.value, next } ∧ Linked node next cells

section Linked

variable {node node' : Ptr → Option (Node K V)} {start : Option Ptr} {cells l r r' : List (Cell K V)}
  {c : Cell K V}

theorem Linked.congr (h : Linked node start cells) (heq : ∀ c ∈ cells, node' c.ptr = node c.ptr) :
    Linked node' start cells := by
  induction cells generalizing start with
  | nil => exact h
  | cons c cells ih =>
    rcases h with ⟨hstart, next, hnode, hrest⟩
    refine ⟨hstart, next, (heq c List.mem_cons_self).trans hnode, ih hrest ?_⟩
    exact fun d hd => heq d (List.mem_cons_of_mem _ hd)

/-- The successor of a node is replaced, and all that is behind it. -/
theorem Linked.splice (h : Linked node start (l ++ c :: r))
    (hl : ∀ d ∈ l, d.ptr ≠ c.ptr) {next : Option Ptr} (hr' : Linked node next r')
    (hr : ∀ d ∈ r', d.ptr ≠ c.ptr) :
    Linked (Function.update node c.ptr ((node c.ptr).map fun n => { n with next })) start
      (l ++ c :: r') := by
  induction l generalizing start with
  | nil =>
    rcases h with ⟨hstart, next', hnode, -⟩
    refine ⟨hstart, next, ?_, ?_⟩
    · rw [Function.update_self, hnode]
      rfl
    · apply hr'.congr
      intro d hd
      rw [Function.update_of_ne (hr d hd)]
  | cons d l ih =>
    rcases h with ⟨hstart, next', hnode, hrest⟩
    refine ⟨hstart, next', ?_, ih hrest fun e he => hl e (List.mem_cons_of_mem _ he)⟩
    rw [Function.update_of_ne (hl d List.mem_cons_self)]
    exact hnode

/-- A node of the chain is in the memory. -/
theorem Linked.node_eq (h : Linked node start (l ++ c :: r)) :
    ∃ next, node c.ptr = some { key := c.key, value := c.value, next } ∧ Linked node next r := by
  induction l generalizing start with
  | nil => exact h.2
  | cons d l ih =>
    rcases h with ⟨-, next, -, hrest⟩
    exact ih hrest

theorem Linked.insert_other (h : Linked node start cells) {p : Ptr} {n : Option (Node K V)}
    (hp : ∀ c ∈ cells, c.ptr ≠ p) : Linked (Function.update node p n) start cells := by
  apply h.congr
  intro c hc
  rw [Function.update_of_ne (hp c hc)]

end Linked

/-- The address of the last cell, as the trailing pointer has it. -/
def lastPtr (l : List (Cell K V)) : Option Ptr := l.getLast?.map Cell.ptr

@[simp] theorem lastPtr_nil : lastPtr ([] : List (Cell K V)) = none := rfl

@[simp] theorem lastPtr_append (l : List (Cell K V)) (c : Cell K V) :
    lastPtr (l ++ [c]) = some c.ptr := by
  unfold lastPtr
  rw [List.getLast?_append]
  rfl

section Seek

variable [DecidableEq K] {m : Memory K V} {fuel : ℕ} {start : Option Ptr} {cells : List (Cell K V)}

/-- The walk passes the nodes of other keys. -/
theorem seek_spec (key : K) (prev : Option Ptr) (h : Linked m.node start cells) (hfuel : cells.length < fuel) :
    ∃ l r, cells = l ++ r ∧ (∀ c ∈ l, c.key ≠ key) ∧ (∀ c, r.head? = some c → c.key = key) ∧
      m.seek key fuel prev start =
        some (if l = [] then prev else lastPtr l, r.head?.map Cell.ptr) := by
  induction cells generalizing prev start fuel with
  | nil =>
    cases fuel with
    | zero => cases hfuel
    | succ fuel =>
      cases h
      exact ⟨[], [], rfl, fun _ hc => (by cases hc), fun _ hc => (by cases hc), rfl⟩
  | cons c cells ih =>
    cases fuel with
    | zero => cases hfuel
    | succ fuel =>
      rcases h with ⟨rfl, next, hnode, hrest⟩
      by_cases hkey : c.key = key
      · refine ⟨[], c :: cells, rfl, fun _ hc => (by cases hc), ?_, ?_⟩
        · intro d hd
          cases hd
          exact hkey
        · simp only [Memory.seek, hnode, hkey, if_true]
          rfl
      · rcases ih (some c.ptr) hrest (Nat.lt_of_succ_lt_succ hfuel) with
          ⟨l, r, rfl, hl, hr, hseek⟩
        refine ⟨c :: l, r, rfl, ?_, hr, ?_⟩
        · intro d hd
          rcases List.mem_cons.mp hd with rfl | hd
          · exact hkey
          · exact hl d hd
        · simp only [Memory.seek, hnode, hkey, if_false, hseek, reduceCtorEq]
          cases l with
          | nil => rfl
          | cons d l =>
            rw [if_neg (List.cons_ne_nil d l)]
            unfold lastPtr
            rw [List.getLast?_cons_cons]

end Seek

/-! ## Tables -/

/-- The buckets of the memory have these nodes, and no node is in two places. -/
structure Shows (m : Memory K V) (cells : ℕ → List (Cell K V)) : Prop where
  linked : ∀ i, Linked m.node (m.head i) (cells i)
  bound : ∀ i, ∀ c ∈ cells i, c.ptr < m.nextPtr
  nodup : ∀ i, ((cells i).map Cell.ptr).Nodup
  apart : ∀ i j, i ≠ j → ∀ c ∈ cells i, ∀ d ∈ cells j, c.ptr ≠ d.ptr

section Shows

variable {m : Memory K V} {cells : ℕ → List (Cell K V)} {i : ℕ} {l r r' : List (Cell K V)}

theorem shows_empty : Shows (Memory.empty : Memory K V) fun _ => [] where
  linked := fun _ => rfl
  bound := fun _ _ hc => by cases hc
  nodup := fun _ => List.nodup_nil
  apart := fun _ _ _ _ hc => by cases hc

/-- No chain is longer than the number of addresses handed out. -/
theorem Shows.length_le (h : Shows m cells) (i : ℕ) : (cells i).length ≤ m.nextPtr := by
  have hsub : (cells i).map Cell.ptr ⊆ List.range m.nextPtr := by
    intro p hp
    rcases List.mem_map.mp hp with ⟨c, hc, rfl⟩
    exact List.mem_range.mpr (h.bound i c hc)
  have hle := (List.subperm_of_subset (h.nodup i) hsub).length_le
  rw [List.length_map, List.length_range] at hle
  exact hle

theorem Shows.alloc (h : Shows m cells) (key : K) (value : V) : Shows (m.alloc key value) cells where
  linked := by
    intro i
    apply (h.linked i).insert_other
    intro c hc
    exact Nat.ne_of_lt (h.bound i c hc)
  bound := fun i c hc => Nat.lt_succ_of_lt (h.bound i c hc)
  nodup := h.nodup
  apart := h.apart

/-- What is behind the nodes `l` of a bucket is replaced. -/
theorem Shows.link (h : Shows m cells) (hcells : cells i = l ++ r) {next : Option Ptr}
    (hr' : Linked m.node next r') (hbound : ∀ c ∈ r', c.ptr < m.nextPtr)
    (hnodup : ((l ++ r').map Cell.ptr).Nodup)
    (hapart : ∀ j, j ≠ i → ∀ c ∈ cells j, ∀ d ∈ r', c.ptr ≠ d.ptr) :
    Shows (m.link i (lastPtr l) next) (Function.update cells i (l ++ r')) := by
  have hsides : ∀ c ∈ l, c ∈ cells i := by
    intro c hc
    rw [hcells]
    exact List.mem_append_left r hc
  have hptr : (m.link i (lastPtr l) next).nextPtr = m.nextPtr := by
    unfold Memory.link
    split <;> rfl
  have happart : ∀ j, j ≠ i → ∀ c ∈ cells j, ∀ d ∈ l ++ r', c.ptr ≠ d.ptr := by
    intro j hj c hc d hd
    rcases List.mem_append.mp hd with hd | hd
    · exact h.apart j i hj c hc d (hsides d hd)
    · exact hapart j hj c hc d hd
  constructor
  · intro j
    have hj := h.linked j
    rcases List.eq_nil_or_concat' l with rfl | ⟨l, d, rfl⟩
    · unfold Memory.link
      rw [lastPtr_nil]
      dsimp only [Memory.setHead]
      by_cases hji : j = i
      · subst hji
        rw [Function.update_self, Function.update_self]
        exact hr'
      · rw [Function.update_of_ne hji, Function.update_of_ne hji]
        exact hj
    · unfold Memory.link
      rw [lastPtr_append]
      dsimp only [Memory.setNext]
      by_cases hji : j = i
      · subst hji
        rw [Function.update_self]
        rw [hcells, List.append_assoc] at hj
        rw [List.append_assoc]
        rw [List.append_assoc, List.map_append, List.nodup_append] at hnodup
        apply hj.splice
        · intro e he
          exact hnodup.2.2 e.ptr (List.mem_map_of_mem he) d.ptr List.mem_cons_self
        · exact hr'
        · intro e he
          have hnot := (List.nodup_cons.mp hnodup.2.1).1
          rintro heq
          rw [← heq] at hnot
          exact hnot (List.mem_map_of_mem he)
      · rw [Function.update_of_ne hji]
        apply hj.insert_other
        intro c hc
        apply happart j hji c hc
        exact List.mem_append_left r' (List.mem_append_right l (List.mem_singleton_self d))
  · intro j c hc
    rw [hptr]
    by_cases hji : j = i
    · subst hji
      rw [Function.update_self] at hc
      rcases List.mem_append.mp hc with hc | hc
      · exact h.bound j c (hsides c hc)
      · exact hbound c hc
    · rw [Function.update_of_ne hji] at hc
      exact h.bound j c hc
  · intro j
    by_cases hji : j = i
    · subst hji
      rw [Function.update_self]
      exact hnodup
    · rw [Function.update_of_ne hji]
      exact h.nodup j
  · intro j j' hne c hc d hd
    by_cases hji : j = i
    · subst hji
      rw [Function.update_self] at hc
      rw [Function.update_of_ne hne.symm] at hd
      exact (happart j' hne.symm d hd c hc).symm
    · rw [Function.update_of_ne hji] at hc
      by_cases hj'i : j' = i
      · subst hj'i
        rw [Function.update_self] at hd
        exact happart j hji c hc d hd
      · rw [Function.update_of_ne hj'i] at hd
        exact h.apart j j' hne c hc d hd

/-- A node that stands nowhere is freed. -/
theorem Shows.free (h : Shows m cells) {p : Ptr} (hp : ∀ i, ∀ c ∈ cells i, c.ptr ≠ p) :
    Shows (m.free p) cells where
  linked := fun i => (h.linked i).insert_other (hp i)
  bound := h.bound
  nodup := h.nodup
  apart := h.apart

/-- A new node is put at the end of a bucket. -/
theorem Shows.insert (h : Shows m cells) (i : ℕ) (key : K) (value : V) :
    Shows ((m.alloc key value).link i (lastPtr (cells i)) (some m.nextPtr))
      (Function.update cells i (cells i ++ [{ ptr := m.nextPtr, key, value }])) := by
  apply (h.alloc key value).link (r := []) (List.append_nil _).symm
  · refine ⟨rfl, none, ?_, rfl⟩
    exact Function.update_self ..
  · intro c hc
    cases List.mem_singleton.mp hc
    exact Nat.lt_succ_self _
  · rw [List.map_append, List.nodup_append]
    refine ⟨h.nodup i, List.nodup_singleton _, ?_⟩
    intro p hp q hq
    cases List.mem_singleton.mp hq
    rcases List.mem_map.mp hp with ⟨c, hc, rfl⟩
    exact Nat.ne_of_lt (h.bound i c hc)
  · intro j _ c hc d hd
    cases List.mem_singleton.mp hd
    exact Nat.ne_of_lt (h.bound j c hc)

/-- A node is taken out of its bucket, and then stands nowhere. -/
theorem Shows.unlink {c : Cell K V} (h : Shows m cells) (hcells : cells i = l ++ c :: r)
    {next : Option Ptr} (hr : Linked m.node next r) :
    Shows (m.link i (lastPtr l) next) (Function.update cells i (l ++ r)) ∧
      ∀ j, ∀ d ∈ Function.update cells i (l ++ r) j, d.ptr ≠ c.ptr := by
  have hmem : c ∈ cells i := by
    rw [hcells]
    exact List.mem_append_right l List.mem_cons_self
  have hsub : (l ++ r).Sublist (cells i) := by
    rw [hcells]
    exact (List.sublist_cons_self c r).append_left l
  have hnodup := h.nodup i
  rw [hcells, List.map_append, List.map_cons] at hnodup
  have hnot : c.ptr ∉ (l ++ r).map Cell.ptr := by
    rw [List.map_append]
    exact (List.nodup_middle.mp hnodup).notMem
  constructor
  · apply h.link hcells hr
    · intro d hd
      exact h.bound i d (hsub.subset (List.mem_append_right l hd))
    · exact (h.nodup i).sublist (hsub.map Cell.ptr)
    · intro j hj d hd e he
      exact h.apart j i hj d hd e (hsub.subset (List.mem_append_right l he))
  · intro j d hd heq
    by_cases hji : j = i
    · subst hji
      rw [Function.update_self] at hd
      rw [← heq] at hnot
      exact hnot (List.mem_map_of_mem hd)
    · rw [Function.update_of_ne hji] at hd
      exact h.apart j i hji d hd c hmem heq

end Shows

/-! ## What a memory stands for -/

section Denotes

variable [DecidableEq K] {index : K → ℕ} {m : Memory K V} {b : HashTable K V index} {key : K}
  {l r : List (Cell K V)} {cells : ℕ → List (Cell K V)} {i : ℕ}

theorem find_append_of_ne (hl : ∀ c ∈ l, c.key ≠ key) :
    HashTable.find key ((l ++ r).map Cell.entry) = HashTable.find key (r.map Cell.entry) := by
  induction l with
  | nil => rfl
  | cons c l ih =>
    have hrest := ih fun d hd => hl d (List.mem_cons_of_mem _ hd)
    show HashTable.find key ((c.key, c.value) :: (l ++ r).map Cell.entry) = _
    rw [HashTable.find, if_neg (hl c List.mem_cons_self), hrest]

theorem append_append_of_ne (hl : ∀ c ∈ l, c.key ≠ key) (value : V) :
    HashTable.append key value ((l ++ r).map Cell.entry) =
      l.map Cell.entry ++ HashTable.append key value (r.map Cell.entry) := by
  induction l with
  | nil => rfl
  | cons c l ih =>
    have hrest := ih fun d hd => hl d (List.mem_cons_of_mem _ hd)
    show HashTable.append key value ((c.key, c.value) :: (l ++ r).map Cell.entry) = _
    rw [HashTable.append, if_neg (hl c List.mem_cons_self), hrest]
    rfl

theorem unlink_append_of_ne (hl : ∀ c ∈ l, c.key ≠ key) :
    HashTable.unlink key ((l ++ r).map Cell.entry) =
      l.map Cell.entry ++ HashTable.unlink key (r.map Cell.entry) := by
  induction l with
  | nil => rfl
  | cons c l ih =>
    have hrest := ih fun d hd => hl d (List.mem_cons_of_mem _ hd)
    show HashTable.unlink key ((c.key, c.value) :: (l ++ r).map Cell.entry) = _
    rw [HashTable.unlink, if_neg (hl c List.mem_cons_self), hrest]
    rfl

/-- The chains of the memory are the buckets of the table. -/
def Denotes (m : Memory K V) (b : HashTable K V index) : Prop :=
  ∃ cells, Shows m cells ∧ ∀ i, b.bucket i = (cells i).map Cell.entry

theorem denotes_empty : Denotes Memory.empty (HashTable.empty : HashTable K V index) :=
  ⟨fun _ => [], shows_empty, fun _ => rfl⟩

/-- The chain of one key's bucket is changed. -/
theorem denotes_setBucket {m' : Memory K V} (cs : List (Cell K V)) (h : ∀ i, b.bucket i = (cells i).map Cell.entry)
    {chain : List (K × V)} (hd : HashTable.Distinct chain) (hcs : chain = cs.map Cell.entry)
    (hm : Shows m' (Function.update cells (index key) cs)) :
    Denotes m' (b.setBucket key chain hd) := by
  refine ⟨_, hm, ?_⟩
  intro i
  unfold HashTable.setBucket
  dsimp only
  by_cases hi : i = index key
  · subst hi
    rw [Function.update_self, Function.update_self]
    exact hcs
  · rw [Function.update_of_ne hi, Function.update_of_ne hi]
    exact h i

/-- The walk for a key ends at the end of its bucket or at its node.  In the first case the key is
    unbound, and a new node behind the last binds it; in the second case it is bound to the value of
    the node, and linking the one before to the one behind unbinds it. -/
theorem Denotes.seek (h : Denotes m b) (key : K) :
    ∃ prev curr,
      m.seek key (m.nextPtr + 1) none (m.head (index key)) = some (prev, curr) ∧
      ((curr = none ∧ b.get key = none ∧ Denotes m (b.remove key) ∧
          ∀ value, Denotes ((m.alloc key value).link (index key) prev (some m.nextPtr))
            (b.put key value)) ∨
        ∃ p n, curr = some p ∧ m.node p = some n ∧ b.get key = some n.value ∧
          (∀ value, Denotes m (b.put key value)) ∧
          Denotes (m.link (index key) prev n.next) (b.remove key) ∧
          Denotes ((m.link (index key) prev n.next).free p) (b.remove key)) := by
  rcases h with ⟨cells, hshows, hb⟩
  have hlinked := hshows.linked (index key)
  rcases seek_spec key none hlinked
      (Nat.lt_succ_of_le (hshows.length_le (index key))) with ⟨l, r, hcells, hl, hr, hseek⟩
  have hprev : (if l = [] then none else lastPtr l) = lastPtr l := by
    split
    next hnil => rw [hnil, lastPtr_nil]
    · rfl
  rw [hprev] at hseek
  refine ⟨lastPtr l, r.head?.map Cell.ptr, hseek, ?_⟩
  have hself : Function.update cells (index key) (cells (index key)) = cells :=
    Function.update_eq_self ..
  cases r with
  | nil =>
    left
    rw [List.append_nil] at hcells
    have hfind := find_append_of_ne (r := []) hl
    have happend := append_append_of_ne (r := []) hl
    have hunlink := unlink_append_of_ne (r := []) hl
    rw [List.append_nil] at hfind hunlink
    simp only [List.append_nil] at happend
    refine ⟨rfl, ?_, ?_, ?_⟩
    · unfold HashTable.get
      rw [hb, hcells, hfind]
      rfl
    · apply denotes_setBucket (cells (index key)) hb
      · rw [hb, hcells, hunlink]
        exact List.append_nil _
      · rw [hself]
        exact hshows
    · intro value
      apply denotes_setBucket (cells (index key) ++ [{ ptr := m.nextPtr, key, value }]) hb
      · rw [hb, hcells, happend, List.map_append]
        rfl
      · rw [← hcells]
        exact hshows.insert (index key) key value
  | cons c r =>
    right
    have hkey : c.key = key := hr c rfl
    rw [hcells] at hlinked
    rcases hlinked.node_eq with ⟨next, hnode, hrest⟩
    have hentry : (c :: r).map Cell.entry = (key, c.value) :: r.map Cell.entry := by
      rw [← hkey]
      rfl
    rcases hshows.unlink hcells hrest with ⟨hout, hnowhere⟩
    refine ⟨c.ptr, _, rfl, hnode, ?_, ?_, ?_, ?_⟩
    · unfold HashTable.get
      rw [hb, hcells, find_append_of_ne hl, hentry, HashTable.find, if_pos rfl]
    · intro value
      apply denotes_setBucket (cells (index key)) hb
      · rw [hb, hcells, append_append_of_ne hl, hentry, HashTable.append, if_pos rfl,
          List.map_append, hentry]
      · rw [hself]
        exact hshows
    · apply denotes_setBucket (l ++ r) hb
      · rw [hb, hcells, unlink_append_of_ne hl, hentry, HashTable.unlink, if_pos rfl,
          List.map_append]
      · exact hout
    · apply denotes_setBucket (l ++ r) hb
      · rw [hb, hcells, unlink_append_of_ne hl, hentry, HashTable.unlink, if_pos rfl,
          List.map_append]
      · exact hout.free hnowhere

end Denotes

end Chains
