import MatchingEngine.Cpp.Pending

/-!
# Chains as lists of cells

`Shows` ties a chain of the threaded engine, with its pointers and mutexes, to a list of cells.  The
lemmas say what each access of a step does to the list.
-/

set_option linter.unusedSectionVars false

namespace MatchingEngine.Cpp

open LockChain

variable {I T : Type} [DecidableEq I] [DecidableEq T]

/-- The cells of every chain. -/
abbrev View (I T : Type) := I → Side → List (Cell I T)

def View.set (V : View I T) (i : I) (sd : Side) (cs : List (Cell I T)) : View I T :=
  Function.update V i (Function.update (V i) sd cs)

theorem View.set_apply (V : View I T) (i j : I) (sd sd' : Side) (cs : List (Cell I T)) :
    V.set i sd cs j sd' = if j = i ∧ sd' = sd then cs else V j sd' := by
  unfold View.set
  by_cases hj : j = i
  · subst hj
    rw [Function.update_self]
    by_cases hsd : sd' = sd
    · subst hsd
      rw [Function.update_self, if_pos ⟨rfl, rfl⟩]
    · rw [Function.update_of_ne hsd, if_neg fun h => hsd h.2]
  · rw [Function.update_of_ne hj, if_neg fun h => hj h.1]

@[simp] theorem View.set_self (V : View I T) (i : I) (sd : Side) (cs : List (Cell I T)) :
    V.set i sd cs i sd = cs := by
  rw [View.set_apply, if_pos ⟨rfl, rfl⟩]

theorem View.set_of_ne (V : View I T) {i j : I} {sd sd' : Side} (cs : List (Cell I T))
    (h : ¬ (j = i ∧ sd' = sd)) : V.set i sd cs j sd' = V j sd' := by
  rw [View.set_apply, if_neg h]

/-- The pointers in the vectors of some cells. -/
def ptrs (cs : List (Cell I T)) : List OrderPtr := cs.flatMap fun c => c.node.orders

theorem ptrs_append (cs ds : List (Cell I T)) : ptrs (cs ++ ds) = ptrs cs ++ ptrs ds :=
  List.flatMap_append

theorem ptrs_cons (c : Cell I T) (cs : List (Cell I T)) :
    ptrs (c :: cs) = c.node.orders ++ ptrs cs :=
  List.flatMap_cons

theorem mem_ptrs {cs : List (Cell I T)} {p : OrderPtr} :
    p ∈ ptrs cs ↔ ∃ c ∈ cs, p ∈ c.node.orders := List.mem_flatMap

/-- A pointer stands in one cell. -/
theorem eq_of_mem_ptrs {cs : List (Cell I T)} (h : (ptrs cs).Nodup) {c d : Cell I T} (hc : c ∈ cs)
    (hd : d ∈ cs) {p : OrderPtr} (hp : p ∈ c.node.orders) (hp' : p ∈ d.node.orders) : c = d := by
  induction cs with
  | nil => cases hc
  | cons e cs ih =>
    rw [ptrs_cons] at h
    rcases List.nodup_append.mp h with ⟨-, hcs, hdisj⟩
    rcases List.mem_cons.mp hc with rfl | hc
    · rcases List.mem_cons.mp hd with rfl | hd
      · rfl
      · exact absurd rfl (hdisj p hp p (mem_ptrs.mpr ⟨d, hd, hp'⟩))
    · rcases List.mem_cons.mp hd with rfl | hd
      · exact absurd rfl (hdisj p hp' p (mem_ptrs.mpr ⟨c, by assumption, hp⟩))
      · exact ih hcs hc hd

/-- The chain consists of these cells, head sentinel first. -/
structure Shows (ch : Chain ℕ T) (heap : Heap ℕ I) (cs : List (Cell I T)) : Prop where
  head : cs.head?.map Cell.addr = some 0
  nodup : (cs.map Cell.addr).Nodup
  linked : Linked (fun a => (ch.node a).next) (cs.map Cell.addr)
  node : ∀ c ∈ cs, (ch.node c.addr).toOrderNode = c.node
  mutex : ∀ c ∈ cs, (ch.node c.addr).m = c.owner
  orders : ∀ c ∈ cs, c.node.orders.map heap = c.orders
  lt : ∀ c ∈ cs, c.addr < ch.nextAddr
  free : ∀ a, a ∉ cs.map Cell.addr → (ch.node a).m = none

namespace Shows

variable {ch : Chain ℕ T} {heap heap' : Heap ℕ I} {cs l m m' r : List (Cell I T)} {c c' d : Cell I T}

/-- The head sentinel stands first. -/
theorem nil_of_head (h : Shows ch heap (l ++ c :: r)) (hc : c.addr = 0) : l = [] := by
  cases l with
  | nil => rfl
  | cons d l =>
    have hd : d.addr = 0 := Option.some.inj h.head
    have hnd := h.nodup
    rw [List.map_append, List.map_cons, List.map_cons, List.cons_append] at hnd
    rcases List.nodup_cons.mp hnd with ⟨hnot, -⟩
    exact absurd (hd.trans hc.symm) fun heq => hnot (by simp [heq])

theorem exists_head (h : Shows ch heap cs) : ∃ c r, cs = c :: r ∧ c.addr = 0 := by
  have hh := h.head
  cases cs with
  | nil => cases hh
  | cons c r => exact ⟨c, r, rfl, Option.some.inj hh⟩

theorem eq_of_addr (h : Shows ch heap cs) (hc : c ∈ cs) (hd : d ∈ cs) (heq : c.addr = d.addr) :
    c = d :=
  List.inj_on_of_nodup_map h.nodup hc hd heq

/-- The link of a node leads to the cell after it. -/
theorem next_eq (h : Shows ch heap (l ++ c :: r)) :
    (ch.node c.addr).next = (r.head?.map Cell.key).map Prod.fst := by
  have hl := h.linked
  rw [List.map_append, List.map_cons] at hl
  rw [hl.next_eq, List.head?_map, Option.map_map]
  rfl

/-- The objects and what is pending may change where no pointer of a cell is concerned. -/
theorem frame (h : Shows ch heap cs) (hheap : ∀ p ∈ ptrs cs, heap' p = heap p) :
    Shows ch heap' cs where
  head := h.head
  nodup := h.nodup
  linked := h.linked
  node := h.node
  mutex := h.mutex
  orders := by
    intro c hc
    rw [← h.orders c hc]
    exact List.map_congr_left fun p hp => hheap p (mem_ptrs.mpr ⟨c, hc, hp⟩)
  lt := h.lt
  free := h.free

/-- What a cell is apart from what is pending there. -/
def phys (c : Cell I T) : Addr × Option T × OrderNode ℕ × List (Order ℕ I) :=
  (c.addr, c.owner, c.node, c.orders)

theorem map_addr_of_phys (h : m'.map phys = m.map phys) : m'.map Cell.addr = m.map Cell.addr := by
  have h' := congrArg (List.map Prod.fst) h
  rwa [List.map_map, List.map_map] at h'

theorem retag (h : Shows ch heap cs) {cs' : List (Cell I T)} (heq : cs'.map phys = cs.map phys) :
    Shows ch heap cs' := by
  have haddr := map_addr_of_phys heq
  have hmem : ∀ c ∈ cs', ∃ d ∈ cs, d.addr = c.addr ∧ d.owner = c.owner ∧ d.node = c.node ∧
      d.orders = c.orders := by
    intro c hc
    have hc' : phys c ∈ cs.map phys := heq ▸ List.mem_map_of_mem hc
    rcases List.mem_map.mp hc' with ⟨d, hd, hp⟩
    simp only [phys, Prod.mk.injEq] at hp
    exact ⟨d, hd, hp⟩
  constructor
  · rw [← List.head?_map, haddr, List.head?_map]
    exact h.head
  · rw [haddr]
    exact h.nodup
  · rw [haddr]
    exact h.linked
  · intro c hc
    rcases hmem c hc with ⟨d, hd, h1, -, h3, -⟩
    rw [← h1, ← h3]
    exact h.node d hd
  · intro c hc
    rcases hmem c hc with ⟨d, hd, h1, h2, -, -⟩
    rw [← h1, ← h2]
    exact h.mutex d hd
  · intro c hc
    rcases hmem c hc with ⟨d, hd, -, -, h3, h4⟩
    rw [← h3, ← h4]
    exact h.orders d hd
  · intro c hc
    rcases hmem c hc with ⟨d, hd, h1, -, -, -⟩
    rw [← h1]
    exact h.lt d hd
  · rw [haddr]
    exact h.free

/-- One node is written. -/
theorem setNode (h : Shows ch heap (l ++ c :: r)) (c' : Cell I T) {n : Node ℕ T} (haddr : c'.addr = c.addr)
    (hnode : n.toOrderNode = c'.node) (hm : n.m = c'.owner) (hnext : n.next = (ch.node c.addr).next)
    (horders : c'.node.orders.map heap' = c'.orders)
    (hheap : ∀ p ∈ ptrs (l ++ r), heap' p = heap p) :
    Shows { ch with node := Function.update ch.node c.addr n } heap' (l ++ c' :: r) := by
  have hmap : (l ++ c' :: r).map Cell.addr = (l ++ c :: r).map Cell.addr := by
    simp [haddr]
  have hother : ∀ d ∈ l ++ r, d ∈ l ++ c :: r ∧ d.addr ≠ c.addr := by
    intro d hd
    have hnd := h.nodup
    rw [List.map_append, List.map_cons, List.nodup_middle] at hnd
    rcases List.nodup_cons.mp hnd with ⟨hnot, -⟩
    rw [← List.map_append] at hnot
    refine ⟨?_, fun heq => hnot (heq ▸ List.mem_map_of_mem hd)⟩
    simp only [List.mem_append, List.mem_cons] at hd ⊢
    tauto
  have hcases : ∀ d ∈ l ++ c' :: r, d = c' ∨ d ∈ l ++ r := by
    intro d hd
    simp only [List.mem_append, List.mem_cons] at hd ⊢
    tauto
  constructor
  · rw [← List.head?_map, hmap, List.head?_map]
    exact h.head
  · rw [hmap]
    exact h.nodup
  · rw [hmap]
    apply h.linked.congr
    intro a ha
    by_cases heq : a = c.addr
    · subst heq
      dsimp only
      rw [Function.update_self, hnext]
    · dsimp only
      rw [Function.update_of_ne heq]
  · intro d hd
    rcases hcases d hd with rfl | hd
    · dsimp only
      rw [haddr, Function.update_self, hnode]
    · dsimp only
      rw [Function.update_of_ne (hother d hd).2]
      exact h.node d (hother d hd).1
  · intro d hd
    rcases hcases d hd with rfl | hd
    · dsimp only
      rw [haddr, Function.update_self, hm]
    · dsimp only
      rw [Function.update_of_ne (hother d hd).2]
      exact h.mutex d (hother d hd).1
  · intro d hd
    rcases hcases d hd with rfl | hd
    · exact horders
    · rw [← h.orders d (hother d hd).1]
      exact List.map_congr_left fun p hp => hheap p (mem_ptrs.mpr ⟨d, hd, hp⟩)
  · intro d hd
    rcases hcases d hd with rfl | hd
    · rw [haddr]
      exact h.lt c (by simp)
    · exact h.lt d (hother d hd).1
  · intro a ha
    rw [hmap] at ha
    have hne : a ≠ c.addr := by
      rintro rfl
      exact ha (by simp)
    dsimp only
    rw [Function.update_of_ne hne]
    exact h.free a ha

/-- A new node is put behind `c`. -/
theorem insert (h : Shows ch heap (l ++ c :: r)) {n : Node ℕ T} (haddr : d.addr = ch.nextAddr)
    (hnode : n.toOrderNode = d.node) (hm : n.m = d.owner) (hnext : n.next = (ch.node c.addr).next)
    (hd : d.node.orders.map heap = d.orders) :
    Shows
      { node := Function.update (Function.update ch.node ch.nextAddr n) c.addr
          { ch.node c.addr with next := some ch.nextAddr }
        nextAddr := ch.nextAddr + 1 } heap (l ++ c :: d :: r) := by
  have hmap : (l ++ c :: d :: r).map Cell.addr =
      l.map Cell.addr ++ c.addr :: ch.nextAddr :: r.map Cell.addr := by
    simp [haddr]
  have hmap' : (l ++ c :: r).map Cell.addr = l.map Cell.addr ++ c.addr :: r.map Cell.addr := by
    simp
  have hltc : c.addr ≠ ch.nextAddr := (h.lt c (by simp)).ne
  have hnew : ch.nextAddr ∉ l.map Cell.addr ++ c.addr :: r.map Cell.addr := by
    rw [← hmap']
    intro hmem
    rcases List.mem_map.mp hmem with ⟨e, he, heq⟩
    exact (h.lt e he).ne heq
  have hnd := h.nodup
  have hlinked := h.linked
  rw [hmap'] at hnd hlinked
  have hcases : ∀ e ∈ l ++ c :: d :: r, e = d ∨ e ∈ l ++ c :: r := by
    intro e he
    simp only [List.mem_append, List.mem_cons] at he ⊢
    tauto
  have hold : ∀ e ∈ l ++ c :: r, e.addr ≠ ch.nextAddr := fun e he => (h.lt e he).ne
  have hsame : ∀ a, a ≠ ch.nextAddr →
      (Function.update (Function.update ch.node ch.nextAddr n) c.addr
        { ch.node c.addr with next := some ch.nextAddr } a).toOrderNode =
          (ch.node a).toOrderNode ∧
      (Function.update (Function.update ch.node ch.nextAddr n) c.addr
        { ch.node c.addr with next := some ch.nextAddr } a).m = (ch.node a).m := by
    intro a ha
    by_cases heq : a = c.addr
    · subst heq
      rw [Function.update_self]
      exact ⟨rfl, rfl⟩
    · rw [Function.update_of_ne heq, Function.update_of_ne ha]
      exact ⟨rfl, rfl⟩
  have hself : Function.update (Function.update ch.node ch.nextAddr n) c.addr
      { ch.node c.addr with next := some ch.nextAddr } ch.nextAddr = n := by
    rw [Function.update_of_ne hltc.symm, Function.update_self]
  constructor
  · cases l with
    | nil => exact h.head
    | cons e l => exact h.head
  · rw [hmap]
    have hperm : (l.map Cell.addr ++ c.addr :: ch.nextAddr :: r.map Cell.addr).Perm
        (ch.nextAddr :: (l.map Cell.addr ++ c.addr :: r.map Cell.addr)) := by
      rw [List.append_cons]
      exact List.perm_middle.trans (by rw [← List.append_cons])
    rw [hperm.nodup_iff]
    exact List.nodup_cons.mpr ⟨hnew, hnd⟩
  · rw [hmap]
    apply (hlinked.insert hnd hnew).congr
    intro a ha
    dsimp only
    by_cases heq : a = c.addr
    · subst heq
      rw [Function.update_self, Function.update_self]
    · rw [Function.update_of_ne heq, Function.update_of_ne heq]
      by_cases hnx : a = ch.nextAddr
      · subst hnx
        rw [Function.update_self, Function.update_self, hnext]
      · rw [Function.update_of_ne hnx, Function.update_of_ne hnx]
  · intro e he
    rcases hcases e he with rfl | he
    · dsimp only
      rw [haddr, hself, hnode]
    · rw [(hsame e.addr (hold e he)).1]
      exact h.node e he
  · intro e he
    rcases hcases e he with rfl | he
    · dsimp only
      rw [haddr, hself, hm]
    · rw [(hsame e.addr (hold e he)).2]
      exact h.mutex e he
  · intro e he
    rcases hcases e he with rfl | he
    · exact hd
    · exact h.orders e he
  · intro e he
    rcases hcases e he with rfl | he
    · rw [haddr]
      exact Nat.lt_succ_self _
    · exact Nat.lt_succ_of_lt (h.lt e he)
  · intro a ha
    rw [hmap] at ha
    have hne : a ≠ ch.nextAddr := by
      rintro rfl
      exact ha (by simp)
    rw [(hsame a hne).2]
    apply h.free
    rw [hmap']
    intro hmem
    apply ha
    simp only [List.mem_append, List.mem_cons] at hmem ⊢
    tauto

end Shows

theorem shows_empty (heap : Heap ℕ I) (sd : Side) :
    Shows ((SharedBook.empty : SharedBook ℕ T).chain sd) heap
      [{ addr := 0, owner := none, node := OrderNode.sentinel, orders := [], pend := .none }] where
  head := rfl
  nodup := List.nodup_singleton _
  linked := ⟨rfl, trivial⟩
  node := by simp [SharedBook.empty, Node.sentinel]
  mutex := by simp [SharedBook.empty, Node.sentinel]
  orders := by simp [OrderNode.sentinel]
  lt := by simp [SharedBook.empty]
  free := fun _ _ => rfl

/-! ## The accesses of a step -/

namespace Sys

variable (s : Sys ℕ I T) (i j : I) (sd sd' : Side) (a : Addr) (t u : T)

theorem getBook_setBook (b : SharedBook ℕ T) :
    (s.setBook i b).getBook j = if j = i then b else s.getBook j := by
  unfold getBook setBook
  by_cases h : j = i
  · subst h
    simp
  · simp [h]

theorem chain_setChain (c : Chain ℕ T) :
    (s.setChain i sd c).chain j sd' = if j = i ∧ sd' = sd then c else s.chain j sd' := by
  unfold chain setChain
  rw [getBook_setBook]
  by_cases hj : j = i
  · subst hj
    rw [if_pos rfl]
    by_cases hsd : sd' = sd
    · subst hsd
      rw [if_pos ⟨rfl, rfl⟩]
      exact Function.update_self ..
    · rw [if_neg fun h => hsd h.2]
      exact Function.update_of_ne hsd ..
  · rw [if_neg hj, if_neg fun h => hj h.1]

theorem getBook_setChain_m (c : Chain ℕ T) :
    ((s.setChain i sd c).getBook j).m = (s.getBook j).m := by
  unfold setChain
  rw [getBook_setBook]
  split
  next h => rw [h]
  · rfl

theorem orderBooks_setChain (c : Chain ℕ T) (h : s.orderBooks j ≠ none) :
    (s.setChain i sd c).orderBooks j ≠ none := by
  unfold setChain setBook
  by_cases hj : j = i
  · subst hj
    simp
  · simpa [hj] using h

theorem chain_setNode (n : Node ℕ T) :
    (s.setNode i sd a n).chain j sd' =
      if j = i ∧ sd' = sd then
        { s.chain i sd with node := Function.update (s.chain i sd).node a n }
      else s.chain j sd' :=
  chain_setChain ..

end Sys

end MatchingEngine.Cpp
