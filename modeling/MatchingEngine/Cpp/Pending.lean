import MatchingEngine.Cpp.Threads
import MatchingEngine.Cpp.Values

/-!
# Pending operations on a chain

A command that is past its serialization point has, at the nodes its thread holds, an effect that is
still to come.  `Pend` names it and `act` says what it will do to the node and to the list after it.
`run` lets the pending effects of a chain happen, the ones further down the list first, and gives
the levels that result and the lines that the threads will print.
-/

set_option linter.unusedSectionVars false

namespace MatchingEngine.Cpp

variable {I T : Type} [DecidableEq I] [DecidableEq T]

inductive Pend (I : Type)
  | none
  /-- trade with this node, whose last `numPopback` orders are already filled -/
  | fill (o : Order ℕ I) (numPopback : ℕ)
  /-- walk on from this node and book -/
  | add (sd : Side) (o : Order ℕ I)
  /-- book here or in a new node after this one -/
  | place (sd : Side) (o : Order ℕ I)
  | insert (sd : Side) (o : Order ℕ I)
  /-- look for the order after this node, or from this node on -/
  | cancelNext (orderId price : UInt32) (inputTime : ℤ)
  | cancel (orderId price : UInt32) (inputTime : ℤ)

def Pend.numPopback : Pend I → ℕ
  | .fill _ k => k
  | _ => 0

def Level.dropLast (lv : Level ℕ I) (k : ℕ) : Level ℕ I :=
  { lv with orders := lv.orders.take (lv.orders.length - k) }

@[simp] theorem Level.dropLast_zero (lv : Level ℕ I) : lv.dropLast 0 = lv := by
  rw [dropLast, Nat.sub_zero, List.take_length]

def act (p : Pend I) (lv : Level ℕ I) (rest : List (Level ℕ I)) :
    List (Level ℕ I) × List (Line ℕ I) :=
  match p with
  | .none => (lv :: rest, [])
  | .fill o k => ((fillLevel o (lv.dropLast k)).1 :: rest, (fillLevel o (lv.dropLast k)).2.2)
  | .add sd o => ((addLevels sd o lv rest).1 :: (addLevels sd o lv rest).2, [addLine sd o])
  | .place sd o => ((placeLevel o lv rest).1 :: (placeLevel o lv rest).2, [addLine sd o])
  | .insert sd o => (insertLevel o lv :: rest, [addLine sd o])
  | .cancelNext orderId price inputTime =>
    (lv :: (cancelLevels orderId price rest).1,
      [.deleted orderId (cancelLevels orderId price rest).2 inputTime])
  | .cancel orderId price inputTime =>
    ((cancelLevels orderId price (lv :: rest)).1,
      [.deleted orderId (cancelLevels orderId price (lv :: rest)).2 inputTime])

/-- What the invariant sees of a node: the mutex, the fields, the objects behind the vector. -/
structure Cell (I T : Type) where
  addr : Addr
  owner : Option T
  node : OrderNode ℕ
  orders : List (Order ℕ I)
  pend : Pend I

def Cell.level (c : Cell I T) : Level ℕ I := { price := c.node.price, orders := c.orders }

/-- What never changes of a node. -/
def Cell.key (c : Cell I T) : Addr × UInt32 := (c.addr, c.node.price)

/-- The levels and the lines to come, each with the thread that will print it. -/
def run : List (Cell I T) → List (Level ℕ I) → List (Level ℕ I) × List (Option T × Line ℕ I)
  | [], rest => (rest, [])
  | c :: cs, rest =>
    ((act c.pend c.level (run cs rest).1).1,
      (act c.pend c.level (run cs rest).1).2.map (fun line => (c.owner, line)) ++ (run cs rest).2)

/-- The levels once everything pending has happened. -/
def settled (cs : List (Cell I T)) : List (Level ℕ I) := (run cs []).1

/-- The lines that thread `t` will still print for this chain. -/
def due (t : T) (cs : List (Cell I T)) : List (Line ℕ I) :=
  ((run cs []).2.filter fun x => decide (x.1 = some t)).map Prod.snd

section Run

variable {cs l m m' r : List (Cell I T)} {rest : List (Level ℕ I)} {t : T}

theorem run_append (cs ds : List (Cell I T)) (rest : List (Level ℕ I)) :
    run (cs ++ ds) rest =
      ((run cs (run ds rest).1).1, (run cs (run ds rest).1).2 ++ (run ds rest).2) := by
  induction cs with
  | nil => rfl
  | cons c cs ih =>
    rw [List.cons_append, run, ih]
    dsimp only
    rw [run, List.append_assoc]

theorem run_none (h : ∀ c ∈ cs, c.pend = .none) (rest : List (Level ℕ I)) :
    run cs rest = (cs.map Cell.level ++ rest, []) := by
  induction cs with
  | nil => rfl
  | cons c cs ih =>
    rw [run, ih fun c' hc' => h c' (List.mem_cons_of_mem _ hc'), h c List.mem_cons_self]
    rfl

/-- Whoever has a line to come has something pending. -/
theorem run_owner {x : Option T × Line ℕ I} (h : x ∈ (run cs rest).2) :
    ∃ c ∈ cs, c.owner = x.1 ∧ c.pend ≠ .none := by
  induction cs with
  | nil => cases h
  | cons c cs ih =>
    rw [run] at h
    rcases List.mem_append.mp h with h | h
    · rcases List.mem_map.mp h with ⟨line, hline, rfl⟩
      refine ⟨c, List.mem_cons_self, rfl, ?_⟩
      intro hp
      rw [hp] at hline
      cases hline
    · rcases ih h with ⟨c', hc', h⟩
      exact ⟨c', List.mem_cons_of_mem _ hc', h⟩

theorem run_filter_other (h : ∀ c ∈ cs, c.owner = some t → c.pend = .none) :
    (run cs rest).2.filter (fun x => decide (x.1 = some t)) = [] := by
  rw [List.filter_eq_nil_iff]
  intro x hx heq
  rcases run_owner hx with ⟨c, hc, how, hp⟩
  exact hp (h c hc (how.trans (of_decide_eq_true heq)))

theorem run_filter_own (h : ∀ c ∈ cs, c.owner ≠ some t → c.pend = .none) :
    (run cs rest).2.filter (fun x => decide (x.1 = some t)) = (run cs rest).2 := by
  rw [List.filter_eq_self]
  intro x hx
  rcases run_owner hx with ⟨c, hc, how, hp⟩
  by_contra hne
  rw [decide_eq_true_eq, ← how] at hne
  exact hp (h c hc hne)

/-- The lines of a thread come from the stretch it holds. -/
theorem due_stretch (hl : ∀ c ∈ l ++ r, c.owner ≠ some t)
    (hm : ∀ c ∈ m, c.owner ≠ some t → c.pend = .none) :
    due t (l ++ m ++ r) = (run m (settled r)).2.map Prod.snd := by
  have hnot : ∀ c, c ∈ l ∨ c ∈ r → c.owner = some t → c.pend = .none := by
    intro c hc how
    exact absurd how (hl c (List.mem_append.mpr hc))
  rw [due, run_append, run_append, List.filter_append, List.filter_append,
    run_filter_other fun c hc => hnot c (Or.inl hc), run_filter_own hm,
    run_filter_other fun c hc => hnot c (Or.inr hc), List.nil_append, List.append_nil]
  rfl

theorem due_nil (h : ∀ c ∈ cs, c.owner = some t → c.pend = .none) : due t cs = [] := by
  rw [due, run_filter_other h]
  rfl

/-- A stretch of a chain may be replaced by one that comes to the same. -/
theorem settled_replace (hm : (run m' (settled r)).1 = (run m (settled r)).1) :
    settled (l ++ m' ++ r) = settled (l ++ m ++ r) := by
  unfold settled at *
  rw [run_append, run_append, run_append (l ++ m), run_append l m, hm]

/-- The lines of other threads stay as they are. -/
theorem due_replace (hm : (run m' (settled r)).1 = (run m (settled r)).1)
    (hown : ∀ c ∈ m, c.owner = some t → c.pend = .none)
    (hown' : ∀ c ∈ m', c.owner = some t → c.pend = .none) :
    due t (l ++ m' ++ r) = due t (l ++ m ++ r) := by
  unfold settled at hm
  unfold due
  rw [run_append, run_append l, run_append (l ++ m), run_append l m, hm]
  simp only [List.filter_append, run_filter_other hown, run_filter_other hown']

/-- No pending effect removes or precedes the first node. -/
theorem act_price (p : Pend I) (lv : Level ℕ I) (rest : List (Level ℕ I)) :
    ∃ lv' rest', (act p lv rest).1 = lv' :: rest' ∧ lv'.price = lv.price := by
  cases p with
  | none => exact ⟨lv, rest, rfl, rfl⟩
  | fill o k => exact ⟨_, _, rfl, rfl⟩
  | add sd o =>
    refine ⟨_, _, rfl, ?_⟩
    cases rest with
    | nil =>
      show (placeLevel o lv []).1.price = _
      unfold placeLevel
      split <;> rfl
    | cons next rest =>
      show (addLevels sd o lv (next :: rest)).1.price = _
      rw [addLevels]
      split
      · unfold placeLevel
        split <;> rfl
      · split <;> rfl
  | place sd o =>
    refine ⟨_, _, rfl, ?_⟩
    show (placeLevel o lv rest).1.price = _
    unfold placeLevel
    split <;> rfl
  | insert sd o => exact ⟨_, _, rfl, rfl⟩
  | cancelNext orderId price inputTime => exact ⟨_, _, rfl, rfl⟩
  | cancel orderId price inputTime =>
    show ∃ lv' rest', (cancelLevels orderId price (lv :: rest)).1 = lv' :: rest' ∧ _
    rw [cancelLevels]
    split
    · exact ⟨_, _, rfl, rfl⟩
    · split <;> exact ⟨_, _, rfl, rfl⟩

/-- The first level that results has the price of the first node. -/
theorem settled_head_price (cs : List (Cell I T)) :
    (settled cs).head?.map Level.price = cs.head?.map fun c => c.node.price := by
  cases cs with
  | nil => rfl
  | cons c cs =>
    rw [settled, run]
    rcases act_price c.pend c.level (run cs []).1 with ⟨lv', rest', heq, hp⟩
    rw [heq]
    exact congrArg some hp

end Run

/-! ## The walk over the volumes -/

section Walk

variable {sd : Side} {limit : UInt32} {ns ms : List (Cell I T)}

/-- What is left of a count after the volumes of some nodes. -/
def left : ℕ → List (Cell I T) → ℕ
  | c, [] => c
  | c, n :: ns => left (c - n.node.volume) ns

/-- Nodes that the walk passed: each was reached with something left, and crosses. -/
def Passed (sd : Side) (limit : UInt32) : ℕ → List (Cell I T) → Prop
  | _, [] => True
  | c, n :: ns => 0 < c ∧ sd.Crosses limit n.node.price ∧ Passed sd limit (c - n.node.volume) ns

/-- The nodes have the trades of `o` pending, in this order. -/
def Queued (o : Order ℕ I) : ℕ → List (Cell I T) → Prop
  | _, [] => True
  | c, n :: ns => n.pend = .fill { o with count := c } 0 ∧ Queued o (c - n.node.volume) ns

/-- The walk ends here: nothing is left or the next node does not cross. -/
def Ended (sd : Side) (limit : UInt32) (c : ℕ) (nxt : Option (Addr × UInt32)) : Prop :=
  c = 0 ∨ ∀ k, nxt = some k → ¬ sd.Crosses limit k.2

theorem left_append (c : ℕ) (ns ms : List (Cell I T)) :
    left c (ns ++ ms) = left (left c ns) ms := by
  induction ns generalizing c with
  | nil => rfl
  | cons n ns ih => exact ih _

theorem Passed.append {c : ℕ} (h : Passed sd limit c ns) (h' : Passed sd limit (left c ns) ms) :
    Passed sd limit c (ns ++ ms) := by
  induction ns generalizing c with
  | nil => exact h'
  | cons n ns ih => exact ⟨h.1, h.2.1, ih h.2.2 h'⟩

end Walk

/-! ## The match as its parts -/

/-- The counts of some orders together. -/
def total (rs : List (Order ℕ I)) : ℕ := (rs.map fun r => r.count).sum

theorem total_append (rs rs' : List (Order ℕ I)) : total (rs ++ rs') = total rs + total rs' := by
  simp [total]

theorem fill_count (o : Order ℕ I) (rs : List (Order ℕ I)) :
    (fill o rs).2.1.count = o.count - total rs := by
  induction rs generalizing o with
  | nil => rfl
  | cons r rs ih =>
    rw [fill, total, List.map_cons, List.sum_cons]
    split
    next hz => rw [hz, Nat.zero_sub]
    · split
      next hle =>
        have h := ih { o with count := o.count - r.count }
        rw [total] at h
        dsimp only at h ⊢
        rw [h]
        omega
      next hgt =>
        show (0 : ℕ) = _
        omega

theorem fillLevel_count (o : Order ℕ I) (lv : Level ℕ I) :
    (fillLevel o lv).2.1.count = o.count - total lv.orders := by
  show (fill o lv.orders.reverse).2.1.count = _
  rw [fill_count, total, List.map_reverse, List.sum_reverse, total]

theorem matchLevels_of_ended {sd : Side} {o : Order ℕ I} {lvs : List (Level ℕ I)}
    (h : o.count = 0 ∨ ∀ p, lvs.head?.map Level.price = some p → ¬ sd.Crosses o.price p) :
    matchLevels sd o lvs = (lvs, o, []) := by
  cases lvs with
  | nil => rfl
  | cons lv lvs =>
    rw [matchLevels, if_neg]
    rintro ⟨hpos, hc⟩
    rcases h with hz | hn
    · omega
    · exact hn lv.price rfl hc

theorem matchLevels_cons {sd : Side} {o : Order ℕ I} {lv : Level ℕ I} {lvs : List (Level ℕ I)}
    (hpos : 0 < o.count) (hc : sd.Crosses o.price lv.price) :
    matchLevels sd o (lv :: lvs) =
      ((fillLevel o lv).1 :: (matchLevels sd (fillLevel o lv).2.1 lvs).1,
        (matchLevels sd (fillLevel o lv).2.1 lvs).2.1,
        (fillLevel o lv).2.2 ++ (matchLevels sd (fillLevel o lv).2.1 lvs).2.2) := by
  rw [matchLevels, if_pos ⟨hpos, hc⟩]

/-- A match is the pending trades of the nodes that the walk passed. -/
theorem matchLevels_queued {sd : Side} {o : Order ℕ I} {q : ℕ} {ns : List (Cell I T)}
    (rest : List (Level ℕ I)) (hpassed : Passed sd o.price q ns) (hqueued : Queued o q ns)
    (hvol : ∀ n ∈ ns, n.node.volume = total n.orders)
    (hend : left q ns = 0 ∨
      ∀ p, rest.head?.map Level.price = some p → ¬ sd.Crosses o.price p) :
    matchLevels sd { o with count := q } (ns.map Cell.level ++ rest) =
      ((run ns rest).1, { o with count := left q ns }, (run ns rest).2.map Prod.snd) := by
  induction ns generalizing q with
  | nil => exact matchLevels_of_ended hend
  | cons n ns ih =>
    rcases hpassed with ⟨hpos, hcross, hpassed⟩
    rcases hqueued with ⟨hpend, hqueued⟩
    have hrest := ih hpassed hqueued (fun m hm => hvol m (List.mem_cons_of_mem _ hm)) hend
    have hinc : (fillLevel { o with count := q } n.level).2.1 =
        { o with count := q - n.node.volume } := by
      rw [fillLevel_incoming, fillLevel_count, hvol n List.mem_cons_self]
      rfl
    rw [List.map_cons, List.cons_append]
    rw [matchLevels_cons (show 0 < ({ o with count := q } : Order ℕ I).count from hpos) hcross,
      hinc, hrest, run, hpend]
    simp only [act, Level.dropLast_zero, List.map_append, List.map_map]
    rw [show (Prod.snd ∘ fun line => (n.owner, line)) = (id : Line ℕ I → Line ℕ I) from rfl,
      List.map_id, left]

end MatchingEngine.Cpp
