import MatchingEngine.Cpp.WalkSteps
import MatchingEngine.Cpp.ReadSteps
import MatchingEngine.Cpp.CancelSteps
import MatchingEngine.Cpp.MatchSteps

/-!
# Where a command takes effect

An order takes effect when its thread unlocks the mutex of the book, a cancel when its thread locks
the head of the chain, or when it does not find the id.  At that step the settled levels change as
the command by itself changes them, and the lines of the command are promised.
-/

set_option linter.unusedSectionVars false

namespace MatchingEngine.Cpp

open LockChain PriceTime

variable {I T : Type} [DecidableEq I] [DecidableEq T] {s s' : Sys ℕ I T} {V V' : View I T} {t : T}
  {j : Job I} {pc pc' : Pc ℕ I} {i : I} {sd : Side} {l m m' r : List (Cell I T)} {c d : Cell I T}
  {v : ℤ}

/-- Thread `t` makes plans for nodes that it holds or locks. -/
def Recast (t : T) (cs cs' : List (Cell I T)) : Prop :=
  ∃ l m m' r, cs = l ++ m ++ r ∧ cs' = l ++ m' ++ r ∧ m'.map Cell.base = m.map Cell.base ∧
    (∀ c ∈ m, c.owner = some t ∨ c.owner = none) ∧
    (∀ c ∈ m', c.owner = some t ∨ c.owner = none ∧ c.pend = .none) ∧
    (∀ c ∈ m, c.pend.numPopback = 0) ∧ ∀ c ∈ m', c.pend.numPopback = 0

theorem Recast.refl (t : T) (cs : List (Cell I T)) : Recast t cs cs :=
  ⟨cs, [], [], [], by simp, by simp, rfl, by simp, by simp, by simp, by simp⟩

theorem map_key_of_base {cs cs' : List (Cell I T)} (h : cs'.map Cell.base = cs.map Cell.base) :
    cs'.map Cell.key = cs.map Cell.key := by
  have heq : ∀ ds : List (Cell I T),
      ds.map Cell.key = (ds.map Cell.base).map fun b => (b.1, b.2.1.price) := by
    intro ds
    rw [List.map_map]
    rfl
  rw [heq, heq, h]

theorem Recast.change {cs cs' : List (Cell I T)} (h : Recast t cs cs') : Change t cs cs' := by
  rcases h with ⟨l, m, m', r, rfl, rfl, hbase, hm, hm', -, -⟩
  have hkeys := map_key_of_base hbase
  refine ⟨l, m, m', r, rfl, rfl, hm, hm', ?_, ?_⟩
  · rw [← List.head?_map, hkeys, List.head?_map]
  · intro c hc
    have hc' : c.key ∈ m'.map Cell.key := hkeys ▸ List.mem_map_of_mem hc
    exact List.mem_map.mp hc'

theorem Recast.ptrs {cs cs' : List (Cell I T)} (h : Recast t cs cs') : ptrs cs' = ptrs cs := by
  rcases h with ⟨l, m, m', r, rfl, rfl, hbase, -⟩
  apply ptrs_of_base
  simp only [List.map_append, hbase]

theorem Recast.volume {cs cs' : List (Cell I T)} (h : Recast t cs cs')
    (hvol : ∀ c ∈ cs, c.node.volume = total (c.orders.take (c.orders.length - c.pend.numPopback))) :
    ∀ c ∈ cs', c.node.volume = total (c.orders.take (c.orders.length - c.pend.numPopback)) := by
  rcases h with ⟨l, m, m', r, rfl, rfl, hbase, -, -, hpop, hpop'⟩
  intro c hc
  simp only [List.mem_append] at hc hvol
  rcases hc with (hc | hc) | hc
  · exact hvol c (Or.inl (Or.inl hc))
  · have hc' : c.base ∈ m.map Cell.base := hbase ▸ List.mem_map_of_mem hc
    rcases List.mem_map.mp hc' with ⟨d, hd, heq⟩
    simp only [Cell.base, Prod.mk.injEq] at heq
    have hd' := hvol d (Or.inl (Or.inr hd))
    rwa [heq.2.1, heq.2.2, hpop d hd, ← hpop' c hc] at hd'
  · exact hvol c (Or.inr hc)

/-- The invariant where a thread makes plans. -/
theorem Inv.recast (h : Inv s V) (hf : Frame s s' t) (hheap : s'.heap = s.heap)
    (hfault : s'.fault = false) (hturn : Turn s (s.thread t) (s'.thread t))
    (hrecast : ∀ i sd, Recast t (V i sd) (V' i sd))
    (hshows : ∀ i sd, Shows (s'.chain i sd) s.heap (V' i sd))
    (hbookM : ∀ i u, (s'.getBook i).m = some u ↔ (s'.thread u).pc.bookLocked = some i)
    (hholds : ∀ i sd, Holds Cell.owner Cell.key t (V' i sd) fun cells nxt =>
      (s'.thread t).pc.block cells nxt s.heap i sd) : Inv s' V' := by
  apply h.move hf.other hfault fun p _ => hf.header p
  · intro u p _ _
    rw [hheap]
  · rw [hheap]
    exact hshows
  · exact fun i sd => (hrecast i sd).change
  · exact hbookM
  · rw [hheap]
    exact hholds
  · exact fun i sd => (hrecast i sd).volume (h.volume i sd)
  · apply h.objs.move hf hturn
    intro i sd
    rw [(hrecast i sd).ptrs]

/-- What is pending at the first nodes, which belong to `t`, is no concern of `u`. -/
theorem due_of_pre {u : T} (h : ∀ c ∈ m, c.owner = some u → c.pend = .none) :
    due u (m ++ r) = due u r := by
  unfold due
  rw [run_append, List.filter_append, run_filter_other h, List.nil_append]

theorem settled_append (m r : List (Cell I T)) : settled (m ++ r) = (run m (settled r)).1 := by
  rw [settled, run_append]
  rfl

theorem due_pre (hm : ∀ c ∈ m, c.owner ≠ some t → c.pend = .none)
    (hr : ∀ c ∈ r, c.owner ≠ some t) :
    due t (m ++ r) = (run m (settled r)).2.map Prod.snd := by
  have h := due_stretch (l := []) (r := r) (by simpa using hr) hm
  simpa using h

/-! ## An order -/

/-- The trades of `o` are planned at these nodes. -/
def queue (o : Order ℕ I) : ℕ → List (Cell I T) → List (Cell I T)
  | _, [] => []
  | q, n :: ns =>
    { n with pend := .fill { o with count := q } 0 } :: queue o (q - n.node.volume) ns

section Queue

variable {o : Order ℕ I} {q : ℕ} {ns : List (Cell I T)} {limit : UInt32}

theorem queue_queued : Queued o q (queue o q ns) := by
  induction ns generalizing q with
  | nil => trivial
  | cons n ns ih => exact ⟨rfl, ih⟩

theorem queue_phys : (queue o q ns).map Shows.phys = ns.map Shows.phys := by
  induction ns generalizing q with
  | nil => rfl
  | cons n ns ih =>
    rw [queue, List.map_cons, List.map_cons, ih]
    rfl

theorem queue_passed (h : Passed sd limit q ns) : Passed sd limit q (queue o q ns) := by
  induction ns generalizing q with
  | nil => trivial
  | cons n ns ih => exact ⟨h.1, h.2.1, ih h.2.2⟩

theorem queue_left : left q (queue o q ns) = left q ns := by
  induction ns generalizing q with
  | nil => rfl
  | cons n ns ih => exact ih

theorem queue_level : (queue o q ns).map Cell.level = ns.map Cell.level := by
  induction ns generalizing q with
  | nil => rfl
  | cons n ns ih =>
    rw [queue, List.map_cons, List.map_cons, ih]
    rfl

theorem queue_numPopback (h : c ∈ queue o q ns) : c.pend.numPopback = 0 := by
  induction ns generalizing q with
  | nil => cases h
  | cons n ns ih =>
    rcases List.mem_cons.mp h with rfl | h
    · rfl
    · exact ih h

end Queue

theorem base_of_phys {cs cs' : List (Cell I T)} (h : cs'.map Shows.phys = cs.map Shows.phys) :
    cs'.map Cell.base = cs.map Cell.base := by
  have heq : ∀ ds : List (Cell I T),
      ds.map Cell.base = (ds.map Shows.phys).map fun b => (b.1, b.2.2.1, b.2.2.2) := by
    intro ds
    rw [List.map_map]
    rfl
  rw [heq, heq, h]

theorem owner_of_phys {cs cs' : List (Cell I T)} (h : cs'.map Shows.phys = cs.map Shows.phys)
    {x : Option T} (hx : ∀ c ∈ cs, c.owner = x) : ∀ c ∈ cs', c.owner = x := by
  intro c hc
  have hc' : Shows.phys c ∈ cs.map Shows.phys := h ▸ List.mem_map_of_mem hc
  rcases List.mem_map.mp hc' with ⟨d, hd, heq⟩
  simp only [Shows.phys, Prod.mk.injEq] at heq
  rw [← heq.2.1]
  exact hx d hd

/-- The head sentinel's level and the levels after it. -/
def half : List (Level ℕ I) → Half ℕ I
  | [] => Half.empty
  | lv :: lvs => (lv, lvs)

/-- New cells of a chain, on which only what is pending differs, and what they come to. -/
structure Plan (t : T) (ch : Chain ℕ T) (heap : Heap ℕ I) (cs cs' : List (Cell I T))
    (after : Half ℕ I) (lines : List (Line ℕ I)) : Prop where
  recast : Recast t cs cs'
  shows : Shows ch heap cs'
  half : half (settled cs') = after
  own : due t cs' = lines
  other : ∀ u, u ≠ t → due u cs' = due u cs

theorem due_others {u : T} (hu : u ≠ t) (hm : ∀ c ∈ m, c.owner = some t)
    (hm' : ∀ c ∈ m', c.owner = some t) : due u (m' ++ r) = due u (m ++ r) := by
  have hnot : ∀ ms : List (Cell I T), (∀ c ∈ ms, c.owner = some t) →
      ∀ c ∈ ms, c.owner = some u → c.pend = .none := by
    intro ms hms c hc how
    rw [hms c hc] at how
    exact absurd (Option.some.inj how).symm hu
  rw [due_of_pre (hnot m hm), due_of_pre (hnot m' hm')]

section Plans

variable {ch : Chain ℕ T} {heap : Heap ℕ I} {cs : List (Cell I T)} {o : Order ℕ I}

/-- The trades are planned at the nodes that the walk passed. -/
theorem plan_trades (hsh : Shows ch heap cs)
    (hvol : ∀ c ∈ cs, c.node.volume = total (c.orders.take (c.orders.length - c.pend.numPopback)))
    (hh : Holds Cell.owner Cell.key t cs fun cells nxt =>
      Walked sd o v cells ∧ Ended sd o.price v.toNat nxt) :
    ∃ cs', Plan t ch heap cs cs'
        ((half (settled cs)).1, (matchLevels sd o (half (settled cs)).2).1)
        (matchLevels sd o (half (settled cs)).2).2.2 ∧
      (matchLevels sd o (half (settled cs)).2).2.1 = { o with count := v.toNat } ∧
      Holds Cell.owner Cell.key t cs' fun cells nxt =>
        ∃ c as, cells = c :: as ∧ c.addr = 0 ∧ c.pend = .none ∧ Going sd o v as nxt o.count := by
  rcases hh with ⟨l, cells, r, rfl, hown, hrest, ⟨⟨⟨c, as, rfl, hc0, hpassed, hleft⟩, hnone⟩, hended⟩⟩
  have hl : l = [] := Shows.nil_of_head (r := as ++ r) (by simpa using hsh) hc0
  subst hl
  rw [List.nil_append] at hsh hvol ⊢
  have hphys : (c :: queue o o.count as).map Shows.phys = (c :: as).map Shows.phys := by
    rw [List.map_cons, List.map_cons, queue_phys]
  have hown' := owner_of_phys hphys hown
  have hcpend : c.pend = .none := hnone c (by simp)
  -- nothing is pending before
  have hbefore : settled (c :: as ++ r) = c.level :: (as.map Cell.level ++ settled r) := by
    rw [settled_append, run_none hnone]
    rfl
  have hvols : ∀ n ∈ queue o o.count as, n.node.volume = total n.orders := by
    intro n hn
    have hn' : Cell.base n ∈ as.map Cell.base := by
      rw [← base_of_phys (queue_phys (o := o) (q := o.count))]
      exact List.mem_map_of_mem hn
    rcases List.mem_map.mp hn' with ⟨d, hd, heq⟩
    simp only [Cell.base, Prod.mk.injEq] at heq
    have hd' := hvol d (by simp [hd])
    rw [hnone d (by simp [hd])] at hd'
    change _ = total (d.orders.take (d.orders.length - 0)) at hd'
    rw [Nat.sub_zero, List.take_length] at hd'
    rw [← heq.2.1, ← heq.2.2]
    exact hd'
  have hqueued : Passed sd o.price _ (queue o _ _) := queue_passed hpassed
  have hmatch := matchLevels_queued (settled r) hqueued queue_queued hvols (by
      rw [queue_left, hleft]
      rcases hended with hz | hn
      · exact Or.inl hz
      · refine Or.inr ?_
        rw [settled_head_price]
        intro p hp
        rcases Option.map_eq_some_iff.mp hp with ⟨d, hd, rfl⟩
        exact hn d.key (by rw [hd]; rfl))
  rw [queue_level, queue_left, hleft] at hmatch
  have hrun : run (c :: queue o o.count as) (settled r) =
      (c.level :: (run (queue o o.count as) (settled r)).1,
        (run (queue o o.count as) (settled r)).2) := by
    rw [run, hcpend]
    rfl
  refine ⟨c :: queue o o.count as ++ r, ⟨?_, ?_, ?_, ?_, ?_⟩, ?_, ?_⟩
  · refine ⟨[], c :: as, c :: queue o o.count as, r, rfl, rfl, base_of_phys hphys, ?_, ?_, ?_, ?_⟩
    · exact fun d hd => Or.inl (hown d hd)
    · exact fun d hd => Or.inl (hown' d hd)
    · intro d hd
      rw [hnone d hd]
      rfl
    · intro d hd
      rcases List.mem_cons.mp hd with rfl | hd
      · rw [hcpend]
        rfl
      · exact queue_numPopback hd
  · apply hsh.retag
    rw [List.map_append, hphys, List.map_append]
  · rw [hbefore, settled_append, hrun]
    show (c.level, _) = (c.level, (matchLevels sd o (as.map Cell.level ++ settled r)).1)
    rw [hmatch]
  · rw [due_pre (fun d hd hne => absurd (hown' d hd) hne) (by simpa using hrest), hrun, hbefore]
    show _ = (matchLevels sd o (as.map Cell.level ++ settled r)).2.2
    rw [hmatch]
  · intro u hu
    exact due_others hu hown hown'
  · rw [hbefore]
    show (matchLevels sd o (as.map Cell.level ++ settled r)).2.1 = _
    rw [hmatch]
  · refine ⟨[], c :: queue o o.count as, r, rfl, hown', hrest, ?_⟩
    exact ⟨c, _, rfl, hc0, hcpend, queue_passed hpassed, queue_queued, queue_left.trans hleft, hended⟩

/-- The booking is planned at the head. -/
theorem plan_booking (sd : Side) (o : Order ℕ I) (hsh : Shows ch heap cs)
    (hh : Holds Cell.owner Cell.key t cs fun cells _ =>
      if 0 < v then ∃ c, cells = [c] ∧ c.addr = 0 ∧ c.pend = .none else cells = []) :
    ∃ cs', Plan t ch heap cs cs'
        (if 0 < v then
          addLevels sd { o with count := v.toNat } (half (settled cs)).1 (half (settled cs)).2
        else half (settled cs))
        (if 0 < v then [addLine sd { o with count := v.toNat }] else []) ∧
      Holds Cell.owner Cell.key t cs' fun cells _ => Booking sd o v cells := by
  by_cases hv : 0 < v
  · simp only [if_pos hv, Booking] at hh ⊢
    rcases hh with ⟨l, cells, r, rfl, hown, hrest, ⟨c, rfl, hc0, hpend⟩⟩
    have hl : l = [] := Shows.nil_of_head (r := r) (by simpa using hsh) hc0
    subst hl
    rw [List.nil_append] at hsh ⊢
    have hc : c.owner = some t := hown c (by simp)
    let c' : Cell I T := { c with pend := .add sd { o with count := v.toNat } }
    have hbefore : settled ([c] ++ r) = c.level :: settled r := by
      rw [settled_append, run_none (by simpa using hpend)]
      rfl
    have hrun : run [c'] (settled r) =
        ((addLevels sd { o with count := v.toNat } c.level (settled r)).1 ::
          (addLevels sd { o with count := v.toNat } c.level (settled r)).2,
          [(some t, addLine sd { o with count := v.toNat })]) := by
      rw [← hc]
      rfl
    have hown' : ∀ d ∈ [c'], d.owner = some t := by simpa using hc
    refine ⟨[c'] ++ r, ⟨?_, ?_, ?_, ?_, ?_⟩, ?_⟩
    · refine ⟨[], [c], [c'], r, rfl, rfl, rfl, ?_, ?_, ?_, ?_⟩
      · exact fun d hd => Or.inl (hown d hd)
      · exact fun d hd => Or.inl (hown' d hd)
      · simp [hpend, Pend.numPopback]
      · simp [c', Pend.numPopback]
    · apply hsh.retag
      rfl
    · rw [hbefore, settled_append, hrun]
      rfl
    · rw [due_pre (fun d hd hne => absurd (hown' d hd) hne) (by simpa using hrest), hrun]
      rfl
    · intro u hu
      exact due_others hu hown hown'
    · exact ⟨[], [c'], r, rfl, hown', hrest, c', rfl, hc0, rfl⟩
  · simp only [if_neg hv, Booking] at hh ⊢
    exact ⟨cs, ⟨Recast.refl t cs, hsh, rfl, due_of_nil hh, fun u _ => rfl⟩, hh⟩

end Plans

/-- What the books hold once everything pending has happened. -/
def View.books (V : View I T) (known : HashMap UInt32 (InputType × UInt32 × UInt32 × I × ℤ)) :
    Books ℕ I where
  side := fun i sd => half (settled (V i sd))
  known := known

/-- The command `c` of thread `t` takes effect: as it does by itself. -/
structure Entry (s s' : Sys ℕ I T) (V V' : View I T) (t : T) (c : Command ℕ I)
    (known : HashMap UInt32 (InputType × UInt32 × UInt32 × I × ℤ)) : Prop where
  side : (V'.books known).side = ((V.books known).exec c).1.side
  own : account s' V' t = account s V t ++ [(c, ((V.books known).exec c).2)]
  other : ∀ u, u ≠ t → account s' V' u = account s V u

/-- Both chains of a book at once. -/
def View.both (V : View I T) (j : Job I) (own opp : List (Cell I T)) : View I T :=
  (V.set j.book j.side.opp opp).set j.book j.side own

section Both

variable {own opp : List (Cell I T)}

theorem View.both_own : V.both j own opp j.book j.side = own := View.set_self ..

theorem View.both_opp : V.both j own opp j.book j.side.opp = opp := by
  rw [View.both, View.set_of_ne _ _ fun h => Side.opp_ne _ h.2, View.set_self]

theorem View.both_of_ne (h : i ≠ j.book) : V.both j own opp i sd = V i sd := by
  rw [View.both, View.set_of_ne _ _ fun h' => h h'.1, View.set_of_ne _ _ fun h' => h h'.1]

theorem View.both_cases {P : I → Side → List (Cell I T) → Prop}
    (hown : P j.book j.side own) (hopp : P j.book j.side.opp opp) (helse : ∀ i sd, P i sd (V i sd))
    (i : I) (sd : Side) : P i sd (V.both j own opp i sd) := by
  by_cases hi : i = j.book
  · subst hi
    rcases Side.eq_or_eq_opp j.side sd with rfl | rfl
    · rwa [View.both_own]
    · rwa [View.both_opp]
  · rw [View.both_of_ne hi]
    exact helse i sd

end Both

theorem exec_order (b : Books ℕ I) (sd : Side) (orderId : UInt32) (i : I) (price : UInt32)
    (count : ℕ) (inputTime : ℤ) (next : List (Level ℕ I)) (o : Order ℕ I) (out : List (Line ℕ I))
    (hm : matchLevels sd.opp (newOrder sd orderId i price count inputTime) (b.side i sd.opp).2 =
      (next, o, out)) :
    b.exec (.order sd orderId i price count inputTime) =
      if 0 < o.count then
        ({ side := Books.set (Books.set b.side i sd.opp ((b.side i sd.opp).1, next)) i sd
            (addLevels sd o (b.side i sd).1 (b.side i sd).2)
           known := b.known.put orderId o.header }, out ++ [addLine sd o])
      else ({ b with side := Books.set b.side i sd.opp ((b.side i sd.opp).1, next) }, out) := by
  unfold Books.exec
  dsimp only
  rw [hm]

theorem Sys.chain_setBook_m (s : Sys ℕ I T) (i k : I) (m : Option T) (sd : Side) :
    (s.setBook i { s.getBook i with m }).chain k sd = s.chain k sd := by
  unfold Sys.chain
  rw [Sys.getBook_setBook]
  split
  next hk => rw [hk]
  · rfl

/-- `m.unlock()`: the order takes effect. -/
theorem Inv.unlockBook (h : Inv s V) (hpc : (s.thread t).pc = .unlockBook j v)
    (hs : s.step t = some s') {orderId price : UInt32} {count : ℕ} {inputTime : ℤ}
    (hcmd : (s.thread t).cmds.head? =
      some (.order j.side orderId j.book price count inputTime))
    (ho : s.heap j.order = newOrder j.side orderId j.book price count inputTime)
    (hout : (s.thread t).out = []) :
    ∃ V', Inv s' V' ∧ ∀ known,
      Entry s s' V V' t (.order j.side orderId j.book price count inputTime) known := by
  have hm : (s.getBook j.book).m = some t := (h.bookM j.book t).mpr (by rw [hpc]; rfl)
  have hs' : s' = (s.setBook j.book { s.getBook j.book with m := none }).goto t (.matchHead j v) := by
    rw [Sys.step, hpc] at hs
    dsimp only at hs
    rw [Sys.unlockM, if_pos hm] at hs
    exact (Option.some.inj hs).symm
  have hself : s'.thread t = { s.thread t with pc := .matchHead j v } := by
    rw [hs']
    exact Function.update_self ..
  have hf : Frame s s' t := by
    rw [hs']
    constructor
    · intro u hu
      exact Function.update_of_ne hu ..
    · rfl
    · exact fun _ => rfl
    · intro i hi
      show Function.update s.orderBooks j.book _ i ≠ none
      by_cases hij : i = j.book
      · rw [hij, Function.update_self]
        rintro ⟨⟩
      · rwa [Function.update_of_ne hij]
    · exact fun _ _ hp => hp
  have hchain : ∀ i sd, s'.chain i sd = s.chain i sd := by
    intro i sd
    rw [hs']
    exact s.chain_setBook_m j.book i none sd
  rcases plan_trades (h.shows _ _) (h.volume _ _) (h.opp hpc rfl) with
    ⟨opp, hopp, hcount, hholdsOpp⟩
  rcases plan_booking j.side (s.heap j.order) (h.shows _ _) (h.own hpc rfl) with
    ⟨own, hown, hholdsOwn⟩
  have hrecast : ∀ i sd, Recast t (V i sd) (V.both j own opp i sd) := by
    apply View.both_cases (P := fun i sd cs => Recast t (V i sd) cs) hown.recast hopp.recast
    exact fun i sd => Recast.refl t _
  have hinv : Inv s' (V.both j own opp) := by
    apply h.recast hf (by rw [hs']; rfl) (by rw [hs']; exact h.fault) _ hrecast
    · intro i sd
      rw [hchain]
      exact View.both_cases (P := fun i sd cs => Shows (s.chain i sd) s.heap cs) hown.shows hopp.shows
        h.shows i sd
    · intro i u
      have hgb : (s'.getBook i).m = if i = j.book then none else (s.getBook i).m := by
        rw [hs']
        show ((s.setBook j.book { s.getBook j.book with m := none }).getBook i).m = _
        rw [Sys.getBook_setBook]
        split <;> rfl
      rw [hgb]
      by_cases hu : u = t
      · subst hu
        rw [hself]
        split
        · exact ⟨fun hn => (by cases hn), fun hn => by cases hn⟩
        next hi =>
          have hnot : (s.getBook i).m ≠ some u := by
            rw [Ne, h.bookM, hpc]
            exact fun heq => hi (Option.some.inj heq).symm
          exact ⟨fun heq => absurd heq hnot, fun hn => by cases hn⟩
      · rw [hf.other u hu]
        split
        next hi =>
          rw [← h.bookM, hi, hm]
          exact ⟨fun hn => (by cases hn), fun heq => absurd (Option.some.inj heq).symm hu⟩
        · exact h.bookM i u
    · rw [hself]
      apply holds_of_job rfl
      · rw [View.both_own]
        exact hholdsOwn
      · rw [View.both_opp]
        exact hholdsOpp
      · intro i sd hi
        rw [View.both_of_ne hi]
        apply h.elsewhere hpc
        intro j' hj
        cases hj
        exact hi
    · exact h.turn hpc rfl (by rw [hself]; rfl) (by rw [hself]; exact Or.inl rfl) (by rw [hself])
  refine ⟨_, hinv, fun known => ?_⟩
  -- the effect, as `Books.exec` computes it
  have hexec := exec_order (V.books known) j.side orderId j.book price count inputTime
    (matchLevels j.side.opp (s.heap j.order) (half (settled (V j.book j.side.opp))).2).1
    { s.heap j.order with count := v.toNat }
    (matchLevels j.side.opp (s.heap j.order) (half (settled (V j.book j.side.opp))).2).2.2
    (by rw [← ho, ← hcount]; rfl)
  have hpos : 0 < ({ s.heap j.order with count := v.toNat } : Order ℕ I).count ↔ 0 < v := by
    show 0 < v.toNat ↔ 0 < v
    omega
  constructor
  · rw [hexec]
    funext i sd
    show half (settled (V.both j own opp i sd)) = _
    split
    all_goals
      dsimp only
      simp only [Books.set_apply]
      by_cases hi : i = j.book
      · subst hi
        rcases Side.eq_or_eq_opp j.side sd with rfl | rfl
        · rw [View.both_own, hown.half]
          simp_all [View.books, Side.ne_opp]
        · rw [View.both_opp, hopp.half]
          simp_all [View.books, Side.opp_ne]
      · rw [View.both_of_ne hi]
        simp [hi, View.books]
  · rw [hexec]
    have hlines : promise s' (V.both j own opp) t =
        (matchLevels j.side.opp (s.heap j.order) (half (settled (V j.book j.side.opp))).2).2.2 ++
          if 0 < v then [addLine j.side { s.heap j.order with count := v.toNat }] else [] := by
      unfold promise
      rw [hself, hout]
      dsimp only [Pc.job, Pc.lines]
      rw [View.both_own, View.both_opp, hown.own, hopp.own, List.nil_append, List.nil_append]
    unfold account
    rw [hself, hpc, hlines, hcmd]
    simp only [Pc.entered]
    by_cases hv : 0 < v
    · rw [if_pos hv, if_pos (hpos.mpr hv)]
      simp
    · rw [if_neg hv, if_neg fun h => hv (hpos.mp h)]
      simp
  · intro u hu
    have hdue : ∀ i sd, due u (V.both j own opp i sd) = due u (V i sd) := by
      apply View.both_cases (P := fun i sd cs => due u cs = due u (V i sd)) (hown.other u hu)
        (hopp.other u hu)
      exact fun _ _ => rfl
    unfold account promise
    rw [hf.other u hu, show s'.heap = s.heap by rw [hs']; rfl]
    simp only [hdue]

/-! ## A cancel -/

theorem exec_cancel (b : Books ℕ I) (inputTime : ℤ) {o : Order ℕ I}
    (hk : b.known o.orderId = some o.header) (htype : o.type = sideType sd) :
    b.exec (.cancel o.orderId inputTime) =
      ({ side := Books.set b.side o.instrument sd
          ((b.side o.instrument sd).1,
            (cancelLevels o.orderId o.price (b.side o.instrument sd).2).1)
         known := if (cancelLevels o.orderId o.price (b.side o.instrument sd).2).2 then
            b.known.remove o.orderId else b.known },
        [.deleted o.orderId (cancelLevels o.orderId o.price (b.side o.instrument sd).2).2
          o.inputTime]) := by
  have hsd : (if o.type = .buy then Side.buy else Side.sell) = sd := by
    rw [htype]
    cases sd <;> rfl
  unfold Books.exec
  dsimp only
  rw [hk]
  dsimp only [Order.header]
  rw [hsd]

/-- `head->m.lock()`: the cancel takes effect. -/
theorem Inv.lockHead (h : Inv s V) (hpc : (s.thread t).pc = .lockHead j)
    (hs : s.step t = some s') {inputTime : ℤ}
    (hcmd : (s.thread t).cmds.head? = some (.cancel (s.heap j.order).orderId inputTime))
    (hout : (s.thread t).out = []) :
    ∃ V', Inv s' V' ∧ ∀ known,
      known (s.heap j.order).orderId = some (s.heap j.order).header →
        Entry s s' V V' t (.cancel (s.heap j.order).orderId inputTime) known := by
  have hjob := h.objs.job t j (by rw [hpc]; rfl)
  rcases (h.shows j.book j.side).exists_head with ⟨c, r, hV, hc0⟩
  have hsh := h.shows j.book j.side
  rw [hV] at hsh
  have hcs := not_owner_of_nil (h.own hpc rfl)
  have hnil := h.opp hpc rfl
  rw [Sys.step, hpc] at hs
  dsimp only at hs
  rw [← hc0] at hs
  have hcV : c ∈ V j.book j.side := by simp [hV]
  rcases Sys.lock_cases (l := []) hs hsh (hcs c hcV) with ⟨hfree, hs'⟩
  have hpend : c.pend = .none := h.idle _ _ c hcV hfree
  let o := s.heap j.order
  let c' : Cell I T := { c with owner := some t, pend := o.cancelNext }
  have hself : s'.thread t = { s.thread t with pc := .lockFirst j } := by
    rw [hs']
    exact Function.update_self ..
  have hl : Light s s' t := by
    rw [hs']
    exact Sys.light_setMutex _ _ _
  have hrest : ∀ d ∈ r, d.owner ≠ some t := fun d hd => hcs d (by simp [hV, hd])
  have hrecast : ∀ i sd, Recast t (V i sd) (V.set j.book j.side (c' :: r) i sd) := by
    intro i sd
    by_cases hi : i = j.book ∧ sd = j.side
    · rcases hi with ⟨rfl, rfl⟩
      rw [View.set_self, hV]
      refine ⟨[], [c], [c'], r, rfl, rfl, rfl, by simp [hfree], by simp [c'], ?_, ?_⟩
      · simp [hpend, Pend.numPopback]
      · simp [c', Order.cancelNext, Pend.numPopback]
    · rw [View.set_of_ne _ _ hi]
      exact Recast.refl t _
  have hinv : Inv s' (V.set j.book j.side (c' :: r)) := by
    apply h.recast hl.frame hl.heap (hl.fault.trans h.fault) _ hrecast
    · intro i sd
      by_cases hi : i = j.book ∧ sd = j.side
      · rcases hi with ⟨rfl, rfl⟩
        rw [View.set_self, hs']
        exact (Sys.shows_setMutex (l := []) hsh (some t)).retag rfl
      · rw [View.set_of_ne _ _ hi, hs']
        show Shows ((s.setMutex _ _ _ _).chain i sd) _ _
        rw [Sys.chain_setMutex_of_ne hi]
        exact h.shows i sd
    · intro i u
      rw [hl.bookM, h.bookM]
      by_cases hu : u = t
      · subst hu
        rw [hself, hpc]
        rfl
      · rw [hl.other u hu]
    · rw [hself]
      apply holds_of_job rfl
      · rw [View.set_self]
        exact ⟨[], [c'], r, rfl, by simp [c'], by simpa using hrest, c', rfl, hc0, rfl, trivial⟩
      · rw [View.set_of_ne _ _ fun h => Side.opp_ne _ h.2]
        exact hnil
      · intro i sd hi
        rw [View.set_of_ne _ _ fun h => hi h.1]
        apply h.elsewhere hpc
        intro j' hj
        cases hj
        exact hi
    · exact h.turn hpc rfl (by rw [hself]; rfl) (by rw [hself]; exact Or.inr rfl) (by rw [hself])
  refine ⟨_, hinv, fun known hk => ?_⟩
  have hbefore : settled (c :: r) = c.level :: settled r := by
    rw [settled, run, hpend]
    rfl
  have hafter : settled (c' :: r) =
      c.level :: (cancelLevels o.orderId o.price (settled r)).1 := rfl
  have hexec := exec_cancel (V.books known) inputTime hk hjob.1
  rw [hjob.2] at hexec
  have hside : ((V.books known).side j.book j.side) = (c.level, settled r) := by
    show half (settled (V j.book j.side)) = _
    rw [hV, hbefore]
    rfl
  constructor
  · rw [hexec]
    funext i sd
    show half (settled (V.set j.book j.side (c' :: r) i sd)) = Books.set _ _ _ _ i sd
    rw [Books.set_apply, View.set_apply, hside]
    split
    · rw [hafter]
      rfl
    · rfl
  · have hlines : promise s' (V.set j.book j.side (c' :: r)) t =
        [.deleted o.orderId (cancelLevels o.orderId o.price (settled r)).2 o.inputTime] := by
      have hopp : due t (V j.book j.side.opp) = [] := due_of_nil hnil
      have hown : due t ([c'] ++ r) =
          [.deleted o.orderId (cancelLevels o.orderId o.price (settled r)).2 o.inputTime] := by
        rw [due_pre (by simp [c']) hrest]
        rfl
      unfold promise
      rw [hself, hout]
      dsimp only [Pc.job, Pc.lines]
      rw [View.set_self, View.set_of_ne _ _ fun h => Side.opp_ne _ h.2, hopp]
      exact hown
    unfold account
    rw [hself, hpc, hlines, hcmd, hexec, hside]
    simp [Pc.entered, o]
  · intro u hu
    have hdue : ∀ i sd, due u (V.set j.book j.side (c' :: r) i sd) = due u (V i sd) := by
      intro i sd
      by_cases hi : i = j.book ∧ sd = j.side
      · rcases hi with ⟨rfl, rfl⟩
        rw [View.set_self, hV]
        have h1 := due_of_pre (u := u) (m := [c]) (r := r) (by simpa using fun _ => hpend)
        have h2 := due_of_pre (u := u) (m := [c']) (r := r)
          (by simpa [c'] using fun heq => absurd heq.symm hu)
        exact h2.trans h1.symm
      · rw [View.set_of_ne _ _ hi]
    unfold account promise
    rw [hl.other u hu, hl.heap]
    simp only [hdue]

/-- The id is not found. -/
theorem Inv.getOrder_miss (h : Inv s V) {orderId : UInt32} {inputTime : ℤ}
    (hpc : (s.thread t).pc = .getOrder orderId inputTime)
    (hcmd : (s.thread t).cmds.head? = some (.cancel orderId inputTime))
    (hout : (s.thread t).out = []) :
    Inv (s.goto t (.printMiss orderId inputTime)) V ∧ ∀ known, known orderId = none →
      Entry s (s.goto t (.printMiss orderId inputTime)) V V t (.cancel orderId inputTime) known := by
  have hself : ((s.goto t (.printMiss orderId inputTime)).thread t) =
      { s.thread t with pc := .printMiss orderId inputTime } := Function.update_self ..
  have hl := Light.goto s t (.printMiss orderId inputTime)
  constructor
  · apply h.recast hl.frame rfl h.fault _ (fun i sd => Recast.refl t _) h.shows
    · intro i u
      rw [hl.bookM, h.bookM]
      by_cases hu : u = t
      · subst hu
        rw [hself, hpc]
        rfl
      · rw [hl.other u hu]
    · rw [hself]
      exact holds_of_no_job rfl fun i sd => h.elsewhere hpc (fun _ hj => by cases hj)
    · rw [hself]
      refine ⟨fun _ hp => (by cases hp), fun _ hp => (by cases hp), fun _ hj => (by cases hj),
        fun _ hp => (by cases hp), ?_⟩
      unfold Thread.todo
      rw [hpc]
  · intro known hk
    have hexec : (V.books known).exec (.cancel orderId inputTime) =
        (V.books known, [.deleted orderId false inputTime]) := by
      unfold Books.exec
      dsimp only [View.books]
      rw [hk]
    constructor
    · rw [hexec]
    · rw [hexec]
      unfold account promise
      rw [hself, hpc, hcmd, hout]
      simp [Pc.entered, Pc.lines, Pc.job]
    · intro u hu
      unfold account promise
      rw [hl.other u hu, hl.heap]

end MatchingEngine.Cpp
