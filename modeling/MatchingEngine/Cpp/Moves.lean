import MatchingEngine.Cpp.Locks

/-!
# One step on one stretch

`account` is what a thread has output and, once its command is past its serialization point, will
still output for it.  A quiet step changes neither the accounts nor the settled levels.  The theorems
reduce a step that touches one stretch of one chain to what happens on that stretch.
-/

set_option linter.unusedSectionVars false

namespace MatchingEngine.Cpp

open LockChain PriceTime

/-- The lines that the place of a thread promises, besides those pending on its chains. -/
def Pc.lines {N I : Type} [Quantity N] (pc : Pc N I) (heap : Heap N I) : List (Line N I) :=
  match pc with
  | .matchPrint _ _ _ _ _ line => [line]
  | .addPrint j _ => [addLine j.side (heap j.order)]
  | .printMiss orderId inputTime => [.deleted orderId false inputTime]
  | .unlockHead j none | .cancelTest j none | .cancelEnd j _ | .cancelMissed j _
  | .printRejected j => [deletedLine false (heap j.order)]
  | .printAccepted j _ => [deletedLine true (heap j.order)]
  | _ => []

/-- The command in progress is past its serialization point. -/
def Pc.entered {N I : Type} : Pc N I → Bool
  | .matchHead _ _ | .matchTest _ _ _ | .matchNode _ _ _ _ _ | .matchPrint _ _ _ _ _ _
  | .addWalk _ _ _ | .addBreak _ _ _ | .addFound _ _ _ | .addOn _ _ _ | .addPlace _ _
  | .addLinked _ _ _ | .addInsert _ _ | .addPrint _ _ | .addUnlock _ _ | .printMiss _ _
  | .lockFirst _ | .unlockHead _ _ | .cancelTest _ _ | .cancelOn _ _ _ | .cancelEnd _ _
  | .cancelMissed _ _ | .printRejected _ | .printAccepted _ _ | .cancelUnlock _ _ => true
  | _ => false

variable {I T : Type} [DecidableEq I] [DecidableEq T]

/-- The lines of the command in progress. -/
def promise (s : Sys ℕ I T) (V : View I T) (t : T) : List (Line ℕ I) :=
  (s.thread t).out ++ (s.thread t).pc.lines s.heap ++
    match (s.thread t).pc.job with
    | none => []
    | some j => due t (V j.book j.side.opp) ++ due t (V j.book j.side)

/-- The commands of a thread that have taken effect, with their lines. -/
def account (s : Sys ℕ I T) (V : View I T) (t : T) : List (Command ℕ I × List (Line ℕ I)) :=
  (s.thread t).history ++
    if (s.thread t).pc.entered then (s.thread t).cmds.head?.toList.map fun c => (c, promise s V t)
    else []

/-- Nothing takes effect. -/
structure Quiet (s s' : Sys ℕ I T) (V V' : View I T) : Prop where
  settled : ∀ i sd, settled (V' i sd) = settled (V i sd)
  account : ∀ u, account s' V' u = account s V u

section Stretch

variable {s s' : Sys ℕ I T} {V V' : View I T} {t : T} {i : I} {sd : Side}
  {l m m' r : List (Cell I T)} {pc pc' : Pc ℕ I} {j : Job I}

theorem Inv.own (h : Inv s V) (hpc : (s.thread t).pc = pc) (hj : pc.job = some j) :
    Holds Cell.owner Cell.key t (V j.book j.side) fun cells nxt =>
      pc.ownBlock (s.heap j.order) cells nxt := by
  apply (h.holds t j.book j.side).imp
  intro cells nxt _ hb
  unfold Pc.block at hb
  rw [hpc, hj] at hb
  dsimp only at hb
  rwa [if_pos rfl, if_pos rfl] at hb

theorem Inv.opp (h : Inv s V) (hpc : (s.thread t).pc = pc) (hj : pc.job = some j) :
    Holds Cell.owner Cell.key t (V j.book j.side.opp) fun cells nxt =>
      pc.oppBlock (s.heap j.order) cells nxt j.side.opp := by
  apply (h.holds t j.book j.side.opp).imp
  intro cells nxt _ hb
  unfold Pc.block at hb
  rw [hpc, hj] at hb
  dsimp only at hb
  rwa [if_pos rfl, if_neg (Side.opp_ne _)] at hb

/-- A thread that works for one book has nothing locked in another. -/
theorem Inv.elsewhere (h : Inv s V) (hpc : (s.thread t).pc = pc)
    (hj : ∀ j, pc.job = some j → i ≠ j.book) :
    Holds Cell.owner Cell.key t (V i sd) fun cells _ => cells = [] := by
  apply (h.holds t i sd).imp
  intro cells nxt _ hb
  unfold Pc.block at hb
  rw [hpc] at hb
  cases hjob : pc.job with
  | none =>
    rw [hjob] at hb
    exact hb
  | some j =>
    rw [hjob] at hb
    dsimp only at hb
    rwa [if_neg (hj j hjob)] at hb

/-- What a thread holds, chain by chain. -/
theorem holds_of_job {heap : Heap ℕ I} (hj : pc.job = some j)
    (hown : Holds Cell.owner Cell.key t (V j.book j.side) fun cells nxt =>
      pc.ownBlock (heap j.order) cells nxt)
    (hopp : Holds Cell.owner Cell.key t (V j.book j.side.opp) fun cells nxt =>
      pc.oppBlock (heap j.order) cells nxt j.side.opp)
    (helse : ∀ i sd, i ≠ j.book →
      Holds Cell.owner Cell.key t (V i sd) fun cells _ => cells = []) :
    ∀ i sd, Holds Cell.owner Cell.key t (V i sd) fun cells nxt => pc.block cells nxt heap i sd := by
  intro i sd
  unfold Pc.block
  rw [hj]
  dsimp only
  by_cases hi : i = j.book
  · subst hi
    rcases Side.eq_or_eq_opp j.side sd with rfl | rfl
    · simpa only [if_pos] using hown
    · simpa only [if_pos, if_neg (Side.opp_ne _)] using hopp
  · simpa only [if_neg hi] using helse i sd hi

theorem holds_of_no_job {heap : Heap ℕ I} (hj : pc.job = none)
    (h : ∀ i sd, Holds Cell.owner Cell.key t (V i sd) fun cells _ => cells = []) :
    ∀ i sd, Holds Cell.owner Cell.key t (V i sd) fun cells nxt => pc.block cells nxt heap i sd := by
  intro i sd
  unfold Pc.block
  rw [hj]
  exact h i sd

theorem due_of_nil {cs : List (Cell I T)}
    (h : Holds Cell.owner Cell.key t cs fun cells _ => cells = []) : due t cs = [] := by
  rcases h with ⟨l, cells, r, rfl, -, hrest, rfl⟩
  rw [List.append_nil]
  apply due_nil
  intro c hc how
  exact absurd how (hrest c hc)

/-- What a thread of another stretch promises does not change. -/
theorem Inv.lines_congr (h : Inv s V) {u : T} (hV : V i sd = l ++ m ++ r)
    (hm : ∀ c ∈ m, c.owner ≠ some u) (hheader : ∀ p, (s'.heap p).header = (s.heap p).header)
    (hheap : ∀ p, p ∉ ptrs m → (∀ q, (s.thread t).pc.inFlight = some q → p ≠ q) →
      s'.heap p = s.heap p) :
    (s.thread u).pc.lines s'.heap = (s.thread u).pc.lines s.heap := by
  have hdel : ∀ (a : Bool) (p : OrderPtr),
      deletedLine a (s'.heap p) = deletedLine a (s.heap p) := by
    intro a p
    have hp := hheader p
    simp only [Order.header, Prod.mk.injEq] at hp
    unfold deletedLine
    rw [hp.2.1, hp.2.2.2.2]
  cases hpc : (s.thread u).pc with
  | addPrint j curr =>
    have hjob := h.objs.job u j (by rw [hpc]; rfl)
    rcases h.own hpc rfl with ⟨l', cells, r', hV', hown, -, ⟨c, rfl, -, -, hmem⟩⟩
    have hc : c ∈ V j.book j.side := by
      rw [hV']
      simp
    have hjm : j.order ∉ ptrs m := by
      intro hin
      rcases mem_ptrs.mp hin with ⟨d, hd, hmem'⟩
      have hd' : d ∈ V i sd := by
        rw [hV]
        simp [hd]
      have hplace := (h.objs.place i sd j.order (mem_ptrs.mpr ⟨d, hd', hmem'⟩)).2
      have hi : j.book = i := hjob.2.symm.trans hplace.2
      have hs : sideType j.side = sideType sd := hjob.1.symm.trans hplace.1
      have hsd : j.side = sd := by
        revert hs
        cases j.side <;> cases sd <;> simp [sideType]
      subst hi hsd
      -- the vectors of two cells have nothing in common
      have hcd : c = d := eq_of_mem_ptrs (h.objs.nodup _ _) hc hd' hmem hmem'
      subst hcd
      exact hm c hd (hown c (by simp))
    have hfl : ∀ q, (s.thread t).pc.inFlight = some q → j.order ≠ q := by
      rintro q hq rfl
      exact (h.objs.flying t j.order hq).1 j.book j.side (mem_ptrs.mpr ⟨c, hc, hmem⟩)
    simp only [Pc.lines, hheap j.order hjm hfl]
  | unlockHead j curr =>
    cases curr with
    | none => simp only [Pc.lines, hdel]
    | some curr => rfl
  | cancelTest j curr =>
    cases curr with
    | none => simp only [Pc.lines, hdel]
    | some curr => rfl
  | cancelEnd j curr => simp only [Pc.lines, hdel]
  | cancelMissed j curr => simp only [Pc.lines, hdel]
  | printRejected j => simp only [Pc.lines, hdel]
  | printAccepted j curr => simp only [Pc.lines, hdel]
  | _ => rfl

/-- A step of `t` that turns the stretch `m` of one chain into `m'`. -/
structure OnStretch (s s' : Sys ℕ I T) (t : T) (i : I) (sd : Side) (l m m' r : List (Cell I T)) :
    Prop where
  other : ∀ u, u ≠ t → s'.thread u = s.thread u
  header : ∀ p, (s'.heap p).header = (s.heap p).header
  fault : s'.fault = false
  bookM : ∀ j, (s'.getBook j).m = (s.getBook j).m
  bookLocked : (s'.thread t).pc.bookLocked = (s.thread t).pc.bookLocked
  chain : ∀ j sd', ¬ (j = i ∧ sd' = sd) → s'.chain j sd' = s.chain j sd'
  heap : ∀ p, p ∉ ptrs m → (∀ q, (s.thread t).pc.inFlight = some q → p ≠ q) → s'.heap p = s.heap p
  shows : Shows (s'.chain i sd) s'.heap (l ++ m' ++ r)
  own : ∀ c ∈ m, c.owner = some t ∨ c.owner = none
  own' : ∀ c ∈ m', c.owner = some t ∨ c.owner = none ∧ c.pend = .none
  head : m'.head?.map Cell.key = m.head?.map Cell.key
  keys : ∀ c ∈ m, ∃ c' ∈ m', c'.key = c.key
  volume : ∀ c ∈ m',
    c.node.volume = total (c.orders.take (c.orders.length - c.pend.numPopback))
  run : (run m' (settled r)).1 = (run m (settled r)).1

theorem Inv.stretch (h : Inv s V) (hV : V i sd = l ++ m ++ r)
    (hs : OnStretch s s' t i sd l m m' r) (hobjs : Objs s' (V.set i sd (l ++ m' ++ r)))
    (hholds : ∀ j sd', Holds Cell.owner Cell.key t (V.set i sd (l ++ m' ++ r) j sd')
      fun cells nxt => (s'.thread t).pc.block cells nxt s'.heap j sd')
    (hacc : account s' (V.set i sd (l ++ m' ++ r)) t = account s V t) :
    Inv s' (V.set i sd (l ++ m' ++ r)) ∧ Quiet s s' V (V.set i sd (l ++ m' ++ r)) := by
  have hidle : ∀ c ∈ m, c.owner = none → c.pend = .none := by
    intro c hc hfree
    apply h.idle i sd c _ hfree
    rw [hV]
    simp [hc]
  have hnot : ∀ u, u ≠ t → (∀ c ∈ m, c.owner ≠ some u) ∧ ∀ c ∈ m', c.owner ≠ some u := by
    intro u hu
    constructor
    · intro c hc how
      rcases hs.own c hc with h | h <;> rw [h] at how
      · exact hu (Option.some.inj how).symm
      · cases how
    · intro c hc how
      rcases hs.own' c hc with h | h
      · rw [h] at how
        exact hu (Option.some.inj how).symm
      · rw [h.1] at how
        cases how
  constructor
  · apply h.move hs.other hs.fault fun p _ => hs.header p
    · intro u p hu hp
      rcases h.objs.flying u p hp with ⟨hp1, hp2, -⟩
      apply hs.heap p
      · intro hin
        apply hp1 i sd
        rw [hV, ptrs_append, ptrs_append]
        simp [hin]
      · rintro q hq rfl
        exact hp2 t hu.symm hq
    · intro j sd'
      by_cases hj : j = i ∧ sd' = sd
      · rcases hj with ⟨rfl, rfl⟩
        rw [View.set_self]
        exact hs.shows
      · rw [View.set_of_ne _ _ hj, hs.chain j sd' hj]
        apply (h.shows j sd').frame
        intro p hp
        apply hs.heap p
        · -- a pointer stands in one chain
          intro hin
          have hin' : p ∈ ptrs (V i sd) := by
            rw [hV, ptrs_append, ptrs_append]
            simp [hin]
          have h1 := (h.objs.place j sd' p hp).2
          have h2 := (h.objs.place i sd p hin').2
          apply hj
          refine ⟨h1.2.symm.trans h2.2, ?_⟩
          have hs : sideType sd' = sideType sd := h1.1.symm.trans h2.1
          revert hs
          cases sd' <;> cases sd <;> simp [sideType]
        · rintro q hq rfl
          exact (h.objs.flying t p hq).1 j sd' hp
    · intro j sd'
      by_cases hj : j = i ∧ sd' = sd
      · rcases hj with ⟨rfl, rfl⟩
        rw [View.set_self, hV]
        exact ⟨l, m, m', r, rfl, rfl, hs.own, hs.own', hs.head, hs.keys⟩
      · rw [View.set_of_ne _ _ hj]
        exact Change.refl t _
    · intro j u
      rw [hs.bookM, h.bookM]
      by_cases hu : u = t
      · subst hu
        rw [hs.bookLocked]
      · rw [hs.other u hu]
    · exact hholds
    · intro j sd' c hc
      by_cases hj : j = i ∧ sd' = sd
      · rcases hj with ⟨rfl, rfl⟩
        rw [View.set_self] at hc
        simp only [List.mem_append] at hc
        rcases hc with (hc | hc) | hc
        · apply h.volume j sd'
          rw [hV]
          simp [hc]
        · exact hs.volume c hc
        · apply h.volume j sd'
          rw [hV]
          simp [hc]
      · rw [View.set_of_ne _ _ hj] at hc
        exact h.volume j sd' c hc
    · exact hobjs
  · constructor
    · intro j sd'
      by_cases hj : j = i ∧ sd' = sd
      · rcases hj with ⟨rfl, rfl⟩
        rw [View.set_self, hV]
        exact settled_replace hs.run
      · rw [View.set_of_ne _ _ hj]
    · intro u
      by_cases hu : u = t
      · subst hu
        exact hacc
      · have hdue : ∀ j sd', due u (V.set i sd (l ++ m' ++ r) j sd') = due u (V j sd') := by
          intro j sd'
          by_cases hj : j = i ∧ sd' = sd
          · rcases hj with ⟨rfl, rfl⟩
            rw [View.set_self, hV]
            exact due_replace hs.run (fun c hc how => absurd how ((hnot u hu).1 c hc))
              fun c hc how => absurd how ((hnot u hu).2 c hc)
          · rw [View.set_of_ne _ _ hj]
        have hlines := h.lines_congr hV (hnot u hu).1 hs.header hs.heap
        unfold account promise
        rw [hs.other u hu, hlines]
        simp only [hdue]

/-! ## Accounts -/

/-- A thread that is not past the serialization point of its command owes nothing. -/
theorem account_idle (hent : (s.thread t).pc.entered = false)
    (hent' : (s'.thread t).pc.entered = false)
    (hhist : (s'.thread t).history = (s.thread t).history) : account s' V' t = account s V t := by
  unfold account
  rw [hent, hent', hhist]
  rfl

theorem account_busy (hent : (s'.thread t).pc.entered = (s.thread t).pc.entered)
    (hcmds : (s'.thread t).cmds = (s.thread t).cmds)
    (hhist : (s'.thread t).history = (s.thread t).history)
    (hp : promise s' V' t = promise s V t) : account s' V' t = account s V t := by
  unfold account
  rw [hent, hcmds, hhist, hp]

/-- The command is over: what was promised has been printed. -/
theorem account_finish (hent : (s.thread t).pc.entered = true) {s₁ : Sys ℕ I T}
    (hcmds : (s₁.thread t).cmds = (s.thread t).cmds)
    (hhist : (s₁.thread t).history = (s.thread t).history)
    (hp : (s₁.thread t).out = promise s V t) : account (s₁.finish t) V' t = account s V t := by
  unfold account
  rw [hent]
  simp [Sys.finish, Pc.entered, hcmds, hhist, hp]

theorem promise_own (hV : V j.book j.side = l ++ m ++ r) (hrest : ∀ c ∈ l ++ r, c.owner ≠ some t)
    (hidle : ∀ c ∈ m, c.owner ≠ some t → c.pend = .none)
    (hopp : due t (V j.book j.side.opp) = []) (hj : (s.thread t).pc.job = some j) :
    promise s V t = (s.thread t).out ++ (s.thread t).pc.lines s.heap ++
      (run m (settled r)).2.map Prod.snd := by
  unfold promise
  rw [hj]
  dsimp only
  rw [hopp, hV, due_stretch hrest hidle, List.nil_append]

theorem promise_opp (hV : V j.book j.side.opp = l ++ m ++ r)
    (hrest : ∀ c ∈ l ++ r, c.owner ≠ some t) (hidle : ∀ c ∈ m, c.owner ≠ some t → c.pend = .none)
    (hj : (s.thread t).pc.job = some j) :
    promise s V t = (s.thread t).out ++ (s.thread t).pc.lines s.heap ++
      ((run m (settled r)).2.map Prod.snd ++ due t (V j.book j.side)) := by
  unfold promise
  rw [hj]
  dsimp only
  rw [hV, due_stretch hrest hidle]

/-! ## Steps that change mutexes only -/

/-- Of the objects and the maps, everything stays. -/
structure Light (s s' : Sys ℕ I T) (t : T) : Prop where
  other : ∀ u, u ≠ t → s'.thread u = s.thread u
  heap : s'.heap = s.heap
  orders : s'.orders = s.orders
  nextPtr : s'.nextPtr = s.nextPtr
  fault : s'.fault = s.fault
  bookM : ∀ j, (s'.getBook j).m = (s.getBook j).m
  books : ∀ j, s.orderBooks j ≠ none → s'.orderBooks j ≠ none

theorem Light.frame (h : Light s s' t) : Frame s s' t where
  other := h.other
  nextPtr := h.nextPtr
  header := fun p => by rw [h.heap]
  books := h.books
  orders := fun id p hp => by rwa [h.orders] at hp

theorem Light.trans {s₁ : Sys ℕ I T} (h : Light s s₁ t) (h' : Light s₁ s' t) : Light s s' t where
  other := fun u hu => (h'.other u hu).trans (h.other u hu)
  heap := h'.heap.trans h.heap
  orders := h'.orders.trans h.orders
  nextPtr := h'.nextPtr.trans h.nextPtr
  fault := h'.fault.trans h.fault
  bookM := fun j => (h'.bookM j).trans (h.bookM j)
  books := fun j hj => h'.books j (h.books j hj)

theorem Light.goto (s : Sys ℕ I T) (t : T) (pc : Pc ℕ I) : Light s (s.goto t pc) t :=
  ⟨fun _ hu => Function.update_of_ne hu .., rfl, rfl, rfl, rfl, fun _ => rfl, fun _ h => h⟩

theorem Light.print (s : Sys ℕ I T) (t : T) (line : Line ℕ I) : Light s (s.print t line) t :=
  ⟨fun _ hu => Function.update_of_ne hu .., rfl, rfl, rfl, rfl, fun _ => rfl, fun _ h => h⟩

theorem Light.finish (s : Sys ℕ I T) (t : T) : Light s (s.finish t) t :=
  ⟨fun _ hu => Function.update_of_ne hu .., rfl, rfl, rfl, rfl, fun _ => rfl, fun _ h => h⟩

theorem Light.setNode (s : Sys ℕ I T) (t : T) (i : I) (sd : Side) (a : Addr) (n : Node ℕ T) :
    Light s (s.setNode i sd a n) t :=
  ⟨fun _ _ => rfl, rfl, rfl, rfl, rfl, fun j => s.getBook_setChain_m i j sd _,
    fun j h => s.orderBooks_setChain i j sd _ h⟩

/-- The job goes on. -/
theorem Inv.turn (h : Inv s V) {th : Thread ℕ I} (hpc : (s.thread t).pc = pc)
    (hj : pc.job = some j) (hj' : th.pc.job = some j)
    (hfl : th.pc.inFlight = pc.inFlight ∨ th.pc.inFlight = none)
    (hcmds : th.cmds = (s.thread t).cmds) : Turn s (s.thread t) th where
  inFlight := by
    intro p hp
    rw [hpc]
    rcases hfl with hfl | hfl
    · rwa [hfl] at hp
    · rw [hfl] at hp
      cases hp
  ref := by
    intro p hp
    apply h.objs.ref t p
    rw [Pc.ref_of_job hj'] at hp
    cases hp
    rw [hpc, Pc.ref_of_job hj]
  job := by
    intro j' hj₂
    rw [hj'] at hj₂
    cases hj₂
    exact h.objs.job t j (by rw [hpc, hj])
  booked := by
    intro p hp
    rw [hp] at hj'
    cases hj'
  todo := by
    have h1 : th.todo = th.cmds.tail := by
      unfold Thread.todo
      cases hp : th.pc <;> first | rfl | (rw [hp] at hj'; cases hj')
    have h2 : (s.thread t).todo = (s.thread t).cmds.tail := by
      unfold Thread.todo
      rw [hpc]
      cases pc <;> first | rfl | cases hj
    rw [h1, h2, hcmds]

/-- The command is over. -/
theorem turn_finish {th : Thread ℕ I} (hpc : (s.thread t).pc ≠ .ready)
    (hth : th.pc = .ready) (hcmds : th.cmds = (s.thread t).cmds.tail) :
    Turn s (s.thread t) th where
  inFlight := by
    intro p hp
    rw [hth] at hp
    cases hp
  ref := by
    intro p hp
    rw [hth] at hp
    cases hp
  job := by
    intro j hj
    rw [hth] at hj
    cases hj
  booked := by
    intro p hp
    rw [hth] at hp
    cases hp
  todo := by
    unfold Thread.todo
    rw [hth, hcmds]
    cases hp : (s.thread t).pc <;> first | exact absurd hp hpc | exact List.Sublist.refl _

/-- What a cell is apart from its mutex and what is pending there. -/
def Cell.base (c : Cell I T) : Addr × OrderNode ℕ × List (Order ℕ I) := (c.addr, c.node, c.orders)

theorem ptrs_of_base {cs cs' : List (Cell I T)} (h : cs'.map Cell.base = cs.map Cell.base) :
    ptrs cs' = ptrs cs := by
  have heq : ∀ ds : List (Cell I T), ptrs ds = (ds.map Cell.base).flatMap fun b => b.2.1.orders := by
    intro ds
    rw [List.flatMap_map]
    rfl
  rw [heq, heq, h]

theorem Light.onStretch (hl : Light s s' t) (h : Inv s V) (hV : V i sd = l ++ m ++ r)
    (hbl : (s'.thread t).pc.bookLocked = (s.thread t).pc.bookLocked)
    (hchain : ∀ j sd', ¬ (j = i ∧ sd' = sd) → s'.chain j sd' = s.chain j sd')
    (hshows : Shows (s'.chain i sd) s.heap (l ++ m' ++ r))
    (hbase : m'.map Cell.base = m.map Cell.base) (hpop : ∀ c ∈ m, c.pend.numPopback = 0)
    (hpop' : ∀ c ∈ m', c.pend.numPopback = 0)
    (hown : ∀ c ∈ m, c.owner = some t ∨ c.owner = none)
    (hown' : ∀ c ∈ m', c.owner = some t ∨ c.owner = none ∧ c.pend = .none)
    (hrun : (run m' (settled r)).1 = (run m (settled r)).1) :
    OnStretch s s' t i sd l m m' r := by
  have hkey : ∀ ds : List (Cell I T),
      ds.map Cell.key = (ds.map Cell.base).map fun b => (b.1, b.2.1.price) := by
    intro ds
    rw [List.map_map]
    rfl
  have hkeys : m'.map Cell.key = m.map Cell.key := by
    rw [hkey, hkey, hbase]
  refine ⟨hl.other, hl.frame.header, hl.fault.trans h.fault, hl.bookM, hbl, hchain, ?_, ?_, hown,
    hown', ?_, ?_, ?_, hrun⟩
  · intro p _ _
    rw [hl.heap]
  · rwa [hl.heap]
  · rw [← List.head?_map, hkeys, List.head?_map]
  · intro c hc
    have hc' : c.key ∈ m'.map Cell.key := hkeys ▸ List.mem_map_of_mem hc
    exact List.mem_map.mp hc'
  · intro c hc
    have hc' : c.base ∈ m.map Cell.base := hbase ▸ List.mem_map_of_mem hc
    rcases List.mem_map.mp hc' with ⟨d, hd, heq⟩
    simp only [Cell.base, Prod.mk.injEq] at heq
    have hvol := h.volume i sd d (by rw [hV]; simp [hd])
    rwa [heq.2.1, heq.2.2, hpop d hd, ← hpop' c hc] at hvol

/-- A step on the chain of the job's own side. -/
theorem Inv.own_step (h : Inv s V) (hpc : (s.thread t).pc = pc) (hj : pc.job = some j)
    (hj' : (s'.thread t).pc.job = some j)
    (hV : V j.book j.side = l ++ m ++ r)
    (hs : OnStretch s s' t j.book j.side l m m' r)
    (hobjs : Objs s' (V.set j.book j.side (l ++ m' ++ r)))
    (hown : Holds Cell.owner Cell.key t (l ++ m' ++ r) fun cells nxt =>
      (s'.thread t).pc.ownBlock (s'.heap j.order) cells nxt)
    (hopp : Holds Cell.owner Cell.key t (V j.book j.side.opp) fun cells nxt =>
      (s'.thread t).pc.oppBlock (s'.heap j.order) cells nxt j.side.opp)
    (hacc : account s' (V.set j.book j.side (l ++ m' ++ r)) t = account s V t) :
    ∃ V', Inv s' V' ∧ Quiet s s' V V' := by
  refine ⟨_, h.stretch hV hs hobjs ?_ hacc⟩
  apply holds_of_job hj'
  · rw [View.set_self]
    exact hown
  · rw [View.set_of_ne _ _ fun h => Side.opp_ne _ h.2]
    exact hopp
  · intro i sd hi
    rw [View.set_of_ne _ _ fun h => hi h.1]
    apply h.elsewhere hpc
    intro j' hj₂
    rw [hj] at hj₂
    cases hj₂
    exact hi

/-- A step on the chain of the other side. -/
theorem Inv.opp_step (h : Inv s V) (hpc : (s.thread t).pc = pc) (hj : pc.job = some j)
    (hj' : (s'.thread t).pc.job = some j)
    (hV : V j.book j.side.opp = l ++ m ++ r)
    (hs : OnStretch s s' t j.book j.side.opp l m m' r)
    (hobjs : Objs s' (V.set j.book j.side.opp (l ++ m' ++ r)))
    (hopp : Holds Cell.owner Cell.key t (l ++ m' ++ r) fun cells nxt =>
      (s'.thread t).pc.oppBlock (s'.heap j.order) cells nxt j.side.opp)
    (hown : ∀ (cells : List (Cell I T)) nxt, pc.ownBlock (s.heap j.order) cells nxt →
      (s'.thread t).pc.ownBlock (s'.heap j.order) cells nxt)
    (hacc : account s' (V.set j.book j.side.opp (l ++ m' ++ r)) t = account s V t) :
    ∃ V', Inv s' V' ∧ Quiet s s' V V' := by
  refine ⟨_, h.stretch hV hs hobjs ?_ hacc⟩
  apply holds_of_job hj'
  · rw [View.set_of_ne _ _ fun h => Side.ne_opp _ h.2]
    exact (h.own hpc hj).imp fun cells nxt _ hb => hown cells nxt hb
  · rw [View.set_self]
    exact hopp
  · intro i sd hi
    rw [View.set_of_ne _ _ fun h => hi h.1]
    apply h.elsewhere hpc
    intro j' hj₂
    rw [hj] at hj₂
    cases hj₂
    exact hi

theorem Pc.block_imp {heap : Heap ℕ I} {cells : List (Cell I T)} {nxt : Option (Addr × UInt32)}
    (hj : pc.job = some j) (hj' : pc'.job = some j)
    (hown : pc.ownBlock (heap j.order) cells nxt → pc'.ownBlock (heap j.order) cells nxt)
    (hopp : pc.oppBlock (heap j.order) cells nxt j.side.opp →
      pc'.oppBlock (heap j.order) cells nxt j.side.opp)
    (h : pc.block cells nxt heap i sd) : pc'.block cells nxt heap i sd := by
  unfold Pc.block at *
  rw [hj] at h
  rw [hj']
  dsimp only at h ⊢
  split at h
  next hi =>
    rw [if_pos hi]
    split at h
    next hs =>
      rw [if_pos hs]
      exact hown h
    next hs =>
      rw [if_neg hs]
      rcases Side.eq_or_eq_opp j.side sd with rfl | rfl
      · exact absurd rfl hs
      · exact hopp h
  next hi =>
    rw [if_neg hi]
    exact h

/-- The last step of a command: nothing stays locked. -/
theorem Inv.own_finish (h : Inv s V) (hpc : (s.thread t).pc = pc) (hj : pc.job = some j)
    (hj' : (s'.thread t).pc = .ready)
    (hV : V j.book j.side = l ++ m ++ r)
    (hs : OnStretch s s' t j.book j.side l m m' r)
    (hobjs : Objs s' (V.set j.book j.side (l ++ m' ++ r)))
    (hown : Holds Cell.owner Cell.key t (l ++ m' ++ r) fun cells _ => cells = [])
    (hopp : ∀ (cells : List (Cell I T)) nxt, pc.oppBlock (s.heap j.order) cells nxt j.side.opp →
      cells = [])
    (hacc : account s' (V.set j.book j.side (l ++ m' ++ r)) t = account s V t) :
    ∃ V', Inv s' V' ∧ Quiet s s' V V' := by
  refine ⟨_, h.stretch hV hs hobjs ?_ hacc⟩
  rw [hj']
  apply holds_of_no_job rfl
  intro i sd
  by_cases hi : i = j.book
  · subst hi
    rcases Side.eq_or_eq_opp j.side sd with rfl | rfl
    · rw [View.set_self]
      exact hown
    · rw [View.set_of_ne _ _ fun h => Side.opp_ne _ h.2]
      exact (h.opp hpc hj).imp fun cells nxt _ hb => hopp cells nxt hb
  · rw [View.set_of_ne _ _ fun h => hi h.1]
    apply h.elsewhere hpc
    intro j' hj₂
    rw [hj] at hj₂
    cases hj₂
    exact hi

/-- A step that only lets the thread go on, or print. -/
theorem Inv.stay (h : Inv s V) (hpc : (s.thread t).pc = pc) (hl : Light s s' t)
    (hchain : ∀ i sd, s'.chain i sd = s.chain i sd)
    (hbl : (s'.thread t).pc.bookLocked = pc.bookLocked)
    (hturn : Turn s (s.thread t) (s'.thread t))
    (hholds : ∀ i sd, Holds Cell.owner Cell.key t (V i sd) fun cells nxt =>
      (s'.thread t).pc.block cells nxt s.heap i sd)
    (hacc : account s' V t = account s V t) : Inv s' V ∧ Quiet s s' V V := by
  constructor
  · apply h.move hl.other (hl.fault.trans h.fault) fun p _ => hl.frame.header p
    · intro u p _ _
      rw [hl.heap]
    · intro i sd
      rw [hchain, hl.heap]
      exact h.shows i sd
    · exact fun i sd => Change.refl t _
    · intro i u
      rw [hl.bookM, h.bookM]
      by_cases hu : u = t
      · subst hu
        rw [hbl, hpc]
      · rw [hl.other u hu]
    · rw [hl.heap]
      exact hholds
    · exact h.volume
    · exact h.objs.move hl.frame hturn fun _ _ => List.Sublist.refl _
  · constructor
    · exact fun _ _ => rfl
    · intro u
      by_cases hu : u = t
      · subst hu
        exact hacc
      · unfold account promise
        rw [hl.other u hu, hl.heap]

/-- A thread goes on within its job and touches no chain. -/
theorem Inv.stay_job (h : Inv s V) (hpc : (s.thread t).pc = pc) (pc' : Pc ℕ I)
    (hj : pc.job = some j) (hj' : pc'.job = some j) (hbl : pc'.bookLocked = pc.bookLocked)
    (hfl : pc'.inFlight = pc.inFlight ∨ pc'.inFlight = none)
    (hent : pc'.entered = pc.entered) (hlines : pc'.lines s.heap = pc.lines s.heap)
    (hown : ∀ (cells : List (Cell I T)) nxt, pc.ownBlock (s.heap j.order) cells nxt →
      pc'.ownBlock (s.heap j.order) cells nxt)
    (hopp : ∀ (cells : List (Cell I T)) nxt, pc.oppBlock (s.heap j.order) cells nxt j.side.opp →
      pc'.oppBlock (s.heap j.order) cells nxt j.side.opp) :
    ∃ V', Inv (s.goto t pc') V' ∧ Quiet s (s.goto t pc') V V' := by
  have hth : (s.goto t pc').thread t = { s.thread t with pc := pc' } := Function.update_self ..
  refine ⟨V, h.stay hpc (Light.goto s t pc') (fun _ _ => rfl) (by rw [hth]; exact hbl) ?_ ?_ ?_⟩
  · exact h.turn hpc hj (by rw [hth]; exact hj') (by rw [hth]; exact hfl) (by rw [hth])
  · intro i sd
    rw [hth]
    apply (h.holds t i sd).imp
    intro cells nxt _ hb
    rw [hpc] at hb
    exact Pc.block_imp hj hj' (hown cells nxt) (hopp cells nxt) hb
  · apply account_busy
    · rw [hth, hpc]
      exact hent
    · rw [hth]
    · rw [hth]
    · unfold promise
      rw [hth, hpc]
      dsimp only
      rw [hj, hj']
      congr 2

end Stretch

/-! ## Mutexes of nodes -/

namespace Sys

theorem finish_self (s : Sys ℕ I T) (t : T) :
    (s.finish t).thread t =
      { pc := .ready, cmds := (s.thread t).cmds.tail, out := [],
        history := (s.thread t).history ++ (s.thread t).cmds.head?.toList.map fun c =>
          (c, (s.thread t).out) } :=
  Function.update_self ..

variable {s s' : Sys ℕ I T} {t : T} {i : I} {sd : Side} {pc : Pc ℕ I} {l r : List (Cell I T)}
  {c : Cell I T}

def setMutex (s : Sys ℕ I T) (i : I) (sd : Side) (a : Addr) (m : Option T) : Sys ℕ I T :=
  s.setNode i sd a { s.node i sd a with m }

theorem chain_setMutex_of_ne {j : I} {sd' : Side} {a : Addr} {m : Option T}
    (h : ¬ (j = i ∧ sd' = sd)) : (s.setMutex i sd a m).chain j sd' = s.chain j sd' := by
  rw [setMutex, chain_setNode, if_neg h]

theorem light_setMutex (pc : Pc ℕ I) (a : Addr) (m : Option T) :
    Light s ((s.setMutex i sd a m).goto t pc) t :=
  (Light.setNode s t i sd a _).trans (Light.goto _ t pc)

theorem shows_setMutex (h : Shows (s.chain i sd) s.heap (l ++ c :: r)) (m : Option T) :
    Shows ((s.setMutex i sd c.addr m).chain i sd) s.heap (l ++ { c with owner := m } :: r) := by
  rw [setMutex, chain_setNode, if_pos ⟨rfl, rfl⟩]
  have hc : c ∈ l ++ c :: r := by simp
  exact h.setNode _ rfl (h.node c hc) rfl rfl (h.orders c hc) fun _ _ => rfl

theorem lock_cases (hs : s.lock t i sd c.addr pc = some s')
    (h : Shows (s.chain i sd) s.heap (l ++ c :: r)) (hc : c.owner ≠ some t) :
    c.owner = none ∧ s' = (s.setMutex i sd c.addr (some t)).goto t pc := by
  have hm : (s.node i sd c.addr).m = c.owner := h.mutex c (by simp)
  unfold lock at hs
  rw [hm] at hs
  cases how : c.owner with
  | none =>
    rw [how] at hs
    exact ⟨rfl, (Option.some.inj hs).symm⟩
  | some u =>
    rw [how] at hs hc
    dsimp only at hs
    rw [if_neg fun h => hc (congrArg some h)] at hs
    cases hs

theorem unlock_eq (h : Shows (s.chain i sd) s.heap (l ++ c :: r)) (hc : c.owner = some t) :
    s.unlock t i sd c.addr pc = (s.setMutex i sd c.addr none).goto t pc := by
  have hm : (s.node i sd c.addr).m = c.owner := h.mutex c (by simp)
  unfold unlock
  rw [if_pos (hm.trans hc)]
  rfl

end Sys

section MutexStep

variable {s s' : Sys ℕ I T} {V : View I T} {t : T} {i : I} {sd : Side} {l r : List (Cell I T)}
  {c : Cell I T} {x : Option T} {pc pc' : Pc ℕ I} {j : Job I}

theorem run_relock (h : c.pend = .none) (rest : List (Level ℕ I)) :
    run [{ c with owner := x }] rest = run [c] rest := by
  simp only [run, h, act]
  rfl

theorem due_relock (h : c.pend = .none) (u : T) :
    due u (l ++ [{ c with owner := x }] ++ r) = due u (l ++ [c] ++ r) := by
  unfold due
  rw [run_append, run_append l, run_append (l ++ [c]), run_append l, run_relock h]

/-- A mutex is locked or unlocked where nothing is pending. -/
theorem Inv.relock (h : Inv s V) (hpc : (s.thread t).pc = pc) (hV : V i sd = l ++ c :: r)
    (hpend : c.pend = .none) (hc : c.owner = some t ∨ c.owner = none) (hx : x = some t ∨ x = none)
    (hl : Light s s' t)
    (hchain : ∀ j sd', s'.chain j sd' = (s.setMutex i sd c.addr x).chain j sd')
    (hbl : (s'.thread t).pc.bookLocked = pc.bookLocked) :
    OnStretch s s' t i sd l [c] [{ c with owner := x }] r := by
  have hV' : V i sd = l ++ [c] ++ r := by rw [hV, List.append_cons]
  have hsh := h.shows i sd
  rw [hV] at hsh
  apply hl.onStretch h hV'
  · rw [hbl, hpc]
  · intro j sd' hj
    rw [hchain, Sys.chain_setMutex_of_ne hj]
  · rw [hchain, ← List.append_cons]
    exact Sys.shows_setMutex hsh x
  · rfl
  · simp [hpend, Pend.numPopback]
  · simp [hpend, Pend.numPopback]
  · simpa using hc
  · simpa [hpend] using hx
  · rw [run_relock hpend]

theorem Inv.objs_job (h : Inv s V) (hpc : (s.thread t).pc = pc) (hj : pc.job = some j)
    (hl : Light s s' t) (hj' : (s'.thread t).pc.job = some j)
    (hfl : (s'.thread t).pc.inFlight = pc.inFlight ∨ (s'.thread t).pc.inFlight = none)
    (hcmds : (s'.thread t).cmds = (s.thread t).cmds) {cs : List (Cell I T)}
    (hptrs : (ptrs cs).Sublist (ptrs (V i sd))) : Objs s' (V.set i sd cs) := by
  apply h.objs.move hl.frame (h.turn hpc hj hj' hfl hcmds)
  intro j' sd'
  by_cases hj : j' = i ∧ sd' = sd
  · rcases hj with ⟨rfl, rfl⟩
    rwa [View.set_self]
  · rw [View.set_of_ne _ _ hj]

theorem promise_relock (hV : V i sd = l ++ c :: r) (hpend : c.pend = .none)
    (hj : (s'.thread t).pc.job = (s.thread t).pc.job) (hout : (s'.thread t).out = (s.thread t).out)
    (hlines : (s'.thread t).pc.lines s'.heap = (s.thread t).pc.lines s.heap) :
    promise s' (V.set i sd (l ++ [{ c with owner := x }] ++ r)) t = promise s V t := by
  have hdue : ∀ j sd', due t (V.set i sd (l ++ [{ c with owner := x }] ++ r) j sd') =
      due t (V j sd') := by
    intro j sd'
    by_cases hj : j = i ∧ sd' = sd
    · rcases hj with ⟨rfl, rfl⟩
      rw [View.set_self, due_relock hpend, hV, ← List.append_cons]
    · rw [View.set_of_ne _ _ hj]
  unfold promise
  rw [hj, hout, hlines]
  simp only [hdue]

/-- A thread locks or unlocks a node of the chain of its own side and goes on. -/
theorem Inv.own_relock (h : Inv s V) (hpc : (s.thread t).pc = pc) (hj : pc.job = some j)
    (hV : V j.book j.side = l ++ c :: r) (hpend : c.pend = .none)
    (hc : c.owner = some t ∨ c.owner = none) (hx : x = some t ∨ x = none)
    (hs : s' = (s.setMutex j.book j.side c.addr x).goto t pc') (hj' : pc'.job = some j)
    (hbl : pc'.bookLocked = pc.bookLocked) (hfl : pc'.inFlight = pc.inFlight ∨ pc'.inFlight = none)
    (hent : pc'.entered = pc.entered) (hlines : pc'.lines s.heap = pc.lines s.heap)
    (hown : Holds Cell.owner Cell.key t (l ++ { c with owner := x } :: r) fun cells nxt =>
      pc'.ownBlock (s.heap j.order) cells nxt)
    (hopp : ∀ (cells : List (Cell I T)) nxt, pc.oppBlock (s.heap j.order) cells nxt j.side.opp →
      pc'.oppBlock (s.heap j.order) cells nxt j.side.opp) :
    ∃ V', Inv s' V' ∧ Quiet s s' V V' := by
  have hl : Light s s' t := hs ▸ Sys.light_setMutex pc' _ x
  have hth : s'.thread t = { s.thread t with pc := pc' } := by
    rw [hs]
    exact Function.update_self ..
  have hheap : s'.heap = s.heap := hl.heap
  apply h.own_step hpc hj (by rw [hth]; exact hj') (hV.trans (List.append_cons ..))
  · exact h.relock hpc hV hpend hc hx hl (fun _ _ => by rw [hs]; rfl) (by rw [hth]; exact hbl)
  · apply h.objs_job hpc hj hl (by rw [hth]; exact hj') (by rw [hth]; exact hfl) (by rw [hth])
    rw [hV, ptrs_of_base (show _ = (l ++ c :: r).map Cell.base by simp [Cell.base])]
  · rw [hth, hheap, ← List.append_cons]
    exact hown
  · rw [hth, hheap]
    exact (h.opp hpc hj).imp fun cells nxt _ hb => hopp cells nxt hb
  · apply account_busy
    · rw [hth, hpc]
      exact hent
    · rw [hth]
    · rw [hth]
    · apply promise_relock hV hpend
      · rw [hth, hpc, hj]
        exact hj'
      · rw [hth]
      · rw [hth, hpc, hheap]
        exact hlines

/-- A thread locks or unlocks a node of the chain of the other side and goes on. -/
theorem Inv.opp_relock (h : Inv s V) (hpc : (s.thread t).pc = pc) (hj : pc.job = some j)
    (hV : V j.book j.side.opp = l ++ c :: r) (hpend : c.pend = .none)
    (hc : c.owner = some t ∨ c.owner = none) (hx : x = some t ∨ x = none)
    (hs : s' = (s.setMutex j.book j.side.opp c.addr x).goto t pc') (hj' : pc'.job = some j)
    (hbl : pc'.bookLocked = pc.bookLocked) (hfl : pc'.inFlight = pc.inFlight)
    (hent : pc'.entered = pc.entered) (hlines : pc'.lines s.heap = pc.lines s.heap)
    (hopp : Holds Cell.owner Cell.key t (l ++ { c with owner := x } :: r) fun cells nxt =>
      pc'.oppBlock (s.heap j.order) cells nxt j.side.opp)
    (hown : ∀ (cells : List (Cell I T)) nxt, pc.ownBlock (s.heap j.order) cells nxt →
      pc'.ownBlock (s.heap j.order) cells nxt) :
    ∃ V', Inv s' V' ∧ Quiet s s' V V' := by
  have hl : Light s s' t := hs ▸ Sys.light_setMutex pc' _ x
  have hth : s'.thread t = { s.thread t with pc := pc' } := by
    rw [hs]
    exact Function.update_self ..
  have hheap : s'.heap = s.heap := hl.heap
  apply h.opp_step hpc hj (by rw [hth]; exact hj') (hV.trans (List.append_cons ..))
  · exact h.relock hpc hV hpend hc hx hl (fun _ _ => by rw [hs]; rfl) (by rw [hth]; exact hbl)
  · apply h.objs_job hpc hj hl (by rw [hth]; exact hj') (by rw [hth]; exact Or.inl hfl) (by rw [hth])
    rw [hV, ptrs_of_base (show _ = (l ++ c :: r).map Cell.base by simp [Cell.base])]
  · rw [hth, hheap, ← List.append_cons]
    exact hopp
  · intro cells nxt hb
    rw [hth, hheap]
    exact hown cells nxt hb
  · apply account_busy
    · rw [hth, hpc]
      exact hent
    · rw [hth]
    · rw [hth]
    · apply promise_relock hV hpend
      · rw [hth, hpc, hj]
        exact hj'
      · rw [hth]
      · rw [hth, hpc, hheap]
        exact hlines

end MutexStep

end MatchingEngine.Cpp
