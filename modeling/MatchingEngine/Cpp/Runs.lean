import MatchingEngine.Cpp.Steps

/-!
# Runs of the threads

Every step either is quiet or is the one at which a command takes effect, and keeps the invariant.
-/

set_option linter.unusedSectionVars false

namespace MatchingEngine.Cpp

open LockChain PriceTime

variable {I T : Type} [DecidableEq I] [DecidableEq T] {s s' : Sys ℕ I T} {V V' : View I T} {t u : T}
  {pc pc' : Pc ℕ I} {j : Job I}

/-! ## Objects -/

/-- The orders in the vector that the inner loop still has to visit stand in the chain. -/
theorem Inv.its_mem (h : Inv s V) {v : ℤ} {curr : Addr} {its : List OrderPtr} {k : ℕ}
    (hpc : (s.thread t).pc = .matchNode j v curr its k) (hz : (s.heap j.order).count ≠ 0) :
    ∀ p ∈ its, p ∈ ptrs (V j.book j.side.opp) := by
  rcases h.opp hpc rfl with ⟨l, cells, r, hV, -, -, ⟨c, as, rfl, -, -, -, hits, -⟩⟩
  intro p hp
  rw [hits.resolve_left hz] at hp
  rw [hV]
  exact mem_ptrs.mpr ⟨c, by simp, List.mem_reverse.mp (List.mem_of_mem_drop hp)⟩

theorem Stepped.other (h : Stepped s s' t) (hu : u ≠ t) : s'.thread u = s.thread u := by
  cases h with
  | readOrder hpc hcmd hs | readCancel hpc hcmd hs | miss hpc hget hs | hit hpc hget hs
  | aim hpc hs =>
    subst hs
    exact Function.update_of_ne hu ..
  | go hpc hs hj hj' hphase hquiet =>
    rw [hs.thread]
    exact Function.update_of_ne hu ..
  | exec hpc hthread hcount hheap horders hnext hlog
  | insert hpc hthread hheap horders hnext hlog | accept hpc hthread hheap horders hnext hlog =>
    rw [hthread]
    exact Function.update_of_ne hu ..
  | print hpc hs hj hj' hphase hline hearly hquiet =>
    subst hs
    exact (Function.update_of_ne hu ..).trans (Function.update_of_ne hu ..)
  | printLast hpc hline hphase hs =>
    subst hs
    exact (Function.update_of_ne hu ..).trans (Function.update_of_ne hu ..)
  | finish hphase hs =>
    rw [hs.thread]
    exact Function.update_of_ne hu ..

/-- What becomes of the objects: a new one is made, or two trade. -/
theorem Stepped.heap (h : Stepped s s' t) :
    s'.heap = s.heap ∨ (∃ o, s'.heap = Function.update s.heap s.nextPtr o) ∨
      ∃ j v curr it its k, (s.thread t).pc = .matchNode j v curr (it :: its) k ∧
        (s.heap j.order).count ≠ 0 ∧ s'.heap = execHeap s.heap j.order it := by
  cases h with
  | readOrder hpc hcmd hs =>
    subst hs
    exact Or.inr (Or.inl ⟨_, rfl⟩)
  | readCancel hpc hcmd hs | miss hpc hget hs | hit hpc hget hs | aim hpc hs =>
    subst hs
    exact Or.inl rfl
  | go hpc hs hj hj' hphase hquiet => exact Or.inl hs.heap
  | exec hpc hthread hcount hheap horders hnext hlog =>
    exact Or.inr (Or.inr ⟨_, _, _, _, _, _, hpc, hcount, hheap⟩)
  | insert hpc hthread hheap horders hnext hlog | accept hpc hthread hheap horders hnext hlog =>
    exact Or.inl hheap
  | print hpc hs hj hj' hphase hline hearly hquiet =>
    subst hs
    exact Or.inl rfl
  | printLast hpc hline hphase hs =>
    subst hs
    exact Or.inl rfl
  | finish hphase hs => exact Or.inl hs.heap

theorem Stepped.header (h : Stepped s s' t) {p : OrderPtr} (hp : p < s.nextPtr) :
    (s'.heap p).header = (s.heap p).header := by
  rcases h.heap with heq | ⟨o, heq⟩ | ⟨j, v, curr, it, its, k, -, -, heq⟩
  · rw [heq]
  · rw [heq, Function.update_of_ne (Nat.ne_of_lt hp)]
  · rw [heq, execHeap_header]

/-- A new order in flight is touched by its own thread only. -/
theorem Stepped.flying (hs : Stepped s s' t) (h : Inv s V) (hu : u ≠ t) {p : OrderPtr}
    (hp : (s.thread u).pc.inFlight = some p) : s'.heap p = s.heap p := by
  have hfl := h.objs.flying u p hp
  rcases hs.heap with heq | ⟨o, heq⟩ | ⟨j, v, curr, it, its, k, hpc, hz, heq⟩
  · rw [heq]
  · rcases Pc.job_of_inFlight hp with ⟨j, hj, rfl⟩
    rw [heq, Function.update_of_ne (Nat.ne_of_lt (h.objs.ref u _ (Pc.ref_of_job hj)))]
  · rw [heq]
    apply execHeap_other
    · rintro rfl
      exact hfl.2.1 t (Ne.symm hu) (by rw [hpc]; rfl)
    · rintro rfl
      exact hfl.1 _ _ (h.its_mem hpc hz p List.mem_cons_self)

/-! ## The command in progress -/

/-- How the place of a thread fits the command in progress. -/
structure Told (s : Sys ℕ I T) (t : T) : Prop where
  out : (s.thread t).pc.phase.early = true → (s.thread t).out = []
  order : ∀ j, (s.thread t).pc.job = some j → (s.thread t).pc.phase.ordering = true →
    ∃ count, (s.thread t).cmds.head? =
        some (.order j.side (s.heap j.order).orderId j.book (s.heap j.order).price count
          (s.heap j.order).inputTime) ∧
      ((s.thread t).pc.phase = .fresh →
        s.heap j.order = newOrder j.side (s.heap j.order).orderId j.book (s.heap j.order).price
          count (s.heap j.order).inputTime)
  cancel : ∀ p, (s.thread t).pc.ref = some p → (s.thread t).pc.phase.targeting = true →
    ∃ inputTime, (s.thread t).cmds.head? = some (.cancel (s.heap p).orderId inputTime)
  lookup : ∀ orderId inputTime, (s.thread t).pc = .getOrder orderId inputTime ∨
      (s.thread t).pc = .printMiss orderId inputTime →
    (s.thread t).cmds.head? = some (.cancel orderId inputTime)

theorem Told.init (heap : Heap ℕ I) (cmds : T → List (Command ℕ I)) (t : T) :
    Told (Sys.init heap cmds) t where
  out := fun _ => rfl
  order := fun _ hj => by cases hj
  cancel := fun _ hp => by cases hp
  lookup := by
    intro orderId inputTime h
    rcases h with h | h <;> cases h

/-- A thread of which nothing changes, nor of its objects what it relies on. -/
theorem Told.congr (h : Told s u) (hthread : s'.thread u = s.thread u)
    (hheader : ∀ p, (s.thread u).pc.ref = some p → (s'.heap p).header = (s.heap p).header)
    (hflying : ∀ p, (s.thread u).pc.inFlight = some p → s'.heap p = s.heap p) : Told s' u := by
  have hfields : ∀ p, (s.thread u).pc.ref = some p → (s'.heap p).orderId = (s.heap p).orderId ∧
      (s'.heap p).price = (s.heap p).price ∧ (s'.heap p).inputTime = (s.heap p).inputTime := by
    intro p hp
    have hh := hheader p hp
    simp only [Order.header, Prod.mk.injEq] at hh
    exact ⟨hh.2.1, hh.2.2.1, hh.2.2.2.2⟩
  constructor
  · rw [hthread]
    exact h.out
  · rw [hthread]
    intro j hj hord
    rcases hfields _ (Pc.ref_of_job hj) with ⟨h1, h2, h3⟩
    rcases h.order j hj hord with ⟨count, hcmd, hfresh⟩
    refine ⟨count, by rw [h1, h2, h3]; exact hcmd, ?_⟩
    intro hph
    rw [hflying _ (Pc.inFlight_of_fresh hj hph)]
    exact hfresh hph
  · rw [hthread]
    intro p hp htar
    rw [(hfields p hp).1]
    exact h.cancel p hp htar
  · rw [hthread]
    exact h.lookup

/-- A phase belongs to the same command as an earlier one. -/
structure Phase.Follows (p' p : Phase) : Prop where
  early : p'.early = true → p.early = true
  ordering : p'.ordering = true → p.ordering = true
  targeting : p'.targeting = true → p.targeting = true
  fresh : p' = .fresh → p = .fresh

theorem Phase.Next.follows {p p' : Phase} (h : p.Next p') : p'.Follows p := by
  cases h with
  | same => exact ⟨id, id, id, id⟩
  | _ => constructor <;> decide

theorem Phase.added_follows : Phase.added.Follows .adding := by constructor <;> decide

theorem Phase.accepted_follows : Phase.accepted.Follows .cancelling := by constructor <;> decide

theorem Told.goes_on (h : Told s t) (hpc : (s.thread t).pc = pc) (hj : pc.job = some j)
    (hpc' : (s'.thread t).pc = pc') (hj' : pc'.job = some j) (hphase : pc'.phase.Follows pc.phase)
    (hcmds : (s'.thread t).cmds = (s.thread t).cmds)
    (hout : pc'.phase.early = true → (s'.thread t).out = (s.thread t).out)
    (hheader : (s'.heap j.order).header = (s.heap j.order).header)
    (hfresh : pc'.phase = .fresh → s'.heap j.order = s.heap j.order) : Told s' t := by
  have hfields := hheader
  simp only [Order.header, Prod.mk.injEq] at hfields
  rcases hfields with ⟨-, hid, hprice, -, htime⟩
  constructor
  · rw [hpc']
    intro he
    rw [hout he]
    exact h.out (by rw [hpc]; exact hphase.early he)
  · rw [hpc', hcmds]
    intro j' hj₁ hord
    rw [hj'] at hj₁
    cases hj₁
    rcases h.order j (by rw [hpc, hj]) (by rw [hpc]; exact hphase.ordering hord) with
      ⟨count, hcmd, hnew⟩
    refine ⟨count, by rw [hid, hprice, htime]; exact hcmd, ?_⟩
    intro hfr
    rw [hfresh hfr]
    exact hnew (by rw [hpc]; exact hphase.fresh hfr)
  · rw [hpc', hcmds]
    intro p hp htar
    rw [Pc.ref_of_job hj'] at hp
    cases hp
    rw [hid]
    exact h.cancel _ (by rw [hpc, Pc.ref_of_job hj]) (by rw [hpc]; exact hphase.targeting htar)
  · rw [hpc']
    intro orderId inputTime heq
    rcases heq with rfl | rfl <;> cases hj'

/-- A thread between two commands. -/
theorem Told.ready (hpc : (s.thread t).pc = .ready) (hout : (s.thread t).out = []) : Told s t where
  out := fun _ => hout
  order := by
    rw [hpc]
    exact fun _ hj => by cases hj
  cancel := by
    rw [hpc]
    exact fun _ hp => by cases hp
  lookup := by
    rw [hpc]
    intro orderId inputTime h
    rcases h with h | h <;> cases h

theorem Told.own (h : Told s t) (hinv : Inv s V) (hs : Stepped s s' t) : Told s' t := by
  cases hs with
  | readOrder hpc hcmd hs =>
    subst hs
    have hout : (s.thread t).out = [] := h.out (by rw [hpc]; rfl)
    constructor
    · intro _
      simpa [Sys.goto, Sys.alloc] using hout
    · intro j hj _
      simp only [Sys.goto, Sys.alloc, Function.update_self, Pc.job, Option.some.injEq] at hj ⊢
      subst hj
      dsimp only
      rw [Function.update_self, hcmd]
      exact ⟨_, rfl, fun _ => rfl⟩
    · intro p _ htar
      simp [Sys.goto, Sys.alloc, Pc.phase, Phase.targeting] at htar
    · intro orderId inputTime heq
      simp [Sys.goto, Sys.alloc] at heq
  | readCancel hpc hcmd hs =>
    subst hs
    have hout : (s.thread t).out = [] := h.out (by rw [hpc]; rfl)
    constructor
    · intro _
      simpa [Sys.goto] using hout
    · intro j hj
      simp [Sys.goto, Pc.job] at hj
    · intro p hp
      simp [Sys.goto, Pc.ref, Pc.job] at hp
    · intro orderId inputTime heq
      simp only [Sys.goto, Function.update_self] at heq ⊢
      rcases heq with heq | heq
      · cases heq
        exact hcmd
      · cases heq
  | miss hpc hget hs =>
    subst hs
    have hcmd := h.lookup _ _ (Or.inl hpc)
    constructor
    · intro he
      simp [Sys.goto, Pc.phase, Phase.early] at he
    · intro j hj
      simp [Sys.goto, Pc.job] at hj
    · intro p hp
      simp [Sys.goto, Pc.ref, Pc.job] at hp
    · intro orderId inputTime heq
      simp only [Sys.goto, Function.update_self] at heq ⊢
      rcases heq with heq | heq
      · cases heq
      · cases heq
        exact hcmd
  | hit hpc hget hs =>
    subst hs
    have hout : (s.thread t).out = [] := h.out (by rw [hpc]; rfl)
    have hcmd := h.lookup _ _ (Or.inl hpc)
    have hid := (hinv.objs.mapped _ _ hget).2.1
    constructor
    · intro _
      simpa [Sys.goto] using hout
    · intro j hj
      simp [Sys.goto, Pc.job] at hj
    · intro p hp _
      simp only [Sys.goto, Function.update_self, Pc.ref, Option.some.injEq] at hp ⊢
      subst hp
      rw [hid]
      exact ⟨_, hcmd⟩
    · intro orderId inputTime heq
      simp [Sys.goto] at heq
  | aim hpc hs =>
    subst hs
    have hout : (s.thread t).out = [] := h.out (by rw [hpc]; rfl)
    constructor
    · intro _
      simpa [Sys.goto] using hout
    · intro j _ hord
      simp [Sys.goto, Pc.phase, Phase.ordering] at hord
    · intro p hp _
      simp only [Sys.goto, Function.update_self, Pc.ref, Pc.job, Option.map_some,
        Option.some.injEq] at hp ⊢
      subst hp
      exact h.cancel _ (by rw [hpc]; rfl) (by rw [hpc]; rfl)
    · intro orderId inputTime heq
      simp [Sys.goto] at heq
  | go hpc hs hj hj' hphase hquiet =>
    have hself := congrFun hs.thread t
    rw [Function.update_self] at hself
    have hpc' := congrArg Thread.pc hself
    apply h.goes_on hpc hj hpc' hj' hphase.follows (by rw [hself]) _ (by rw [hs.heap])
    · rw [hs.heap]
      exact fun _ => rfl
    · rw [hself]
      exact fun _ => rfl
  | exec hpc hthread hcount hheap horders hnext hlog =>
    have hself := congrFun hthread t
    rw [Function.update_self] at hself
    have hpc' := congrArg Thread.pc hself
    exact h.goes_on hpc rfl hpc' rfl (Phase.Next.same _).follows (by rw [hself])
      (fun he => by cases he) (by rw [hheap, execHeap_header]) (fun hf => by cases hf)
  | insert hpc hthread hheap horders hnext hlog =>
    have hself := congrFun hthread t
    rw [Function.update_self] at hself
    have hpc' := congrArg Thread.pc hself
    exact h.goes_on hpc rfl hpc' rfl Phase.added_follows (by rw [hself])
      (fun he => by cases he) (by rw [hheap]) (fun hf => by cases hf)
  | accept hpc hthread hheap horders hnext hlog =>
    have hself := congrFun hthread t
    rw [Function.update_self] at hself
    have hpc' := congrArg Thread.pc hself
    exact h.goes_on hpc rfl hpc' rfl Phase.accepted_follows (by rw [hself])
      (fun he => by cases he) (by rw [hheap]) (fun hf => by cases hf)
  | print hpc hs hj hj' hphase hline hearly hquiet =>
    rename_i j pc pc' line
    have hself : s'.thread t =
        { s.thread t with pc := pc', out := (s.thread t).out ++ [line] } := by
      rw [hs]
      simp [Sys.goto, Sys.print]
    have hheap : s'.heap = s.heap := by
      rw [hs]
      rfl
    have hpc' := congrArg Thread.pc hself
    apply h.goes_on hpc hj hpc' hj' (by rw [hphase]; exact (Phase.Next.same _).follows)
      (by rw [hself]) _ (by rw [hheap]) (by rw [hheap]; exact fun _ => rfl)
    intro he
    rw [hphase, hearly] at he
    cases he
  | printLast hpc hline hphase hs =>
    subst hs
    apply Told.ready <;> rw [Sys.finish_self]
  | finish hphase hs =>
    have hself := congrFun hs.thread t
    rw [Function.update_self] at hself
    apply Told.ready <;> rw [hself]

theorem Told.step (h : ∀ u, Told s u) (hinv : Inv s V) (hs : Stepped s s' t) (u : T) :
    Told s' u := by
  by_cases hu : u = t
  · subst hu
    exact (h u).own hinv hs
  · apply (h u).congr (hs.other hu)
    · intro p hp
      exact hs.header (hinv.objs.ref u p hp)
    · intro p hp
      exact hs.flying hinv hu hp

/-! ## Every step -/

/-- The command of thread `t` takes effect. -/
inductive Entered (s s' : Sys ℕ I T) (V V' : View I T) (t : T) : Prop
  | order {j : Job I} {v : ℤ} {orderId price : UInt32} {count : ℕ} {inputTime : ℤ}
      (hpc : (s.thread t).pc = .unlockBook j v)
      (hcmd : (s.thread t).cmds.head? =
        some (.order j.side orderId j.book price count inputTime))
      (ho : s.heap j.order = newOrder j.side orderId j.book price count inputTime)
      (h : ∀ known, Entry s s' V V' t (.order j.side orderId j.book price count inputTime) known)
  | cancel {j : Job I} {inputTime : ℤ} (hpc : (s.thread t).pc = .lockHead j)
      (hcmd : (s.thread t).cmds.head? = some (.cancel (s.heap j.order).orderId inputTime))
      (h : ∀ known, known (s.heap j.order).orderId = some (s.heap j.order).header →
        Entry s s' V V' t (.cancel (s.heap j.order).orderId inputTime) known)
  | missed {orderId : UInt32} {inputTime : ℤ}
      (hpc : (s.thread t).pc = .getOrder orderId inputTime) (hget : s.orders orderId = none)
      (hcmd : (s.thread t).cmds.head? = some (.cancel orderId inputTime))
      (h : ∀ known, known orderId = none →
        Entry s s' V V' t (.cancel orderId inputTime) known)

theorem Inv.step (h : Inv s V) (hk : Told s t) (hs : s.step t = some s') :
    ∃ V', Inv s' V' ∧ (Quiet s s' V V' ∨ Entered s s' V V' t) := by
  have quiet : (∃ V', Inv s' V' ∧ Quiet s s' V V') →
      ∃ V', Inv s' V' ∧ (Quiet s s' V V' ∨ Entered s s' V V' t) := by
    rintro ⟨V', hinv, hq⟩
    exact ⟨V', hinv, Or.inl hq⟩
  have hout : (s.thread t).pc.phase.early = true → (s.thread t).out = [] := hk.out
  cases hpc : (s.thread t).pc with
  | ready =>
    rw [Sys.step, hpc] at hs
    cases hcmds : (s.thread t).cmds with
    | nil =>
      rw [hcmds] at hs
      cases hs
    | cons c cs =>
      rw [hcmds] at hs
      cases c with
      | order side orderId instrument price count inputTime =>
        exact quiet (h.readOrder hpc hcmds (Option.some.inj hs).symm)
      | cancel orderId inputTime =>
        cases Option.some.inj hs
        exact quiet (h.readCancel hpc orderId inputTime)
  | getBook j => exact quiet (h.getBook hpc hs)
  | putBook j => exact quiet (h.putBook hpc hs)
  | lockBook j => exact quiet (h.lockBook hpc hs)
  | lockMatchHead j => exact quiet (h.lockMatchHead hpc hs)
  | walk j v curr => exact quiet (h.walk hpc hs)
  | walkBreak j v curr => exact quiet (h.walkBreak hpc hs)
  | lockAddHead j v => exact quiet (h.lockAddHead hpc hs)
  | unlockBook j v =>
    rcases hk.order j (by rw [hpc]; rfl) (by rw [hpc]; rfl) with ⟨count, hcmd, hnew⟩
    have ho := hnew (by rw [hpc]; rfl)
    rcases h.unlockBook hpc hs hcmd ho (hout (by rw [hpc]; rfl)) with ⟨V', hinv, hentry⟩
    exact ⟨V', hinv, Or.inr (.order hpc hcmd ho hentry)⟩
  | matchHead j v => exact quiet (h.matchHead hpc hs)
  | matchTest j v curr => exact quiet (h.matchTest hpc hs)
  | matchNode j v curr its k => exact quiet (h.matchNode hpc hs)
  | matchPrint j v curr its k line => exact quiet (h.matchPrint hpc hs)
  | addWalk j curr next => exact quiet (h.addWalk hpc hs)
  | addBreak j curr next => exact quiet (h.addBreak hpc hs)
  | addFound j curr next => exact quiet (h.addFound hpc hs)
  | addOn j curr next => exact quiet (h.addOn hpc hs)
  | addPlace j curr => exact quiet (h.addPlace hpc hs)
  | addLinked j prev curr => exact quiet (h.addLinked hpc hs)
  | addInsert j curr => exact quiet (h.addInsert hpc hs)
  | addPrint j curr => exact quiet (h.addPrint hpc hs)
  | addUnlock j curr => exact quiet (h.addUnlock hpc hs)
  | getOrder orderId inputTime =>
    have hcmd := hk.lookup orderId inputTime (Or.inl hpc)
    rw [Sys.step, hpc] at hs
    dsimp only at hs
    split at hs
    next hget =>
      cases Option.some.inj hs
      rcases h.getOrder_miss hpc hcmd (hout (by rw [hpc]; rfl)) with ⟨hinv, hentry⟩
      exact ⟨V, hinv, Or.inr (.missed hpc hget hcmd hentry)⟩
    next hget =>
      cases Option.some.inj hs
      exact quiet (h.getOrder_hit hpc hget)
  | printMiss orderId inputTime => exact quiet (h.printMiss hpc hs)
  | getBookOf order => exact quiet (h.getBookOf hpc hs)
  | lockHead j =>
    rcases hk.cancel j.order (by rw [hpc]; rfl) (by rw [hpc]; rfl) with ⟨inputTime, hcmd⟩
    rcases h.lockHead hpc hs hcmd (hout (by rw [hpc]; rfl)) with ⟨V', hinv, hentry⟩
    exact ⟨V', hinv, Or.inr (.cancel hpc hcmd hentry)⟩
  | lockFirst j => exact quiet (h.lockFirst hpc hs)
  | unlockHead j curr => exact quiet (h.unlockHead hpc hs)
  | cancelTest j curr => exact quiet (h.cancelTest hpc hs)
  | cancelOn j curr next => exact quiet (h.cancelOn hpc hs)
  | cancelEnd j curr => exact quiet (h.cancelEnd hpc hs)
  | cancelMissed j curr => exact quiet (h.cancelMissed hpc hs)
  | printRejected j => exact quiet (h.printRejected hpc hs)
  | printAccepted j curr => exact quiet (h.printAccepted hpc hs)
  | cancelUnlock j curr => exact quiet (h.cancelUnlock hpc hs)

/-! ## Runs -/

/-- No id is used for two orders. -/
structure UniqueIds (cmds : T → List (Command ℕ I)) : Prop where
  nodup : ∀ t, ((cmds t).filterMap newId).Nodup
  apart : ∀ t u, t ≠ u → ∀ id ∈ (cmds t).filterMap newId, id ∉ (cmds u).filterMap newId

/-- The head sentinels. -/
def View.init : View I T :=
  fun _ _ => [{ addr := 0, owner := none, node := OrderNode.sentinel, orders := [], pend := .none }]

theorem Inv.init {heap : Heap ℕ I} {cmds : T → List (Command ℕ I)} (hids : UniqueIds cmds) :
    Inv (Sys.init heap cmds) View.init where
  fault := rfl
  shows := fun i sd => shows_empty heap sd
  bookM := fun i t => ⟨fun hm => (by cases hm), fun hm => by cases hm⟩
  holds := fun t i sd => ⟨[], [], View.init i sd, rfl, by simp, by simp [View.init], rfl⟩
  idle := by simp [View.init]
  volume := by simp [View.init, OrderNode.sentinel, total]
  objs := by
    constructor
    · simp [View.init, ptrs, OrderNode.sentinel]
    · simp [View.init, ptrs, OrderNode.sentinel]
    · exact fun p hp => absurd hp (Nat.not_lt_zero p)
    · exact fun _ _ hp => by cases hp
    · exact fun _ _ hj => by cases hj
    · exact fun _ _ hp => by cases hp
    · exact fun _ _ hp => by cases hp
    · exact fun _ _ hp => by cases hp
    · exact fun p q hp => absurd hp (Nat.not_lt_zero p)
    · exact fun t id _ p hp => absurd hp (Nat.not_lt_zero p)
    · exact hids.nodup
    · exact hids.apart

theorem Sys.Reachable.inv {heap : Heap ℕ I} {cmds : T → List (Command ℕ I)} (hids : UniqueIds cmds)
    (h : Sys.Reachable heap cmds s) : (∃ V, Inv s V) ∧ ∀ t, Told s t := by
  induction h with
  | init => exact ⟨⟨_, Inv.init hids⟩, Told.init heap cmds⟩
  | step h hs ih =>
    rcases ih with ⟨⟨V, hinv⟩, htold⟩
    rcases hinv.step (htold _) hs with ⟨V', hinv', -⟩
    exact ⟨⟨V', hinv'⟩, Told.step htold hinv (Sys.step_cases hs hinv'.fault)⟩

end MatchingEngine.Cpp
