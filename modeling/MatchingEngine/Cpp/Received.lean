import MatchingEngine.Cpp.Steps

/-!
# The timestamps on the lines of the C++ engine

A line carries the `input_time` of an `Order` object, or of the input record on a miss.  For the
lines of a new order that is the time of the command; a cancel that finds its order prints the time
at which that order was received.
-/

set_option linter.unusedSectionVars false

namespace MatchingEngine.Cpp

variable {N I T : Type} [Quantity N] [DecidableEq I] [DecidableEq T] {s s' : Sys N I T} {t u : T}
  {pc pc' : Pc N I}

/-- The command that a thread works on was received at this time. -/
def Thread.Expects (th : Thread N I) (inputTime : ℤ) : Prop :=
  ∃ c, th.cmds.head? = some c ∧ inputTime = c.inputTime

/-- Every line carries the time of the command it answers. -/
structure OnTime (s : Sys N I T) : Prop where
  history : ∀ t, ∀ x ∈ (s.thread t).history, ∀ l ∈ x.2, l.inputTime = x.1.inputTime
  out : ∀ t, ∀ l ∈ (s.thread t).out, (s.thread t).Expects l.inputTime
  log : ∀ l ∈ s.log, ∃ t, l ∈ (s.thread t).out ∨ ∃ x ∈ (s.thread t).history, l ∈ x.2

/-- If the thread looks up the order of a cancel and finds it, both were received at one time. -/
def Punctual (s : Sys N I T) (t : T) : Prop :=
  ∀ orderId inputTime order, (s.thread t).pc = .getOrder orderId inputTime →
    s.orders orderId = some order → (s.heap order).inputTime = inputTime

/-- The test of it. -/
def punctual (s : Sys N I T) (t : T) : Bool :=
  match (s.thread t).pc with
  | .getOrder orderId inputTime =>
    match s.orders orderId with
    | some order => decide ((s.heap order).inputTime = inputTime)
    | none => true
  | _ => true

theorem punctual_iff (s : Sys N I T) (t : T) : punctual s t = true ↔ Punctual s t := by
  unfold punctual Punctual
  split
  next orderId inputTime hpc =>
    rw [hpc]
    split
    next order hget =>
      rw [decide_eq_true_iff]
      constructor
      · rintro h _ _ order' ⟨⟩ hget'
        rw [hget] at hget'
        cases hget'
        exact h
      · exact fun h => h orderId inputTime order rfl hget
    next hget =>
      refine ⟨?_, fun _ => rfl⟩
      rintro - _ _ order' ⟨⟩ hget'
      rw [hget] at hget'
      cases hget'
  next hpc => exact ⟨fun _ orderId inputTime _ h => absurd h (hpc orderId inputTime), fun _ => rfl⟩

instance decidablePunctual (s : Sys N I T) (t : T) : Decidable (Punctual s t) :=
  decidable_of_iff _ (punctual_iff s t)

/-- The times that go onto the next lines. -/
def Pc.times (pc : Pc N I) (heap : Heap N I) : List ℤ :=
  pc.ref.toList.map (fun p => (heap p).inputTime) ++ pc.printing.toList.map Line.inputTime ++
    match pc with
    | .getOrder _ inputTime | .printMiss _ inputTime => [inputTime]
    | _ => []

structure TimeInv (s : Sys N I T) : Prop where
  onTime : OnTime s
  times : ∀ t, ∀ τ ∈ (s.thread t).pc.times s.heap, (s.thread t).Expects τ
  ref : ∀ t p, (s.thread t).pc.ref = some p → p < s.nextPtr
  orders : ∀ orderId p, s.orders orderId = some p → p < s.nextPtr

theorem execHeap_inputTime (heap : Heap N I) (order it p : OrderPtr) :
    (execHeap heap order it p).inputTime = (heap p).inputTime := by
  have hupdate : ∀ (heap' : Heap N I) (q : OrderPtr) (o : Order N I),
      o.inputTime = (heap' q).inputTime →
      (Function.update heap' q o p).inputTime = (heap' p).inputTime := by
    intro heap' q o ho
    by_cases hq : p = q
    · subst hq
      rw [Function.update_self]
      exact ho
    · rw [Function.update_of_ne hq]
  unfold execHeap
  split
  · exact hupdate heap order _ rfl
  · dsimp only
    rw [hupdate, hupdate]
    · rfl
    · rfl

/-- The lines that a place promises carry the times of the place. -/
theorem Pc.lines_times {line : Line N I} {heap : Heap N I} (h : pc.lines heap = [line]) :
    line.inputTime ∈ pc.times heap := by
  cases pc with
  | unlockHead j curr | cancelTest j curr =>
    cases curr with
    | none =>
      cases h
      exact List.mem_cons_self
    | some curr => cases h
  | matchPrint j v curr its k l =>
    cases h
    exact List.mem_cons_of_mem _ List.mem_cons_self
  | _ => cases h <;> exact List.mem_cons_self

theorem Pc.times_of_job {j : Job I} {heap : Heap N I} (hj : pc.job = some j)
    (hquiet : pc.printing = none) : pc.times heap = [(heap j.order).inputTime] := by
  cases pc with
  | matchPrint j v curr its k l => cases hquiet
  | _ => cases hj <;> rfl

theorem Pc.ref_of_job' {j : Job I} (hj : pc.job = some j) : pc.ref = some j.order := by
  cases pc <;> cases hj <;> rfl

theorem init_timeInv (heap : Heap N I) (cmds : T → List (Command N I)) :
    TimeInv (Sys.init heap cmds) where
  onTime := ⟨fun _ _ h => (by cases h), fun _ _ h => (by cases h), fun _ h => (by cases h)⟩
  times := fun _ _ h => by cases h
  ref := fun _ _ h => by cases h
  orders := fun _ _ h => by cases h

/-- A step of thread `t`, whose lines and place are given; the others go on as before. -/
theorem TimeInv.move (h : TimeInv s) (hother : ∀ u, u ≠ t → s'.thread u = s.thread u)
    (hnext : s.nextPtr ≤ s'.nextPtr)
    (hheap : ∀ p < s.nextPtr, (s'.heap p).inputTime = (s.heap p).inputTime)
    (hhistory : ∀ x ∈ (s'.thread t).history, ∀ l ∈ x.2, l.inputTime = x.1.inputTime)
    (hout : ∀ l ∈ (s'.thread t).out, (s'.thread t).Expects l.inputTime)
    (hlog : ∀ l ∈ s'.log, l ∈ s.log ∨ l ∈ (s'.thread t).out ∨
      ∃ x ∈ (s'.thread t).history, l ∈ x.2)
    (hkeep : ∀ l, (l ∈ (s.thread t).out ∨ ∃ x ∈ (s.thread t).history, l ∈ x.2) →
      l ∈ (s'.thread t).out ∨ ∃ x ∈ (s'.thread t).history, l ∈ x.2)
    (htimes : ∀ τ ∈ (s'.thread t).pc.times s'.heap, (s'.thread t).Expects τ)
    (href : ∀ p, (s'.thread t).pc.ref = some p → p < s'.nextPtr)
    (horders : ∀ orderId p, s'.orders orderId = some p → p < s'.nextPtr) : TimeInv s' where
  onTime := by
    refine ⟨?_, ?_, ?_⟩
    · intro u
      by_cases hu : u = t
      · subst hu
        exact hhistory
      · rw [hother u hu]
        exact h.onTime.history u
    · intro u
      by_cases hu : u = t
      · subst hu
        exact hout
      · rw [hother u hu]
        exact h.onTime.out u
    · intro l hl
      rcases hlog l hl with hold | hnew
      · rcases h.onTime.log l hold with ⟨u, hlu⟩
        refine ⟨u, ?_⟩
        by_cases hu : u = t
        · subst hu
          exact hkeep l hlu
        · rw [hother u hu]
          exact hlu
      · exact ⟨t, hnew⟩
  times := by
    intro u τ hτ
    by_cases hu : u = t
    · subst hu
      exact htimes τ hτ
    · rw [hother u hu] at hτ ⊢
      apply h.times u
      -- the times of an object that is referred to do not change
      have hsame : (s.thread u).pc.times s'.heap = (s.thread u).pc.times s.heap := by
        unfold Pc.times
        congr 2
        apply List.map_congr_left
        intro p hp
        exact hheap p (h.ref u p (Option.mem_toList.mp hp))
      rw [← hsame]
      exact hτ
  ref := by
    intro u p hp
    by_cases hu : u = t
    · subst hu
      exact href p hp
    · rw [hother u hu] at hp
      exact (h.ref u p hp).trans_le hnext
  orders := horders

/-- The thread goes on with its command, and prints nothing. -/
theorem TimeInv.goes (h : TimeInv s)
    (hthread : s'.thread = Function.update s.thread t { s.thread t with pc := pc' })
    (hnext : s.nextPtr ≤ s'.nextPtr)
    (hheap : ∀ p < s.nextPtr, (s'.heap p).inputTime = (s.heap p).inputTime)
    (hlog : s'.log = s.log) (htimes : ∀ τ ∈ pc'.times s'.heap, (s.thread t).Expects τ)
    (href : ∀ p, pc'.ref = some p → p < s'.nextPtr)
    (horders : ∀ orderId p, s'.orders orderId = some p → p < s'.nextPtr) : TimeInv s' := by
  have hself : s'.thread t = { s.thread t with pc := pc' } := by
    rw [hthread]
    exact Function.update_self ..
  have hother : ∀ u, u ≠ t → s'.thread u = s.thread u := by
    intro u hu
    rw [hthread]
    exact Function.update_of_ne hu ..
  apply h.move hother hnext hheap <;> try rw [hself]
  · exact h.onTime.history t
  · exact h.onTime.out t
  · rw [hlog]
    exact fun _ => Or.inl
  · exact fun _ => id
  · exact htimes
  · exact href
  · exact horders

theorem TimeInv.goto (h : TimeInv s) (htimes : ∀ τ ∈ pc'.times s.heap, (s.thread t).Expects τ)
    (href : ∀ p, pc'.ref = some p → p < s.nextPtr) : TimeInv (s.goto t pc') :=
  h.goes rfl (le_refl _) (fun _ _ => rfl) rfl htimes href h.orders

/-- It prints a line with its time. -/
theorem TimeInv.print (h : TimeInv s) {line : Line N I}
    (hline : (s.thread t).Expects line.inputTime) : TimeInv (s.print t line) := by
  have hself : (s.print t line).thread t =
      { s.thread t with out := (s.thread t).out ++ [line] } := Function.update_self ..
  have hother : ∀ u, u ≠ t → (s.print t line).thread u = s.thread u :=
    fun u hu => Function.update_of_ne hu ..
  apply h.move hother (le_refl _) (fun _ _ => rfl) <;> try rw [hself]
  · exact h.onTime.history t
  · intro l hl
    rcases List.mem_append.mp hl with hl | hl
    · exact h.onTime.out t l hl
    · cases List.mem_singleton.mp hl
      exact hline
  · intro l hl
    rcases List.mem_append.mp hl with hl | hl
    · exact Or.inl hl
    · exact Or.inr (Or.inl (List.mem_append_right _ hl))
  · exact fun l hl => hl.imp_left fun hl => List.mem_append_left _ hl
  · exact h.times t
  · exact h.ref t
  · exact h.orders

/-- The command is over, and its lines become history. -/
theorem TimeInv.ends (h : TimeInv s) (hs : Ends s s' t) : TimeInv s' := by
  have hself := congrFun hs.thread t
  rw [Function.update_self] at hself
  have hother : ∀ u, u ≠ t → s'.thread u = s.thread u := by
    intro u hu
    rw [hs.thread]
    exact Function.update_of_ne hu ..
  apply h.move hother hs.nextPtr.ge (fun p _ => by rw [hs.heap]) <;> try rw [hself]
  · intro x hx l hl
    rcases List.mem_append.mp hx with hx | hx
    · exact h.onTime.history t x hx l hl
    · rcases List.mem_map.mp hx with ⟨c, hc, rfl⟩
      rcases h.onTime.out t l hl with ⟨c', hc', hl'⟩
      rw [Option.mem_toList.mp hc] at hc'
      cases hc'
      exact hl'
  · exact fun _ hl => by cases hl
  · rw [hs.log]
    exact fun _ => Or.inl
  · rintro l (hl | ⟨x, hx, hl⟩)
    · rcases h.onTime.out t l hl with ⟨c, hc, -⟩
      refine Or.inr ⟨(c, (s.thread t).out), ?_, hl⟩
      apply List.mem_append_right
      apply List.mem_map.mpr
      exact ⟨c, Option.mem_toList.mpr hc, rfl⟩
    · exact Or.inr ⟨x, List.mem_append_left _ hx, hl⟩
  · exact fun _ hτ => by cases hτ
  · exact fun _ hp => by cases hp
  · rw [hs.orders, hs.nextPtr]
    exact h.orders

theorem get_put {m : HashMap UInt32 OrderPtr} {key key' : UInt32} {value p : OrderPtr}
    (h : m.put key value key' = some p) : m key' = some p ∨ p = value := by
  by_cases hk : key' = key
  · subst hk
    rcases hm : m key' with _ | v
    · rw [HashMap.put_of_none value hm, Function.update_self] at h
      exact Or.inr (Option.some.inj h).symm
    · simp only [HashMap.put, hm] at h
      exact Or.inl h
  · rw [HashMap.put_of_ne m value hk] at h
    exact Or.inl h

theorem get_remove {m : HashMap UInt32 OrderPtr} {key key' : UInt32} {p : OrderPtr}
    (h : m.remove key key' = some p) : m key' = some p := by
  unfold HashMap.remove at h
  by_cases hk : key' = key
  · subst hk
    rw [Function.update_self] at h
    cases h
  · rw [Function.update_of_ne hk] at h
    exact h

theorem Stepped.timeInv (hs : Stepped s s' t) (h : TimeInv s) (hp : Punctual s t) : TimeInv s' := by
  have hlt : ∀ {pc : Pc N I} {j : Job I}, (s.thread t).pc = pc → pc.job = some j →
      j.order < s.nextPtr := by
    intro pc j hpc hj
    apply h.ref t
    rw [hpc]
    exact Pc.ref_of_job' hj
  have htime : ∀ {pc : Pc N I} {j : Job I}, (s.thread t).pc = pc → pc.job = some j →
      (s.thread t).Expects (s.heap j.order).inputTime := by
    intro pc j hpc hj
    apply h.times t
    rw [hpc]
    unfold Pc.times
    rw [Pc.ref_of_job' hj]
    exact List.mem_cons_self
  have hline : ∀ {pc : Pc N I} {line : Line N I}, (s.thread t).pc = pc →
      pc.lines s.heap = [line] → (s.thread t).Expects line.inputTime := by
    intro pc line hpc hline
    apply h.times t
    rw [hpc]
    exact Pc.lines_times hline
  cases hs with
  | @readOrder side orderId instrument price count inputTime hpc hcmd hs =>
    -- the object is made with the time of the command
    subst hs
    have hold : ∀ p < s.nextPtr,
        (Function.update s.heap s.nextPtr (newOrder side orderId instrument price count inputTime)
          p).inputTime = (s.heap p).inputTime := by
      intro p hp
      rw [Function.update_of_ne hp.ne]
    have hthread : ((s.alloc (newOrder side orderId instrument price count inputTime)).goto t
        (.getBook { book := instrument, side := side, order := s.nextPtr })).thread =
          Function.update s.thread t { s.thread t with
            pc := .getBook { book := instrument, side := side, order := s.nextPtr } } := rfl
    apply h.goes hthread
    · exact Nat.le_succ _
    · exact hold
    · rfl
    · intro τ hτ
      cases List.mem_singleton.mp hτ
      refine ⟨_, hcmd, ?_⟩
      show (Function.update s.heap s.nextPtr _ s.nextPtr).inputTime = inputTime
      rw [Function.update_self]
      rfl
    · rintro p hp
      cases hp
      exact Nat.lt_succ_self _
    · intro id p hp
      exact (h.orders id p hp).trans (Nat.lt_succ_self _)
  | readCancel hpc hcmd hs =>
    subst hs
    apply h.goto
    · intro τ hτ
      cases List.mem_singleton.mp hτ
      exact ⟨_, hcmd, rfl⟩
    · exact fun _ hp => by cases hp
  | miss hpc hget hs =>
    subst hs
    apply h.goto
    · have ht := h.times t
      rw [hpc] at ht
      exact ht
    · exact fun _ hp => by cases hp
  | @hit orderId inputTime order hpc hget hs =>
    -- here the time of the order takes the place of that of the command
    subst hs
    apply h.goto
    · intro τ hτ
      cases List.mem_singleton.mp hτ
      show (s.thread t).Expects (s.heap order).inputTime
      rw [hp orderId inputTime order hpc hget]
      apply h.times t
      rw [hpc]
      exact List.mem_singleton_self _
    · rintro p hp'
      cases hp'
      exact h.orders orderId order hget
  | aim hpc hs =>
    subst hs
    apply h.goto
    · have ht := h.times t
      rw [hpc] at ht
      exact ht
    · have hr := h.ref t
      rw [hpc] at hr
      exact hr
  | go hpc hs hj hj' hphase hquiet =>
    apply h.goes hs.thread hs.nextPtr.ge (fun p _ => by rw [hs.heap]) hs.log
    · intro τ hτ
      rw [Pc.times_of_job hj' hquiet, hs.heap] at hτ
      cases List.mem_singleton.mp hτ
      exact htime hpc hj
    · intro p hp'
      rw [Pc.ref_of_job' hj'] at hp'
      cases hp'
      rw [hs.nextPtr]
      exact hlt hpc hj
    · rw [hs.orders, hs.nextPtr]
      exact h.orders
  | @exec j v curr it its k k' hpc hthread hcount hheap horders hnext hlog =>
    have hsame : ∀ p, (s'.heap p).inputTime = (s.heap p).inputTime := by
      intro p
      rw [hheap]
      exact execHeap_inputTime ..
    apply h.goes hthread hnext.ge (fun p _ => hsame p) hlog
    · intro τ hτ
      rcases List.mem_cons.mp hτ with rfl | hτ
      · show (s.thread t).Expects (s'.heap j.order).inputTime
        rw [hsame]
        exact htime hpc rfl
      · -- the line of the execution has the time of the incoming order
        cases List.mem_singleton.mp hτ
        exact htime hpc rfl
    · rintro p hp'
      cases hp'
      rw [hnext]
      exact hlt hpc rfl
    · intro id p hp'
      rw [horders] at hp'
      rw [hnext]
      unfold execOrders at hp'
      split at hp'
      · exact h.orders id p (get_remove hp')
      · exact h.orders id p hp'
  | @insert j curr hpc hthread hheap horders hnext hlog =>
    apply h.goes hthread hnext.ge (fun p _ => by rw [hheap]) hlog
    · intro τ hτ
      rw [Pc.times_of_job rfl rfl, hheap] at hτ
      cases List.mem_singleton.mp hτ
      exact htime hpc rfl
    · rintro p hp'
      cases hp'
      rw [hnext]
      exact hlt hpc rfl
    · intro id p hp'
      rw [horders] at hp'
      rw [hnext]
      rcases get_put hp' with hp' | rfl
      · exact h.orders id p hp'
      · exact hlt hpc rfl
  | @accept j curr hpc hthread hheap horders hnext hlog =>
    apply h.goes hthread hnext.ge (fun p _ => by rw [hheap]) hlog
    · intro τ hτ
      rw [Pc.times_of_job rfl rfl, hheap] at hτ
      cases List.mem_singleton.mp hτ
      exact htime hpc rfl
    · rintro p hp'
      cases hp'
      rw [hnext]
      exact hlt hpc rfl
    · intro id p hp'
      rw [horders] at hp'
      rw [hnext]
      exact h.orders id p (get_remove hp')
  | print hpc hs hj hj' hphase hl hearly hquiet =>
    subst hs
    apply (h.print (hline hpc hl)).goto
    · intro τ hτ
      rw [Pc.times_of_job hj' hquiet] at hτ
      cases List.mem_singleton.mp hτ
      rcases htime hpc hj with ⟨c, hc, hτ'⟩
      refine ⟨c, ?_, hτ'⟩
      show (Function.update s.thread t _ t).cmds.head? = some c
      rw [Function.update_self]
      exact hc
    · intro p hp'
      rw [Pc.ref_of_job' hj'] at hp'
      cases hp'
      exact hlt hpc hj
  | printLast hpc hl hphase hs =>
    subst hs
    exact (h.print (hline hpc hl)).ends ⟨rfl, rfl, rfl, rfl, rfl⟩
  | finish hphase hs => exact h.ends hs

theorem TimeInv.fault (h : TimeInv s) (hf : Faults s s') : TimeInv s' where
  onTime := by
    apply OnTime.mk
    · rw [hf.thread]
      exact h.onTime.history
    · rw [hf.thread]
      exact h.onTime.out
    · rw [hf.thread, hf.log]
      exact h.onTime.log
  times := by
    rw [hf.thread, hf.heap]
    exact h.times
  ref := by
    rw [hf.thread, hf.nextPtr]
    exact h.ref
  orders := by
    rw [hf.orders, hf.nextPtr]
    exact h.orders

namespace Sys

/-- The states that an interleaving reaches in which every cancel that finds its order was received
    at the time of the order. -/
inductive PunctualRun (heap : Heap N I) (cmds : T → List (Command N I)) : Sys N I T → Prop
  | init : PunctualRun heap cmds (init heap cmds)
  | step {s s' : Sys N I T} {t : T} (h : PunctualRun heap cmds s) (hp : Punctual s t)
      (hs : s.step t = some s') : PunctualRun heap cmds s'

theorem PunctualRun.timeInv {heap : Heap N I} {cmds : T → List (Command N I)}
    (h : PunctualRun heap cmds s) : TimeInv s := by
  induction h with
  | init => exact init_timeInv heap cmds
  | step h hp hs ih =>
    rcases Sys.step_or_faults hs with hstep | hfault
    · exact hstep.timeInv ih hp
    · exact ih.fault hfault

/-- The steps of these threads one after the other; one that is not possible is left out. -/
def run (s : Sys N I T) : List T → Sys N I T
  | [] => s
  | t :: ts => run ((s.step t).getD s) ts

theorem Reachable.run {heap : Heap N I} {cmds : T → List (Command N I)}
    (h : Reachable heap cmds s) (ts : List T) : Reachable heap cmds (s.run ts) := by
  induction ts generalizing s with
  | nil => exact h
  | cons t ts ih =>
    apply ih
    cases hs : s.step t with
    | none => exact h
    | some s' => exact h.step hs

/-- The condition at each of these steps. -/
def PunctualSteps (s : Sys N I T) : List T → Prop
  | [] => True
  | t :: ts => Punctual s t ∧ PunctualSteps ((s.step t).getD s) ts

instance decidablePunctualSteps (s : Sys N I T) : (ts : List T) → Decidable (s.PunctualSteps ts)
  | [] => isTrue trivial
  | t :: ts =>
    have := decidablePunctualSteps ((s.step t).getD s) ts
    inferInstanceAs (Decidable (_ ∧ _))

theorem PunctualRun.run {heap : Heap N I} {cmds : T → List (Command N I)}
    (h : PunctualRun heap cmds s) {ts : List T} (hts : s.PunctualSteps ts) :
    PunctualRun heap cmds (s.run ts) := by
  induction ts generalizing s with
  | nil => exact h
  | cons t ts ih =>
    rcases hts with ⟨hp, hts⟩
    cases hs : s.step t with
    | none =>
      rw [hs] at hts
      have hrun := ih h hts
      unfold Sys.run
      rw [hs]
      exact hrun
    | some s' =>
      rw [hs] at hts
      have hrun := ih (h.step hp hs) hts
      unfold Sys.run
      rw [hs]
      exact hrun

end Sys

end MatchingEngine.Cpp
