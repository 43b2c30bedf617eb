import MatchingEngine.Cpp.Deadlock
import MatchingEngine.Lib.Serial

/-!
# What the map holds

A line tells when an entry of `Engine::orders` was made or removed.  The entry for an order is what the
commands of the thread that sent it made of it, because its cancels come from that thread too.
-/

set_option linter.unusedSectionVars false

namespace MatchingEngine

/-- The line tells that an entry of the map of orders was made or removed. -/
def Line.binds {N I : Type} : Line N I → Bool
  | .added _ _ _ _ _ _ => true
  | .executed _ _ _ _ _ _ => false
  | .deleted _ accepted _ => accepted

/-- The id that the command is about. -/
def Command.orderId {N I : Type} : Command N I → UInt32
  | .order _ orderId _ _ _ _ => orderId
  | .cancel orderId _ => orderId

namespace Cpp

open LockChain PriceTime Serial

/-! ## What the lines say about the map -/

section Binds

variable {N I : Type}

/-- A command, and whether it changed the map. -/
def digest (x : Command N I × List (Line N I)) : Command N I × Bool := (x.1, x.2.any Line.binds)

/-- The entry for `id` after one more command. -/
def bind (id : UInt32) (entry : Option (InputType × UInt32 × UInt32 × I × ℤ)) :
    Command N I × Bool → Option (InputType × UInt32 × UInt32 × I × ℤ)
  | (.order sd orderId i price _ inputTime, true) =>
    if orderId = id then some (sideType sd, orderId, price, i, inputTime) else entry
  | (.cancel orderId _, true) => if orderId = id then none else entry
  | (_, false) => entry

/-- The entry for `id` after these commands. -/
def bound (id : UInt32) (l : List (Command N I × Bool)) :
    Option (InputType × UInt32 × UInt32 × I × ℤ) :=
  l.foldl (bind id) none

theorem bind_of_ne {id : UInt32} {x : Command N I × Bool} (h : x.1.orderId ≠ id)
    (entry : Option (InputType × UInt32 × UInt32 × I × ℤ)) : bind id entry x = entry := by
  rcases x with ⟨c, e⟩
  cases e with
  | false => cases c <;> rfl
  | true =>
    cases c with
    | order => exact if_neg h
    | cancel => exact if_neg h

theorem bound_append (id : UInt32) (l : List (Command N I × Bool)) (x : Command N I × Bool) :
    bound id (l ++ [x]) = bind id (bound id l) x := by
  unfold bound
  rw [List.foldl_append]
  rfl

/-- An entry was made by an order with its id. -/
theorem bound_eq_some {id : UInt32} {l : List (Command N I × Bool)}
    {h : InputType × UInt32 × UInt32 × I × ℤ} (hl : bound id l = some h) :
    h.2.1 = id ∧ ∃ x ∈ l, newId x.1 = some id := by
  induction l using List.reverseRecOn with
  | nil => cases hl
  | append_singleton l x ih =>
    have hkeep : bound id l = some h → h.2.1 = id ∧ ∃ y ∈ l ++ [x], newId y.1 = some id := by
      intro hl'
      rcases ih hl' with ⟨hid, y, hy, hnew⟩
      exact ⟨hid, y, List.mem_append_left _ hy, hnew⟩
    rw [bound_append] at hl
    rcases x with ⟨c, e⟩
    cases e with
    | false => cases c <;> exact hkeep hl
    | true =>
      cases c with
      | order sd orderId i price count inputTime =>
        change (if orderId = id then some (sideType sd, orderId, price, i, inputTime) else
          bound id l) = some h at hl
        split at hl
        next hid =>
          subst hid
          cases hl
          exact ⟨rfl, _, List.mem_append_right _ List.mem_cons_self, rfl⟩
        · exact hkeep hl
      | cancel orderId inputTime =>
        change (if orderId = id then none else bound id l) = some h at hl
        split at hl
        · cases hl
        · exact hkeep hl

theorem bound_eq_none {id : UInt32} {l : List (Command N I × Bool)}
    (h : ∀ x ∈ l, newId x.1 ≠ some id) : bound id l = none := by
  cases hl : bound id l with
  | none => rfl
  | some k =>
    rcases (bound_eq_some hl).2 with ⟨x, hx, hnew⟩
    exact absurd hnew (h x hx)

end Binds

section Exec

variable {N I : Type} [Quantity N] [DecidableEq I]

theorem fill_binds (o : Order N I) (rs : List (Order N I)) :
    (fill o rs).2.2.any Line.binds = false := by
  induction rs generalizing o with
  | nil => rfl
  | cons r rs ih =>
    rw [fill]
    split
    · rfl
    · split
      · rw [List.any_cons, ih]
        rfl
      · rfl

/-- Trades leave the map alone. -/
theorem matchLevels_binds (sd : Side) (o : Order N I) (lvs : List (Level N I)) :
    (matchLevels sd o lvs).2.2.any Line.binds = false := by
  induction lvs generalizing o with
  | nil => rfl
  | cons lv lvs ih =>
    rw [matchLevels]
    split
    · show ((fillLevel o lv).2.2 ++ (matchLevels sd (fillLevel o lv).2.1 lvs).2.2).any Line.binds = false
      rw [List.any_append, ih, Bool.or_false]
      exact fill_binds o _
    · rfl

namespace Books

variable {b : Books N I} {c : Command N I}

/-- A command changes the map as its lines tell. -/
theorem known_exec (hnew : ∀ id, newId c = some id → b.known id = none)
    (hkey : ∀ id h, b.known id = some h → h.2.1 = id) (id : UInt32) :
    (b.exec c).1.known id = bind id (b.known id) (digest (c, (b.exec c).2)) := by
  cases c with
  | order sd orderId i price count inputTime =>
    have hinc := matchLevels_incoming sd.opp (newOrder sd orderId i price count inputTime)
      (b.side i sd.opp).2
    have hbinds := matchLevels_binds sd.opp (newOrder sd orderId i price count inputTime)
      (b.side i sd.opp).2
    unfold exec digest
    dsimp only
    generalize matchLevels sd.opp (newOrder sd orderId i price count inputTime)
      (b.side i sd.opp).2 = r at hinc hbinds
    rcases r with ⟨next, o, out⟩
    dsimp only at hinc hbinds ⊢
    split
    · -- the rest of the order is booked
      have hheader : o.header = (sideType sd, orderId, price, i, inputTime) := by
        rw [hinc]
        rfl
      have hany : (out ++ [addLine sd o]).any Line.binds = true := by
        rw [List.any_append, hbinds]
        rfl
      rw [hany, HashMap.put_of_none _ (hnew orderId rfl), hheader]
      show Function.update b.known orderId _ id =
        if orderId = id then some (sideType sd, orderId, price, i, inputTime) else b.known id
      by_cases hid : orderId = id
      · subst hid
        rw [if_pos rfl, Function.update_self]
      · rw [if_neg hid, Function.update_of_ne fun h => hid h.symm]
    · rw [hbinds]
      rfl
  | cancel orderId inputTime =>
    unfold exec digest
    dsimp only
    cases hk : b.known orderId with
    | none => rfl
    | some h =>
      rcases h with ⟨type, orderId', price, i, time⟩
      have hid : orderId' = orderId := hkey orderId _ hk
      subst hid
      dsimp only
      generalize cancelLevels orderId' price
        (b.side i (if type = .buy then Side.buy else Side.sell)).2 = r
      rcases r with ⟨next, found⟩
      dsimp only
      cases found with
      | false => rfl
      | true =>
        show Function.update b.known orderId' none id = if orderId' = id then none else b.known id
        by_cases hid : orderId' = id
        · subst hid
          rw [if_pos rfl, Function.update_self]
        · rw [if_neg hid, Function.update_of_ne fun h => hid h.symm]

end Books

end Exec

/-! ## The commands of a thread -/

section Threads

variable {I T : Type} [DecidableEq I] [DecidableEq T] {s s' : Sys ℕ I T} {V V' : View I T} {t u : T}
  {cmds : T → List (Command ℕ I)} {pc : Pc ℕ I}

/-- Nobody else sends a cancel of an order. -/
def OwnCancels (cmds : T → List (Command ℕ I)) : Prop :=
  ∀ t u, t ≠ u → ∀ id inputTime, .cancel id inputTime ∈ cmds t → id ∉ (cmds u).filterMap newId

/-- No command of another thread is about the id of an order. -/
theorem OwnCancels.apart (hown : OwnCancels cmds) (hids : UniqueIds cmds) (hne : t ≠ u)
    {c : Command ℕ I} (hc : c ∈ cmds t) {id : UInt32} (hid : id ∈ (cmds u).filterMap newId) :
    c.orderId ≠ id := by
  rintro rfl
  cases c with
  | order side orderId instrument price count inputTime =>
    exact hids.apart t u hne orderId (List.mem_filterMap.mpr ⟨_, hc, rfl⟩) hid
  | cancel orderId inputTime => exact hown t u hne orderId inputTime hc hid

/-- What is finished and what is not are the commands of the thread. -/
def Sys.Split (cmds : T → List (Command ℕ I)) (s : Sys ℕ I T) (t : T) : Prop :=
  (s.thread t).history.map Prod.fst ++ (s.thread t).cmds = cmds t

/-- The map has been written; nothing but the mutex is left. -/
def Phase.bound : Phase → Bool
  | .added | .accepted => true
  | _ => false

theorem Phase.Next.eq_of_bound {p p' : Phase} (h : p.Next p') (hp : p.bound = true) : p' = p := by
  cases h with
  | same => rfl
  | _ => cases hp

/-- No line so far tells of a change of the map. -/
structure Plain (s : Sys ℕ I T) (t : T) : Prop where
  out : (s.thread t).pc.phase.bound = false → (s.thread t).out.any Line.binds = false
  printing : ∀ line, (s.thread t).pc.printing = some line → line.binds = false

theorem finish_split (th : Thread ℕ I) (out : List (Line ℕ I)) :
    (th.history ++ th.cmds.head?.toList.map fun c => (c, out)).map Prod.fst ++ th.cmds.tail =
      th.history.map Prod.fst ++ th.cmds := by
  rw [List.map_append, List.map_map, List.append_assoc]
  cases th.cmds with
  | nil => rfl
  | cons c cs => rfl

theorem Stepped.split (hs : Stepped s s' t) (h : s.Split cmds t) : s'.Split cmds t := by
  unfold Sys.Split at *
  cases hs with
  | readOrder hpc hcmd hs | readCancel hpc hcmd hs | miss hpc hget hs | hit hpc hget hs
  | aim hpc hs =>
    subst hs
    simp only [Sys.goto, Function.update_self]
    exact h
  | go hpc hs hj hj' hphase hquiet =>
    rw [hs.thread, Function.update_self]
    exact h
  | exec hpc hthread hcount hheap horders hnext hlog
  | insert hpc hthread hheap horders hnext hlog | accept hpc hthread hheap horders hnext hlog =>
    rw [hthread, Function.update_self]
    exact h
  | print hpc hs hj hj' hphase hline hearly hquiet =>
    subst hs
    simp only [Sys.goto, Sys.print, Function.update_self]
    exact h
  | @printLast pc line hpc hline hphase hs =>
    subst hs
    simp only [Sys.finish, Sys.print, Function.update_self]
    rw [finish_split { s.thread t with out := (s.thread t).out ++ [line] }]
    exact h
  | finish hphase hs =>
    rw [hs.thread, Function.update_self]
    dsimp only
    rw [finish_split]
    exact h

theorem Phase.Next.bound_eq {p p' : Phase} (h : p.Next p') : p'.bound = p.bound := by
  cases h with
  | _ => rfl

theorem Phase.Next.aiming {p p' : Phase} (h : p.Next p') (hp : p' = .aiming) : p = .aiming := by
  cases h with
  | same => exact hp
  | _ => cases hp

theorem lines_plain (h : Plain s t) (hbound : (s.thread t).pc.phase.bound = false)
    (heap : Heap ℕ I) :
    ((s.thread t).pc.lines heap).any Line.binds = false := by
  have hprinting := h.printing
  cases hpc : (s.thread t).pc with
  | matchPrint j v curr its k line =>
    rw [hpc] at hprinting
    show (line.binds || false) = false
    rw [hprinting line rfl]
    rfl
  | addPrint j curr =>
    rw [hpc] at hbound
    cases hbound
  | printAccepted j curr =>
    rw [hpc] at hbound
    cases hbound
  | unlockHead j curr => cases curr <;> rfl
  | cancelTest j curr => cases curr <;> rfl
  | _ => rfl

theorem Plain.own (h : Plain s t) (hs : Stepped s s' t) : Plain s' t := by
  cases hs with
  | readOrder hpc hcmd hs | readCancel hpc hcmd hs | miss hpc hget hs | hit hpc hget hs
  | aim hpc hs =>
    subst hs
    have hout := h.out (by rw [hpc]; rfl)
    constructor
    · intro _
      simp only [Sys.goto, Function.update_self]
      exact hout
    · intro line hline
      simp only [Sys.goto, Function.update_self] at hline
      cases hline
  | go hpc hs hj hj' hphase hquiet =>
    constructor
    · rw [hs.thread, Function.update_self]
      intro hbound
      apply h.out
      rw [hpc]
      by_contra hnot
      rw [hphase.eq_of_bound (Bool.eq_true_of_not_eq_false hnot)] at hbound
      exact hnot hbound
    · rw [hs.thread, Function.update_self]
      intro line hline
      dsimp only at hline
      rw [hquiet] at hline
      cases hline
  | exec hpc hthread hcount hheap horders hnext hlog =>
    constructor
    · rw [hthread, Function.update_self]
      intro _
      exact h.out (by rw [hpc]; rfl)
    · rw [hthread, Function.update_self]
      intro line hline
      cases hline
      rfl
  | insert hpc hthread hheap horders hnext hlog =>
    constructor
    · rw [hthread, Function.update_self]
      exact fun hbound => (by cases hbound)
    · rw [hthread, Function.update_self]
      intro line hline
      cases hline
  | accept hpc hthread hheap horders hnext hlog =>
    constructor
    · rw [hthread, Function.update_self]
      exact fun hbound => (by cases hbound)
    · rw [hthread, Function.update_self]
      intro line hline
      cases hline
  | print hpc hs hj hj' hphase hline hearly hquiet =>
    subst hs
    simp only [Sys.goto, Sys.print, Function.update_self]
    constructor
    · simp only [Function.update_self]
      intro hbound
      rw [hphase, ← hpc] at hbound
      have hlines := lines_plain h hbound s.heap
      rw [hpc, hline] at hlines
      rw [List.any_append, h.out hbound, hlines]
      rfl
    · simp only [Function.update_self]
      intro line' hline'
      rw [hquiet] at hline'
      cases hline'
  | printLast hpc hline hphase hs =>
    subst hs
    simp only [Sys.finish, Sys.print]
    constructor
    · simp only [Function.update_self]
      exact fun _ => rfl
    · simp only [Function.update_self]
      intro line' hline'
      cases hline'
  | finish hphase hs =>
    constructor
    · rw [hs.thread, Function.update_self]
      exact fun _ => rfl
    · rw [hs.thread, Function.update_self]
      intro line' hline'
      cases hline'

/-! ## The map -/

theorem Sys.Split.mem (h : s.Split cmds t) {c : Command ℕ I} (hc : (s.thread t).cmds.head? = some c) :
    c ∈ cmds t := by
  rw [← h]
  exact List.mem_append_right _ (List.mem_of_mem_head? hc)

theorem Told.orderId (h : Told s t) {j : Job I} (hj : (s.thread t).pc.job = some j)
    (hphase : (s.thread t).pc.phase.ordering = true ∨ (s.thread t).pc.phase.targeting = true) :
    ∃ c, (s.thread t).cmds.head? = some c ∧ c.orderId = (s.heap j.order).orderId := by
  rcases hphase with hphase | hphase
  · rcases h.order j hj hphase with ⟨count, hcmd, -⟩
    exact ⟨_, hcmd, rfl⟩
  · rcases h.cancel j.order (Pc.ref_of_job hj) hphase with ⟨inputTime, hcmd⟩
    exact ⟨_, hcmd, rfl⟩

/-- Only the entry of the command in progress changes. -/
theorem Stepped.orders_of_ne (hs : Stepped s s' t) (hk : Told s t) {id : UInt32}
    (hid : ∀ c, (s.thread t).cmds.head? = some c → c.orderId ≠ id) : s'.orders id = s.orders id := by
  cases hs with
  | readOrder hpc hcmd hs | readCancel hpc hcmd hs | miss hpc hget hs | hit hpc hget hs
  | aim hpc hs =>
    subst hs
    rfl
  | go hpc hs hj hj' hphase hquiet => rw [hs.orders]
  | exec hpc hthread hcount hheap horders hnext hlog =>
    rcases hk.orderId (by rw [hpc]; rfl) (by rw [hpc]; exact Or.inl rfl) with ⟨c, hc, heq⟩
    rw [horders]
    unfold execOrders
    split
    · exact Function.update_of_ne (fun h => hid c hc (heq.trans h.symm)) ..
    · rfl
  | insert hpc hthread hheap horders hnext hlog =>
    rcases hk.orderId (by rw [hpc]; rfl) (by rw [hpc]; exact Or.inl rfl) with ⟨c, hc, heq⟩
    rw [horders]
    exact HashMap.put_of_ne _ _ fun h => hid c hc (heq.trans h.symm)
  | accept hpc hthread hheap horders hnext hlog =>
    rcases hk.orderId (by rw [hpc]; rfl) (by rw [hpc]; exact Or.inr rfl) with ⟨c, hc, heq⟩
    rw [horders]
    exact Function.update_of_ne (fun h => hid c hc (heq.trans h.symm)) ..
  | print hpc hs hj hj' hphase hline hearly hquiet | printLast hpc hline hphase hs =>
    subst hs
    rfl
  | finish hphase hs => rw [hs.orders]

/-- Every object is an order of some thread. -/
def Sys.Sent (cmds : T → List (Command ℕ I)) (s : Sys ℕ I T) : Prop :=
  ∀ p < s.nextPtr, ∃ t, (s.heap p).orderId ∈ (cmds t).filterMap newId

theorem Stepped.sent (hs : Stepped s s' t) (hsplit : s.Split cmds t) (h : s.Sent cmds) :
    s'.Sent cmds := by
  have hold : ∀ p < s.nextPtr, ∃ t, (s'.heap p).orderId ∈ (cmds t).filterMap newId := by
    intro p hp
    have hheader := hs.header hp
    simp only [Order.header, Prod.mk.injEq] at hheader
    rw [hheader.2.1]
    exact h p hp
  have hsame : s'.nextPtr = s.nextPtr → s'.Sent cmds := by
    intro hnext p hp
    rw [hnext] at hp
    exact hold p hp
  cases hs with
  | readOrder hpc hcmd hs =>
    intro p hp
    rcases Nat.lt_succ_iff_lt_or_eq.mp (show p < s.nextPtr + 1 by rw [hs] at hp; exact hp) with
      hlt | rfl
    · exact hold p hlt
    · refine ⟨t, List.mem_filterMap.mpr ⟨_, hsplit.mem hcmd, ?_⟩⟩
      rw [hs]
      show some _ = some (Function.update s.heap s.nextPtr _ s.nextPtr).orderId
      rw [Function.update_self]
      rfl
  | readCancel hpc hcmd hs | miss hpc hget hs | hit hpc hget hs | aim hpc hs =>
    exact hsame (by rw [hs]; rfl)
  | go hpc hs hj hj' hphase hquiet => exact hsame hs.nextPtr
  | exec hpc hthread hcount hheap horders hnext hlog
  | insert hpc hthread hheap horders hnext hlog | accept hpc hthread hheap horders hnext hlog =>
    exact hsame hnext
  | print hpc hs hj hj' hphase hline hearly hquiet | printLast hpc hline hphase hs =>
    exact hsame (by rw [hs]; rfl)
  | finish hphase hs => exact hsame hs.nextPtr

/-- The commands of the thread that the map shows already. -/
def shown (s : Sys ℕ I T) (V : View I T) (t : T) : List (Command ℕ I × Bool) :=
  (if (s.thread t).pc.phase.bound then account s V t else (s.thread t).history).map digest

/-- What the map says about the orders of thread `t`, and about the one its cancel looks for. -/
structure Mapped (cmds : T → List (Command ℕ I)) (s : Sys ℕ I T) (V : View I T) (t : T) : Prop where
  entry : ∀ id ∈ (cmds t).filterMap newId,
    (s.orders id).map (fun p => (s.heap p).header) = bound id (shown s V t)
  aimed : ∀ p, (s.thread t).pc.ref = some p → (s.thread t).pc.phase = .aiming →
    bound (s.heap p).orderId ((s.thread t).history.map digest) ≠ none

/-- The entries that a step leaves alone say what they said. -/
theorem Inv.entry_congr (h : Inv s V) (hs : Stepped s s' t) {id : UInt32}
    (horders : s'.orders id = s.orders id) :
    (s'.orders id).map (fun p => (s'.heap p).header) =
      (s.orders id).map fun p => (s.heap p).header := by
  rw [horders]
  cases ho : s.orders id with
  | none => rfl
  | some p =>
    have hp := (h.objs.mapped id p ho).1
    rw [Option.map_some, Option.map_some, hs.header hp]

theorem Mapped.other (h : Mapped cmds s V u) (hinv : Inv s V) (hs : Stepped s s' t) (hne : t ≠ u)
    (hk : Told s t) (hsplit : s.Split cmds t) (hown : OwnCancels cmds) (hids : UniqueIds cmds)
    (haccount : account s' V' u = account s V u) : Mapped cmds s' V' u := by
  have hthread := hs.other (Ne.symm hne)
  constructor
  · intro id hid
    have horders : s'.orders id = s.orders id :=
      hs.orders_of_ne hk fun c hc => hown.apart hids hne (hsplit.mem hc) hid
    rw [hinv.entry_congr hs horders, h.entry id hid]
    unfold shown
    rw [hthread, haccount]
  · rw [hthread]
    intro p hp hphase
    have hheader := hs.header (hinv.objs.ref u p hp)
    simp only [Order.header, Prod.mk.injEq] at hheader
    rw [hheader.2.1]
    exact h.aimed p hp hphase

theorem shown_of_bound (h : (s.thread t).pc.phase.bound = true) :
    shown s V t = (account s V t).map digest := by
  unfold shown
  rw [h, if_pos rfl]

theorem shown_of_not_bound (h : (s.thread t).pc.phase.bound = false) :
    shown s V t = (s.thread t).history.map digest := by
  unfold shown
  rw [h, if_neg Bool.false_ne_true]

theorem account_of_idle (h : (s.thread t).pc.entered = false) :
    account s V t = (s.thread t).history := by
  unfold account
  rw [h]
  exact List.append_nil _

/-- A command that left the map alone adds nothing to what is shown of it. -/
theorem bound_finish {th : Thread ℕ I} {out : List (Line ℕ I)} (h : out.any Line.binds = false)
    (id : UInt32) :
    bound id ((th.history ++ th.cmds.head?.toList.map fun c => (c, out)).map digest) =
      bound id (th.history.map digest) := by
  cases hc : th.cmds.head? with
  | none => simp
  | some c =>
    have hdigest : digest (c, out) = (c, false) := by
      unfold digest
      rw [h]
    rw [List.map_append, Option.toList_some, List.map_singleton, List.map_singleton, bound_append,
      hdigest]
    cases c <;> rfl

/-- The new order is not in the map before it is inserted. -/
theorem Inv.orders_flying (h : Inv s V) {j : Job I} (hj : (s.thread t).pc.job = some j)
    (hfl : (s.thread t).pc.inFlight = some j.order) : s.orders (s.heap j.order).orderId = none := by
  cases ho : s.orders (s.heap j.order).orderId with
  | none => rfl
  | some q =>
    rcases h.objs.mapped _ q ho with ⟨hq, hid, -⟩
    have heq := h.objs.ids q j.order hq (h.objs.ref t _ (Pc.ref_of_job hj)) hid
    subst heq
    exact absurd ho ((h.objs.flying t _ hfl).2.2 _)

theorem Mapped.own (h : Mapped cmds s V t) (hinv : Inv s V) (hs : Stepped s s' t) (hk : Told s t)
    (hp : Plain s t) (hsplit : s.Split cmds t) (hsent : s.Sent cmds) (hown : OwnCancels cmds)
    (haccount : (s.thread t).pc.phase.early = false → account s' V' t = account s V t) :
    Mapped cmds s' V' t := by
  -- a step that leaves alone what is shown, and the map with it
  have stay : ((s'.thread t).pc.phase = .aiming → (s.thread t).pc.phase = .aiming ∧
        (s'.thread t).pc.ref = (s.thread t).pc.ref ∧ (s'.thread t).history = (s.thread t).history) →
      (∀ id, s'.orders id = s.orders id) →
      (∀ id, bound id (shown s' V' t) = bound id (shown s V t)) → Mapped cmds s' V' t := by
    intro haim horders hshown
    constructor
    · intro id hid
      rw [hinv.entry_congr hs (horders id), h.entry id hid, hshown]
    · intro p hpref hphase
      rcases haim hphase with ⟨hphase, href, hhist⟩
      rw [href] at hpref
      have hheader := hs.header (hinv.objs.ref t p hpref)
      simp only [Order.header, Prod.mk.injEq] at hheader
      rw [hheader.2.1, hhist]
      exact h.aimed p hpref hphase
  -- in particular one before the map is written
  have early : (s'.thread t).history = (s.thread t).history →
      (s.thread t).pc.phase.bound = false → (s'.thread t).pc.phase.bound = false →
      ∀ id, bound id (shown s' V' t) = bound id (shown s V t) := by
    intro hhist hbound hbound' id
    rw [shown_of_not_bound hbound, shown_of_not_bound hbound', hhist]
  cases hs with
  | readOrder hpc hcmd hs | readCancel hpc hcmd hs | miss hpc hget hs =>
    have hself : ∃ pc', s'.thread t = { s.thread t with pc := pc' } ∧ pc'.phase ≠ .aiming ∧
        pc'.phase.bound = false := by
      rw [hs]
      exact ⟨_, Function.update_self .., (by rintro ⟨⟩), rfl⟩
    rcases hself with ⟨pc', hself, haim, hbound⟩
    apply stay
    · rw [hself]
      exact fun hphase => absurd hphase haim
    · rw [hs]
      exact fun _ => rfl
    · exact early (by rw [hself]) (by rw [hpc]; rfl) (by rw [hself]; exact hbound)
  | @hit orderId inputTime order hpc hget hs =>
    have hself : s'.thread t = { s.thread t with pc := .getBookOf order } := by
      rw [hs]
      exact Function.update_self ..
    have hshown : shown s V t = (s.thread t).history.map digest :=
      shown_of_not_bound (by rw [hpc]; rfl)
    constructor
    · intro id hid
      rw [shown_of_not_bound (by rw [hself]; rfl), hself, hs]
      show (s.orders id).map (fun p => (s.heap p).header) = _
      rw [h.entry id hid, hshown]
    · rw [hself]
      intro p hpref _
      cases hpref
      rcases hinv.objs.mapped _ _ hget with ⟨hlt, hid, -⟩
      -- the cancel is one of an own order, so the map tells what the own commands did
      have hmem : orderId ∈ (cmds t).filterMap newId := by
        rcases hsent order hlt with ⟨u, hu⟩
        rw [hid] at hu
        by_cases hut : u = t
        · rwa [hut] at hu
        · exact absurd hu (hown t u (Ne.symm hut) orderId inputTime
            (hsplit.mem (hk.lookup _ _ (Or.inl hpc))))
      have hentry := h.entry orderId hmem
      rw [hget, hshown] at hentry
      rw [hs]
      show bound (s.heap order).orderId _ ≠ none
      rw [hid, ← hentry]
      rintro ⟨⟩
  | @aim order hpc hs =>
    have hself : ∃ pc', s'.thread t = { s.thread t with pc := pc' } ∧
        pc'.ref = (s.thread t).pc.ref ∧ pc'.phase.bound = false := by
      rw [hs, hpc]
      exact ⟨_, Function.update_self .., rfl, rfl⟩
    rcases hself with ⟨pc', hself, href, hbound⟩
    apply stay
    · rw [hself]
      exact fun _ => ⟨by rw [hpc]; rfl, href, rfl⟩
    · rw [hs]
      exact fun _ => rfl
    · exact early (by rw [hself]) (by rw [hpc]; rfl) (by rw [hself]; exact hbound)
  | @go j _ pc' hpc hs hj hj' hphase hquiet =>
    have hself : s'.thread t = { s.thread t with pc := pc' } := by
      rw [hs.thread]
      exact Function.update_self ..
    apply stay
    · rw [hself]
      intro haim
      refine ⟨by rw [hpc]; exact hphase.aiming haim, ?_, rfl⟩
      rw [hpc, Pc.ref_of_job hj]
      exact Pc.ref_of_job hj'
    · rw [hs.orders]
      exact fun _ => rfl
    · cases hbound : (s.thread t).pc.phase.bound with
      | false =>
        apply early (by rw [hself]) hbound
        rw [hself]
        rw [hpc] at hbound
        exact hphase.bound_eq.trans hbound
      | true =>
        have heq := hphase.eq_of_bound (by rw [← hpc]; exact hbound)
        have hnot : (s.thread t).pc.phase.early = false := by
          cases hp : (s.thread t).pc.phase <;> rw [hp] at hbound <;> first | rfl | cases hbound
        intro id
        rw [shown_of_bound hbound, shown_of_bound, haccount hnot]
        rw [hself]
        dsimp only
        rw [heq, ← hpc]
        exact hbound
  | exec hpc hthread hcount hheap horders hnext hlog =>
    have hself := congrFun hthread t
    rw [Function.update_self] at hself
    apply stay
    · rw [hself]
      rintro ⟨⟩
    · intro id
      rw [horders]
      unfold execOrders
      split
      · rw [HashMap.remove_of_none (hinv.orders_flying (by rw [hpc]; rfl) (by rw [hpc]; rfl))]
      · rfl
    · exact early (by rw [hself]) (by rw [hpc]; rfl) (by rw [hself]; rfl)
  | @insert j curr hpc hthread hheap horders hnext hlog =>
    have hself := congrFun hthread t
    rw [Function.update_self] at hself
    have hjob := hinv.objs.job t j (by rw [hpc]; rfl)
    have hnone := hinv.orders_flying (t := t) (j := j) (by rw [hpc]; rfl) (by rw [hpc]; rfl)
    rcases hk.order j (by rw [hpc]; rfl) (by rw [hpc]; rfl) with ⟨count, hcmd, -⟩
    have hshown : shown s' V' t = (s.thread t).history.map digest ++
        [(.order j.side (s.heap j.order).orderId j.book (s.heap j.order).price count
          (s.heap j.order).inputTime, true)] := by
      have hany : (promise s' V' t).any Line.binds = true := by
        unfold promise
        rw [hself]
        dsimp only [Pc.lines]
        rw [List.any_append, List.any_append]
        simp [addLine, Line.binds]
      rw [shown_of_bound (by rw [hself]; rfl)]
      unfold account
      rw [hself]
      simp only [Pc.entered, if_true, hcmd, Option.toList_some, List.map_append, List.map_cons,
        List.map_nil, digest, hany]
    constructor
    · intro id hid
      rw [hshown, bound_append, horders, hheap, HashMap.put_of_none _ hnone]
      have hentry := h.entry id hid
      rw [shown_of_not_bound (by rw [hpc]; rfl)] at hentry
      show _ = if (s.heap j.order).orderId = id then some _ else _
      by_cases heq : (s.heap j.order).orderId = id
      · rw [if_pos heq, ← heq, Function.update_self, Option.map_some, Order.header, hjob.1, hjob.2]
      · rw [if_neg heq, Function.update_of_ne (Ne.symm heq), hentry]
    · rw [hself]
      intro p _ hphase
      cases hphase
  | @accept j curr hpc hthread hheap horders hnext hlog =>
    have hself := congrFun hthread t
    rw [Function.update_self] at hself
    rcases hk.cancel j.order (by rw [hpc]; rfl) (by rw [hpc]; rfl) with ⟨inputTime, hcmd⟩
    have hshown : shown s' V' t = (s.thread t).history.map digest ++
        [(.cancel (s.heap j.order).orderId inputTime, true)] := by
      have hany : (promise s' V' t).any Line.binds = true := by
        unfold promise
        rw [hself]
        dsimp only [Pc.lines]
        rw [List.any_append, List.any_append]
        simp [deletedLine, Line.binds]
      rw [shown_of_bound (by rw [hself]; rfl)]
      unfold account
      rw [hself]
      simp only [Pc.entered, if_true, hcmd, Option.toList_some, List.map_append, List.map_cons,
        List.map_nil, digest, hany]
    constructor
    · intro id hid
      rw [hshown, bound_append, horders, hheap]
      have hentry := h.entry id hid
      rw [shown_of_not_bound (by rw [hpc]; rfl)] at hentry
      show _ = if (s.heap j.order).orderId = id then none else _
      by_cases heq : (s.heap j.order).orderId = id
      · rw [if_pos heq, ← heq]
        show (Function.update s.orders _ none _).map _ = none
        rw [Function.update_self]
        rfl
      · rw [if_neg heq, ← hentry]
        show (Function.update s.orders _ none id).map _ = _
        rw [Function.update_of_ne (Ne.symm heq)]
    · rw [hself]
      intro p _ hphase
      cases hphase
  | @print j pc pc' line hpc hs hj hj' hphase hline hearly hquiet =>
    have hself : s'.thread t = { s.thread t with pc := pc', out := (s.thread t).out ++ [line] } := by
      rw [hs]
      simp only [Sys.goto, Sys.print, Function.update_self]
    apply stay
    · rw [hself]
      intro haim
      dsimp only at haim
      rw [hphase] at haim
      rw [haim] at hearly
      cases hearly
    · rw [hs]
      exact fun _ => rfl
    · cases hbound : (s.thread t).pc.phase.bound with
      | false =>
        apply early (by rw [hself]) hbound
        rw [hself]
        dsimp only
        rw [hphase, ← hpc]
        exact hbound
      | true =>
        intro id
        rw [shown_of_bound hbound, shown_of_bound, haccount (by rw [hpc]; exact hearly)]
        rw [hself]
        dsimp only
        rw [hphase, ← hpc]
        exact hbound
  | @printLast pc line hpc hline hphase hs =>
    have hbound : (s.thread t).pc.phase.bound = false := by
      rw [hpc]
      rcases hphase with hphase | hphase <;> rw [hphase] <;> rfl
    have hbinds : ((s.thread t).out ++ [line]).any Line.binds = false := by
      have hlines := lines_plain hp hbound s.heap
      rw [hpc, hline] at hlines
      rw [List.any_append, hp.out hbound, hlines]
      rfl
    have hself : (s'.thread t).pc = .ready ∧ (s'.thread t).history = (s.thread t).history ++
        (s.thread t).cmds.head?.toList.map fun c => (c, (s.thread t).out ++ [line]) := by
      rw [hs]
      simp only [Sys.finish, Sys.print, Function.update_self]
      exact ⟨trivial, trivial⟩
    apply stay
    · rw [hself.1]
      rintro ⟨⟩
    · rw [hs]
      exact fun _ => rfl
    · intro id
      rw [shown_of_not_bound (by rw [hself.1]; rfl), shown_of_not_bound hbound, hself.2,
        bound_finish hbinds]
  | finish hphase hs =>
    have hself := congrFun hs.thread t
    rw [Function.update_self] at hself
    apply stay
    · rw [hself]
      rintro ⟨⟩
    · rw [hs.orders]
      exact fun _ => rfl
    · intro id
      have hshown : shown s' V' t = (s'.thread t).history.map digest :=
        shown_of_not_bound (by rw [hself]; rfl)
      rcases hphase with ⟨hphase, -⟩ | hphase
      · have hbound : (s.thread t).pc.phase.bound = false := by
          rw [hphase]
          rfl
        rw [hshown, hself, shown_of_not_bound hbound, bound_finish (hp.out hbound)]
      · have hbound : (s.thread t).pc.phase.bound = true ∧ (s.thread t).pc.phase.early = false := by
          rcases hphase with hphase | hphase <;> rw [hphase] <;> exact ⟨rfl, rfl⟩
        have hacc : account s' V' t = (s'.thread t).history :=
          account_of_idle (by rw [hself]; rfl)
        rw [hshown, shown_of_bound hbound.1, ← haccount hbound.2, hacc]

end Threads

end Cpp

end MatchingEngine
