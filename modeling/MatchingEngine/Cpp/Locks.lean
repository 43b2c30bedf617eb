import MatchingEngine.Cpp.Cells

/-!
# Who holds what

`Pc.block` says for each place a thread can stand which stretch of a chain it has locked, what it
knows about the nodes of the stretch and what it still has to do there.  `Inv` is the invariant of
the threaded engine.  `Move` describes a step of a thread that touches one stretch of one chain, and
`Inv.move` shows that nothing else needs to be looked at.
-/

set_option linter.unusedSectionVars false

namespace MatchingEngine.Cpp

open LockChain

namespace Pc

variable {N I : Type}

def job : Pc N I → Option (Job I)
  | .ready | .getOrder _ _ | .printMiss _ _ | .getBookOf _ => none
  | .getBook j | .putBook j | .lockBook j | .lockMatchHead j | .walk j _ _ | .walkBreak j _ _
  | .lockAddHead j _ | .unlockBook j _ | .matchHead j _ | .matchTest j _ _ | .matchNode j _ _ _ _
  | .matchPrint j _ _ _ _ _ | .addWalk j _ _ | .addBreak j _ _ | .addFound j _ _ | .addOn j _ _
  | .addPlace j _ | .addLinked j _ _ | .addInsert j _ | .addPrint j _ | .addUnlock j _
  | .lockHead j | .lockFirst j | .unlockHead j _ | .cancelTest j _ | .cancelOn j _ _
  | .cancelEnd j _ | .cancelMissed j _ | .printRejected j | .printAccepted j _
  | .cancelUnlock j _ => some j

/-- The pointer a thread works with. -/
def ref : Pc N I → Option OrderPtr
  | .getBookOf order => some order
  | pc => pc.job.map Job.order

/-- The new order that is not in a book yet. -/
def inFlight : Pc N I → Option OrderPtr
  | .getBook j | .putBook j | .lockBook j | .lockMatchHead j | .walk j _ _ | .walkBreak j _ _
  | .lockAddHead j _ | .unlockBook j _ | .matchHead j _ | .matchTest j _ _ | .matchNode j _ _ _ _
  | .matchPrint j _ _ _ _ _ | .addWalk j _ _ | .addBreak j _ _ | .addFound j _ _ | .addOn j _ _
  | .addPlace j _ | .addLinked j _ _ | .addInsert j _ => some j.order
  | _ => none

/-- The book whose mutex `m` is locked. -/
def bookLocked : Pc N I → Option I
  | .lockMatchHead j | .walk j _ _ | .walkBreak j _ _ | .lockAddHead j _ | .unlockBook j _ =>
    some j.book
  | _ => none

end Pc

/-- The commands a thread has not read yet. -/
def Thread.todo {N I : Type} (th : Thread N I) : List (Command N I) :=
  match th.pc with
  | .ready => th.cmds
  | _ => th.cmds.tail

variable {I T : Type} [DecidableEq I] [DecidableEq T]

/-! ## The blocks -/

section Blocks

variable (sd : Side) (o : Order ℕ I) (v : ℤ) (cells : List (Cell I T))
  (nxt : Option (Addr × UInt32))

/-- The walk over the volumes has come this far. -/
def Walked : Prop :=
  (∃ c as, cells = c :: as ∧ c.addr = 0 ∧ Passed sd o.price o.count as ∧
    left o.count as = v.toNat) ∧
  ∀ c ∈ cells, c.pend = .none

/-- Trades for `q` of the order are pending at these nodes. -/
def Going (q : ℕ) : Prop :=
  Passed sd o.price q cells ∧ Queued o q cells ∧ left q cells = v.toNat ∧
    Ended sd o.price v.toNat nxt

/-- `add` may put its order behind this node. -/
def Behind (c : Cell I T) : Prop := c.addr = 0 ∨ sd.Better c.node.price o.price

/-- The order, once matched, is to be booked from the head on. -/
def Booking : Prop :=
  if 0 < v then
    ∃ c, cells = [c] ∧ c.addr = 0 ∧ c.pend = .add sd { o with count := v.toNat }
  else cells = []

/-- Two nodes, with what is pending at each. -/
def Pair (curr next : Addr) (p q : Pend I) (P : Cell I T → Cell I T → Prop) : Prop :=
  ∃ c d, cells = [c, d] ∧ c.addr = curr ∧ d.addr = next ∧ c.pend = p ∧ d.pend = q ∧ P c d

def Single (curr : Addr) (p : Pend I) (P : Cell I T → Prop) : Prop :=
  ∃ c, cells = [c] ∧ c.addr = curr ∧ c.pend = p ∧ P c

def Order.cancelNext (o : Order ℕ I) : Pend I := .cancelNext o.orderId o.price o.inputTime

def Order.cancel (o : Order ℕ I) : Pend I := .cancel o.orderId o.price o.inputTime

end Blocks

namespace Pc

variable (pc : Pc ℕ I) (o : Order ℕ I) (cells : List (Cell I T)) (nxt : Option (Addr × UInt32))

/-- The stretch of the chain the order `o` is matched with. -/
def oppBlock (sd : Side) : Prop :=
  match pc with
  | .walk _ v curr => Walked sd o v cells ∧ nxt.map Prod.fst = curr
  | .walkBreak _ v curr =>
    ∃ as c, cells = as ++ [c] ∧ c.addr = curr ∧ c.pend = .none ∧ Walked sd o v as ∧ 0 < v ∧
      ¬ sd.Crosses o.price c.node.price
  | .lockAddHead _ v => Walked sd o v cells ∧ Ended sd o.price v.toNat nxt ∧ 0 < v
  | .unlockBook _ v => Walked sd o v cells ∧ Ended sd o.price v.toNat nxt
  | .matchHead _ v =>
    ∃ c as, cells = c :: as ∧ c.addr = 0 ∧ c.pend = .none ∧ Going sd o v as nxt o.count
  | .matchTest _ v curr =>
    Going sd o v cells nxt o.count ∧
      curr = (cells.map Cell.addr ++ (nxt.map Prod.fst).toList).head?
  | .matchNode _ v curr its k | .matchPrint _ v curr its k _ =>
    ∃ c as, cells = c :: as ∧ c.addr = curr ∧ c.pend = .fill o k ∧ k ≤ c.orders.length ∧
      (o.count = 0 ∨ its = c.node.orders.reverse.drop k) ∧
      sd.Crosses o.price c.node.price ∧ Going sd o v as nxt (o.count - c.node.volume)
  | _ => cells = []

/-- The stretch of the chain the order `o` is booked in or cancelled from. -/
def ownBlock : Prop :=
  match pc with
  | .unlockBook _ v =>
    if 0 < v then ∃ c, cells = [c] ∧ c.addr = 0 ∧ c.pend = .none else cells = []
  | .matchHead j v | .matchTest j v _ | .matchNode j v _ _ _ | .matchPrint j v _ _ _ _ =>
    Booking j.side o v cells
  | .addWalk j curr next =>
    Single cells curr (.add j.side o) (Behind j.side o) ∧ nxt.map Prod.fst = next
  | .addBreak j curr next =>
    Pair cells curr next (.place j.side o) .none fun c d =>
      Behind j.side o c ∧ j.side.Better o.price d.node.price
  | .addFound j curr next =>
    Pair cells curr next .none (.place j.side o) fun _ d => o.price = d.node.price
  | .addOn j curr next =>
    Pair cells curr next .none (.add j.side o) fun _ d => j.side.Better d.node.price o.price
  | .addPlace j curr =>
    Single cells curr (.place j.side o) fun c =>
      o.price = c.node.price ∨
        Behind j.side o c ∧ ∀ k, nxt = some k → j.side.Better o.price k.2
  | .addLinked j prev curr =>
    Pair cells prev curr .none (.insert j.side o) fun _ d => o.price = d.node.price
  | .addInsert j curr => Single cells curr (.insert j.side o) fun c => o.price = c.node.price
  | .addPrint j curr | .addUnlock j curr =>
    Single cells curr .none fun c => j.order ∈ c.node.orders
  | .lockFirst _ => Single cells 0 o.cancelNext fun _ => True
  | .unlockHead _ none => Single cells 0 .none fun _ => True
  | .unlockHead _ (some curr) => Pair cells 0 curr .none o.cancel fun _ _ => True
  | .cancelTest _ (some curr) => Single cells curr o.cancel fun _ => True
  | .cancelOn _ curr next => Pair cells curr next .none o.cancel fun _ _ => True
  | .cancelEnd _ curr | .cancelMissed _ curr | .printAccepted _ curr | .cancelUnlock _ curr =>
    Single cells curr .none fun _ => True
  | _ => cells = []

/-- The stretch of the chain on side `sd` of instrument `i`. -/
def block (heap : Heap ℕ I) (i : I) (sd : Side) : Prop :=
  match pc.job with
  | none => cells = []
  | some j =>
    if i = j.book then
      if sd = j.side then pc.ownBlock (heap j.order) cells nxt
      else pc.oppBlock (heap j.order) cells nxt sd
    else cells = []

end Pc

/-! ## The invariant -/

/-- The objects and where they are. -/
structure Objs (s : Sys ℕ I T) (V : View I T) : Prop where
  nodup : ∀ i sd, (ptrs (V i sd)).Nodup
  place : ∀ i sd, ∀ p ∈ ptrs (V i sd), p < s.nextPtr ∧ (s.heap p).type = sideType sd ∧
    (s.heap p).instrument = i
  type : ∀ p < s.nextPtr, ∃ sd, (s.heap p).type = sideType sd
  ref : ∀ t p, (s.thread t).pc.ref = some p → p < s.nextPtr
  job : ∀ t j, (s.thread t).pc.job = some j →
    (s.heap j.order).type = sideType j.side ∧ (s.heap j.order).instrument = j.book
  booked : ∀ t p, (s.thread t).pc = .getBookOf p → s.orderBooks (s.heap p).instrument ≠ none
  flying : ∀ t p, (s.thread t).pc.inFlight = some p →
    (∀ i sd, p ∉ ptrs (V i sd)) ∧ (∀ u, u ≠ t → (s.thread u).pc.inFlight ≠ some p) ∧
      ∀ id, s.orders id ≠ some p
  mapped : ∀ id p, s.orders id = some p → p < s.nextPtr ∧ (s.heap p).orderId = id ∧
    s.orderBooks (s.heap p).instrument ≠ none
  ids : ∀ p q, p < s.nextPtr → q < s.nextPtr → (s.heap p).orderId = (s.heap q).orderId → p = q
  fresh : ∀ t, ∀ id ∈ (s.thread t).todo.filterMap newId, ∀ p < s.nextPtr, (s.heap p).orderId ≠ id
  todo : ∀ t, ((s.thread t).todo.filterMap newId).Nodup
  apart : ∀ t u, t ≠ u → ∀ id ∈ (s.thread t).todo.filterMap newId,
    id ∉ (s.thread u).todo.filterMap newId

structure Inv (s : Sys ℕ I T) (V : View I T) : Prop where
  fault : s.fault = false
  shows : ∀ i sd, Shows (s.chain i sd) s.heap (V i sd)
  bookM : ∀ i t, (s.getBook i).m = some t ↔ (s.thread t).pc.bookLocked = some i
  holds : ∀ t i sd, Holds Cell.owner Cell.key t (V i sd) fun cells nxt =>
    (s.thread t).pc.block cells nxt s.heap i sd
  idle : ∀ i sd, ∀ c ∈ V i sd, c.owner = none → c.pend = .none
  volume : ∀ i sd, ∀ c ∈ V i sd,
    c.node.volume = total (c.orders.take (c.orders.length - c.pend.numPopback))
  objs : Objs s V

/-! ## Frames -/

section Frame

variable {pc : Pc ℕ I} {heap heap' : Heap ℕ I} {o o' : Order ℕ I} {cells : List (Cell I T)}
  {nxt : Option (Addr × UInt32)} {i : I} {sd : Side}

theorem Pc.ownBlock_congr (h : pc.ownBlock o cells nxt) (hflying : pc.inFlight ≠ none → o' = o)
    (hheader : o'.header = o.header) : pc.ownBlock o' cells nxt := by
  simp only [Order.header, Prod.mk.injEq] at hheader
  rcases hheader with ⟨-, h1, h2, -, h3⟩
  cases pc with
  | lockFirst j =>
    simp only [ownBlock, Order.cancelNext, h1, h2, h3]
    exact h
  | unlockHead j curr =>
    cases curr with
    | none => exact h
    | some curr =>
      simp only [ownBlock, Order.cancel, h1, h2, h3]
      exact h
  | cancelTest j curr =>
    cases curr with
    | none => exact h
    | some curr =>
      simp only [ownBlock, Order.cancel, h1, h2, h3]
      exact h
  | cancelOn j curr next =>
    simp only [ownBlock, Order.cancel, h1, h2, h3]
    exact h
  | _ =>
    first
      | exact h
      | rw [hflying (fun hn => by cases hn)]; exact h

theorem Pc.oppBlock_congr (h : pc.oppBlock o cells nxt sd) (hflying : pc.inFlight ≠ none → o' = o) :
    pc.oppBlock o' cells nxt sd := by
  cases pc with
  | _ =>
    first
      | exact h
      | rw [hflying (fun hn => by cases hn)]; exact h

theorem Pc.ref_of_job {j : Job I} (h : pc.job = some j) : pc.ref = some j.order := by
  cases pc <;> cases h <;> rfl

/-- The order in flight is that of the job. -/
theorem Pc.job_of_inFlight {p : OrderPtr} (h : pc.inFlight = some p) :
    ∃ j, pc.job = some j ∧ j.order = p := by
  cases pc <;> cases h <;> exact ⟨_, rfl, rfl⟩

/-- What a thread knows does not depend on objects that are not its own, but for the fields that
    no routine writes. -/
theorem Pc.block_congr (h : pc.block cells nxt heap i sd)
    (hflying : ∀ p, pc.inFlight = some p → heap' p = heap p)
    (hheader : ∀ p, pc.ref = some p → (heap' p).header = (heap p).header) :
    pc.block cells nxt heap' i sd := by
  unfold Pc.block at *
  cases hj : pc.job with
  | none =>
    rw [hj] at h
    exact h
  | some j =>
    rw [hj] at h
    have hfl : pc.inFlight ≠ none → heap' j.order = heap j.order := by
      intro hne
      rcases Option.ne_none_iff_exists'.mp hne with ⟨p, hp⟩
      rcases Pc.job_of_inFlight hp with ⟨j', hj', rfl⟩
      rw [hj] at hj'
      cases hj'
      exact hflying _ hp
    have href := Pc.ref_of_job hj
    dsimp only at h ⊢
    split
    next hi =>
      rw [if_pos hi] at h
      split
      next hs =>
        rw [if_pos hs] at h
        exact Pc.ownBlock_congr h hfl (hheader _ href)
      next hs =>
        rw [if_neg hs] at h
        exact Pc.oppBlock_congr h hfl
    next hi =>
      rw [if_neg hi] at h
      exact h

/-- Thread `t` changes cells that it holds or that are free. -/
def Change (t : T) (cs cs' : List (Cell I T)) : Prop :=
  ∃ l m m' r, cs = l ++ m ++ r ∧ cs' = l ++ m' ++ r ∧
    (∀ c ∈ m, c.owner = some t ∨ c.owner = none) ∧
    (∀ c ∈ m', c.owner = some t ∨ c.owner = none ∧ c.pend = .none) ∧
    m'.head?.map Cell.key = m.head?.map Cell.key ∧ ∀ c ∈ m, ∃ c' ∈ m', c'.key = c.key

theorem Change.refl (t : T) (cs : List (Cell I T)) : Change t cs cs :=
  ⟨cs, [], [], [], by simp, by simp, by simp, by simp, rfl, by simp⟩

theorem Change.holds {t u : T} {cs cs' : List (Cell I T)} (h : Change t cs cs') (hne : u ≠ t)
    {P : List (Cell I T) → Option (Addr × UInt32) → Prop}
    (hh : Holds Cell.owner Cell.key u cs P) : Holds Cell.owner Cell.key u cs' P := by
  rcases h with ⟨l, m, m', r, rfl, rfl, hm, hm', hhead, hkeys⟩
  apply hh.replace _ _ hhead hkeys
  · intro c hc
    rcases hm c hc with h | h <;> rw [h]
    · exact fun heq => hne (Option.some.inj heq).symm
    · rintro ⟨⟩
  · intro c hc
    rcases hm' c hc with h | h
    · rw [h]
      exact fun heq => hne (Option.some.inj heq).symm
    · rw [h.1]
      rintro ⟨⟩

variable {s s' : Sys ℕ I T} {V V' : View I T} {t : T}

/-- A step of `t` keeps the invariant if it does so where `t` has its hands. -/
theorem Inv.move (h : Inv s V) (hother : ∀ u, u ≠ t → s'.thread u = s.thread u)
    (hfault : s'.fault = false) (hheader : ∀ p < s.nextPtr, (s'.heap p).header = (s.heap p).header)
    (hflying : ∀ u p, u ≠ t → (s.thread u).pc.inFlight = some p → s'.heap p = s.heap p)
    (hshows : ∀ i sd, Shows (s'.chain i sd) s'.heap (V' i sd))
    (hchange : ∀ i sd, Change t (V i sd) (V' i sd))
    (hbookM : ∀ i u, (s'.getBook i).m = some u ↔ (s'.thread u).pc.bookLocked = some i)
    (hholds : ∀ i sd, Holds Cell.owner Cell.key t (V' i sd) fun cells nxt =>
      (s'.thread t).pc.block cells nxt s'.heap i sd)
    (hvolume : ∀ i sd, ∀ c ∈ V' i sd,
      c.node.volume = total (c.orders.take (c.orders.length - c.pend.numPopback)))
    (hobjs : Objs s' V') : Inv s' V' where
  fault := hfault
  shows := hshows
  bookM := hbookM
  holds := by
    intro u i sd
    by_cases hu : u = t
    · subst hu
      exact hholds i sd
    · rw [hother u hu]
      apply ((hchange i sd).holds hu (h.holds u i sd)).imp
      intro cells nxt _ hb
      exact Pc.block_congr hb (fun p hp => hflying u p hu hp) fun p hp =>
        hheader p (h.objs.ref u p hp)
  idle := by
    intro i sd c hc hfree
    rcases hchange i sd with ⟨l, m, m', r, hV, hV', hm, hm', -, -⟩
    rw [hV'] at hc
    simp only [List.mem_append] at hc
    rcases hc with (hc | hc) | hc
    · apply h.idle i sd c _ hfree
      rw [hV]
      simp [hc]
    · rcases hm' c hc with h | h
      · rw [h] at hfree
        cases hfree
      · exact h.2
    · apply h.idle i sd c _ hfree
      rw [hV]
      simp [hc]
  volume := hvolume
  objs := hobjs

/-- What a step leaves alone, whatever it does to the chains. -/
structure Frame (s s' : Sys ℕ I T) (t : T) : Prop where
  other : ∀ u, u ≠ t → s'.thread u = s.thread u
  nextPtr : s'.nextPtr = s.nextPtr
  header : ∀ p, (s'.heap p).header = (s.heap p).header
  books : ∀ i, s.orderBooks i ≠ none → s'.orderBooks i ≠ none
  orders : ∀ id p, s'.orders id = some p → s.orders id = some p

/-- How a thread goes on without reading a new command. -/
structure Turn (s : Sys ℕ I T) (th th' : Thread ℕ I) : Prop where
  inFlight : ∀ p, th'.pc.inFlight = some p → th.pc.inFlight = some p
  ref : ∀ p, th'.pc.ref = some p → p < s.nextPtr
  job : ∀ j, th'.pc.job = some j →
    (s.heap j.order).type = sideType j.side ∧ (s.heap j.order).instrument = j.book
  booked : ∀ p, th'.pc = .getBookOf p → s.orderBooks (s.heap p).instrument ≠ none
  todo : th'.todo.Sublist th.todo

theorem Objs.move (h : Objs s V) (hf : Frame s s' t) (ht : Turn s (s.thread t) (s'.thread t))
    (hptrs : ∀ i sd, (ptrs (V' i sd)).Sublist (ptrs (V i sd))) : Objs s' V' := by
  have hhd : ∀ p, (s'.heap p).type = (s.heap p).type ∧ (s'.heap p).orderId = (s.heap p).orderId ∧
      (s'.heap p).instrument = (s.heap p).instrument := by
    intro p
    have hp := hf.header p
    simp only [Order.header, Prod.mk.injEq] at hp
    exact ⟨hp.1, hp.2.1, hp.2.2.2.1⟩
  have hfl : ∀ u p, (s'.thread u).pc.inFlight = some p → (s.thread u).pc.inFlight = some p := by
    intro u p hp
    by_cases hu : u = t
    · subst hu
      exact ht.inFlight p hp
    · rwa [hf.other u hu] at hp
  have htodo : ∀ u, ((s'.thread u).todo.filterMap newId).Sublist
      ((s.thread u).todo.filterMap newId) := by
    intro u
    by_cases hu : u = t
    · subst hu
      exact ht.todo.filterMap newId
    · rw [hf.other u hu]
  constructor
  · intro i sd
    exact (h.nodup i sd).sublist (hptrs i sd)
  · intro i sd p hp
    rw [hf.nextPtr, (hhd p).1, (hhd p).2.2]
    exact h.place i sd p ((hptrs i sd).subset hp)
  · intro p hp
    rw [hf.nextPtr] at hp
    rw [(hhd p).1]
    exact h.type p hp
  · intro u p hp
    rw [hf.nextPtr]
    by_cases hu : u = t
    · subst hu
      exact ht.ref p hp
    · rw [hf.other u hu] at hp
      exact h.ref u p hp
  · intro u j hj
    rw [(hhd j.order).1, (hhd j.order).2.2]
    by_cases hu : u = t
    · subst hu
      exact ht.job j hj
    · rw [hf.other u hu] at hj
      exact h.job u j hj
  · intro u p hp
    rw [(hhd p).2.2]
    apply hf.books
    by_cases hu : u = t
    · subst hu
      exact ht.booked p hp
    · rw [hf.other u hu] at hp
      exact h.booked u p hp
  · intro u p hp
    rcases h.flying u p (hfl u p hp) with ⟨h1, h2, h3⟩
    refine ⟨?_, ?_, ?_⟩
    · intro i sd hm
      exact h1 i sd ((hptrs i sd).subset hm)
    · intro w hw heq
      exact h2 w hw (hfl w p heq)
    · intro id heq
      exact h3 id (hf.orders id p heq)
  · intro id p hp
    rcases h.mapped id p (hf.orders id p hp) with ⟨h1, h2, h3⟩
    rw [hf.nextPtr, (hhd p).2.1, (hhd p).2.2]
    exact ⟨h1, h2, hf.books _ h3⟩
  · intro p q hp hq heq
    rw [hf.nextPtr] at hp hq
    rw [(hhd p).2.1, (hhd q).2.1] at heq
    exact h.ids p q hp hq heq
  · intro u id hid p hp
    rw [hf.nextPtr] at hp
    rw [(hhd p).2.1]
    exact h.fresh u id ((htodo u).subset hid) p hp
  · intro u
    exact (h.todo u).sublist (htodo u)
  · intro u w huw id hid hid'
    exact h.apart u w huw id ((htodo u).subset hid) ((htodo w).subset hid')

end Frame

end MatchingEngine.Cpp
