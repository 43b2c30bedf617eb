import MatchingEngine.Lib.LockChain
import MatchingEngine.Lib.Token

/-!
# Lists that are locked hand over hand

A sorted list behind a sentinel, cell 0, with a lock in each cell.  Parties walk down the list with one
to three locks held.  Some insert a cell, some take one out, and some take cells off the front: these
hold the sentinel all the while, give each cell that they pass to a party of its own, and write the link
of the sentinel only when they come to a cell that stays.

`Step` is one step of one party, `Ok` what every interleaving keeps.
-/

set_option linter.unusedSectionVars false

namespace CoupledList

open LockChain (Linked)

structure Cell (K V : Type) where
  key : K
  val : V
  next : Option ℕ
  lock : Bool

/-- The cells that have been made; those from `fresh` on have not. -/
structure Store (K V : Type) where
  cell : ℕ → Cell K V
  fresh : ℕ

/-- Where a party is. -/
inductive Spot (K : Type)
  | away
  /-- holds the sentinel and has not started to walk -/
  | head
  /-- an insertion at `k`: walks, looks at the next cell, has found the place, has put in a cell -/
  | walk (k : K) (c : ℕ) (nxt : Option ℕ)
  | test (k : K) (c n : ℕ)
  | place (k : K) (c : ℕ)
  | linked (p c : ℕ)
  | on (c : ℕ)
  /-- a removal: walks, has found the cell, is done with the links -/
  | seek (p : ℕ) (nxt : Option ℕ)
  | seekOn (p c n : ℕ)
  | found (p c : ℕ)
  | off (c : ℕ)
  /-- takes cells off the front; `stale`: the sentinel still points to one that is gone -/
  | visit (stale : Bool) (nxt : Option ℕ)
  | probe (stale : Bool) (c : ℕ)
  | fill (c : ℕ)
  | popped (c : ℕ)
  | kept (c : ℕ)
  /-- has come to a cell that stays and looks at the one behind it -/
  | stop (nxt : Option ℕ)
  | stopAt (c : ℕ)
  | leave
  /-- works on a cell that it was given -/
  | work (c : ℕ)

/-- The cells that a party has locked. -/
def Spot.locks {K : Type} : Spot K → List ℕ
  | away => []
  | head | visit _ _ | popped _ | kept _ | stop _ | leave => [0]
  | walk _ c _ | place _ c | on c | off c | work c => [c]
  | test _ c n => [c, n]
  | linked p c | found p c => [p, c]
  | seek p nxt => p :: nxt.toList
  | seekOn p c n => [p, c, n]
  | probe _ c | fill c | stopAt c => [0, c]

/-- The link of the sentinel is behind. -/
def Spot.stale {K : Type} : Spot K → Bool
  | visit stale _ | probe stale _ => stale
  | popped _ => true
  | _ => false

def Spot.working {K : Type} : Spot K → Bool
  | work _ => true
  | _ => false

theorem Spot.zero_mem_of_stale {K : Type} {σ : Spot K} (h : σ.stale = true) : 0 ∈ σ.locks := by
  cases σ with
  | visit stale nxt => exact List.mem_singleton_self 0
  | probe stale c => exact List.mem_cons_self
  | popped c => exact List.mem_singleton_self 0
  | _ => cases h

namespace Store

variable {K V : Type} (S : Store K V)

def setCell (a : ℕ) (x : Cell K V) : Store K V := { S with cell := Function.update S.cell a x }

def setLock (a : ℕ) (lock : Bool) : Store K V := S.setCell a { S.cell a with lock }

def setNext (a : ℕ) (next : Option ℕ) : Store K V := S.setCell a { S.cell a with next }

def setVal (a : ℕ) (val : V) : Store K V := S.setCell a { S.cell a with val }

/-- A new cell behind `c`, locked. -/
def insert (c : ℕ) (key : K) (val : V) : Store K V where
  cell := Function.update (Function.update S.cell S.fresh
    { key, val, next := (S.cell c).next, lock := true }) c { S.cell c with next := some S.fresh }
  fresh := S.fresh + 1

variable {S} {a b c : ℕ}

@[simp] theorem fresh_setLock (x : Bool) : (S.setLock a x).fresh = S.fresh := rfl
@[simp] theorem fresh_setNext (x : Option ℕ) : (S.setNext a x).fresh = S.fresh := rfl
@[simp] theorem fresh_setVal (x : V) : (S.setVal a x).fresh = S.fresh := rfl

theorem cell_setCell_ne (x : Cell K V) (h : b ≠ a) : (S.setCell a x).cell b = S.cell b :=
  Function.update_of_ne h ..

@[simp] theorem cell_setCell_self (x : Cell K V) : (S.setCell a x).cell a = x :=
  Function.update_self ..

@[simp] theorem next_setLock (x : Bool) : ((S.setLock a x).cell b).next = (S.cell b).next := by
  by_cases h : b = a
  · subst h
    rw [setLock, cell_setCell_self]
  · rw [setLock, cell_setCell_ne _ h]

@[simp] theorem key_setLock (x : Bool) : ((S.setLock a x).cell b).key = (S.cell b).key := by
  by_cases h : b = a
  · subst h
    rw [setLock, cell_setCell_self]
  · rw [setLock, cell_setCell_ne _ h]

@[simp] theorem lock_setLock_self (x : Bool) : ((S.setLock a x).cell a).lock = x := by
  rw [setLock, cell_setCell_self]

theorem lock_setLock_ne (x : Bool) (h : b ≠ a) :
    ((S.setLock a x).cell b).lock = (S.cell b).lock := by
  rw [setLock, cell_setCell_ne _ h]

@[simp] theorem next_setVal (x : V) : ((S.setVal a x).cell b).next = (S.cell b).next := by
  by_cases h : b = a
  · subst h
    rw [setVal, cell_setCell_self]
  · rw [setVal, cell_setCell_ne _ h]

@[simp] theorem key_setVal (x : V) : ((S.setVal a x).cell b).key = (S.cell b).key := by
  by_cases h : b = a
  · subst h
    rw [setVal, cell_setCell_self]
  · rw [setVal, cell_setCell_ne _ h]

@[simp] theorem lock_setVal (x : V) : ((S.setVal a x).cell b).lock = (S.cell b).lock := by
  by_cases h : b = a
  · subst h
    rw [setVal, cell_setCell_self]
  · rw [setVal, cell_setCell_ne _ h]

@[simp] theorem next_setNext_self (x : Option ℕ) : ((S.setNext a x).cell a).next = x := by
  rw [setNext, cell_setCell_self]

theorem next_setNext_ne (x : Option ℕ) (h : b ≠ a) :
    ((S.setNext a x).cell b).next = (S.cell b).next := by
  rw [setNext, cell_setCell_ne _ h]

@[simp] theorem key_setNext (x : Option ℕ) : ((S.setNext a x).cell b).key = (S.cell b).key := by
  by_cases h : b = a
  · subst h
    rw [setNext, cell_setCell_self]
  · rw [setNext, cell_setCell_ne _ h]

@[simp] theorem lock_setNext (x : Option ℕ) : ((S.setNext a x).cell b).lock = (S.cell b).lock := by
  by_cases h : b = a
  · subst h
    rw [setNext, cell_setCell_self]
  · rw [setNext, cell_setCell_ne _ h]

@[simp] theorem val_setLock (x : Bool) : ((S.setLock a x).cell b).val = (S.cell b).val := by
  by_cases h : b = a
  · subst h
    rw [setLock, cell_setCell_self]
  · rw [setLock, cell_setCell_ne _ h]

@[simp] theorem val_setNext (x : Option ℕ) : ((S.setNext a x).cell b).val = (S.cell b).val := by
  by_cases h : b = a
  · subst h
    rw [setNext, cell_setCell_self]
  · rw [setNext, cell_setCell_ne _ h]

theorem val_setVal_ne (x : V) (h : b ≠ a) : ((S.setVal a x).cell b).val = (S.cell b).val := by
  rw [setVal, cell_setCell_ne _ h]

theorem cell_insert_self (k : K) (v : V) :
    (S.insert c k v).cell c = { S.cell c with next := some S.fresh } := Function.update_self ..

theorem cell_insert_fresh (k : K) (v : V) (h : S.fresh ≠ c) :
    (S.insert c k v).cell S.fresh = { key := k, val := v, next := (S.cell c).next, lock := true } := by
  unfold insert
  dsimp only
  rw [Function.update_of_ne h, Function.update_self]

theorem cell_insert_ne (k : K) (v : V) (h : a ≠ c) (hf : a ≠ S.fresh) :
    (S.insert c k v).cell a = S.cell a := by
  unfold insert
  dsimp only
  rw [Function.update_of_ne h, Function.update_of_ne hf]

theorem key_insert (k : K) (v : V) (h : a ≠ S.fresh) :
    ((S.insert c k v).cell a).key = (S.cell a).key := by
  by_cases hc : a = c
  · subst hc
    rw [cell_insert_self]
  · rw [cell_insert_ne k v hc h]

end Store

/-! ## The steps -/

section Steps

variable {K V H : Type} (better : K → K → Prop) (S : Store K V)

/-- Goes on without a lock. -/
inductive Move : Spot K → Spot K → Prop
  | start (k : K) : Move .head (.walk k 0 (S.cell 0).next)
  | startNone (h : (S.cell 0).next = none) : Move .head (.seek 0 none)
  | walkEnd (k : K) (c : ℕ) : Move (.walk k c none) (.place k c)
  | placeOn (k : K) (c : ℕ) (h : (S.cell c).key = k) : Move (.place k c) (.on c)
  | hit (p c : ℕ) : Move (.seek p (some c)) (.found p c)
  | visitEnd : Move (.visit false none) .leave
  | stopEnd : Move (.stop none) .leave
  | probeFill (c : ℕ) : Move (.probe false c) (.fill c)
  | passPopped (c : ℕ) : Move (.popped c) (.visit true (S.cell c).next)
  | passKept (c : ℕ) : Move (.kept c) (.stop (S.cell c).next)

/-- Locks a cell. -/
inductive Take : Spot K → ℕ → Spot K → Prop
  | enter : Take .away 0 .head
  | enterVisit : Take .away 0 (.visit false (S.cell 0).next)
  | enterStop : Take .away 0 (.stop (S.cell 0).next)
  | walk (k : K) (c n : ℕ) : Take (.walk k c (some n)) n (.test k c n)
  | start (c : ℕ) (h : (S.cell 0).next = some c) : Take .head c (.seek 0 (some c))
  | seek (p c n : ℕ) (h : (S.cell c).next = some n) : Take (.seek p (some c)) n (.seekOn p c n)
  | visit (stale : Bool) (c : ℕ) : Take (.visit stale (some c)) c (.probe stale c)
  | stop (c : ℕ) : Take (.stop (some c)) c (.stopAt c)

/-- Releases a cell. -/
inductive Drop : Spot K → ℕ → Spot K → Prop
  | testPlace (k : K) (c n : ℕ) (h : better k (S.cell n).key) : Drop (.test k c n) n (.place k c)
  | testOn (k : K) (c n : ℕ) (h : (S.cell n).key = k) : Drop (.test k c n) c (.place k n)
  | testNext (k : K) (c n : ℕ) (h : better (S.cell n).key k) :
      Drop (.test k c n) c (.walk k n (S.cell n).next)
  | linked (p c : ℕ) : Drop (.linked p c) p (.on c)
  | on (c : ℕ) : Drop (.on c) c .away
  | seekEnd (p : ℕ) : Drop (.seek p none) p .away
  | seekLast (p c : ℕ) (h : (S.cell c).next = none) : Drop (.seek p (some c)) p (.seek c none)
  | seekOn (p c n : ℕ) : Drop (.seekOn p c n) p (.seek c (some n))
  | miss (p c : ℕ) : Drop (.seek p (some c)) p (.off c)
  | keep (p c : ℕ) : Drop (.found p c) p (.off c)
  | off (c : ℕ) : Drop (.off c) c .away
  | probe (c : ℕ) : Drop (.probe false c) c .leave
  | stopAt (c : ℕ) : Drop (.stopAt c) c .leave
  | leave : Drop .leave 0 .away
  | work (c : ℕ) : Drop (.work c) c .away

/-- Brings the link of the sentinel up to date. -/
inductive Relink : Spot K → Option ℕ → Spot K → Prop
  | visit (nxt : Option ℕ) : Relink (.visit true nxt) nxt (.visit false nxt)
  | probe (c : ℕ) : Relink (.probe true c) (some c) (.probe false c)

variable [DecidableEq H] (f : H → Spot K)

/-- One step of the party `h`. -/
inductive Step (h : H) : Store K V → (H → Spot K) → Prop
  | move (σ : Spot K) (hm : Move S (f h) σ) : Step h S (Function.update f h σ)
  | take (a : ℕ) (σ : Spot K) (ht : Take S (f h) a σ) (hfree : (S.cell a).lock = false) :
      Step h (S.setLock a true) (Function.update f h σ)
  | drop (a : ℕ) (σ : Spot K) (hd : Drop better S (f h) a σ) :
      Step h (S.setLock a false) (Function.update f h σ)
  | write (a : ℕ) (v : V) (ha : a ∈ (f h).locks) : Step h (S.setVal a v) f
  | relink (nxt : Option ℕ) (σ : Spot K) (hr : Relink (f h) nxt σ) :
      Step h (S.setNext 0 nxt) (Function.update f h σ)
  | insert (k : K) (c : ℕ) (v : V) (hp : f h = .place k c) (hk : (S.cell c).key ≠ k) :
      Step h (S.insert c k v) (Function.update f h (.linked c S.fresh))
  | unlink (p c : ℕ) (hp : f h = .found p c) :
      Step h ((S.setNext p (S.cell c).next).setLock p false) (Function.update f h (.off c))
  /-- hands the sentinel to a party that starts -/
  | give (h' : H) (hp : f h = .head) (hne : h' ≠ h) (hp' : f h' = .away) :
      Step h S (Function.update (Function.update f h .away) h' .head)
  /-- hands the cell at the front to a party that starts -/
  | pop (h' : H) (c : ℕ) (hp : f h = .fill c) (hne : h' ≠ h) (hp' : f h' = .away) :
      Step h S (Function.update (Function.update f h (.popped c)) h' (.work c))
  | keep (h' : H) (c : ℕ) (hp : f h = .fill c) (hne : h' ≠ h) (hp' : f h' = .away) :
      Step h S (Function.update (Function.update f h (.kept c)) h' (.work c))

end Steps

/-! ## What the parties rely on -/

section Ok

variable {K V H : Type} [DecidableEq H]

/-- Only a party that works on it has the cell. -/
def Worked (f : H → Spot K) (c : ℕ) : Prop := ∀ h, c ∈ (f h).locks → (f h).working = true

/-- What a party at this spot knows of the list. -/
def Place (better : K → K → Prop) (S : Store K V) (f : H → Spot K) (xs : List ℕ) : Spot K → Prop
  | .away | .head | .leave => True
  | .walk k c nxt =>
    c ∈ 0 :: xs ∧ (S.cell c).next = nxt ∧ (c ≠ 0 → better (S.cell c).key k)
  | .test k c n =>
    c ∈ 0 :: xs ∧ (S.cell c).next = some n ∧ (c ≠ 0 → better (S.cell c).key k)
  | .place k c =>
    c ∈ 0 :: xs ∧ ((S.cell c).key ≠ k →
      (c ≠ 0 → better (S.cell c).key k) ∧ ∀ n, (S.cell c).next = some n → better k (S.cell n).key)
  | .linked p c => p ∈ 0 :: xs ∧ (S.cell p).next = some c
  | .on c => c ∈ 0 :: xs
  | .seek p nxt => p ∈ 0 :: xs ∧ (S.cell p).next = nxt
  | .seekOn p c n => p ∈ 0 :: xs ∧ (S.cell p).next = some c ∧ (S.cell c).next = some n
  | .found p c => p ∈ 0 :: xs ∧ (S.cell p).next = some c
  | .off c | .work c => c < S.fresh
  | .visit _ nxt => nxt = xs.head?
  | .probe _ c | .fill c => xs.head? = some c
  | .popped c => c ∉ 0 :: xs ∧ c < S.fresh ∧ (S.cell c).next = xs.head?
  | .kept c => xs.head? = some c ∧ Worked f c
  | .stop nxt =>
    nxt = xs.head? ∨ ∃ c, xs.head? = some c ∧ (S.cell c).next = nxt ∧ Worked f c
  | .stopAt n =>
    some n = xs.head? ∨ ∃ c, xs.head? = some c ∧ (S.cell c).next = some n ∧ Worked f c

/-- The cells `xs` behind the sentinel are linked and sorted, each lock is held by one party, and each
    party is where it should be. -/
structure Ok (better : K → K → Prop) (S : Store K V) (f : H → Spot K) (xs : List ℕ) : Prop where
  nodup : (0 :: xs).Nodup
  lt : ∀ a ∈ 0 :: xs, a < S.fresh
  linked : Linked (fun a => (S.cell a).next) xs
  head : (∀ h, (f h).stale = false) → (S.cell 0).next = xs.head?
  sorted : xs.Pairwise fun a b => better (S.cell a).key (S.cell b).key
  token : ∀ a, Token (S.cell a).lock fun h => a ∈ (f h).locks
  place : ∀ h, Place better S f xs (f h)

namespace Ok

variable {better : K → K → Prop} {S S' : Store K V} {f f' : H → Spot K} {xs xs' : List ℕ} {h h' : H}
  {a c n : ℕ} {σ : Spot K}

theorem init {S : Store K V} {f : H → Spot K} (hf : ∀ h, f h = .away)
    (hlock : ∀ a, (S.cell a).lock = false) (hnext : (S.cell 0).next = none) (hfresh : 0 < S.fresh) :
    Ok better S f [] where
  nodup := List.nodup_singleton 0
  lt := by
    intro a ha
    rw [List.mem_singleton.mp ha]
    exact hfresh
  linked := trivial
  head := fun _ => hnext
  sorted := List.Pairwise.nil
  token := by
    intro a
    rw [hlock]
    apply Token.empty
    intro h ha
    rw [hf h] at ha
    cases ha
  place := by
    intro h
    rw [hf h]
    trivial

theorem eq_of_mem (hok : Ok better S f xs) (ha : a ∈ (f h).locks) (ha' : a ∈ (f h').locks) : h = h' :=
  (hok.token a).unique h h' ha ha'

/-- Whoever holds the sentinel knows whether its link is behind. -/
theorem next_zero (hok : Ok better S f xs) (h0 : 0 ∈ (f h).locks) (hs : (f h).stale = false) :
    (S.cell 0).next = xs.head? := by
  apply hok.head
  intro h'
  rw [← Bool.not_eq_true]
  intro hstale
  have heq := hok.eq_of_mem (Spot.zero_mem_of_stale hstale) h0
  rw [heq, hs] at hstale
  cases hstale

/-- A locked cell of the list, with what is before and behind it. -/
theorem split (hok : Ok better S f xs) (hc : c ∈ 0 :: xs) (hlock : c ∈ (f h).locks)
    (hs : (f h).stale = false) : ∃ l r, 0 :: xs = l ++ c :: r ∧ (S.cell c).next = r.head? := by
  rcases List.mem_cons.mp hc with rfl | hc
  · exact ⟨[], xs, rfl, hok.next_zero hlock hs⟩
  · obtain ⟨l, r, rfl⟩ := List.append_of_mem hc
    exact ⟨0 :: l, r, rfl, hok.linked.next_eq⟩

theorem next_mem (hok : Ok better S f xs) (hc : c ∈ 0 :: xs) (hlock : c ∈ (f h).locks)
    (hs : (f h).stale = false) (hn : (S.cell c).next = some n) : n ∈ xs ∧ n ≠ c := by
  obtain ⟨l, r, heq, hnext⟩ := hok.split hc hlock hs
  rw [hn] at hnext
  have hr : n ∈ r := List.mem_of_mem_head? hnext.symm
  have hnodup : (l ++ c :: r).Nodup := heq ▸ hok.nodup
  have hnc : n ≠ c := by
    rintro rfl
    exact (List.nodup_cons.mp hnodup.of_append_right).1 hr
  refine ⟨?_, hnc⟩
  cases l with
  | nil =>
    cases heq
    exact hr
  | cons x l =>
    cases heq
    exact List.mem_append_right _ (List.mem_cons_of_mem c hr)

theorem zero_notMem (hok : Ok better S f xs) : 0 ∉ xs := (List.nodup_cons.mp hok.nodup).1

theorem mem_of_head? (hc : xs.head? = some c) : c ∈ xs := List.mem_of_mem_head? hc

/-- Who has locked the cell behind the front has the front. -/
theorem eq_zero_of_next (hok : Ok better S f xs) (hc : c ∈ 0 :: xs) (hlock : c ∈ (f h).locks)
    (hs : (f h).stale = false) (hn : (S.cell c).next = xs.head?) (hne : xs ≠ []) : c = 0 := by
  obtain ⟨l, r, heq, hnext⟩ := hok.split hc hlock hs
  cases xs with
  | nil => exact absurd rfl hne
  | cons x xs =>
    rw [hn] at hnext
    have hr : x ∈ r := List.mem_of_mem_head? hnext.symm
    cases l with
    | nil =>
      cases heq
      rfl
    | cons y l =>
      -- the front would stand twice
      exfalso
      have hnodup := (List.nodup_cons.mp hok.nodup).2
      rw [List.cons_append] at heq
      have htail := (List.cons.inj heq).2
      cases l with
      | nil =>
        cases htail
        exact (List.nodup_cons.mp hnodup).1 hr
      | cons z l =>
        rw [List.cons_append] at htail
        rw [(List.cons.inj htail).2] at hnodup
        exact (List.nodup_cons.mp hnodup).1
          (List.mem_append_right _ (List.mem_cons_of_mem c hr))

end Ok

/-! ## What a step leaves to the others -/

/-- The step of `h` changes links only of cells that it has locked, takes only such cells out of the
    list, puts in only new ones, and changes the front only if it has the sentinel. -/
structure Frame (S S' : Store K V) (f : H → Spot K) (h : H) (xs xs' : List ℕ) : Prop where
  fresh : S.fresh ≤ S'.fresh
  key : ∀ a < S.fresh, (S'.cell a).key = (S.cell a).key
  next : ∀ a < S.fresh, (S'.cell a).next = (S.cell a).next ∨
    a ∈ (f h).locks ∧ a ∈ 0 :: xs ∧ (f h).working = false
  mem : ∀ a ∈ 0 :: xs, a ∈ 0 :: xs' ∨ a ∈ (f h).locks
  new : ∀ a ∈ 0 :: xs', a ∈ 0 :: xs ∨ a = S.fresh
  front : 0 ∈ (f h).locks ∨ xs'.head? = xs.head?

theorem Frame.same {S S' : Store K V} {f : H → Spot K} {h : H} {xs : List ℕ}
    (hfresh : S'.fresh = S.fresh) (hkey : ∀ a, (S'.cell a).key = (S.cell a).key)
    (hnext : ∀ a, (S'.cell a).next = (S.cell a).next) : Frame S S' f h xs xs where
  fresh := hfresh.ge
  key := fun a _ => hkey a
  next := fun a _ => Or.inl (hnext a)
  mem := fun _ ha => Or.inl ha
  new := fun _ ha => Or.inl ha
  front := Or.inr rfl

section Frame

variable {better : K → K → Prop} {S S' : Store K V} {f f' : H → Spot K} {xs xs' : List ℕ} {h h' : H}

/-- What another party knows still holds. -/
theorem Ok.frame (hok : Ok better S f xs) (hF : Frame S S' f h xs xs')
    (hworked : ∀ c, xs.head? = some c → 0 ∉ (f h).locks → Worked f c → Worked f' c) (hne : h' ≠ h) :
    Place better S' f' xs' (f h') := by
  have hplace := hok.place h'
  -- cells that `h'` has locked are not locked by `h`
  have hother : ∀ a ∈ (f h').locks, a ∉ (f h).locks := by
    intro a ha ha'
    exact hne (hok.eq_of_mem ha ha')
  have hmem : ∀ a ∈ (f h').locks, a ∈ 0 :: xs → a ∈ 0 :: xs' := by
    intro a ha hxs
    rcases hF.mem a hxs with hxs' | hlock
    · exact hxs'
    · exact absurd hlock (hother a ha)
  have hnext : ∀ a ∈ (f h').locks, a ∈ 0 :: xs → (S'.cell a).next = (S.cell a).next := by
    intro a ha hxs
    rcases hF.next a (hok.lt a hxs) with hnext | ⟨hlock, -⟩
    · exact hnext
    · exact absurd hlock (hother a ha)
  have hkey : ∀ a ∈ 0 :: xs, (S'.cell a).key = (S.cell a).key := fun a ha => hF.key a (hok.lt a ha)
  have hfront : 0 ∈ (f h').locks → xs'.head? = xs.head? := by
    intro h0
    rcases hF.front with h0' | hhead
    · exact absurd h0' (hother 0 h0)
    · exact hhead
  have hworked' : 0 ∈ (f h').locks → ∀ c, xs.head? = some c → Worked f c → Worked f' c :=
    fun h0 c hc hw => hworked c hc (hother 0 h0) hw
  -- the link of a front that is worked on
  have hnextWorked : ∀ c, xs.head? = some c → Worked f c → (S'.cell c).next = (S.cell c).next := by
    intro c hc hw
    rcases hF.next c (hok.lt c (List.mem_cons_of_mem 0 (Ok.mem_of_head? hc))) with
      hnext | ⟨hlock, -, hworking⟩
    · exact hnext
    · rw [hw h hlock] at hworking
      cases hworking
  cases hσ : f h' with
  | away => trivial
  | head => trivial
  | leave => trivial
  | walk k c nxt =>
    rw [hσ] at hplace hmem hnext
    obtain ⟨hc, hn, hb⟩ := hplace
    have hlock : c ∈ (Spot.walk k c nxt).locks := List.mem_singleton_self c
    refine ⟨hmem c hlock hc, (hnext c hlock hc).trans hn, ?_⟩
    rw [hkey c hc]
    exact hb
  | test k c n =>
    rw [hσ] at hplace hmem hnext
    obtain ⟨hc, hn, hb⟩ := hplace
    have hlock : c ∈ (Spot.test k c n).locks := List.mem_cons_self
    refine ⟨hmem c hlock hc, (hnext c hlock hc).trans hn, ?_⟩
    rw [hkey c hc]
    exact hb
  | place k c =>
    have hlock : c ∈ (f h').locks := by
      rw [hσ]
      exact List.mem_singleton_self c
    have hs : (f h').stale = false := by
      rw [hσ]
      rfl
    rw [hσ] at hplace
    obtain ⟨hc, hb⟩ := hplace
    refine ⟨hmem c hlock hc, ?_⟩
    rw [hkey c hc, hnext c hlock hc]
    intro hk
    obtain ⟨hbefore, hbehind⟩ := hb hk
    refine ⟨hbefore, ?_⟩
    intro n hn
    rw [hkey n (List.mem_cons_of_mem 0 (hok.next_mem hc hlock hs hn).1)]
    exact hbehind n hn
  | linked p c =>
    rw [hσ] at hplace hmem hnext
    obtain ⟨hp, hn⟩ := hplace
    have hlock : p ∈ (Spot.linked (K := K) p c).locks := List.mem_cons_self
    exact ⟨hmem p hlock hp, (hnext p hlock hp).trans hn⟩
  | on c =>
    rw [hσ] at hplace hmem
    exact hmem c (List.mem_singleton_self c) hplace
  | seek p nxt =>
    rw [hσ] at hplace hmem hnext
    obtain ⟨hp, hn⟩ := hplace
    have hlock : p ∈ (Spot.seek (K := K) p nxt).locks := List.mem_cons_self
    exact ⟨hmem p hlock hp, (hnext p hlock hp).trans hn⟩
  | seekOn p c n =>
    have hlock : p ∈ (f h').locks := by
      rw [hσ]
      exact List.mem_cons_self
    have hlock' : c ∈ (f h').locks := by
      rw [hσ]
      exact List.mem_cons_of_mem p List.mem_cons_self
    have hs : (f h').stale = false := by
      rw [hσ]
      rfl
    rw [hσ] at hplace
    obtain ⟨hp, hn, hn'⟩ := hplace
    have hc := List.mem_cons_of_mem 0 (hok.next_mem hp hlock hs hn).1
    exact ⟨hmem p hlock hp, (hnext p hlock hp).trans hn, (hnext c hlock' hc).trans hn'⟩
  | found p c =>
    rw [hσ] at hplace hmem hnext
    obtain ⟨hp, hn⟩ := hplace
    have hlock : p ∈ (Spot.found (K := K) p c).locks := List.mem_cons_self
    exact ⟨hmem p hlock hp, (hnext p hlock hp).trans hn⟩
  | off c =>
    rw [hσ] at hplace
    exact Nat.lt_of_lt_of_le hplace hF.fresh
  | work c =>
    rw [hσ] at hplace
    exact Nat.lt_of_lt_of_le hplace hF.fresh
  | visit stale nxt =>
    rw [hσ] at hplace hfront
    exact Eq.trans hplace (hfront (List.mem_singleton_self 0)).symm
  | probe stale c =>
    rw [hσ] at hplace hfront
    exact (hfront List.mem_cons_self).trans hplace
  | fill c =>
    rw [hσ] at hplace hfront
    exact (hfront List.mem_cons_self).trans hplace
  | popped c =>
    rw [hσ] at hplace hfront
    obtain ⟨hc, hlt, hn⟩ := hplace
    refine ⟨?_, Nat.lt_of_lt_of_le hlt hF.fresh, ?_⟩
    · intro hc'
      rcases hF.new c hc' with hc' | rfl
      · exact hc hc'
      · exact lt_irrefl _ hlt
    · rw [hfront (List.mem_singleton_self 0), ← hn]
      rcases hF.next c hlt with hnext | ⟨-, hc', -⟩
      · exact hnext
      · exact absurd hc' hc
  | kept c =>
    rw [hσ] at hplace hfront hworked'
    have h0 : 0 ∈ (Spot.kept (K := K) c).locks := List.mem_singleton_self 0
    exact ⟨(hfront h0).trans hplace.1, hworked' h0 c hplace.1 hplace.2⟩
  | stop nxt =>
    rw [hσ] at hplace hfront hworked'
    have h0 : 0 ∈ (Spot.stop (K := K) nxt).locks := List.mem_singleton_self 0
    rcases hplace with hn | ⟨c, hc, hn, hw⟩
    · exact Or.inl (hn.trans (hfront h0).symm)
    · exact Or.inr ⟨c, (hfront h0).trans hc, (hnextWorked c hc hw).trans hn, hworked' h0 c hc hw⟩
  | stopAt n =>
    rw [hσ] at hplace hfront hworked'
    have h0 : 0 ∈ (Spot.stopAt (K := K) n).locks := List.mem_cons_self
    rcases hplace with hn | ⟨c, hc, hn, hw⟩
    · exact Or.inl (hn.trans (hfront h0).symm)
    · exact Or.inr ⟨c, (hfront h0).trans hc, (hnextWorked c hc hw).trans hn, hworked' h0 c hc hw⟩

end Frame

/-! ## The locks -/

section Tokens

variable {S : Store K V} {f : H → Spot K} {h h' : H} {a : ℕ} {σ σ' : Spot K}

theorem tokens_same (ht : ∀ b, Token (S.cell b).lock fun u => b ∈ (f u).locks)
    (hlocks : ∀ b, b ∈ σ.locks ↔ b ∈ (f h).locks) (b : ℕ) :
    Token (S.cell b).lock fun u => b ∈ (Function.update f h σ u).locks := by
  apply (ht b).congr
  intro u
  by_cases hu : u = h
  · subst hu
    rw [Function.update_self]
    exact hlocks b
  · rw [Function.update_of_ne hu]

theorem tokens_take (ht : ∀ b, Token (S.cell b).lock fun u => b ∈ (f u).locks)
    (hfree : (S.cell a).lock = false) (hlocks : ∀ b, b ∈ σ.locks ↔ b = a ∨ b ∈ (f h).locks) (b : ℕ) :
    Token ((S.setLock a true).cell b).lock fun u => b ∈ (Function.update f h σ u).locks := by
  have hother : ∀ u, u ≠ h → (b ∈ (Function.update f h σ u).locks ↔ b ∈ (f u).locks) := by
    intro u hu
    rw [Function.update_of_ne hu]
  by_cases hb : b = a
  · subst hb
    have htoken := ht b
    rw [hfree] at htoken
    rw [Store.lock_setLock_self]
    apply htoken.send _ hother
    rw [Function.update_self]
    exact (hlocks b).mpr (Or.inl rfl)
  · rw [Store.lock_setLock_ne true hb]
    apply (ht b).congr
    intro u
    by_cases hu : u = h
    · subst hu
      rw [Function.update_self, hlocks b]
      exact or_iff_right hb
    · exact hother u hu

theorem tokens_drop (ht : ∀ b, Token (S.cell b).lock fun u => b ∈ (f u).locks) (ha : a ∈ (f h).locks)
    (hlocks : ∀ b, b ∈ σ.locks ↔ b ∈ (f h).locks ∧ b ≠ a) (b : ℕ) :
    Token ((S.setLock a false).cell b).lock fun u => b ∈ (Function.update f h σ u).locks := by
  have hother : ∀ u, u ≠ h → (b ∈ (Function.update f h σ u).locks ↔ b ∈ (f u).locks) := by
    intro u hu
    rw [Function.update_of_ne hu]
  by_cases hb : b = a
  · subst hb
    rw [Store.lock_setLock_self]
    apply (ht b).receive ha _ hother
    rw [Function.update_self, hlocks b]
    exact fun hmem => hmem.2 rfl
  · rw [Store.lock_setLock_ne false hb]
    apply (ht b).congr
    intro u
    by_cases hu : u = h
    · subst hu
      rw [Function.update_self, hlocks b]
      exact and_iff_left hb
    · exact hother u hu

/-- A party shares what it has locked with one that starts. -/
theorem tokens_give (ht : ∀ b, Token (S.cell b).lock fun u => b ∈ (f u).locks) (hne : h' ≠ h)
    (hempty : (f h').locks = []) (hlocks : ∀ b, b ∈ (f h).locks ↔ b ∈ σ.locks ∨ b ∈ σ'.locks)
    (hdisj : ∀ b ∈ σ.locks, b ∉ σ'.locks) (b : ℕ) :
    Token (S.cell b).lock fun u =>
      b ∈ (Function.update (Function.update f h σ) h' σ' u).locks := by
  have hself : b ∈ (Function.update (Function.update f h σ) h' σ' h).locks ↔ b ∈ σ.locks := by
    rw [Function.update_of_ne hne.symm, Function.update_self]
  have hnew : b ∈ (Function.update (Function.update f h σ) h' σ' h').locks ↔ b ∈ σ'.locks := by
    rw [Function.update_self]
  have hother : ∀ u, u ≠ h → u ≠ h' →
      (b ∈ (Function.update (Function.update f h σ) h' σ' u).locks ↔ b ∈ (f u).locks) := by
    intro u hu hu'
    rw [Function.update_of_ne hu', Function.update_of_ne hu]
  -- who has it now had it before, or got it from `h`
  have hfrom : ∀ u, b ∈ (Function.update (Function.update f h σ) h' σ' u).locks →
      (u = h ∨ u = h') ∧ b ∈ (f h).locks ∨ b ∈ (f u).locks ∧ u ≠ h ∧ u ≠ h' := by
    intro u hb
    by_cases hu : u = h
    · subst hu
      exact Or.inl ⟨Or.inl rfl, (hlocks b).mpr (Or.inl (hself.mp hb))⟩
    · by_cases hu' : u = h'
      · subst hu'
        exact Or.inl ⟨Or.inr rfl, (hlocks b).mpr (Or.inr (hnew.mp hb))⟩
      · exact Or.inr ⟨(hother u hu hu').mp hb, hu, hu'⟩
  constructor
  · rw [(ht b).full_iff]
    constructor
    · rintro ⟨u, hu⟩
      by_cases huh : u = h
      · subst huh
        rcases (hlocks b).mp hu with hb | hb
        · exact ⟨u, hself.mpr hb⟩
        · exact ⟨h', hnew.mpr hb⟩
      · have huh' : u ≠ h' := by
          rintro rfl
          rw [hempty] at hu
          cases hu
        exact ⟨u, (hother u huh huh').mpr hu⟩
    · rintro ⟨u, hu⟩
      rcases hfrom u hu with ⟨-, hb⟩ | ⟨hb, -⟩
      · exact ⟨h, hb⟩
      · exact ⟨u, hb⟩
  · intro u v hu hv
    rcases hfrom u hu with ⟨rfl | rfl, hb⟩ | ⟨hb, hu₁, hu₂⟩
    · rcases hfrom v hv with ⟨rfl | rfl, -⟩ | ⟨hb', hv₁, -⟩
      · rfl
      · exact absurd (hnew.mp hv) (hdisj b (hself.mp hu))
      · exact absurd ((ht b).unique v u hb' hb) hv₁
    · rcases hfrom v hv with ⟨rfl | rfl, -⟩ | ⟨hb', hv₁, -⟩
      · exact absurd (hnew.mp hu) (hdisj b (hself.mp hv))
      · rfl
      · exact absurd ((ht b).unique v h hb' hb) hv₁
    · rcases hfrom v hv with ⟨rfl | rfl, hb'⟩ | ⟨hb', -⟩
      · exact absurd ((ht b).unique u v hb hb') hu₁
      · exact absurd ((ht b).unique u h hb hb') hu₁
      · exact (ht b).unique u v hb hb'

end Tokens

/-! ## What a step keeps -/

section Keeps

variable {better : K → K → Prop} {S S' : Store K V} {f f' : H → Spot K} {xs xs' : List ℕ} {h h' : H}
  {a c n p : ℕ} {σ σ' : Spot K} {nxt : Option ℕ}

theorem place_congr (hfresh : S'.fresh = S.fresh) (hkey : ∀ a, (S'.cell a).key = (S.cell a).key)
    (hnext : ∀ a, (S'.cell a).next = (S.cell a).next) :
    Place better S' f xs σ ↔ Place better S f xs σ := by
  cases σ <;> simp only [Place, hfresh, hkey, hnext]

/-- Only locks change. -/
theorem Ok.relock (hok : Ok better S f xs) (S' : Store K V) (hfresh : S'.fresh = S.fresh)
    (hkey : ∀ a, (S'.cell a).key = (S.cell a).key) (hnext : ∀ a, (S'.cell a).next = (S.cell a).next)
    (hstale : σ.stale = (f h).stale)
    (htoken : ∀ a, Token (S'.cell a).lock fun u => a ∈ (Function.update f h σ u).locks)
    (hfront : ∀ c, xs.head? = some c → 0 ∉ (f h).locks → c ∈ σ.locks →
      c ∈ (f h).locks ∧ (f h).working = false)
    (hplace : Place better S (Function.update f h σ) xs σ) :
    Ok better S' (Function.update f h σ) xs where
  nodup := hok.nodup
  lt := by
    rw [hfresh]
    exact hok.lt
  linked := hok.linked.congr fun a _ => hnext a
  head := by
    intro hall
    rw [hnext]
    apply hok.head
    intro u
    have hu := hall u
    by_cases huh : u = h
    · subst huh
      rw [Function.update_self, hstale] at hu
      exact hu
    · rw [Function.update_of_ne huh] at hu
      exact hu
  sorted := by
    simp only [hkey]
    exact hok.sorted
  token := htoken
  place := by
    intro u
    by_cases hu : u = h
    · subst hu
      rw [Function.update_self]
      exact (place_congr hfresh hkey hnext).mpr hplace
    · rw [Function.update_of_ne hu]
      apply hok.frame (Frame.same hfresh hkey hnext) _ hu
      intro c hc h0 hw v hv
      by_cases hvh : v = h
      · subst hvh
        rw [Function.update_self] at hv
        obtain ⟨hmem, hworking⟩ := hfront c hc h0 hv
        rw [hw v hmem] at hworking
        cases hworking
      · rw [Function.update_of_ne hvh] at hv ⊢
        exact hw v hv

theorem Worked.update (hw : Worked f c) (hc : c ∉ σ.locks) : Worked (Function.update f h σ) c := by
  intro u hu
  by_cases huh : u = h
  · subst huh
    rw [Function.update_self] at hu
    exact absurd hu hc
  · rw [Function.update_of_ne huh] at hu ⊢
    exact hw u hu

theorem Ok.next_mem_of_mem (hok : Ok better S f xs) (hc : c ∈ xs) (hn : (S.cell c).next = some n) :
    n ∈ xs ∧ n ≠ c := by
  obtain ⟨l, r, rfl⟩ := List.append_of_mem hc
  have hnext := hok.linked.next_eq
  rw [hn] at hnext
  have hr : n ∈ r := List.mem_of_mem_head? hnext.symm
  refine ⟨List.mem_append_right _ (List.mem_cons_of_mem c hr), ?_⟩
  rintro rfl
  have hnodup := (List.nodup_cons.mp hok.nodup).2
  exact (List.nodup_cons.mp hnodup.of_append_right).1 hr

theorem Move.locks (hm : Move S σ σ') : σ'.locks = σ.locks := by
  cases hm <;> rfl

theorem Move.stale (hm : Move S σ σ') : σ'.stale = σ.stale := by
  cases hm <;> rfl

theorem Move.working (hm : Move S σ σ') : σ.working = false := by
  cases hm <;> rfl

theorem Ok.move_place (hok : Ok better S f xs) (hm : Move S (f h) σ) :
    Place better S (Function.update f h σ) xs σ := by
  have hplace := hok.place h
  generalize hσ : f h = τ at hm hplace
  cases hm with
  | start k => exact ⟨List.mem_cons_self, rfl, fun hne => absurd rfl hne⟩
  | startNone hn => exact ⟨List.mem_cons_self, hn⟩
  | walkEnd k c =>
    obtain ⟨hc, hn, hb⟩ := hplace
    refine ⟨hc, fun _ => ⟨hb, ?_⟩⟩
    intro n hn'
    rw [hn] at hn'
    cases hn'
  | placeOn k c hk => exact hplace.1
  | hit p c => exact hplace
  | visitEnd => trivial
  | stopEnd => trivial
  | probeFill c => exact hplace
  | passPopped c => exact hplace.2.2
  | passKept c =>
    obtain ⟨hc, hw⟩ := hplace
    refine Or.inr ⟨c, hc, rfl, hw.update ?_⟩
    intro hmem
    rw [List.mem_singleton.mp hmem] at hc
    exact hok.zero_notMem (Ok.mem_of_head? hc)

theorem Ok.move (hok : Ok better S f xs) (hm : Move S (f h) σ) :
    Ok better S (Function.update f h σ) xs := by
  apply hok.relock S rfl (fun _ => rfl) (fun _ => rfl) hm.stale
  · apply tokens_same hok.token
    rw [hm.locks]
    exact fun _ => Iff.rfl
  · intro c _ _ hmem
    rw [hm.locks] at hmem
    exact ⟨hmem, hm.working⟩
  · exact hok.move_place hm

theorem Take.locks (ht : Take S σ a σ') (b : ℕ) : b ∈ σ'.locks ↔ b = a ∨ b ∈ σ.locks := by
  cases ht <;> simp only [Spot.locks, List.mem_cons, List.not_mem_nil, Option.toList_some] <;>
    tauto

theorem Take.stale (ht : Take S σ a σ') : σ'.stale = σ.stale := by
  cases ht <;> rfl

theorem Take.working (ht : Take S σ a σ') : σ.working = false := by
  cases ht <;> rfl

/-- Nobody but its holder takes the front. -/
theorem Ok.take_ne_front (hok : Ok better S f xs) (ht : Take S (f h) a σ) (hc : xs.head? = some c)
    (h0 : 0 ∉ (f h).locks) : a ≠ c := by
  have hplace := hok.place h
  have hmem := Ok.mem_of_head? hc
  have hxs : xs ≠ [] := List.ne_nil_of_mem hmem
  have hzero := hok.next_zero (h := h)
  rintro rfl
  generalize hσ : f h = τ at ht hplace h0
  cases ht with
  | enter => exact hok.zero_notMem hmem
  | enterVisit => exact hok.zero_notMem hmem
  | enterStop => exact hok.zero_notMem hmem
  | walk k c₀ n =>
    obtain ⟨hc₀, hn, -⟩ := hplace
    have hlock : c₀ ∈ (f h).locks := by
      rw [hσ]
      exact List.mem_singleton_self c₀
    have heq := hok.eq_zero_of_next hc₀ hlock (by rw [hσ]; rfl) (hn.trans hc.symm) hxs
    subst heq
    exact h0 (List.mem_singleton_self 0)
  | start c₀ hn => exact h0 (List.mem_singleton_self 0)
  | seek p c₀ n hn =>
    obtain ⟨hp, hn₀⟩ := hplace
    have hlock : p ∈ (f h).locks := by
      rw [hσ]
      exact List.mem_cons_self
    have hlock' : c₀ ∈ (f h).locks := by
      rw [hσ]
      exact List.mem_cons_of_mem p (List.mem_singleton_self c₀)
    have hs : (f h).stale = false := by
      rw [hσ]
      rfl
    have hc₀ := (hok.next_mem hp hlock hs hn₀).1
    have heq := hok.eq_zero_of_next (List.mem_cons_of_mem 0 hc₀) hlock' hs (hn.trans hc.symm) hxs
    subst heq
    exact hok.zero_notMem hc₀
  | visit stale c₀ => exact h0 (List.mem_singleton_self 0)
  | stop c₀ => exact h0 (List.mem_singleton_self 0)

theorem Ok.take_place (hok : Ok better S f xs) (ht : Take S (f h) a σ)
    (hfree : (S.cell a).lock = false) : Place better S (Function.update f h σ) xs σ := by
  have hplace := hok.place h
  -- nobody has the sentinel if it is free
  have hzero : (S.cell 0).lock = false → (S.cell 0).next = xs.head? := by
    intro h0
    apply hok.head
    intro u
    rw [← Bool.not_eq_true]
    intro hstale
    have htoken := hok.token 0
    rw [h0] at htoken
    exact htoken.not_held u (Spot.zero_mem_of_stale hstale)
  generalize hσ : f h = τ at ht hplace
  cases ht with
  | enter => trivial
  | enterVisit => exact hzero hfree
  | enterStop => exact Or.inl (hzero hfree)
  | walk k c n => exact hplace
  | start c hn => exact ⟨List.mem_cons_self, hn⟩
  | seek p c n hn => exact ⟨hplace.1, hplace.2, hn⟩
  | visit stale c => exact hplace.symm
  | stop c =>
    rcases hplace with hn | ⟨c₀, hc₀, hn, hw⟩
    · exact Or.inl hn
    · refine Or.inr ⟨c₀, hc₀, hn, hw.update ?_⟩
      have hmem := Ok.mem_of_head? hc₀
      intro hlock
      rcases List.mem_cons.mp hlock with rfl | hlock
      · exact hok.zero_notMem hmem
      · exact (hok.next_mem_of_mem hmem hn).2 (List.mem_singleton.mp hlock).symm

theorem Ok.take (hok : Ok better S f xs) (ht : Take S (f h) a σ) (hfree : (S.cell a).lock = false) :
    Ok better (S.setLock a true) (Function.update f h σ) xs := by
  apply hok.relock (S.setLock a true) rfl (fun _ => Store.key_setLock true)
    (fun _ => Store.next_setLock true) ht.stale
  · exact tokens_take hok.token hfree ht.locks
  · intro c hc h0 hmem
    rcases (ht.locks c).mp hmem with rfl | hmem
    · exact absurd rfl (hok.take_ne_front ht hc h0)
    · exact ⟨hmem, ht.working⟩
  · exact hok.take_place ht hfree

/-- The two cells that a party has behind each other differ. -/
theorem Ok.next_next_ne (hok : Ok better S f xs) (hp : p ∈ 0 :: xs) (hlock : p ∈ (f h).locks)
    (hs : (f h).stale = false) (hn : (S.cell p).next = some c) (hn' : (S.cell c).next = some n) :
    n ≠ p := by
  obtain ⟨hc, -⟩ := hok.next_mem hp hlock hs hn
  obtain ⟨l, r, heq, hnext⟩ := hok.split hp hlock hs
  have hnodup : (l ++ p :: r).Nodup := heq ▸ hok.nodup
  have hpr := (List.nodup_cons.mp hnodup.of_append_right).1
  cases r with
  | nil =>
    rw [hn] at hnext
    cases hnext
  | cons c₀ r =>
    rw [hn] at hnext
    cases hnext
    rintro rfl
    -- the cell behind `c` is in what follows `n`
    have hlinked : (S.cell c).next = r.head? := by
      have hsuffix : ∃ l', xs = l' ++ c :: r := by
        cases l with
        | nil => exact ⟨[], (List.cons.inj heq).2⟩
        | cons x l =>
          rw [List.cons_append] at heq
          exact ⟨l ++ [n], by rw [(List.cons.inj heq).2, List.append_assoc]; rfl⟩
      obtain ⟨l', hxs⟩ := hsuffix
      have hlinked := hok.linked
      rw [hxs] at hlinked
      exact hlinked.next_eq
    rw [hn'] at hlinked
    exact hpr (List.mem_cons_of_mem c (List.mem_of_mem_head? hlinked.symm))

theorem Drop.stale (hd : Drop better S σ a σ') : σ'.stale = σ.stale := by
  cases hd <;> rfl

theorem Drop.mem (hd : Drop better S σ a σ') : a ∈ σ.locks := by
  cases hd <;> simp only [Spot.locks, List.mem_cons, List.not_mem_nil, Option.toList_some,
    Option.toList_none, or_false, true_or, or_true]

theorem mem_drop_first {x y : ℕ} (hne : y ≠ x) (b : ℕ) : b ∈ [y] ↔ b ∈ [x, y] ∧ b ≠ x := by
  simp only [List.mem_cons, List.not_mem_nil, or_false]
  constructor
  · rintro rfl
    exact ⟨Or.inr rfl, hne⟩
  · rintro ⟨rfl | rfl, hb⟩
    · exact absurd rfl hb
    · rfl

theorem mem_drop_second {x y : ℕ} (hne : y ≠ x) (b : ℕ) : b ∈ [x] ↔ b ∈ [x, y] ∧ b ≠ y := by
  simp only [List.mem_cons, List.not_mem_nil, or_false]
  constructor
  · rintro rfl
    exact ⟨Or.inl rfl, hne.symm⟩
  · rintro ⟨rfl | rfl, hb⟩
    · rfl
    · exact absurd rfl hb

theorem mem_drop_only (x b : ℕ) : b ∈ ([] : List ℕ) ↔ b ∈ [x] ∧ b ≠ x := by
  rw [List.mem_singleton]
  exact ⟨fun hb => absurd hb List.not_mem_nil, fun hb => absurd hb.1 hb.2⟩

theorem Ok.drop_locks (hok : Ok better S f xs) (hd : Drop better S (f h) a σ) (b : ℕ) :
    b ∈ σ.locks ↔ b ∈ (f h).locks ∧ b ≠ a := by
  have hplace := hok.place h
  have hnext : (f h).stale = false → ∀ p ∈ 0 :: xs, p ∈ (f h).locks → ∀ c,
      (S.cell p).next = some c → c ≠ p :=
    fun hs p hp hlock c hn => (hok.next_mem hp hlock hs hn).2
  have hnextNext : (f h).stale = false → ∀ p ∈ 0 :: xs, p ∈ (f h).locks → ∀ c n,
      (S.cell p).next = some c → (S.cell c).next = some n → n ≠ p :=
    fun hs p hp hlock c n hn hn' => hok.next_next_ne hp hlock hs hn hn'
  have hzero := hok.zero_notMem
  generalize hσ : f h = τ at hd hplace hnext hnextNext
  cases hd with
  | testPlace k c n hk =>
    exact mem_drop_second (hnext rfl _ hplace.1 List.mem_cons_self _ hplace.2.1) b
  | testOn k c n hk =>
    exact mem_drop_first (hnext rfl _ hplace.1 List.mem_cons_self _ hplace.2.1) b
  | testNext k c n hk =>
    exact mem_drop_first (hnext rfl _ hplace.1 List.mem_cons_self _ hplace.2.1) b
  | linked p c => exact mem_drop_first (hnext rfl _ hplace.1 List.mem_cons_self _ hplace.2) b
  | seekLast p c hn => exact mem_drop_first (hnext rfl _ hplace.1 List.mem_cons_self _ hplace.2) b
  | miss p c => exact mem_drop_first (hnext rfl _ hplace.1 List.mem_cons_self _ hplace.2) b
  | keep p c => exact mem_drop_first (hnext rfl _ hplace.1 List.mem_cons_self _ hplace.2) b
  | seekOn p c n =>
    obtain ⟨hp, hn, hn'⟩ := hplace
    have hne := hnext rfl _ hp List.mem_cons_self _ hn
    have hne' := hnextNext rfl _ hp List.mem_cons_self _ _ hn hn'
    simp only [Spot.locks, List.mem_cons, List.not_mem_nil, or_false, Option.toList_some]
    constructor
    · rintro (rfl | rfl)
      · exact ⟨Or.inr (Or.inl rfl), hne⟩
      · exact ⟨Or.inr (Or.inr rfl), hne'⟩
    · rintro ⟨rfl | hb, hb'⟩
      · exact absurd rfl hb'
      · exact hb
  | probe c =>
    apply mem_drop_second _ b
    rintro rfl
    exact hzero (Ok.mem_of_head? hplace)
  | stopAt c =>
    apply mem_drop_second _ b
    rintro rfl
    rcases hplace with hn | ⟨c₀, hc₀, hn, -⟩
    · exact hzero (Ok.mem_of_head? hn.symm)
    · exact hzero (hok.next_mem_of_mem (Ok.mem_of_head? hc₀) hn).1
  | on c => exact mem_drop_only _ b
  | seekEnd p => exact mem_drop_only _ b
  | off c => exact mem_drop_only _ b
  | leave => exact mem_drop_only 0 b
  | work c => exact mem_drop_only _ b

theorem Ok.drop_place (hok : Ok better S f xs) (hd : Drop better S (f h) a σ) :
    Place better S f' xs σ := by
  have hplace := hok.place h
  have hnext : (f h).stale = false → ∀ p ∈ 0 :: xs, p ∈ (f h).locks → ∀ c,
      (S.cell p).next = some c → c ∈ 0 :: xs :=
    fun hs p hp hlock c hn => List.mem_cons_of_mem 0 (hok.next_mem hp hlock hs hn).1
  generalize hσ : f h = τ at hd hplace hnext
  cases hd with
  | testPlace k c n hk =>
    obtain ⟨hc, hn, hb⟩ := hplace
    refine ⟨hc, fun _ => ⟨hb, ?_⟩⟩
    intro n' hn'
    rw [hn] at hn'
    cases hn'
    exact hk
  | testOn k c n hk =>
    exact ⟨hnext rfl _ hplace.1 List.mem_cons_self _ hplace.2.1, fun hne => absurd hk hne⟩
  | testNext k c n hk =>
    exact ⟨hnext rfl _ hplace.1 List.mem_cons_self _ hplace.2.1, rfl, fun _ => hk⟩
  | linked p c => exact hnext rfl _ hplace.1 List.mem_cons_self _ hplace.2
  | seekLast p c hn => exact ⟨hnext rfl _ hplace.1 List.mem_cons_self _ hplace.2, hn⟩
  | seekOn p c n => exact ⟨hnext rfl _ hplace.1 List.mem_cons_self _ hplace.2.1, hplace.2.2⟩
  | miss p c => exact hok.lt _ (hnext rfl _ hplace.1 List.mem_cons_self _ hplace.2)
  | keep p c => exact hok.lt _ (hnext rfl _ hplace.1 List.mem_cons_self _ hplace.2)
  | _ => trivial

theorem Drop.working (hd : Drop better S σ a σ') : σ.working = false ∨ σ'.locks = [] := by
  cases hd <;> first | exact Or.inl rfl | exact Or.inr rfl

theorem Ok.drop (hok : Ok better S f xs) (hd : Drop better S (f h) a σ) :
    Ok better (S.setLock a false) (Function.update f h σ) xs := by
  apply hok.relock (S.setLock a false) rfl (fun _ => Store.key_setLock false)
    (fun _ => Store.next_setLock false) hd.stale
  · exact tokens_drop hok.token hd.mem (hok.drop_locks hd)
  · intro c _ _ hmem
    refine ⟨((hok.drop_locks hd c).mp hmem).1, ?_⟩
    rcases hd.working with hworking | hempty
    · exact hworking
    · rw [hempty] at hmem
      cases hmem
  · exact hok.drop_place hd

theorem Ok.write (hok : Ok better S f xs) (v : V) : Ok better (S.setVal a v) f xs where
  nodup := hok.nodup
  lt := hok.lt
  linked := hok.linked.congr fun _ _ => Store.next_setVal v
  head := by
    rw [Store.next_setVal]
    exact hok.head
  sorted := by
    simp only [Store.key_setVal]
    exact hok.sorted
  token := by
    intro b
    rw [Store.lock_setVal]
    exact hok.token b
  place := by
    intro u
    have hkey : ∀ b, ((S.setVal a v).cell b).key = (S.cell b).key := fun _ => Store.key_setVal v
    have hnext : ∀ b, ((S.setVal a v).cell b).next = (S.cell b).next := fun _ => Store.next_setVal v
    refine (place_congr ?_ hkey hnext).mpr (hok.place u)
    rfl

/-- All that is locked has been made. -/
theorem Ok.locks_lt (hok : Ok better S f xs) (ha : a ∈ (f h).locks) : a < S.fresh := by
  have hplace := hok.place h
  have hzero : 0 < S.fresh := hok.lt 0 List.mem_cons_self
  have hnext : (f h).stale = false → ∀ p ∈ 0 :: xs, p ∈ (f h).locks → ∀ c,
      (S.cell p).next = some c → c ∈ 0 :: xs :=
    fun hs p hp hlock c hn => List.mem_cons_of_mem 0 (hok.next_mem hp hlock hs hn).1
  have hfront : ∀ c, xs.head? = some c → c < S.fresh :=
    fun c hc => hok.lt c (List.mem_cons_of_mem 0 (Ok.mem_of_head? hc))
  generalize hσ : f h = τ at ha hplace hnext
  cases τ with
  | away => cases ha
  | head | visit stale nxt | popped c | kept c | stop nxt | leave =>
    rw [List.mem_singleton.mp ha]
    exact hzero
  | walk k c nxt =>
    rw [List.mem_singleton.mp ha]
    exact hok.lt c hplace.1
  | place k c =>
    rw [List.mem_singleton.mp ha]
    exact hok.lt c hplace.1
  | on c =>
    rw [List.mem_singleton.mp ha]
    exact hok.lt c hplace
  | off c | work c =>
    rw [List.mem_singleton.mp ha]
    exact hplace
  | test k c n =>
    obtain ⟨hc, hn, -⟩ := hplace
    rcases List.mem_cons.mp ha with rfl | ha
    · exact hok.lt a hc
    · rw [List.mem_singleton.mp ha]
      exact hok.lt n (hnext rfl c hc List.mem_cons_self n hn)
  | linked p c | found p c =>
    obtain ⟨hp, hn⟩ := hplace
    rcases List.mem_cons.mp ha with rfl | ha
    · exact hok.lt a hp
    · rw [List.mem_singleton.mp ha]
      exact hok.lt c (hnext rfl p hp List.mem_cons_self c hn)
  | seek p nxt =>
    obtain ⟨hp, hn⟩ := hplace
    rcases List.mem_cons.mp ha with rfl | ha
    · exact hok.lt a hp
    · have hnxt : nxt = some a := Option.mem_toList.mp ha
      exact hok.lt a (hnext rfl p hp List.mem_cons_self a (hn.trans hnxt))
  | seekOn p c n =>
    obtain ⟨hp, hn, hn'⟩ := hplace
    have hc := (hok.next_mem hp (by rw [hσ]; exact List.mem_cons_self) (by rw [hσ]; rfl) hn).1
    rcases List.mem_cons.mp ha with rfl | ha
    · exact hok.lt a hp
    rcases List.mem_cons.mp ha with rfl | ha
    · exact hok.lt a (List.mem_cons_of_mem 0 hc)
    · rw [List.mem_singleton.mp ha]
      exact hok.lt n (List.mem_cons_of_mem 0 (hok.next_mem_of_mem hc hn').1)
  | probe stale c | fill c =>
    rcases List.mem_cons.mp ha with rfl | ha
    · exact hzero
    · rw [List.mem_singleton.mp ha]
      exact hfront c hplace
  | stopAt n =>
    rcases List.mem_cons.mp ha with rfl | ha
    · exact hzero
    · rw [List.mem_singleton.mp ha]
      rcases hplace with hn | ⟨c, hc, hn, -⟩
      · exact hfront n hn.symm
      · exact hok.lt n
          (List.mem_cons_of_mem 0 (hok.next_mem_of_mem (Ok.mem_of_head? hc) hn).1)

/-- The list changes where the party has locked it. -/
theorem Ok.relist (hok : Ok better S f xs) (hF : Frame S S' f h xs xs') (hnodup : (0 :: xs').Nodup)
    (hlt : ∀ a ∈ 0 :: xs', a < S'.fresh) (hlinked : Linked (fun a => (S'.cell a).next) xs')
    (hhead : (∀ u, (Function.update f h σ u).stale = false) → (S'.cell 0).next = xs'.head?)
    (hsorted : xs'.Pairwise fun a b => better (S'.cell a).key (S'.cell b).key)
    (htoken : ∀ a, Token (S'.cell a).lock fun u => a ∈ (Function.update f h σ u).locks)
    (hfront : ∀ c, xs.head? = some c → 0 ∉ (f h).locks → c ∈ σ.locks →
      c ∈ (f h).locks ∧ (f h).working = false)
    (hplace : Place better S' (Function.update f h σ) xs' σ) :
    Ok better S' (Function.update f h σ) xs' where
  nodup := hnodup
  lt := hlt
  linked := hlinked
  head := hhead
  sorted := hsorted
  token := htoken
  place := by
    intro u
    by_cases hu : u = h
    · subst hu
      rw [Function.update_self]
      exact hplace
    · rw [Function.update_of_ne hu]
      apply hok.frame hF _ hu
      intro c hc h0 hw v hv
      by_cases hvh : v = h
      · subst hvh
        rw [Function.update_self] at hv
        obtain ⟨hmem, hworking⟩ := hfront c hc h0 hv
        rw [hw v hmem] at hworking
        cases hworking
      · rw [Function.update_of_ne hvh] at hv ⊢
        exact hw v hv

theorem Relink.facts (hr : Relink σ nxt σ') : σ'.locks = σ.locks ∧ 0 ∈ σ.locks ∧
    σ.working = false ∧ σ'.stale = false := by
  cases hr with
  | visit nxt => exact ⟨rfl, List.mem_singleton_self 0, rfl, rfl⟩
  | probe c => exact ⟨rfl, List.mem_cons_self, rfl, rfl⟩

theorem Ok.relink (hok : Ok better S f xs) (hr : Relink (f h) nxt σ) :
    Ok better (S.setNext 0 nxt) (Function.update f h σ) xs := by
  obtain ⟨hlocks, h0, hworking, -⟩ := hr.facts
  have hnxt : nxt = xs.head? := by
    have hplace := hok.place h
    generalize f h = τ at hr hplace
    cases hr with
    | visit nxt => exact hplace
    | probe c => exact hplace.symm
  have hother : ∀ a ∈ xs, a ≠ 0 := fun a ha => ne_of_mem_of_not_mem ha hok.zero_notMem
  apply hok.relist (h := h)
  · refine ⟨le_refl _, fun _ _ => Store.key_setNext nxt, ?_, fun _ ha => Or.inl ha,
      fun _ ha => Or.inl ha, Or.inr rfl⟩
    intro a _
    by_cases ha : a = 0
    · subst ha
      exact Or.inr ⟨h0, List.mem_cons_self, hworking⟩
    · exact Or.inl (Store.next_setNext_ne nxt ha)
  · exact hok.nodup
  · exact hok.lt
  · exact hok.linked.congr fun a ha => Store.next_setNext_ne nxt (hother a ha)
  · intro _
    rw [Store.next_setNext_self]
    exact hnxt
  · simp only [Store.key_setNext]
    exact hok.sorted
  · intro a
    rw [Store.lock_setNext]
    apply tokens_same hok.token
    rw [hlocks]
    exact fun _ => Iff.rfl
  · intro c _ h0'
    exact absurd h0 h0'
  · have hplace := hok.place h
    generalize f h = τ at hr hplace
    cases hr with
    | visit nxt => exact hplace
    | probe c => exact hplace

/-- A key goes between two neighbours. -/
theorem pairwise_insert {l r : List ℕ} {key key' : ℕ → K} {b : ℕ}
    (htrans : ∀ x y z, better x y → better y z → better x z)
    (hs : (l ++ c :: r).Pairwise fun x y => better (key x) (key y))
    (hkey : ∀ x ∈ l ++ c :: r, key' x = key x) (hbefore : better (key c) (key' b))
    (hbehind : ∀ n, r.head? = some n → better (key' b) (key n)) :
    (l ++ c :: b :: r).Pairwise fun x y => better (key' x) (key' y) := by
  have hafter : ∀ x ∈ r, better (key' b) (key x) := by
    intro x hx
    cases r with
    | nil => cases hx
    | cons n r =>
      have hn := hbehind n rfl
      rcases List.mem_cons.mp hx with rfl | hx
      · exact hn
      · have hcr := (List.pairwise_append.mp hs).2.1
        exact htrans _ _ _ hn ((List.pairwise_cons.mp (List.pairwise_cons.mp hcr).2).1 x hx)
  have hmap : (l ++ c :: r).Pairwise fun x y => better (key' x) (key' y) := by
    apply hs.imp_of_mem
    intro x y hx hy hxy
    rw [hkey x hx, hkey y hy]
    exact hxy
  obtain ⟨hl, hcr, hlr⟩ := List.pairwise_append.mp hmap
  obtain ⟨hc, hr⟩ := List.pairwise_cons.mp hcr
  have hkeyc := hkey c (List.mem_append_right _ List.mem_cons_self)
  have hkeyr : ∀ x ∈ r, key' x = key x := fun x hx =>
    hkey x (List.mem_append_right _ (List.mem_cons_of_mem c hx))
  refine List.pairwise_append.mpr ⟨hl, List.pairwise_cons.mpr ⟨?_, List.pairwise_cons.mpr
    ⟨?_, hr⟩⟩, ?_⟩
  · intro x hx
    rcases List.mem_cons.mp hx with rfl | hx
    · rw [hkeyc]
      exact hbefore
    · exact hc x hx
  · intro x hx
    rw [hkeyr x hx]
    exact hafter x hx
  · intro x hx y hy
    rcases List.mem_cons.mp hy with rfl | hy
    · exact hlr x hx y List.mem_cons_self
    rcases List.mem_cons.mp hy with rfl | hy
    · have hxc := hlr x hx c List.mem_cons_self
      rw [hkeyc] at hxc
      exact htrans _ _ _ hxc hbefore
    · exact hlr x hx y (List.mem_cons_of_mem c hy)

theorem Ok.insert_tokens (hok : Ok better S f xs) {k : K} (hp : f h = .place k c) (v : V) (b : ℕ) :
    Token ((S.insert c k v).cell b).lock fun u =>
      b ∈ (Function.update f h (.linked c S.fresh) u).locks := by
  have hc : c ∈ (f h).locks := by
    rw [hp]
    exact List.mem_singleton_self c
  have hne : S.fresh ≠ c := (hok.locks_lt hc).ne'
  by_cases hb : b = S.fresh
  · subst hb
    rw [Store.cell_insert_fresh k v hne]
    refine ⟨⟨fun _ => ⟨h, ?_⟩, fun _ => rfl⟩, ?_⟩
    · rw [Function.update_self]
      exact List.mem_cons_of_mem c (List.mem_singleton_self _)
    · have hself : ∀ u, S.fresh ∈ (Function.update f h (.linked c S.fresh) u).locks → u = h := by
        intro u hu
        by_contra huh
        rw [Function.update_of_ne huh] at hu
        exact lt_irrefl _ (hok.locks_lt hu)
      intro u w hu hw
      rw [hself u hu, hself w hw]
  · have hlock : ((S.insert c k v).cell b).lock = (S.cell b).lock := by
      by_cases hbc : b = c
      · subst hbc
        rw [Store.cell_insert_self]
      · rw [Store.cell_insert_ne k v hbc hb]
    rw [hlock]
    apply (hok.token b).congr
    intro u
    by_cases hu : u = h
    · subst hu
      rw [Function.update_self, hp]
      simp only [Spot.locks, List.mem_cons, List.not_mem_nil, or_false]
      exact or_iff_left hb
    · rw [Function.update_of_ne hu]

/-- What an insertion needs, whatever the list is afterwards. -/
theorem Ok.insert_relist (hok : Ok better S f xs) {k : K} (hp : f h = .place k c) (v : V)
    (hmem : ∀ a, a ∈ 0 :: xs' ↔ a ∈ 0 :: xs ∨ a = S.fresh)
    (hfront : 0 ∈ (f h).locks ∨ xs'.head? = xs.head?) (hnodup : (0 :: xs').Nodup)
    (hlinked : Linked (fun a => ((S.insert c k v).cell a).next) xs')
    (hhead : (∀ u, (Function.update f h (.linked c S.fresh) u).stale = false) →
      ((S.insert c k v).cell 0).next = xs'.head?)
    (hsorted : xs'.Pairwise fun a b =>
      better ((S.insert c k v).cell a).key ((S.insert c k v).cell b).key) :
    Ok better (S.insert c k v) (Function.update f h (.linked c S.fresh)) xs' := by
  have hlock : c ∈ (f h).locks := by
    rw [hp]
    exact List.mem_singleton_self c
  have hc : c ∈ 0 :: xs := by
    have hplace := hok.place h
    rw [hp] at hplace
    exact hplace.1
  refine hok.relist ⟨Nat.le_succ _, fun a ha => Store.key_insert k v ha.ne, ?_,
    fun a ha => Or.inl ((hmem a).mpr (Or.inl ha)), fun a ha => (hmem a).mp ha, hfront⟩ hnodup ?_
    hlinked hhead hsorted (hok.insert_tokens hp v) ?_ ⟨(hmem c).mpr (Or.inl hc), ?_⟩
  · intro a ha
    by_cases hac : a = c
    · subst hac
      exact Or.inr ⟨hlock, hc, by rw [hp]; rfl⟩
    · rw [Store.cell_insert_ne k v hac ha.ne]
      exact Or.inl rfl
  · intro a ha
    rcases (hmem a).mp ha with ha | rfl
    · exact (hok.lt a ha).trans (Nat.lt_succ_self _)
    · exact Nat.lt_succ_self _
  · intro d hd _ hmem'
    rcases List.mem_cons.mp hmem' with rfl | hmem'
    · exact ⟨hlock, by rw [hp]; rfl⟩
    · rw [List.mem_singleton.mp hmem'] at hd
      exact absurd (hok.lt _ (List.mem_cons_of_mem 0 (Ok.mem_of_head? hd))) (lt_irrefl _)
  · rw [Store.cell_insert_self]

/-- Behind the sentinel. -/
theorem Ok.insert_first (hok : Ok better S f xs)
    (htrans : ∀ x y z, better x y → better y z → better x z) {k : K} (hp : f h = .place k 0)
    (hk : (S.cell 0).key ≠ k) (v : V) :
    Ok better (S.insert 0 k v) (Function.update f h (.linked 0 S.fresh)) (S.fresh :: xs) := by
  have hlock : 0 ∈ (f h).locks := by
    rw [hp]
    exact List.mem_singleton_self 0
  have hhead := hok.next_zero hlock (by rw [hp]; rfl)
  have hbehind : ∀ n, (S.cell 0).next = some n → better k (S.cell n).key := by
    have hplace := hok.place h
    rw [hp] at hplace
    exact (hplace.2 hk).2
  have hne : S.fresh ≠ 0 := (hok.lt 0 List.mem_cons_self).ne'
  have hnew : S.fresh ∉ xs := fun hmem => lt_irrefl _ (hok.lt _ (List.mem_cons_of_mem 0 hmem))
  have hkeys : ∀ a ∈ xs, ((S.insert 0 k v).cell a).key = (S.cell a).key := fun a ha =>
    Store.key_insert k v (ne_of_mem_of_not_mem ha hnew)
  have hkey : ((S.insert 0 k v).cell S.fresh).key = k := by
    rw [Store.cell_insert_fresh k v hne]
  refine hok.insert_relist hp v ?_ (Or.inl hlock) ?_ ⟨?_, hok.linked.congr ?_⟩ ?_ ?_
  · intro a
    simp only [List.mem_cons]
    tauto
  · have hnodup := List.nodup_cons.mp hok.nodup
    refine List.nodup_cons.mpr ⟨?_, List.nodup_cons.mpr ⟨hnew, hnodup.2⟩⟩
    intro h0
    rcases List.mem_cons.mp h0 with h0 | h0
    · exact hne h0.symm
    · exact hnodup.1 h0
  · dsimp only
    rw [Store.cell_insert_fresh k v hne]
    exact hhead
  · intro a ha
    have ha0 : a ≠ 0 := ne_of_mem_of_not_mem ha hok.zero_notMem
    rw [Store.cell_insert_ne k v ha0 (ne_of_mem_of_not_mem ha hnew)]
  · intro _
    rw [Store.cell_insert_self]
    rfl
  · refine List.pairwise_cons.mpr ⟨?_, ?_⟩
    · intro a ha
      rw [hkey, hkeys a ha]
      cases xs with
      | nil => cases ha
      | cons n ys =>
        have hn := hbehind n hhead
        rcases List.mem_cons.mp ha with rfl | ha
        · exact hn
        · exact htrans _ _ _ hn ((List.pairwise_cons.mp hok.sorted).1 a ha)
    · apply hok.sorted.imp_of_mem
      intro x y hx hy hxy
      rw [hkeys x hx, hkeys y hy]
      exact hxy

/-- Behind a cell of the list. -/
theorem Ok.insert_later {l r : List ℕ} (hok : Ok better S f (l ++ c :: r))
    (htrans : ∀ x y z, better x y → better y z → better x z) {k : K} (hp : f h = .place k c)
    (hk : (S.cell c).key ≠ k) (v : V) :
    Ok better (S.insert c k v) (Function.update f h (.linked c S.fresh)) (l ++ c :: S.fresh :: r) := by
  have hcx : c ∈ l ++ c :: r := List.mem_append_right _ List.mem_cons_self
  have hc0 : c ≠ 0 := ne_of_mem_of_not_mem hcx hok.zero_notMem
  have hnext := hok.linked.next_eq
  obtain ⟨hbefore, hbehind⟩ : better (S.cell c).key k ∧
      ∀ n, (S.cell c).next = some n → better k (S.cell n).key := by
    have hplace := hok.place h
    rw [hp] at hplace
    exact ⟨(hplace.2 hk).1 hc0, (hplace.2 hk).2⟩
  have hnew : S.fresh ∉ l ++ c :: r :=
    fun hmem => lt_irrefl _ (hok.lt _ (List.mem_cons_of_mem 0 hmem))
  have hne : S.fresh ≠ c := (ne_of_mem_of_not_mem hcx hnew).symm
  have hkey : ((S.insert c k v).cell S.fresh).key = k := by
    rw [Store.cell_insert_fresh k v hne]
  have hhead : (l ++ c :: S.fresh :: r).head? = (l ++ c :: r).head? := by
    cases l <;> rfl
  have hperm : (l ++ c :: S.fresh :: r).Perm (S.fresh :: (l ++ c :: r)) := by
    rw [List.append_cons l c (S.fresh :: r), List.append_cons l c r]
    exact List.perm_middle
  refine hok.insert_relist hp v ?_ (Or.inr hhead) ?_ ?_ ?_ ?_
  · intro a
    simp only [List.mem_cons, List.mem_append]
    tauto
  · obtain ⟨hzero, hnodup⟩ := List.nodup_cons.mp hok.nodup
    refine List.nodup_cons.mpr ⟨?_, hperm.nodup_iff.mpr (List.nodup_cons.mpr ⟨hnew, hnodup⟩)⟩
    intro h0
    rcases List.mem_cons.mp (hperm.mem_iff.mp h0) with h0 | h0
    · exact (hok.lt 0 List.mem_cons_self).ne h0
    · exact hzero h0
  · apply (hok.linked.insert (List.nodup_cons.mp hok.nodup).2 hnew).congr
    intro a _
    by_cases hac : a = c
    · subst hac
      rw [Store.cell_insert_self, Function.update_self]
    · rw [Function.update_of_ne hac]
      by_cases haf : a = S.fresh
      · subst haf
        rw [Store.cell_insert_fresh k v hne, Function.update_self]
      · rw [Store.cell_insert_ne k v hac haf, Function.update_of_ne haf]
  · intro hall
    rw [Store.cell_insert_ne k v hc0.symm (hok.lt 0 List.mem_cons_self).ne, hhead]
    apply hok.head
    intro u
    have hu := hall u
    by_cases huh : u = h
    · rw [huh, hp]
      rfl
    · rw [Function.update_of_ne huh] at hu
      exact hu
  · apply pairwise_insert htrans hok.sorted
    · exact fun a ha => Store.key_insert k v (ne_of_mem_of_not_mem ha hnew)
    · rw [hkey]
      exact hbefore
    · intro n hn
      rw [hkey]
      exact hbehind n (hnext.trans hn)

theorem Ok.insert (hok : Ok better S f xs) (htrans : ∀ x y z, better x y → better y z → better x z)
    {k : K} (hp : f h = .place k c) (hk : (S.cell c).key ≠ k) (v : V) :
    ∃ xs' l r, Ok better (S.insert c k v) (Function.update f h (.linked c S.fresh)) xs' ∧
      0 :: xs = l ++ c :: r ∧ 0 :: xs' = l ++ c :: S.fresh :: r := by
  have hplace := hok.place h
  rw [hp] at hplace
  rcases List.mem_cons.mp hplace.1 with rfl | hc
  · exact ⟨_, [], xs, hok.insert_first htrans hp hk v, rfl, rfl⟩
  · obtain ⟨l, r, rfl⟩ := List.append_of_mem hc
    exact ⟨_, 0 :: l, r, hok.insert_later htrans hp hk v, rfl, rfl⟩

/-- What a removal needs, whatever the list is afterwards. -/
theorem Ok.unlink_relist (hok : Ok better S f xs) (hp : f h = .found p c)
    (hsub : ∀ a ∈ 0 :: xs', a ∈ 0 :: xs) (hmem : ∀ a ∈ 0 :: xs, a ∈ 0 :: xs' ∨ a = c)
    (hfront : 0 ∈ (f h).locks ∨ xs'.head? = xs.head?) (hsublist : xs'.Sublist xs)
    (hlinked : Linked
      (fun a => (((S.setNext p (S.cell c).next).setLock p false).cell a).next) xs')
    (hhead : (∀ u, (Function.update f h (.off c) u).stale = false) →
      (((S.setNext p (S.cell c).next).setLock p false).cell 0).next = xs'.head?) :
    Ok better ((S.setNext p (S.cell c).next).setLock p false) (Function.update f h (.off c)) xs' := by
  have hplace := hok.place h
  rw [hp] at hplace
  obtain ⟨hpx, hn⟩ := hplace
  have hlock : p ∈ (f h).locks := by
    rw [hp]
    exact List.mem_cons_self
  have hlock' : c ∈ (f h).locks := by
    rw [hp]
    exact List.mem_cons_of_mem p (List.mem_singleton_self c)
  have hs : (f h).stale = false := by
    rw [hp]
    rfl
  have hworking : (f h).working = false := by
    rw [hp]
    rfl
  have hne := (hok.next_mem hpx hlock hs hn).2
  have hkey : ∀ a, (((S.setNext p (S.cell c).next).setLock p false).cell a).key = (S.cell a).key := by
    intro a
    rw [Store.key_setLock, Store.key_setNext]
  refine hok.relist ⟨le_refl _, fun a _ => hkey a, ?_, ?_, fun a ha => Or.inl (hsub a ha), hfront⟩
    (hok.nodup.sublist (hsublist.cons_cons 0)) (fun a ha => hok.lt a (hsub a ha)) hlinked hhead ?_ ?_
    ?_ (hok.lt c (List.mem_cons_of_mem 0 (hok.next_mem hpx hlock hs hn).1))
  · intro a _
    rw [Store.next_setLock]
    by_cases hap : a = p
    · subst hap
      exact Or.inr ⟨hlock, hpx, hworking⟩
    · exact Or.inl (Store.next_setNext_ne _ hap)
  · intro a ha
    rcases hmem a ha with ha | rfl
    · exact Or.inl ha
    · exact Or.inr hlock'
  · simp only [hkey]
    exact hok.sorted.sublist hsublist
  · apply tokens_drop (S := S.setNext p (S.cell c).next) _ hlock
    · rw [hp]
      exact mem_drop_first hne
    · intro b
      rw [Store.lock_setNext]
      exact hok.token b
  · intro d _ _ hd
    rw [List.mem_singleton.mp hd]
    exact ⟨hlock', hworking⟩

theorem Ok.unlink (hok : Ok better S f xs) (hp : f h = .found p c) :
    ∃ xs' l r, Ok better ((S.setNext p (S.cell c).next).setLock p false)
      (Function.update f h (.off c)) xs' ∧ 0 :: xs = l ++ p :: c :: r ∧ 0 :: xs' = l ++ p :: r := by
  have hplace := hok.place h
  rw [hp] at hplace
  obtain ⟨hpx, hn⟩ := hplace
  have hlock : p ∈ (f h).locks := by
    rw [hp]
    exact List.mem_cons_self
  have hs : (f h).stale = false := by
    rw [hp]
    rfl
  rcases List.mem_cons.mp hpx with rfl | hpx
  · -- the front is taken out
    have hhead := hok.next_zero hlock hs
    rw [hn] at hhead
    cases xs with
    | nil => cases hhead
    | cons d ys =>
      cases hhead
      refine ⟨ys, [], ys, hok.unlink_relist hp ?_ ?_ (Or.inl hlock) (List.sublist_cons_self c ys)
        (hok.linked.2.congr ?_) ?_, rfl, rfl⟩
      · intro a ha
        rcases List.mem_cons.mp ha with rfl | ha
        · exact List.mem_cons_self
        · exact List.mem_cons_of_mem 0 (List.mem_cons_of_mem c ha)
      · intro a ha
        simp only [List.mem_cons] at ha ⊢
        tauto
      · intro a ha
        have ha0 : a ≠ 0 := ne_of_mem_of_not_mem (List.mem_cons_of_mem c ha) hok.zero_notMem
        rw [Store.next_setLock, Store.next_setNext_ne _ ha0]
      · intro _
        rw [Store.next_setLock, Store.next_setNext_self]
        exact hok.linked.1
  · obtain ⟨l, r, rfl⟩ := List.append_of_mem hpx
    have hnext := hok.linked.next_eq
    rw [hn] at hnext
    cases r with
    | nil => cases hnext
    | cons d r =>
      cases hnext
      have hnodup := (List.nodup_cons.mp hok.nodup).2
      have hp0 : p ≠ 0 := ne_of_mem_of_not_mem hpx hok.zero_notMem
      have hsublist : (l ++ p :: r).Sublist (l ++ p :: c :: r) :=
        ((List.sublist_cons_self c r).cons_cons p).append_left l
      have hhead : (l ++ p :: r).head? = (l ++ p :: c :: r).head? := by
        cases l <;> rfl
      refine ⟨l ++ p :: r, 0 :: l, r, hok.unlink_relist hp
        (fun a ha => (hsublist.cons_cons 0).subset ha) ?_ (Or.inr hhead) hsublist
        ((hok.linked.unlink hnodup).congr ?_) ?_, rfl, rfl⟩
      · intro a ha
        simp only [List.mem_cons, List.mem_append] at ha ⊢
        tauto
      · intro a _
        rw [Store.next_setLock]
        by_cases hap : a = p
        · subst hap
          rw [Store.next_setNext_self, Function.update_self]
        · rw [Store.next_setNext_ne _ hap, Function.update_of_ne hap]
      · intro hall
        rw [Store.next_setLock, Store.next_setNext_ne _ hp0.symm, hhead]
        apply hok.head
        intro u
        have hu := hall u
        by_cases huh : u = h
        · rw [huh]
          exact hs
        · rw [Function.update_of_ne huh] at hu
          exact hu

/-- A party that has the sentinel starts another one. -/
theorem Ok.handOver (hok : Ok better S f xs) (hF : Frame S S f h xs xs') (h0 : 0 ∈ (f h).locks)
    (hne : h' ≠ h) (haway : f h' = .away) (hnodup : (0 :: xs').Nodup)
    (hlt : ∀ a ∈ 0 :: xs', a < S.fresh) (hlinked : Linked (fun a => (S.cell a).next) xs')
    (hhead : σ.stale = false → (∀ u, (f u).stale = false) → (S.cell 0).next = xs'.head?)
    (hstale : σ.stale = false → (f h).stale = false)
    (hsorted : xs'.Pairwise fun a b => better (S.cell a).key (S.cell b).key)
    (hlocks : ∀ b, b ∈ (f h).locks ↔ b ∈ σ.locks ∨ b ∈ σ'.locks)
    (hdisj : ∀ b ∈ σ.locks, b ∉ σ'.locks)
    (hplace : Place better S (Function.update (Function.update f h σ) h' σ') xs' σ)
    (hplace' : Place better S (Function.update (Function.update f h σ) h' σ') xs' σ') :
    Ok better S (Function.update (Function.update f h σ) h' σ') xs' where
  nodup := hnodup
  lt := hlt
  linked := hlinked
  head := by
    intro hall
    have hself := hall h
    rw [Function.update_of_ne hne.symm, Function.update_self] at hself
    apply hhead hself
    intro u
    by_cases huh : u = h
    · rw [huh]
      exact hstale hself
    · by_cases huh' : u = h'
      · rw [huh', haway]
        rfl
      · have hu := hall u
        rw [Function.update_of_ne huh', Function.update_of_ne huh] at hu
        exact hu
  sorted := hsorted
  token := tokens_give hok.token hne (by rw [haway]; rfl) hlocks hdisj
  place := by
    intro u
    by_cases huh' : u = h'
    · rw [huh', Function.update_self]
      exact hplace'
    · rw [Function.update_of_ne huh']
      by_cases huh : u = h
      · rw [huh, Function.update_self]
        exact hplace
      · rw [Function.update_of_ne huh]
        exact hok.frame hF (fun c _ h0' => absurd h0 h0') huh

theorem Ok.give (hok : Ok better S f xs) (hp : f h = .head) (hne : h' ≠ h) (haway : f h' = .away) :
    Ok better S (Function.update (Function.update f h .away) h' .head) xs := by
  have h0 : 0 ∈ (f h).locks := by
    rw [hp]
    exact List.mem_singleton_self 0
  refine hok.handOver (Frame.same rfl (fun _ => rfl) fun _ => rfl) h0 hne haway hok.nodup hok.lt
    hok.linked (fun _ => hok.head) ?_ hok.sorted ?_ ?_ trivial trivial
  · intro _
    rw [hp]
    rfl
  · intro b
    rw [hp]
    exact (or_iff_right List.not_mem_nil).symm
  · intro b hb
    cases hb

theorem Ok.fill_facts (hok : Ok better S f xs) (hp : f h = .fill c) :
    0 ∈ (f h).locks ∧ c ≠ 0 ∧ (f h).stale = false ∧ ∃ ys, xs = c :: ys := by
  have hplace := hok.place h
  rw [hp] at hplace
  have hmem := Ok.mem_of_head? hplace
  refine ⟨?_, ne_of_mem_of_not_mem hmem hok.zero_notMem, ?_, ?_⟩
  · rw [hp]
    exact List.mem_cons_self
  · rw [hp]
    rfl
  · cases xs with
    | nil => cases hplace
    | cons d ys =>
      cases hplace
      exact ⟨ys, rfl⟩

theorem Ok.pop (hok : Ok better S f xs) (hp : f h = .fill c) (hne : h' ≠ h) (haway : f h' = .away) :
    ∃ xs', Ok better S (Function.update (Function.update f h (.popped c)) h' (.work c)) xs' ∧
      xs = c :: xs' := by
  obtain ⟨h0, hc0, hs, ys, rfl⟩ := hok.fill_facts hp
  have hnodup := List.nodup_cons.mp hok.nodup
  have hcys := (List.nodup_cons.mp hnodup.2).1
  have hsub : ∀ a ∈ 0 :: ys, a ∈ 0 :: c :: ys := by
    intro a ha
    simp only [List.mem_cons] at ha ⊢
    tauto
  have hlock : c ∈ (f h).locks := by
    rw [hp]
    exact List.mem_cons_of_mem 0 (List.mem_singleton_self c)
  have hlt := hok.lt c (List.mem_cons_of_mem 0 List.mem_cons_self)
  have hF : Frame S S f h (c :: ys) ys := by
    refine ⟨le_refl _, fun _ _ => rfl, fun _ _ => Or.inl rfl, ?_, fun a ha => Or.inl (hsub a ha),
      Or.inl h0⟩
    intro a ha
    by_cases hac : a = c
    · exact Or.inr (hac ▸ hlock)
    · simp only [List.mem_cons] at ha ⊢
      tauto
  refine ⟨ys, hok.handOver hF h0 hne haway ?_ (fun a ha => hok.lt a (hsub a ha)) hok.linked.2 ?_
    (fun _ => hs) (List.pairwise_cons.mp hok.sorted).2 ?_ ?_ ⟨?_, hlt, hok.linked.1⟩ hlt, rfl⟩
  · exact hok.nodup.sublist ((List.sublist_cons_self c ys).cons_cons 0)
  · intro hstale
    cases hstale
  · intro b
    rw [hp]
    simp only [Spot.locks, List.mem_cons, List.not_mem_nil, or_false]
  · intro b hb hb'
    rw [List.mem_singleton.mp hb] at hb'
    exact hc0 (List.mem_singleton.mp hb').symm
  · intro hmem
    rcases List.mem_cons.mp hmem with hmem | hmem
    · exact hc0 hmem
    · exact hcys hmem

theorem Ok.keep (hok : Ok better S f xs) (hp : f h = .fill c) (hne : h' ≠ h) (haway : f h' = .away) :
    Ok better S (Function.update (Function.update f h (.kept c)) h' (.work c)) xs := by
  obtain ⟨h0, hc0, hs, ys, rfl⟩ := hok.fill_facts hp
  have hlock : c ∈ (f h).locks := by
    rw [hp]
    exact List.mem_cons_of_mem 0 (List.mem_singleton_self c)
  have hlt := hok.lt c (List.mem_cons_of_mem 0 List.mem_cons_self)
  refine hok.handOver (Frame.same rfl (fun _ => rfl) fun _ => rfl) h0 hne haway hok.nodup hok.lt
    hok.linked (fun _ => hok.head) (fun _ => hs) hok.sorted ?_ ?_ ⟨rfl, ?_⟩ hlt
  · intro b
    rw [hp]
    simp only [Spot.locks, List.mem_cons, List.not_mem_nil, or_false]
  · intro b hb hb'
    rw [List.mem_singleton.mp hb] at hb'
    exact hc0 (List.mem_singleton.mp hb').symm
  · -- the front was locked by this party only
    intro u hu
    by_cases huh' : u = h'
    · rw [huh', Function.update_self]
      rfl
    · rw [Function.update_of_ne huh'] at hu ⊢
      by_cases huh : u = h
      · rw [huh, Function.update_self] at hu
        exact absurd (List.mem_singleton.mp hu) hc0
      · rw [Function.update_of_ne huh] at hu
        exact absurd (hok.eq_of_mem hu hlock) huh

/-- Every step keeps it. -/
theorem Ok.step (hok : Ok better S f xs) (htrans : ∀ x y z, better x y → better y z → better x z)
    (hs : Step better S f h S' f') : ∃ xs', Ok better S' f' xs' := by
  cases hs with
  | move σ hm => exact ⟨xs, hok.move hm⟩
  | take a σ ht hfree => exact ⟨xs, hok.take ht hfree⟩
  | drop a σ hd => exact ⟨xs, hok.drop hd⟩
  | write a v ha => exact ⟨xs, hok.write v⟩
  | relink nxt σ hr => exact ⟨xs, hok.relink hr⟩
  | insert k c v hp hk =>
    obtain ⟨xs', l, r, hok', -⟩ := hok.insert htrans hp hk v
    exact ⟨xs', hok'⟩
  | unlink p c hp =>
    obtain ⟨xs', l, r, hok', -⟩ := hok.unlink hp
    exact ⟨xs', hok'⟩
  | give h' hp hne hp' => exact ⟨xs, hok.give hp hne hp'⟩
  | pop h' c hp hne hp' =>
    obtain ⟨xs', hok', -⟩ := hok.pop hp hne hp'
    exact ⟨xs', hok'⟩
  | keep h' c hp hne hp' => exact ⟨xs, hok.keep hp hne hp'⟩

/-- A step leaves the other parties where they are; it may start one. -/
theorem Step.spot_other {u : H} (hs : Step better S f h S' f') (hne : u ≠ h) (hu : f u ≠ .away) :
    f' u = f u := by
  have hone : ∀ σ, Function.update f h σ u = f u := fun σ => Function.update_of_ne hne ..
  have hnew : ∀ (h' : H) σ τ, f h' = .away → Function.update (Function.update f h σ) h' τ u = f u := by
    intro h' σ τ haway
    have hne' : u ≠ h' := by
      rintro rfl
      exact hu haway
    rw [Function.update_of_ne hne', hone]
  cases hs with
  | move σ hm => exact hone σ
  | take a σ ht hfree => exact hone σ
  | drop a σ hd => exact hone σ
  | write a v ha => rfl
  | relink nxt σ hr => exact hone σ
  | insert k c v hp hk => exact hone _
  | unlink p c hp => exact hone _
  | give h' hp hne hp' => exact hnew h' _ _ hp'
  | pop h' c hp hne hp' => exact hnew h' _ _ hp'
  | keep h' c hp hne hp' => exact hnew h' _ _ hp'

/-- It leaves the values of the cells that another party has locked. -/
theorem Ok.val_other {u : H} (hok : Ok better S f xs) (hs : Step better S f h S' f') (hne : u ≠ h)
    (ha : a ∈ (f u).locks) : (S'.cell a).val = (S.cell a).val := by
  cases hs with
  | move σ hm => rfl
  | take b σ ht hfree => exact Store.val_setLock true
  | drop b σ hd => exact Store.val_setLock false
  | write b v hb =>
    apply Store.val_setVal_ne
    rintro rfl
    exact hne (hok.eq_of_mem ha hb)
  | relink nxt σ hr => exact Store.val_setNext nxt
  | insert k c v hp hk =>
    by_cases hc : a = c
    · subst hc
      rw [Store.cell_insert_self]
    · rw [Store.cell_insert_ne k v hc (hok.locks_lt ha).ne]
  | unlink p c hp => rw [Store.val_setLock, Store.val_setNext]
  | give h' hp hne hp' => rfl
  | pop h' c hp hne hp' => rfl
  | keep h' c hp hne hp' => rfl

/-- So do several steps of one party. -/
theorem Ok.steps {v w : Store K V × (H → Spot K)} (hok : Ok better v.1 v.2 xs)
    (htrans : ∀ x y z, better x y → better y z → better x z)
    (hs : Relation.ReflTransGen (fun x y => Step better x.1 x.2 h y.1 y.2) v w) :
    (∃ ys, Ok better w.1 w.2 ys) ∧ ∀ u, u ≠ h → v.2 u ≠ .away →
      w.2 u = v.2 u ∧ ∀ a ∈ (v.2 u).locks, (w.1.cell a).val = (v.1.cell a).val := by
  induction hs with
  | refl => exact ⟨⟨xs, hok⟩, fun u _ _ => ⟨rfl, fun a _ => rfl⟩⟩
  | tail _ hstep ih =>
    obtain ⟨⟨ys, hys⟩, hother⟩ := ih
    refine ⟨hys.step htrans hstep, ?_⟩
    intro u hne hu
    obtain ⟨hspot, hval⟩ := hother u hne hu
    have hu' := hspot ▸ hu
    refine ⟨(hstep.spot_other hne hu').trans hspot, ?_⟩
    intro a ha
    exact (hys.val_other hstep hne (hspot ▸ ha)).trans (hval a ha)

/-! ## The list is determined -/

/-- The first cell of the list, as a party sees it that is ahead of the link of the sentinel, and
    otherwise as the sentinel says. -/
def Spot.front (S : Store K V) : Spot K → Option ℕ
  | .visit true nxt => nxt
  | .probe true c => some c
  | .popped c => (S.cell c).next
  | _ => (S.cell 0).next

theorem Ok.front_of_stale (hok : Ok better S f xs) (hs : (f h).stale = true) :
    xs.head? = (f h).front S := by
  have hplace := hok.place h
  cases hσ : f h with
  | visit stale nxt =>
    rw [hσ] at hs hplace
    obtain rfl : stale = true := hs
    exact hplace.symm
  | probe stale c =>
    rw [hσ] at hs hplace
    obtain rfl : stale = true := hs
    exact hplace
  | popped c =>
    rw [hσ] at hplace
    exact hplace.2.2.symm
  | _ =>
    rw [hσ] at hs
    cases hs

theorem Spot.front_of_not_stale {σ : Spot K} (hs : σ.stale = false) : σ.front S = (S.cell 0).next := by
  cases σ with
  | visit stale nxt =>
    obtain rfl : stale = false := hs
    rfl
  | probe stale c =>
    obtain rfl : stale = false := hs
    rfl
  | popped c => cases hs
  | _ => rfl

theorem Ok.front_eq (hok : Ok better S f xs) (hother : ∀ u, u ≠ h → (f u).stale = false) :
    xs.head? = (f h).front S := by
  cases hs : (f h).stale with
  | true => exact hok.front_of_stale hs
  | false =>
    rw [Spot.front_of_not_stale hs]
    apply (hok.head _).symm
    intro u
    by_cases hu : u = h
    · rw [hu, hs]
    · exact hother u hu

/-- When a party moves and the links stay, but for that of the sentinel, the list is the same if the
    party sees the same first cell. -/
theorem Ok.list_eq (hok : Ok better S f xs) (hok' : Ok better S' f' xs')
    (hother : ∀ u, u ≠ h → f' u = f u ∨ (f u).stale = false ∧ (f' u).stale = false)
    (hnext : ∀ a, a ≠ 0 → (S'.cell a).next = (S.cell a).next)
    (hfront : (f' h).front S' = (f h).front S) : xs' = xs := by
  have hhead : xs'.head? = xs.head? := by
    by_cases hall : ∀ u, u ≠ h → (f u).stale = false
    · rw [hok.front_eq hall, ← hfront]
      apply hok'.front_eq
      intro u hu
      rcases hother u hu with heq | ⟨-, hs⟩
      · rw [heq, hall u hu]
      · exact hs
    · -- somebody else is ahead of the sentinel, and stays where it is
      push Not at hall
      obtain ⟨u, hu, hs⟩ := hall
      rw [ne_eq, Bool.not_eq_false] at hs
      have heq : f' u = f u := by
        rcases hother u hu with heq | ⟨hs', -⟩
        · exact heq
        · rw [hs'] at hs
          cases hs
      rw [hok.front_of_stale hs, hok'.front_of_stale (heq ▸ hs), heq]
      have hplace := hok.place u
      cases hσ : f u with
      | visit stale nxt =>
        rw [hσ] at hs
        obtain rfl : stale = true := hs
        rfl
      | probe stale c =>
        rw [hσ] at hs
        obtain rfl : stale = true := hs
        rfl
      | popped c =>
        rw [hσ] at hplace
        exact hnext c (ne_of_mem_of_not_mem List.mem_cons_self hplace.1).symm
      | _ =>
        rw [hσ] at hs
        cases hs
  apply hok'.linked.unique (hok.linked.congr _) hhead
  intro a ha
  exact hnext a (ne_of_mem_of_not_mem ha hok.zero_notMem)

/-- A state has one list. -/
theorem Ok.unique [Inhabited H] (hok : Ok better S f xs) (hok' : Ok better S f xs') : xs' = xs :=
  hok.list_eq (h := default) hok' (fun _ _ => Or.inl rfl) (fun _ _ => rfl) rfl

/-! ## Who waits -/

/-- The cell that a party is about to lock is one of the list, or the party comes to the sentinel. -/
theorem Ok.take_mem (hok : Ok better S f xs) (ht : Take S (f h) a σ) (haway : f h ≠ .away) :
    a ∈ xs := by
  have hplace := hok.place h
  have hmem := fun c n => hok.next_mem (h := h) (c := c) (n := n)
  have hzero := hok.next_zero (h := h)
  generalize f h = τ at ht hplace haway hmem hzero
  cases ht with
  | enter => exact absurd rfl haway
  | enterVisit => exact absurd rfl haway
  | enterStop => exact absurd rfl haway
  | walk k c n => exact (hmem c a hplace.1 (List.mem_singleton_self c) rfl hplace.2.1).1
  | start c hn =>
    rw [hzero (List.mem_singleton_self 0) rfl] at hn
    exact Ok.mem_of_head? hn
  | seek p c n hn =>
    have hc := (hmem p c hplace.1 List.mem_cons_self rfl hplace.2).1
    exact (hok.next_mem_of_mem hc hn).1
  | visit stale c => exact Ok.mem_of_head? hplace.symm
  | stop c =>
    rcases hplace with hc | ⟨c₀, hc₀, hn, -⟩
    · exact Ok.mem_of_head? hc.symm
    · exact (hok.next_mem_of_mem (Ok.mem_of_head? hc₀) hn).1

/-- Whoever has locked the last of the locked cells finds the next one free. -/
theorem Ok.take_free {l r : List ℕ} {m : ℕ} (hok : Ok better S f (l ++ m :: r))
    (hm : m ∈ (f h).locks) (hlast : ∀ b ∈ r, (S.cell b).lock = false) (ht : Take S (f h) a σ) :
    (S.cell a).lock = false := by
  have hplace := hok.place h
  have htoken := fun b (hb : b ∈ (f h).locks) => (hok.token b).full_of hb
  have hne0 : m ≠ 0 := by
    rintro rfl
    exact hok.zero_notMem (List.mem_append_right l List.mem_cons_self)
  have hnext : ∀ n, (S.cell m).next = some n → (S.cell n).lock = false := by
    intro n hn
    rw [hok.linked.next_eq] at hn
    exact hlast n (List.mem_of_mem_head? hn)
  generalize f h = τ at ht hplace hm htoken
  cases ht with
  | enter => cases hm
  | enterVisit => cases hm
  | enterStop => cases hm
  | walk k c n =>
    obtain rfl := List.mem_singleton.mp hm
    exact hnext a hplace.2.1
  | start c hn => exact absurd (List.mem_singleton.mp hm) hne0
  | seek p c n hn =>
    -- the cell that it looks at comes later, so that one is the last
    rcases List.mem_cons.mp hm with rfl | hm
    · have hfree := hnext c hplace.2
      rw [htoken c (List.mem_cons_of_mem m (List.mem_singleton_self c))] at hfree
      cases hfree
    · obtain rfl := List.mem_singleton.mp hm
      exact hnext a hn
  | visit stale c => exact absurd (List.mem_singleton.mp hm) hne0
  | stop c => exact absurd (List.mem_singleton.mp hm) hne0

/-- If somebody in the list waits for a lock, then somebody else has a lock behind the sentinel and finds
    the next one free, and has not come to the front to hand it out either. -/
theorem Ok.exists_free (hok : Ok better S f xs) (ht : Take S (f h) a σ) (haway : f h ≠ .away)
    (hlock : (S.cell a).lock = true) :
    ∃ u m, m ∈ (f u).locks ∧ m ≠ 0 ∧ (∀ c, f u ≠ .fill c) ∧
      ∀ b τ, Take S (f u) b τ → (S.cell b).lock = false := by
  have ha := hok.take_mem ht haway
  let owner : ℕ → Option ℕ := fun b => if (S.cell b).lock then some b else none
  have hlocked : ∃ b ∈ xs, owner b ≠ none := by
    refine ⟨a, ha, ?_⟩
    simp only [owner, hlock, if_true, ne_eq, reduceCtorEq, not_false_eq_true]
  obtain ⟨l, m, r, t, rfl, how, hlast⟩ := LockChain.exists_last_locked hlocked
  simp only [owner] at how hlast
  have hlockm : (S.cell m).lock = true := by
    by_contra hfree
    rw [if_neg hfree] at how
    cases how
  have hfree : ∀ b ∈ r, (S.cell b).lock = false := by
    intro b hb
    by_contra hb'
    have hnone := hlast b hb
    rw [if_pos (Bool.not_eq_false _ ▸ hb')] at hnone
    cases hnone
  obtain ⟨u, hu⟩ := (hok.token m).full_iff.mp hlockm
  have hm0 : m ≠ 0 := by
    rintro rfl
    exact hok.zero_notMem (List.mem_append_right l List.mem_cons_self)
  refine ⟨u, m, hu, hm0, ?_, fun b τ hτ => hok.take_free hu hfree hτ⟩
  -- at the front nothing else of the list is locked, and the front is not waited for
  · intro c hfill
    obtain ⟨h0, -, -, ys, hys⟩ := hok.fill_facts hfill
    rw [hfill] at hu
    have hmc : m = c := by
      rcases List.mem_cons.mp hu with hm | hm
      · exact absurd hm hm0
      · exact List.mem_singleton.mp hm
    subst hmc
    have hne : h ≠ u := by
      rintro rfl
      rw [hfill] at ht
      cases ht
    have h0' : 0 ∉ (f h).locks := fun hmem => hne (hok.eq_of_mem hmem h0)
    have hhead : (l ++ m :: r).head? = some m := by
      rw [hys]
      rfl
    have hl : l = [] := by
      cases l with
      | nil => rfl
      | cons x l =>
        exfalso
        cases hhead
        have hnd := (List.nodup_cons.mp hok.nodup).2
        exact (List.nodup_cons.mp hnd).1 (List.mem_append_right l List.mem_cons_self)
    subst hl
    rcases List.mem_cons.mp ha with rfl | ha
    · exact hok.take_ne_front ht hhead h0' rfl
    · rw [hfree a ha] at hlock
      cases hlock

end Keeps

end Ok

end CoupledList
