import MatchingEngine.Cpp.Runs

/-!
# No deadlock

A thread that waits for a node behind the ones it holds waits for someone further down the chain.
The last locked node of a chain therefore belongs to a thread that can step, or to one that wants the
head of the other side; only the thread that holds the mutex of the book does that.
-/

set_option linter.unusedSectionVars false

namespace MatchingEngine.Cpp

open LockChain PriceTime

variable {I T : Type} [DecidableEq I] [DecidableEq T] {s s' : Sys ℕ I T} {V : View I T} {t : T}
  {j : Job I} {pc : Pc ℕ I} {i : I} {sd : Side} {l m r : List (Cell I T)} {c d : Cell I T}

/-- What a thread that cannot step waits for. -/
inductive Waits (s : Sys ℕ I T) (V : View I T) (t : T) : Prop
  /-- the mutex of a book -/
  | book {j : Job I} (hpc : (s.thread t).pc = .lockBook j) (hm : (s.getBook j.book).m ≠ none)
  /-- the head of its own side -/
  | cross {j : Job I} {v : ℤ} (hpc : (s.thread t).pc = .lockAddHead j v)
      (hm : ∃ d ∈ V j.book j.side, d.owner ≠ none)
  /-- a node behind all that it holds -/
  | node (hm : ∃ i sd, ∃ d ∈ V i sd, d.owner ≠ none)
      (hlast : ∀ i sd l c r, V i sd = l ++ c :: r → c.owner = some t → ∃ d ∈ r, d.owner ≠ none)

theorem Sys.lock_none (hs : s.lock t i sd c.addr pc = none)
    (h : Shows (s.chain i sd) s.heap (l ++ c :: r)) : c.owner ≠ none := by
  have hm : (s.node i sd c.addr).m = c.owner := h.mutex c (by simp)
  unfold Sys.lock at hs
  rw [hm] at hs
  intro hfree
  rw [hfree] at hs
  cases hs

section Waiting

variable (h : Inv s V)

include h

/-- A thread that holds nothing of a chain but one stretch waits for the node behind it. -/
theorem Inv.waits_behind (hV : V i sd = l ++ m ++ d :: r) (hd : d.owner ≠ none)
    (hm : ∀ c ∈ m, c.owner = some t) (hrest : ∀ c ∈ l ++ d :: r, c.owner ≠ some t)
    (helse : ∀ i' sd', ¬ (i' = i ∧ sd' = sd) → ∀ c ∈ V i' sd', c.owner ≠ some t) :
    Waits s V t := by
  have hdV : d ∈ V i sd := by simp [hV]
  refine .node ⟨i, sd, d, hdV, hd⟩ ?_
  intro i' sd' l' c r' hV' hc
  have hcV : c ∈ V i' sd' := by simp [hV']
  by_cases hi : i' = i ∧ sd' = sd
  · rcases hi with ⟨rfl, rfl⟩
    have hh : Holds Cell.owner Cell.key t (l' ++ c :: r') fun _ nxt => nxt = some d.key :=
      ⟨l, m, d :: r, hV'.symm.trans hV, hm, hrest, rfl⟩
    rcases hh.next_of_mem hc with ⟨cells, nxt, -, rfl, hnext⟩
    rcases hnext d.key rfl with ⟨b, hb, hkey⟩
    have hbd : b = d := by
      apply (h.shows i' sd').eq_of_addr (by simp [hV', hb]) hdV
      exact congrArg Prod.fst hkey
    exact ⟨d, hbd ▸ hb, hd⟩
  · exact absurd hc (helse i' sd' hi c hcV)

theorem Inv.only_own (hpc : (s.thread t).pc = pc) (hj : pc.job = some j)
    (hopp : ∀ (o : Order ℕ I) (cells : List (Cell I T)) nxt sd, pc.oppBlock o cells nxt sd →
      cells = []) :
    ∀ i sd, ¬ (i = j.book ∧ sd = j.side) → ∀ c ∈ V i sd, c.owner ≠ some t := by
  intro i sd hne
  by_cases hi : i = j.book
  · subst hi
    rcases Side.eq_or_eq_opp j.side sd with rfl | rfl
    · exact absurd ⟨rfl, rfl⟩ hne
    · exact not_owner_of_nil ((h.opp hpc hj).imp fun cells nxt _ hb => hopp _ cells nxt _ hb)
  · apply not_owner_of_nil
    apply h.elsewhere hpc
    intro j' hj'
    rw [hj] at hj'
    cases hj'
    exact hi

theorem Inv.only_opp (hpc : (s.thread t).pc = pc) (hj : pc.job = some j)
    (hown : ∀ (o : Order ℕ I) (cells : List (Cell I T)) nxt, pc.ownBlock o cells nxt →
      cells = []) :
    ∀ i sd, ¬ (i = j.book ∧ sd = j.side.opp) → ∀ c ∈ V i sd, c.owner ≠ some t := by
  intro i sd hne
  by_cases hi : i = j.book
  · subst hi
    rcases Side.eq_or_eq_opp j.side sd with rfl | rfl
    · exact not_owner_of_nil ((h.own hpc hj).imp fun cells nxt _ hb => hown _ cells nxt hb)
    · exact absurd ⟨rfl, rfl⟩ hne
  · apply not_owner_of_nil
    apply h.elsewhere hpc
    intro j' hj'
    rw [hj] at hj'
    cases hj'
    exact hi

/-- A thread that holds nothing waits for a head. -/
theorem Inv.waits_head {pc' : Pc ℕ I} (hs : s.lock t i sd 0 pc' = none)
    (hnone : ∀ i sd, ∀ c ∈ V i sd, c.owner ≠ some t) : Waits s V t := by
  have hsh := h.shows i sd
  rcases hsh.exists_head with ⟨c, r, hV, hc0⟩
  rw [hV] at hsh
  rw [← hc0] at hs
  refine .node ⟨i, sd, c, by simp [hV], Sys.lock_none (l := []) hs hsh⟩ ?_
  intro i' sd' l' c' r' hV' hc'
  exact absurd hc' (hnone i' sd' c' (by simp [hV']))

theorem Inv.none_of_job (hpc : (s.thread t).pc = pc) (hj : pc.job = some j)
    (hown : ∀ (o : Order ℕ I) (cells : List (Cell I T)) nxt, pc.ownBlock o cells nxt →
      cells = [])
    (hopp : ∀ (o : Order ℕ I) (cells : List (Cell I T)) nxt sd, pc.oppBlock o cells nxt sd →
      cells = []) :
    ∀ i sd, ∀ c ∈ V i sd, c.owner ≠ some t := by
  intro i sd
  by_cases hi : i = j.book ∧ sd = j.side
  · rcases hi with ⟨rfl, rfl⟩
    exact not_owner_of_nil ((h.own hpc hj).imp fun cells nxt _ hb => hown _ cells nxt hb)
  · exact h.only_own hpc hj hopp i sd hi

/-- The node behind its stretch is the one a thread tries to lock. -/
theorem Inv.waits_lock {a : Addr} {pc' : Pc ℕ I} (hs : s.lock t i sd a pc' = none)
    (hV : V i sd = l ++ m ++ r) (hm : ∀ c ∈ m, c.owner = some t)
    (hrest : ∀ c ∈ l ++ r, c.owner ≠ some t)
    (ha : (r.head?.map Cell.key).map Prod.fst = some a)
    (helse : ∀ i' sd', ¬ (i' = i ∧ sd' = sd) → ∀ c ∈ V i' sd', c.owner ≠ some t) :
    Waits s V t := by
  cases r with
  | nil => cases ha
  | cons d r =>
    cases Option.some.inj ha
    have hsh := h.shows i sd
    rw [hV] at hsh
    exact h.waits_behind hV (Sys.lock_none hs hsh) hm hrest helse

/-- A thread that has something to do and does not step waits for a mutex. -/
theorem Inv.waits (hcmds : (s.thread t).cmds ≠ []) (hs : s.step t = none) : Waits s V t := by
  rw [Sys.step.eq_def] at hs
  cases hpc : (s.thread t).pc with
  | ready =>
    rw [hpc] at hs
    cases hc : (s.thread t).cmds with
    | nil => exact absurd hc hcmds
    | cons c cs =>
      rw [hc] at hs
      cases c <;> cases hs
  | getBook j =>
    rw [hpc] at hs
    dsimp only at hs
    split at hs <;> cases hs
  | lockBook j =>
    rw [hpc] at hs
    refine .book hpc ?_
    intro hfree
    change s.lockM t j.book _ = none at hs
    unfold Sys.lockM at hs
    rw [hfree] at hs
    cases hs
  | lockMatchHead j =>
    rw [hpc] at hs
    exact h.waits_head hs
      (h.none_of_job hpc rfl (fun _ _ _ hb => hb) fun _ _ _ _ hb => hb)
  | walk j v curr =>
    rw [hpc] at hs
    cases curr with
    | none => cases hs
    | some curr =>
      rcases h.opp hpc rfl with ⟨l, m, r, hV, hm, hrest, -, hnext⟩
      have helse := h.only_opp hpc rfl fun _ _ _ hb => hb
      dsimp only at hs
      split at hs
      · split at hs
        · exact h.waits_lock hs hV hm hrest hnext helse
        · exact h.waits_lock hs hV hm hrest hnext helse
      · cases hs
  | lockAddHead j v =>
    rw [hpc] at hs
    refine .cross hpc ?_
    have hsh := h.shows j.book j.side
    rcases hsh.exists_head with ⟨c, r, hV, hc0⟩
    rw [hV] at hsh
    change s.lock t j.book j.side 0 _ = none at hs
    rw [← hc0] at hs
    exact ⟨c, by simp [hV], Sys.lock_none (l := []) hs hsh⟩
  | matchTest j v curr =>
    rw [hpc] at hs
    cases curr with
    | none => cases hs
    | some curr =>
      dsimp only at hs
      split at hs <;> cases hs
  | matchNode j v curr its k =>
    rw [hpc] at hs
    cases its with
    | nil => cases hs
    | cons it its =>
      dsimp only at hs
      split at hs <;> cases hs
  | addWalk j curr next =>
    rw [hpc] at hs
    cases next with
    | none => cases hs
    | some next =>
      rcases h.own hpc rfl with ⟨l, m, r, hV, hm, hrest, -, hnext⟩
      have helse := h.only_own hpc rfl fun _ _ _ _ hb => hb
      dsimp only at hs
      split at hs
      · exact h.waits_lock hs hV hm hrest hnext helse
      · split at hs
        · exact h.waits_lock hs hV hm hrest hnext helse
        · exact h.waits_lock hs hV hm hrest hnext helse
  | addPlace j curr =>
    rw [hpc] at hs
    dsimp only at hs
    split at hs <;> cases hs
  | getOrder orderId inputTime =>
    rw [hpc] at hs
    dsimp only at hs
    split at hs <;> cases hs
  | getBookOf order =>
    rw [hpc] at hs
    dsimp only at hs
    split at hs
    next hget => exact absurd hget (h.objs.booked t order hpc)
    · cases hs
  | lockHead j =>
    rw [hpc] at hs
    exact h.waits_head hs
      (h.none_of_job hpc rfl (fun _ _ _ hb => hb) fun _ _ _ _ hb => hb)
  | lockFirst j =>
    rw [hpc] at hs
    rcases h.own hpc rfl with ⟨l, m, r, hV, hm, hrest, c, rfl, hc0, -, -⟩
    have hsh := h.shows j.book j.side
    rw [hV, List.append_assoc] at hsh
    have hnext : (s.node j.book j.side c.addr).next = _ := hsh.next_eq
    rw [hc0] at hnext
    dsimp only at hs
    split at hs
    · cases hs
    next curr hcurr =>
      rw [hcurr] at hnext
      exact h.waits_lock hs hV hm hrest hnext.symm (h.only_own hpc rfl fun _ _ _ _ hb => hb)
  | cancelTest j curr =>
    rw [hpc] at hs
    cases curr with
    | none => cases hs
    | some curr =>
      rcases h.own hpc rfl with ⟨l, m, r, hV, hm, hrest, c, rfl, rfl, -, -⟩
      have hsh := h.shows j.book j.side
      rw [hV, List.append_assoc] at hsh
      have hnext : (s.node j.book j.side c.addr).next = _ := hsh.next_eq
      dsimp only at hs
      split at hs
      · split at hs
        · cases hs
        next next hn =>
          rw [hn] at hnext
          exact h.waits_lock hs hV hm hrest hnext.symm (h.only_own hpc rfl fun _ _ _ _ hb => hb)
      · split at hs <;> cases hs
  | _ =>
    rw [hpc] at hs
    cases hs

end Waiting

/-- A thread that has read a command has not dropped it. -/
theorem Told.cmds_ne_nil (h : Told s t) (hpc : (s.thread t).pc ≠ .ready) :
    (s.thread t).cmds ≠ [] := by
  have hsome : ∃ c, (s.thread t).cmds.head? = some c := by
    cases hp : (s.thread t).pc with
    | ready => exact absurd hp hpc
    | getOrder orderId inputTime => exact ⟨_, h.lookup _ _ (Or.inl hp)⟩
    | printMiss orderId inputTime => exact ⟨_, h.lookup _ _ (Or.inr hp)⟩
    | unlockHead j curr =>
      rcases h.cancel j.order (by rw [hp]; rfl) (by rw [hp]; cases curr <;> rfl) with ⟨time, hc⟩
      exact ⟨_, hc⟩
    | cancelTest j curr =>
      rcases h.cancel j.order (by rw [hp]; rfl) (by rw [hp]; cases curr <;> rfl) with ⟨time, hc⟩
      exact ⟨_, hc⟩
    | getBookOf order =>
      rcases h.cancel order (by rw [hp]; rfl) (by rw [hp]; rfl) with ⟨time, hc⟩
      exact ⟨_, hc⟩
    | lockHead j | lockFirst j | printRejected j | cancelOn j curr next | cancelEnd j curr
    | cancelMissed j curr | printAccepted j curr | cancelUnlock j curr =>
      rcases h.cancel j.order (by rw [hp]; rfl) (by rw [hp]; rfl) with ⟨time, hc⟩
      exact ⟨_, hc⟩
    | _ =>
      rcases h.order _ (by rw [hp]; rfl) (by rw [hp]; rfl) with ⟨count, hc, -⟩
      exact ⟨_, hc⟩
  rcases hsome with ⟨c, hc⟩
  intro hnil
  rw [hnil] at hc
  cases hc

/-- Whoever has locked something has a command in progress. -/
theorem Inv.not_ready (h : Inv s V) (hc : c ∈ V i sd) (how : c.owner = some t) :
    (s.thread t).pc ≠ .ready := by
  intro hpc
  have hnone : Holds Cell.owner Cell.key t (V i sd) fun cells _ => cells = [] :=
    h.elsewhere hpc (fun _ hj => by cases hj)
  exact not_owner_of_nil hnone c hc how

/-- Some thread can step as long as some command is unfinished. -/
theorem Inv.progress (h : Inv s V) (hk : ∀ u, Told s u) (hcmds : (s.thread t).cmds ≠ []) :
    ∃ u, (s.thread u).cmds ≠ [] ∧ (s.step u).isSome := by
  by_contra hall
  have hwaits : ∀ u, (s.thread u).cmds ≠ [] → Waits s V u := by
    intro u hu
    apply h.waits hu
    by_contra hs
    exact hall ⟨u, hu, Option.isSome_iff_ne_none.mpr hs⟩
  -- whoever has locked the last locked node of a chain wants the head of the other side
  have hcross : ∀ i sd, (∃ c ∈ V i sd, c.owner ≠ none) → ∃ u j v,
      (s.thread u).pc = .lockAddHead j v ∧ i = j.book ∧ sd = j.side.opp ∧
        ∃ d ∈ V j.book j.side, d.owner ≠ none := by
    intro i sd hlocked
    rcases exists_last_locked hlocked with ⟨l, c, r, u, hV, how, hfree⟩
    have hc : c ∈ V i sd := by simp [hV]
    cases hwaits u ((hk u).cmds_ne_nil (h.not_ready hc how)) with
    | book hpc hm =>
      exact absurd how
        (h.none_of_job hpc rfl (fun _ _ _ hb => hb) (fun _ _ _ _ hb => hb) i sd c hc)
    | cross hpc hm =>
      have hopp := h.only_opp hpc rfl fun _ _ _ hb => hb
      rcases Classical.em (i = _ ∧ sd = _) with ⟨hi, hsd⟩ | hne
      · exact ⟨u, _, _, hpc, hi, hsd, hm⟩
      · exact absurd how (hopp i sd hne c hc)
    | node hm hlast =>
      rcases hlast i sd l c r hV how with ⟨d, hd, hne⟩
      exact absurd (hfree d hd) hne
  have hfree : ∀ i sd, ¬ ∃ c ∈ V i sd, c.owner ≠ none := by
    intro i sd hlocked
    rcases hcross i sd hlocked with ⟨u, j, v, hpc, rfl, rfl, hlocked'⟩
    rcases hcross j.book j.side hlocked' with ⟨w, j', v', hpc', hbook, hside, -⟩
    -- both hold the mutex of the book, so they are one thread
    have hu : (s.getBook j.book).m = some u := (h.bookM _ _).mpr (by rw [hpc]; rfl)
    have hw : (s.getBook j.book).m = some w := (h.bookM _ _).mpr (by rw [hpc', hbook]; rfl)
    have huw : u = w := Option.some.inj (hu.symm.trans hw)
    subst huw
    rw [hpc] at hpc'
    cases hpc'
    exact Side.opp_ne _ hside.symm
  cases hwaits t hcmds with
  | book hpc hm =>
    rcases Option.ne_none_iff_exists'.mp hm with ⟨w, hw⟩
    have hlocked := (h.bookM _ w).mp hw
    have hw' : (s.thread w).pc ≠ .ready := by
      intro hr
      rw [hr] at hlocked
      cases hlocked
    cases hwaits w ((hk w).cmds_ne_nil hw') with
    | book hpc' hm' =>
      rw [hpc'] at hlocked
      cases hlocked
    | cross hpc' hm' => exact hfree _ _ hm'
    | node hm' hlast =>
      rcases hm' with ⟨i, sd, hm'⟩
      exact hfree i sd hm'
  | cross hpc hm => exact hfree _ _ hm
  | node hm hlast =>
    rcases hm with ⟨i, sd, hm⟩
    exact hfree i sd hm

/-- Between commands nothing is locked. -/
theorem Inv.all_free (h : Inv s V) (hready : ∀ u, (s.thread u).pc = .ready) (i : I) :
    (s.getBook i).m = none ∧ ∀ sd a, (s.node i sd a).m = none := by
  constructor
  · by_contra hm
    rcases Option.ne_none_iff_exists'.mp hm with ⟨u, hu⟩
    have hlocked := (h.bookM _ u).mp hu
    rw [hready u] at hlocked
    cases hlocked
  · intro sd a
    by_cases ha : a ∈ (V i sd).map Cell.addr
    · rcases List.mem_map.mp ha with ⟨c, hc, rfl⟩
      have hmutex : (s.node i sd c.addr).m = c.owner := (h.shows i sd).mutex c hc
      rw [hmutex]
      by_contra hne
      rcases Option.ne_none_iff_exists'.mp hne with ⟨u, hu⟩
      exact h.not_ready hc hu (hready u)
    · exact (h.shows i sd).free a ha

/-- Two threads, a buy order on one and on the other a sell order that it crosses. -/
def crossing : Bool → List (Command ℕ String)
  | true => [.order .buy 1 "GOOG" 2705 10 1]
  | false => [.order .sell 2 "GOOG" 2700 10 2, .cancel 2 3]

theorem uniqueIds_crossing : UniqueIds crossing where
  nodup := by
    intro t
    cases t <;> exact List.nodup_singleton _
  apart := by
    intro t u
    cases t <;> cases u <;> simp [crossing, newId, List.filterMap_cons]

end MatchingEngine.Cpp
