import MatchingEngine.Lib.Token
import Mathlib.Data.Fintype.Card
import Mathlib.Logic.Function.Basic
import Mathlib.Tactic.ByContra

/-!
# The lock of a bucket of `ConcurrentHashMap`

`RWLock` is made of three channels of capacity 1 and a counter.  A reader (`Get`) passes through
`turnstile` and takes part in `readSwitchLock` and `readSwitchUnlock`; a writer (`Set`, `Remove`) keeps
`turnstile` and `roomEmptyLock`.  Each send, receive and access to the counter is one step.
-/

set_option linter.unusedSectionVars false

namespace MatchingEngine.Go.RWLock

/-- The channels of `type RWLock struct`. -/
inductive Channel
  | turnstile
  | roomEmptyLock
  | readSwitch
  deriving DecidableEq, Repr

/-- A call on the map for a key of the bucket, and how many steps it takes in the chain. -/
inductive Op
  | get (steps : ℕ)
  | set (steps : ℕ)
  | remove (steps : ℕ)
  deriving DecidableEq, Repr

/-- What a goroutine does next. -/
inductive Pc
  /-- the next call -/
  | idle
  /-- `Get` up to `readSwitchLock` -/
  | passTurnstile
  | leaveTurnstile
  /-- `readSwitchLock` -/
  | lockSwitch
  | readCounter
  | increment (counter : ℤ)
  | testFirst
  | lockRoom
  | lockDone
  /-- the chain of the bucket -/
  | reading
  /-- `readSwitchUnlock` -/
  | unlockSwitch
  | rereadCounter
  | decrement (counter : ℤ)
  | testLast
  | unlockRoom
  | unlockDone
  /-- `Set` and `Remove`: the locks, then `m.numReadersArr[h] == 0` -/
  | writeTurnstile
  | writeRoom
  | busyWait
  /-- the chain of the bucket -/
  | writing
  /-- the deferred releases -/
  | returnTurnstile
  | returnRoom
  deriving DecidableEq, Repr

structure Goroutine where
  pc : Pc
  /-- the steps that are left in the chain -/
  steps : ℕ
  ops : List Op

structure Sys (T : Type) where
  /-- whether the channel holds its message -/
  full : Channel → Bool
  counter : ℤ
  /-- `numReadersArr[h]` -/
  numReaders : ℤ
  goroutine : T → Goroutine

variable {T : Type} [DecidableEq T]

namespace Sys

/-- `NewRWLock()`. -/
def init (ops : T → List Op) : Sys T where
  full := fun _ => false
  counter := 0
  numReaders := 0
  goroutine := fun t => { pc := .idle, steps := 0, ops := ops t }

variable (s : Sys T) (t : T)

def goto (pc : Pc) : Sys T :=
  { s with goroutine := Function.update s.goroutine t { s.goroutine t with pc } }

/-- `c <- struct{}{}`. -/
def send (c : Channel) : Option (Sys T) :=
  if s.full c then none else some { s with full := Function.update s.full c true }

/-- `<-c`. -/
def receive (c : Channel) : Option (Sys T) :=
  if s.full c then some { s with full := Function.update s.full c false } else none

/-- The next call starts. -/
def call : Option (Sys T) :=
  match (s.goroutine t).ops with
  | [] => none
  | .get steps :: ops =>
    some { s with goroutine := Function.update s.goroutine t { pc := .passTurnstile, steps, ops } }
  | .set steps :: ops | .remove steps :: ops =>
    some { s with goroutine := Function.update s.goroutine t { pc := .writeTurnstile, steps, ops } }

/-- One step in the chain, then `pc`. -/
def walk (pc : Pc) : Sys T :=
  match (s.goroutine t).steps with
  | 0 => s.goto t pc
  | steps + 1 =>
    { s with goroutine := Function.update s.goroutine t { s.goroutine t with steps } }

/-- One step of a goroutine; `none` if it has ended or waits. -/
def step : Option (Sys T) :=
  match (s.goroutine t).pc with
  | .idle => s.call t
  | .passTurnstile => (s.send .turnstile).map fun s' => s'.goto t .leaveTurnstile
  | .leaveTurnstile => (s.receive .turnstile).map fun s' => s'.goto t .lockSwitch
  | .lockSwitch => (s.send .readSwitch).map fun s' => s'.goto t .readCounter
  | .readCounter => some (s.goto t (.increment s.counter))
  | .increment counter => some ({ s with counter := counter + 1 }.goto t .testFirst)
  | .testFirst => some (if s.counter = 1 then s.goto t .lockRoom else s.goto t .lockDone)
  | .lockRoom => (s.send .roomEmptyLock).map fun s' => s'.goto t .lockDone
  | .lockDone => (s.receive .readSwitch).map fun s' => s'.goto t .reading
  | .reading => some (s.walk t .unlockSwitch)
  | .unlockSwitch => (s.send .readSwitch).map fun s' => s'.goto t .rereadCounter
  | .rereadCounter => some (s.goto t (.decrement s.counter))
  | .decrement counter => some ({ s with counter := counter - 1 }.goto t .testLast)
  | .testLast => some (if s.counter = 0 then s.goto t .unlockRoom else s.goto t .unlockDone)
  | .unlockRoom => (s.receive .roomEmptyLock).map fun s' => s'.goto t .unlockDone
  | .unlockDone => (s.receive .readSwitch).map fun s' => s'.goto t .idle
  | .writeTurnstile => (s.send .turnstile).map fun s' => s'.goto t .writeRoom
  | .writeRoom => (s.send .roomEmptyLock).map fun s' => s'.goto t .busyWait
  -- the loop goes round until there are none
  | .busyWait => some (if s.numReaders = 0 then s.goto t .writing else s)
  | .writing => some (s.walk t .returnTurnstile)
  | .returnTurnstile => (s.receive .turnstile).map fun s' => s'.goto t .returnRoom
  | .returnRoom => (s.receive .roomEmptyLock).map fun s' => s'.goto t .idle

/-- The states that some interleaving of the goroutines reaches. -/
inductive Reachable (ops : T → List Op) : Sys T → Prop
  | init : Reachable ops (init ops)
  | step {s s' : Sys T} {t : T} (h : Reachable ops s) (hs : s.step t = some s') : Reachable ops s'

/-- The steps of these one after the other; one that is not possible is left out. -/
def run (s : Sys T) : List T → Sys T
  | [] => s
  | t :: ts => run ((s.step t).getD s) ts

theorem Reachable.run {ops : T → List Op} {s : Sys T} (h : Reachable ops s) (ts : List T) :
    Reachable ops (s.run ts) := by
  induction ts generalizing s with
  | nil => exact h
  | cons t ts ih =>
    apply ih
    cases hs : s.step t with
    | none => exact h
    | some s' => exact h.step hs

end Sys

/-! ## Who has what -/

namespace Pc

/-- Between a send on `turnstile` and the receive. -/
def hasTurnstile : Pc → Bool
  | .leaveTurnstile | .writeRoom | .busyWait | .writing | .returnTurnstile => true
  | _ => false

/-- Between a send on `readSwitch` and the receive. -/
def hasReadSwitch : Pc → Bool
  | .readCounter | .increment _ | .testFirst | .lockRoom | .lockDone | .rereadCounter | .decrement _
  | .testLast | .unlockRoom | .unlockDone => true
  | _ => false

/-- A writer between its send on `roomEmptyLock` and the receive. -/
def hasRoom : Pc → Bool
  | .busyWait | .writing | .returnTurnstile | .returnRoom => true
  | _ => false

/-- A reader between its increment and its decrement. -/
def counted : Pc → Bool
  | .testFirst | .lockRoom | .lockDone | .reading | .unlockSwitch | .rereadCounter | .decrement _ =>
    true
  | _ => false

/-- A reader that finds the room taken by the readers, until it sees that others are left or gives the
    room back. -/
def settled : Pc → Bool
  | .lockDone | .reading | .unlockSwitch | .rereadCounter | .decrement _ | .testLast | .unlockRoom =>
    true
  | _ => false

/-- The next step reads or writes the counter. -/
def accesses : Pc → Bool
  | .readCounter | .increment _ | .testFirst | .rereadCounter | .decrement _ | .testLast => true
  | _ => false

/-- The channel that the next step receives from. -/
def releases : Pc → Option Channel
  | .leaveTurnstile | .returnTurnstile => some .turnstile
  | .lockDone | .unlockDone => some .readSwitch
  | .unlockRoom | .returnRoom => some .roomEmptyLock
  | _ => none

/-- What a goroutine at `readSwitch` knows about the counter. -/
def Knows (counter : ℤ) : Pc → Prop
  | .increment c | .decrement c => c = counter
  | .lockRoom => counter = 1
  | .unlockRoom => counter = 0
  | _ => True

end Pc

section Invariant

variable {s s' : Sys T} {t : T} {pc pc' : Pc} {full : Bool}

/-- Who is at a place of this kind. -/
def At (p : Pc → Bool) (s : Sys T) (t : T) : Prop := p (s.goroutine t).pc = true

/-- Who has taken the room: a writer, or the readers as one (`none`). -/
def InRoom (s : Sys T) : Option T → Prop
  | some t => At Pc.hasRoom s t
  | none => ∃ t, At Pc.settled s t

/-- One goroutine goes from `pc` to `pc'`. -/
structure Moves (s s' : Sys T) (t : T) (pc pc' : Pc) : Prop where
  before : (s.goroutine t).pc = pc
  after : (s'.goroutine t).pc = pc'
  other : ∀ u, u ≠ t → s'.goroutine u = s.goroutine u

/-! ### The tokens -/

theorem Moves.at_other (hm : Moves s s' t pc pc') (p : Pc → Bool) (u : T) (hu : u ≠ t) :
    At p s' u ↔ At p s u := by
  unfold At
  rw [hm.other u hu]

theorem Moves.at_congr (hm : Moves s s' t pc pc') {p : Pc → Bool} (hp : p pc' = p pc) (u : T) :
    At p s' u ↔ At p s u := by
  by_cases hu : u = t
  · subst hu
    unfold At
    rw [hm.after, hm.before, hp]
  · exact hm.at_other p u hu

theorem Moves.at_before (hm : Moves s s' t pc pc') {p : Pc → Bool} : At p s t ↔ p pc = true := by
  unfold At
  rw [hm.before]

theorem Moves.at_after (hm : Moves s s' t pc pc') {p : Pc → Bool} : At p s' t ↔ p pc' = true := by
  unfold At
  rw [hm.after]

theorem Moves.keep (hm : Moves s s' t pc pc') {p : Pc → Bool} (h : Token full (At p s))
    (hp : p pc' = p pc) : Token full (At p s') :=
  h.congr (hm.at_congr hp)

theorem Moves.sends (hm : Moves s s' t pc pc') {p : Pc → Bool} (h : Token false (At p s))
    (hp : p pc' = true) : Token true (At p s') :=
  h.send (hm.at_after.mpr hp) (hm.at_other p)

theorem Moves.receives (hm : Moves s s' t pc pc') {p : Pc → Bool} (h : Token full (At p s))
    (hp : p pc = true) (hp' : p pc' = false) : Token false (At p s') := by
  apply h.receive (hm.at_before.mpr hp) _ (hm.at_other p)
  intro hat
  have htrue := hm.at_after.mp hat
  rw [hp'] at htrue
  cases htrue

/-! ### The room -/

theorem Moves.room_keep (hm : Moves s s' t pc pc') (h : Token full (InRoom s))
    (hw : pc'.hasRoom = pc.hasRoom) (hr : pc'.settled = pc.settled) : Token full (InRoom s') := by
  apply h.congr
  intro u
  cases u with
  | some u => exact hm.at_congr hw u
  | none => exact exists_congr (hm.at_congr hr)

/-- A reader comes or goes while others are there. -/
theorem Moves.room_shared (hm : Moves s s' t pc pc') (h : Token full (InRoom s))
    (hw : pc'.hasRoom = pc.hasRoom) {u : T} (hut : u ≠ t) (hu : At Pc.settled s u) :
    Token full (InRoom s') := by
  apply h.congr
  intro v
  cases v with
  | some v => exact hm.at_congr hw v
  | none => exact iff_of_true ⟨u, (hm.at_other Pc.settled u hut).mpr hu⟩ ⟨u, hu⟩

theorem Moves.room_writer (hm : Moves s s' t pc pc') (h : Token false (InRoom s))
    (hw : pc'.hasRoom = true) (hr : pc'.settled = pc.settled) : Token true (InRoom s') := by
  apply h.send (t := some t) (hm.at_after.mpr hw)
  intro u hu
  cases u with
  | some u => exact hm.at_other Pc.hasRoom u fun heq => hu (congrArg some heq)
  | none => exact exists_congr (hm.at_congr hr)

theorem Moves.room_writer_done (hm : Moves s s' t pc pc') (h : Token full (InRoom s))
    (hw : pc.hasRoom = true) (hw' : pc'.hasRoom = false) (hr : pc'.settled = pc.settled) :
    Token false (InRoom s') := by
  apply h.receive (t := some t) (hm.at_before.mpr hw)
  · intro hat
    have htrue := hm.at_after.mp hat
    rw [hw'] at htrue
    cases htrue
  · intro u hu
    cases u with
    | some u => exact hm.at_other Pc.hasRoom u fun heq => hu (congrArg some heq)
    | none => exact exists_congr (hm.at_congr hr)

/-- The first reader. -/
theorem Moves.room_reader (hm : Moves s s' t pc pc') (h : Token false (InRoom s))
    (hw : pc'.hasRoom = pc.hasRoom) (hr : pc'.settled = true) : Token true (InRoom s') := by
  apply h.send (t := none) ⟨t, hm.at_after.mpr hr⟩
  intro u hu
  cases u with
  | some u => exact hm.at_congr hw u
  | none => exact absurd rfl hu

/-- The last reader. -/
theorem Moves.room_reader_done (hm : Moves s s' t pc pc') (h : Token full (InRoom s))
    (hw : pc'.hasRoom = pc.hasRoom) (hr : pc.settled = true) (hr' : ∀ u, ¬ At Pc.settled s' u) :
    Token false (InRoom s') := by
  apply h.receive (t := none) ⟨t, hm.at_before.mpr hr⟩
  · intro hex
    rcases hex with ⟨u, hu⟩
    exact hr' u hu
  · intro u hu
    cases u with
    | some u => exact hm.at_congr hw u
    | none => exact absurd rfl hu

/-! ### The counter -/

variable [Fintype T]

instance decidableAt (p : Pc → Bool) (s : Sys T) : DecidablePred (At p s) :=
  fun _ => inferInstanceAs (Decidable (_ = true))

/-- The readers between their increment and their decrement. -/
def readers (s : Sys T) : Finset T := Finset.univ.filter (At Pc.counted s)

theorem mem_readers {u : T} : u ∈ readers s ↔ At Pc.counted s u := by
  unfold readers
  rw [Finset.mem_filter]
  exact and_iff_right (Finset.mem_univ u)

theorem Moves.readers_eq (hm : Moves s s' t pc pc') (hc : pc'.counted = pc.counted) :
    readers s' = readers s := by
  ext u
  rw [mem_readers, mem_readers]
  exact hm.at_congr hc u

theorem Moves.readers_increment (hm : Moves s s' t pc pc') (hc : pc.counted = false)
    (hc' : pc'.counted = true) : (readers s').card = (readers s).card + 1 := by
  have hnot : t ∉ readers s := by
    rw [mem_readers, hm.at_before, hc]
    exact Bool.false_ne_true
  have hinsert : readers s' = insert t (readers s) := by
    ext u
    rw [Finset.mem_insert, mem_readers, mem_readers]
    by_cases hu : u = t
    · subst hu
      exact iff_of_true (hm.at_after.mpr hc') (Or.inl rfl)
    · rw [hm.at_other _ u hu]
      exact (or_iff_right hu).symm
  rw [hinsert, Finset.card_insert_of_notMem hnot]

theorem Moves.readers_decrement (hm : Moves s s' t pc pc') (hc : pc.counted = true)
    (hc' : pc'.counted = false) : (readers s).card = (readers s').card + 1 := by
  have hback : Moves s' s t pc' pc := ⟨hm.after, hm.before, fun u hu => (hm.other u hu).symm⟩
  exact hback.readers_increment hc' hc

/-! ### The invariant -/

structure Inv (s : Sys T) : Prop where
  turnstile : Token (s.full .turnstile) (At Pc.hasTurnstile s)
  readSwitch : Token (s.full .readSwitch) (At Pc.hasReadSwitch s)
  room : Token (s.full .roomEmptyLock) (InRoom s)
  counter : s.counter = (readers s).card
  knows : ∀ t, (s.goroutine t).pc.Knows s.counter
  numReaders : s.numReaders = 0

theorem Inv.init (ops : T → List Op) : Inv (Sys.init ops) where
  turnstile := Token.empty fun _ hat => by cases hat
  readSwitch := Token.empty fun _ hat => by cases hat
  room := by
    apply Token.empty
    intro u hat
    cases u with
    | some u => cases hat
    | none =>
      rcases hat with ⟨u, hu⟩
      cases hu
  counter := by
    have hempty : readers (Sys.init ops) = ∅ := by
      apply Finset.eq_empty_of_forall_notMem
      intro u hu
      have hat := mem_readers.mp hu
      cases hat
    rw [hempty]
    rfl
  knows := fun _ => trivial
  numReaders := rfl

theorem Pc.knows_of_free {counter : ℤ} (h : pc.hasReadSwitch = false) : pc.Knows counter := by
  cases pc with
  | increment | decrement | lockRoom | unlockRoom => cases h
  | _ => trivial

/-- Away from `readSwitch` a reader that is counted has been let in. -/
theorem Pc.settled_of_free (h : pc.hasReadSwitch = false) : pc.settled = pc.counted := by
  cases pc with
  | testFirst | lockRoom | lockDone | rereadCounter | decrement | testLast | unlockRoom => cases h
  | _ => rfl

theorem Inv.free_of_ne (h : Inv s) (ht : At Pc.hasReadSwitch s t) {u : T} (hu : u ≠ t) :
    (s.goroutine u).pc.hasReadSwitch = false := by
  apply Bool.eq_false_iff.mpr
  intro hat
  exact hu (h.readSwitch.unique u t hat ht)

theorem Inv.settled_iff_of_ne (h : Inv s) (ht : At Pc.hasReadSwitch s t) {u : T} (hu : u ≠ t) :
    At Pc.settled s u ↔ u ∈ readers s := by
  rw [mem_readers]
  unfold At
  rw [Pc.settled_of_free (h.free_of_ne ht hu)]

/-- A step keeps the invariant if it keeps the tokens and the counter. -/
theorem Inv.of_moves (h : Inv s) (hm : Moves s s' t pc pc')
    (hturnstile : Token (s'.full .turnstile) (At Pc.hasTurnstile s'))
    (hreadSwitch : Token (s'.full .readSwitch) (At Pc.hasReadSwitch s'))
    (hroom : Token (s'.full .roomEmptyLock) (InRoom s'))
    (hcounter : s'.counter = (readers s').card) (hknows : pc'.Knows s'.counter)
    (hsame : s'.counter = s.counter ∨ pc.hasReadSwitch = true)
    (hnum : s'.numReaders = s.numReaders) : Inv s' where
  turnstile := hturnstile
  readSwitch := hreadSwitch
  room := hroom
  counter := hcounter
  knows := by
    intro u
    by_cases hu : u = t
    · subst hu
      rw [hm.after]
      exact hknows
    · rw [hm.other u hu]
      rcases hsame with hsame | hswitch
      · rw [hsame]
        exact h.knows u
      -- nobody else is at the switch, where the counter matters
      · exact Pc.knows_of_free (h.free_of_ne (hm.at_before.mpr hswitch) hu)
  numReaders := hnum.trans h.numReaders

theorem Moves.goto (s₁ : Sys T) (hpc : (s.goroutine t).pc = pc)
    (hg : s₁.goroutine = s.goroutine) : Moves s (s₁.goto t pc') t pc pc' where
  before := hpc
  after := by
    unfold Sys.goto
    dsimp only
    rw [Function.update_self]
  other := by
    intro u hu
    unfold Sys.goto
    dsimp only
    rw [Function.update_of_ne hu, hg]

theorem Sys.send_eq {c : Channel} {f : Sys T → Sys T} (hs : (s.send c).map f = some s') :
    s.full c = false ∧ s' = f { s with full := Function.update s.full c true } := by
  unfold Sys.send at hs
  split at hs
  · cases hs
  next hc =>
    cases hs
    exact ⟨Bool.eq_false_iff.mpr hc, rfl⟩

theorem Sys.receive_eq {c : Channel} {f : Sys T → Sys T} (hs : (s.receive c).map f = some s') :
    s' = f { s with full := Function.update s.full c false } := by
  unfold Sys.receive at hs
  split at hs <;> cases hs
  rfl

/-- Nothing but the place changes, and that in a way that no token cares about. -/
theorem Inv.quiet (h : Inv s) (hm : Moves s s' t pc pc') (hfull : s'.full = s.full)
    (hcounter : s'.counter = s.counter) (hnum : s'.numReaders = s.numReaders)
    (hturnstile : pc'.hasTurnstile = pc.hasTurnstile)
    (hswitch : pc'.hasReadSwitch = pc.hasReadSwitch) (hroom : pc'.hasRoom = pc.hasRoom)
    (hsettled : pc'.settled = pc.settled) (hcounted : pc'.counted = pc.counted)
    (hknows : pc'.Knows s.counter) : Inv s' := by
  apply h.of_moves hm
  · rw [hfull]
    exact hm.keep h.turnstile hturnstile
  · rw [hfull]
    exact hm.keep h.readSwitch hswitch
  · rw [hfull]
    exact hm.room_keep h.room hroom hsettled
  · rw [hcounter, h.counter, hm.readers_eq hcounted]
  · rw [hcounter]
    exact hknows
  · exact Or.inl hcounter
  · exact hnum

/-- `turnstile <- struct{}{}`. -/
theorem Inv.send_turnstile (h : Inv s) (hpc : (s.goroutine t).pc = pc)
    (hs : ((s.send .turnstile).map fun s' => s'.goto t pc') = some s')
    (hturnstile : pc'.hasTurnstile = true) (hswitch : pc'.hasReadSwitch = pc.hasReadSwitch)
    (hroom : pc'.hasRoom = pc.hasRoom) (hsettled : pc'.settled = pc.settled)
    (hcounted : pc'.counted = pc.counted) (hknows : pc'.Knows s.counter) : Inv s' := by
  rcases Sys.send_eq hs with ⟨hempty, rfl⟩
  have hm : Moves s _ t pc pc' :=
    Moves.goto { s with full := Function.update s.full .turnstile true } hpc rfl
  have hfree := h.turnstile
  rw [hempty] at hfree
  apply h.of_moves hm
  · exact hm.sends hfree hturnstile
  · exact hm.keep h.readSwitch hswitch
  · exact hm.room_keep h.room hroom hsettled
  · exact h.counter.trans (by rw [hm.readers_eq hcounted])
  · exact hknows
  · exact Or.inl rfl
  · rfl

/-- `<-turnstile`. -/
theorem Inv.receive_turnstile (h : Inv s) (hpc : (s.goroutine t).pc = pc)
    (hs : ((s.receive .turnstile).map fun s' => s'.goto t pc') = some s')
    (hturnstile : pc.hasTurnstile = true) (hturnstile' : pc'.hasTurnstile = false)
    (hswitch : pc'.hasReadSwitch = pc.hasReadSwitch) (hroom : pc'.hasRoom = pc.hasRoom)
    (hsettled : pc'.settled = pc.settled) (hcounted : pc'.counted = pc.counted)
    (hknows : pc'.Knows s.counter) : Inv s' := by
  cases Sys.receive_eq hs
  have hm : Moves s _ t pc pc' :=
    Moves.goto { s with full := Function.update s.full .turnstile false } hpc rfl
  apply h.of_moves hm
  · exact hm.receives h.turnstile hturnstile hturnstile'
  · exact hm.keep h.readSwitch hswitch
  · exact hm.room_keep h.room hroom hsettled
  · exact h.counter.trans (by rw [hm.readers_eq hcounted])
  · exact hknows
  · exact Or.inl rfl
  · rfl

/-- `readSwitch <- struct{}{}`. -/
theorem Inv.send_readSwitch (h : Inv s) (hpc : (s.goroutine t).pc = pc)
    (hs : ((s.send .readSwitch).map fun s' => s'.goto t pc') = some s')
    (hswitch : pc'.hasReadSwitch = true) (hturnstile : pc'.hasTurnstile = pc.hasTurnstile)
    (hroom : pc'.hasRoom = pc.hasRoom) (hsettled : pc'.settled = pc.settled)
    (hcounted : pc'.counted = pc.counted) (hknows : pc'.Knows s.counter) : Inv s' := by
  rcases Sys.send_eq hs with ⟨hempty, rfl⟩
  have hm : Moves s _ t pc pc' :=
    Moves.goto { s with full := Function.update s.full .readSwitch true } hpc rfl
  have hfree := h.readSwitch
  rw [hempty] at hfree
  apply h.of_moves hm
  · exact hm.keep h.turnstile hturnstile
  · exact hm.sends hfree hswitch
  · exact hm.room_keep h.room hroom hsettled
  · exact h.counter.trans (by rw [hm.readers_eq hcounted])
  · exact hknows
  · exact Or.inl rfl
  · rfl

/-- `<-readSwitch`. -/
theorem Inv.receive_readSwitch (h : Inv s) (hpc : (s.goroutine t).pc = pc)
    (hs : ((s.receive .readSwitch).map fun s' => s'.goto t pc') = some s')
    (hswitch : pc.hasReadSwitch = true) (hswitch' : pc'.hasReadSwitch = false)
    (hturnstile : pc'.hasTurnstile = pc.hasTurnstile) (hroom : pc'.hasRoom = pc.hasRoom)
    (hsettled : pc'.settled = pc.settled) (hcounted : pc'.counted = pc.counted) : Inv s' := by
  cases Sys.receive_eq hs
  have hm : Moves s _ t pc pc' :=
    Moves.goto { s with full := Function.update s.full .readSwitch false } hpc rfl
  apply h.of_moves hm
  · exact hm.keep h.turnstile hturnstile
  · exact hm.receives h.readSwitch hswitch hswitch'
  · exact hm.room_keep h.room hroom hsettled
  · exact h.counter.trans (by rw [hm.readers_eq hcounted])
  · exact Pc.knows_of_free hswitch'
  · exact Or.inl rfl
  · rfl

/-- `rwLock.counter += 1`. -/
theorem Inv.increment (h : Inv s) {counter : ℤ} (hpc : (s.goroutine t).pc = .increment counter) :
    Inv ({ s with counter := counter + 1 }.goto t .testFirst) := by
  have hm : Moves s _ t (.increment counter) .testFirst :=
    Moves.goto { s with counter := counter + 1 } hpc rfl
  have hread := h.knows t
  rw [hpc] at hread
  have hcard := hm.readers_increment rfl rfl
  have hcounter : counter = (readers s).card := Eq.trans hread h.counter
  apply h.of_moves hm
  · exact hm.keep h.turnstile rfl
  · exact hm.keep h.readSwitch rfl
  · exact hm.room_keep h.room rfl rfl
  · show counter + 1 = _
    omega
  · trivial
  · exact Or.inr rfl
  · rfl

/-- `rwLock.counter -= 1`. -/
theorem Inv.decrement (h : Inv s) {counter : ℤ} (hpc : (s.goroutine t).pc = .decrement counter) :
    Inv ({ s with counter := counter - 1 }.goto t .testLast) := by
  have hm : Moves s _ t (.decrement counter) .testLast :=
    Moves.goto { s with counter := counter - 1 } hpc rfl
  have hread := h.knows t
  rw [hpc] at hread
  have hcard := hm.readers_decrement rfl rfl
  have hcounter : counter = (readers s).card := Eq.trans hread h.counter
  apply h.of_moves hm
  · exact hm.keep h.turnstile rfl
  · exact hm.keep h.readSwitch rfl
  · exact hm.room_keep h.room rfl rfl
  · show counter - 1 = _
    omega
  · trivial
  · exact Or.inr rfl
  · rfl

/-- `if rwLock.counter == 1`: if not, the room is taken already. -/
theorem Inv.testFirst (h : Inv s) (hpc : (s.goroutine t).pc = .testFirst) :
    Inv (if s.counter = 1 then s.goto t .lockRoom else s.goto t .lockDone) := by
  split
  next hone => exact h.quiet (Moves.goto s hpc rfl) rfl rfl rfl rfl rfl rfl rfl rfl hone
  next hone =>
    have hm : Moves s _ t .testFirst .lockDone := Moves.goto s hpc rfl
    have hself : t ∈ readers s := mem_readers.mpr (hm.at_before.mpr rfl)
    have hcard : 1 < (readers s).card := by
      have hpos := Finset.card_pos.mpr ⟨t, hself⟩
      have hcounter := h.counter
      omega
    -- somebody else is counted, and is not at the switch
    rcases Finset.exists_mem_ne hcard t with ⟨u, hu, hut⟩
    have hsettled := (h.settled_iff_of_ne (hm.at_before.mpr rfl) hut).mpr hu
    apply h.of_moves hm
    · exact hm.keep h.turnstile rfl
    · exact hm.keep h.readSwitch rfl
    · exact hm.room_shared h.room rfl hut hsettled
    · exact h.counter.trans (by rw [hm.readers_eq rfl])
    · trivial
    · exact Or.inl rfl
    · rfl

/-- `if rwLock.counter == 0`: if not, the others keep the room. -/
theorem Inv.testLast (h : Inv s) (hpc : (s.goroutine t).pc = .testLast) :
    Inv (if s.counter = 0 then s.goto t .unlockRoom else s.goto t .unlockDone) := by
  split
  next hzero => exact h.quiet (Moves.goto s hpc rfl) rfl rfl rfl rfl rfl rfl rfl rfl hzero
  next hzero =>
    have hm : Moves s _ t .testLast .unlockDone := Moves.goto s hpc rfl
    have hcard : 0 < (readers s).card := by
      have hcounter := h.counter
      omega
    rcases Finset.card_pos.mp hcard with ⟨u, hu⟩
    have hut : u ≠ t := by
      intro heq
      rw [heq, mem_readers, hm.at_before] at hu
      cases hu
    have hsettled := (h.settled_iff_of_ne (hm.at_before.mpr rfl) hut).mpr hu
    apply h.of_moves hm
    · exact hm.keep h.turnstile rfl
    · exact hm.keep h.readSwitch rfl
    · exact hm.room_shared h.room rfl hut hsettled
    · exact h.counter.trans (by rw [hm.readers_eq rfl])
    · trivial
    · exact Or.inl rfl
    · rfl

/-- `roomEmptyLock <- struct{}{}` by the first reader. -/
theorem Inv.lockRoom (h : Inv s) (hpc : (s.goroutine t).pc = .lockRoom)
    (hs : ((s.send .roomEmptyLock).map fun s' => s'.goto t .lockDone) = some s') : Inv s' := by
  rcases Sys.send_eq hs with ⟨hempty, rfl⟩
  have hm : Moves s _ t .lockRoom .lockDone :=
    Moves.goto { s with full := Function.update s.full .roomEmptyLock true } hpc rfl
  have hfree := h.room
  rw [hempty] at hfree
  apply h.of_moves hm
  · exact hm.keep h.turnstile rfl
  · exact hm.keep h.readSwitch rfl
  · exact hm.room_reader hfree rfl rfl
  · exact h.counter.trans (by rw [hm.readers_eq rfl])
  · trivial
  · exact Or.inl rfl
  · rfl

/-- `<-roomEmptyLock` by the last reader, which need not be the first. -/
theorem Inv.unlockRoom (h : Inv s) (hpc : (s.goroutine t).pc = .unlockRoom)
    (hs : ((s.receive .roomEmptyLock).map fun s' => s'.goto t .unlockDone) = some s') : Inv s' := by
  cases Sys.receive_eq hs
  have hm : Moves s _ t .unlockRoom .unlockDone :=
    Moves.goto { s with full := Function.update s.full .roomEmptyLock false } hpc rfl
  have hzero := h.knows t
  rw [hpc] at hzero
  have hempty : readers s = ∅ := by
    apply Finset.card_eq_zero.mp
    have hcounter := h.counter
    have hcounter0 : s.counter = 0 := hzero
    omega
  have hnone : ∀ u, ¬ At Pc.settled ({ s with
      full := Function.update s.full .roomEmptyLock false }.goto t .unlockDone) u := by
    intro u hat
    by_cases hut : u = t
    · subst hut
      have htrue := hm.at_after.mp hat
      cases htrue
    · have hat' := (hm.at_other Pc.settled u hut).mp hat
      have hu := (h.settled_iff_of_ne (hm.at_before.mpr rfl) hut).mp hat'
      rw [hempty] at hu
      exact Finset.notMem_empty u hu
  apply h.of_moves hm
  · exact hm.keep h.turnstile rfl
  · exact hm.keep h.readSwitch rfl
  · exact hm.room_reader_done h.room rfl rfl hnone
  · exact h.counter.trans (by rw [hm.readers_eq rfl])
  · trivial
  · exact Or.inl rfl
  · rfl

/-- `roomEmptyLock <- struct{}{}` by a writer. -/
theorem Inv.writeRoom (h : Inv s) (hpc : (s.goroutine t).pc = .writeRoom)
    (hs : ((s.send .roomEmptyLock).map fun s' => s'.goto t .busyWait) = some s') : Inv s' := by
  rcases Sys.send_eq hs with ⟨hempty, rfl⟩
  have hm : Moves s _ t .writeRoom .busyWait :=
    Moves.goto { s with full := Function.update s.full .roomEmptyLock true } hpc rfl
  have hfree := h.room
  rw [hempty] at hfree
  apply h.of_moves hm
  · exact hm.keep h.turnstile rfl
  · exact hm.keep h.readSwitch rfl
  · exact hm.room_writer hfree rfl rfl
  · exact h.counter.trans (by rw [hm.readers_eq rfl])
  · trivial
  · exact Or.inl rfl
  · rfl

/-- `<-roomEmptyLock` by a writer. -/
theorem Inv.returnRoom (h : Inv s) (hpc : (s.goroutine t).pc = .returnRoom)
    (hs : ((s.receive .roomEmptyLock).map fun s' => s'.goto t .idle) = some s') : Inv s' := by
  cases Sys.receive_eq hs
  have hm : Moves s _ t .returnRoom .idle :=
    Moves.goto { s with full := Function.update s.full .roomEmptyLock false } hpc rfl
  apply h.of_moves hm
  · exact hm.keep h.turnstile rfl
  · exact hm.keep h.readSwitch rfl
  · exact hm.room_writer_done h.room rfl rfl rfl
  · exact h.counter.trans (by rw [hm.readers_eq rfl])
  · trivial
  · exact Or.inl rfl
  · rfl

/-- A call starts. -/
theorem Inv.call (h : Inv s) (hpc : (s.goroutine t).pc = .idle) (hs : s.call t = some s') :
    Inv s' := by
  have hmoves : ∀ (steps : ℕ) (ops : List Op) (pc : Pc), Moves s
      { s with goroutine := Function.update s.goroutine t { pc, steps, ops } } t .idle pc := by
    intro steps ops pc
    refine ⟨hpc, ?_, ?_⟩
    · dsimp only
      rw [Function.update_self]
    · intro u hu
      dsimp only
      rw [Function.update_of_ne hu]
  unfold Sys.call at hs
  split at hs <;> cases hs
  · exact h.quiet (hmoves _ _ .passTurnstile) rfl rfl rfl rfl rfl rfl rfl rfl trivial
  · exact h.quiet (hmoves _ _ .writeTurnstile) rfl rfl rfl rfl rfl rfl rfl rfl trivial
  · exact h.quiet (hmoves _ _ .writeTurnstile) rfl rfl rfl rfl rfl rfl rfl rfl trivial

/-- A step in the chain of the bucket. -/
theorem Inv.walk (h : Inv s) (hpc : (s.goroutine t).pc = pc)
    (hturnstile : pc'.hasTurnstile = pc.hasTurnstile)
    (hswitch : pc'.hasReadSwitch = pc.hasReadSwitch) (hroom : pc'.hasRoom = pc.hasRoom)
    (hsettled : pc'.settled = pc.settled) (hcounted : pc'.counted = pc.counted)
    (hfree : pc.hasReadSwitch = false) : Inv (s.walk t pc') := by
  unfold Sys.walk
  split
  · apply h.quiet (Moves.goto s hpc rfl) rfl rfl rfl hturnstile hswitch hroom hsettled hcounted
    exact Pc.knows_of_free (hswitch.trans hfree)
  next steps _ =>
    have hm : Moves s { s with
        goroutine := Function.update s.goroutine t { s.goroutine t with steps } } t pc pc := by
      refine ⟨hpc, ?_, ?_⟩
      · dsimp only
        rw [Function.update_self]
        exact hpc
      · intro u hu
        dsimp only
        rw [Function.update_of_ne hu]
    exact h.quiet hm rfl rfl rfl rfl rfl rfl rfl rfl (Pc.knows_of_free hfree)

theorem Inv.step (h : Inv s) (hs : s.step t = some s') : Inv s' := by
  unfold Sys.step at hs
  cases hpc : (s.goroutine t).pc with
  | idle =>
    rw [hpc] at hs
    exact h.call hpc hs
  | passTurnstile =>
    rw [hpc] at hs
    exact h.send_turnstile hpc hs rfl rfl rfl rfl rfl trivial
  | leaveTurnstile =>
    rw [hpc] at hs
    exact h.receive_turnstile hpc hs rfl rfl rfl rfl rfl rfl trivial
  | lockSwitch =>
    rw [hpc] at hs
    exact h.send_readSwitch hpc hs rfl rfl rfl rfl rfl trivial
  | readCounter =>
    rw [hpc] at hs
    cases hs
    exact h.quiet (Moves.goto s hpc rfl) rfl rfl rfl rfl rfl rfl rfl rfl rfl
  | increment counter =>
    rw [hpc] at hs
    cases hs
    exact h.increment hpc
  | testFirst =>
    rw [hpc] at hs
    cases hs
    exact h.testFirst hpc
  | lockRoom =>
    rw [hpc] at hs
    exact h.lockRoom hpc hs
  | lockDone =>
    rw [hpc] at hs
    exact h.receive_readSwitch hpc hs rfl rfl rfl rfl rfl rfl
  | reading =>
    rw [hpc] at hs
    cases hs
    exact h.walk hpc rfl rfl rfl rfl rfl rfl
  | unlockSwitch =>
    rw [hpc] at hs
    exact h.send_readSwitch hpc hs rfl rfl rfl rfl rfl trivial
  | rereadCounter =>
    rw [hpc] at hs
    cases hs
    exact h.quiet (Moves.goto s hpc rfl) rfl rfl rfl rfl rfl rfl rfl rfl rfl
  | decrement counter =>
    rw [hpc] at hs
    cases hs
    exact h.decrement hpc
  | testLast =>
    rw [hpc] at hs
    cases hs
    exact h.testLast hpc
  | unlockRoom =>
    rw [hpc] at hs
    exact h.unlockRoom hpc hs
  | unlockDone =>
    rw [hpc] at hs
    exact h.receive_readSwitch hpc hs rfl rfl rfl rfl rfl rfl
  | writeTurnstile =>
    rw [hpc] at hs
    exact h.send_turnstile hpc hs rfl rfl rfl rfl rfl trivial
  | writeRoom =>
    rw [hpc] at hs
    exact h.writeRoom hpc hs
  | busyWait =>
    rw [hpc] at hs
    cases hs
    rw [if_pos h.numReaders]
    exact h.quiet (Moves.goto s hpc rfl) rfl rfl rfl rfl rfl rfl rfl rfl trivial
  | writing =>
    rw [hpc] at hs
    cases hs
    exact h.walk hpc rfl rfl rfl rfl rfl rfl
  | returnTurnstile =>
    rw [hpc] at hs
    exact h.receive_turnstile hpc hs rfl rfl rfl rfl rfl rfl trivial
  | returnRoom =>
    rw [hpc] at hs
    exact h.returnRoom hpc hs

theorem Sys.Reachable.inv {ops : T → List Op} (h : Sys.Reachable ops s) : Inv s := by
  induction h with
  | init => exact Inv.init ops
  | step _ hs ih => exact ih.step hs

/-! ## Releases and progress -/

/-- Every call of the goroutine has returned. -/
def Sys.Finished (s : Sys T) (t : T) : Prop :=
  (s.goroutine t).pc = .idle ∧ (s.goroutine t).ops = []

theorem Sys.send_isSome {c : Channel} {f : Sys T → Sys T} (hc : s.full c = false) :
    ((s.send c).map f).isSome = true := by
  unfold Sys.send
  rw [if_neg (Bool.eq_false_iff.mp hc)]
  rfl

theorem Sys.receive_isSome {c : Channel} {f : Sys T → Sys T} (hc : s.full c = true) :
    ((s.receive c).map f).isSome = true := by
  unfold Sys.receive
  rw [if_pos hc]
  rfl

/-- A goroutine that is about to receive is the one that has the token, or one of the readers that
    have it together. -/
theorem Inv.release_full (h : Inv s) {c : Channel}
    (hc : (s.goroutine t).pc.releases = some c) : s.full c = true := by
  cases hpc : (s.goroutine t).pc with
  | leaveTurnstile | returnTurnstile =>
    rw [hpc] at hc
    cases hc
    apply h.turnstile.full_of (t := t)
    unfold At
    rw [hpc]
    rfl
  | lockDone | unlockDone =>
    rw [hpc] at hc
    cases hc
    apply h.readSwitch.full_of (t := t)
    unfold At
    rw [hpc]
    rfl
  | unlockRoom =>
    rw [hpc] at hc
    cases hc
    apply h.room.full_of (t := none)
    refine ⟨t, ?_⟩
    unfold At
    rw [hpc]
    rfl
  | returnRoom =>
    rw [hpc] at hc
    cases hc
    apply h.room.full_of (t := some t)
    show (s.goroutine t).pc.hasRoom = true
    rw [hpc]
    rfl
  | _ =>
    rw [hpc] at hc
    cases hc

theorem Inv.release_steps (h : Inv s) {c : Channel}
    (hc : (s.goroutine t).pc.releases = some c) : (s.step t).isSome = true := by
  have hfull := h.release_full hc
  unfold Sys.step
  cases hpc : (s.goroutine t).pc with
  | leaveTurnstile | returnTurnstile | lockDone | unlockDone | unlockRoom | returnRoom =>
    rw [hpc] at hc
    cases hc
    exact Sys.receive_isSome hfull
  | _ =>
    rw [hpc] at hc
    cases hc

/-- A writer in the room goes on. -/
theorem Inv.writer_steps (h : Inv s) (ht : At Pc.hasRoom s t) : (s.step t).isSome = true := by
  unfold At at ht
  cases hpc : (s.goroutine t).pc with
  | busyWait | writing =>
    unfold Sys.step
    rw [hpc]
    rfl
  | returnTurnstile =>
    apply h.release_steps (c := .turnstile)
    rw [hpc]
    rfl
  | returnRoom =>
    apply h.release_steps (c := .roomEmptyLock)
    rw [hpc]
    rfl
  | _ =>
    rw [hpc] at ht
    cases ht

/-- The goroutine at the switch goes on, or it is the first reader and waits for a writer, which
    goes on. -/
theorem Inv.switch_steps (h : Inv s) (ht : At Pc.hasReadSwitch s t) :
    ∃ u, (s.step u).isSome = true := by
  have hat := ht
  unfold At at ht
  cases hpc : (s.goroutine t).pc with
  | lockRoom =>
    cases hroom : s.full .roomEmptyLock with
    | false =>
      refine ⟨t, ?_⟩
      unfold Sys.step
      rw [hpc]
      exact Sys.send_isSome hroom
    | true =>
      have htoken := h.room
      rw [hroom] at htoken
      rcases htoken.exists_of_full with ⟨u, hu⟩
      cases u with
      | some u => exact ⟨u, h.writer_steps hu⟩
      | none =>
        -- it is the only reader that is counted, so no other has been let in
        rcases hu with ⟨u, hu⟩
        have hut : u ≠ t := by
          intro heq
          unfold At at hu
          rw [heq, hpc] at hu
          cases hu
        have hone := h.knows t
        rw [hpc] at hone
        have hself : t ∈ readers s := by
          rw [mem_readers]
          unfold At
          rw [hpc]
          rfl
        have hcard : (readers s).card ≤ 1 := by
          have hcounter := h.counter
          have hcounter1 : s.counter = 1 := hone
          omega
        have heq := Finset.card_le_one.mp hcard u ((h.settled_iff_of_ne hat hut).mp hu) t hself
        exact absurd heq hut
  | lockDone | unlockDone =>
    refine ⟨t, h.release_steps (c := .readSwitch) ?_⟩
    rw [hpc]
    rfl
  | unlockRoom =>
    refine ⟨t, h.release_steps (c := .roomEmptyLock) ?_⟩
    rw [hpc]
    rfl
  | readCounter | increment | testFirst | rereadCounter | decrement | testLast =>
    refine ⟨t, ?_⟩
    unfold Sys.step
    rw [hpc]
    rfl
  | _ =>
    rw [hpc] at ht
    cases ht

/-- With the switch free, a reader that was let in goes on. -/
theorem Inv.reader_steps (h : Inv s) (hfree : s.full .readSwitch = false)
    (ht : At Pc.settled s t) : (s.step t).isSome = true := by
  have htoken := h.readSwitch
  rw [hfree] at htoken
  have hnot := htoken.not_held t
  unfold At at ht hnot
  unfold Sys.step
  cases hpc : (s.goroutine t).pc with
  | reading => rfl
  | unlockSwitch => exact Sys.send_isSome hfree
  | lockDone | rereadCounter | decrement | testLast | unlockRoom =>
    rw [hpc] at hnot
    exact absurd rfl hnot
  | _ =>
    rw [hpc] at ht
    cases ht

/-- With the switch free, the goroutine in the turnstile goes on, or it waits for the room and someone
    in there goes on. -/
theorem Inv.turnstile_steps (h : Inv s) (hfree : s.full .readSwitch = false)
    (ht : At Pc.hasTurnstile s t) : ∃ u, (s.step u).isSome = true := by
  unfold At at ht
  cases hpc : (s.goroutine t).pc with
  | leaveTurnstile =>
    refine ⟨t, h.release_steps (c := .turnstile) ?_⟩
    rw [hpc]
    rfl
  | writeRoom =>
    cases hroom : s.full .roomEmptyLock with
    | false =>
      refine ⟨t, ?_⟩
      unfold Sys.step
      rw [hpc]
      exact Sys.send_isSome hroom
    | true =>
      have htoken := h.room
      rw [hroom] at htoken
      rcases htoken.exists_of_full with ⟨u, hu⟩
      cases u with
      | some u => exact ⟨u, h.writer_steps hu⟩
      | none =>
        rcases hu with ⟨u, hu⟩
        exact ⟨u, h.reader_steps hfree hu⟩
  | busyWait | writing | returnTurnstile =>
    refine ⟨t, h.writer_steps ?_⟩
    unfold At
    rw [hpc]
    rfl
  | _ =>
    rw [hpc] at ht
    cases ht

/-- With both free, a goroutine that has not finished goes on. -/
theorem Inv.unfinished_steps (h : Inv s) (hswitch : s.full .readSwitch = false)
    (hturnstile : s.full .turnstile = false) (ht : ¬ s.Finished t) :
    (s.step t).isSome = true := by
  have hatSwitch := h.readSwitch
  rw [hswitch] at hatSwitch
  have hatTurnstile := h.turnstile
  rw [hturnstile] at hatTurnstile
  have hno := hatSwitch.not_held t
  have hno' := hatTurnstile.not_held t
  unfold At at hno hno'
  cases hpc : (s.goroutine t).pc with
  | idle =>
    unfold Sys.step
    rw [hpc]
    unfold Sys.call
    cases hops : (s.goroutine t).ops with
    | nil => exact absurd ⟨hpc, hops⟩ ht
    | cons op ops => cases op <;> rfl
  | passTurnstile | writeTurnstile =>
    unfold Sys.step
    rw [hpc]
    exact Sys.send_isSome hturnstile
  | lockSwitch | unlockSwitch =>
    unfold Sys.step
    rw [hpc]
    exact Sys.send_isSome hswitch
  | reading =>
    unfold Sys.step
    rw [hpc]
    rfl
  | returnRoom =>
    apply h.release_steps (c := .roomEmptyLock)
    rw [hpc]
    rfl
  | leaveTurnstile | writeRoom | busyWait | writing | returnTurnstile =>
    rw [hpc] at hno'
    exact absurd rfl hno'
  | _ =>
    rw [hpc] at hno
    exact absurd rfl hno

/-- The goroutines never all wait. -/
theorem Inv.progress (h : Inv s) (ht : ¬ s.Finished t) : ∃ u, (s.step u).isSome = true := by
  cases hswitch : s.full .readSwitch with
  | true =>
    have htoken := h.readSwitch
    rw [hswitch] at htoken
    rcases htoken.exists_of_full with ⟨u, hu⟩
    exact h.switch_steps hu
  | false =>
    cases hturnstile : s.full .turnstile with
    | true =>
      have htoken := h.turnstile
      rw [hturnstile] at htoken
      rcases htoken.exists_of_full with ⟨u, hu⟩
      exact h.turnstile_steps hswitch hu
    | false => exact ⟨t, h.unfinished_steps hswitch hturnstile ht⟩

theorem Sys.not_finished_of_step (hs : (s.step t).isSome = true) : ¬ s.Finished t := by
  intro hfin
  unfold Sys.step Sys.call at hs
  rw [hfin.1] at hs
  dsimp only at hs
  rw [hfin.2] at hs
  cases hs

/-- A writer has the room for itself. -/
theorem Inv.exclusive (h : Inv s) (ht : At Pc.hasRoom s t) {u : T} :
    (At Pc.hasRoom s u → u = t) ∧ ¬ At Pc.settled s u := by
  constructor
  · intro hu
    have heq := h.room.unique (some u) (some t) hu ht
    cases heq
    rfl
  · intro hu
    have heq := h.room.unique none (some t) ⟨u, hu⟩ ht
    cases heq

end Invariant

/-! ## Readers and writers -/

/-- In every state that an interleaving reaches: a writer in its critical section is alone with the
    chain; the counter counts the readers between their increment and their decrement, and a goroutine
    that is about to access it is the one that has `readSwitch`; a receive finds its message; and if
    some goroutine has not finished, one of them can take a step. -/
theorem readers_writers [Fintype T] (ops : T → List Op) (s : Sys T) (h : Sys.Reachable ops s) :
    (∀ t u, (s.goroutine t).pc.hasRoom = true → u ≠ t →
      (s.goroutine u).pc.hasRoom = false ∧ (s.goroutine u).pc ≠ .reading) ∧
    s.counter = (Finset.univ.filter fun t => (s.goroutine t).pc.counted = true).card ∧
    (∀ t, (s.goroutine t).pc.accesses = true → s.full .readSwitch = true ∧
      ∀ u, (s.goroutine u).pc.hasReadSwitch = true ↔ u = t) ∧
    (∀ t c, (s.goroutine t).pc.releases = some c → s.full c = true) ∧
    ((∃ t, ¬ s.Finished t) → ∃ t, ¬ s.Finished t ∧ (s.step t).isSome = true) := by
  have hinv := h.inv
  refine ⟨?_, ?_, ?_, fun t c hc => hinv.release_full hc, ?_⟩
  · intro t u ht hut
    constructor
    · apply Bool.eq_false_iff.mpr
      exact fun hu => hut ((hinv.exclusive ht).1 hu)
    · intro hpc
      apply (hinv.exclusive ht (u := u)).2
      unfold At
      rw [hpc]
      rfl
  · have hcounter := hinv.counter
    unfold readers at hcounter
    convert hcounter
    exact Iff.rfl
  · intro t ht
    have hat : At Pc.hasReadSwitch s t := by
      unfold At
      cases hpc : (s.goroutine t).pc with
      | readCounter | increment | testFirst | rereadCounter | decrement | testLast => rfl
      | _ =>
        rw [hpc] at ht
        cases ht
    refine ⟨hinv.readSwitch.full_of hat, fun u => ⟨fun hu => hinv.readSwitch.unique u t hu hat, ?_⟩⟩
    intro hut
    rw [hut]
    exact hat
  · intro hex
    rcases hex with ⟨t, ht⟩
    rcases hinv.progress ht with ⟨u, hu⟩
    exact ⟨u, Sys.not_finished_of_step hu, hu⟩

/-- A writer has released `turnstile` and not yet the room; a reader waits for it at the switch, and
    another reader for the switch. -/
def between : Sys (Fin 4) :=
  (Sys.init fun t => if t = 0 then [.set 1] else [.get 0, .remove 2]).run
    [0, 0, 0, 0, 0, 0, 0, 1, 1, 1, 1, 1, 1, 1, 2, 2, 2]

theorem readers_writers_between :
    (between.step 1).isNone = true ∧ (between.step 2).isNone = true ∧ between.counter = 1 ∧
      ∃ t, ¬ between.Finished t ∧ (between.step t).isSome = true := by
  have hreach : Sys.Reachable _ between := Sys.Reachable.init.run _
  have hall := readers_writers _ between hreach
  have hunfinished : ¬ between.Finished 1 := by
    intro hfin
    have hops : ((between.goroutine 1).ops).length = 1 := by decide
    rw [hfin.2] at hops
    cases hops
  exact ⟨by decide, by decide, by decide, hall.2.2.2.2 ⟨1, hunfinished⟩⟩

end MatchingEngine.Go.RWLock
