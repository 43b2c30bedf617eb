import MatchingEngine.Go.Passing
import MatchingEngine.Lib.Drain

/-!
# The output channels of the Go engine

An operation makes a channel for its messages, queues it for the printer, sends on it and closes it.
Whoever has a channel to send on is its sender.  What a step does to the channels and to their senders
is said here once.
-/

set_option linter.unusedSectionVars false

namespace MatchingEngine.Go

variable {N I T : Type} [Quantity N] [DecidableEq I] [DecidableEq T]

deriving instance DecidableEq for Actor

/-- A message with the command that it is due to. -/
abbrev Sent (N I T : Type) := Cause N I T × Line N I

/-- The channel, queued for the printer, that a connection will close. -/
def ConnPc.channel : ConnPc N I T → Option ChanPtr
  | .missUnlock _ _ ch | .reject _ _ ch | .close ch => some ch
  | _ => none

/-- The channel, queued for the printer, that a goroutine will close. -/
def Pc.channel : Pc N I → Option ChanPtr
  | .exec _ _ ch | .execRemove _ _ _ _ ch | .execSend _ _ _ ch => some ch
  | .addFirst ch | .addWalk _ _ ch | .addTest _ _ ch | .addPlace _ ch | .addLinked _ _ ch
  | .addAppend _ ch | .addSend _ ch | .addClose _ ch => some ch
  | .cancelFirst ch | .cancelAt _ _ ch | .cancelOn _ _ _ ch | .cancelRemove _ _ ch
  | .cancelUnlink _ _ ch | .cancelUnlock _ _ ch | .cancelSend _ ch | .cancelClose ch => some ch
  | _ => none

/-- The channel that `MatchOrder` has made for the node it is at and not yet queued. -/
def Pc.prepared : Pc N I → Option ChanPtr
  | .matchQueue _ _ ch => some ch
  | _ => none

/-- The channel that the step at this place queues for the printer. -/
def ConnPc.queues (nextChan : ChanPtr) : ConnPc N I T → Option ChanPtr
  | .missQueue .. | .foreignQueue .. => some nextChan
  | _ => none

def Pc.queues (nextChan : ChanPtr) : Pc N I → Option ChanPtr
  | .matchQueue _ _ ch => some ch
  | .addQueue | .cancelQueue => some nextChan
  | _ => none

/-- The message that the step at this place sends, with its channel. -/
def ConnPc.sends : ConnPc N I T → Option (ChanPtr × Sent N I T)
  | .reject c orderId ch => some (ch, c, .deleted orderId false c.command.inputTime)
  | _ => none

def Routine.sends (r : Routine N I T) : Pc N I → Option (ChanPtr × Sent N I T)
  | .execSend line _ _ ch => some (ch, r.cause, line)
  | .addSend _ ch => some (ch, r.cause, addLine r.side r.order)
  | .cancelSend accepted ch =>
    some (ch, r.cause, .deleted r.order.orderId accepted r.order.inputTime)
  | _ => none

namespace Sys

/-- The channel that an actor sends on. -/
def sender (s : Sys N I T) : Actor T → Option ChanPtr
  | .conn t => (s.conn t).pc.channel
  | .routine g => (s.routine g).bind fun r => r.pc.channel
  | _ => none

def prepared (s : Sys N I T) : Actor T → Option ChanPtr
  | .routine g => (s.routine g).bind fun r => r.pc.prepared
  | _ => none

/-- The channel that a step queues for the printer. -/
def queues (s : Sys N I T) : Actor T → Option ChanPtr
  | .conn t => (s.conn t).pc.queues s.nextChan
  | .routine g => (s.routine g).bind fun r => r.pc.queues s.nextChan
  | _ => none

/-- The message that a step sends, with its channel. -/
def sends (s : Sys N I T) : Actor T → Option (ChanPtr × Sent N I T)
  | .conn t => (s.conn t).pc.sends
  | .routine g => (s.routine g).bind fun r => r.sends r.pc
  | _ => none

variable {s s₁ s₂ s' : Sys N I T} {a x : Actor T} {t : T} {g : ℕ} {r : Routine N I T}
  {b : OrderBookPtr} {sd : Side} {n : NodePtr}

/-! ## What leaves the channels alone -/

/-- The printer has done nothing and no channel is queued. -/
structure Unprinted (s s' : Sys N I T) : Prop where
  outputChannels : s'.outputChannels = s.outputChannels
  printing : s'.printing = s.printing
  log : s'.log = s.log

/-- The channels are as before. -/
structure Mute (s s' : Sys N I T) : Prop extends Unprinted s s' where
  chan : s'.chan = s.chan
  nextChan : s'.nextChan = s.nextChan

theorem Mute.refl (s : Sys N I T) : Mute s s := ⟨⟨rfl, rfl, rfl⟩, rfl, rfl⟩

theorem Mute.trans (h : Mute s s₁) (h' : Mute s₁ s₂) : Mute s s₂ where
  outputChannels := h'.outputChannels.trans h.outputChannels
  printing := h'.printing.trans h.printing
  log := h'.log.trans h.log
  chan := h'.chan.trans h.chan
  nextChan := h'.nextChan.trans h.nextChan

theorem mute_setNext (next : Option NodePtr) : Mute s (s.setNext b sd n next) :=
  ⟨⟨rfl, rfl, rfl⟩, rfl, rfl⟩

theorem mute_lock (hs : s.lock b sd n = some s') : Mute s s' := by
  unfold lock at hs
  split at hs <;> cases hs
  exact ⟨⟨rfl, rfl, rfl⟩, rfl, rfl⟩

theorem mute_unlock (hs : s.unlock b sd n = some s') : Mute s s' := by
  unfold unlock at hs
  split at hs <;> cases hs
  exact ⟨⟨rfl, rfl, rfl⟩, rfl, rfl⟩

theorem mute_lockSgl (hs : s.lockSgl b = some s') : Mute s s' := by
  unfold lockSgl at hs
  split at hs <;> cases hs
  exact ⟨⟨rfl, rfl, rfl⟩, rfl, rfl⟩

theorem mute_unlockSgl (hs : s.unlockSgl b = some s') : Mute s s' := by
  unfold unlockSgl at hs
  split at hs <;> cases hs
  exact ⟨⟨rfl, rfl, rfl⟩, rfl, rfl⟩

theorem mute_sendEvent {event : Event N I T} (hs : s.sendEvent b event = some s') : Mute s s' := by
  unfold sendEvent at hs
  split at hs <;> cases hs
  exact ⟨⟨rfl, rfl, rfl⟩, rfl, rfl⟩

theorem mute_lockOrders (hs : s.lockOrders = some s') : Mute s s' := by
  unfold lockOrders at hs
  split at hs <;> cases hs
  exact ⟨⟨rfl, rfl, rfl⟩, rfl, rfl⟩

theorem mute_unlockOrders (hs : s.unlockOrders = some s') : Mute s s' := by
  unfold unlockOrders at hs
  split at hs <;> cases hs
  exact ⟨⟨rfl, rfl, rfl⟩, rfl, rfl⟩

theorem send_spec {ch : ChanPtr} {cause : Cause N I T} {line : Line N I}
    (hs : s.send ch cause line = some s') :
    (s.chan ch).messages.length < (s.chan ch).capacity ∧ (s.chan ch).closed = false ∧
      Unprinted s s' ∧ s'.chan = Function.update s.chan ch
        { s.chan ch with messages := (s.chan ch).messages ++ [(cause, line)] } ∧
      s'.nextChan = s.nextChan := by
  unfold send at hs
  dsimp only at hs
  split at hs
  next hroom =>
    cases hs
    exact ⟨hroom.1, hroom.2, ⟨rfl, rfl, rfl⟩, rfl, rfl⟩
  next hroom => cases hs

theorem queue_spec {ch : ChanPtr} (hs : s.queue ch = some s') :
    s'.outputChannels = s.outputChannels ++ [ch] ∧ s'.printing = s.printing ∧ s'.log = s.log ∧
      s'.chan = s.chan ∧ s'.nextChan = s.nextChan := by
  unfold queue at hs
  split at hs <;> cases hs
  exact ⟨rfl, rfl, rfl, rfl, rfl⟩

/-! ## Who sends -/

theorem sender_congr (hconn : s'.conn = s.conn) (hroutine : s'.routine = s.routine) :
    s'.sender = s.sender := by
  funext x
  cases x with
  | conn t => simp only [sender, hconn]
  | routine g => simp only [sender, hroutine]
  | dispatcher b => rfl
  | printer => rfl

theorem prepared_congr (hroutine : s'.routine = s.routine) : s'.prepared = s.prepared := by
  funext x
  cases x with
  | conn t => rfl
  | routine g => simp only [prepared, hroutine]
  | dispatcher b => rfl
  | printer => rfl

theorem sender_setConn (s s' : Sys N I T) (c : Connection N I T)
    (hconn : s'.conn = Function.update s.conn t c) (hroutine : s'.routine = s.routine) :
    s'.sender = Function.update s.sender (.conn t) c.pc.channel := by
  funext x
  cases x with
  | conn u =>
    by_cases hu : u = t
    · subst hu
      rw [Function.update_self]
      simp only [sender, hconn, Function.update_self]
    · have hne : (Actor.conn u : Actor T) ≠ .conn t := by
        intro heq
        cases heq
        exact hu rfl
      rw [Function.update_of_ne hne]
      simp only [sender, hconn, Function.update_of_ne hu]
  | routine g => simp only [sender, hroutine, ne_eq, reduceCtorEq, not_false_eq_true,
      Function.update_of_ne]
  | dispatcher b => rfl
  | printer => rfl

theorem sender_setConn_self {c : Connection N I T} (hconn : s'.conn = Function.update s.conn t c)
    (hroutine : s'.routine = s.routine) (hc : c.pc.channel = s.sender (.conn t)) :
    s'.sender = s.sender := by
  rw [sender_setConn s s' c hconn hroutine, hc, Function.update_eq_self]

theorem sender_connGoto (pc : ConnPc N I T) :
    (s.connGoto t pc).sender = Function.update s.sender (.conn t) pc.channel :=
  sender_setConn s _ { s.conn t with pc } rfl rfl

theorem sender_setRoutine (s s' : Sys N I T) (y : Option (Routine N I T)) (h : s'.conn = s.conn)
    (hroutine : s'.routine = Function.update s.routine g y) :
    s'.sender = Function.update s.sender (.routine g) (y.bind fun r => r.pc.channel) := by
  funext x
  cases x with
  | conn u => simp only [sender, h, ne_eq, reduceCtorEq, not_false_eq_true, Function.update_of_ne]
  | routine g' =>
    by_cases hg : g' = g
    · subst hg
      rw [Function.update_self]
      simp only [sender, hroutine, Function.update_self]
    · have hne : (Actor.routine g' : Actor T) ≠ .routine g := by
        intro heq
        cases heq
        exact hg rfl
      rw [Function.update_of_ne hne]
      simp only [sender, hroutine, Function.update_of_ne hg]
  | dispatcher b => rfl
  | printer => rfl

theorem prepared_setRoutine (s s' : Sys N I T) (y : Option (Routine N I T))
    (hroutine : s'.routine = Function.update s.routine g y) :
    s'.prepared = Function.update s.prepared (.routine g) (y.bind fun r => r.pc.prepared) := by
  funext x
  cases x with
  | conn u => rfl
  | routine g' =>
    by_cases hg : g' = g
    · subst hg
      rw [Function.update_self]
      simp only [prepared, hroutine, Function.update_self]
    · have hne : (Actor.routine g' : Actor T) ≠ .routine g := by
        intro heq
        cases heq
        exact hg rfl
      rw [Function.update_of_ne hne]
      simp only [prepared, hroutine, Function.update_of_ne hg]
  | dispatcher b => rfl
  | printer => rfl

theorem sender_goto (pc : Pc N I) :
    (s.goto g r pc).sender = Function.update s.sender (.routine g) pc.channel :=
  sender_setRoutine s _ (some { r with pc }) rfl rfl

theorem sender_done : (s.done g).sender = Function.update s.sender (.routine g) none :=
  sender_setRoutine s _ none rfl rfl

theorem sender_spawn :
    (s.spawn r).sender = Function.update s.sender (.routine s.nextRoutine) r.pc.channel :=
  sender_setRoutine s _ (some r) rfl rfl

theorem prepared_goto (pc : Pc N I) :
    (s.goto g r pc).prepared = Function.update s.prepared (.routine g) pc.prepared :=
  prepared_setRoutine s _ (some { r with pc }) rfl

theorem prepared_done : (s.done g).prepared = Function.update s.prepared (.routine g) none :=
  prepared_setRoutine s _ none rfl

theorem prepared_spawn :
    (s.spawn r).prepared = Function.update s.prepared (.routine s.nextRoutine) r.pc.prepared :=
  prepared_setRoutine s _ (some r) rfl

/-! ## What a step does -/

/-- What a step of `a` does to the channels. -/
inductive OutStep (s : Sys N I T) (a : Actor T) (s' : Sys N I T) : Prop
  | idle (hout : Mute s s') (hsender : s'.sender = s.sender) (hprepared : s'.prepared = s.prepared)
      (hqueues : s.queues a = none) (hsends : s.sends a = none)
  /-- `MatchOrder` makes the channel for a node -/
  | prepare (capacity : ℕ) (hout : Unprinted s s')
      (hchan : s'.chan =
        Function.update s.chan s.nextChan { capacity, messages := [], closed := false })
      (hnext : s'.nextChan = s.nextChan + 1) (hsender : s'.sender = s.sender)
      (hprepared : s'.prepared = Function.update s.prepared a (some s.nextChan))
      (hqueues : s.queues a = none) (hsends : s.sends a = none)
  /-- and queues it for the `executeOrder` that it starts -/
  | queue (ch : ChanPtr) (x : Actor T) (hch : s.prepared a = some ch) (hx : s.sender x = none)
      (hwaiting : s'.outputChannels = s.outputChannels ++ [ch]) (hprinting : s'.printing = s.printing)
      (hlog : s'.log = s.log) (hchan : s'.chan = s.chan) (hnext : s'.nextChan = s.nextChan)
      (hsender : s'.sender = Function.update s.sender x (some ch))
      (hprepared : s'.prepared = Function.update s.prepared a none)
      (hqueues : s.queues a = some ch) (hsends : s.sends a = none)
  /-- a channel for one message is made and queued -/
  | make (x : Actor T) (hx : s.sender x = none)
      (hwaiting : s'.outputChannels = s.outputChannels ++ [s.nextChan])
      (hprinting : s'.printing = s.printing) (hlog : s'.log = s.log)
      (hchan : s'.chan =
        Function.update s.chan s.nextChan { capacity := 1, messages := [], closed := false })
      (hnext : s'.nextChan = s.nextChan + 1)
      (hsender : s'.sender = Function.update s.sender x (some s.nextChan))
      (hprepared : s'.prepared = s.prepared) (hqueues : s.queues a = some s.nextChan)
      (hsends : s.sends a = none)
  | send (ch : ChanPtr) (m : Sent N I T) (hch : s.sender a = some ch)
      (hroom : (s.chan ch).messages.length < (s.chan ch).capacity) (hopen : (s.chan ch).closed = false)
      (hout : Unprinted s s')
      (hchan : s'.chan =
        Function.update s.chan ch { s.chan ch with messages := (s.chan ch).messages ++ [m] })
      (hnext : s'.nextChan = s.nextChan) (hsender : s'.sender = s.sender)
      (hprepared : s'.prepared = s.prepared) (hqueues : s.queues a = none)
      (hsends : s.sends a = some (ch, m))
  | close (ch : ChanPtr) (hch : s.sender a = some ch) (hout : Unprinted s s')
      (hchan : s'.chan = Function.update s.chan ch { s.chan ch with closed := true })
      (hnext : s'.nextChan = s.nextChan) (hsender : s'.sender = Function.update s.sender a none)
      (hprepared : s'.prepared = s.prepared) (hqueues : s.queues a = none)
      (hsends : s.sends a = none)
  /-- the printer -/
  | print (ha : a = .printer) (hnext : s'.nextChan = s.nextChan) (hsender : s'.sender = s.sender)
      (hprepared : s'.prepared = s.prepared) (hs : s.printOutputChnl = some s')

section Routine

variable {pc p : Pc N I}

theorem queues_routine (hr : s.routine g = some r) (hpc : r.pc = p) :
    s.queues (.routine g) = p.queues s.nextChan := by
  rw [queues, hr, Option.bind_some, hpc]

theorem sends_routine (hr : s.routine g = some r) (hpc : r.pc = p) :
    s.sends (.routine g) = r.sends p := by
  rw [sends, hr, Option.bind_some, hpc]

theorem sender_routine (hr : s.routine g = some r) (hpc : r.pc = p) :
    s.sender (.routine g) = p.channel := by
  rw [sender, hr, Option.bind_some, hpc]

theorem prepared_routine (hr : s.routine g = some r) (hpc : r.pc = p) :
    s.prepared (.routine g) = p.prepared := by
  rw [prepared, hr, Option.bind_some, hpc]

/-- The goroutine goes on with the channel that it had, or without one. -/
theorem OutStep.goto (hr : s.routine g = some r) (hpc : r.pc = p) (hk : Kept s s₁)
    (hm : Mute s s₁) {r' : Routine N I T} (hchannel : pc.channel = p.channel)
    (hprepared : pc.prepared = p.prepared) (hqueues : p.queues s.nextChan = none)
    (hsends : r.sends p = none) : OutStep s (.routine g) (s₁.goto g r' pc) := by
  refine OutStep.idle ⟨⟨hm.outputChannels, hm.printing, hm.log⟩, hm.chan, hm.nextChan⟩ ?_ ?_
    ((queues_routine hr hpc).trans hqueues) ((sends_routine hr hpc).trans hsends)
  · rw [sender_goto, sender_congr hk.conn hk.routine, hchannel, ← sender_routine hr hpc,
      Function.update_eq_self]
  · rw [prepared_goto, prepared_congr hk.routine, hprepared, ← prepared_routine hr hpc,
      Function.update_eq_self]

/-- The goroutine ends, without a channel. -/
theorem OutStep.done (hr : s.routine g = some r) (hpc : r.pc = p) (hk : Kept s s₁)
    (hm : Mute s s₁) (hchannel : p.channel = none) (hprepared : p.prepared = none)
    (hqueues : p.queues s.nextChan = none) (hsends : r.sends p = none) :
    OutStep s (.routine g) (s₁.done g) := by
  refine OutStep.idle ⟨⟨hm.outputChannels, hm.printing, hm.log⟩, hm.chan, hm.nextChan⟩ ?_ ?_
    ((queues_routine hr hpc).trans hqueues) ((sends_routine hr hpc).trans hsends)
  · rw [sender_done, sender_congr hk.conn hk.routine, ← hchannel, ← sender_routine hr hpc,
      Function.update_eq_self]
  · rw [prepared_done, prepared_congr hk.routine, ← hprepared, ← prepared_routine hr hpc,
      Function.update_eq_self]

/-- The goroutine sends a message. -/
theorem OutStep.goto_send (hr : s.routine g = some r) (hpc : r.pc = p) {ch : ChanPtr}
    {line : Line N I} (hs : s.send ch r.cause line = some s₁) {r' : Routine N I T}
    (hch : p.channel = some ch) (hchannel : pc.channel = some ch)
    (hprepared : pc.prepared = p.prepared) (hqueues : p.queues s.nextChan = none)
    (hsends : r.sends p = some (ch, r.cause, line)) :
    OutStep s (.routine g) (s₁.goto g r' pc) := by
  have hk := kept_send hs
  have hsender := (sender_routine hr hpc).trans hch
  obtain ⟨hroom, hopen, hout, hchan, hnext⟩ := send_spec hs
  refine OutStep.send ch (r.cause, line) hsender hroom hopen
    ⟨hout.outputChannels, hout.printing, hout.log⟩ hchan hnext ?_ ?_
    ((queues_routine hr hpc).trans hqueues) ((sends_routine hr hpc).trans hsends)
  · rw [sender_goto, sender_congr hk.conn hk.routine, hchannel, ← hsender, Function.update_eq_self]
  · rw [prepared_goto, prepared_congr hk.routine, hprepared, ← prepared_routine hr hpc,
      Function.update_eq_self]

/-- The goroutine closes its channel. -/
theorem OutStep.goto_close (hr : s.routine g = some r) (hpc : r.pc = p) {ch : ChanPtr}
    {r' : Routine N I T} (hch : p.channel = some ch) (hchannel : pc.channel = none)
    (hprepared : pc.prepared = p.prepared) (hqueues : p.queues s.nextChan = none)
    (hsends : r.sends p = none) : OutStep s (.routine g) ((s.closeChan ch).goto g r' pc) := by
  refine OutStep.close ch ((sender_routine hr hpc).trans hch) ⟨rfl, rfl, rfl⟩ rfl rfl ?_ ?_
    ((queues_routine hr hpc).trans hqueues) ((sends_routine hr hpc).trans hsends)
  · rw [sender_goto, hchannel]
    rfl
  · rw [prepared_goto, hprepared, ← prepared_routine hr hpc]
    exact Function.update_eq_self ..

/-- `MatchOrder` makes a channel. -/
theorem OutStep.goto_prepare (hr : s.routine g = some r) (hpc : r.pc = p) (hk : Kept s s₁)
    (hm : Mute s s₁) {r' : Routine N I T} (capacity : ℕ) (hchannel : pc.channel = p.channel)
    (hprepared : pc.prepared = some s.nextChan) (hqueues : p.queues s.nextChan = none)
    (hsends : r.sends p = none) :
    OutStep s (.routine g) ((s₁.makeChan capacity).goto g r' pc) := by
  have hk₁ := hk.trans (kept_makeChan capacity)
  refine OutStep.prepare capacity ⟨hm.outputChannels, hm.printing, hm.log⟩ ?_ ?_ ?_ ?_
    ((queues_routine hr hpc).trans hqueues) ((sends_routine hr hpc).trans hsends)
  · unfold Sys.goto Sys.makeChan
    dsimp only
    rw [hm.chan, hm.nextChan]
  · show s₁.nextChan + 1 = s.nextChan + 1
    rw [hm.nextChan]
  · rw [sender_goto, sender_congr hk₁.conn hk₁.routine, hchannel, ← sender_routine hr hpc,
      Function.update_eq_self]
  · rw [prepared_goto, prepared_congr hk₁.routine, hprepared]

theorem Made.sender_none (hmade : Made s) : s.sender (.routine s.nextRoutine) = none := by
  rw [sender, hmade.routine _ (le_refl _), Option.bind_none]

theorem Made.prepared_none (hmade : Made s) : s.prepared (.routine s.nextRoutine) = none := by
  rw [prepared, hmade.routine _ (le_refl _), Option.bind_none]

theorem Made.ne_nextRoutine (hmade : Made s) (hr : s.routine g = some r) :
    (Actor.routine g : Actor T) ≠ .routine s.nextRoutine := by
  intro heq
  cases heq
  rw [hmade.routine _ (le_refl _)] at hr
  cases hr

theorem sender_spawn_goto (hmade : Made s) (hr : s.routine g = some r) (hk : Kept s s₁)
    {r₁ r' : Routine N I T} (hpc : pc.channel = s.sender (.routine g)) :
    ((s₁.spawn r₁).goto g r' pc).sender =
      Function.update s.sender (.routine s.nextRoutine) r₁.pc.channel := by
  rw [sender_goto, sender_spawn, sender_congr hk.conn hk.routine, hk.nextRoutine,
    Function.update_comm (hmade.ne_nextRoutine hr).symm, hpc, Function.update_eq_self]

theorem prepared_spawn_goto (hmade : Made s) (hk : Kept s s₁) {r₁ r' : Routine N I T}
    (hr₁ : r₁.pc.prepared = none) :
    ((s₁.spawn r₁).goto g r' pc).prepared = Function.update s.prepared (.routine g) pc.prepared := by
  rw [prepared_goto, prepared_spawn, prepared_congr hk.routine, hk.nextRoutine, hr₁,
    ← hmade.prepared_none, Function.update_eq_self]

/-- The channel that was made for the node is queued and goes to the goroutine that is started. -/
theorem OutStep.spawn_queue (hmade : Made s) (hr : s.routine g = some r) (hpc : r.pc = p)
    {ch : ChanPtr} (hs : s.queue ch = some s₁) {r₁ r' : Routine N I T} (hch : p.prepared = some ch)
    (hchannel : pc.channel = p.channel) (hprepared : pc.prepared = none)
    (hchannel₁ : r₁.pc.channel = some ch) (hprepared₁ : r₁.pc.prepared = none)
    (hqueues : p.queues s.nextChan = some ch) (hsends : r.sends p = none) :
    OutStep s (.routine g) ((s₁.spawn r₁).goto g r' pc) := by
  have hk := kept_queue hs
  obtain ⟨hwaiting, hprinting, hlog, hchan, hnext⟩ := queue_spec hs
  refine OutStep.queue ch (.routine s.nextRoutine) ((prepared_routine hr hpc).trans hch)
    hmade.sender_none hwaiting hprinting hlog hchan hnext ?_ ?_
    ((queues_routine hr hpc).trans hqueues) ((sends_routine hr hpc).trans hsends)
  · rw [← hchannel₁]
    exact sender_spawn_goto hmade hr hk (hchannel.trans (sender_routine hr hpc).symm)
  · rw [← hprepared]
    exact prepared_spawn_goto hmade hk hprepared₁

/-- A channel for one message is made and queued and goes to the goroutine that is started. -/
theorem OutStep.spawn_make (hmade : Made s) (hr : s.routine g = some r) (hpc : r.pc = p)
    (hs : (s.makeChan 1).queue s.nextChan = some s₁) {r₁ r' : Routine N I T}
    (hchannel : pc.channel = p.channel) (hprepared : pc.prepared = p.prepared)
    (hchannel₁ : r₁.pc.channel = some s.nextChan) (hprepared₁ : r₁.pc.prepared = none)
    (hqueues : p.queues s.nextChan = some s.nextChan) (hsends : r.sends p = none) :
    OutStep s (.routine g) ((s₁.spawn r₁).goto g r' pc) := by
  have hk := (kept_makeChan 1).trans (kept_queue hs)
  obtain ⟨hwaiting, hprinting, hlog, hchan, hnext⟩ := queue_spec hs
  refine OutStep.make (.routine s.nextRoutine) hmade.sender_none hwaiting hprinting hlog hchan hnext
    ?_ ?_ ((queues_routine hr hpc).trans hqueues) ((sends_routine hr hpc).trans hsends)
  · rw [← hchannel₁]
    exact sender_spawn_goto hmade hr hk (hchannel.trans (sender_routine hr hpc).symm)
  · rw [prepared_spawn_goto hmade hk hprepared₁, hprepared, ← prepared_routine hr hpc,
      Function.update_eq_self]

/-- A channel for one message is made and queued, and the goroutine keeps it. -/
theorem OutStep.goto_make (hr : s.routine g = some r) (hpc : r.pc = p)
    (hs : (s.makeChan 1).queue s.nextChan = some s₁) {r' : Routine N I T}
    (hnone : p.channel = none) (hchannel : pc.channel = some s.nextChan)
    (hprepared : pc.prepared = p.prepared) (hqueues : p.queues s.nextChan = some s.nextChan)
    (hsends : r.sends p = none) : OutStep s (.routine g) (s₁.goto g r' pc) := by
  have hk := (kept_makeChan 1).trans (kept_queue hs)
  obtain ⟨hwaiting, hprinting, hlog, hchan, hnext⟩ := queue_spec hs
  refine OutStep.make (.routine g) ((sender_routine hr hpc).trans hnone) hwaiting hprinting hlog
    hchan hnext ?_ ?_ ((queues_routine hr hpc).trans hqueues) ((sends_routine hr hpc).trans hsends)
  · rw [sender_goto, sender_congr hk.conn hk.routine, hchannel]
  · rw [prepared_goto, prepared_congr hk.routine, hprepared, ← prepared_routine hr hpc,
      Function.update_eq_self]

theorem outStep_processActiveOrder (hmade : Made s) (hr : s.routine g = some r) (hpc : r.pc = p)
    (hs : s.processActiveOrder g r p = some s') : OutStep s (.routine g) s' := by
  cases p with
  | lockSgl =>
    rcases Option.map_eq_some_iff.mp hs with ⟨s₁, hs₁, rfl⟩
    exact OutStep.goto hr hpc (kept_lockSgl hs₁) (mute_lockSgl hs₁) rfl rfl rfl rfl
  | lockMatchHead =>
    rcases Option.map_eq_some_iff.mp hs with ⟨s₁, hs₁, rfl⟩
    exact OutStep.goto hr hpc (kept_lock hs₁) (mute_lock hs₁) rfl rfl rfl rfl
  | matchAt v shouldPopPrev curr =>
    cases curr with
    | none =>
      cases hs
      cases shouldPopPrev with
      | false => exact OutStep.goto hr hpc (Kept.refl s) (Mute.refl s) rfl rfl rfl rfl
      | true => exact OutStep.goto hr hpc (kept_setNext none) (mute_setNext none) rfl rfl rfl rfl
    | some curr =>
      rcases Option.map_eq_some_iff.mp hs with ⟨s₁, hs₁, rfl⟩
      exact OutStep.goto hr hpc (kept_lock hs₁) (mute_lock hs₁) rfl rfl rfl rfl
  | matchTest v shouldPopPrev curr =>
    have hk : Kept s (if shouldPopPrev then s.setNext r.book r.side.opp 0 (some curr) else s) := by
      split
      · exact kept_setNext (some curr)
      · exact Kept.refl s
    have hm : Mute s (if shouldPopPrev then s.setNext r.book r.side.opp 0 (some curr) else s) := by
      split
      · exact mute_setNext (some curr)
      · exact Mute.refl s
    simp only [Sys.processActiveOrder] at hs
    split at hs
    · rcases Option.map_eq_some_iff.mp hs with ⟨s₁, hs₁, rfl⟩
      exact OutStep.goto hr hpc (hk.trans (kept_unlock hs₁)) (hm.trans (mute_unlock hs₁)) rfl rfl
        rfl rfl
    · cases hs
      exact OutStep.goto_prepare hr hpc hk hm _ rfl rfl rfl rfl
  | matchQueue v curr ch =>
    rcases Option.map_eq_some_iff.mp hs with ⟨s₁, hs₁, rfl⟩
    dsimp only
    split
    · exact OutStep.spawn_queue hmade hr hpc hs₁ rfl rfl rfl rfl rfl rfl rfl
    · exact OutStep.spawn_queue hmade hr hpc hs₁ rfl rfl rfl rfl rfl rfl rfl
  | matchNext v shouldPopPrev curr =>
    cases hs
    exact OutStep.goto hr hpc (Kept.refl s) (Mute.refl s) rfl rfl rfl rfl
  | matchEnd v =>
    rcases Option.map_eq_some_iff.mp hs with ⟨s₁, hs₁, rfl⟩
    split
    · exact OutStep.goto hr hpc (kept_unlock hs₁) (mute_unlock hs₁) rfl rfl rfl rfl
    · exact OutStep.goto hr hpc (kept_unlock hs₁) (mute_unlock hs₁) rfl rfl rfl rfl
  | lockAddHead v =>
    rcases Option.map_eq_some_iff.mp hs with ⟨s₁, hs₁, rfl⟩
    exact OutStep.goto hr hpc (kept_lock hs₁) (mute_lock hs₁) rfl rfl rfl rfl
  | lockOrders v =>
    rcases Option.map_eq_some_iff.mp hs with ⟨s₁, hs₁, rfl⟩
    exact OutStep.goto hr hpc (kept_lockOrders hs₁) (mute_lockOrders hs₁) rfl rfl rfl rfl
  | setOrder v =>
    cases hs
    exact OutStep.goto hr hpc (kept_setOrders (s.orders.set _ (r.order.setCount v)))
      ⟨⟨rfl, rfl, rfl⟩, rfl, rfl⟩ rfl rfl rfl rfl
  | unlockOrders =>
    rcases Option.map_eq_some_iff.mp hs with ⟨s₁, hs₁, rfl⟩
    exact OutStep.goto hr hpc (kept_unlockOrders hs₁) (mute_unlockOrders hs₁) rfl rfl rfl rfl
  | addQueue =>
    rcases Option.map_eq_some_iff.mp hs with ⟨s₁, hs₁, rfl⟩
    exact OutStep.spawn_make hmade hr hpc hs₁ rfl rfl rfl rfl rfl rfl
  | unlockSgl =>
    rcases Option.map_eq_some_iff.mp hs with ⟨s₁, hs₁, rfl⟩
    exact OutStep.done hr hpc (kept_unlockSgl hs₁) (mute_unlockSgl hs₁) rfl rfl rfl rfl
  | _ => cases hs

theorem mute_setNode (x : Node N I T) : Mute s (s.setNode b sd n x) := ⟨⟨rfl, rfl, rfl⟩, rfl, rfl⟩

theorem outStep_executeOrder (hr : s.routine g = some r) (hpc : r.pc = p)
    (hs : s.executeOrder g r p = some s') : OutStep s (.routine g) s' := by
  cases p with
  | exec countLeftToMatch node ch =>
    simp only [Sys.executeOrder] at hs
    split at hs
    · cases hs
      exact OutStep.goto_close hr hpc rfl rfl rfl rfl rfl
    · split at hs
      · cases hs
        exact OutStep.goto_close hr hpc rfl rfl rfl rfl rfl
      · split at hs <;> cases hs
        · exact OutStep.goto hr hpc (kept_setNode _) (mute_setNode _) rfl rfl rfl rfl
        · exact OutStep.goto hr hpc (kept_setNode _) (mute_setNode _) rfl rfl rfl rfl
  | execRemove restingId line countLeftToMatch node ch =>
    cases hs
    exact OutStep.goto hr hpc (kept_setOrders (s.orders.remove restingId))
      ⟨⟨rfl, rfl, rfl⟩, rfl, rfl⟩ rfl rfl rfl rfl
  | execSend line countLeftToMatch node ch =>
    rcases Option.map_eq_some_iff.mp hs with ⟨s₁, hs₁, rfl⟩
    exact OutStep.goto_send hr hpc hs₁ rfl rfl rfl rfl rfl
  | execUnlock node =>
    rcases Option.map_eq_some_iff.mp hs with ⟨s₁, hs₁, rfl⟩
    exact OutStep.done hr hpc (kept_unlock hs₁) (mute_unlock hs₁) rfl rfl rfl rfl
  | _ => cases hs

theorem outStep_addOrder (hr : s.routine g = some r) (hpc : r.pc = p)
    (hs : s.addOrder g r p = some s') : OutStep s (.routine g) s' := by
  cases p with
  | addFirst ch =>
    cases hs
    exact OutStep.goto hr hpc (Kept.refl s) (Mute.refl s) rfl rfl rfl rfl
  | addWalk curr next ch =>
    cases next with
    | none =>
      cases hs
      exact OutStep.goto hr hpc (Kept.refl s) (Mute.refl s) rfl rfl rfl rfl
    | some next =>
      rcases Option.map_eq_some_iff.mp hs with ⟨s₁, hs₁, rfl⟩
      exact OutStep.goto hr hpc (kept_lock hs₁) (mute_lock hs₁) rfl rfl rfl rfl
  | addTest curr next ch =>
    simp only [Sys.addOrder] at hs
    split at hs
    · rcases Option.map_eq_some_iff.mp hs with ⟨s₁, hs₁, rfl⟩
      exact OutStep.goto hr hpc (kept_unlock hs₁) (mute_unlock hs₁) rfl rfl rfl rfl
    · split at hs
      · rcases Option.map_eq_some_iff.mp hs with ⟨s₁, hs₁, rfl⟩
        exact OutStep.goto hr hpc (kept_unlock hs₁) (mute_unlock hs₁) rfl rfl rfl rfl
      · rcases Option.map_eq_some_iff.mp hs with ⟨s₁, hs₁, rfl⟩
        exact OutStep.goto hr hpc (kept_unlock hs₁) (mute_unlock hs₁) rfl rfl rfl rfl
  | addPlace curr ch =>
    simp only [Sys.addOrder] at hs
    split at hs <;> cases hs
    · exact OutStep.goto hr hpc (kept_setChain _) ⟨⟨rfl, rfl, rfl⟩, rfl, rfl⟩ rfl rfl rfl rfl
    · exact OutStep.goto hr hpc (Kept.refl s) (Mute.refl s) rfl rfl rfl rfl
  | addLinked prev curr ch =>
    rcases Option.map_eq_some_iff.mp hs with ⟨s₁, hs₁, rfl⟩
    exact OutStep.goto hr hpc (kept_unlock hs₁) (mute_unlock hs₁) rfl rfl rfl rfl
  | addAppend curr ch =>
    cases hs
    exact OutStep.goto hr hpc (kept_setNode _) (mute_setNode _) rfl rfl rfl rfl
  | addSend curr ch =>
    rcases Option.map_eq_some_iff.mp hs with ⟨s₁, hs₁, rfl⟩
    exact OutStep.goto_send hr hpc hs₁ rfl rfl rfl rfl rfl
  | addClose curr ch =>
    cases hs
    exact OutStep.goto_close hr hpc rfl rfl rfl rfl rfl
  | addUnlock curr =>
    rcases Option.map_eq_some_iff.mp hs with ⟨s₁, hs₁, rfl⟩
    exact OutStep.done hr hpc (kept_unlock hs₁) (mute_unlock hs₁) rfl rfl rfl rfl
  | _ => cases hs

theorem outStep_processCancelOrder (hr : s.routine g = some r) (hpc : r.pc = p)
    (hs : s.processCancelOrder g r p = some s') : OutStep s (.routine g) s' := by
  cases p with
  | lockHead =>
    rcases Option.map_eq_some_iff.mp hs with ⟨s₁, hs₁, rfl⟩
    exact OutStep.goto hr hpc (kept_lock hs₁) (mute_lock hs₁) rfl rfl rfl rfl
  | cancelQueue =>
    rcases Option.map_eq_some_iff.mp hs with ⟨s₁, hs₁, rfl⟩
    exact OutStep.goto_make hr hpc hs₁ rfl rfl rfl rfl rfl
  | cancelFirst ch =>
    simp only [Sys.processCancelOrder] at hs
    split at hs
    · cases hs
      exact OutStep.goto hr hpc (Kept.refl s) (Mute.refl s) rfl rfl rfl rfl
    · rcases Option.map_eq_some_iff.mp hs with ⟨s₁, hs₁, rfl⟩
      exact OutStep.goto hr hpc (kept_lock hs₁) (mute_lock hs₁) rfl rfl rfl rfl
  | cancelAt prev curr ch =>
    cases curr with
    | none =>
      rcases Option.map_eq_some_iff.mp hs with ⟨s₁, hs₁, rfl⟩
      exact OutStep.goto hr hpc (kept_unlock hs₁) (mute_unlock hs₁) rfl rfl rfl rfl
    | some curr =>
      simp only [Sys.processCancelOrder] at hs
      split at hs
      · split at hs
        · rcases Option.map_eq_some_iff.mp hs with ⟨s₁, hs₁, rfl⟩
          exact OutStep.goto hr hpc (kept_unlock hs₁) (mute_unlock hs₁) rfl rfl rfl rfl
        · rcases Option.map_eq_some_iff.mp hs with ⟨s₁, hs₁, rfl⟩
          exact OutStep.goto hr hpc (kept_lock hs₁) (mute_lock hs₁) rfl rfl rfl rfl
      · split at hs
        · rcases Option.map_eq_some_iff.mp hs with ⟨s₁, hs₁, rfl⟩
          exact OutStep.goto hr hpc (kept_unlock hs₁) (mute_unlock hs₁) rfl rfl rfl rfl
        · cases hs
          refine OutStep.goto hr hpc ?_ ?_ ?_ ?_ ?_ ?_
          · exact (kept_setNode _).trans (kept_cancelled _)
          · exact ⟨⟨rfl, rfl, rfl⟩, rfl, rfl⟩
          all_goals rfl
  | cancelOn prev curr next ch =>
    rcases Option.map_eq_some_iff.mp hs with ⟨s₁, hs₁, rfl⟩
    exact OutStep.goto hr hpc (kept_unlock hs₁) (mute_unlock hs₁) rfl rfl rfl rfl
  | cancelRemove prev curr ch =>
    cases hs
    exact OutStep.goto hr hpc (kept_setOrders (s.orders.remove r.order.orderId))
      ⟨⟨rfl, rfl, rfl⟩, rfl, rfl⟩ rfl rfl rfl rfl
  | cancelUnlink prev curr ch =>
    rcases Option.map_eq_some_iff.mp hs with ⟨s₁, hs₁, rfl⟩
    -- the node is unlinked or not
    have hk : Kept s (if (s.node r.book r.side curr).volume = 0 then
        s.setNext r.book r.side prev (s.node r.book r.side curr).next else s) := by
      split
      · exact kept_setNext _
      · exact Kept.refl s
    have hm : Mute s (if (s.node r.book r.side curr).volume = 0 then
        s.setNext r.book r.side prev (s.node r.book r.side curr).next else s) := by
      split
      · exact mute_setNext _
      · exact Mute.refl s
    exact OutStep.goto hr hpc (hk.trans (kept_unlock hs₁)) (hm.trans (mute_unlock hs₁)) rfl rfl rfl
      rfl
  | cancelUnlock curr accepted ch =>
    rcases Option.map_eq_some_iff.mp hs with ⟨s₁, hs₁, rfl⟩
    exact OutStep.goto hr hpc (kept_unlock hs₁) (mute_unlock hs₁) rfl rfl rfl rfl
  | cancelSend accepted ch =>
    rcases Option.map_eq_some_iff.mp hs with ⟨s₁, hs₁, rfl⟩
    exact OutStep.goto_send hr hpc hs₁ rfl rfl rfl rfl rfl
  | cancelClose ch =>
    cases hs
    refine OutStep.close ch (sender_routine hr hpc) ⟨rfl, rfl, rfl⟩ rfl rfl sender_done ?_
      (queues_routine hr hpc) (sends_routine hr hpc)
    rw [prepared_done]
    exact Function.update_eq_self_iff.mpr (prepared_routine hr hpc).symm
  | _ => cases hs

theorem outStep_routineStep (hmade : Made s) (hr : s.routine g = some r)
    (hs : s.routineStep g r = some s') : OutStep s (.routine g) s' := by
  unfold Sys.routineStep at hs
  split at hs
  all_goals
    first
      | exact outStep_executeOrder hr rfl hs
      | exact outStep_addOrder hr rfl hs
      | exact outStep_processCancelOrder hr rfl hs
      | exact outStep_processActiveOrder hmade hr rfl hs

end Routine

section Conn

variable {pc p : ConnPc N I T}

theorem sender_conn (hpc : (s.conn t).pc = p) : s.sender (.conn t) = p.channel := by
  rw [sender, hpc]

theorem queues_conn (hpc : (s.conn t).pc = p) : s.queues (.conn t) = p.queues s.nextChan := by
  rw [queues, hpc]

theorem sends_conn (hpc : (s.conn t).pc = p) : s.sends (.conn t) = p.sends := by
  rw [sends, hpc]

/-- A connection goes on with the channel that it had, or without one. -/
theorem OutStep.connGoto (hpc : (s.conn t).pc = p) (hconn : s₁.conn = s.conn)
    (hroutine : s₁.routine = s.routine) (hm : Mute s s₁) (hchannel : pc.channel = p.channel)
    (hqueues : p.queues s.nextChan = none) (hsends : p.sends = none) :
    OutStep s (.conn t) (s₁.connGoto t pc) := by
  refine OutStep.idle ⟨⟨hm.outputChannels, hm.printing, hm.log⟩, hm.chan, hm.nextChan⟩ ?_
    (prepared_congr hroutine) ((queues_conn hpc).trans hqueues) ((sends_conn hpc).trans hsends)
  rw [sender_connGoto, sender_congr hconn hroutine, hchannel, ← sender_conn hpc,
    Function.update_eq_self]

/-- A connection makes a channel for its rejection and queues it. -/
theorem OutStep.connGoto_make (hpc : (s.conn t).pc = p)
    (hs : (s.makeChan 1).queue s.nextChan = some s₁) (hnone : p.channel = none)
    (hchannel : pc.channel = some s.nextChan) (hqueues : p.queues s.nextChan = some s.nextChan)
    (hsends : p.sends = none) : OutStep s (.conn t) (s₁.connGoto t pc) := by
  have hk := (kept_makeChan 1).trans (kept_queue hs)
  obtain ⟨hwaiting, hprinting, hlog, hchan, hnext⟩ := queue_spec hs
  refine OutStep.make (.conn t) ((sender_conn hpc).trans hnone) hwaiting hprinting hlog hchan hnext
    ?_ (prepared_congr hk.routine) ((queues_conn hpc).trans hqueues) ((sends_conn hpc).trans hsends)
  rw [sender_connGoto, sender_congr hk.conn hk.routine, hchannel]

theorem outStep_handleConn (hs : s.handleConn t = some s') : OutStep s (.conn t) s' := by
  unfold Sys.handleConn at hs
  cases hpc : (s.conn t).pc with
  | start =>
    rw [hpc] at hs
    cases hs
    refine OutStep.idle ⟨⟨rfl, rfl, rfl⟩, rfl, rfl⟩ ?_ rfl (queues_conn hpc) (sends_conn hpc)
    exact sender_setConn_self (by rfl) rfl (sender_conn hpc).symm
  | ready =>
    rw [hpc] at hs
    dsimp only at hs
    split at hs
    · cases hs
    next command cmds hcmds =>
      split at hs <;> cases hs
      · refine OutStep.idle ⟨⟨rfl, rfl, rfl⟩, rfl, rfl⟩ ?_ rfl (queues_conn hpc) (sends_conn hpc)
        exact sender_setConn_self (by exact Function.update_idem ..) (by rfl) (sender_conn hpc).symm
      · refine OutStep.idle ⟨⟨rfl, rfl, rfl⟩, rfl, rfl⟩ ?_ rfl (queues_conn hpc) (sends_conn hpc)
        exact sender_setConn_self (by exact Function.update_idem ..) (by rfl) (sender_conn hpc).symm
  | getBook c o =>
    rw [hpc] at hs
    dsimp only at hs
    split at hs <;> cases hs
    · exact OutStep.connGoto hpc rfl rfl (Mute.refl s) rfl rfl rfl
    · exact OutStep.connGoto hpc rfl rfl ⟨⟨rfl, rfl, rfl⟩, rfl, rfl⟩ rfl rfl rfl
  | setBook c o b =>
    rw [hpc] at hs
    cases hs
    exact OutStep.connGoto hpc rfl rfl ⟨⟨rfl, rfl, rfl⟩, rfl, rfl⟩ rfl rfl rfl
  | getAgain c o =>
    rw [hpc] at hs
    dsimp only at hs
    split at hs <;> cases hs
    exact OutStep.connGoto hpc rfl rfl (Mute.refl s) rfl rfl rfl
  | send b event =>
    rw [hpc] at hs
    rcases Option.map_eq_some_iff.mp hs with ⟨s₁, hs₁, rfl⟩
    have hroutine : s₁.routine = s.routine := by
      unfold Sys.sendEvent at hs₁
      split at hs₁ <;> cases hs₁
      rfl
    exact OutStep.connGoto hpc (conn_sendEvent hs₁) hroutine (mute_sendEvent hs₁) rfl rfl rfl
  | lockOrders c orderId =>
    rw [hpc] at hs
    rcases Option.map_eq_some_iff.mp hs with ⟨s₁, hs₁, rfl⟩
    have hk := kept_lockOrders hs₁
    exact OutStep.connGoto hpc hk.conn hk.routine (mute_lockOrders hs₁) rfl rfl rfl
  | getOrder c orderId =>
    rw [hpc] at hs
    dsimp only at hs
    split at hs <;> cases hs
    · exact OutStep.connGoto hpc rfl rfl (Mute.refl s) rfl rfl rfl
    · exact OutStep.connGoto hpc rfl rfl (Mute.refl s) rfl rfl rfl
  | missQueue c orderId =>
    rw [hpc] at hs
    rcases Option.map_eq_some_iff.mp hs with ⟨s₁, hs₁, rfl⟩
    exact OutStep.connGoto_make hpc hs₁ rfl rfl rfl rfl
  | missUnlock c orderId ch =>
    rw [hpc] at hs
    rcases Option.map_eq_some_iff.mp hs with ⟨s₁, hs₁, rfl⟩
    have hk := kept_unlockOrders hs₁
    exact OutStep.connGoto hpc hk.conn hk.routine (mute_unlockOrders hs₁) rfl rfl rfl
  | foundUnlock c orderId o =>
    rw [hpc] at hs
    rcases Option.map_eq_some_iff.mp hs with ⟨s₁, hs₁, rfl⟩
    have hk := kept_unlockOrders hs₁
    split
    · exact OutStep.connGoto hpc hk.conn hk.routine (mute_unlockOrders hs₁) rfl rfl rfl
    · exact OutStep.connGoto hpc hk.conn hk.routine (mute_unlockOrders hs₁) rfl rfl rfl
  | foreignQueue c orderId =>
    rw [hpc] at hs
    rcases Option.map_eq_some_iff.mp hs with ⟨s₁, hs₁, rfl⟩
    exact OutStep.connGoto_make hpc hs₁ rfl rfl rfl rfl
  | getBookOf c o =>
    rw [hpc] at hs
    dsimp only at hs
    split at hs <;> cases hs
    exact OutStep.connGoto hpc rfl rfl (Mute.refl s) rfl rfl rfl
  | reject c orderId ch =>
    rw [hpc] at hs
    rcases Option.map_eq_some_iff.mp hs with ⟨s₁, hs₁, rfl⟩
    have hk := kept_send hs₁
    obtain ⟨hroom, hopen, hout, hchan, hnext⟩ := send_spec hs₁
    refine OutStep.send ch _ (sender_conn hpc) hroom hopen
      ⟨hout.outputChannels, hout.printing, hout.log⟩ hchan hnext ?_ (prepared_congr hk.routine)
      (queues_conn hpc) (sends_conn hpc)
    rw [sender_connGoto, sender_congr hk.conn hk.routine]
    exact Function.update_eq_self_iff.mpr (sender_conn hpc).symm
  | close ch =>
    rw [hpc] at hs
    cases hs
    refine OutStep.close ch (sender_conn hpc) ⟨rfl, rfl, rfl⟩ rfl rfl ?_ rfl (queues_conn hpc)
      (sends_conn hpc)
    rw [sender_connGoto]
    rfl

end Conn

theorem outStep_dispatch (hmade : Made s) (hs : s.dispatch b = some s') :
    OutStep s (.dispatcher b) s' := by
  unfold Sys.dispatch at hs
  split at hs
  · cases hs
  next event rest hqueue =>
    cases hs
    refine OutStep.idle ⟨⟨rfl, rfl, rfl⟩, rfl, rfl⟩ ?_ ?_ rfl rfl
    · rw [sender_spawn]
      apply Function.update_eq_self_iff.mpr
      refine Eq.trans ?_ hmade.sender_none.symm
      dsimp only
      split
      · rfl
      · rfl
    · rw [prepared_spawn]
      apply Function.update_eq_self_iff.mpr
      refine Eq.trans ?_ hmade.prepared_none.symm
      dsimp only
      split
      · rfl
      · rfl

theorem outStep_printOutputChnl (hs : s.printOutputChnl = some s') : OutStep s .printer s' := by
  have hk := kept_printOutputChnl hs
  refine OutStep.print rfl ?_ (sender_congr hk.conn hk.routine) (prepared_congr hk.routine) hs
  unfold Sys.printOutputChnl at hs
  split at hs
  · split at hs <;> cases hs
    rfl
  · dsimp only at hs
    split at hs
    · cases hs
      rfl
    · split at hs <;> cases hs
      rfl

theorem outStep_step (hmade : Made s) (hs : s.step a = some s') : OutStep s a s' := by
  unfold Sys.step at hs
  cases a with
  | conn t => exact outStep_handleConn hs
  | dispatcher b => exact outStep_dispatch hmade hs
  | routine g =>
    dsimp only at hs
    split at hs
    · cases hs
    next r hr => exact outStep_routineStep hmade hr hs
  | printer => exact outStep_printOutputChnl hs

end Sys

end MatchingEngine.Go
