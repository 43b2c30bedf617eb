import MatchingEngine.Go.Output
import MatchingEngine.Lib.Token

/-!
# The printer of the Go engine

The operations send while the printer reads, each on its own channel.  The log is nevertheless what the
channels carried, one after the other in the order in which they were queued: no message is lost,
printed twice or out of its place, and the messages of one operation on one node stay together.
-/

set_option linter.unusedSectionVars false

namespace MatchingEngine.Go

open Drain (History)

variable {N I T : Type} [Quantity N] [DecidableEq I] [DecidableEq T]

/-- The command that a connection rejects. -/
def ConnPc.cause : ConnPc N I T → Option (Cause N I T)
  | .missUnlock c _ _ | .reject c _ _ => some c
  | _ => none

namespace Sys

/-- What the printer sees. -/
def drain (s : Sys N I T) : Drain ChanPtr (Sent N I T) where
  waiting := s.outputChannels
  current := s.printing
  unread := fun ch => (s.chan ch).messages
  read := s.log

/-- The channels queued so far and what was sent on each, after the step. -/
def record (s : Sys N I T) (h : History ChanPtr (Sent N I T)) (a : Actor T) :
    History ChanPtr (Sent N I T) where
  queued := h.queued ++ (s.queues a).toList
  sent :=
    match s.sends a with
    | none => h.sent
    | some (ch, m) => Function.update h.sent ch (h.sent ch ++ [m])

/-- The states that some interleaving reaches, with what was queued and sent on the way. -/
inductive Recorded (cmds : T → List (Command N I)) :
    Sys N I T → History ChanPtr (Sent N I T) → Prop
  | init : Recorded cmds (init cmds) History.empty
  | step {s s' : Sys N I T} {h : History ChanPtr (Sent N I T)} {a : Actor T}
      (hr : Recorded cmds s h) (hs : s.step a = some s') : Recorded cmds s' (s.record h a)

/-- What was queued and sent after these steps. -/
def records (s : Sys N I T) (h : History ChanPtr (Sent N I T)) :
    List (Actor T) → History ChanPtr (Sent N I T)
  | [] => h
  | a :: as =>
    match s.step a with
    | none => records s h as
    | some s' => records s' (s.record h a) as

variable {cmds : T → List (Command N I)} {s s' : Sys N I T} {h : History ChanPtr (Sent N I T)}
  {a x : Actor T} {ch : ChanPtr}

theorem record_silent (hqueues : s.queues a = none) (hsends : s.sends a = none) : s.record h a = h := by
  unfold record
  rw [hqueues, hsends, Option.toList_none, List.append_nil]

theorem record_queues (hqueues : s.queues a = some ch) (hsends : s.sends a = none) :
    s.record h a = { h with queued := h.queued ++ [ch] } := by
  unfold record
  rw [hqueues, hsends, Option.toList_some]

theorem record_sends {m : Sent N I T} (hqueues : s.queues a = none)
    (hsends : s.sends a = some (ch, m)) :
    s.record h a = { h with sent := Function.update h.sent ch (h.sent ch ++ [m]) } := by
  unfold record
  rw [hqueues, hsends, Option.toList_none, List.append_nil]

/-- The channels in use: the printer will come to each one that has a sender, and each one that is open
    has one; nobody else sends on it. -/
structure Outputs (s : Sys N I T) (h : History ChanPtr (Sent N I T)) : Prop where
  follows : s.drain.Follows h
  lt : ∀ ch ∈ h.queued, ch < s.nextChan
  mem : ∀ a ch, s.sender a = some ch → ch ∈ s.drain.ahead ∧ (s.chan ch).closed = false
  unique : Exclusive s.sender
  exists_sender : ∀ ch ∈ s.drain.ahead, (s.chan ch).closed = false → ∃ a, s.sender a = some ch
  prepared : ∀ a ch, s.prepared a = some ch →
    ch < s.nextChan ∧ ch ∉ h.queued ∧ (s.chan ch).messages = [] ∧ (s.chan ch).closed = false
  prepared_unique : Exclusive s.prepared

theorem outputs_init : Outputs (init cmds) History.empty where
  follows := Drain.Follows.init rfl rfl rfl
  lt := by
    intro ch hch
    cases hch
  mem := by
    intro a ch hch
    cases a <;> cases hch
  unique := by
    intro a x ch hch
    cases a <;> cases hch
  exists_sender := by
    intro ch hch
    cases hch
  prepared := by
    intro a ch hch
    cases a <;> cases hch
  prepared_unique := by
    intro a x ch hch
    cases a <;> cases hch

theorem ahead_congr (hwaiting : s'.outputChannels = s.outputChannels)
    (hprinting : s'.printing = s.printing) : s'.drain.ahead = s.drain.ahead := by
  unfold Drain.ahead drain
  rw [hwaiting, hprinting]

theorem Outputs.ne_nextChan (ho : Outputs s h) (hch : ch ∈ s.drain.ahead) : ch ≠ s.nextChan :=
  (ho.lt ch (ho.follows.mem_queued hch)).ne

theorem Outputs.nextChan_notMem (ho : Outputs s h) : s.nextChan ∉ h.queued := fun hmem =>
  absurd (ho.lt _ hmem) (lt_irrefl _)

/-- Nothing happens to the channels. -/
theorem Outputs.idle (ho : Outputs s h) (hout : Mute s s') (hsender : s'.sender = s.sender)
    (hprepared : s'.prepared = s.prepared) : Outputs s' h where
  follows := by
    apply ho.follows.congr hout.outputChannels hout.printing hout.log
    intro ch _
    unfold drain
    rw [hout.chan]
  lt := by
    rw [hout.nextChan]
    exact ho.lt
  mem := by
    rw [hsender, ahead_congr hout.outputChannels hout.printing, hout.chan]
    exact ho.mem
  unique := by
    rw [hsender]
    exact ho.unique
  exists_sender := by
    rw [hsender, ahead_congr hout.outputChannels hout.printing, hout.chan]
    exact ho.exists_sender
  prepared := by
    rw [hprepared, hout.nextChan, hout.chan]
    exact ho.prepared
  prepared_unique := by
    rw [hprepared]
    exact ho.prepared_unique

/-- A channel is made that the printer does not know yet. -/
theorem Outputs.prepare (ho : Outputs s h) {capacity : ℕ} (hout : Unprinted s s')
    (hchan : s'.chan =
      Function.update s.chan s.nextChan { capacity, messages := [], closed := false })
    (hnext : s'.nextChan = s.nextChan + 1) (hsender : s'.sender = s.sender)
    (hprepared : s'.prepared = Function.update s.prepared a (some s.nextChan)) : Outputs s' h where
  follows := by
    apply ho.follows.congr hout.outputChannels hout.printing hout.log
    intro ch hch
    unfold drain
    dsimp only
    rw [hchan, Function.update_of_ne (ho.ne_nextChan hch)]
  lt := by
    intro ch hch
    rw [hnext]
    exact (ho.lt ch hch).trans (Nat.lt_succ_self _)
  mem := by
    rw [hsender, ahead_congr hout.outputChannels hout.printing, hchan]
    intro x ch hx
    obtain ⟨hmem, hopen⟩ := ho.mem x ch hx
    rw [Function.update_of_ne (ho.ne_nextChan hmem)]
    exact ⟨hmem, hopen⟩
  unique := by
    rw [hsender]
    exact ho.unique
  exists_sender := by
    rw [hsender, ahead_congr hout.outputChannels hout.printing, hchan]
    intro ch hch hopen
    rw [Function.update_of_ne (ho.ne_nextChan hch)] at hopen
    exact ho.exists_sender ch hch hopen
  prepared := by
    rw [hprepared, hnext, hchan]
    intro x ch hx
    by_cases hxa : x = a
    · subst hxa
      rw [Function.update_self] at hx
      cases hx
      rw [Function.update_self]
      exact ⟨Nat.lt_succ_self _, ho.nextChan_notMem, rfl, rfl⟩
    · rw [Function.update_of_ne hxa] at hx
      obtain ⟨hlt, hch, hempty, hopen⟩ := ho.prepared x ch hx
      rw [Function.update_of_ne hlt.ne]
      exact ⟨hlt.trans (Nat.lt_succ_self _), hch, hempty, hopen⟩
  prepared_unique := by
    rw [hprepared]
    apply ho.prepared_unique.update
    intro x hx
    exact absurd (ho.prepared x _ hx).1 (lt_irrefl _)

/-- A channel is queued and gets a sender. -/
theorem Outputs.queue (ho : Outputs s h) (hch : ch ∉ h.queued) (hx : s.sender x = none)
    (hwaiting : s'.outputChannels = s.outputChannels ++ [ch]) (hprinting : s'.printing = s.printing)
    (hlog : s'.log = s.log) (hempty : (s'.chan ch).messages = []) (hopen : (s'.chan ch).closed = false)
    (hchan : ∀ c ∈ h.queued, s'.chan c = s.chan c) (hlt : ch < s'.nextChan)
    (hnext : s.nextChan ≤ s'.nextChan) (hsender : s'.sender = Function.update s.sender x (some ch))
    (hprepared : ∀ a c, s'.prepared a = some c → c ≠ ch ∧ s.prepared a = some c ∧
      s'.chan c = s.chan c) :
    Outputs s' { h with queued := h.queued ++ [ch] } := by
  have hahead : s'.drain.ahead = s.drain.ahead ++ [ch] := by
    unfold Drain.ahead drain
    rw [hwaiting, hprinting, List.append_assoc]
  have hne : ∀ c ∈ s.drain.ahead, c ∈ h.queued := fun c hc => ho.follows.mem_queued hc
  refine ⟨?_, ?_, ?_, ?_, ?_, ?_, ?_⟩
  · apply ho.follows.queue hch hwaiting hprinting hlog hempty
    intro c hc
    unfold drain
    dsimp only
    rw [hchan c (hne c hc)]
  · intro c hc
    rcases List.mem_append.mp hc with hc | hc
    · exact (ho.lt c hc).trans_le hnext
    · rw [List.mem_singleton.mp hc]
      exact hlt
  · intro a c ha
    rw [hsender] at ha
    rw [hahead]
    by_cases hax : a = x
    · subst hax
      rw [Function.update_self] at ha
      cases ha
      exact ⟨List.mem_append_right _ (List.mem_singleton_self ch), hopen⟩
    · rw [Function.update_of_ne hax] at ha
      obtain ⟨hmem, hopen⟩ := ho.mem a c ha
      rw [hchan c (hne c hmem)]
      exact ⟨List.mem_append_left _ hmem, hopen⟩
  · rw [hsender]
    apply ho.unique.update
    intro a ha
    exact absurd (hne ch (ho.mem a ch ha).1) hch
  · intro c hc hopen'
    rw [hahead] at hc
    rw [hsender]
    rcases List.mem_append.mp hc with hc | hc
    · rw [hchan c (hne c hc)] at hopen'
      obtain ⟨a, ha⟩ := ho.exists_sender c hc hopen'
      refine ⟨a, ?_⟩
      rw [Function.update_of_ne, ha]
      rintro rfl
      rw [hx] at ha
      cases ha
    · rw [List.mem_singleton.mp hc]
      exact ⟨x, Function.update_self ..⟩
  · intro a c ha
    obtain ⟨hc, ha, hchan'⟩ := hprepared a c ha
    obtain ⟨hlt', hmem, hempty', hopen'⟩ := ho.prepared a c ha
    rw [hchan']
    refine ⟨hlt'.trans_le hnext, ?_, hempty', hopen'⟩
    intro hmem'
    rcases List.mem_append.mp hmem' with hmem' | hmem'
    · exact hmem hmem'
    · exact hc (List.mem_singleton.mp hmem')
  · intro a y c ha hy
    exact ho.prepared_unique a y c (hprepared a c ha).2.1 (hprepared y c hy).2.1

/-- A sender sends. -/
theorem Outputs.send (ho : Outputs s h) {m : Sent N I T} (hch : s.sender a = some ch)
    (hout : Unprinted s s') (hchan : s'.chan =
      Function.update s.chan ch { s.chan ch with messages := (s.chan ch).messages ++ [m] })
    (hnext : s'.nextChan = s.nextChan) (hsender : s'.sender = s.sender)
    (hprepared : s'.prepared = s.prepared) :
    Outputs s' { h with sent := Function.update h.sent ch (h.sent ch ++ [m]) } := by
  obtain ⟨hmem, -⟩ := ho.mem a ch hch
  have hclosed : ∀ c, (s'.chan c).closed = (s.chan c).closed := by
    intro c
    rw [hchan]
    by_cases hc : c = ch
    · subst hc
      rw [Function.update_self]
    · rw [Function.update_of_ne hc]
  refine ⟨?_, ?_, ?_, ?_, ?_, ?_, ?_⟩
  · apply ho.follows.send m hmem hout.outputChannels hout.printing hout.log
    unfold drain
    dsimp only
    rw [hchan]
    funext c
    by_cases hc : c = ch
    · subst hc
      rw [Function.update_self, Function.update_self]
    · rw [Function.update_of_ne hc, Function.update_of_ne hc]
  · rw [hnext]
    exact ho.lt
  · rw [hsender, ahead_congr hout.outputChannels hout.printing]
    intro x c hx
    rw [hclosed]
    exact ho.mem x c hx
  · rw [hsender]
    exact ho.unique
  · rw [hsender, ahead_congr hout.outputChannels hout.printing]
    intro c hc hopen
    rw [hclosed] at hopen
    exact ho.exists_sender c hc hopen
  · rw [hprepared, hnext]
    intro x c hx
    obtain ⟨hlt, hc, hempty, hopen⟩ := ho.prepared x c hx
    have hne : c ≠ ch := by
      rintro rfl
      exact hc (ho.follows.mem_queued hmem)
    rw [hchan, Function.update_of_ne hne]
    exact ⟨hlt, hc, hempty, hopen⟩
  · rw [hprepared]
    exact ho.prepared_unique

/-- A sender closes its channel. -/
theorem Outputs.close (ho : Outputs s h) (hch : s.sender a = some ch) (hout : Unprinted s s')
    (hchan : s'.chan = Function.update s.chan ch { s.chan ch with closed := true })
    (hnext : s'.nextChan = s.nextChan) (hsender : s'.sender = Function.update s.sender a none)
    (hprepared : s'.prepared = s.prepared) : Outputs s' h := by
  obtain ⟨hmem, -⟩ := ho.mem a ch hch
  have hother : ∀ x c, s'.sender x = some c → x ≠ a ∧ s.sender x = some c ∧ c ≠ ch := by
    intro x c hx
    rw [hsender] at hx
    have hxa : x ≠ a := by
      rintro rfl
      rw [Function.update_self] at hx
      cases hx
    rw [Function.update_of_ne hxa] at hx
    refine ⟨hxa, hx, ?_⟩
    rintro rfl
    exact hxa (ho.unique x a c hx hch)
  refine ⟨?_, ?_, ?_, ?_, ?_, ?_, ?_⟩
  · apply ho.follows.congr hout.outputChannels hout.printing hout.log
    intro c _
    unfold drain
    dsimp only
    rw [hchan]
    by_cases hc : c = ch
    · subst hc
      rw [Function.update_self]
    · rw [Function.update_of_ne hc]
  · rw [hnext]
    exact ho.lt
  · intro x c hx
    obtain ⟨-, hx, hne⟩ := hother x c hx
    rw [ahead_congr hout.outputChannels hout.printing, hchan, Function.update_of_ne hne]
    exact ho.mem x c hx
  · rw [hsender]
    exact ho.unique.update_none a
  · rw [ahead_congr hout.outputChannels hout.printing, hchan]
    intro c hc hopen
    have hne : c ≠ ch := by
      rintro rfl
      rw [Function.update_self] at hopen
      cases hopen
    rw [Function.update_of_ne hne] at hopen
    obtain ⟨x, hx⟩ := ho.exists_sender c hc hopen
    refine ⟨x, ?_⟩
    rw [hsender, Function.update_of_ne, hx]
    rintro rfl
    rw [hch] at hx
    cases hx
    exact hne rfl
  · rw [hprepared, hnext]
    intro x c hx
    obtain ⟨hlt, hc, hempty, hopen⟩ := ho.prepared x c hx
    have hne : c ≠ ch := by
      rintro rfl
      exact hc (ho.follows.mem_queued hmem)
    rw [hchan, Function.update_of_ne hne]
    exact ⟨hlt, hc, hempty, hopen⟩
  · rw [hprepared]
    exact ho.prepared_unique

/-- The printer takes a channel, prints a message or goes on to the next channel. -/
theorem Outputs.print (ho : Outputs s h) (hs : s.printOutputChnl = some s')
    (hsender : s'.sender = s.sender) (hprepared : s'.prepared = s.prepared) : Outputs s' h := by
  unfold printOutputChnl at hs
  split at hs
  next hprinting =>
    split at hs
    · cases hs
    next ch rest hwaiting =>
      cases hs
      have hahead : ({ s with outputChannels := rest, printing := some ch } : Sys N I T).drain.ahead =
          s.drain.ahead := by
        unfold Drain.ahead drain
        dsimp only
        rw [hprinting, hwaiting]
        rfl
      refine ⟨ho.follows.take hprinting hwaiting rfl rfl rfl, ho.lt, ?_, ?_, ?_, ?_, ?_⟩
      · rw [hsender, hahead]
        exact ho.mem
      · rw [hsender]
        exact ho.unique
      · rw [hsender, hahead]
        exact ho.exists_sender
      · rw [hprepared]
        exact ho.prepared
      · rw [hprepared]
        exact ho.prepared_unique
  next ch hprinting =>
    dsimp only at hs
    split at hs
    next message messages hmessages =>
      cases hs
      have hahead : ({ s with
          chan := Function.update s.chan ch { s.chan ch with messages }
          log := s.log ++ [message] } : Sys N I T).drain.ahead = s.drain.ahead := rfl
      have hclosed : ∀ c, (Function.update s.chan ch { s.chan ch with messages } c).closed =
          (s.chan c).closed := by
        intro c
        by_cases hc : c = ch
        · subst hc
          rw [Function.update_self]
        · rw [Function.update_of_ne hc]
      refine ⟨?_, ho.lt, ?_, ?_, ?_, ?_, ?_⟩
      · refine ho.follows.readOne hprinting hmessages ?_ hprinting ?_ ?_
        · rfl
        · rfl
        unfold drain
        dsimp only
        funext c
        by_cases hc : c = ch
        · subst hc
          rw [Function.update_self, Function.update_self]
        · rw [Function.update_of_ne hc, Function.update_of_ne hc]
      · rw [hsender, hahead]
        intro x c hx
        dsimp only
        rw [hclosed]
        exact ho.mem x c hx
      · rw [hsender]
        exact ho.unique
      · rw [hsender, hahead]
        intro c hc hopen
        dsimp only at hopen
        rw [hclosed] at hopen
        exact ho.exists_sender c hc hopen
      · rw [hprepared]
        intro x c hx
        obtain ⟨hlt, hc, hempty, hopen⟩ := ho.prepared x c hx
        have hne : c ≠ ch := by
          rintro rfl
          rw [hmessages] at hempty
          cases hempty
        dsimp only
        rw [Function.update_of_ne hne]
        exact ⟨hlt, hc, hempty, hopen⟩
      · rw [hprepared]
        exact ho.prepared_unique
    next hmessages =>
      split at hs
      next hclosed =>
        cases hs
        have hahead : s.drain.ahead = ch :: ({ s with printing := none } : Sys N I T).drain.ahead := by
          unfold Drain.ahead drain
          dsimp only
          rw [hprinting]
          rfl
        refine ⟨ho.follows.finish hprinting hmessages rfl rfl rfl rfl, ho.lt, ?_, ?_, ?_, ?_, ?_⟩
        · -- a channel with a sender is open, so it is not this one
          rw [hsender]
          intro x c hx
          obtain ⟨hmem, hopen⟩ := ho.mem x c hx
          refine ⟨?_, hopen⟩
          rw [hahead] at hmem
          rcases List.mem_cons.mp hmem with rfl | hmem
          · rw [hclosed] at hopen
            cases hopen
          · exact hmem
        · rw [hsender]
          exact ho.unique
        · rw [hsender]
          intro c hc hopen
          apply ho.exists_sender c _ hopen
          rw [hahead]
          exact List.mem_cons_of_mem ch hc
        · rw [hprepared]
          exact ho.prepared
        · rw [hprepared]
          exact ho.prepared_unique
      next hclosed => cases hs

/-- What one step preserves. -/
theorem Outputs.step (ho : Outputs s h) (hmade : Made s) (hs : s.step a = some s') :
    Outputs s' (s.record h a) := by
  have hout := outStep_step hmade hs
  cases hout with
  | idle hout hsender hprepared hqueues hsends =>
    rw [record_silent hqueues hsends]
    exact ho.idle hout hsender hprepared
  | prepare capacity hout hchan hnext hsender hprepared hqueues hsends =>
    rw [record_silent hqueues hsends]
    exact ho.prepare hout hchan hnext hsender hprepared
  | queue ch x hch hx hwaiting hprinting hlog hchan hnext hsender hprepared hqueues hsends =>
    rw [record_queues hqueues hsends]
    obtain ⟨hlt, hnot, hempty, hopen⟩ := ho.prepared a ch hch
    refine ho.queue hnot hx hwaiting hprinting hlog ?_ ?_ ?_ ?_ hnext.ge hsender ?_
    · rw [hchan]
      exact hempty
    · rw [hchan]
      exact hopen
    · intro c _
      rw [hchan]
    · rw [hnext]
      exact hlt
    · intro y c hy
      rw [hprepared] at hy
      have hya : y ≠ a := by
        rintro rfl
        rw [Function.update_self] at hy
        cases hy
      rw [Function.update_of_ne hya] at hy
      refine ⟨?_, hy, by rw [hchan]⟩
      rintro rfl
      exact hya (ho.prepared_unique y a c hy hch)
  | make x hx hwaiting hprinting hlog hchan hnext hsender hprepared hqueues hsends =>
    rw [record_queues hqueues hsends]
    have hother : ∀ c, c < s.nextChan → s'.chan c = s.chan c := by
      intro c hc
      rw [hchan, Function.update_of_ne hc.ne]
    refine ho.queue ho.nextChan_notMem hx hwaiting hprinting hlog ?_ ?_ ?_ ?_ ?_ hsender ?_
    · rw [hchan, Function.update_self]
    · rw [hchan, Function.update_self]
    · exact fun c hc => hother c (ho.lt c hc)
    · rw [hnext]
      exact Nat.lt_succ_self _
    · rw [hnext]
      exact Nat.le_succ _
    · intro y c hy
      rw [hprepared] at hy
      have hlt := (ho.prepared y c hy).1
      exact ⟨hlt.ne, hy, hother c hlt⟩
  | send ch m hch hroom hopen hout hchan hnext hsender hprepared hqueues hsends =>
    rw [record_sends hqueues hsends]
    exact ho.send hch hout hchan hnext hsender hprepared
  | close ch hch hout hchan hnext hsender hprepared hqueues hsends =>
    rw [record_silent hqueues hsends]
    exact ho.close hch hout hchan hnext hsender hprepared
  | print ha hnext hsender hprepared hprint =>
    subst ha
    rw [record_silent rfl rfl]
    exact ho.print hprint hsender hprepared

/-! ## Whose messages a channel carries -/

/-- The command that an actor sends for. -/
def causeOf (s : Sys N I T) : Actor T → Option (Cause N I T)
  | .conn t => (s.conn t).pc.cause
  | .routine g => (s.routine g).map (·.cause)
  | _ => none

theorem causeOf_sends {m : Sent N I T} (hsends : s.sends a = some (ch, m)) :
    s.causeOf a = some m.1 := by
  cases a with
  | conn t =>
    rw [causeOf]
    cases hpc : (s.conn t).pc with
    | reject c orderId ch' =>
      rw [sends_conn hpc] at hsends
      cases hsends
      rfl
    | _ =>
      rw [sends_conn hpc] at hsends
      cases hsends
  | routine g =>
    cases hr : s.routine g with
    | none =>
      rw [sends, hr] at hsends
      cases hsends
    | some r =>
      rw [sends_routine hr rfl] at hsends
      rw [causeOf, hr, Option.map_some]
      unfold Routine.sends at hsends
      split at hsends <;> cases hsends <;> rfl
  | dispatcher b => cases hsends
  | printer => cases hsends

theorem causeOf_connGoto {t : T} (pc : ConnPc N I T) :
    (s.connGoto t pc).causeOf (.conn t) = pc.cause := by
  have hconn : (s.connGoto t pc).conn t = { s.conn t with pc } := Function.update_self ..
  rw [causeOf, hconn]

/-- Who keeps its channel keeps its command, or sends no more. -/
theorem causeOf_conn {t u : T} (hs : s.handleConn t = some s') (hch : s.sender (.conn u) = some ch) :
    s'.causeOf (.conn u) = none ∨ s'.causeOf (.conn u) = s.causeOf (.conn u) := by
  have hturn := turn_handleConn hs
  by_cases hu : u = t
  · subst hu
    unfold handleConn at hs
    cases hpc : (s.conn u).pc with
    | missUnlock c orderId ch₀ =>
      rw [hpc] at hs
      rcases Option.map_eq_some_iff.mp hs with ⟨s₁, hs₁, rfl⟩
      apply Or.inr
      rw [causeOf_connGoto, causeOf, hpc]
      rfl
    | reject c orderId ch₀ =>
      rw [hpc] at hs
      rcases Option.map_eq_some_iff.mp hs with ⟨s₁, hs₁, rfl⟩
      apply Or.inl
      rw [causeOf_connGoto]
      rfl
    | close ch₀ =>
      rw [hpc] at hs
      cases hs
      apply Or.inl
      rw [causeOf_connGoto]
      rfl
    | _ =>
      rw [sender_conn hpc] at hch
      cases hch
  · apply Or.inr
    rw [causeOf, causeOf, hturn.conn u hu]

theorem causeOf_routine {g g' : ℕ} {r : Routine N I T} (hmade : Made s) (ht : Turn s g r s')
    (hr : s.routine g = some r) (hch : s.sender (.routine g') = some ch)
    (hch' : s'.sender (.routine g') = some ch) :
    s'.causeOf (.routine g') = s.causeOf (.routine g') := by
  rw [causeOf, causeOf]
  by_cases hg : g' = g
  · subst hg
    obtain ⟨p, -, ⟨hnone, -⟩ | ⟨r', hr', hcause, -⟩⟩ := ht.self
    · rw [sender, hnone] at hch'
      cases hch'
    · rw [hr, hr', Option.map_some, Option.map_some, hcause]
  · rcases ht.other g' hg with heq | ⟨hnew, -⟩
    · rw [heq]
    · -- a goroutine that is started had no channel
      rw [sender, hmade.routine g' hnew] at hch
      cases hch

theorem causeOf_congr (hconn : s'.conn = s.conn) (hroutine : s'.routine = s.routine) :
    s'.causeOf = s.causeOf := by
  funext x
  cases x with
  | conn t => rw [causeOf, causeOf, hconn]
  | routine g => rw [causeOf, causeOf, hroutine]
  | dispatcher b => rfl
  | printer => rfl

theorem causeOf_step (hmade : Made s) (hs : s.step a = some s') (hch : s.sender x = some ch)
    (hch' : s'.sender x = some ch) : s'.causeOf x = none ∨ s'.causeOf x = s.causeOf x := by
  cases x with
  | dispatcher b => cases hch
  | printer => cases hch
  | conn u =>
    cases a with
    | conn t => exact causeOf_conn hs hch
    | dispatcher b =>
      apply Or.inr
      rw [causeOf, causeOf, (dispatch_spec hs).conn]
    | routine g =>
      unfold step at hs
      dsimp only at hs
      split at hs
      · cases hs
      next r hr =>
        apply Or.inr
        rw [causeOf, causeOf, (turn_routineStep hs).conn]
    | printer =>
      have hk := kept_printOutputChnl hs
      rw [causeOf_congr hk.conn hk.routine]
      exact Or.inr rfl
  | routine g' =>
    apply Or.inr
    cases a with
    | conn t =>
      rw [causeOf, causeOf, (turn_handleConn hs).routine]
    | dispatcher b =>
      have hne : g' ≠ s.nextRoutine := by
        rintro rfl
        rw [hmade.sender_none] at hch
        cases hch
      rw [causeOf, causeOf, (dispatch_spec hs).other g' hne]
    | routine g =>
      unfold step at hs
      dsimp only at hs
      split at hs
      · cases hs
      next r hr => exact causeOf_routine hmade (turn_routineStep hs) hr hch hch'
    | printer =>
      have hk := kept_printOutputChnl hs
      rw [causeOf_congr hk.conn hk.routine]

/-- The messages on a channel are those of one command, that of its sender while it has one. -/
structure OneCause (s : Sys N I T) (h : History ChanPtr (Sent N I T)) : Prop where
  cause : ∀ ch, ∀ m ∈ h.sent ch, ∀ m' ∈ h.sent ch, m.1 = m'.1
  sender : ∀ a ch c, s.sender a = some ch → s.causeOf a = some c → ∀ m ∈ h.sent ch, m.1 = c

theorem OneCause.frame (hc : OneCause s h) (hmade : Made s) (hs : s.step a = some s')
    (hsender : s'.sender = s.sender) : OneCause s' h where
  cause := hc.cause
  sender := by
    intro x ch c hx hcause
    rw [hsender] at hx
    rcases causeOf_step hmade hs hx (hsender ▸ hx) with hnone | hkeep
    · rw [hnone] at hcause
      cases hcause
    · rw [hkeep] at hcause
      exact hc.sender x ch c hx hcause

/-- A channel is queued on which nothing was sent. -/
theorem OneCause.queue (hc : OneCause s h) (hmade : Made s) (hs : s.step a = some s')
    (hempty : h.sent ch = []) (hsender : s'.sender = Function.update s.sender x (some ch)) :
    OneCause s' { h with queued := h.queued ++ [ch] } where
  cause := hc.cause
  sender := by
    intro y c d hy hcause
    have hy' := hy
    rw [hsender] at hy
    by_cases hyx : y = x
    · subst hyx
      rw [Function.update_self] at hy
      cases hy
      dsimp only
      rw [hempty]
      intro m hm
      cases hm
    · rw [Function.update_of_ne hyx] at hy
      rcases causeOf_step hmade hs hy hy' with hnone | hkeep
      · rw [hnone] at hcause
        cases hcause
      · rw [hkeep] at hcause
        exact hc.sender y c d hy hcause

theorem OneCause.send (hc : OneCause s h) (ho : Outputs s h) (hmade : Made s)
    (hs : s.step a = some s') {m : Sent N I T} (hch : s.sender a = some ch)
    (hsends : s.sends a = some (ch, m)) (hsender : s'.sender = s.sender) :
    OneCause s' { h with sent := Function.update h.sent ch (h.sent ch ++ [m]) } := by
  have hsent := hc.sender a ch m.1 hch (causeOf_sends hsends)
  -- the new message belongs to the command of those before it
  have hnew : ∀ m' ∈ h.sent ch ++ [m], m'.1 = m.1 := by
    intro m' hm'
    rcases List.mem_append.mp hm' with hm' | hm'
    · exact hsent m' hm'
    · rw [List.mem_singleton.mp hm']
  constructor
  · intro c
    by_cases hc' : c = ch
    · subst hc'
      dsimp only
      rw [Function.update_self]
      exact fun m₁ hm₁ m₂ hm₂ => (hnew m₁ hm₁).trans (hnew m₂ hm₂).symm
    · dsimp only
      rw [Function.update_of_ne hc']
      exact hc.cause c
  · intro x c d hx hcause
    rw [hsender] at hx
    have hkeep : s.causeOf x = some d := by
      rcases causeOf_step hmade hs hx (hsender ▸ hx) with hnone | hkeep
      · rw [hnone] at hcause
        cases hcause
      · rw [← hkeep]
        exact hcause
    by_cases hc' : c = ch
    · subst hc'
      have hxa := ho.unique x a c hx hch
      subst hxa
      rw [causeOf_sends hsends] at hkeep
      cases hkeep
      dsimp only
      rw [Function.update_self]
      exact hnew
    · dsimp only
      rw [Function.update_of_ne hc']
      exact hc.sender x c d hx hkeep

theorem OneCause.step (hc : OneCause s h) (ho : Outputs s h) (hmade : Made s)
    (hs : s.step a = some s') : OneCause s' (s.record h a) := by
  have hout := outStep_step hmade hs
  cases hout with
  | idle hout hsender hprepared hqueues hsends =>
    rw [record_silent hqueues hsends]
    exact hc.frame hmade hs hsender
  | prepare capacity hout hchan hnext hsender hprepared hqueues hsends =>
    rw [record_silent hqueues hsends]
    exact hc.frame hmade hs hsender
  | queue ch x hch hx hwaiting hprinting hlog hchan hnext hsender hprepared hqueues hsends =>
    rw [record_queues hqueues hsends]
    exact hc.queue hmade hs (ho.follows.unsent (ho.prepared a ch hch).2.1) hsender
  | make x hx hwaiting hprinting hlog hchan hnext hsender hprepared hqueues hsends =>
    rw [record_queues hqueues hsends]
    exact hc.queue hmade hs (ho.follows.unsent ho.nextChan_notMem) hsender
  | send ch m hch hroom hopen hout hchan hnext hsender hprepared hqueues hsends =>
    rw [record_sends hqueues hsends]
    exact hc.send ho hmade hs hch hsends hsender
  | close ch hch hout hchan hnext hsender hprepared hqueues hsends =>
    rw [record_silent hqueues hsends]
    refine ⟨hc.cause, ?_⟩
    intro x c d hx hcause
    have hx' := hx
    rw [hsender] at hx
    have hxa : x ≠ a := by
      rintro rfl
      rw [Function.update_self] at hx
      cases hx
    rw [Function.update_of_ne hxa] at hx
    rcases causeOf_step hmade hs hx hx' with hnone | hkeep
    · rw [hnone] at hcause
      cases hcause
    · rw [hkeep] at hcause
      exact hc.sender x c d hx hcause
  | print ha hnext hsender hprepared hprint =>
    rw [record_silent (by subst ha; rfl) (by subst ha; rfl)]
    exact hc.frame hmade hs hsender

/-! ## Over a run -/

theorem Recorded.invariant (hr : Recorded cmds s h) : Made s ∧ Outputs s h ∧ OneCause s h := by
  induction hr with
  | init =>
    refine ⟨made_init cmds, outputs_init, ⟨fun ch => ?_, ?_⟩⟩
    · intro m hm
      cases hm
    · intro a ch c ha
      cases a <;> cases ha
  | step hr hs ih =>
    obtain ⟨hmade, ho, hc⟩ := ih
    exact ⟨hmade.step hs, ho.step hmade hs, hc.step ho hmade hs⟩

/-- What is printed and what the channels still hold, in their order, is all that was sent, channel by
    channel in the order of the queue.  Each channel is queued once, nothing is sent on any other, and
    the messages of a channel are due to one command. -/
theorem printed_in_order (hr : Recorded cmds s h) :
    s.log ++ s.drain.ahead.flatMap (fun ch => (s.chan ch).messages) = h.queued.flatMap h.sent ∧
      h.queued.Nodup ∧ (∀ ch, ch ∉ h.queued → h.sent ch = []) ∧
      ∀ ch, ∀ m ∈ h.sent ch, ∀ m' ∈ h.sent ch, m.1 = m'.1 := by
  obtain ⟨-, ho, hc⟩ := hr.invariant
  have hnodup : h.queued.Nodup := by
    obtain ⟨finished, part, hreads⟩ := ho.follows
    exact hreads.nodup
  exact ⟨ho.follows.read_append, hnodup, fun ch hch => ho.follows.unsent hch, hc.cause⟩

theorem Recorded.run (hr : Recorded cmds s h) (as : List (Actor T)) :
    Recorded cmds (s.run as) (s.records h as) := by
  induction as generalizing s h with
  | nil => exact hr
  | cons a as ih =>
    unfold Sys.run records
    cases hs : s.step a with
    | none => exact ih hr
    | some s' => exact ih (hr.step hs)

/-- Two connections sell different instruments. -/
def twoSales : Bool → List (Command UInt32 Bool)
  | true => [.order .sell 1 true 2700 10 0]
  | false => [.order .sell 2 false 2700 10 1]

/-- The first one queues its channel first and sends last. -/
def lateSend : List (Actor Bool) :=
  List.flatten
    [List.replicate 6 (.conn true), [.dispatcher 0], List.replicate 10 (.routine 0),
      List.replicate 6 (.conn false), [.dispatcher 1], List.replicate 10 (.routine 2),
      List.replicate 8 (.routine 3), List.replicate 3 .printer, List.replicate 8 (.routine 1),
      List.replicate 3 .printer]

theorem printed_in_order_lateSend :
    ((Sys.init twoSales).run lateSend).log.map Prod.snd = [.added .sell 1 true 2700 10 0] ∧
      ((((Sys.init twoSales).run lateSend).chan 1).messages.map Prod.snd =
        [.added .sell 2 false 2700 10 1]) ∧
      ((Sys.init twoSales).run lateSend).log ++ (((Sys.init twoSales).run lateSend).chan 1).messages =
        [0, 1].flatMap ((Sys.init twoSales).records History.empty lateSend).sent := by
  have hahead : ((Sys.init twoSales).run lateSend).drain.ahead = [1] := by decide +kernel
  have hqueued : ((Sys.init twoSales).records History.empty lateSend).queued = [0, 1] := by
    decide +kernel
  have hinit : Recorded twoSales (Sys.init twoSales) History.empty := Recorded.init
  have horder := (printed_in_order (hinit.run lateSend)).1
  rw [hahead, List.flatMap_singleton, hqueued] at horder
  exact ⟨by decide +kernel, by decide +kernel, horder⟩

end Sys

end MatchingEngine.Go
