import MatchingEngine.Go.Locks
import MatchingEngine.Go.Printer

/-!
# Room in the output channels

`MatchOrder` makes the channel of a node as large as the node, any other channel has room for one
message.  That is as many as are sent: while a channel has a sender, what it holds and what is still
due on it fit.
-/

set_option linter.unusedSectionVars false

namespace MatchingEngine.Go

variable {N I T : Type} [Quantity N] [DecidableEq I] [DecidableEq T]

/-- The channel that a goroutine has made or will close. -/
def Pc.target (p : Pc N I) : Option ChanPtr := p.channel.or p.prepared

/-- How many messages a goroutine may still send on its channel; `len` is the number of orders of a node
    on the other side. -/
def Pc.due (len : NodePtr → ℕ) : Pc N I → ℕ
  | .matchQueue _ curr _ => len curr
  | .exec countLeftToMatch node _ => if countLeftToMatch = 0 then 0 else len node
  | .execRemove _ _ countLeftToMatch node _ | .execSend _ countLeftToMatch node _ =>
    (if countLeftToMatch = 0 then 0 else len node) + 1
  | .addFirst _ | .addWalk .. | .addTest .. | .addPlace .. | .addLinked .. | .addAppend ..
  | .addSend .. => 1
  | .cancelFirst _ | .cancelAt .. | .cancelOn .. | .cancelRemove .. | .cancelUnlink ..
  | .cancelUnlock .. | .cancelSend .. => 1
  | _ => 0

def ConnPc.due : ConnPc N I T → ℕ
  | .missUnlock .. | .reject .. => 1
  | _ => 0

namespace Sys

/-- The number of orders of a node on the other side. -/
def len (s : Sys N I T) (r : Routine N I T) (n : NodePtr) : ℕ :=
  (s.node r.book r.side.opp n).orders.length

/-- The channel of a goroutine has room for what is due. -/
def RoomFor (s : Sys N I T) (r : Routine N I T) : Prop :=
  ∀ ch, r.pc.target = some ch →
    (s.chan ch).messages.length + r.pc.due (s.len r) ≤ (s.chan ch).capacity

def RoomForConn (s : Sys N I T) (t : T) : Prop :=
  ∀ ch, (s.conn t).pc.channel = some ch →
    (s.chan ch).messages.length + (s.conn t).pc.due ≤ (s.chan ch).capacity

variable {s s₁ s₂ s' : Sys N I T} {a x : Actor T} {t u : T} {g : ℕ} {r r' : Routine N I T}
  {b : OrderBookPtr} {sd : Side} {n : NodePtr} {ch : ChanPtr} {p pc : Pc N I}

theorem node_setNode_self (x : Node N I T) : (s.setNode b sd n x).node b sd n = x := by
  unfold Sys.node setNode
  rw [chain_setChain_self]
  exact Function.update_self ..

theorem node_setNode_ne (x : Node N I T) {n' : NodePtr} (h : n' ≠ n) :
    (s.setNode b sd n x).node b sd n' = s.node b sd n' := by
  unfold Sys.node setNode
  rw [chain_setChain_self]
  exact Function.update_of_ne h ..

theorem orders_setNext (next : Option NodePtr) (n' : NodePtr) :
    ((s.setNext b sd n next).node b sd n').orders = (s.node b sd n').orders := by
  unfold setNext
  by_cases h : n' = n
  · subst h
    rw [node_setNode_self]
  · rw [node_setNode_ne _ h]

/-! ## The step of a goroutine -/

/-- Every goroutine that a step of `g` has moved or started has room. -/
def RoomAfter (s : Sys N I T) (g : ℕ) (s' : Sys N I T) : Prop :=
  ∀ g' r', s'.routine g' = some r' → g' ≠ g ∧ s.routine g' = some r' ∨ s'.RoomFor r'

theorem roomFor_none (h : r.pc.target = none) : s.RoomFor r := by
  intro ch hch
  rw [h] at hch
  cases hch

/-- The channel is the same and no more is due. -/
theorem RoomFor.keep (h : s.RoomFor r) (hpc : r.pc = p) (hchan : s₁.chan = s.chan)
    (htarget : pc.target = p.target) (hdue : pc.due (s₁.len r) ≤ p.due (s.len r)) :
    s₁.RoomFor { r with pc } := by
  subst hpc
  intro ch hch
  rw [hchan]
  have hroom := h ch (htarget.symm.trans hch)
  exact (Nat.add_le_add_left hdue _).trans hroom

/-- A message is sent. -/
theorem RoomFor.send (h : s.RoomFor r) (hpc : r.pc = p) {cause : Cause N I T} {line : Line N I}
    (hs : s.send ch cause line = some s₁) (htarget : pc.target = p.target)
    (hch : p.target = some ch) (hdue : pc.due (s₁.len r) + 1 ≤ p.due (s.len r)) :
    s₁.RoomFor { r with pc } := by
  subst hpc
  have hroom := h ch hch
  intro ch' hch'
  rw [htarget, hch] at hch'
  cases hch'
  rw [(send_spec hs).2.2.2.1, Function.update_self, List.length_append, List.length_singleton]
  show (s.chan ch).messages.length + 1 + pc.due (s₁.len r) ≤ (s.chan ch).capacity
  omega

/-- A channel for one message. -/
theorem roomFor_makeChan (hchan : s₁.chan = (s.makeChan 1).chan) (hch : r.pc.target = some s.nextChan)
    (hdue : r.pc.due (s₁.len r) ≤ 1) : s₁.RoomFor r := by
  intro ch' hch'
  rw [hch] at hch'
  cases hch'
  rw [hchan]
  unfold makeChan
  dsimp only
  rw [Function.update_self, List.length_nil, Nat.zero_add]
  exact hdue

theorem RoomAfter.goto (hroutine : s₁.routine = s.routine) (h : s₁.RoomFor { r with pc }) :
    RoomAfter s g (s₁.goto g r pc) := by
  intro g' r' hr'
  rw [routine_goto hroutine] at hr'
  by_cases hg : g' = g
  · subst hg
    rw [Function.update_self] at hr'
    cases hr'
    exact Or.inr h
  · rw [Function.update_of_ne hg] at hr'
    exact Or.inl ⟨hg, hr'⟩

theorem RoomAfter.done (hroutine : s₁.routine = s.routine) : RoomAfter s g (s₁.done g) := by
  intro g' r' hr'
  rw [routine_done hroutine] at hr'
  by_cases hg : g' = g
  · subst hg
    rw [Function.update_self] at hr'
    cases hr'
  · rw [Function.update_of_ne hg] at hr'
    exact Or.inl ⟨hg, hr'⟩

theorem RoomAfter.spawn_goto (hk : Kept s s₁) (h' : s₁.RoomFor r') (h : s₁.RoomFor { r with pc }) :
    RoomAfter s g ((s₁.spawn r').goto g r pc) := by
  intro g' x hx
  rw [routine_goto rfl] at hx
  by_cases hg : g' = g
  · subst hg
    rw [Function.update_self] at hx
    cases hx
    exact Or.inr h
  · rw [Function.update_of_ne hg] at hx
    unfold Sys.spawn at hx
    dsimp only at hx
    by_cases hnew : g' = s₁.nextRoutine
    · subst hnew
      rw [Function.update_self] at hx
      cases hx
      exact Or.inr h'
    · rw [Function.update_of_ne hnew, hk.routine] at hx
      exact Or.inl ⟨hg, hx⟩

theorem chan_setNext (next : Option NodePtr) : (s.setNext b sd n next).chan = s.chan := rfl

theorem roomAfter_processActiveOrder (h : s.RoomFor r) (hpc : r.pc = p)
    (hs : s.processActiveOrder g r p = some s') : RoomAfter s g s' := by
  cases p with
  | lockSgl =>
    rcases Option.map_eq_some_iff.mp hs with ⟨s₁, hs₁, rfl⟩
    exact .goto (kept_lockSgl hs₁).routine (roomFor_none rfl)
  | lockMatchHead =>
    rcases Option.map_eq_some_iff.mp hs with ⟨s₁, hs₁, rfl⟩
    exact .goto (kept_lock hs₁).routine (roomFor_none rfl)
  | matchAt v shouldPopPrev curr =>
    cases curr with
    | none =>
      cases hs
      cases shouldPopPrev with
      | false => exact .goto rfl (roomFor_none rfl)
      | true => exact .goto rfl (roomFor_none rfl)
    | some curr =>
      rcases Option.map_eq_some_iff.mp hs with ⟨s₁, hs₁, rfl⟩
      exact .goto (kept_lock hs₁).routine (roomFor_none rfl)
  | matchTest v shouldPopPrev curr =>
    have hk : Kept s (if shouldPopPrev then s.setNext r.book r.side.opp 0 (some curr) else s) := by
      split
      · exact kept_setNext (some curr)
      · exact Kept.refl s
    simp only [Sys.processActiveOrder] at hs
    split at hs
    · rcases Option.map_eq_some_iff.mp hs with ⟨s₁, hs₁, rfl⟩
      exact .goto (hk.trans (kept_unlock hs₁)).routine (roomFor_none rfl)
    · cases hs
      refine .goto hk.routine ?_
      -- as many as the node has orders
      intro ch hch
      cases hch
      have hlen : ∀ n', ((if shouldPopPrev then s.setNext r.book r.side.opp 0 (some curr) else s).node
          r.book r.side.opp n').orders = (s.node r.book r.side.opp n').orders := by
        intro n'
        split
        · exact orders_setNext _ n'
        · rfl
      have hnext : (if shouldPopPrev then s.setNext r.book r.side.opp 0 (some curr) else s).nextChan =
          s.nextChan := by
        split <;> rfl
      unfold makeChan
      dsimp only
      rw [hnext, Function.update_self, List.length_nil, Nat.zero_add]
      exact (congrArg List.length (hlen curr)).le
  | matchQueue v curr ch =>
    rcases Option.map_eq_some_iff.mp hs with ⟨s₁, hs₁, rfl⟩
    have hnew : s₁.RoomFor { r with pc := .exec v curr ch } := by
      refine h.keep hpc (queue_spec hs₁).2.2.2.1 rfl ?_
      have hlen : s₁.len r curr = s.len r curr := by
        unfold queue at hs₁
        split at hs₁ <;> cases hs₁
        rfl
      unfold Pc.due
      dsimp only
      split
      · exact Nat.zero_le _
      · exact hlen.le
    dsimp only
    split
    · exact .spawn_goto (kept_queue hs₁) hnew (roomFor_none rfl)
    · exact .spawn_goto (kept_queue hs₁) hnew (roomFor_none rfl)
  | matchNext v shouldPopPrev curr =>
    cases hs
    exact .goto rfl (roomFor_none rfl)
  | matchEnd v =>
    rcases Option.map_eq_some_iff.mp hs with ⟨s₁, hs₁, rfl⟩
    split
    · exact .goto (kept_unlock hs₁).routine (roomFor_none rfl)
    · exact .goto (kept_unlock hs₁).routine (roomFor_none rfl)
  | lockAddHead v =>
    rcases Option.map_eq_some_iff.mp hs with ⟨s₁, hs₁, rfl⟩
    exact .goto (kept_lock hs₁).routine (roomFor_none rfl)
  | lockOrders v =>
    rcases Option.map_eq_some_iff.mp hs with ⟨s₁, hs₁, rfl⟩
    exact .goto (kept_lockOrders hs₁).routine (roomFor_none rfl)
  | setOrder v =>
    cases hs
    exact .goto rfl (roomFor_none rfl)
  | unlockOrders =>
    rcases Option.map_eq_some_iff.mp hs with ⟨s₁, hs₁, rfl⟩
    exact .goto (kept_unlockOrders hs₁).routine (roomFor_none rfl)
  | addQueue =>
    rcases Option.map_eq_some_iff.mp hs with ⟨s₁, hs₁, rfl⟩
    exact .spawn_goto ((kept_makeChan 1).trans (kept_queue hs₁))
      (roomFor_makeChan (queue_spec hs₁).2.2.2.1 rfl le_rfl) (roomFor_none rfl)
  | unlockSgl =>
    rcases Option.map_eq_some_iff.mp hs with ⟨s₁, hs₁, rfl⟩
    exact .done (kept_unlockSgl hs₁).routine
  | _ => cases hs

theorem len_setNode (x : Node N I T) : (s.setNode r.book r.side.opp n x).len r n = x.orders.length := by
  unfold len
  rw [node_setNode_self]

theorem roomAfter_executeOrder (h : s.RoomFor r) (hpc : r.pc = p)
    (hs : s.executeOrder g r p = some s') : RoomAfter s g s' := by
  cases p with
  | exec countLeftToMatch node ch =>
    simp only [Sys.executeOrder] at hs
    split at hs
    · cases hs
      exact .goto rfl (roomFor_none rfl)
    next earliestOrder rest horders =>
      have hlen : s.len r node = rest.length + 1 := by
        unfold len
        rw [horders, List.length_cons]
      split at hs
      · cases hs
        exact .goto rfl (roomFor_none rfl)
      next hv =>
        have hdue : (Pc.exec (I := I) countLeftToMatch node ch).due (s.len r) = rest.length + 1 :=
          (if_neg hv).trans hlen
        split at hs <;> cases hs
        · refine .goto rfl (h.keep hpc rfl rfl ?_)
          rw [hdue]
          refine Nat.succ_le_succ ?_
          rw [len_setNode]
          split
          · exact Nat.zero_le _
          · exact le_rfl
        · refine .goto rfl (h.keep hpc rfl rfl ?_)
          rw [hdue]
          refine Nat.succ_le_succ ?_
          rw [if_pos rfl]
          exact Nat.zero_le _
  | execRemove restingId line countLeftToMatch node ch =>
    cases hs
    exact .goto rfl (h.keep hpc rfl rfl le_rfl)
  | execSend line countLeftToMatch node ch =>
    rcases Option.map_eq_some_iff.mp hs with ⟨s₁, hs₁, rfl⟩
    refine .goto (kept_send hs₁).routine (h.send hpc hs₁ rfl rfl ?_)
    have hlen : s₁.len r = s.len r := by
      unfold Sys.send at hs₁
      dsimp only at hs₁
      split at hs₁ <;> cases hs₁
      rfl
    rw [hlen]
    exact le_rfl
  | execUnlock node =>
    rcases Option.map_eq_some_iff.mp hs with ⟨s₁, hs₁, rfl⟩
    exact .done (kept_unlock hs₁).routine
  | _ => cases hs

theorem roomAfter_addOrder (h : s.RoomFor r) (hpc : r.pc = p)
    (hs : s.addOrder g r p = some s') : RoomAfter s g s' := by
  cases p with
  | addFirst ch =>
    cases hs
    exact .goto rfl (h.keep hpc rfl rfl le_rfl)
  | addWalk curr next ch =>
    cases next with
    | none =>
      cases hs
      exact .goto rfl (h.keep hpc rfl rfl le_rfl)
    | some next =>
      rcases Option.map_eq_some_iff.mp hs with ⟨s₁, hs₁, rfl⟩
      exact .goto (kept_lock hs₁).routine (h.keep hpc (mute_lock hs₁).chan rfl le_rfl)
  | addTest curr next ch =>
    simp only [Sys.addOrder] at hs
    split at hs
    · rcases Option.map_eq_some_iff.mp hs with ⟨s₁, hs₁, rfl⟩
      exact .goto (kept_unlock hs₁).routine (h.keep hpc (mute_unlock hs₁).chan rfl le_rfl)
    · split at hs
      · rcases Option.map_eq_some_iff.mp hs with ⟨s₁, hs₁, rfl⟩
        exact .goto (kept_unlock hs₁).routine (h.keep hpc (mute_unlock hs₁).chan rfl le_rfl)
      · rcases Option.map_eq_some_iff.mp hs with ⟨s₁, hs₁, rfl⟩
        exact .goto (kept_unlock hs₁).routine (h.keep hpc (mute_unlock hs₁).chan rfl le_rfl)
  | addPlace curr ch =>
    simp only [Sys.addOrder] at hs
    split at hs <;> cases hs
    · exact .goto rfl (h.keep hpc rfl rfl le_rfl)
    · exact .goto rfl (h.keep hpc rfl rfl le_rfl)
  | addLinked prev curr ch =>
    rcases Option.map_eq_some_iff.mp hs with ⟨s₁, hs₁, rfl⟩
    exact .goto (kept_unlock hs₁).routine (h.keep hpc (mute_unlock hs₁).chan rfl le_rfl)
  | addAppend curr ch =>
    cases hs
    exact .goto rfl (h.keep hpc rfl rfl le_rfl)
  | addSend curr ch =>
    rcases Option.map_eq_some_iff.mp hs with ⟨s₁, hs₁, rfl⟩
    exact .goto (kept_send hs₁).routine (h.send hpc hs₁ rfl rfl le_rfl)
  | addClose curr ch =>
    cases hs
    exact .goto rfl (roomFor_none rfl)
  | addUnlock curr =>
    rcases Option.map_eq_some_iff.mp hs with ⟨s₁, hs₁, rfl⟩
    exact .done (kept_unlock hs₁).routine
  | _ => cases hs

theorem roomAfter_processCancelOrder (h : s.RoomFor r) (hpc : r.pc = p)
    (hs : s.processCancelOrder g r p = some s') : RoomAfter s g s' := by
  cases p with
  | lockHead =>
    rcases Option.map_eq_some_iff.mp hs with ⟨s₁, hs₁, rfl⟩
    exact .goto (kept_lock hs₁).routine (roomFor_none rfl)
  | cancelQueue =>
    rcases Option.map_eq_some_iff.mp hs with ⟨s₁, hs₁, rfl⟩
    exact .goto ((kept_makeChan 1).trans (kept_queue hs₁)).routine
      (roomFor_makeChan (queue_spec hs₁).2.2.2.1 rfl le_rfl)
  | cancelFirst ch =>
    simp only [Sys.processCancelOrder] at hs
    split at hs
    · cases hs
      exact .goto rfl (h.keep hpc rfl rfl le_rfl)
    · rcases Option.map_eq_some_iff.mp hs with ⟨s₁, hs₁, rfl⟩
      exact .goto (kept_lock hs₁).routine (h.keep hpc (mute_lock hs₁).chan rfl le_rfl)
  | cancelAt prev curr ch =>
    cases curr with
    | none =>
      rcases Option.map_eq_some_iff.mp hs with ⟨s₁, hs₁, rfl⟩
      exact .goto (kept_unlock hs₁).routine (h.keep hpc (mute_unlock hs₁).chan rfl le_rfl)
    | some curr =>
      simp only [Sys.processCancelOrder] at hs
      split at hs
      · split at hs
        · rcases Option.map_eq_some_iff.mp hs with ⟨s₁, hs₁, rfl⟩
          exact .goto (kept_unlock hs₁).routine (h.keep hpc (mute_unlock hs₁).chan rfl le_rfl)
        · rcases Option.map_eq_some_iff.mp hs with ⟨s₁, hs₁, rfl⟩
          exact .goto (kept_lock hs₁).routine (h.keep hpc (mute_lock hs₁).chan rfl le_rfl)
      · split at hs
        · rcases Option.map_eq_some_iff.mp hs with ⟨s₁, hs₁, rfl⟩
          exact .goto (kept_unlock hs₁).routine (h.keep hpc (mute_unlock hs₁).chan rfl le_rfl)
        · cases hs
          exact .goto rfl (h.keep hpc rfl rfl le_rfl)
  | cancelOn prev curr next ch =>
    rcases Option.map_eq_some_iff.mp hs with ⟨s₁, hs₁, rfl⟩
    exact .goto (kept_unlock hs₁).routine (h.keep hpc (mute_unlock hs₁).chan rfl le_rfl)
  | cancelRemove prev curr ch =>
    cases hs
    exact .goto rfl (h.keep hpc rfl rfl le_rfl)
  | cancelUnlink prev curr ch =>
    rcases Option.map_eq_some_iff.mp hs with ⟨s₁, hs₁, rfl⟩
    split at hs₁
    · exact .goto (kept_unlock hs₁).routine (h.keep hpc (mute_unlock hs₁).chan rfl le_rfl)
    · exact .goto (kept_unlock hs₁).routine (h.keep hpc (mute_unlock hs₁).chan rfl le_rfl)
  | cancelUnlock curr accepted ch =>
    rcases Option.map_eq_some_iff.mp hs with ⟨s₁, hs₁, rfl⟩
    exact .goto (kept_unlock hs₁).routine (h.keep hpc (mute_unlock hs₁).chan rfl le_rfl)
  | cancelSend accepted ch =>
    rcases Option.map_eq_some_iff.mp hs with ⟨s₁, hs₁, rfl⟩
    exact .goto (kept_send hs₁).routine (h.send hpc hs₁ rfl rfl le_rfl)
  | cancelClose ch =>
    cases hs
    exact .done rfl
  | _ => cases hs

theorem roomAfter_routineStep (h : s.RoomFor r) (hs : s.routineStep g r = some s') :
    RoomAfter s g s' := by
  unfold Sys.routineStep at hs
  split at hs
  all_goals
    first
      | exact roomAfter_executeOrder h rfl hs
      | exact roomAfter_addOrder h rfl hs
      | exact roomAfter_processCancelOrder h rfl hs
      | exact roomAfter_processActiveOrder h rfl hs

/-! ## The step of a connection -/

section Conn

variable {c p pc : ConnPc N I T}

theorem conn_connGoto : (s.connGoto t pc).conn t = { s.conn t with pc } := Function.update_self ..

theorem roomForConn_none (h : (s.conn t).pc.channel = none) : s.RoomForConn t := by
  intro ch hch
  rw [h] at hch
  cases hch

theorem roomForConn_goto_none (h : pc.channel = none) : (s.connGoto t pc).RoomForConn t := by
  apply roomForConn_none
  rw [conn_connGoto]
  exact h

theorem RoomForConn.goto (h : s.RoomForConn t) (hpc : (s.conn t).pc = p) (hchan : s₁.chan = s.chan)
    (hchannel : pc.channel = p.channel) (hdue : pc.due ≤ p.due) :
    (s₁.connGoto t pc).RoomForConn t := by
  subst hpc
  intro ch hch
  rw [conn_connGoto] at hch ⊢
  show (s₁.chan ch).messages.length + pc.due ≤ (s₁.chan ch).capacity
  rw [hchan]
  exact (Nat.add_le_add_left hdue _).trans (h ch (hchannel.symm.trans hch))

theorem roomForConn_makeChan (hchan : s₁.chan = (s.makeChan 1).chan)
    (hch : pc.channel = some s.nextChan) (hdue : pc.due ≤ 1) :
    (s₁.connGoto t pc).RoomForConn t := by
  intro ch' hch'
  rw [conn_connGoto] at hch' ⊢
  cases hch.symm.trans hch'
  show (s₁.chan s.nextChan).messages.length + pc.due ≤ (s₁.chan s.nextChan).capacity
  rw [hchan]
  unfold makeChan
  dsimp only
  rw [Function.update_self, List.length_nil, Nat.zero_add]
  exact hdue

theorem roomForConn_handleConn (h : s.RoomForConn t) (hs : s.handleConn t = some s') :
    s'.RoomForConn t := by
  unfold Sys.handleConn at hs
  cases hpc : (s.conn t).pc with
  | start =>
    rw [hpc] at hs
    cases hs
    apply roomForConn_none
    dsimp only
    rw [Function.update_self]
    rfl
  | ready =>
    rw [hpc] at hs
    dsimp only at hs
    split at hs
    · cases hs
    · split at hs <;> cases hs
      · exact roomForConn_goto_none rfl
      · exact roomForConn_goto_none rfl
  | getBook c o =>
    rw [hpc] at hs
    dsimp only at hs
    split at hs <;> cases hs
    · exact roomForConn_goto_none rfl
    · exact roomForConn_goto_none rfl
  | setBook c o b =>
    rw [hpc] at hs
    cases hs
    exact roomForConn_goto_none rfl
  | getAgain c o =>
    rw [hpc] at hs
    dsimp only at hs
    split at hs <;> cases hs
    exact roomForConn_goto_none rfl
  | send b event =>
    rw [hpc] at hs
    rcases Option.map_eq_some_iff.mp hs with ⟨s₁, hs₁, rfl⟩
    exact roomForConn_goto_none rfl
  | lockOrders c orderId =>
    rw [hpc] at hs
    rcases Option.map_eq_some_iff.mp hs with ⟨s₁, hs₁, rfl⟩
    exact roomForConn_goto_none rfl
  | getOrder c orderId =>
    rw [hpc] at hs
    dsimp only at hs
    split at hs <;> cases hs
    · exact roomForConn_goto_none rfl
    · exact roomForConn_goto_none rfl
  | missQueue c orderId =>
    rw [hpc] at hs
    rcases Option.map_eq_some_iff.mp hs with ⟨s₁, hs₁, rfl⟩
    exact roomForConn_makeChan (queue_spec hs₁).2.2.2.1 rfl le_rfl
  | missUnlock c orderId ch =>
    rw [hpc] at hs
    rcases Option.map_eq_some_iff.mp hs with ⟨s₁, hs₁, rfl⟩
    exact h.goto hpc (mute_unlockOrders hs₁).chan rfl le_rfl
  | foundUnlock c orderId o =>
    rw [hpc] at hs
    rcases Option.map_eq_some_iff.mp hs with ⟨s₁, hs₁, rfl⟩
    split
    · exact roomForConn_goto_none rfl
    · exact roomForConn_goto_none rfl
  | foreignQueue c orderId =>
    rw [hpc] at hs
    rcases Option.map_eq_some_iff.mp hs with ⟨s₁, hs₁, rfl⟩
    exact roomForConn_makeChan (queue_spec hs₁).2.2.2.1 rfl le_rfl
  | getBookOf c o =>
    rw [hpc] at hs
    dsimp only at hs
    split at hs <;> cases hs
    exact roomForConn_goto_none rfl
  | reject c orderId ch =>
    rw [hpc] at hs
    rcases Option.map_eq_some_iff.mp hs with ⟨s₁, hs₁, rfl⟩
    -- the one message that was due
    have hroom := h ch (by rw [hpc]; rfl)
    rw [hpc] at hroom
    intro ch' hch'
    rw [conn_connGoto] at hch' ⊢
    cases hch'
    show (s₁.chan ch).messages.length + 0 ≤ (s₁.chan ch).capacity
    rw [(send_spec hs₁).2.2.2.1, Function.update_self, List.length_append, List.length_singleton]
    exact hroom
  | close ch =>
    rw [hpc] at hs
    cases hs
    exact roomForConn_goto_none rfl

end Conn

/-! ## The invariant -/

structure Rooms (s : Sys N I T) : Prop where
  routine : ∀ g r, s.routine g = some r → s.RoomFor r
  conn : ∀ t, s.RoomForConn t

/-- The printer takes messages from a channel and changes nothing else about it. -/
theorem chan_printOutputChnl (hs : s.printOutputChnl = some s') (ch : ChanPtr) :
    (s'.chan ch).capacity = (s.chan ch).capacity ∧
      (s'.chan ch).messages.length ≤ (s.chan ch).messages.length := by
  unfold Sys.printOutputChnl at hs
  split at hs
  · split at hs <;> cases hs
    exact ⟨rfl, le_rfl⟩
  next cur hcur =>
    dsimp only at hs
    split at hs
    next message messages hmessages =>
      cases hs
      dsimp only
      by_cases hch : ch = cur
      · subst hch
        rw [Function.update_self, hmessages, List.length_cons]
        exact ⟨rfl, Nat.le_succ _⟩
      · rw [Function.update_of_ne hch]
        exact ⟨rfl, le_rfl⟩
    · split at hs <;> cases hs
      exact ⟨rfl, le_rfl⟩

variable {cmds : T → List (Command N I)} {h : Drain.History ChanPtr (Sent N I T)}

/-- A step of one leaves the channel of another its capacity, and puts nothing on it. -/
theorem Outputs.chan_other (ho : Outputs s h) (hout : OutStep s a s') (hx : x ≠ a)
    (hch : s.sender x = some ch ∨ s.prepared x = some ch) :
    (s'.chan ch).capacity = (s.chan ch).capacity ∧
      (s'.chan ch).messages.length ≤ (s.chan ch).messages.length := by
  have hqueued : ∀ y c, s.sender y = some c → c ∈ h.queued := fun y c hy =>
    ho.follows.mem_queued (ho.mem y c hy).1
  have hlt : ch < s.nextChan := by
    rcases hch with hch | hch
    · exact ho.lt ch (hqueued x ch hch)
    · exact (ho.prepared x ch hch).1
  have hsame : ∀ c, ch ≠ s.nextChan →
      (Function.update s.chan s.nextChan c ch).capacity = (s.chan ch).capacity ∧
        (Function.update s.chan s.nextChan c ch).messages.length ≤ (s.chan ch).messages.length := by
    intro c hne
    rw [Function.update_of_ne hne]
    exact ⟨rfl, le_rfl⟩
  -- the sender of a channel is the only one that has it
  have hother : ∀ c, s.sender a = some c → ch ≠ c := by
    rintro c hc rfl
    rcases hch with hch | hch
    · exact hx (ho.unique x a ch hch hc)
    · exact (ho.prepared x ch hch).2.1 (hqueued a ch hc)
  cases hout with
  | idle hmute =>
    rw [hmute.chan]
    exact ⟨rfl, le_rfl⟩
  | prepare capacity hout hchan =>
    rw [hchan]
    exact hsame _ hlt.ne
  | queue c y hc hy hwaiting hprinting hlog hchan =>
    rw [hchan]
    exact ⟨rfl, le_rfl⟩
  | make y hy hwaiting hprinting hlog hchan =>
    rw [hchan]
    exact hsame _ hlt.ne
  | send c m hc hroom hopen hout hchan =>
    rw [hchan, Function.update_of_ne (hother c hc)]
    exact ⟨rfl, le_rfl⟩
  | close c hc hout hchan =>
    rw [hchan, Function.update_of_ne (hother c hc)]
    exact ⟨rfl, le_rfl⟩
  | print ha hnext hsender hprepared hs => exact chan_printOutputChnl hs ch

theorem sender_or_prepared (hr : s.routine g = some r) (hch : r.pc.target = some ch) :
    s.sender (.routine g) = some ch ∨ s.prepared (.routine g) = some ch := by
  rcases Option.or_eq_some_iff.mp hch with hch | ⟨-, hch⟩
  · exact Or.inl ((sender_routine hr rfl).trans hch)
  · exact Or.inr ((prepared_routine hr rfl).trans hch)

/-- What is due depends on the orders of a node that the goroutine has locked. -/
theorem due_congr {len len' : NodePtr → ℕ} (p : Pc N I)
    (hlen : ∀ n ∈ p.opposite.locks, len' n = len n) : p.due len' = p.due len := by
  cases p with
  | matchQueue v curr ch => exact hlen curr (List.mem_cons_of_mem 0 (List.mem_singleton_self curr))
  | exec v node ch =>
    show (if v = 0 then 0 else len' node) = if v = 0 then 0 else len node
    rw [hlen node (List.mem_singleton_self node)]
  | execRemove restingId line v node ch =>
    show (if v = 0 then 0 else len' node) + 1 = (if v = 0 then 0 else len node) + 1
    rw [hlen node (List.mem_singleton_self node)]
  | execSend line v node ch =>
    show (if v = 0 then 0 else len' node) + 1 = (if v = 0 then 0 else len node) + 1
    rw [hlen node (List.mem_singleton_self node)]
  | _ => rfl

theorem spot_opp (r : Routine N I T) : r.spot r.book r.side.opp = r.pc.opposite := by
  unfold Routine.spot
  rw [if_pos rfl, if_neg (PriceTime.Side.ne_opp r.side)]

theorem RoomFor.other (hroom : s.RoomFor r) (hr : s.routine g = some r) (ho : Outputs s h)
    (hcoupled : Coupled s) (hout : OutStep s a s') (ha : .routine g ≠ a)
    {g' : ℕ} (hsteps : ChainSteps s g' s') (hg : g ≠ g') : s'.RoomFor r := by
  intro ch hch
  obtain ⟨hcapacity, hmessages⟩ := ho.chan_other hout ha (sender_or_prepared hr hch)
  have hdue : r.pc.due (s'.len r) = r.pc.due (s.len r) := by
    apply due_congr
    intro n hn
    have hspot : n ∈ (s.spots r.book r.side.opp g).locks := by
      rw [spots_routine hr, spot_opp]
      exact hn
    exact congrArg (fun x => x.orders.length) (hcoupled.other hsteps hg hspot)
  rw [hcapacity, hdue]
  exact (Nat.add_le_add_right hmessages _).trans (hroom ch hch)

theorem RoomForConn.other (hroom : s.RoomForConn t) (ho : Outputs s h) (hout : OutStep s a s')
    (ha : .conn t ≠ a) (hconn : s'.conn t = s.conn t) : s'.RoomForConn t := by
  intro ch hch
  rw [hconn] at hch ⊢
  obtain ⟨hcapacity, hmessages⟩ := ho.chan_other hout ha (Or.inl hch)
  rw [hcapacity]
  exact (Nat.add_le_add_right hmessages _).trans (hroom ch hch)

theorem target_of_waiting (h : r.pc.phase = .waiting) : r.pc.target = none := by
  cases hpc : r.pc with
  | lockSgl => rfl
  | lockHead => rfl
  | _ =>
    rw [hpc] at h
    cases h

theorem Rooms.step (hrooms : Rooms s) (hmade : Made s) (ho : Outputs s h) (hcoupled : Coupled s)
    (hs : s.step a = some s') : Rooms s' := by
  have hout := outStep_step hmade hs
  have hother : ∀ g r, s.routine g = some r → .routine g ≠ a → s'.RoomFor r := by
    intro g r hr ha
    by_cases hmover : ∃ g', a = .routine g'
    · obtain ⟨g', rfl⟩ := hmover
      have hsteps := chainSteps_step (g := g') hmade hcoupled.spent hs
        fun g'' h'' => (Actor.routine.inj h'').symm
      exact (hrooms.routine g r hr).other hr ho hcoupled hout ha hsteps fun heq =>
        ha (congrArg Actor.routine heq)
    · have hsteps := chainSteps_step (g := g + 1) hmade hcoupled.spent hs
        fun g' h' => absurd ⟨g', h'⟩ hmover
      exact (hrooms.routine g r hr).other hr ho hcoupled hout ha hsteps (Nat.ne_of_lt g.lt_succ_self)
  have hconn : ∀ t, s'.conn t = s.conn t → .conn t ≠ a → s'.RoomForConn t := fun t heq ha =>
    (hrooms.conn t).other ho hout ha heq
  cases a with
  | conn t =>
    have hturn := turn_handleConn hs
    constructor
    · intro g r hr
      rw [hturn.routine] at hr
      exact hother g r hr fun h => nomatch h
    · intro u
      by_cases hu : u = t
      · subst hu
        exact roomForConn_handleConn (hrooms.conn u) hs
      · exact hconn u (hturn.conn u hu) fun h => hu (Actor.conn.inj h)
  | dispatcher b =>
    have hd := dispatch_spec hs
    constructor
    · intro g r hr
      by_cases hg : g = s.nextRoutine
      · subst hg
        obtain ⟨event, rest, r', -, -, hnew, -, hphase⟩ := hd.event
        rw [hnew] at hr
        cases hr
        exact roomFor_none (target_of_waiting hphase)
      · rw [hd.other g hg] at hr
        exact hother g r hr fun h => nomatch h
    · intro t
      exact hconn t (congrFun hd.conn t) fun h => nomatch h
  | routine g =>
    unfold Sys.step at hs
    dsimp only at hs
    split at hs
    · cases hs
    next r hr =>
      have hturn := turn_routineStep hs
      constructor
      · intro g' r' hr'
        rcases roomAfter_routineStep (hrooms.routine g r hr) hs g' r' hr' with ⟨hg, hr'⟩ | hroom
        · exact hother g' r' hr' fun h => hg (Actor.routine.inj h)
        · exact hroom
      · intro t
        exact hconn t (congrFun hturn.conn t) fun h => nomatch h
  | printer =>
    have hk := kept_printOutputChnl hs
    constructor
    · intro g r hr
      rw [hk.routine] at hr
      exact hother g r hr fun h => nomatch h
    · intro t
      exact hconn t (congrFun hk.conn t) fun h => nomatch h

theorem Reachable.recorded (hr : Reachable cmds s) : ∃ h, Recorded cmds s h := by
  induction hr with
  | init => exact ⟨_, .init⟩
  | step _ hs ih =>
    obtain ⟨h, hrec⟩ := ih
    exact ⟨_, hrec.step hs⟩

theorem Reachable.rooms (hr : Reachable cmds s) : Rooms s := by
  induction hr with
  | init =>
    constructor
    · intro g r hr
      cases hr
    · intro t ch hch
      cases hch
  | step hr hs ih =>
    obtain ⟨h, hrec⟩ := hr.recorded
    exact ih.step hr.made hrec.invariant.2.1 hr.coupled hs

end Sys

end MatchingEngine.Go
