import MatchingEngine.Cpp.Script
import MatchingEngine.Cpp.Fitting
import MatchingEngine.Cpp.Bindings

/-!
# What a valid script promises the engine

The file is checked in its order over all threads; what this comes to is a condition on every thread and
every socket alone, and on the ids of the orders.
-/

namespace MatchingEngine.Cpp.Grader

open Text

variable {numThreads : ℕ} {commands : List ParsedGraderInput} {command : EngineCommand} {t k : ℕ}
  {v : Validation}

/-! ## The condition -/

/-- Connects and disconnects alternate, and commands are sent in between. -/
def InTurn : Bool → List GraderInput → Prop
  | _, [] => True
  | connected, .connect :: commands => connected = false ∧ InTurn true commands
  | connected, .disconnect :: commands => connected = true ∧ InTurn false commands
  | connected, .sendCommand _ :: commands => connected = true ∧ InTurn connected commands
  | connected, _ :: commands => InTurn connected commands

/-- The ids that the commands make orders of. -/
def newIds (commands : List EngineCommand) : List UInt32 := commands.filterMap EngineCommand.newId

/-- No id is used for two orders, and an order is cancelled after it was sent on the same socket. -/
structure Proper (socket : ℕ × ℕ → List EngineCommand) : Prop where
  nodup : ∀ p, (newIds (socket p)).Nodup
  apart : ∀ p q, p ≠ q → ∀ id ∈ newIds (socket p), id ∉ newIds (socket q)
  cancels : ∀ p before command after, socket p = before ++ command :: after → command.type = .cancel →
    command.orderId ∈ newIds before

structure ValidScript (numThreads : ℕ) (commands : List ParsedGraderInput) : Prop where
  valid : ∀ commandPair ∈ commands, commandPair.2 ≠ .invalid
  single : ∀ commandPair ∈ commands, ∀ command, commandPair.2 = .sendCommand command →
    (commandThreads numThreads commandPair).length = 1
  inTurn : ∀ thread, InTurn false (threadCommands numThreads commands thread)
  proper : Proper fun p => received numThreads commands p.1 p.2

/-! ## One thread at a time -/

/-- A command for one of its threads. -/
def Validation.event (v : Validation) (e : ℕ × GraderInput) : Validation :=
  match e.2 with
  | .sendCommand command => v.sendCommand e.1 command
  | .connect => v.connect e.1
  | .disconnect => v.disconnect e.1
  | _ => v

/-- All commands with their threads, in the order in which they are checked. -/
def events (numThreads : ℕ) (commands : List ParsedGraderInput) : List (ℕ × GraderInput) :=
  commands.flatMap fun commandPair =>
    (commandThreads numThreads commandPair).map fun thread => (thread, commandPair.2)

/-- What a thread gets of them. -/
def ofThread (es : List (ℕ × GraderInput)) (thread : ℕ) : List GraderInput :=
  (es.filter (·.1 = thread)).map Prod.snd

theorem threadCommands_eq : threadCommands numThreads commands t =
    ofThread (events numThreads commands) t := by
  unfold threadCommands ofThread events
  induction commands with
  | nil => rfl
  | cons p commands ih =>
    rw [List.flatMap_cons, List.flatMap_cons, List.filter_append, List.map_append, ← ih]
    congr 1
    rw [List.filter_map, List.map_map]
    rfl

namespace Validation

theorem failed_fail (message : Bytes) : (v.fail message).failed = true := rfl

theorem event_failed (h : v.failed = true) (e : ℕ × GraderInput) : (v.event e).failed = true := by
  unfold event
  split
  · unfold sendCommand
    dsimp only
    split <;> split <;> split <;> first | rfl | exact h | skip
    all_goals split <;> first | rfl | exact h
  · unfold connect
    dsimp only
    split
    · rfl
    · exact h
  · unfold disconnect
    dsimp only
    split
    · exact h
    · rfl
  · exact h

theorem events_failed (h : v.failed = true) (es : List (ℕ × GraderInput)) :
    (es.foldl event v).failed = true := by
  induction es generalizing v with
  | nil => exact h
  | cons e es ih => exact ih (event_failed h e)

theorem step_eq {p : ParsedGraderInput} (hvalid : p.2 ≠ .invalid)
    (hsingle : ∀ command, p.2 = .sendCommand command → (commandThreads numThreads p).length = 1) :
    v.step numThreads p =
      ((commandThreads numThreads p).map fun thread => (thread, p.2)).foldl event v := by
  have hquiet : ∀ x : GraderInput, (∀ v : Validation, ∀ t, v.event (t, x) = v) →
      ((commandThreads numThreads p).map fun thread => (thread, x)).foldl event v = v := by
    intro x hx
    induction commandThreads numThreads p generalizing v with
    | nil => rfl
    | cons t ts ih =>
      rw [List.map_cons, List.foldl_cons, hx]
      exact ih
  unfold step
  cases hp : p.2 with
  | sendCommand command =>
    rcases List.length_eq_one_iff.mp (hsingle command hp) with ⟨t, ht⟩
    rw [ht]
    rfl
  | connect =>
    rw [List.foldl_map]
    rfl
  | disconnect =>
    rw [List.foldl_map]
    rfl
  | invalid => exact absurd hp hvalid
  | sync => exact (hquiet _ fun _ _ => rfl).symm
  | wait orderId => exact (hquiet _ fun _ _ => rfl).symm
  | sleep durationMs => exact (hquiet _ fun _ _ => rfl).symm

/-- A command that is not for one thread, or for none, is an error. -/
theorem step_failed {p : ParsedGraderInput} (h : ¬ (p.2 ≠ .invalid ∧ ∀ command,
    p.2 = .sendCommand command → (commandThreads numThreads p).length = 1)) :
    (v.step numThreads p).failed = true := by
  unfold step
  cases hp : p.2 with
  | sendCommand command =>
    dsimp only
    split
    next t ht =>
      rw [hp] at h
      exact absurd ⟨fun h => (by cases h), fun _ _ => (by rw [ht]; rfl)⟩ h
    · rfl
  | invalid => rfl
  | _ => exact absurd ⟨fun h' => (by cases hp.symm.trans h'), fun c h' => (by cases hp.symm.trans h')⟩ h

end Validation

/-- The file passes if every line is for the right number of threads and all their events pass. -/
theorem validate_events : (commands.foldl (Validation.step numThreads) v).failed = false ↔
    (∀ p ∈ commands, p.2 ≠ .invalid ∧
      ∀ command, p.2 = .sendCommand command → (commandThreads numThreads p).length = 1) ∧
    ((events numThreads commands).foldl Validation.event v).failed = false := by
  induction commands generalizing v with
  | nil => simp [events]
  | cons p commands ih =>
    rw [List.foldl_cons, ih, List.forall_mem_cons]
    unfold events
    rw [List.flatMap_cons, List.foldl_append]
    by_cases hp : p.2 ≠ .invalid ∧ ∀ command, p.2 = .sendCommand command →
        (commandThreads numThreads p).length = 1
    · rw [Validation.step_eq hp.1 hp.2, and_assoc]
      exact (and_iff_right hp).symm
    · constructor
      · rintro ⟨-, hok⟩
        rw [Validation.events_failed (Validation.step_failed hp)] at hok
        cases hok
      · rintro ⟨⟨hp', -⟩, -⟩
        exact absurd hp' hp

/-! ## The clients -/

theorem clientThread_append (client : Client) (l l' : List GraderInput) :
    clientThread client (l ++ l') =
      clientThread client l ++ clientThread (l.foldl Client.after client) l' := by
  induction l generalizing client with
  | nil => rfl
  | cons x l ih =>
    rw [List.cons_append, clientThread, clientThread, ih, List.append_assoc]
    rfl

theorem inTurn_append (client : Client) (l l' : List GraderInput) :
    InTurn client.fd.isSome (l ++ l') ↔
      InTurn client.fd.isSome l ∧ InTurn (l.foldl Client.after client).fd.isSome l' := by
  induction l generalizing client with
  | nil => exact (and_iff_right trivial).symm
  | cons x l ih =>
    have hih := ih (client.after x)
    rw [List.cons_append, List.foldl_cons]
    cases x with
    | connect =>
      rw [InTurn, InTurn, and_assoc]
      exact and_congr_right fun _ => hih
    | disconnect =>
      rw [InTurn, InTurn, and_assoc]
      exact and_congr_right fun _ => hih
    | sendCommand command =>
      rw [InTurn, InTurn, and_assoc]
      exact and_congr_right fun _ => hih
    | sync => exact hih
    | sleep durationMs => exact hih
    | wait orderId => exact hih
    | invalid => exact hih

/-- The client of a thread whose connects and disconnects have alternated. -/
def ThreadState.client (state : ThreadState) : Client :=
  if state.connected then { fd := some state.connectionId, sockets := state.connectionId + 1 }
  else { fd := none, sockets := state.connectionId }

theorem ThreadState.client_isSome (state : ThreadState) :
    state.client.fd.isSome = state.connected := by
  unfold client
  split
  next h => exact h.symm
  next h => exact (Bool.eq_false_iff.mpr h).symm

section Events

variable {es : List (ℕ × GraderInput)} {x : GraderInput} {u : ℕ}

def clientOf (es : List (ℕ × GraderInput)) (t : ℕ) : Client :=
  (ofThread es t).foldl Client.after Client.init

/-- What the engine reads from a socket. -/
def socketOf (es : List (ℕ × GraderInput)) (p : ℕ × ℕ) : List EngineCommand :=
  ((clientThread .init (ofThread es p.1)).filter (·.1 = some p.2)).map Prod.snd

theorem ofThread_snoc : ofThread (es ++ [(t, x)]) u = ofThread es u ++ if t = u then [x] else [] := by
  unfold ofThread
  rw [List.filter_append, List.map_append]
  congr 1
  by_cases htu : t = u
  · simp [htu]
  · simp [htu]

theorem clientOf_snoc_self : clientOf (es ++ [(t, x)]) t = (clientOf es t).after x := by
  unfold clientOf
  rw [ofThread_snoc, if_pos rfl, List.foldl_append]
  rfl

theorem clientOf_snoc_of_ne (h : t ≠ u) : clientOf (es ++ [(t, x)]) u = clientOf es u := by
  unfold clientOf
  rw [ofThread_snoc, if_neg h, List.append_nil]

theorem inTurn_snoc_self : InTurn false (ofThread (es ++ [(t, x)]) t) ↔
    InTurn false (ofThread es t) ∧ InTurn (clientOf es t).fd.isSome [x] := by
  rw [ofThread_snoc, if_pos rfl]
  exact inTurn_append Client.init _ _

theorem inTurn_snoc_of_ne (h : t ≠ u) :
    InTurn false (ofThread (es ++ [(t, x)]) u) ↔ InTurn false (ofThread es u) := by
  rw [ofThread_snoc, if_neg h, List.append_nil]

theorem socketOf_snoc_quiet (h : ∀ client : Client, client.writes x = []) :
    socketOf (es ++ [(t, x)]) = socketOf es := by
  funext p
  unfold socketOf
  rw [ofThread_snoc]
  split
  · rw [clientThread_append, clientThread, h, clientThread, List.append_nil, List.append_nil]
  · rw [List.append_nil]

theorem socketOf_snoc_send (h : (clientOf es t).fd = some k) :
    socketOf (es ++ [(t, .sendCommand command)]) =
      Function.update (socketOf es) (t, k) (socketOf es (t, k) ++ [command]) := by
  have hwrite : clientThread .init (ofThread es t ++ [.sendCommand command]) =
      clientThread .init (ofThread es t) ++ [(some k, command)] := by
    rw [clientThread_append, ← h]
    rfl
  funext p
  by_cases hp : p = (t, k)
  · subst hp
    rw [Function.update_self]
    unfold socketOf
    rw [ofThread_snoc, if_pos rfl, hwrite]
    simp
  · rw [Function.update_of_ne hp]
    unfold socketOf
    rw [ofThread_snoc]
    by_cases ht : t = p.1
    · rw [if_pos ht, ← ht, hwrite]
      have hk : k ≠ p.2 := fun hk => hp (Prod.ext ht.symm hk.symm)
      simp [hk]
    · rw [if_neg ht, List.append_nil]

end Events

/-! ## What is sent -/

theorem newIds_append (l l' : List EngineCommand) : newIds (l ++ l') = newIds l ++ newIds l' :=
  List.filterMap_append

theorem newIds_cancel (h : command.type = .cancel) : newIds [command] = [] := by
  simp [newIds, EngineCommand.newId, h]

theorem newIds_order (h : command.type ≠ .cancel) : newIds [command] = [command.orderId] := by
  simp [newIds, EngineCommand.newId, h]

/-- A command of a list to which one is added: the new one, or an old one. -/
theorem split_snoc {l before after : List EngineCommand} {c : EngineCommand}
    (h : l ++ [command] = before ++ c :: after) :
    (l = before ∧ command = c) ∨ ∃ after', l = before ++ c :: after' := by
  rcases List.eq_nil_or_concat after with rfl | ⟨after', last, rfl⟩
  · rcases List.append_inj' h rfl with ⟨hbefore, hlast⟩
    exact Or.inl ⟨hbefore, (List.cons.inj hlast).1⟩
  · refine Or.inr ⟨after', ?_⟩
    have heq : l ++ [command] = (before ++ c :: after') ++ [last] := by
      rw [h, List.concat_eq_append, List.append_assoc]
      rfl
    exact (List.append_inj' heq rfl).1

section Proper

variable {socket : ℕ × ℕ → List EngineCommand} {p : ℕ × ℕ}

theorem Proper.of_snoc (h : Proper (Function.update socket p (socket p ++ [command]))) :
    Proper socket := by
  have hsub : ∀ q, ∃ l, Function.update socket p (socket p ++ [command]) q = socket q ++ l := by
    intro q
    by_cases hq : q = p
    · subst hq
      exact ⟨_, Function.update_self ..⟩
    · exact ⟨[], by rw [Function.update_of_ne hq, List.append_nil]⟩
  constructor
  · intro q
    rcases hsub q with ⟨l, hl⟩
    have hnodup := h.nodup q
    rw [hl, newIds_append] at hnodup
    exact (List.nodup_append.mp hnodup).1
  · intro q q' hne id hid hid'
    rcases hsub q with ⟨l, hl⟩
    rcases hsub q' with ⟨l', hl'⟩
    have hapart := h.apart q q' hne id
    rw [hl, hl', newIds_append, newIds_append] at hapart
    exact hapart (List.mem_append_left _ hid) (List.mem_append_left _ hid')
  · intro q before c after hsplit hc
    rcases hsub q with ⟨l, hl⟩
    apply h.cancels q before c (after ++ l) _ hc
    rw [hl, hsplit, List.append_assoc]
    rfl

theorem Proper.snoc_order (h : Proper socket) (hc : command.type ≠ .cancel) :
    Proper (Function.update socket p (socket p ++ [command])) ↔
      ∀ q, command.orderId ∉ newIds (socket q) := by
  have hself : newIds (Function.update socket p (socket p ++ [command]) p) =
      newIds (socket p) ++ [command.orderId] := by
    rw [Function.update_self, newIds_append, newIds_order hc]
  constructor
  · intro h' q hq
    by_cases hqp : q = p
    · subst hqp
      have hnodup := h'.nodup q
      rw [hself] at hnodup
      exact (List.nodup_append.mp hnodup).2.2 _ hq _ List.mem_cons_self rfl
    · apply h'.apart q p hqp command.orderId
      · rw [Function.update_of_ne hqp]
        exact hq
      · rw [hself]
        exact List.mem_append_right _ List.mem_cons_self
  · intro hnew
    have hids : ∀ q id, id ∈ newIds (Function.update socket p (socket p ++ [command]) q) →
        id ∈ newIds (socket q) ∨ q = p ∧ id = command.orderId := by
      intro q id hid
      by_cases hqp : q = p
      · subst hqp
        rw [hself] at hid
        rcases List.mem_append.mp hid with hid | hid
        · exact Or.inl hid
        · exact Or.inr ⟨rfl, List.mem_singleton.mp hid⟩
      · rw [Function.update_of_ne hqp] at hid
        exact Or.inl hid
    constructor
    · intro q
      by_cases hqp : q = p
      · subst hqp
        rw [hself]
        refine List.nodup_append.mpr ⟨h.nodup q, List.nodup_singleton _, ?_⟩
        rintro id hid id' hid' rfl
        rw [List.mem_singleton.mp hid'] at hid
        exact hnew q hid
      · rw [Function.update_of_ne hqp]
        exact h.nodup q
    · intro q q' hne id hid hid'
      rcases hids q id hid with hq | ⟨rfl, rfl⟩
      · rcases hids q' id hid' with hq' | ⟨-, rfl⟩
        · exact h.apart q q' hne id hq hq'
        · exact hnew q hq
      · rcases hids q' _ hid' with hq' | ⟨rfl, -⟩
        · exact hnew q' hq'
        · exact hne rfl
    · intro q before c after hsplit hcancel
      by_cases hqp : q = p
      · subst hqp
        rw [Function.update_self] at hsplit
        rcases split_snoc hsplit with ⟨-, rfl⟩ | ⟨after', hold⟩
        · exact absurd hcancel hc
        · exact h.cancels q before c after' hold hcancel
      · rw [Function.update_of_ne hqp] at hsplit
        exact h.cancels q before c after hsplit hcancel

theorem Proper.snoc_cancel (h : Proper socket) (hc : command.type = .cancel) :
    Proper (Function.update socket p (socket p ++ [command])) ↔
      command.orderId ∈ newIds (socket p) := by
  have hids : ∀ q, newIds (Function.update socket p (socket p ++ [command]) q) =
      newIds (socket q) := by
    intro q
    by_cases hqp : q = p
    · subst hqp
      rw [Function.update_self, newIds_append, newIds_cancel hc, List.append_nil]
    · rw [Function.update_of_ne hqp]
  constructor
  · intro h'
    exact h'.cancels p (socket p) command [] (Function.update_self ..) hc
  · intro hold
    constructor
    · intro q
      rw [hids]
      exact h.nodup q
    · intro q q' hne
      rw [hids, hids]
      exact h.apart q q' hne
    · intro q before c after hsplit hcancel
      by_cases hqp : q = p
      · subst hqp
        rw [Function.update_self] at hsplit
        rcases split_snoc hsplit with ⟨rfl, rfl⟩ | ⟨after', hsocket⟩
        · exact hold
        · exact h.cancels q before c after' hsocket hcancel
      · rw [Function.update_of_ne hqp] at hsplit
        exact h.cancels q before c after hsplit hcancel

end Proper

/-! ## The checks -/

namespace Validation

theorem sendCommand_ok : (v.sendCommand t command).failed = false ↔ v.failed = false ∧
    (v.state t).connected = true ∧
    (command.type ≠ .cancel → v.seenIds command.orderId = none) ∧
    (command.type = .cancel →
      v.seenIds command.orderId = some { thread := t, connection := (v.state t).connectionId }) := by
  unfold sendCommand
  dsimp only
  by_cases hconn : (v.state t).connected = true
  · rw [if_pos hconn]
    simp only [hconn, true_and]
    cases htype : command.type with
    | buy => cases hseen : v.seenIds command.orderId <;> simp [fail]
    | sell => cases hseen : v.seenIds command.orderId <;> simp [fail]
    | cancel =>
      cases hseen : v.seenIds command.orderId with
      | none => simp [fail]
      | some firstSeen =>
        dsimp only
        split
        next hne =>
          have hother : ¬ firstSeen = { thread := t, connection := (v.state t).connectionId } := by
            rintro rfl
            exact hne.elim (absurd rfl) (absurd rfl)
          simp [fail, hother]
        next heq =>
          rw [not_or, not_not, not_not] at heq
          rcases heq with ⟨rfl, hconnection⟩
          simp [← hconnection]
  · rw [if_neg hconn]
    constructor
    · intro hok
      exfalso
      split at hok <;> split at hok <;> first | cases hok | skip
      split at hok <;> cases hok
    · rintro ⟨-, hconn', -⟩
      exact absurd hconn' hconn

theorem sendCommand_threads : (v.sendCommand t command).threads = v.threads := by
  unfold sendCommand
  dsimp only
  split <;> split <;> split <;> first | rfl | skip
  all_goals split <;> rfl

theorem sendCommand_seenIds (h : (v.sendCommand t command).failed = false) :
    (v.sendCommand t command).seenIds = if command.type = .cancel then v.seenIds else
      Function.update v.seenIds command.orderId
        (some { thread := t, connection := (v.state t).connectionId }) := by
  rcases sendCommand_ok.mp h with ⟨-, hconn, hnew, hold⟩
  unfold sendCommand
  dsimp only
  rw [if_pos hconn]
  cases htype : command.type with
  | cancel =>
    rw [hold htype]
    simp
  | buy =>
    rw [hnew (by rw [htype]; decide)]
    simp
  | sell =>
    rw [hnew (by rw [htype]; decide)]
    simp

theorem connect_ok : (v.connect t).failed = false ↔ v.failed = false ∧ (v.state t).connected = false := by
  unfold connect
  dsimp only
  split
  next hconn => simp [fail, setState, hconn]
  next hconn => simp [setState, hconn]

theorem disconnect_ok :
    (v.disconnect t).failed = false ↔ v.failed = false ∧ (v.state t).connected = true := by
  unfold disconnect
  dsimp only
  split
  next hconn => simp [setState, hconn]
  next hconn => simp [fail, setState, hconn]

theorem connect_seenIds : (v.connect t).seenIds = v.seenIds := by
  unfold connect
  dsimp only
  split <;> rfl

theorem disconnect_seenIds : (v.disconnect t).seenIds = v.seenIds := by
  unfold disconnect
  dsimp only
  split <;> rfl

theorem connect_state_self : (v.connect t).state t = { v.state t with connected := true } := by
  unfold connect state setState
  dsimp only
  rw [Function.update_self]

theorem disconnect_state_self : (v.disconnect t).state t =
    { connected := false, connectionId := (v.state t).connectionId + 1 } := by
  unfold disconnect state setState
  dsimp only
  rw [Function.update_self]

/-- Threads below 2^32 do not share a key. -/
theorem state_setState_of_ne {u : ℕ} {state : ThreadState} (ht : t < 2 ^ 32) (hu : u < 2 ^ 32)
    (hne : t ≠ u) : (v.setState t state).state u = v.state u := by
  unfold Validation.state setState
  apply Function.update_of_ne
  intro heq
  have hnat := congrArg UInt32.toNat heq
  rw [UInt32.toNat_ofNat', UInt32.toNat_ofNat', Nat.mod_eq_of_lt ht, Nat.mod_eq_of_lt hu] at hnat
  exact hne hnat.symm

theorem connect_state_of_ne {u : ℕ} (ht : t < 2 ^ 32) (hu : u < 2 ^ 32) (hne : t ≠ u) :
    (v.connect t).state u = v.state u := by
  unfold connect
  dsimp only
  rw [state_setState_of_ne ht hu hne]
  split <;> rfl

theorem disconnect_state_of_ne {u : ℕ} (ht : t < 2 ^ 32) (hu : u < 2 ^ 32) (hne : t ≠ u) :
    (v.disconnect t).state u = v.state u := by
  unfold disconnect
  dsimp only
  rw [state_setState_of_ne ht hu hne]
  split <;> rfl

end Validation

/-! ## One event -/

/-- What the variables of `validate_commands` are about, as long as the checks pass. -/
structure Checked (es : List (ℕ × GraderInput)) (v : Validation) : Prop where
  ok : v.failed = false
  inTurn : ∀ t, InTurn false (ofThread es t)
  proper : Proper (socketOf es)
  client : ∀ t < 2 ^ 32, clientOf es t = (v.state t).client
  seen : ∀ id t k, v.seenIds id = some { thread := t, connection := k } ↔
    id ∈ newIds (socketOf es (t, k))

namespace Checked

variable {es : List (ℕ × GraderInput)} {x : GraderInput}

theorem init : Checked [] .init where
  ok := rfl
  inTurn := fun _ => trivial
  proper := by
    constructor
    · exact fun p => List.nodup_nil
    · exact fun p q _ id hid => absurd hid List.not_mem_nil
    · intro p before c after hsplit
      exact absurd hsplit.symm (List.append_ne_nil_of_right_ne_nil _ (List.cons_ne_nil _ _))
  client := fun _ _ => rfl
  seen := by
    intro id t k
    constructor
    · rintro ⟨⟩
    · exact fun hid => absurd hid List.not_mem_nil

theorem unseen (h : Checked es v) {id : UInt32} :
    v.seenIds id = none ↔ ∀ p, id ∉ newIds (socketOf es p) := by
  constructor
  · intro hnone p hp
    have hsome := (h.seen id p.1 p.2).mpr hp
    rw [hnone] at hsome
    cases hsome
  · intro hnot
    cases hseen : v.seenIds id with
    | none => rfl
    | some firstSeen => exact absurd ((h.seen id _ _).mp hseen) (hnot _)

/-- Only the turn of the thread itself is in question. -/
theorem turns (h : Checked es v) (ht : t < 2 ^ 32) :
    (∀ u, InTurn false (ofThread (es ++ [(t, x)]) u)) ↔ InTurn (v.state t).connected [x] := by
  rw [← ThreadState.client_isSome, ← h.client t ht]
  constructor
  · exact fun hall => (inTurn_snoc_self.mp (hall t)).2
  · intro hx u
    by_cases hu : t = u
    · subst hu
      exact inTurn_snoc_self.mpr ⟨h.inTurn t, hx⟩
    · exact (inTurn_snoc_of_ne hu).mpr (h.inTurn u)

/-- An event that sends nothing. -/
theorem quiet (h : Checked es v) (ht : t < 2 ^ 32) (hx : ∀ client : Client, client.writes x = [])
    {v' : Validation} (hok : v'.failed = false) (hturn : InTurn (v.state t).connected [x])
    (hclient : (v.state t).client.after x = (v'.state t).client)
    (hother : ∀ u < 2 ^ 32, t ≠ u → v'.state u = v.state u) (hseen : v'.seenIds = v.seenIds) :
    Checked (es ++ [(t, x)]) v' where
  ok := hok
  inTurn := (h.turns ht).mpr hturn
  proper := by
    rw [socketOf_snoc_quiet hx]
    exact h.proper
  client := by
    intro u hu
    by_cases htu : t = u
    · subst htu
      rw [clientOf_snoc_self, h.client t ht, hclient]
    · rw [clientOf_snoc_of_ne htu, h.client u hu, hother u hu htu]
  seen := by
    rw [socketOf_snoc_quiet hx, hseen]
    exact h.seen

theorem socketOf_send (h : Checked es v) (ht : t < 2 ^ 32) (hconn : (v.state t).connected = true) :
    socketOf (es ++ [(t, .sendCommand command)]) =
      Function.update (socketOf es) (t, (v.state t).connectionId)
        (socketOf es (t, (v.state t).connectionId) ++ [command]) := by
  apply socketOf_snoc_send
  rw [h.client t ht]
  unfold ThreadState.client
  rw [if_pos hconn]

theorem proper_send (h : Checked es v) (ht : t < 2 ^ 32) (hconn : (v.state t).connected = true) :
    Proper (socketOf (es ++ [(t, .sendCommand command)])) ↔
      (command.type ≠ .cancel → v.seenIds command.orderId = none) ∧
      (command.type = .cancel → v.seenIds command.orderId =
        some { thread := t, connection := (v.state t).connectionId }) := by
  rw [h.socketOf_send ht hconn]
  by_cases hc : command.type = .cancel
  · rw [h.proper.snoc_cancel hc, h.seen]
    simp [hc]
  · rw [h.proper.snoc_order hc, h.unseen]
    simp [hc]

theorem sendCommand (h : Checked es v) (ht : t < 2 ^ 32)
    (hok : (v.sendCommand t command).failed = false) :
    Checked (es ++ [(t, .sendCommand command)]) (v.sendCommand t command) := by
  rcases Validation.sendCommand_ok.mp hok with ⟨-, hconn, hnew, hold⟩
  have hstate : ∀ u, (v.sendCommand t command).state u = v.state u := by
    intro u
    unfold Validation.state
    rw [Validation.sendCommand_threads]
  constructor
  · exact hok
  · exact (h.turns ht).mpr ⟨hconn, trivial⟩
  · exact (h.proper_send ht hconn).mpr ⟨hnew, hold⟩
  · intro u hu
    rw [hstate]
    by_cases htu : t = u
    · subst htu
      rw [clientOf_snoc_self, h.client t ht]
      rfl
    · rw [clientOf_snoc_of_ne htu, h.client u hu]
  · intro id u k
    rw [Validation.sendCommand_seenIds hok, h.socketOf_send ht hconn]
    by_cases hc : command.type = .cancel
    · -- a cancel makes no order
      rw [if_pos hc, h.seen]
      by_cases hp : (u, k) = (t, (v.state t).connectionId)
      · rw [hp, Function.update_self, newIds_append, newIds_cancel hc, List.append_nil]
      · rw [Function.update_of_ne hp]
    · rw [if_neg hc]
      by_cases hid : id = command.orderId
      · subst hid
        rw [Function.update_self]
        have hnot := h.unseen.mp (hnew hc)
        by_cases hp : (u, k) = (t, (v.state t).connectionId)
        · rw [hp, Function.update_self, newIds_append, newIds_order hc]
          cases hp
          exact ⟨fun _ => List.mem_append_right _ List.mem_cons_self, fun _ => rfl⟩
        · rw [Function.update_of_ne hp]
          constructor
          · rintro ⟨⟩
            exact absurd rfl hp
          · exact fun hmem => absurd hmem (hnot _)
      · rw [Function.update_of_ne hid, h.seen]
        by_cases hp : (u, k) = (t, (v.state t).connectionId)
        · rw [hp, Function.update_self, newIds_append, newIds_order hc, List.mem_append,
            List.mem_singleton, or_iff_left hid]
        · rw [Function.update_of_ne hp]

/-- The next event passes exactly if the condition still holds after it. -/
theorem event_ok (h : Checked es v) (ht : t < 2 ^ 32) (x : GraderInput) :
    ((v.event (t, x)).failed = false ↔ (∀ u, InTurn false (ofThread (es ++ [(t, x)]) u)) ∧
      Proper (socketOf (es ++ [(t, x)]))) ∧
    ((v.event (t, x)).failed = false → Checked (es ++ [(t, x)]) (v.event (t, x))) := by
  have hpass : ∀ x : GraderInput, (∀ client : Client, client.writes x = []) →
      (∀ client : Client, client.after x = client) → (∀ b, InTurn b [x]) →
      ((v.failed = false ↔ (∀ u, InTurn false (ofThread (es ++ [(t, x)]) u)) ∧
        Proper (socketOf (es ++ [(t, x)]))) ∧ (v.failed = false → Checked (es ++ [(t, x)]) v)) := by
    intro x hwrites hafter hturn
    have hchk : Checked (es ++ [(t, x)]) v :=
      h.quiet ht hwrites h.ok (hturn _) (hafter _) (fun _ _ _ => rfl) rfl
    exact ⟨⟨fun _ => ⟨hchk.inTurn, hchk.proper⟩, fun _ => h.ok⟩, fun _ => hchk⟩
  cases x with
  | sendCommand command =>
    refine ⟨?_, h.sendCommand ht⟩
    show (v.sendCommand t command).failed = false ↔ _
    rw [Validation.sendCommand_ok, h.turns ht]
    constructor
    · rintro ⟨-, hconn, hids⟩
      exact ⟨⟨hconn, trivial⟩, (h.proper_send ht hconn).mpr hids⟩
    · rintro ⟨⟨hconn, -⟩, hproper⟩
      exact ⟨h.ok, hconn, (h.proper_send ht hconn).mp hproper⟩
  | connect =>
    have hchk : (v.connect t).failed = false → Checked (es ++ [(t, .connect)]) (v.connect t) := by
      intro hok
      rcases Validation.connect_ok.mp hok with ⟨-, hconn⟩
      refine h.quiet ht (fun _ => rfl) hok ⟨hconn, trivial⟩ ?_
        (fun u hu hne => Validation.connect_state_of_ne ht hu hne) Validation.connect_seenIds
      rw [Validation.connect_state_self]
      unfold ThreadState.client
      rw [hconn]
      rfl
    refine ⟨⟨fun hok => ⟨(hchk hok).inTurn, (hchk hok).proper⟩, ?_⟩, hchk⟩
    rintro ⟨hturn, -⟩
    exact Validation.connect_ok.mpr ⟨h.ok, ((h.turns ht).mp hturn).1⟩
  | disconnect =>
    have hchk : (v.disconnect t).failed = false →
        Checked (es ++ [(t, .disconnect)]) (v.disconnect t) := by
      intro hok
      rcases Validation.disconnect_ok.mp hok with ⟨-, hconn⟩
      refine h.quiet ht (fun _ => rfl) hok ⟨hconn, trivial⟩ ?_
        (fun u hu hne => Validation.disconnect_state_of_ne ht hu hne) Validation.disconnect_seenIds
      rw [Validation.disconnect_state_self]
      unfold ThreadState.client
      rw [hconn]
      rfl
    refine ⟨⟨fun hok => ⟨(hchk hok).inTurn, (hchk hok).proper⟩, ?_⟩, hchk⟩
    rintro ⟨hturn, -⟩
    exact Validation.disconnect_ok.mpr ⟨h.ok, ((h.turns ht).mp hturn).1⟩
  | sync => exact hpass _ (fun _ => rfl) (fun _ => rfl) fun _ => trivial
  | sleep durationMs => exact hpass _ (fun _ => rfl) (fun _ => rfl) fun _ => trivial
  | wait orderId => exact hpass _ (fun _ => rfl) (fun _ => rfl) fun _ => trivial
  | invalid => exact hpass _ (fun _ => rfl) (fun _ => rfl) fun _ => trivial

end Checked

/-! ## All events -/

theorem Proper.of_socketOf_snoc {es : List (ℕ × GraderInput)} {e : ℕ × GraderInput}
    (h : Proper (socketOf (es ++ [e]))) : Proper (socketOf es) := by
  rcases e with ⟨t, x⟩
  have hquiet : ∀ x, (∀ client : Client, client.writes x = []) →
      Proper (socketOf (es ++ [(t, x)])) → Proper (socketOf es) := by
    intro x hx h
    rwa [socketOf_snoc_quiet hx] at h
  cases x with
  | sendCommand command =>
    cases hfd : (clientOf es t).fd with
    | some k =>
      rw [socketOf_snoc_send hfd] at h
      exact h.of_snoc
    | none =>
      -- what is written to no socket reaches nobody
      have hsame : socketOf (es ++ [(t, .sendCommand command)]) = socketOf es := by
        funext p
        unfold socketOf
        rw [ofThread_snoc]
        split
        next htp =>
          have hfd' : ((ofThread es p.1).foldl Client.after Client.init).fd = none := by
            rw [← htp]
            exact hfd
          rw [clientThread_append, clientThread, Client.writes, clientThread, hfd']
          simp
        next => rw [List.append_nil]
      rwa [hsame] at h
  | _ => exact hquiet _ (fun _ => rfl) h

theorem events_ok {es : List (ℕ × GraderInput)} (hlt : ∀ e ∈ es, e.1 < 2 ^ 32) :
    ((es.foldl Validation.event .init).failed = false ↔
      (∀ t, InTurn false (ofThread es t)) ∧ Proper (socketOf es)) ∧
    ((es.foldl Validation.event .init).failed = false →
      Checked es (es.foldl Validation.event .init)) := by
  induction es using List.reverseRecOn with
  | nil => exact ⟨⟨fun _ => ⟨Checked.init.inTurn, Checked.init.proper⟩, fun _ => rfl⟩,
      fun _ => Checked.init⟩
  | append_singleton es e ih =>
    rcases ih fun e' he' => hlt e' (List.mem_append_left _ he') with ⟨hiff, hchk⟩
    have ht : e.1 < 2 ^ 32 := hlt e (List.mem_append_right _ List.mem_cons_self)
    rw [List.foldl_append, List.foldl_cons, List.foldl_nil]
    by_cases hok : (es.foldl Validation.event .init).failed = false
    · exact (hchk hok).event_ok ht e.2
    · have hfailed := Validation.event_failed (Bool.eq_true_of_not_eq_false hok) e
      refine ⟨⟨fun hok' => ?_, ?_⟩, fun hok' => ?_⟩
      · rw [hfailed] at hok'
        cases hok'
      · rintro ⟨hturn, hproper⟩
        refine absurd (hiff.mpr ⟨?_, hproper.of_socketOf_snoc⟩) hok
        intro u
        by_cases hu : e.1 = u
        · subst hu
          exact (inTurn_snoc_self.mp (hturn e.1)).1
        · exact (inTurn_snoc_of_ne hu).mp (hturn u)
      · rw [hfailed] at hok'
        cases hok'

/-! ## The whole file -/

/-- Two threads, of which the first sends an order and cancels it. -/
def twoClients : List ParsedGraderInput :=
  [(none, .connect),
    (some [0], .sendCommand
      { type := .buy, orderId := 1, price := 2705, count := 10, instrument := ascii "GOOG" }),
    (some [1], .sendCommand
      { type := .sell, orderId := 2, price := 2710, count := 10, instrument := ascii "GOOG" }),
    (none, .sync),
    (some [0], .sendCommand
      { type := .cancel, orderId := 1, price := 0, count := 0, instrument := [] }),
    (none, .disconnect)]

theorem twoClients_lt : ∀ p ∈ twoClients, ∀ thread ∈ commandThreads 2 p, thread < 2 ^ 32 := by
  decide

theorem received_eq : (fun p : ℕ × ℕ => received numThreads commands p.1 p.2) =
    socketOf (events numThreads commands) := by
  funext p
  unfold received socketOf
  rw [threadCommands_eq]

theorem events_lt (hlt : ∀ p ∈ commands, ∀ thread ∈ commandThreads numThreads p, thread < 2 ^ 32) :
    ∀ e ∈ events numThreads commands, e.1 < 2 ^ 32 := by
  intro e he
  rcases List.mem_flatMap.mp he with ⟨p, hp, he⟩
  rcases List.mem_map.mp he with ⟨thread, hthread, rfl⟩
  exact hlt p hp thread hthread

/-- `validate_commands` passes a file exactly if every thread connects, sends and disconnects in turn,
    no id is used twice, and each cancel follows its order on the same socket. -/
theorem validateCommands_iff
    (hlt : ∀ p ∈ commands, ∀ thread ∈ commandThreads numThreads p, thread < 2 ^ 32) :
    (validateCommands numThreads commands).failed = false ↔ ValidScript numThreads commands := by
  unfold validateCommands
  rw [validate_events, (events_ok (events_lt hlt)).1]
  constructor
  · rintro ⟨hlines, hturn, hproper⟩
    refine ⟨fun p hp => (hlines p hp).1, fun p hp => (hlines p hp).2, ?_, ?_⟩
    · intro thread
      rw [threadCommands_eq]
      exact hturn thread
    · rw [received_eq]
      exact hproper
  · intro h
    refine ⟨fun p hp => ⟨h.valid p hp, h.single p hp⟩, ?_, ?_⟩
    · intro thread
      rw [← threadCommands_eq]
      exact h.inTurn thread
    · rw [← received_eq]
      exact h.proper

theorem validateCommands_iff_twoClients :
    (validateCommands 2 twoClients).failed = false ↔ ValidScript 2 twoClients :=
  validateCommands_iff twoClients_lt

/-- The engine reads these commands, each at some time. -/
def ReadAs (sent : List EngineCommand) (cmds : List (Command UInt32 Bytes)) : Prop :=
  List.Forall₂ (fun i c => ∃ inputTime, c = i.at inputTime) sent cmds

theorem newId_at (i : EngineCommand) (inputTime : ℤ) :
    MatchingEngine.Cpp.newId (Command.toNat (i.at inputTime)) = i.newId := by
  unfold EngineCommand.at EngineCommand.newId
  cases i.type <;> rfl

theorem ReadAs.newIds {sent : List EngineCommand} {cmds : List (Command UInt32 Bytes)}
    (h : ReadAs sent cmds) :
    (cmds.map Command.toNat).filterMap MatchingEngine.Cpp.newId = Grader.newIds sent := by
  induction h with
  | nil => rfl
  | @cons i c sent cmds hc _ ih =>
    rcases hc with ⟨inputTime, rfl⟩
    unfold Grader.newIds at ih ⊢
    rw [List.map_cons, List.filterMap_cons, List.filterMap_cons, newId_at, ih]

theorem ReadAs.cancel {sent : List EngineCommand} {cmds : List (Command UInt32 Bytes)}
    (h : ReadAs sent cmds) {id : UInt32} {inputTime : ℤ}
    (hc : .cancel id inputTime ∈ cmds.map Command.toNat) :
    ∃ before i after, sent = before ++ i :: after ∧ i.type = .cancel ∧ i.orderId = id := by
  induction h with
  | nil => cases hc
  | @cons i c sent cmds hread _ ih =>
    rcases hread with ⟨time, rfl⟩
    rcases List.mem_cons.mp hc with heq | hc
    · refine ⟨[], i, sent, rfl, ?_⟩
      unfold EngineCommand.at at heq
      cases htype : i.type with
      | buy =>
        rw [htype] at heq
        cases heq
      | sell =>
        rw [htype] at heq
        cases heq
      | cancel =>
        rw [htype] at heq
        cases heq
        exact ⟨rfl, rfl⟩
    · rcases ih hc with ⟨before, i', after, rfl, hi'⟩
      exact ⟨i :: before, i', after, rfl, hi'⟩

/-- What the engine relies on: whatever it reads from the sockets of a file that has passed, the ids of
    its orders are different and no cancel comes from another connection. -/
theorem validated_relies {cmds : ℕ × ℕ → List (Command UInt32 Bytes)}
    (hlt : ∀ p ∈ commands, ∀ thread ∈ commandThreads numThreads p, thread < 2 ^ 32)
    (hok : (validateCommands numThreads commands).failed = false)
    (hread : ∀ p, ReadAs (received numThreads commands p.1 p.2) (cmds p)) :
    UniqueIds (commandsToNat cmds) ∧ OwnCancels (commandsToNat cmds) := by
  have hproper := ((events_ok (events_lt hlt)).1.mp (validate_events.mp hok).2).2
  rw [← received_eq] at hproper
  have hids : ∀ p, (commandsToNat cmds p).filterMap MatchingEngine.Cpp.newId =
      newIds (received numThreads commands p.1 p.2) := fun p => (hread p).newIds
  refine ⟨⟨?_, ?_⟩, ?_⟩
  · intro p
    rw [hids]
    exact hproper.nodup p
  · intro p q hne
    rw [hids, hids]
    exact hproper.apart p q hne
  · intro p q hne id inputTime hc
    rcases (hread p).cancel hc with ⟨before, i, after, hsplit, htype, rfl⟩
    have hsent := hproper.cancels p before i after hsplit htype
    rw [hids]
    apply hproper.apart p q hne
    rw [hsplit, newIds_append]
    exact List.mem_append_left _ hsent

theorem validated_relies_twoClients :
    UniqueIds (commandsToNat fun p : ℕ × ℕ => (received 2 twoClients p.1 p.2).map (·.at 0)) ∧
      OwnCancels (commandsToNat fun p : ℕ × ℕ => (received 2 twoClients p.1 p.2).map (·.at 0)) :=
  validated_relies twoClients_lt (by decide) fun _ =>
    List.forall₂_map_right_iff.mpr (List.forall₂_same.mpr fun _ _ => ⟨0, rfl⟩)

end MatchingEngine.Cpp.Grader
