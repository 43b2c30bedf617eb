import MatchingEngine.Cpp.Grader

/-!
# The script of a grading session

`validate_commands` goes through the commands of all threads in the order of the file; each client
thread then runs its own ones, with a socket of its own for every connection.
-/

namespace MatchingEngine.Cpp.Grader

open Text

structure EngineCommand where
  type : InputType
  orderId : UInt32
  price : UInt32
  count : UInt32
  instrument : Bytes
  deriving DecidableEq

/-- `<<` -/
def EngineCommand.text (i : EngineCommand) : Bytes :=
  match i.type with
  | .sell | .buy =>
    (if i.type = .sell then ascii "Sell " else ascii "Buy ") ++ i.instrument ++ ascii " @ " ++
      decimal i.price.toNat ++ ascii " x " ++ decimal i.count.toNat ++ ascii " ID " ++
      decimal i.orderId.toNat
  | .cancel => ascii "Cancel " ++ decimal i.orderId.toNat

/-- The id of a new order. -/
def EngineCommand.newId (i : EngineCommand) : Option UInt32 :=
  if i.type = .cancel then none else some i.orderId

inductive GraderInput
  | sync
  | connect
  | disconnect
  | sleep (durationMs : UInt32)
  | sendCommand (command : EngineCommand)
  | wait (orderId : UInt32)
  | invalid
  deriving DecidableEq

/-- `<<` -/
def GraderInput.text : GraderInput → Bytes
  | .invalid => ascii "Invalid"
  | .connect => ascii "Connect"
  | .disconnect => ascii "Disconnect"
  | .sleep durationMs => ascii "Sleep for " ++ decimal durationMs.toNat ++ ascii " ms"
  | .wait orderId => ascii "Wait for order " ++ decimal orderId.toNat
  | .sendCommand command => ascii "Send command: " ++ command.text
  | .sync => ascii "Sync"

/-- A command with the threads that it names, if it names any. -/
abbrev ParsedGraderInput := Option (List ℕ) × GraderInput

def commandThreads (numThreads : ℕ) (commandPair : ParsedGraderInput) : List ℕ :=
  commandPair.1.getD (List.range numThreads)

/-! ## `validate_commands` -/

structure ThreadConnection where
  thread : ℕ
  connection : ℕ
  deriving DecidableEq

structure ThreadState where
  connected : Bool
  connectionId : ℕ
  deriving DecidableEq

/-- The variables of `validate_commands` and what it has written to `SyncCerr`.  `threads` has
    `uint32_t` keys, and `[]` makes a state where there is none. -/
structure Validation where
  failed : Bool
  seenIds : UInt32 → Option ThreadConnection
  threads : UInt32 → ThreadState
  messages : List Bytes

namespace Validation

def init : Validation where
  failed := false
  seenIds := fun _ => none
  threads := fun _ => { connected := false, connectionId := 0 }
  messages := []

def fail (message : Bytes) (v : Validation) : Validation :=
  { v with failed := true, messages := v.messages ++ [message] }

/-- `threads[thread]` -/
def state (v : Validation) (thread : ℕ) : ThreadState := v.threads (UInt32.ofNat thread)

def setState (v : Validation) (thread : ℕ) (state : ThreadState) : Validation :=
  { v with threads := Function.update v.threads (UInt32.ofNat thread) state }

def repeatedId (orderId : UInt32) (threadId : ℕ) (firstSeen : ThreadConnection) : Bytes :=
  ascii "Invalid input: repeated order ID " ++ decimal orderId.toNat ++ ascii " on thread " ++
    decimal threadId ++ ascii ", first seen on thread " ++ decimal firstSeen.thread ++
    ascii " connection " ++ decimal firstSeen.connection

def foreignCancel (orderId : UInt32) (threadId connectionId : ℕ) (firstSeen : ThreadConnection) :
    Bytes :=
  ascii "Invalid input: cancel for order ID " ++ decimal orderId.toNat ++ ascii " on thread " ++
    decimal threadId ++ ascii " connection " ++ decimal connectionId ++
    ascii ", but order was created on thread " ++ decimal firstSeen.thread ++ ascii " connection " ++
    decimal firstSeen.connection

/-- A command that one thread sends. -/
def sendCommand (threadId : ℕ) (command : EngineCommand) (v : Validation) : Validation :=
  let connectionId := (v.state threadId).connectionId
  let v := if (v.state threadId).connected then v
    else v.fail (ascii "Invalid input: thread " ++ decimal threadId ++ ascii " '" ++
      (GraderInput.sendCommand command).text ++ ascii "' while not connected")
  match command.type with
  | .buy | .sell =>
    match v.seenIds command.orderId with
    | some firstSeen => v.fail (repeatedId command.orderId threadId firstSeen)
    | none =>
      let seen : ThreadConnection := { thread := threadId, connection := connectionId }
      { v with seenIds := Function.update v.seenIds command.orderId (some seen) }
  | .cancel =>
    match v.seenIds command.orderId with
    | some firstSeen =>
      if firstSeen.thread ≠ threadId ∨ firstSeen.connection ≠ connectionId then
        v.fail (foreignCancel command.orderId threadId connectionId firstSeen)
      else v
    | none =>
      v.fail (ascii "Invalid input: cancel for yet-unknown order ID " ++
        decimal command.orderId.toNat ++ ascii " on thread " ++ decimal threadId)

def connect (v : Validation) (thread : ℕ) : Validation :=
  let state := v.state thread
  let v := if state.connected then
      v.fail (ascii "Invalid input: thread " ++ decimal thread ++ ascii " connecting while connected")
    else v
  v.setState thread { state with connected := true }

def disconnect (v : Validation) (thread : ℕ) : Validation :=
  let state := v.state thread
  let v := if state.connected then v
    else v.fail (ascii "Invalid input: thread " ++ decimal thread ++
      ascii " disconnecting while not connected")
  v.setState thread { connected := false, connectionId := state.connectionId + 1 }

/-- One round of the loop. -/
def step (numThreads : ℕ) (v : Validation) (commandPair : ParsedGraderInput) : Validation :=
  let command := commandPair.2
  let commandThreads := commandThreads numThreads commandPair
  match command with
  | .sendCommand engineCommand =>
    match commandThreads with
    | [threadId] => v.sendCommand threadId engineCommand
    | _ => v.fail (ascii "Invalid input: '" ++ command.text ++ ascii "' from " ++
        decimal commandThreads.length ++ ascii " threads.")
  | .connect => commandThreads.foldl connect v
  | .disconnect => commandThreads.foldl disconnect v
  | .invalid => v.fail (ascii "Invalid input: invalid command seen")
  | .sync | .wait _ | .sleep _ => v

end Validation

/-- Up to the `assert(!failed)`. -/
def validateCommands (numThreads : ℕ) (commands : List ParsedGraderInput) : Validation :=
  commands.foldl (Validation.step numThreads) Validation.init

/-! ## The client threads -/

/-- `thread_commands[thread]` -/
def threadCommands (numThreads : ℕ) (commands : List ParsedGraderInput) (thread : ℕ) :
    List GraderInput :=
  commands.flatMap fun commandPair =>
    ((commandThreads numThreads commandPair).filter (· = thread)).map fun _ => commandPair.2

/-- The local `fd`, which is -1 when there is no connection, and the sockets made so far. -/
structure Client where
  fd : Option ℕ
  sockets : ℕ
  deriving DecidableEq

namespace Client

def init : Client := { fd := none, sockets := 0 }

/-- Waits and barriers only take time. -/
def after (client : Client) : GraderInput → Client
  | .connect => { fd := some client.sockets, sockets := client.sockets + 1 }
  | .disconnect => { client with fd := none }
  | _ => client

/-- `write(fd, &command.command, sizeof(command.command))` -/
def writes (client : Client) : GraderInput → List (Option ℕ × EngineCommand)
  | .sendCommand command => [(client.fd, command)]
  | _ => []

end Client

/-- `client_thread`: what it writes and to which socket. -/
def clientThread : Client → List GraderInput → List (Option ℕ × EngineCommand)
  | _, [] => []
  | client, command :: commands => client.writes command ++ clientThread (client.after command) commands

/-- What the engine reads from the socket of the thread. -/
def received (numThreads : ℕ) (commands : List ParsedGraderInput) (thread socket : ℕ) :
    List EngineCommand :=
  ((clientThread .init (threadCommands numThreads commands thread)).filter
    (·.1 = some socket)).map Prod.snd

/-- The command of the engine, with the time at which it is read. -/
def EngineCommand.at (i : EngineCommand) (inputTime : ℤ) : Command UInt32 Bytes :=
  match i.type with
  | .buy => .order .buy i.orderId i.instrument i.price i.count inputTime
  | .sell => .order .sell i.orderId i.instrument i.price i.count inputTime
  | .cancel => .cancel i.orderId inputTime

end MatchingEngine.Cpp.Grader
