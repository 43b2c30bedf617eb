import MatchingEngine.Rust.Task

/-!
# The workers (`main.rs`)

A step of the machine is one access to something the workers share: a queue, a counter, the list of
stealers.  Each access takes effect at one instant; a batch that is stolen from the injector is on
its way for a while.  `executed` is no variable of the program: it lists the tasks in the order in
which they were executed.
-/

namespace MatchingEngine.Rust

/-- Where a worker stands in its loop. -/
inductive Pc (n : ℕ)
  /-- spawned; about to register its stealer -/
  | start
  /-- `local_queue.pop()` -/
  | pop
  /-- `injector.steal_batch_and_pop(local_queue)` -/
  | stealInjector
  /-- a stolen batch on its way: the task to return and those for the local queue -/
  | batch (task : Task) (rest : List Task)
  /-- `steal()` from the workers still to try; whether a steal so far said `Retry` -/
  | stealFrom (victims : List (Fin n)) (retry : Bool)
  /-- `next.is_some()` -/
  | took (task : Task)
  /-- `queued_count.fetch_sub(1)` -/
  | dequeued (task : Task)
  /-- count and `execute()` -/
  | execute (task : Task)
  /-- `queued_count.fetch_add(result.1.len())` -/
  | announce (children : List Task)
  | push (children : List Task)
  /-- `next` is `None` -/
  | noTask
  | checkCount
  | checkIdle
  /-- the additions to the global counters -/
  | addHash
  | addDerive
  | addRand
  | addOutput
  | exited
  deriving DecidableEq, Repr

/-- The worker holds the read lock on the list of stealers. -/
def Pc.reads {n : ℕ} : Pc n → Bool
  | .stealFrom _ _ => true
  | _ => false

/-- A worker: its queue and the variables of its closure. -/
structure Worker (n : ℕ) where
  pc : Pc n
  localQueue : List Task
  isIdle : Bool
  /-- `local_output`, `local_num_hash`, `local_num_derive`, `local_num_rand` -/
  locals : Counters
  deriving DecidableEq, Repr

structure Runner (n : ℕ) where
  injector : List Task
  queuedCount : UInt64
  numIdle : UInt64
  counters : Counters
  stealers : List (Fin n)
  worker : Fin n → Worker n
  executed : List Task

namespace Runner

variable {n : ℕ} (cr : Crates)

/-- `main` up to the first spawn, for `n` workers. -/
def init (initialQueue : List Task) : Runner n where
  injector := initialQueue
  queuedCount := UInt64.ofNat initialQueue.length
  numIdle := UInt64.ofNat n
  counters := 0
  stealers := []
  worker := fun _ => { pc := .start, localQueue := [], isIdle := true, locals := 0 }
  executed := []

def set (s : Runner n) (i : Fin n) (w : Worker n) : Runner n :=
  { s with worker := Function.update s.worker i w }

@[simp] theorem set_worker_self (s : Runner n) (i : Fin n) (w : Worker n) :
    (s.set i w).worker i = w := Function.update_self ..

theorem set_worker_of_ne (s : Runner n) {i j : Fin n} (h : i ≠ j) (w : Worker n) :
    (s.set j w).worker i = s.worker i := Function.update_of_ne h ..

/-- Some worker holds the read lock on the stealers; a worker that starts waits for it. -/
def Reading (s : Runner n) : Prop := ∃ i, (s.worker i).pc.reads = true

instance (s : Runner n) : Decidable s.Reading := inferInstanceAs (Decidable (∃ _, _))

/-- What a queue leaves open: an operation takes effect, or says `Retry`, or (on the injector) takes
    a batch of `k` tasks besides the one it returns. -/
inductive Choice
  | go
  | retry
  | take (k : ℕ)
  deriving DecidableEq, Repr

/-- The next access of worker `i`. -/
def step (s : Runner n) (i : Fin n) (c : Choice) : Option (Runner n) :=
  let w := s.worker i
  match w.pc, c with
  | .start, .go =>
    if s.Reading then none
    else some ({ s with stealers := s.stealers ++ [i] }.set i { w with pc := .pop })
  | .pop, .go =>
    match w.localQueue with
    | [] => some (s.set i { w with pc := .stealInjector })
    | t :: ts => some (s.set i { w with pc := .took t, localQueue := ts })
  | .stealInjector, .go =>
    if s.injector = [] then some (s.set i { w with pc := .stealFrom s.stealers false }) else none
  | .stealInjector, .retry => some (s.set i { w with pc := .stealFrom s.stealers true })
  | .stealInjector, .take k =>
    match s.injector with
    | [] => none
    | t :: ts =>
      some ({ s with injector := ts.drop k }.set i { w with pc := .batch t (ts.take k) })
  | .batch t ts, .go => some (s.set i { w with pc := .took t, localQueue := w.localQueue ++ ts })
  | .stealFrom [] retry, .go =>
    some (s.set i { w with pc := if retry then .stealInjector else .noTask })
  | .stealFrom (j :: victims) retry, .go =>
    match (s.worker j).localQueue with
    | [] => some (s.set i { w with pc := .stealFrom victims retry })
    | t :: ts =>
      let s' := s.set j { s.worker j with localQueue := ts }
      some (s'.set i { s'.worker i with pc := .took t })
  | .stealFrom (_ :: victims) _, .retry => some (s.set i { w with pc := .stealFrom victims true })
  | .took t, .go =>
    if w.isIdle then
      some ({ s with numIdle := s.numIdle - 1 }.set i { w with pc := .dequeued t, isIdle := false })
    else some (s.set i { w with pc := .dequeued t })
  | .dequeued t, .go =>
    some ({ s with queuedCount := s.queuedCount - 1 }.set i { w with pc := .execute t })
  | .execute t, .go =>
    some ({ s with executed := s.executed ++ [t] }.set i
      { w with pc := .announce (t.execute cr).2, locals := w.locals.record cr t })
  | .announce ts, .go =>
    some ({ s with queuedCount := s.queuedCount + UInt64.ofNat ts.length }.set i
      { w with pc := .push ts })
  | .push [], .go => some (s.set i { w with pc := .pop })
  | .push (t :: ts), .go =>
    some (s.set i { w with pc := .push ts, localQueue := w.localQueue ++ [t] })
  | .noTask, .go =>
    if w.isIdle then some (s.set i { w with pc := .checkCount })
    else
      some ({ s with numIdle := s.numIdle + 1 }.set i { w with pc := .checkCount, isIdle := true })
  | .checkCount, .go =>
    some (s.set i { w with pc := if s.queuedCount = 0 then .checkIdle else .pop })
  | .checkIdle, .go =>
    some (s.set i { w with pc := if s.numIdle = UInt64.ofNat n then .addHash else .pop })
  | .addHash, .go =>
    some ({ s with counters.numHash := s.counters.numHash + w.locals.numHash }.set i
      { w with pc := .addDerive })
  | .addDerive, .go =>
    some ({ s with counters.numDerive := s.counters.numDerive + w.locals.numDerive }.set i
      { w with pc := .addRand })
  | .addRand, .go =>
    some ({ s with counters.numRand := s.counters.numRand + w.locals.numRand }.set i
      { w with pc := .addOutput })
  | .addOutput, .go =>
    some ({ s with
      counters.combinedOutput := s.counters.combinedOutput ^^^ w.locals.combinedOutput }.set i
      { w with pc := .exited })
  | _, _ => none

/-- The states that some interleaving of the workers reaches. -/
inductive Reachable (initialQueue : List Task) : Runner n → Prop
  | init : Reachable initialQueue (init initialQueue)
  | step {s s' : Runner n} {i : Fin n} {c : Choice} (h : Reachable initialQueue s)
      (hs : s.step cr i c = some s') : Reachable initialQueue s'

/-- The state after a schedule, if every access of it can be made. -/
def run (s : Runner n) : List (Fin n × Choice) → Option (Runner n)
  | [] => some s
  | (i, c) :: schedule => (s.step cr i c).bind fun s' => s'.run schedule

variable {cr}

theorem Reachable.run {q : List Task} {s s' : Runner n} {schedule : List (Fin n × Choice)}
    (h : Reachable cr q s) (hs : s.run cr schedule = some s') : Reachable cr q s' := by
  induction schedule generalizing s with
  | nil =>
    cases hs
    exact h
  | cons a schedule ih =>
    rcases Option.bind_eq_some_iff.mp hs with ⟨s₁, h₁, hs₁⟩
    exact ih (h.step h₁) hs₁

/-- `worker.join()` has returned for every worker: `main` prints the counters. -/
def Joined (s : Runner n) : Prop := ∀ i, (s.worker i).pc = .exited

instance (s : Runner n) : Decidable s.Joined := inferInstanceAs (Decidable (∀ _, _))

end Runner

end MatchingEngine.Rust
