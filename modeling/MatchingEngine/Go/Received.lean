import MatchingEngine.Go.Carried

/-!
# The timestamps on the lines of the Go engine

A line carries the `inputTime` of the order that its goroutine works for, or the time of the command
when `handleConn` rejects a cancel.  For a cancel that goes to the book the order is the one that is
cancelled.
-/

set_option linter.unusedSectionVars false

namespace MatchingEngine.Go

variable {N I T : Type} [Quantity N] [DecidableEq I] [DecidableEq T] {s s' : Sys N I T} {t : T}

/-- Every printed line carries the time of the command that caused it. -/
def OnTime (s : Sys N I T) : Prop := ∀ x ∈ s.log, x.2.inputTime = x.1.command.inputTime

/-- If the connection has found an order of its own for a cancel, both were received at one time. -/
def Punctual (s : Sys N I T) (t : T) : Prop :=
  ∀ c orderId o, (s.conn t).pc = .foundUnlock c orderId o → o.rId.value = (s.conn t).rId →
    o.inputTime = c.command.inputTime

/-- The test of it. -/
def punctual (s : Sys N I T) (t : T) : Bool :=
  match (s.conn t).pc with
  | .foundUnlock c _ o => decide (o.rId.value = (s.conn t).rId → o.inputTime = c.command.inputTime)
  | _ => true

theorem punctual_iff (s : Sys N I T) (t : T) : punctual s t = true ↔ Punctual s t := by
  unfold punctual Punctual
  split
  next c orderId o hpc =>
    rw [hpc, decide_eq_true_iff]
    constructor
    · rintro h _ _ _ ⟨⟩
      exact h
    · exact fun h => h c orderId o rfl
  next hpc => exact ⟨fun _ c orderId o h => absurd h (hpc c orderId o), fun _ => rfl⟩

instance decidablePunctual (s : Sys N I T) (t : T) : Decidable (Punctual s t) :=
  decidable_of_iff _ (punctual_iff s t)

/-- Orders and lines with the time of their command. -/
def timed : Facts N I T where
  held := fun _ _ => True
  job := fun cause o => o.inputTime = cause.command.inputTime
  line := fun cause line => line.inputTime = cause.command.inputTime
  rest := fun _ => True
  taken := fun _ _ => True
  conn := fun _ _ _ _ => True

theorem timed_lawful : (timed : Facts N I T).Lawful where
  read := fun _ _ _ => trivial
  setCount := fun _ _ _ h => h
  executed := fun _ _ _ _ h => h
  added := fun _ _ _ h => h
  deleted := fun _ _ _ h => h
  missed := fun _ _ => rfl
  resting := fun _ _ _ => trivial
  updated := fun _ _ _ _ => trivial
  next := fun _ _ _ _ _ => trivial

theorem timed_admits {a : Actor T} (h : ∀ t, a = .conn t → Punctual s t) : timed.Admits s a where
  draw := fun _ _ _ => trivial
  read := fun _ _ _ _ _ _ _ _ _ _ _ _ => rfl
  found := fun t c orderId o ha hpc _ hown _ _ => h t ha c orderId o hpc hown
  removed := fun _ _ _ _ _ _ _ _ _ _ _ _ _ => trivial

namespace Sys

/-- The states that an interleaving reaches in which every cancel that is let through to a book was
    received at the time of its order. -/
inductive PunctualRun (cmds : T → List (Command N I)) : Sys N I T → Prop
  | init : PunctualRun cmds (init cmds)
  | step {s s' : Sys N I T} {a : Actor T} (h : PunctualRun cmds s)
      (hp : ∀ t, a = .conn t → Punctual s t) (hs : s.step a = some s') : PunctualRun cmds s'

theorem PunctualRun.carries {cmds : T → List (Command N I)} (h : PunctualRun cmds s) :
    Carries timed s := by
  induction h with
  | init => exact init_carries fun _ => trivial
  | step h hp hs ih => exact ih.step timed_lawful (timed_admits hp) hs

/-- The condition at each of these steps. -/
def PunctualSteps (s : Sys N I T) : List (Actor T) → Prop
  | [] => True
  | a :: as =>
    (match a with
      | .conn t => Punctual s t
      | _ => True) ∧ PunctualSteps ((s.step a).getD s) as

instance decidablePunctualSteps (s : Sys N I T) :
    (as : List (Actor T)) → Decidable (s.PunctualSteps as)
  | [] => isTrue trivial
  | a :: as =>
    have := decidablePunctualSteps ((s.step a).getD s) as
    match a with
    | .conn _ | .dispatcher _ | .routine _ | .printer => inferInstanceAs (Decidable (_ ∧ _))

theorem PunctualRun.run {cmds : T → List (Command N I)} (h : PunctualRun cmds s)
    {as : List (Actor T)} (has : s.PunctualSteps as) : PunctualRun cmds (s.run as) := by
  induction as generalizing s with
  | nil => exact h
  | cons a as ih =>
    rcases has with ⟨hp, has⟩
    have hpunctual : ∀ t, a = .conn t → Punctual s t := by
      rintro t rfl
      exact hp
    cases hs : s.step a with
    | none =>
      rw [hs] at has
      have hrun := ih h has
      unfold Sys.run
      rw [hs]
      exact hrun
    | some s' =>
      rw [hs] at has
      have hrun := ih (h.step hpunctual hs) has
      unfold Sys.run
      rw [hs]
      exact hrun

end Sys

end MatchingEngine.Go
