import MatchingEngine.Reach
import MatchingEngine.Cpp.Received
import MatchingEngine.Go.Received

/-!
# The receive times on the output lines

In both engines the line of a cancel that finds its order shows the time of the order.
-/

namespace MatchingEngine

/-- In a run of either engine in which every cancel that is taken to the book of an order was received
    at the time of that order, each line carries the time of the command it is due to. -/
theorem onTime_of_punctual {N I T : Type} [Quantity N] [DecidableEq I] [DecidableEq T]
    (heap : Cpp.Heap N I) (cmds : T → List (Command N I)) :
    (∀ s, Cpp.Sys.PunctualRun heap cmds s → Cpp.OnTime s) ∧
      ∀ s, Go.Sys.PunctualRun cmds s → Go.OnTime s :=
  ⟨fun _ h => h.timeInv.onTime, fun _ h => h.carries.log⟩

section LateCancel

/-- A sell received at time 0, and its cancel at the given time. -/
def sellThenCancel (inputTime : ℤ) : Unit → List (Command UInt32 Unit) := fun _ =>
  [.order .sell 1 () 2700 10 0, .cancel 1 inputTime]

def cppEnd (inputTime : ℤ) : Cpp.Sys UInt32 Unit Unit :=
  (Cpp.Sys.init blankHeap (sellThenCancel inputTime)).run (List.replicate 30 ())

/-- The connection hands its command over, the book matches and adds, and the printer prints; and so
    again with the cancel. -/
def goRun : List (Go.Actor Unit) :=
  List.flatten
    [List.replicate 6 (.conn ()), [.dispatcher 0], List.replicate 10 (.routine 0),
      List.replicate 8 (.routine 1), List.replicate 3 .printer, List.replicate 6 (.conn ()),
      [.dispatcher 0], List.replicate 9 (.routine 2), List.replicate 3 .printer]

def goEnd (inputTime : ℤ) : Go.Sys UInt32 Unit Unit :=
  (Go.Sys.init (sellThenCancel inputTime)).run goRun

theorem onTime_of_punctual_atOnce :
    (cppEnd 0).log = [.added .sell 1 () 2700 10 0, .deleted 1 true 0] ∧
      Cpp.OnTime (cppEnd 0) ∧
      (goEnd 0).log.map Prod.snd = [.added .sell 1 () 2700 10 0, .deleted 1 true 0] ∧
      Go.OnTime (goEnd 0) := by
  have hcpp : Cpp.Sys.PunctualRun blankHeap (sellThenCancel 0) (cppEnd 0) := by
    apply Cpp.Sys.PunctualRun.init.run
    decide
  have hgo : Go.Sys.PunctualRun (sellThenCancel 0) (goEnd 0) := by
    apply Go.Sys.PunctualRun.init.run
    decide
  have hlog : (cppEnd 0).log = [.added .sell 1 () 2700 10 0, .deleted 1 true 0] := by
    decide
  have hlog' : (goEnd 0).log.map Prod.snd = [.added .sell 1 () 2700 10 0, .deleted 1 true 0] := by
    decide
  have hboth := onTime_of_punctual blankHeap (sellThenCancel 0)
  exact ⟨hlog, hboth.1 _ hcpp, hlog', hboth.2 _ hgo⟩

/-- The line of a cancel received at time 5 shows 0, the time of the order. -/
theorem not_onTime_later :
    (¬ ∀ s, Cpp.Sys.Reachable blankHeap (sellThenCancel 5) s → Cpp.OnTime s) ∧
      ¬ ∀ s, Go.Sys.Reachable (sellThenCancel 5) s → Go.OnTime s := by
  constructor
  · intro h
    have hend := h (cppEnd 5) (Cpp.Sys.Reachable.init.run (List.replicate 30 ()))
    have hlate : ∃ x ∈ ((cppEnd 5).thread ()).history, ∃ l ∈ x.2, l.inputTime ≠ x.1.inputTime := by
      decide
    rcases hlate with ⟨x, hx, l, hl, hne⟩
    exact hne (hend.history () x hx l hl)
  · intro h
    have hend := h (goEnd 5) (Go.Sys.Reachable.init.run goRun)
    have hlate : ∃ x ∈ (goEnd 5).log, x.2.inputTime ≠ x.1.command.inputTime := by decide
    rcases hlate with ⟨x, hx, hne⟩
    exact hne (hend x hx)

end LateCancel

end MatchingEngine
