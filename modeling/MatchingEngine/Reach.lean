import MatchingEngine.Cpp.Service
import MatchingEngine.Go.Served

/-!
# Booked orders that can be reached

In both engines the head sentinel of a chain has price 0 and the walk of an insertion starts at it,
while matching and cancelling start after it.  A sell at price 0, and a buy at price 0 on an empty
chain, are put into the sentinel, where nothing finds them.
-/

namespace MatchingEngine

variable {I T : Type} [DecidableEq I] [DecidableEq T]

section ZeroSell

/-- The heap of an engine that has received nothing. -/
def blankHeap : Cpp.Heap UInt32 Unit := fun _ =>
  { type := .buy, orderId := 0, price := 0, count := 0, instrument := (), inputTime := 0,
    executionId := 0 }

/-- A sell of 10 units at this price. -/
abbrev sellAt (price : UInt32) : Command UInt32 Unit := .order .sell 1 () price 10 0

end ZeroSell

end MatchingEngine
