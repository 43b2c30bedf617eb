import MatchingEngine.Basic
import MatchingEngine.Lib.Text

/-!
# The output lines of the C++ engine

The functions of `class Output`: what each streams into its `msg`, byte by byte.
-/

namespace MatchingEngine.Cpp.Output

open Text

/-- `<<` of a `const char*`, up to the NUL. -/
def cString (symbol : Bytes) : Bytes := symbol.takeWhile (· ≠ 0)

def orderAdded (id : UInt32) (symbol : Bytes) (price count : UInt32) (isSellSide : Bool)
    (inputTimestamp outputTimestamp : ℤ) : Bytes :=
  (if isSellSide then ascii "S" else ascii "B") ++ ascii " " ++ decimal id.toNat ++ ascii " " ++
    cString symbol ++ ascii " " ++ decimal price.toNat ++ ascii " " ++ decimal count.toNat ++
    ascii " " ++ decimalInt inputTimestamp ++ ascii " " ++ decimalInt outputTimestamp ++ ascii "\n"

def orderExecuted (restingId newId executionId price count : UInt32)
    (inputTimestamp outputTimestamp : ℤ) : Bytes :=
  ascii "E " ++ decimal restingId.toNat ++ ascii " " ++ decimal newId.toNat ++ ascii " " ++
    decimal executionId.toNat ++ ascii " " ++ decimal price.toNat ++ ascii " " ++
    decimal count.toNat ++ ascii " " ++ decimalInt inputTimestamp ++ ascii " " ++
    decimalInt outputTimestamp ++ ascii "\n"

def orderDeleted (id : UInt32) (cancelAccepted : Bool) (inputTimestamp outputTimestamp : ℤ) : Bytes :=
  ascii "X " ++ decimal id.toNat ++ ascii " " ++ (if cancelAccepted then ascii "A" else ascii "R") ++
    ascii " " ++ decimalInt inputTimestamp ++ ascii " " ++ decimalInt outputTimestamp ++ ascii "\n"

/-- The call that the engine makes for a line. -/
def print (line : Line UInt32 Bytes) (outputTimestamp : ℤ) : Bytes :=
  match line with
  | .added side orderId instrument price count inputTime =>
    orderAdded orderId instrument price count (side = .sell) inputTime outputTimestamp
  | .executed restingId newId executionId price count inputTime =>
    orderExecuted restingId newId executionId price count inputTime outputTimestamp
  | .deleted orderId accepted inputTime => orderDeleted orderId accepted inputTime outputTimestamp

end MatchingEngine.Cpp.Output
