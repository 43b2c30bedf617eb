import MatchingEngine.Basic
import MatchingEngine.Lib.Text

/-!
# How the grader reads an output line

`slow_split` and `parse_engine_output_line`.  Where the code would read past its tokens or overflow a
signed integer the behaviour is undefined.
-/

namespace MatchingEngine.Cpp.Grader

open Text

/-! ## `slow_split` -/

/-- The pieces between separators that are not empty. -/
def slowSplit (seps : Bytes) (str : Bytes) : List Bytes :=
  if _h : str = [] then []
  else
    let token := str.takeWhile fun b => !seps.contains b
    let rest := (str.drop token.length).tail
    if token = [] then slowSplit seps rest else token :: slowSplit seps rest
termination_by str.length
decreasing_by
  all_goals
    have hpos := List.length_pos_iff.mpr _h
    rw [List.length_tail, List.length_drop]
    omega

/-- `" \\t"` is an array of three characters, the last of which is NUL. -/
def separators : Bytes := [32, 9, 0]

/-! ## The parts of a line -/

inductive ParseError
  /-- a `std::runtime_error` with its text -/
  | runtimeError (what : String)
  /-- undefined behaviour -/
  | undefinedBehaviour
  deriving DecidableEq

abbrev Parse := Except ParseError

/-- `parse_fail(condition, fail_reason)`. -/
def parseFail (condition : Bool) (failReason : String) : Parse Unit :=
  if condition then .ok () else .error (.runtimeError failReason)

/-- `std::stol`. -/
def stol (str : Bytes) (failReason : String) : Parse ℤ :=
  match scanNumber str with
  | none => .error (.runtimeError (failReason ++ ": invalid argument"))
  | some (negative, n) =>
    let value : ℤ := if negative then -n else n
    if -2 ^ 63 ≤ value ∧ value < 2 ^ 63 then .ok value
    else .error (.runtimeError (failReason ++ ": out of range"))

/-- `std::stoul`; a minus sign negates the word. -/
def stoul (str : Bytes) (failReason : String) : Parse ℕ :=
  match scanNumber str with
  | none => .error (.runtimeError (failReason ++ ": invalid argument"))
  | some (negative, n) =>
    if n < 2 ^ 64 then .ok (if negative then (2 ^ 64 - n) % 2 ^ 64 else n)
    else .error (.runtimeError (failReason ++ ": out of range"))

/-- `parse_into_int` for a `uint32_t`. -/
def parseIntoInt (str : Bytes) (failReason : String) : Parse UInt32 := do
  let tmp ← stoul str failReason
  if 2 ^ 32 ≤ tmp then .error (.runtimeError (failReason ++ ": out of range"))
  else .ok (UInt32.ofNat tmp)

/-- `parse_into_char_array` for a `char[9]`; the array holds the text up to its NUL. -/
def parseIntoCharArray (str : Bytes) (failReason : String) : Parse Bytes := do
  parseFail (str.length < 9) failReason
  .ok (str.takeWhile (· ≠ 0))

/-- `dest = tmp * scale` from an `intmax_t` to a `uintmax_t`, with its check. -/
def scaleTimestamp (tmp scale : ℤ) (failReason : String) : Parse ℕ :=
  if -2 ^ 63 ≤ tmp * scale ∧ tmp * scale < 2 ^ 63 then
    let dest := (tmp * scale) % 2 ^ 64
    if dest / scale ≠ tmp % 2 ^ 64 then .error (.runtimeError (failReason ++ ": out of range"))
    else .ok dest.toNat
  else .error .undefinedBehaviour

def parseIntoTimestamp (str : Bytes) (failReason : String) : Parse ℕ :=
  if (ascii "ns").isSuffixOf str then stoul (str.dropLast.dropLast) failReason
  else if (ascii "us").isSuffixOf str then do
    let tmp ← stol (str.dropLast.dropLast) failReason
    scaleTimestamp tmp 1000 failReason
  else if (ascii "ms").isSuffixOf str then do
    let tmp ← stol (str.dropLast.dropLast) failReason
    scaleTimestamp tmp 1000000 failReason
  else do
    -- microseconds by default
    let tmp ← stol str failReason
    scaleTimestamp tmp 1000 failReason

/-! ## The line -/

/-- The type of a `ParsedEngineOutput` with the member of its union. -/
inductive Parsed
  | buySell (side : Side) (orderId : UInt32) (instrument : Bytes) (price count : UInt32)
  | exec (restingOrderId newOrderId executionId price count : UInt32)
  | cancel (orderId : UInt32) (accept : Bool)
  deriving DecidableEq

structure ParsedEngineOutput where
  line : Bytes
  parsed : Parsed
  inputTimestamp : ℕ
  outputTimestamp : ℕ
  deriving DecidableEq

/-- `*next(iter)`, from the tokens behind `iter`. -/
def next : List Bytes → Parse (Bytes × List Bytes)
  | [] => .error (.runtimeError "expected token")
  | token :: rest => .ok (token, rest)

/-- The price of an execution may stand behind an instrument, which does not begin with a digit. -/
def nextPrice : List Bytes → Parse (Bytes × List Bytes)
  | [] => .error .undefinedBehaviour
  | token :: rest =>
    if token.head?.any isDigit then .ok (token, rest)
    else
      match rest with
      | [] => .error .undefinedBehaviour
      | token :: rest => .ok (token, rest)

def parseBuySell (side : Side) (iter : List Bytes) : Parse (Parsed × List Bytes) := do
  let (token, iter) ← next iter
  let orderId ← parseIntoInt token "expected integer order id"
  let (token, iter) ← next iter
  let instrument ← parseIntoCharArray token "symbol too long"
  let (token, iter) ← next iter
  let price ← parseIntoInt token "expected integer price"
  let (token, iter) ← next iter
  let count ← parseIntoInt token "expected integer count"
  .ok (.buySell side orderId instrument price count, iter)

def parseExec (iter : List Bytes) : Parse (Parsed × List Bytes) := do
  let (token, iter) ← next iter
  let restingOrderId ← parseIntoInt token "expected integer resting order id"
  let (token, iter) ← next iter
  let newOrderId ← parseIntoInt token "expected integer new order id"
  let (token, iter) ← next iter
  let executionId ← parseIntoInt token "expected integer execution id"
  let (token, iter) ← nextPrice iter
  let price ← parseIntoInt token "expected integer price"
  let (token, iter) ← next iter
  let count ← parseIntoInt token "expected integer count"
  .ok (.exec restingOrderId newOrderId executionId price count, iter)

/-- `CancelType`. -/
def parseCancelType (token : Bytes) : Parse Bool := do
  parseFail (token.length = 1) "cancel type too long"
  if token = ascii "A" then .ok true
  else if token = ascii "R" then .ok false
  else .error (.runtimeError "invalid cancel type")

def parseCancel (iter : List Bytes) : Parse (Parsed × List Bytes) := do
  let (token, iter) ← next iter
  let orderId ← parseIntoInt token "expected integer order id"
  let (token, iter) ← next iter
  let accept ← parseCancelType token
  .ok (.cancel orderId accept, iter)

/-- The switch over the first token. -/
def parseCommand (token : Bytes) (iter : List Bytes) : Parse (Parsed × List Bytes) := do
  parseFail (token.length = 1) "output type too long"
  if token = ascii "B" then parseBuySell .buy iter
  else if token = ascii "S" then parseBuySell .sell iter
  else if token = ascii "E" then parseExec iter
  else if token = ascii "X" then parseCancel iter
  else .error (.runtimeError "invalid output type")

/-- The two timestamps, behind which there is nothing. -/
def parseTimestamps (iter : List Bytes) : Parse (ℕ × ℕ) := do
  let (token, iter) ← next iter
  let inputTimestamp ← parseIntoTimestamp token "expected integer input timestamp"
  let (token, iter) ← next iter
  let outputTimestamp ← parseIntoTimestamp token "expected integer output timestamp"
  parseFail (iter = []) "extra tokens at end of output"
  .ok (inputTimestamp, outputTimestamp)

def parseEngineOutputLine (line : Bytes) : Parse ParsedEngineOutput := do
  match slowSplit separators line with
  | [] => .error .undefinedBehaviour
  | token :: iter =>
    let (parsed, iter) ← parseCommand token iter
    let (inputTimestamp, outputTimestamp) ← parseTimestamps iter
    .ok { line, parsed, inputTimestamp, outputTimestamp }

end MatchingEngine.Cpp.Grader
