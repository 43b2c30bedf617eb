import MatchingEngine.Basic
import MatchingEngine.Lib.Text

/-!
# The output lines of the Go engine

A `Message` has a list of untyped arguments; `printMessage` adds the time and formats them.
-/

namespace MatchingEngine.Go

open Text

/-- The dynamic types of what stands in `[]interface{}`. -/
inductive Arg
  | uint32 (v : UInt32)
  | int64 (v : ℤ)
  | string (v : Bytes)
  /-- `inputType` and `cancelSuccessType` -/
  | byte (v : UInt8)
  /-- an untyped character constant -/
  | rune (v : Char)
  deriving DecidableEq

inductive MsgType
  | executeMsg
  | cancelMsg
  | addMsg
  deriving DecidableEq

/-- `type Message struct`. -/
structure Message where
  msgType : MsgType
  args : List Arg

namespace Arg

/-- `%v`. -/
def formatV : Arg → Bytes
  | .uint32 v => decimal v.toNat
  | .int64 v => decimalInt v
  | .string v => v
  | .byte v => decimal v.toNat
  | .rune v => decimal v.toNat

/-- `%c`, the character of a number; it is not for strings. -/
def formatC : Arg → Option Bytes
  | .uint32 v => some (String.utf8EncodeChar (Char.ofNat v.toNat))
  | .int64 v => some (String.utf8EncodeChar (Char.ofNat v.toNat))
  | .string _ => none
  | .byte v => some (String.utf8EncodeChar (Char.ofNat v.toNat))
  | .rune v => some (String.utf8EncodeChar v)

end Arg

/-- `fmt.Sprintf` with the verbs `%v` and `%c`.  It has no result where Go prints an error: another
    verb, an argument of the wrong type, too few of them or too many. -/
def sprintf : List Char → List Arg → Option Bytes
  | [], [] => some []
  | [], _ :: _ => none
  | '%' :: 'v' :: format, arg :: args => (sprintf format args).map fun text => arg.formatV ++ text
  | '%' :: 'c' :: format, arg :: args =>
    match arg.formatC with
    | none => none
    | some c => (sprintf format args).map fun text => c ++ text
  | '%' :: _, _ => none
  | c :: format, args => (sprintf format args).map fun text => c.toUInt8 :: text

namespace Message

/-- The format of a kind of message. -/
def formatters : MsgType → String
  | .executeMsg => "E %v %v %v %v %v %v %v\n"
  | .cancelMsg => "X %v %c %v %v\n"
  | .addMsg => "%c %v %v %v %v %v %v\n"

/-- `printMessage` at the time `timeNow`. -/
def printMessage (m : Message) (timeNow : ℤ) : Option Bytes :=
  sprintf (formatters m.msgType).toList (m.args ++ [.int64 timeNow])

/-- `inputBuy` and `inputSell`. -/
def orderType : Side → UInt8
  | .buy => 66
  | .sell => 83

/-- The message that the engine makes for a line: in `AddOrder`, in `executeOrder`, and for a cancel in
    `handleConn` and `ProcessCancelOrder`. -/
def ofLine : Line UInt32 Bytes → Message
  | .added side orderId instrument price count inputTime =>
    { msgType := .addMsg
      args := [.byte (orderType side), .uint32 orderId, .string instrument, .uint32 price,
        .uint32 count, .int64 inputTime] }
  | .executed restingId newId executionId price count inputTime =>
    { msgType := .executeMsg
      args := [.uint32 restingId, .uint32 newId, .uint32 executionId, .uint32 price, .uint32 count,
        .int64 inputTime] }
  | .deleted orderId accepted inputTime =>
    { msgType := .cancelMsg
      args := [.uint32 orderId, if accepted then .byte 65 else .rune 'R', .int64 inputTime] }

end Message

/-- What `printMessage` prints for a line. -/
def print (line : Line UInt32 Bytes) (timeNow : ℤ) : Option Bytes :=
  (Message.ofLine line).printMessage timeNow

end MatchingEngine.Go
