import MatchingEngine.Basic
import MatchingEngine.Lib.Bytes

/-!
# What a connection of the Go engine reads

A client writes records of 28 bytes.  `readInput` makes one `Read` into a buffer of that size, zeroed,
and decodes it however many bytes have come.  `handleConn` takes everything that is not a cancel for an
order, and `ProcessActiveOrder` every order that is not a buy for a sell.
-/

namespace MatchingEngine.Go

open Bytes (leBytes leWord)

/-- `struct input` in the memory of a client, with the padding at its end. -/
structure Record where
  type : UInt32
  orderId : UInt32
  price : UInt32
  count : UInt32
  instrument : List UInt8
  padding : List UInt8
  length_instrument : instrument.length = 9
  length_padding : padding.length = 3

namespace Record

/-- What `fwrite(&input, 1, sizeof(input), client)` writes. -/
def bytes (r : Record) : List UInt8 :=
  leBytes r.type ++ (leBytes r.orderId ++ (leBytes r.price ++ (leBytes r.count ++
    (r.instrument ++ r.padding))))

theorem length_bytes (r : Record) : r.bytes.length = 28 := by
  simp only [bytes, List.length_append, Bytes.length_leBytes, r.length_instrument, r.length_padding]

end Record

/-- `sizeof(C.cInput{})`. -/
def inputSize : ℕ := 28

/-- `type input struct`. -/
structure Input where
  orderType : UInt8
  orderId : UInt32
  price : UInt32
  count : UInt32
  instrument : List UInt8
  deriving DecidableEq

/-- `inputBuy`, `inputSell` and `inputCancel`. -/
def inputBuy : UInt8 := 66
def inputSell : UInt8 := 83
def inputCancel : UInt8 := 67

/-- The buffer after a `Read` that returned these bytes. -/
def fillBuf (read : List UInt8) : List UInt8 := read ++ List.replicate (inputSize - read.length) 0

/-- `C.GoString(&cin.Instrument[0])`: the padding behind the array stays 0. -/
def goString (chars : List UInt8) : List UInt8 := chars.takeWhile (· ≠ 0)

/-- `readInput`, for the bytes that its `Read` returned; the type is narrowed to a byte. -/
def readInput (read : List UInt8) : Input :=
  let buf := fillBuf read
  { orderType := (leWord buf).toUInt8
    orderId := leWord (buf.drop 4)
    price := leWord (buf.drop 8)
    count := leWord (buf.drop 12)
    instrument := goString ((buf.drop 16).take 9) }

/-- What `handleConn` does about an input: the cancel of an id, or a new order on a side of a book. -/
inductive Action
  | cancel (orderId : UInt32)
  | order (side : Side) (orderId price count : UInt32) (instrument : List UInt8)
  deriving DecidableEq

/-- The side on which `ProcessActiveOrder` adds an order. -/
def activeSide (orderType : UInt8) : Side := if orderType = inputBuy then .buy else .sell

/-- The `switch` of `handleConn`. -/
def dispatchInput (input : Input) : Action :=
  if input.orderType = inputCancel then .cancel input.orderId
  else
    .order (activeSide input.orderType) input.orderId input.price input.count input.instrument

/-- The loop of `handleConn`, for what each `Read` returned before the end of the stream. -/
def handleInputs (reads : List (List UInt8)) : List Action :=
  reads.map fun read => dispatchInput (readInput read)

/-! ## The records of a stream -/

namespace Record

/-- The type field is `'B'`, `'S'` or `'C'`. -/
def Valid (r : Record) : Prop := r.type = 66 ∨ r.type = 83 ∨ r.type = 67

instance decidableValid (r : Record) : Decidable r.Valid := inferInstanceAs (Decidable (_ ∨ _ ∨ _))

/-- The NUL-terminated instrument. -/
def name (r : Record) : List UInt8 := r.instrument.takeWhile (· ≠ 0)

/-- What a record asks for; one of another type asks for nothing. -/
def action (r : Record) : Option Action :=
  if r.type = 66 then some (.order .buy r.orderId r.price r.count r.name)
  else if r.type = 83 then some (.order .sell r.orderId r.price r.count r.name)
  else if r.type = 67 then some (.cancel r.orderId)
  else none

theorem action_isSome_iff (r : Record) : r.action.isSome = true ↔ r.Valid := by
  unfold action Valid
  split
  next h => exact iff_of_true rfl (Or.inl h)
  next hbuy =>
    split
    next h => exact iff_of_true rfl (Or.inr (Or.inl h))
    next hsell =>
      split
      next h => exact iff_of_true rfl (Or.inr (Or.inr h))
      next hcancel =>
        apply iff_of_false Bool.false_ne_true
        intro h
        rcases h with h | h | h
        · exact hbuy h
        · exact hsell h
        · exact hcancel h

/-- The stream of a connection that sends these. -/
def stream (rs : List Record) : List UInt8 := (rs.map bytes).flatten

end Record

/-- What the `Read` calls on the connection return, each at least 1 byte and at most what it has asked
    for. -/
def Splits (stream : List UInt8) (reads : List (List UInt8)) : Prop :=
  reads.flatten = stream ∧ ∀ read ∈ reads, 1 ≤ read.length ∧ read.length ≤ inputSize

/-! ## Whole records -/

/-- Read whole, a record is decoded to its fields. -/
theorem readInput_bytes (r : Record) :
    readInput r.bytes =
      { orderType := r.type.toUInt8
        orderId := r.orderId
        price := r.price
        count := r.count
        instrument := r.name } := by
  have hbuf : fillBuf r.bytes = r.bytes := by
    unfold fillBuf
    rw [r.length_bytes]
    exact List.append_nil _
  have hchars : ((r.instrument ++ r.padding).take 9) = r.instrument := by
    rw [← r.length_instrument]
    exact List.take_left
  unfold readInput
  rw [hbuf]
  unfold Record.bytes
  simp only [Bytes.leWord_leBytes]
  congr 1
  -- each field is at the place where the client has put it
  · exact Bytes.leWord_leBytes r.orderId _
  · exact Bytes.leWord_leBytes r.price _
  · exact Bytes.leWord_leBytes r.count _
  · exact congrArg goString hchars

theorem dispatchInput_bytes {r : Record} (h : r.Valid) :
    r.action = some (dispatchInput (readInput r.bytes)) := by
  rw [readInput_bytes]
  unfold Record.action
  rcases h with h | h | h
  · rw [h]
    rfl
  · rw [h]
    rfl
  · rw [h]
    rfl

theorem length_filterMap_action (rs : List Record) :
    (rs.filterMap Record.action).length ≤ rs.length ∧
      ((rs.filterMap Record.action).length = rs.length → ∀ r ∈ rs, r.Valid) := by
  induction rs with
  | nil => exact ⟨le_rfl, fun _ _ hr => by cases hr⟩
  | cons r rs ih =>
    cases haction : r.action with
    | none =>
      rw [List.filterMap_cons_none haction, List.length_cons]
      exact ⟨Nat.le_succ_of_le ih.1, fun heq => absurd heq (by omega)⟩
    | some action =>
      rw [List.filterMap_cons_some haction, List.length_cons, List.length_cons]
      refine ⟨Nat.succ_le_succ ih.1, ?_⟩
      intro heq x hx
      rcases List.mem_cons.mp hx with rfl | hx
      · apply x.action_isSome_iff.mp
        rw [haction]
        rfl
      · exact ih.2 (Nat.succ.inj heq) x hx

theorem handleInputs_bytes {rs : List Record} (h : ∀ r ∈ rs, r.Valid) :
    handleInputs (rs.map Record.bytes) = rs.filterMap Record.action := by
  induction rs with
  | nil => rfl
  | cons r rs ih =>
    have hr := dispatchInput_bytes (h r List.mem_cons_self)
    have hrest := ih fun x hx => h x (List.mem_cons_of_mem _ hx)
    rw [List.filterMap_cons_some hr, ← hrest]
    rfl

/-- The connection acts on the valid records and on nothing else if and only if every `Read` returns a
    whole record and every record is valid. -/
theorem handleInputs_iff (rs : List Record) (reads : List (List UInt8))
    (h : Splits (Record.stream rs) reads) :
    handleInputs reads = rs.filterMap Record.action ↔
      (∀ read ∈ reads, read.length = inputSize) ∧ ∀ r ∈ rs, r.Valid := by
  have hblocks : ∀ b ∈ rs.map Record.bytes, b.length = inputSize := by
    intro b hb
    rcases List.mem_map.mp hb with ⟨r, -, rfl⟩
    exact r.length_bytes
  have hlen : reads.flatten.length = inputSize * rs.length := by
    rw [h.1]
    unfold Record.stream
    rw [Bytes.length_flatten_of_blocks hblocks, List.length_map]
  have hpieces := fun read hread => (h.2 read hread).2
  have hpos : 0 < inputSize := by decide
  constructor
  · intro heq
    -- there is an action for each read, and one for each valid record
    have hcount := congrArg List.length heq
    unfold handleInputs at hcount
    rw [List.length_map] at hcount
    have hmost := length_filterMap_action rs
    have hleast := Bytes.blocks_le_pieces hpieces hpos hlen
    have hreads : reads.length = rs.length := by
      have hle := hmost.1
      omega
    rw [← hreads] at hlen
    exact ⟨Bytes.length_eq_of_pieces hpieces hlen, hmost.2 (hcount.symm.trans hreads)⟩
  · intro hcond
    have heq : reads = rs.map Record.bytes :=
      Bytes.eq_of_flatten_eq hcond.1 hblocks hpos h.1
    rw [heq]
    exact handleInputs_bytes hcond.2

/-- A buy, a sell and a cancel of the buy. -/
def sample : List Record :=
  [{ type := 66, orderId := 1, price := 2705, count := 30,
     instrument := [71, 79, 79, 71, 0, 0, 0, 0, 0], padding := [0, 0, 0],
     length_instrument := rfl, length_padding := rfl },
   { type := 83, orderId := 2, price := 2701, count := 10,
     instrument := [65, 0, 66, 0, 0, 0, 0, 0, 0], padding := [0, 0, 0],
     length_instrument := rfl, length_padding := rfl },
   { type := 67, orderId := 1, price := 0, count := 0,
     instrument := List.replicate 9 0, padding := [0, 0, 0],
     length_instrument := rfl, length_padding := rfl }]

theorem handleInputs_whole :
    handleInputs (sample.map Record.bytes) =
      [.order .buy 1 2705 30 [71, 79, 79, 71], .order .sell 2 2701 10 [65], .cancel 1] := by
  have hsplit : Splits (Record.stream sample) (sample.map Record.bytes) := ⟨rfl, by decide⟩
  have hacted := (handleInputs_iff sample _ hsplit).mpr ⟨by decide, by decide⟩
  exact hacted.trans (by decide)

/-- The buy alone, its bytes in two reads. -/
def oneBuy : List Record := sample.take 1

def shortReads : List (List UInt8) :=
  [(Record.stream oneBuy).take 12, (Record.stream oneBuy).drop 12]

/-- A record of no type that there is. -/
def unknown : Record :=
  { type := 63, orderId := 9, price := 5, count := 6, instrument := List.replicate 9 0,
    padding := [0, 0, 0], length_instrument := rfl, length_padding := rfl }

/-- The first read makes a buy without count and instrument, and the second one a sell order; a record
    of an unknown type makes a sell order too. -/
theorem not_handleInputs_short :
    Splits (Record.stream oneBuy) shortReads ∧
      handleInputs shortReads = [.order .buy 1 2705 0 [], .order .sell 1196379975 0 0 []] ∧
      handleInputs [unknown.bytes] = [.order .sell 9 5 6 []] ∧
      ¬ ∀ (rs : List Record) (reads : List (List UInt8)), Splits (Record.stream rs) reads →
        handleInputs reads = rs.filterMap Record.action := by
  have hsplit : Splits (Record.stream oneBuy) shortReads := ⟨rfl, by decide⟩
  refine ⟨hsplit, by decide, by decide, fun hall => ?_⟩
  have heq := congrArg List.length (hall oneBuy shortReads hsplit)
  cases heq

end MatchingEngine.Go
