import MatchingEngine.Cpp.Grader
import MatchingEngine.Cpp.Output
import MatchingEngine.Go.Message

/-!
# Printed lines

Both engines print a line as the same fields with spaces between them, and the grader takes the fields
apart and reads the numbers back.
-/

namespace MatchingEngine

open Text Cpp.Grader

/-! ## Splitting -/

section Split

variable {seps token rest : Bytes} {sep : UInt8}

theorem takeWhile_token (h : ∀ b ∈ token, seps.contains b = false) (hsep : seps.contains sep = true) :
    (token ++ sep :: rest).takeWhile (fun b => !seps.contains b) = token := by
  rw [List.takeWhile_append_of_pos]
  · rw [List.takeWhile_cons_of_neg]
    · exact List.append_nil _
    · rw [hsep]
      exact Bool.false_ne_true
  · intro b hb
    rw [h b hb]
    rfl

theorem slowSplit_token (hne : token ≠ []) (h : ∀ b ∈ token, seps.contains b = false)
    (hsep : seps.contains sep = true) :
    slowSplit seps (token ++ sep :: rest) = token :: slowSplit seps rest := by
  have htake : (token ++ sep :: rest).takeWhile (fun b => !seps.contains b) = token :=
    takeWhile_token h hsep
  have hdrop : (token ++ sep :: rest).drop token.length = sep :: rest := List.drop_left
  rw [slowSplit, dif_neg (List.append_ne_nil_of_left_ne_nil hne _)]
  dsimp only
  rw [htake, if_neg hne, hdrop]
  rfl

theorem slowSplit_last (hne : token ≠ []) (h : ∀ b ∈ token, seps.contains b = false) :
    slowSplit seps token = [token] := by
  have htake : token.takeWhile (fun b => !seps.contains b) = token := by
    apply List.takeWhile_eq_self_iff.mpr
    intro b hb
    rw [h b hb]
    rfl
  rw [slowSplit, dif_neg hne]
  dsimp only
  rw [htake, if_neg hne, List.drop_length]
  rw [List.tail_nil, slowSplit, dif_pos rfl]

/-- Fields without separators are found again. -/
theorem slowSplit_joinFields {fields : List Bytes} (hspace : seps.contains 32 = true)
    (hne : ∀ f ∈ fields, f ≠ []) (h : ∀ f ∈ fields, ∀ b ∈ f, seps.contains b = false) :
    slowSplit seps (joinFields fields) = fields := by
  induction fields with
  | nil => rw [joinFields, slowSplit, dif_pos rfl]
  | cons f fields ih =>
    have hf := hne f List.mem_cons_self
    have hsep := h f List.mem_cons_self
    cases fields with
    | nil => exact slowSplit_last hf hsep
    | cons g fields =>
      rw [joinFields, slowSplit_token hf hsep hspace]
      · rw [ih (fun x hx => hne x (List.mem_cons_of_mem f hx))
          fun x hx => h x (List.mem_cons_of_mem f hx)]
      · exact List.cons_ne_nil g fields

end Split

/-! ## Numbers -/

section Numbers

variable {n : ℕ} {rest : Bytes} {failReason : String}

theorem ok_bind {α β : Type} (a : α) (f : α → Parse β) : (Except.ok a >>= f) = f a := rfl

theorem stoul_decimal (hn : n < 2 ^ 64) (hrest : ∀ b, rest.head? = some b → isDigit b = false) :
    stoul (decimal n ++ rest) failReason = .ok n := by
  unfold stoul
  rw [scanNumber_decimal n hrest]
  exact if_pos hn

theorem stol_decimal (hn : n < 2 ^ 63) (hrest : ∀ b, rest.head? = some b → isDigit b = false) :
    stol (decimal n ++ rest) failReason = .ok (n : ℤ) := by
  have hrange : (-2 ^ 63 : ℤ) ≤ n ∧ (n : ℤ) < 2 ^ 63 := by omega
  unfold stol
  rw [scanNumber_decimal n hrest]
  exact if_pos hrange

theorem parseIntoInt_decimal (w : UInt32) : parseIntoInt (decimal w.toNat) failReason = .ok w := by
  have hlt := w.toNat_lt
  have hread : stoul (decimal w.toNat ++ []) failReason = .ok w.toNat :=
    stoul_decimal (by omega) fun _ hb => by cases hb
  rw [List.append_nil] at hread
  unfold parseIntoInt
  rw [hread]
  show (if 2 ^ 32 ≤ w.toNat then _ else _) = _
  rw [if_neg (Nat.not_le.mpr hlt), UInt32.ofNat_toNat]

/-- A text that does not end with the letter has no unit that ends with it. -/
theorem not_isSuffixOf {suffix str : Bytes} {b : UInt8} (hs : suffix.getLast? = some b)
    (h : str.getLast? ≠ some b) : suffix.isSuffixOf str = false := by
  apply Bool.eq_false_iff.mpr
  intro hsuffix
  rcases List.isSuffixOf_iff_suffix.mp hsuffix with ⟨front, rfl⟩
  apply h
  rw [List.getLast?_append, hs]
  rfl

theorem scaleTimestamp_nonneg (hn : n * 1000 < 2 ^ 63) :
    scaleTimestamp n 1000 failReason = .ok (n * 1000) := by
  have hrange : (-2 ^ 63 : ℤ) ≤ (n : ℤ) * 1000 ∧ (n : ℤ) * 1000 < 2 ^ 63 := by omega
  have hmod : ((n : ℤ) * 1000) % 2 ^ 64 = (n : ℤ) * 1000 := by omega
  have hmod' : (n : ℤ) % 2 ^ 64 = n := by omega
  have hdiv : ((n : ℤ) * 1000) / 1000 = n := by omega
  unfold scaleTimestamp
  rw [if_pos hrange]
  dsimp only
  have hnat : ((n : ℤ) * 1000).toNat = n * 1000 := by omega
  rw [hmod, hmod', hdiv, if_neg fun hne => hne rfl, hnat]

/-- Microseconds without a unit; a newline may follow. -/
theorem parseIntoTimestamp_decimal (hn : n * 1000 < 2 ^ 63) (hrest : rest = [] ∨ rest = [10]) :
    parseIntoTimestamp (decimal n ++ rest) failReason = .ok (n * 1000) := by
  have hdigit : ∀ b, rest.head? = some b → isDigit b = false := by
    intro b hb
    rcases hrest with rfl | rfl
    · cases hb
    · cases hb
      decide
  have hlast : (decimal n ++ rest).getLast? ≠ some 115 := by
    intro heq
    have hmem := List.mem_of_getLast? heq
    rcases List.mem_append.mp hmem with hmem | hmem
    · have hd := isDigit_decimal n 115 hmem
      exact absurd hd (by decide)
    · rcases hrest with rfl | rfl
      · cases hmem
      · exact absurd hmem (by decide)
  unfold parseIntoTimestamp
  rw [not_isSuffixOf (b := 115) (by decide) hlast, not_isSuffixOf (b := 115) (by decide) hlast,
    not_isSuffixOf (b := 115) (by decide) hlast, stol_decimal (by omega) hdigit,
    if_neg Bool.false_ne_true, if_neg Bool.false_ne_true, if_neg Bool.false_ne_true, ok_bind,
    scaleTimestamp_nonneg hn]

end Numbers

/-! ## Both formats -/

/-- 1 to 8 bytes, none of which is a space, a tab, a newline or NUL. -/
structure PrintableInstrument (instrument : Bytes) : Prop where
  pos : 1 ≤ instrument.length
  le : instrument.length ≤ 8
  chars : ∀ b ∈ instrument, b ≠ 32 ∧ b ≠ 9 ∧ b ≠ 10 ∧ b ≠ 0

/-- The instrument of the line can be printed, if it has one. -/
def Line.Printable : Line UInt32 Bytes → Prop
  | .added _ _ instrument _ _ _ => PrintableInstrument instrument
  | _ => True

/-- Microseconds of which the nanoseconds fit in 64 bits with a sign. -/
def InRange (time : ℤ) : Prop := 0 ≤ time ∧ time * 1000 < 2 ^ 63

def sideLetter : Side → Bytes
  | .buy => ascii "B"
  | .sell => ascii "S"

/-- The fields of a line; the newline comes with the last. -/
def lineFields (line : Line UInt32 Bytes) (outputTime : ℤ) : List Bytes :=
  match line with
  | .added side orderId instrument price count inputTime =>
    [sideLetter side, decimal orderId.toNat, instrument, decimal price.toNat, decimal count.toNat,
      decimalInt inputTime, decimalInt outputTime ++ [10]]
  | .executed restingId newId executionId price count inputTime =>
    [ascii "E", decimal restingId.toNat, decimal newId.toNat, decimal executionId.toNat,
      decimal price.toNat, decimal count.toNat, decimalInt inputTime, decimalInt outputTime ++ [10]]
  | .deleted orderId accepted inputTime =>
    [ascii "X", decimal orderId.toNat, if accepted then ascii "A" else ascii "R",
      decimalInt inputTime, decimalInt outputTime ++ [10]]

theorem cString_eq {instrument : Bytes} (h : PrintableInstrument instrument) :
    Cpp.Output.cString instrument = instrument := by
  apply List.takeWhile_eq_self_iff.mpr
  intro b hb
  exact decide_eq_true (h.chars b hb).2.2.2

theorem cpp_print_eq {line : Line UInt32 Bytes} (h : line.Printable) (outputTime : ℤ) :
    Cpp.Output.print line outputTime = joinFields (lineFields line outputTime) := by
  have hspace : ascii " " = [32] := rfl
  have hnewline : ascii "\n" = [10] := rfl
  cases line with
  | added side orderId instrument price count inputTime =>
    have hletter : (if decide (side = .sell) = true then ascii "S" else ascii "B") =
        sideLetter side := by
      cases side <;> rfl
    simp only [Cpp.Output.print, Cpp.Output.orderAdded, lineFields, joinFields, hletter,
      cString_eq h, hspace, hnewline, List.append_assoc, List.cons_append, List.nil_append]
  | executed restingId newId executionId price count inputTime =>
    have hletter : ascii "E " = ascii "E" ++ [32] := rfl
    simp only [Cpp.Output.print, Cpp.Output.orderExecuted, lineFields, joinFields, hletter, hspace,
      hnewline, List.append_assoc, List.cons_append, List.nil_append]
  | deleted orderId accepted inputTime =>
    have hletter : ascii "X " = ascii "X" ++ [32] := rfl
    simp only [Cpp.Output.print, Cpp.Output.orderDeleted, lineFields, joinFields, hletter, hspace,
      hnewline, List.append_assoc, List.cons_append, List.nil_append]

section Sprintf

open Go

theorem sprintf_v (format : List Char) (arg : Arg) (args : List Arg) :
    sprintf ('%' :: 'v' :: format) (arg :: args) =
      (sprintf format args).map fun text => arg.formatV ++ text := rfl

theorem sprintf_c (format : List Char) {arg : Arg} {c : Bytes} (h : arg.formatC = some c)
    (args : List Arg) :
    sprintf ('%' :: 'c' :: format) (arg :: args) =
      (sprintf format args).map fun text => c ++ text := by
  simp only [sprintf, h]

theorem sprintf_space (format : List Char) (args : List Arg) :
    sprintf (' ' :: format) args = (sprintf format args).map fun text => 32 :: text := by
  cases args <;> rfl

theorem sprintf_newline : sprintf ['\n'] [] = some [10] := rfl

theorem go_print_eq (line : Line UInt32 Bytes) (outputTime : ℤ) :
    Go.print line outputTime = some (joinFields (lineFields line outputTime)) := by
  unfold Go.print Message.printMessage
  cases line with
  | added side orderId instrument price count inputTime =>
    have hformat : (Message.formatters .addMsg).toList =
        ['%', 'c', ' ', '%', 'v', ' ', '%', 'v', ' ', '%', 'v', ' ', '%', 'v', ' ', '%', 'v', ' ',
          '%', 'v', '\n'] := by
      decide
    have hletter : (Arg.byte (Message.orderType side)).formatC = some (sideLetter side) := by
      cases side <;> rfl
    simp only [Message.ofLine, hformat, List.cons_append, List.nil_append, sprintf_c _ hletter,
      sprintf_v, sprintf_space, sprintf_newline, Option.map_some, Arg.formatV, lineFields, joinFields]
  | executed restingId newId executionId price count inputTime =>
    have hformat : (Message.formatters .executeMsg).toList =
        ['E', ' ', '%', 'v', ' ', '%', 'v', ' ', '%', 'v', ' ', '%', 'v', ' ', '%', 'v', ' ', '%', 'v',
          ' ', '%', 'v', '\n'] := by
      decide
    have hE : ∀ format args, sprintf ('E' :: format) args =
        (sprintf format args).map fun text => ascii "E" ++ text := by
      intro format args
      cases args <;> rfl
    simp only [Message.ofLine, hformat, List.cons_append, List.nil_append, hE, sprintf_v,
      sprintf_space, sprintf_newline, Option.map_some, Arg.formatV, lineFields, joinFields]
  | deleted orderId accepted inputTime =>
    have hformat : (Message.formatters .cancelMsg).toList =
        ['X', ' ', '%', 'v', ' ', '%', 'c', ' ', '%', 'v', ' ', '%', 'v', '\n'] := by
      decide
    have hX : ∀ format args, sprintf ('X' :: format) args =
        (sprintf format args).map fun text => ascii "X" ++ text := by
      intro format args
      cases args <;> rfl
    have hletter : (if accepted then Arg.byte 65 else Arg.rune 'R').formatC =
        some (if accepted then ascii "A" else ascii "R") := by
      cases accepted <;> rfl
    simp only [Message.ofLine, hformat, List.cons_append, List.nil_append, hX, sprintf_c _ hletter,
      sprintf_v, sprintf_space, sprintf_newline, Option.map_some, Arg.formatV, lineFields, joinFields]

end Sprintf

/-! ## Tokens -/

/-- A field that the grader finds as one token. -/
structure IsToken (field : Bytes) : Prop where
  ne : field ≠ []
  chars : ∀ b ∈ field, separators.contains b = false

theorem not_separator_of_digit {b : UInt8} (h : isDigit b = true) : separators.contains b = false := by
  apply Bool.eq_false_iff.mpr
  intro hmem
  have hcases : b = 32 ∨ b = 9 ∨ b = 0 := by
    simpa [separators] using hmem
  rcases hcases with rfl | rfl | rfl
  · exact absurd h (by decide)
  · exact absurd h (by decide)
  · exact absurd h (by decide)

theorem isToken_decimal (n : ℕ) : IsToken (decimal n) where
  ne := decimal_ne_nil n
  chars b hb := not_separator_of_digit (isDigit_decimal n b hb)

/-- The newline is no separator, it stays on the last token. -/
theorem isToken_decimal_newline (n : ℕ) : IsToken (decimal n ++ [10]) where
  ne := List.append_ne_nil_of_left_ne_nil (decimal_ne_nil n) [10]
  chars := by
    intro b hb
    rcases List.mem_append.mp hb with hb | hb
    · exact not_separator_of_digit (isDigit_decimal n b hb)
    · cases List.mem_singleton.mp hb
      decide

theorem isToken_instrument {instrument : Bytes} (h : PrintableInstrument instrument) :
    IsToken instrument where
  ne := List.length_pos_iff.mp h.pos
  chars := by
    intro b hb
    rcases h.chars b hb with ⟨hspace, htab, _, hnul⟩
    apply Bool.eq_false_iff.mpr
    intro hmem
    have hcases : b = 32 ∨ b = 9 ∨ b = 0 := by
      simpa [separators] using hmem
    rcases hcases with heq | heq | heq
    · exact hspace heq
    · exact htab heq
    · exact hnul heq

theorem isToken_letter {b : UInt8} (h : separators.contains b = false) : IsToken [b] where
  ne := List.cons_ne_nil b []
  chars c hc := by
    cases List.mem_singleton.mp hc
    exact h

theorem isToken_sideLetter (side : Side) : IsToken (sideLetter side) := by
  cases side with
  | buy => exact isToken_letter (b := 66) (by decide)
  | sell => exact isToken_letter (b := 83) (by decide)

theorem isToken_lineFields {line : Line UInt32 Bytes} {outputTime : ℤ} (h : line.Printable)
    (hin : 0 ≤ line.inputTime) (hout : 0 ≤ outputTime) :
    ∀ f ∈ lineFields line outputTime, IsToken f := by
  have hlast : IsToken (decimalInt outputTime ++ [10]) := by
    rw [decimalInt_of_nonneg hout]
    exact isToken_decimal_newline _
  have htime : IsToken (decimalInt line.inputTime) := by
    rw [decimalInt_of_nonneg hin]
    exact isToken_decimal _
  cases line with
  | added side orderId instrument price count inputTime =>
    simp only [lineFields, List.forall_mem_cons]
    exact ⟨isToken_sideLetter side, isToken_decimal _, isToken_instrument h, isToken_decimal _,
      isToken_decimal _, htime, hlast, fun _ hf => absurd hf List.not_mem_nil⟩
  | executed restingId newId executionId price count inputTime =>
    have hletter : IsToken (ascii "E") := isToken_letter (b := 69) (by decide)
    simp only [lineFields, List.forall_mem_cons]
    exact ⟨hletter, isToken_decimal _, isToken_decimal _, isToken_decimal _, isToken_decimal _,
      isToken_decimal _, htime, hlast, fun _ hf => absurd hf List.not_mem_nil⟩
  | deleted orderId accepted inputTime =>
    have hletter : IsToken (ascii "X") := isToken_letter (b := 88) (by decide)
    have hflag : IsToken (if accepted then ascii "A" else ascii "R") := by
      cases accepted with
      | false => exact isToken_letter (b := 82) (by decide)
      | true => exact isToken_letter (b := 65) (by decide)
    simp only [lineFields, List.forall_mem_cons]
    exact ⟨hletter, isToken_decimal _, hflag, htime, hlast, fun _ hf => absurd hf List.not_mem_nil⟩

theorem slowSplit_lineFields {line : Line UInt32 Bytes} {outputTime : ℤ} (h : line.Printable)
    (hin : 0 ≤ line.inputTime) (hout : 0 ≤ outputTime) :
    slowSplit separators (joinFields (lineFields line outputTime)) = lineFields line outputTime := by
  have htoken := isToken_lineFields h hin hout
  apply slowSplit_joinFields
  · rfl
  · exact fun f hf => (htoken f hf).ne
  · exact fun f hf => (htoken f hf).chars

/-! ## Parsing -/

/-- What the grader has to find in a line. -/
def parsedLine : Line UInt32 Bytes → Parsed
  | .added side orderId instrument price count _ => .buySell side orderId instrument price count
  | .executed restingId newId executionId price count _ =>
    .exec restingId newId executionId price count
  | .deleted orderId accepted _ => .cancel orderId accepted

theorem line_eq_of_parsedLine {line line' : Line UInt32 Bytes} (h : parsedLine line = parsedLine line')
    (htime : line.inputTime = line'.inputTime) : line = line' := by
  cases line with
  | added =>
    cases line' with
    | added =>
      cases h
      cases htime
      rfl
    | executed => cases h
    | deleted => cases h
  | executed =>
    cases line' with
    | added => cases h
    | executed =>
      cases h
      cases htime
      rfl
    | deleted => cases h
  | deleted =>
    cases line' with
    | added => cases h
    | executed => cases h
    | deleted =>
      cases h
      cases htime
      rfl

section Parsing

variable {iter : List Bytes}

theorem parseIntoCharArray_instrument {instrument : Bytes} (h : PrintableInstrument instrument)
    (failReason : String) : parseIntoCharArray instrument failReason = .ok instrument := by
  have hfits : decide (instrument.length < 9) = true :=
    decide_eq_true (Nat.lt_succ_of_le h.le)
  have htake : instrument.takeWhile (· ≠ 0) = instrument := cString_eq h
  unfold parseIntoCharArray parseFail
  rw [hfits, if_pos rfl, ok_bind, htake]

theorem parseBuySell_fields (side : Side) (orderId price count : UInt32) {instrument : Bytes}
    (h : PrintableInstrument instrument) :
    parseBuySell side (decimal orderId.toNat :: instrument :: decimal price.toNat ::
      decimal count.toNat :: iter) = .ok (.buySell side orderId instrument price count, iter) := by
  simp only [parseBuySell, next, ok_bind, parseIntoInt_decimal, parseIntoCharArray_instrument h]

/-- The price begins with a digit, so it is not taken for an instrument. -/
theorem nextPrice_decimal (n : ℕ) : nextPrice (decimal n :: iter) = .ok (decimal n, iter) := by
  have hdigit : (decimal n).head?.any isDigit = true := by
    cases hd : decimal n with
    | nil => exact absurd hd (decimal_ne_nil n)
    | cons b bs =>
      have hb : b ∈ decimal n := by
        rw [hd]
        exact List.mem_cons_self
      exact isDigit_decimal n b hb
  unfold nextPrice
  exact if_pos hdigit

theorem parseExec_fields (restingId newId executionId price count : UInt32) :
    parseExec (decimal restingId.toNat :: decimal newId.toNat :: decimal executionId.toNat ::
      decimal price.toNat :: decimal count.toNat :: iter) =
        .ok (.exec restingId newId executionId price count, iter) := by
  simp only [parseExec, next, nextPrice_decimal, ok_bind, parseIntoInt_decimal]

theorem parseCancel_fields (orderId : UInt32) (accepted : Bool) :
    parseCancel (decimal orderId.toNat :: (if accepted then ascii "A" else ascii "R") :: iter) =
      .ok (.cancel orderId accepted, iter) := by
  have hflag : parseCancelType (if accepted then ascii "A" else ascii "R") = .ok accepted := by
    cases accepted <;> rfl
  simp only [parseCancel, next, ok_bind, parseIntoInt_decimal, hflag]

theorem parseTimestamps_fields {inputTime outputTime : ℤ} (hin : InRange inputTime)
    (hout : InRange outputTime) :
    parseTimestamps [decimalInt inputTime, decimalInt outputTime ++ [10]] =
      .ok (inputTime.toNat * 1000, outputTime.toNat * 1000) := by
  rcases hin with ⟨hin, hinlt⟩
  rcases hout with ⟨hout, houtlt⟩
  have hfirst : parseIntoTimestamp (decimal inputTime.toNat ++ []) "expected integer input timestamp" =
      .ok (inputTime.toNat * 1000) :=
    parseIntoTimestamp_decimal (by omega) (.inl rfl)
  have hlast : parseIntoTimestamp (decimal outputTime.toNat ++ [10])
      "expected integer output timestamp" = .ok (outputTime.toNat * 1000) :=
    parseIntoTimestamp_decimal (by omega) (.inr rfl)
  rw [List.append_nil] at hfirst
  rw [decimalInt_of_nonneg hin, decimalInt_of_nonneg hout]
  simp only [parseTimestamps, next, ok_bind, hfirst, hlast, parseFail, decide_true, if_true]

/-- The command token and the fields behind it; the timestamps are left. -/
theorem parseCommand_lineFields {line : Line UInt32 Bytes} (h : line.Printable) (outputTime : ℤ) :
    ∃ token iter, lineFields line outputTime = token :: iter ∧
      parseCommand token iter =
        .ok (parsedLine line, [decimalInt line.inputTime, decimalInt outputTime ++ [10]]) := by
  cases line with
  | added side orderId instrument price count inputTime =>
    refine ⟨_, _, rfl, ?_⟩
    cases side with
    | buy => exact parseBuySell_fields .buy orderId price count h
    | sell => exact parseBuySell_fields .sell orderId price count h
  | executed restingId newId executionId price count inputTime =>
    exact ⟨_, _, rfl, parseExec_fields restingId newId executionId price count⟩
  | deleted orderId accepted inputTime =>
    exact ⟨_, _, rfl, parseCancel_fields orderId accepted⟩

end Parsing

theorem parse_print {line : Line UInt32 Bytes} {outputTime : ℤ} (h : line.Printable)
    (hin : InRange line.inputTime) (hout : InRange outputTime) :
    parseEngineOutputLine (Cpp.Output.print line outputTime) =
      .ok { line := Cpp.Output.print line outputTime, parsed := parsedLine line
            inputTimestamp := line.inputTime.toNat * 1000
            outputTimestamp := outputTime.toNat * 1000 } := by
  have hsplit : slowSplit separators (Cpp.Output.print line outputTime) =
      lineFields line outputTime := by
    rw [cpp_print_eq h]
    exact slowSplit_lineFields h hin.1 hout.1
  rcases parseCommand_lineFields h outputTime with ⟨token, iter, hfields, hcommand⟩
  unfold parseEngineOutputLine
  rw [hsplit, hfields]
  dsimp only
  rw [hcommand, ok_bind]
  dsimp only
  rw [parseTimestamps_fields hin hout, ok_bind]

/-- What was parsed says which line it was. -/
theorem print_injective {line line' : Line UInt32 Bytes} {outputTime outputTime' : ℤ}
    (h : line.Printable) (hin : InRange line.inputTime) (hout : InRange outputTime)
    (h' : line'.Printable) (hin' : InRange line'.inputTime) (hout' : InRange outputTime')
    (heq : Cpp.Output.print line' outputTime' = Cpp.Output.print line outputTime) :
    line' = line ∧ outputTime' = outputTime := by
  have hparse := parse_print h' hin' hout'
  rw [heq, parse_print h hin hout] at hparse
  have hboth := Except.ok.inj hparse
  have hparsed : parsedLine line = parsedLine line' := congrArg ParsedEngineOutput.parsed hboth
  have hinput : line.inputTime.toNat * 1000 = line'.inputTime.toNat * 1000 :=
    congrArg ParsedEngineOutput.inputTimestamp hboth
  have houtput : outputTime.toNat * 1000 = outputTime'.toNat * 1000 :=
    congrArg ParsedEngineOutput.outputTimestamp hboth
  rcases hin with ⟨hin, _⟩
  rcases hin' with ⟨hin', _⟩
  rcases hout with ⟨hout, _⟩
  rcases hout' with ⟨hout', _⟩
  constructor
  · exact line_eq_of_parsedLine hparsed.symm (by omega)
  · omega

/-! ## The result -/

/-- The engines print the same line, the grader reads from it what was printed, with the times in
    nanoseconds, and no two lines look the same. -/
theorem printed_lines_parse (line : Line UInt32 Bytes) (outputTime : ℤ) (h : line.Printable)
    (hin : InRange line.inputTime) (hout : InRange outputTime) :
    Go.print line outputTime = some (Cpp.Output.print line outputTime) ∧
    parseEngineOutputLine (Cpp.Output.print line outputTime) =
      .ok { line := Cpp.Output.print line outputTime, parsed := parsedLine line
            inputTimestamp := line.inputTime.toNat * 1000
            outputTimestamp := outputTime.toNat * 1000 } ∧
    ∀ (line' : Line UInt32 Bytes) (outputTime' : ℤ), line'.Printable → InRange line'.inputTime →
      InRange outputTime' → Cpp.Output.print line' outputTime' = Cpp.Output.print line outputTime →
      line' = line ∧ outputTime' = outputTime := by
  refine ⟨?_, parse_print h hin hout, ?_⟩
  · rw [cpp_print_eq h]
    exact go_print_eq line outputTime
  · intro line' outputTime' h' hin' hout'
    exact print_injective h hin hout h' hin' hout'

/-- An order that was added. -/
theorem printed_lines_parse_added :
    Go.print (.added .sell 123 (ascii "GOOG") 2700 10 5) 7 =
        some (ascii "S 123 GOOG 2700 10 5 7\n") ∧
      parseEngineOutputLine (ascii "S 123 GOOG 2700 10 5 7\n") =
        .ok { line := ascii "S 123 GOOG 2700 10 5 7\n"
              parsed := .buySell .sell 123 (ascii "GOOG") 2700 10
              inputTimestamp := 5000
              outputTimestamp := 7000 } := by
  have hprintable : PrintableInstrument (ascii "GOOG") := by
    have hbytes : ascii "GOOG" = [71, 79, 79, 71] := rfl
    rw [hbytes]
    refine ⟨by decide, by decide, ?_⟩
    simp only [List.forall_mem_cons]
    exact ⟨by decide, by decide, by decide, by decide, by simp⟩
  have hprint : Cpp.Output.print (.added .sell 123 (ascii "GOOG") 2700 10 5) 7 =
      ascii "S 123 GOOG 2700 10 5 7\n" := by
    decide
  have hall := printed_lines_parse (.added .sell 123 (ascii "GOOG") 2700 10 5) 7 hprintable
    (by constructor <;> decide) (by constructor <;> decide)
  rw [hprint] at hall
  exact ⟨hall.1, hall.2.1⟩

end MatchingEngine
