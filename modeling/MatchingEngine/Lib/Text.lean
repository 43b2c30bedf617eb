import Mathlib.Data.List.TakeWhile
import Mathlib.Data.UInt
import Mathlib.Tactic.IntervalCases

/-!
# Decimal numbers and fields

Text as lists of bytes: numbers in decimal and the conversion back as `strtol` and `strtoul` do it, and
lines of fields with a separator between them, which `fields` takes apart again.
-/

namespace Text

abbrev Bytes := List UInt8

/-- The bytes of a text of ASCII characters. -/
def ascii (s : String) : Bytes := s.toList.map Char.toUInt8

/-! ## Numbers -/

def decimal (n : ℕ) : Bytes := (Nat.toDigits 10 n).map Char.toUInt8

def decimalInt : ℤ → Bytes
  | .ofNat n => decimal n
  | .negSucc n => 45 :: decimal (n + 1)

def isDigit (b : UInt8) : Bool := 48 ≤ b && b ≤ 57

/-- `isspace` in the C locale. -/
def isSpace (b : UInt8) : Bool := b == 32 || (9 ≤ b && b ≤ 13)

/-- The number that the digits write. -/
def valueOf (digits : Bytes) : ℕ := digits.foldl (fun acc b => 10 * acc + (b.toNat - 48)) 0

/-- What `strtol` and `strtoul` read: spaces, a sign, and digits up to the first other byte.  There is
    no number without digits. -/
def scanNumber (str : Bytes) : Option (Bool × ℕ) :=
  let str := str.dropWhile isSpace
  let negative := str.head? == some 45
  let str := if str.head? == some 45 || str.head? == some 43 then str.tail else str
  let digits := str.takeWhile isDigit
  if digits = [] then none else some (negative, valueOf digits)

theorem isDigit_iff {b : UInt8} : isDigit b = true ↔ 48 ≤ b.toNat ∧ b.toNat ≤ 57 := by
  unfold isDigit
  rw [Bool.and_eq_true, decide_eq_true_iff, decide_eq_true_iff, UInt8.le_iff_toNat_le,
    UInt8.le_iff_toNat_le]
  exact Iff.rfl

/-- A digit is neither a space nor a sign. -/
theorem not_special_of_digit {b : UInt8} (h : isDigit b = true) :
    isSpace b = false ∧ b ≠ 45 ∧ b ≠ 43 := by
  have hrange := isDigit_iff.mp h
  refine ⟨?_, ?_, ?_⟩
  · apply Bool.eq_false_iff.mpr
    intro hspace
    unfold isSpace at hspace
    rw [Bool.or_eq_true, Bool.and_eq_true, beq_iff_eq, decide_eq_true_iff, decide_eq_true_iff,
      UInt8.le_iff_toNat_le, UInt8.le_iff_toNat_le] at hspace
    rcases hspace with rfl | hspace
    · exact absurd hrange (by decide)
    · have hle : b.toNat ≤ 13 := hspace.2
      omega
  · rintro rfl
    exact absurd hrange (by decide)
  · rintro rfl
    exact absurd hrange (by decide)

theorem digitChar_toUInt8 {d : ℕ} (h : d < 10) :
    isDigit d.digitChar.toUInt8 = true ∧ d.digitChar.toUInt8.toNat - 48 = d := by
  interval_cases d <;> decide

theorem decimal_eq (n : ℕ) :
    decimal n =
      if n < 10 then [n.digitChar.toUInt8] else decimal (n / 10) ++ [(n % 10).digitChar.toUInt8] := by
  unfold decimal
  rw [Nat.toDigits_eq_if (by decide)]
  split
  · rfl
  · rw [List.map_append]
    rfl

theorem isDigit_decimal (n : ℕ) : ∀ b ∈ decimal n, isDigit b = true := by
  induction n using Nat.strong_induction_on with
  | _ n ih =>
    rw [decimal_eq]
    split
    next hlt =>
      intro b hb
      cases List.mem_singleton.mp hb
      exact (digitChar_toUInt8 hlt).1
    next hge =>
      intro b hb
      rcases List.mem_append.mp hb with hb | hb
      · exact ih (n / 10) (by omega) b hb
      · cases List.mem_singleton.mp hb
        exact (digitChar_toUInt8 (Nat.mod_lt n (by decide))).1

theorem decimal_ne_nil (n : ℕ) : decimal n ≠ [] := by
  unfold decimal
  intro heq
  exact Nat.toDigits_ne_nil (List.map_eq_nil_iff.mp heq)

@[simp] theorem valueOf_decimal (n : ℕ) : valueOf (decimal n) = n := by
  induction n using Nat.strong_induction_on with
  | _ n ih =>
    rw [decimal_eq]
    split
    next hlt =>
      unfold valueOf
      rw [List.foldl_cons, List.foldl_nil, (digitChar_toUInt8 hlt).2]
      omega
    next hge =>
      have hrest : valueOf (decimal (n / 10)) = n / 10 := ih (n / 10) (by omega)
      unfold valueOf at hrest ⊢
      rw [List.foldl_append, hrest, List.foldl_cons, List.foldl_nil,
        (digitChar_toUInt8 (Nat.mod_lt n (by decide))).2]
      omega

theorem decimal_injective {m n : ℕ} (h : decimal m = decimal n) : m = n := by
  have hvalue := congrArg valueOf h
  rwa [valueOf_decimal, valueOf_decimal] at hvalue

theorem decimalInt_of_nonneg {i : ℤ} (h : 0 ≤ i) : decimalInt i = decimal i.toNat := by
  cases i with
  | ofNat n => rfl
  | negSucc n => omega

/-- What follows the digits is not looked at. -/
theorem scanNumber_decimal (n : ℕ) {rest : Bytes} (h : ∀ b, rest.head? = some b → isDigit b = false) :
    scanNumber (decimal n ++ rest) = some (false, n) := by
  have hdigits := isDigit_decimal n
  have hne := decimal_ne_nil n
  have htake : (decimal n ++ rest).takeWhile isDigit = decimal n := by
    rw [List.takeWhile_append_of_pos hdigits]
    cases rest with
    | nil => exact List.append_nil _
    | cons b rest =>
      rw [List.takeWhile_cons_of_neg (Bool.eq_false_iff.mp (h b rfl))]
      exact List.append_nil _
  cases hd : decimal n with
  | nil => exact absurd hd hne
  | cons b bs =>
    have hb := hdigits b (by rw [hd]; exact List.mem_cons_self)
    rcases not_special_of_digit hb with ⟨hspace, hminus, hplus⟩
    have hdrop : (b :: bs ++ rest).dropWhile isSpace = b :: bs ++ rest :=
      List.dropWhile_cons_of_neg (Bool.eq_false_iff.mp hspace)
    have hvalue := valueOf_decimal n
    rw [hd] at htake hvalue
    unfold scanNumber
    dsimp only
    rw [hdrop, List.cons_append, List.head?_cons,
      beq_eq_false_iff_ne.mpr fun h => hminus (Option.some.inj h),
      beq_eq_false_iff_ne.mpr fun h => hplus (Option.some.inj h), Bool.or_self,
      if_neg Bool.false_ne_true, ← List.cons_append, htake, if_neg (List.cons_ne_nil b bs), hvalue]

/-! ## Fields -/

/-- The fields with a space between them. -/
def joinFields : List Bytes → Bytes
  | [] => []
  | [field] => field
  | field :: fields => field ++ 32 :: joinFields fields

end Text
