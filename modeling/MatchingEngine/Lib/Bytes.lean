import Mathlib.Data.List.Basic
import Mathlib.Data.UInt

/-!
# Bytes in blocks

Little-endian words, and streams that are cut into pieces: pieces that are no longer than a block are
as many as the blocks only if they are the blocks.
-/

namespace Bytes

/-- The bytes of a word, the lowest first. -/
def leBytes (w : UInt32) : List UInt8 :=
  [UInt8.ofNat w.toNat, UInt8.ofNat (w.toNat / 256), UInt8.ofNat (w.toNat / 256 ^ 2),
    UInt8.ofNat (w.toNat / 256 ^ 3)]

/-- The word that the first four bytes are. -/
def leWord : List UInt8 → UInt32
  | b₀ :: b₁ :: b₂ :: b₃ :: _ =>
    UInt32.ofNat (b₀.toNat + 256 * b₁.toNat + 256 ^ 2 * b₂.toNat + 256 ^ 3 * b₃.toNat)
  | _ => 0

@[simp] theorem length_leBytes (w : UInt32) : (leBytes w).length = 4 := rfl

@[simp] theorem leWord_leBytes (w : UInt32) (rest : List UInt8) : leWord (leBytes w ++ rest) = w := by
  apply UInt32.toNat.inj
  have hlt := w.toNat_lt
  simp only [leBytes, List.cons_append, List.nil_append, leWord, UInt8.toNat_ofNat',
    UInt32.toNat_ofNat']
  omega

/-! ## Blocks -/

variable {α : Type} {n : ℕ} {xs ys : List (List α)}

theorem length_flatten_of_blocks (h : ∀ x ∈ xs, x.length = n) : xs.flatten.length = n * xs.length := by
  induction xs with
  | nil => rfl
  | cons x xs ih =>
    have hx := h x List.mem_cons_self
    have hrest := ih fun y hy => h y (List.mem_cons_of_mem _ hy)
    rw [List.flatten_cons, List.length_append, hx, hrest, List.length_cons, Nat.mul_succ]
    exact Nat.add_comm ..

/-- A stream is cut into blocks of one length in one way. -/
theorem eq_of_flatten_eq (hx : ∀ x ∈ xs, x.length = n) (hy : ∀ y ∈ ys, y.length = n) (hn : 0 < n)
    (h : xs.flatten = ys.flatten) : xs = ys := by
  induction xs generalizing ys with
  | nil =>
    cases ys with
    | nil => rfl
    | cons y ys =>
      have hlen := congrArg List.length h
      have hy0 := hy y List.mem_cons_self
      rw [List.flatten_cons, List.length_append, hy0, List.flatten_nil, List.length_nil] at hlen
      omega
  | cons x xs ih =>
    have hx0 := hx x List.mem_cons_self
    cases ys with
    | nil =>
      have hlen := congrArg List.length h
      rw [List.flatten_cons, List.length_append, hx0, List.flatten_nil, List.length_nil] at hlen
      omega
    | cons y ys =>
      rw [List.flatten_cons, List.flatten_cons] at h
      have hxy := List.append_inj h (hx0.trans (hy y List.mem_cons_self).symm)
      rw [hxy.1, ih (fun z hz => hx z (List.mem_cons_of_mem _ hz))
        (fun z hz => hy z (List.mem_cons_of_mem _ hz)) hxy.2]

theorem length_flatten_le (h : ∀ x ∈ xs, x.length ≤ n) : xs.flatten.length ≤ n * xs.length := by
  induction xs with
  | nil => exact Nat.zero_le _
  | cons x xs ih =>
    have hx := h x List.mem_cons_self
    have hrest := ih fun y hy => h y (List.mem_cons_of_mem _ hy)
    rw [List.flatten_cons, List.length_append, List.length_cons, Nat.mul_succ]
    omega

/-- Pieces that are no longer than a block are at least as many as the blocks. -/
theorem blocks_le_pieces (h : ∀ x ∈ xs, x.length ≤ n) (hn : 0 < n) {m : ℕ}
    (hm : xs.flatten.length = n * m) : m ≤ xs.length := by
  have hle := length_flatten_le h
  rw [hm] at hle
  exact Nat.le_of_mul_le_mul_left hle hn

/-- If they are no more than the blocks, each of them has the length of a block. -/
theorem length_eq_of_pieces (h : ∀ x ∈ xs, x.length ≤ n)
    (hm : xs.flatten.length = n * xs.length) : ∀ x ∈ xs, x.length = n := by
  induction xs with
  | nil => exact fun _ hx => by cases hx
  | cons y ys ih =>
    have hy := h y List.mem_cons_self
    have hys := fun z hz => h z (List.mem_cons_of_mem y hz)
    have hrest := length_flatten_le hys
    rw [List.flatten_cons, List.length_append, List.length_cons, Nat.mul_succ] at hm
    intro x hx
    rcases List.mem_cons.mp hx with rfl | hx
    · omega
    · exact ih hys (by omega) x hx

end Bytes
