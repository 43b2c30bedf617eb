import Mathlib.Data.List.TakeWhile
import Mathlib.Data.List.Nodup

/-!
# Sorted multisets

The elements in the order of a strict weak order `lt`, equivalent ones in the order in which they came,
with the ranges that `upper_bound` and `lower_bound` delimit.
-/

namespace SortedMultiset

variable {α : Type} {lt lt' : α → α → Bool} {x a : α} {l : List α}

structure StrictWeak (lt : α → α → Bool) : Prop where
  irrefl : ∀ a, lt a a = false
  trans : ∀ {a b c}, lt a b = true → lt b c = true → lt a c = true
  weak : ∀ {a c} b, lt a c = true → lt a b = true ∨ lt b c = true

/-- Nothing stands behind what it comes before. -/
def Sorted (lt : α → α → Bool) (l : List α) : Prop := l.Pairwise fun a b => lt b a = false

/-- A new element goes behind those equivalent to it. -/
def insert (lt : α → α → Bool) (x : α) : List α → List α
  | [] => [x]
  | a :: l => if lt x a then x :: a :: l else a :: insert lt x l

/-- From `begin()` to `upper_bound(x)`. -/
def upTo (lt : α → α → Bool) (x : α) (l : List α) : List α := l.takeWhile fun a => !lt x a

/-- From `lower_bound(x)` to `upper_bound(x)`. -/
def equalRange (lt : α → α → Bool) (x : α) (l : List α) : List α :=
  upTo lt x (l.dropWhile fun a => lt a x)

theorem perm_insert (lt : α → α → Bool) (x : α) (l : List α) : (insert lt x l).Perm (x :: l) := by
  induction l with
  | nil => rfl
  | cons a l ih =>
    unfold insert
    split
    · rfl
    · exact (ih.cons a).trans (List.Perm.swap x a l)

@[simp] theorem mem_insert : a ∈ insert lt x l ↔ a = x ∨ a ∈ l := by
  rw [(perm_insert lt x l).mem_iff, List.mem_cons]

theorem StrictWeak.asymm (h : StrictWeak lt) {b : α} (hlt : lt a b = true) : lt b a = false := by
  cases hba : lt b a with
  | false => rfl
  | true =>
    have haa := h.trans hlt hba
    rw [h.irrefl] at haa
    cases haa

theorem Sorted.insert (hl : Sorted lt l) (h : StrictWeak lt) (x : α) :
    Sorted lt (SortedMultiset.insert lt x l) := by
  induction l with
  | nil => exact List.pairwise_singleton _ x
  | cons a l ih =>
    rcases List.pairwise_cons.mp hl with ⟨ha, hl⟩
    unfold SortedMultiset.insert
    split
    next hxa =>
      refine List.pairwise_cons.mpr ⟨?_, List.pairwise_cons.mpr ⟨ha, hl⟩⟩
      intro b hb
      rcases List.mem_cons.mp hb with rfl | hb
      · exact h.asymm hxa
      · cases hbx : lt b x with
        | false => rfl
        | true =>
          have hba := h.trans hbx hxa
          rw [ha b hb] at hba
          cases hba
    next hxa =>
      refine List.pairwise_cons.mpr ⟨?_, ih hl⟩
      intro b hb
      rcases mem_insert.mp hb with rfl | hb
      · exact Bool.eq_false_iff.mpr hxa
      · exact ha b hb

theorem Sorted.mem_upTo (hl : Sorted lt l) (h : StrictWeak lt) :
    a ∈ upTo lt x l ↔ a ∈ l ∧ lt x a = false := by
  induction l with
  | nil => simp [upTo]
  | cons b l ih =>
    rcases List.pairwise_cons.mp hl with ⟨hb, hl⟩
    unfold upTo
    rw [List.takeWhile_cons]
    split
    next hxb =>
      rw [List.mem_cons, List.mem_cons]
      have hih := ih hl
      unfold upTo at hih
      rw [hih]
      constructor
      · rintro (rfl | ⟨ha, hxa⟩)
        · exact ⟨Or.inl rfl, by simpa using hxb⟩
        · exact ⟨Or.inr ha, hxa⟩
      · rintro ⟨rfl | ha, hxa⟩
        · exact Or.inl rfl
        · exact Or.inr ⟨ha, hxa⟩
    next hxb =>
      -- what stands behind `b` is behind `x` as well
      have hxb' : lt x b = true := by simpa using hxb
      constructor
      · rintro ⟨⟩
      · rintro ⟨ha, hxa⟩
        rcases List.mem_cons.mp ha with rfl | ha
        · rw [hxb'] at hxa
          cases hxa
        · rcases h.weak a hxb' with hlt | hlt
          · rw [hxa] at hlt
            cases hlt
          · rw [hb a ha] at hlt
            cases hlt

theorem Sorted.mem_dropWhile (hl : Sorted lt l) (h : StrictWeak lt) :
    a ∈ l.dropWhile (fun b => lt b x) ↔ a ∈ l ∧ lt a x = false := by
  induction l with
  | nil => simp
  | cons b l ih =>
    rcases List.pairwise_cons.mp hl with ⟨hb, hl⟩
    rw [List.dropWhile_cons]
    split
    next hbx =>
      rw [ih hl, List.mem_cons]
      constructor
      · rintro ⟨ha, hax⟩
        exact ⟨Or.inr ha, hax⟩
      · rintro ⟨rfl | ha, hax⟩
        · rw [hbx] at hax
          cases hax
        · exact ⟨ha, hax⟩
    next hbx =>
      refine ⟨fun ha => ⟨ha, ?_⟩, fun ha => ha.1⟩
      rcases List.mem_cons.mp ha with rfl | ha
      · exact Bool.eq_false_iff.mpr hbx
      · cases hax : lt a x with
        | false => rfl
        | true =>
          rcases h.weak b hax with hlt | hlt
          · rw [hb a ha] at hlt
            cases hlt
          · exact absurd hlt hbx

theorem Sorted.mem_equalRange (hl : Sorted lt l) (h : StrictWeak lt) :
    a ∈ equalRange lt x l ↔ (a ∈ l ∧ lt a x = false) ∧ lt x a = false := by
  unfold equalRange
  have hdrop : Sorted lt (l.dropWhile fun b => lt b x) :=
    List.Pairwise.sublist (List.dropWhile_sublist _) hl
  rw [hdrop.mem_upTo h, hl.mem_dropWhile h]

/-- The order matters among the elements only. -/
theorem Sorted.congr (hl : Sorted lt l) (h : ∀ a ∈ l, ∀ b ∈ l, lt' a b = lt a b) : Sorted lt' l := by
  refine List.Pairwise.imp_of_mem ?_ hl
  intro a b ha hb hab
  rw [h b hb a ha, hab]

end SortedMultiset
