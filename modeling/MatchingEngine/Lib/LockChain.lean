import Mathlib

/-!
# Lists walked hand over hand

A singly linked list whose nodes carry mutexes.  `Linked` ties the list of addresses to the `next`
pointers.  `Holds` says which stretch of the list a thread has locked and what it knows about that
stretch and about the node after it; it survives whatever other threads lock, unlock and insert.
What follows the stretch follows each of its nodes (`Holds.next_of_mem`), so the thread that holds
the last locked node finds the node after it free: walks in one direction do not block each other
for good.
-/

set_option linter.unusedSectionVars false

namespace LockChain

variable {A K T : Type}

/-- The `next` pointers run through the list, and the last one is null. -/
def Linked (next : A → Option A) : List A → Prop
  | [] => True
  | a :: xs => next a = xs.head? ∧ Linked next xs

section Linked

variable {next next' : A → Option A} {a b : A} {l r xs : List A}

theorem Linked.next_eq (h : Linked next (l ++ a :: r)) : next a = r.head? := by
  induction l with
  | nil => exact h.1
  | cons x l ih => exact ih h.2

theorem Linked.congr (h : Linked next xs) (heq : ∀ a ∈ xs, next' a = next a) : Linked next' xs := by
  induction xs with
  | nil => trivial
  | cons a xs ih =>
    have hxs := ih h.2 fun b hb => heq b (List.mem_cons_of_mem _ hb)
    exact ⟨(heq a List.mem_cons_self).trans h.1, hxs⟩

/-- The first one and the links make up the list. -/
theorem Linked.unique {ys : List A} (h : Linked next xs) (h' : Linked next ys)
    (hhead : xs.head? = ys.head?) : xs = ys := by
  induction xs generalizing ys with
  | nil => exact (List.head?_eq_none_iff.mp hhead.symm).symm
  | cons a xs ih =>
    cases ys with
    | nil => cases hhead
    | cons b ys =>
      cases hhead
      rw [ih h.2 h'.2 (h.1.symm.trans h'.1)]

variable [DecidableEq A]

/-- A new node `b` is put behind `a`. -/
theorem Linked.insert (h : Linked next (l ++ a :: r)) (hnd : (l ++ a :: r).Nodup)
    (hb : b ∉ l ++ a :: r) :
    Linked (Function.update (Function.update next b (next a)) a (some b)) (l ++ a :: b :: r) := by
  have hne : ∀ x ∈ l ++ a :: r, x ≠ b := by
    rintro x hx rfl
    exact hb hx
  induction l with
  | nil =>
    rcases List.nodup_cons.mp hnd with ⟨ha, -⟩
    have hab := hne a List.mem_cons_self
    refine ⟨Function.update_self .., ?_, ?_⟩
    · rw [Function.update_of_ne hab.symm, Function.update_self]
      exact h.1
    · apply h.2.congr
      intro x hx
      rw [Function.update_of_ne (ne_of_mem_of_not_mem hx ha),
        Function.update_of_ne (hne x (List.mem_cons_of_mem _ hx))]
  | cons x l ih =>
    rcases List.nodup_cons.mp hnd with ⟨hx, hnd⟩
    have hxs := ih h.2 hnd (fun hm => hb (List.mem_cons_of_mem _ hm))
      fun y hy => hne y (List.mem_cons_of_mem _ hy)
    refine ⟨?_, hxs⟩
    have hxa : x ≠ a := by
      rintro rfl
      exact hx (List.mem_append_right _ List.mem_cons_self)
    rw [Function.update_of_ne hxa, Function.update_of_ne (hne x List.mem_cons_self), h.1]
    cases l <;> rfl

/-- The node behind `a` is taken out. -/
theorem Linked.unlink (h : Linked next (l ++ a :: b :: r)) (hnd : (l ++ a :: b :: r).Nodup) :
    Linked (Function.update next a (next b)) (l ++ a :: r) := by
  induction l with
  | nil =>
    rcases List.nodup_cons.mp hnd with ⟨ha, -⟩
    refine ⟨(Function.update_self ..).trans h.2.1, h.2.2.congr ?_⟩
    intro x hx
    rw [Function.update_of_ne (ne_of_mem_of_not_mem (List.mem_cons_of_mem b hx) ha)]
  | cons x l ih =>
    rcases List.nodup_cons.mp hnd with ⟨hx, hnd⟩
    have hxa : x ≠ a := by
      rintro rfl
      exact hx (List.mem_append_right _ List.mem_cons_self)
    refine ⟨?_, ih h.2 hnd⟩
    rw [Function.update_of_ne hxa, h.1]
    cases l <;> rfl

end Linked

/-- Thread `t` has locked the stretch `cells` of the list and nothing else of it, and `P` holds of
    the stretch and of the key of the node after it. -/
def Holds (owner : A → Option T) (key : A → K) (t : T) (xs : List A)
    (P : List A → Option K → Prop) : Prop :=
  ∃ l cells r, xs = l ++ cells ++ r ∧ (∀ a ∈ cells, owner a = some t) ∧
    (∀ a ∈ l ++ r, owner a ≠ some t) ∧ P cells (r.head?.map key)

section Holds

variable {owner : A → Option T} {key : A → K} {t : T} {xs : List A}
  {P P' : List A → Option K → Prop}

theorem Holds.imp (h : Holds owner key t xs P)
    (hP : ∀ cells nxt, (∀ a ∈ cells, a ∈ xs) → P cells nxt → P' cells nxt) :
    Holds owner key t xs P' := by
  rcases h with ⟨l, cells, r, rfl, hcells, hrest, hp⟩
  refine ⟨l, cells, r, rfl, hcells, hrest, hP _ _ ?_ hp⟩
  intro a ha
  exact List.mem_append_left _ (List.mem_append_right _ ha)

theorem head?_key_append {m m' r : List A} (h : m'.head?.map key = m.head?.map key) :
    (m' ++ r).head?.map key = (m ++ r).head?.map key := by
  cases m with
  | nil =>
    cases m' with
    | nil => rfl
    | cons a' m' => cases h
  | cons a m =>
    cases m' with
    | nil => cases h
    | cons a' m' => exact h

/-- Other threads may change the nodes of a stretch that `t` has nothing of, and put new ones among
    them but not in front. -/
theorem Holds.replace {l m m' r : List A} (h : Holds owner key t (l ++ m ++ r) P)
    (hm : ∀ a ∈ m, owner a ≠ some t) (hm' : ∀ a ∈ m', owner a ≠ some t)
    (hhead : m'.head?.map key = m.head?.map key) (hkeys : ∀ a ∈ m, ∃ a' ∈ m', key a' = key a) :
    Holds owner key t (l ++ m' ++ r) P := by
  rcases h with ⟨l₂, cells, r₂, heq, hcells, hrest, hp⟩
  have hfree : ∀ l₁ r₁ : List A, (∀ a ∈ l₁ ++ r₁, a ∈ m' ∨ a ∈ l₂ ++ r₂) →
      ∀ a ∈ l₁ ++ r₁, owner a ≠ some t := by
    intro l₁ r₁ hsub a ha
    rcases hsub a ha with ha | ha
    · exact hm' a ha
    · exact hrest a ha
  rcases List.append_eq_append_iff.mp heq with ⟨k, hk, rfl⟩ | ⟨k, hk, rfl⟩
  · rcases List.append_eq_append_iff.mp hk with ⟨k', hk', rfl⟩ | ⟨k', rfl, rfl⟩
    · rcases List.eq_nil_or_concat' k' with rfl | ⟨k'', a, rfl⟩
      · rw [List.append_nil] at hk'
        subst hk'
        refine ⟨l ++ m', k, r₂, by simp, by simpa using hcells, hfree _ _ ?_, by simpa using hp⟩
        intro a ha
        simp only [List.mem_append] at ha ⊢
        tauto
      · rcases List.eq_nil_or_concat' m with rfl | ⟨m₀, b, rfl⟩
        · -- nothing is changed
          cases m' with
          | cons a' m' => cases hhead
          | nil =>
            rw [List.append_nil] at hk' ⊢
            subst hk'
            exact ⟨l₂, _, r₂, by simp, hcells, hrest, hp⟩
        · rw [← List.append_assoc, ← List.append_assoc] at hk'
          rcases List.append_inj' hk' rfl with ⟨-, hab⟩
          cases hab
          exact absurd (hcells a (by simp)) (hm a (by simp))
    · -- `m` stands before the stretch of `t`
      refine ⟨l ++ m' ++ k', cells, r₂, by simp, hcells, hfree _ _ ?_, hp⟩
      intro a ha
      simp only [List.mem_append] at ha ⊢
      tauto
  · rcases List.append_eq_append_iff.mp hk with ⟨k', hk', rfl⟩ | ⟨k', rfl, rfl⟩
    · -- the stretch of `t` ends within `m`, so it is empty unless it ends where `m` starts
      rcases List.eq_nil_or_concat' k' with rfl | ⟨k'', a, rfl⟩
      · rw [List.append_nil] at hk'
        subst hk'
        refine ⟨l₂, cells, m' ++ r, by simp, hcells, hfree _ _ ?_, ?_⟩
        · intro a ha
          simp only [List.mem_append] at ha ⊢
          tauto
        · rw [head?_key_append hhead]
          exact hp
      · rcases List.eq_nil_or_concat' cells with rfl | ⟨cells, b, rfl⟩
        · rw [List.append_nil] at hk'
          subst hk'
          cases k with
          | nil =>
            refine ⟨l ++ m', [], r, by simp, by simp, hfree _ _ ?_, hp⟩
            intro a ha
            simp only [List.mem_append] at ha ⊢
            tauto
          | cons b k =>
            rcases hkeys b (by simp) with ⟨b', hb', hkey⟩
            rcases List.append_of_mem hb' with ⟨m₁, m₂, rfl⟩
            refine ⟨l ++ m₁, [], b' :: m₂ ++ r, by simp, by simp, hfree _ _ ?_, ?_⟩
            · intro a ha
              simp only [List.mem_append, List.mem_cons] at ha ⊢
              tauto
            · simpa [hkey] using hp
        · rw [← List.append_assoc, ← List.append_assoc] at hk'
          rcases List.append_inj' hk' rfl with ⟨-, hab⟩
          cases hab
          exact absurd (hcells a (by simp)) (hm a (by simp))
    · -- `m` stands behind the stretch of `t`
      refine ⟨l₂, cells, k' ++ m' ++ r, by simp, hcells, hfree _ _ ?_, ?_⟩
      · intro a ha
        simp only [List.mem_append] at ha ⊢
        tauto
      · cases k' with
        | nil =>
          rw [List.nil_append, head?_key_append hhead]
          exact hp
        | cons a k' => exact hp

/-- What follows the stretch of the thread that holds `a` also follows `a`. -/
theorem Holds.next_of_mem {l r : List A} {a : A} (h : Holds owner key t (l ++ a :: r) P)
    (ha : owner a = some t) :
    ∃ cells nxt, a ∈ cells ∧ P cells nxt ∧ ∀ k, nxt = some k → ∃ b ∈ r, key b = k := by
  rcases h with ⟨l', cells, r', heq, hcells, hrest, hp⟩
  have hmem : a ∈ cells := by
    have ha' : a ∈ l' ++ cells ++ r' := heq ▸ List.mem_append_right _ List.mem_cons_self
    simp only [List.mem_append] at ha' hrest
    rcases ha' with (ha' | ha') | ha'
    · exact absurd ha (hrest a (Or.inl ha'))
    · exact ha'
    · exact absurd ha (hrest a (Or.inr ha'))
  refine ⟨cells, r'.head?.map key, hmem, hp, ?_⟩
  intro k hk
  rcases Option.map_eq_some_iff.mp hk with ⟨b, hb, rfl⟩
  -- what follows the stretch also follows `a`
  have hsuffix : r' <:+ r := by
    have h1 : a :: r <:+ l ++ a :: r := List.suffix_append ..
    have h2 : r' <:+ l ++ a :: r := heq ▸ List.suffix_append ..
    have hnot : ∀ x ∈ r', owner x ≠ some t := fun x hx => hrest x (List.mem_append_right _ hx)
    rcases List.suffix_or_suffix_of_suffix h1 h2 with h | h
    · exact absurd ha (hnot a (h.subset List.mem_cons_self))
    · rcases List.suffix_cons_iff.mp h with rfl | h
      · exact absurd ha (hnot a List.mem_cons_self)
      · exact h
  exact ⟨b, hsuffix.subset (List.mem_of_mem_head? hb), rfl⟩

end Holds

/-- A list with a locked node has a last locked node. -/
theorem exists_last_locked {owner : A → Option T} {xs : List A} (h : ∃ a ∈ xs, owner a ≠ none) :
    ∃ l a r t, xs = l ++ a :: r ∧ owner a = some t ∧ ∀ b ∈ r, owner b = none := by
  induction xs with
  | nil =>
    rcases h with ⟨a, ha, -⟩
    cases ha
  | cons x xs ih =>
    by_cases hxs : ∃ a ∈ xs, owner a ≠ none
    · rcases ih hxs with ⟨l, a, r, t, rfl, ha, hr⟩
      exact ⟨x :: l, a, r, t, rfl, ha, hr⟩
    · have hfree : ∀ b ∈ xs, owner b = none := by
        intro b hb
        by_contra hne
        exact hxs ⟨b, hb, hne⟩
      rcases h with ⟨a, ha, hne⟩
      rcases List.mem_cons.mp ha with rfl | ha
      · rcases Option.ne_none_iff_exists'.mp hne with ⟨t, ht⟩
        exact ⟨[], a, xs, t, rfl, ht, hfree⟩
      · exact absurd (hfree a ha) hne

end LockChain
