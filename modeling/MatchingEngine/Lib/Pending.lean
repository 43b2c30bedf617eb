import MatchingEngine.Lib.Token
import Mathlib.Data.List.Basic

/-!
# Work that is left to do in a list

The cells of a list hold values, and a party that goes through the list has work to do from the cell on
that it has come to.  `through` is what the list comes to when all of it is done, from the last cell to
the first: the parties do not overtake each other, so who is further down came first.  Work may be bound
to fail, for instance to find something that is not there; then the list comes to nothing.
-/

namespace Pending

section Through

variable {C O : Type} {run run' : C → List O → Option (List O)} {l m m' r cs : List C} {c : C}

/-- What a list comes to; `run c` puts what the cell `c` comes to in front of what stands behind it. -/
def through (run : C → List O → Option (List O)) (cs : List C) (x : Option (List O)) :
    Option (List O) :=
  cs.foldr (fun c x => x.bind (run c)) x

@[simp] theorem through_nil (x : Option (List O)) : through run [] x = x := rfl

@[simp] theorem through_cons (x : Option (List O)) :
    through run (c :: cs) x = (through run cs x).bind (run c) := rfl

theorem through_append (x : Option (List O)) :
    through run (l ++ r) x = through run l (through run r x) := List.foldr_append

/-- Nothing comes of what stands in front of nothing. -/
theorem through_none : through run cs none = none := by
  induction cs with
  | nil => rfl
  | cons c cs ih => rw [through_cons, ih, Option.bind_none]

theorem through_congr (h : ∀ c ∈ cs, run' c = run c) (x : Option (List O)) :
    through run' cs x = through run cs x := by
  induction cs with
  | nil => rfl
  | cons c cs ih =>
    rw [through_cons, through_cons, h c List.mem_cons_self,
      ih fun d hd => h d (List.mem_cons_of_mem c hd)]

/-- A part of the list may change as long as it comes to the same. -/
theorem through_replace (hl : ∀ c ∈ l, run' c = run c) (hr : ∀ c ∈ r, run' c = run c)
    (hm : ∀ os, through run r (some []) = some os →
      through run' m' (some os) = through run m (some os)) {os : List O}
    (h : through run (l ++ m ++ r) (some []) = some os) :
    through run' (l ++ m' ++ r) (some []) = some os := by
  rw [through_append, through_append] at h ⊢
  rw [through_congr hr, through_congr hl]
  cases hx : through run r (some []) with
  | some xs => rw [hm xs hx, ← hx, h]
  | none =>
    rw [hx, through_none, through_none] at h
    cases h

/-- Each part of a list that comes to something does. -/
theorem through_split {x : Option (List O)} {os : List O} (h : through run (l ++ r) x = some os) :
    ∃ ys, through run r x = some ys ∧ through run l (some ys) = some os := by
  rw [through_append] at h
  cases hx : through run r x with
  | some ys => exact ⟨ys, rfl, hx ▸ h⟩
  | none =>
    rw [hx, through_none] at h
    cases h

end Through

/-! ## The work at a cell -/

section WorkAt

variable {C W H : Type} {task task' : H → Option (C × W)} {c : C} {u : H} {w : W}

open Classical in
/-- Something with the property, if there is anything. -/
noncomputable def pick (p : W → Prop) : Option W := if h : ∃ w, p w then some h.choose else none

/-- The work that a party has at a cell. -/
noncomputable def workAt (task : H → Option (C × W)) (c : C) : Option W :=
  pick fun w => ∃ u, task u = some (c, w)

theorem workAt_none (h : ∀ u w, task u ≠ some (c, w)) : workAt task c = none := by
  unfold workAt pick
  rw [dif_neg]
  rintro ⟨w, u, hu⟩
  exact h u w hu

theorem workAt_some (hone : Exclusive fun u => (task u).map Prod.fst) (hu : task u = some (c, w)) :
    workAt task c = some w := by
  have h : ∃ w u, task u = some (c, w) := ⟨w, u, hu⟩
  unfold workAt pick
  rw [dif_pos h]
  obtain ⟨v, hv⟩ := h.choose_spec
  have hvu : v = u := by
    apply hone v u c
    · simp only [hv, Option.map_some]
    · simp only [hu, Option.map_some]
  rw [hvu, hu] at hv
  injection hv with hv
  rw [← (Prod.mk.inj hv).2]

theorem workAt_congr (h : ∀ u w, task' u = some (c, w) ↔ task u = some (c, w)) :
    workAt task' c = workAt task c := by
  have heq : (fun w => ∃ u, task' u = some (c, w)) = fun w => ∃ u, task u = some (c, w) := by
    funext w
    exact propext (exists_congr fun u => h u w)
  exact congrArg pick heq

end WorkAt

end Pending
