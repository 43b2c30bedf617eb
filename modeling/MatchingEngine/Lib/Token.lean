import Mathlib.Logic.Function.Basic

/-!
# Channels of capacity one as tokens

A buffered channel with room for one message is a token: whoever has sent the message has the token
until it is received.  The channel does not know who that is.  `Token` says that the channel is full
exactly while somebody has the token, and that only one has it.
-/

/-- The channel is full if and only if it is held, and no two hold it. -/
structure Token {H : Type} (full : Bool) (held : H → Prop) : Prop where
  full_iff : full = true ↔ ∃ t, held t
  unique : ∀ t u, held t → held u → t = u

namespace Token

variable {H : Type} {full : Bool} {held held' : H → Prop} {t : H}

theorem full_of (h : Token full held) (ht : held t) : full = true :=
  h.full_iff.mpr ⟨t, ht⟩

theorem exists_of_full (h : Token true held) : ∃ t, held t :=
  h.full_iff.mp rfl

theorem not_held (h : Token false held) (t : H) : ¬ held t := by
  intro ht
  have hfull := h.full_of ht
  cases hfull

theorem empty (h : ∀ t, ¬ held t) : Token false held where
  full_iff := by
    constructor
    · intro hfull
      cases hfull
    · intro hex
      rcases hex with ⟨t, ht⟩
      exact absurd ht (h t)
  unique := fun t _ ht => absurd ht (h t)

/-- Nobody gets the token and nobody loses it. -/
theorem congr (h : Token full held) (heq : ∀ u, held' u ↔ held u) : Token full held' where
  full_iff := by
    rw [h.full_iff]
    exact exists_congr fun u => (heq u).symm
  unique := fun t u ht hu => h.unique t u ((heq t).mp ht) ((heq u).mp hu)

/-- `ch <- struct{}{}` by `t`, which needs the channel empty. -/
theorem send (h : Token false held) (ht : held' t) (hother : ∀ u, u ≠ t → (held' u ↔ held u)) :
    Token true held' where
  full_iff := ⟨fun _ => ⟨t, ht⟩, fun _ => rfl⟩
  unique := by
    have hself : ∀ u, held' u → u = t := by
      intro u hu
      by_cases hut : u = t
      · exact hut
      · exact absurd ((hother u hut).mp hu) (h.not_held u)
    intro u v hu hv
    rw [hself u hu, hself v hv]

/-- `<-ch` by the one that has the token. -/
theorem receive (h : Token full held) (ht : held t) (ht' : ¬ held' t)
    (hother : ∀ u, u ≠ t → (held' u ↔ held u)) : Token false held' := by
  apply empty
  intro u hu
  by_cases hut : u = t
  · subst hut
    exact ht' hu
  · exact hut (h.unique u t ((hother u hut).mp hu) ht)

/-- What one operation does to the channel and to who has the token. -/
inductive Pass [DecidableEq H] (full : Bool) (has : H → Bool) : Bool → (H → Bool) → Prop
  | still : Pass full has full has
  | send (t : H) (hempty : full = false) : Pass full has true (Function.update has t true)
  | receive (t : H) (ht : has t = true) : Pass full has false (Function.update has t false)

theorem pass [DecidableEq H] {full' : Bool} {has has' : H → Bool}
    (h : Token full fun t => has t = true) (hp : Pass full has full' has') :
    Token full' fun t => has' t = true := by
  have hother : ∀ t x u, u ≠ t → (Function.update has t x u = true ↔ has u = true) := by
    intro t x u hu
    rw [Function.update_of_ne hu]
  cases hp with
  | still => exact h
  | send t hempty =>
    subst hempty
    exact h.send (Function.update_self ..) (hother t true)
  | receive t ht =>
    refine h.receive ht ?_ (hother t false)
    rw [Function.update_self]
    exact Bool.false_ne_true

end Token

/-- No two have the same thing. -/
def Exclusive {H C : Type} (has : H → Option C) : Prop :=
  ∀ t u c, has t = some c → has u = some c → t = u

namespace Exclusive

variable {H C : Type} {has : H → Option C} [DecidableEq H]

/-- One gets what nobody else has. -/
theorem update (h : Exclusive has) {t : H} {c : C} (hc : ∀ u, has u = some c → u = t) :
    Exclusive (Function.update has t (some c)) := by
  intro u v d hu hv
  by_cases hut : u = t
  · subst hut
    rw [Function.update_self] at hu
    cases hu
    by_contra hne
    rw [Function.update_of_ne (Ne.symm hne)] at hv
    exact hne (hc v hv).symm
  · rw [Function.update_of_ne hut] at hu
    by_cases hvt : v = t
    · subst hvt
      rw [Function.update_self] at hv
      cases hv
      exact hc u hu
    · rw [Function.update_of_ne hvt] at hv
      exact h u v d hu hv

/-- One gives up what it has. -/
theorem update_none (h : Exclusive has) (t : H) : Exclusive (Function.update has t none) := by
  intro u v d hu hv
  have hut : u ≠ t := by
    rintro rfl
    rw [Function.update_self] at hu
    cases hu
  have hvt : v ≠ t := by
    rintro rfl
    rw [Function.update_self] at hv
    cases hv
  rw [Function.update_of_ne hut] at hu
  rw [Function.update_of_ne hvt] at hv
  exact h u v d hu hv

end Exclusive
