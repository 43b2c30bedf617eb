import Mathlib.Data.List.Nodup
import Mathlib.Logic.Basic

/-!
# Serial runs

Calls of several parties in one order.  `serve` makes them on a machine one after the other and keeps
the result of each with its call; `share` is the part of one party.
-/

namespace Serial

variable {T C R E S X Y : Type}

def serve (exec : E → C → E × R) : E → List (T × C) → E × List (T × C × R)
  | e, [] => (e, [])
  | e, c :: cs =>
    let r := exec e c.2
    let rest := serve exec r.1 cs
    (rest.1, (c.1, c.2, r.2) :: rest.2)

section Serve

variable (exec : E → C → E × R)

theorem serve_append (e : E) (cs ds : List (T × C)) :
    serve exec e (cs ++ ds) =
      ((serve exec (serve exec e cs).1 ds).1,
        (serve exec e cs).2 ++ (serve exec (serve exec e cs).1 ds).2) := by
  induction cs generalizing e with
  | nil => rfl
  | cons c cs ih =>
    rw [List.cons_append, serve, ih]
    rfl

/-- The calls stand beside their results as they were made. -/
theorem map_serve (e : E) (cs : List (T × C)) :
    (serve exec e cs).2.map (fun x => (x.1, x.2.1)) = cs := by
  induction cs generalizing e with
  | nil => rfl
  | cons c cs ih =>
    rw [serve, List.map_cons, ih]

end Serve

section Share

variable [DecidableEq T]

def share (t : T) (l : List (T × X)) : List X :=
  l.filterMap fun x => if x.1 = t then some x.2 else none

variable {t u : T}

theorem share_append (t : T) (l l' : List (T × X)) : share t (l ++ l') = share t l ++ share t l' :=
  List.filterMap_append

theorem share_cons_self (t : T) (x : X) (l : List (T × X)) :
    share t ((t, x) :: l) = x :: share t l := by
  unfold share
  rw [List.filterMap_cons, if_pos rfl]

theorem share_cons_of_ne (h : u ≠ t) (x : X) (l : List (T × X)) :
    share t ((u, x) :: l) = share t l := by
  unfold share
  rw [List.filterMap_cons, if_neg h]

theorem mem_share {x : X} {l : List (T × X)} : x ∈ share t l ↔ (t, x) ∈ l := by
  induction l with
  | nil => exact iff_of_false List.not_mem_nil List.not_mem_nil
  | cons y l ih =>
    rcases y with ⟨u, y⟩
    by_cases hu : u = t
    · subst hu
      rw [share_cons_self, List.mem_cons, List.mem_cons, ih, Prod.mk.injEq, eq_self_iff_true, true_and]
    · rw [share_cons_of_ne hu, List.mem_cons, ih, Prod.mk.injEq]
      exact ⟨Or.inr, fun h => h.resolve_left fun heq => hu heq.1.symm⟩

theorem share_map (t : T) (f : X → Y) (l : List (T × X)) :
    share t (l.map fun x => (x.1, f x.2)) = (share t l).map f := by
  induction l with
  | nil => rfl
  | cons y l ih =>
    rcases y with ⟨u, y⟩
    rw [List.map_cons]
    by_cases hu : u = t
    · subst hu
      rw [share_cons_self, share_cons_self, List.map_cons, ih]
    · rw [share_cons_of_ne hu, share_cons_of_ne hu, ih]

/-- What only one party changes is what its own calls make of it. -/
theorem foldl_share {f : S → X → S} {l : List (T × X)} (h : ∀ x ∈ l, x.1 ≠ t → ∀ s, f s x.2 = s)
    (s : S) : (l.map Prod.snd).foldl f s = (share t l).foldl f s := by
  induction l generalizing s with
  | nil => rfl
  | cons y l ih =>
    rcases y with ⟨u, y⟩
    have ih' := ih (fun x hx => h x (List.mem_cons_of_mem _ hx))
    rw [List.map_cons, List.foldl_cons]
    by_cases hu : u = t
    · subst hu
      rw [share_cons_self, List.foldl_cons, ih']
    · rw [share_cons_of_ne hu, h (u, y) List.mem_cons_self hu, ih']

/-- Labels that no party uses twice and no two parties share. -/
theorem nodup_labels {f : X → Option Y} {l : List (T × X)}
    (hnodup : ∀ t, ((share t l).filterMap f).Nodup)
    (hapart : ∀ t u, t ≠ u → ∀ y ∈ (share t l).filterMap f, y ∉ (share u l).filterMap f) :
    ((l.map Prod.snd).filterMap f).Nodup := by
  induction l with
  | nil => exact List.nodup_nil
  | cons z l ih =>
    rcases z with ⟨t, x⟩
    have hsub : ∀ u, (share u l).Sublist (share u ((t, x) :: l)) := fun u =>
      (List.sublist_cons_self (t, x) l).filterMap _
    have hrest : ((l.map Prod.snd).filterMap f).Nodup := by
      apply ih
      · exact fun u => (hnodup u).sublist ((hsub u).filterMap f)
      · intro u w huw y hy hy'
        exact hapart u w huw y (((hsub u).filterMap f).subset hy) (((hsub w).filterMap f).subset hy')
    rw [List.map_cons, List.filterMap_cons]
    cases hf : f x with
    | none => exact hrest
    | some y =>
      refine List.nodup_cons.mpr ⟨?_, hrest⟩
      intro hmem
      have hhead : y ∈ (share t ((t, x) :: l)).filterMap f := by
        rw [share_cons_self, List.filterMap_cons, hf]
        exact List.mem_cons_self
      rcases List.mem_filterMap.mp hmem with ⟨x', hx', hfx⟩
      rcases List.mem_map.mp hx' with ⟨⟨u, z⟩, hz, rfl⟩
      have hlater : y ∈ (share u l).filterMap f := List.mem_filterMap.mpr ⟨z, mem_share.mpr hz, hfx⟩
      by_cases hu : u = t
      · subst hu
        have hself := hnodup u
        rw [share_cons_self, List.filterMap_cons, hf] at hself
        exact (List.nodup_cons.mp hself).1 hlater
      · exact hapart t u (fun h => hu h.symm) y hhead (((hsub u).filterMap f).subset hlater)

end Share

end Serial
