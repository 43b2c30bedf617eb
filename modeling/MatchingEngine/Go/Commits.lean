import MatchingEngine.Go.Passing

/-!
# The order in which the commands of a connection take effect

A command waits in the channel of its book and then in a goroutine of its own; nothing keeps the next
command of the connection from being faster.  Where none is, they take effect in the order in which they
were sent.
-/

set_option linter.unusedSectionVars false

namespace MatchingEngine.Go

variable {N I T : Type} [Quantity N] [DecidableEq I] [DecidableEq T]

/-- Both came over one connection, the first one earlier. -/
def Cause.Before (c c' : Cause N I T) : Prop := c.conn = c'.conn ∧ c.index < c'.index

instance decidableBefore (c c' : Cause N I T) : Decidable (c.Before c') :=
  inferInstanceAs (Decidable (_ ∧ _))

/-- It is the command that its connection sends at its index. -/
def Cause.Sent (cmds : T → List (Command N I)) (c : Cause N I T) : Prop :=
  (cmds c.conn)[c.index]? = some c.command

/-- Of two commands that were sent on one connection the earlier one has taken effect when the later one
    does. -/
def InOrder (cmds : T → List (Command N I)) (es : List (Cause N I T)) : Prop :=
  ∀ es₁ c es₂, es = es₁ ++ c :: es₂ → ∀ c', c'.Sent cmds → c'.Before c → c' ∈ es₁

theorem inOrder_append {cmds : T → List (Command N I)} {es : List (Cause N I T)} {c : Cause N I T}
    (h : InOrder cmds es) (hc : ∀ c', c'.Sent cmds → c'.Before c → c' ∈ es) :
    InOrder cmds (es ++ [c]) := by
  intro es₁ d es₂ heq c' hsent hbefore
  rcases List.eq_nil_or_concat es₂ with rfl | ⟨es₃, e, rfl⟩
  · obtain ⟨rfl, hd⟩ := List.append_inj' heq rfl
    cases hd
    exact hc c' hsent hbefore
  · rw [List.concat_eq_append, ← List.cons_append, ← List.append_assoc] at heq
    obtain ⟨rfl, -⟩ := List.append_inj' heq rfl
    exact h es₁ d es₃ rfl c' hsent hbefore

namespace Sys

variable {s s' : Sys N I T} {t : T} {g : ℕ} {r : Routine N I T} {b : OrderBookPtr} {a : Actor T}
  {c c' : Cause N I T}

/-- No command that was sent before `c` on its connection is in the channel of a book, or with a
    goroutine in which it has not taken effect. -/
structure Clear (s : Sys N I T) (c : Cause N I T) : Prop where
  queue : ∀ b < s.nextBook, ∀ event ∈ (s.book b).ordersChn, ¬ event.cause.Before c
  routine : ∀ g < s.nextRoutine, ∀ r ∈ s.routine g, r.pc.phase ≠ .over → ¬ r.cause.Before c

instance decidableClear (s : Sys N I T) (c : Cause N I T) : Decidable (s.Clear c) :=
  decidable_of_iff
    ((∀ b < s.nextBook, ∀ event ∈ (s.book b).ordersChn, ¬ event.cause.Before c) ∧
      ∀ g < s.nextRoutine, ∀ r ∈ s.routine g, r.pc.phase ≠ .over → ¬ r.cause.Before c)
    ⟨fun h => ⟨h.1, h.2⟩, fun h => ⟨h.queue, h.routine⟩⟩

/-- Where the step takes the first lock of a book for a command, or rejects it at once, none that was
    sent before it is still on its way. -/
def Waits (s : Sys N I T) (a : Actor T) : Prop := ∀ c ∈ s.enters a, s.Clear c

instance decidableWaits (s : Sys N I T) (a : Actor T) : Decidable (s.Waits a) :=
  inferInstanceAs (Decidable (∀ c ∈ s.enters a, s.Clear c))

/-- The states that are reached by steps of which each meets `P`, with the commands in the order in which
    they take effect. -/
inductive Commits (P : Sys N I T → Actor T → Prop) (cmds : T → List (Command N I)) :
    Sys N I T → List (Cause N I T) → Prop
  | init : Commits P cmds (init cmds) []
  | step {s s' : Sys N I T} {es : List (Cause N I T)} {a : Actor T} (h : Commits P cmds s es)
      (hp : P s a) (hs : s.step a = some s') : Commits P cmds s' (es ++ (s.effect a).toList)

/-- The commands that take effect in these steps. -/
def effects (s : Sys N I T) : List (Actor T) → List (Cause N I T)
  | [] => []
  | a :: as =>
    match s.step a with
    | none => effects s as
    | some s' => (s.effect a).toList ++ effects s' as

/-- The condition at each of these steps. -/
def WaitSteps (s : Sys N I T) : List (Actor T) → Prop
  | [] => True
  | a :: as => s.Waits a ∧ WaitSteps ((s.step a).getD s) as

instance decidableWaitSteps (s : Sys N I T) : (as : List (Actor T)) → Decidable (s.WaitSteps as)
  | [] => isTrue trivial
  | a :: as =>
    have := decidableWaitSteps ((s.step a).getD s) as
    inferInstanceAs (Decidable (s.Waits a ∧ WaitSteps ((s.step a).getD s) as))

theorem Commits.run {P : Sys N I T → Actor T → Prop} {cmds : T → List (Command N I)}
    {s : Sys N I T} {es : List (Cause N I T)} (h : Commits P cmds s es) {as : List (Actor T)}
    (has : ∀ as₁ a as₂, as = as₁ ++ a :: as₂ → P (s.run as₁) a) :
    Commits P cmds (s.run as) (es ++ s.effects as) := by
  induction as generalizing s es with
  | nil =>
    rw [effects, List.append_nil]
    exact h
  | cons a as ih =>
    unfold Sys.run effects
    cases hs : s.step a with
    | none =>
      apply ih h
      rintro as₁ a' as₂ rfl
      have hp := has (a :: as₁) a' as₂ rfl
      rw [Sys.run, hs] at hp
      exact hp
    | some s' =>
      rw [← List.append_assoc]
      apply ih (h.step (has [] a as rfl) hs)
      rintro as₁ a' as₂ rfl
      have hp := has (a :: as₁) a' as₂ rfl
      rw [Sys.run, hs] at hp
      exact hp

theorem WaitSteps.waits {s : Sys N I T} {as : List (Actor T)} (h : s.WaitSteps as) :
    ∀ as₁ a as₂, as = as₁ ++ a :: as₂ → (s.run as₁).Waits a := by
  induction as generalizing s with
  | nil =>
    intro as₁ a as₂ heq
    cases as₁ <;> cases heq
  | cons b as ih =>
    intro as₁ a as₂ heq
    cases as₁ with
    | nil =>
      cases heq
      exact h.1
    | cons b' as₁ =>
      cases heq
      exact ih h.2 as₁ a as₂ rfl

/-! ## Nothing is lost -/

/-- The command is held by its connection, in a channel, or with a goroutine in which it has not taken
    effect. -/
inductive OnWay (s : Sys N I T) (c : Cause N I T) : Prop
  | held (h : (s.conn c.conn).pc.held = some c)
  | queued (b : OrderBookPtr) (event : Event N I T) (h : event ∈ (s.book b).ordersChn)
      (hc : event.cause = c)
  | running (g : ℕ) (r : Routine N I T) (h : s.routine g = some r) (hp : r.pc.phase ≠ .over)
      (hc : r.cause = c)

theorem OnWay.of_kept (hk : Kept s s') : OnWay s' c ↔ OnWay s c := by
  constructor
  · rintro (h | ⟨b, event, h, hc⟩ | ⟨g, r, h, hp, hc⟩)
    · rw [hk.conn] at h
      exact OnWay.held h
    · rw [hk.queue] at h
      exact OnWay.queued b event h hc
    · rw [hk.routine] at h
      exact OnWay.running g r h hp hc
  · rintro (h | ⟨b, event, h, hc⟩ | ⟨g, r, h, hp, hc⟩)
    · rw [← hk.conn] at h
      exact OnWay.held h
    · rw [← hk.queue] at h
      exact OnWay.queued b event h hc
    · rw [← hk.routine] at h
      exact OnWay.running g r h hp hc

/-- A command that is on its way stays so until it takes effect. -/
theorem Turn.onWay (ht : Turn s g r s') (hm : Made s) (hr : s.routine g = some r)
    (h : OnWay s c) : OnWay s' c ∨ s.commits r = some c := by
  rcases h with h | ⟨b, event, h, hc⟩ | ⟨g', r', h, hp, hc⟩
  · rw [← ht.conn] at h
    exact Or.inl (OnWay.held h)
  · rw [← ht.queue] at h
    exact Or.inl (OnWay.queued b event h hc)
  · by_cases hg : g' = g
    · subst hg
      rw [hr] at h
      cases h
      rcases ht.self with ⟨p, hadvance, hself⟩
      cases hadvance with
      | commit _ he => exact Or.inr (hc ▸ he)
      | enter _ _ =>
        rcases hself with ⟨_, hover⟩ | ⟨r₁, hr₁, hcause, hphase⟩
        · cases hover
        · exact Or.inl (OnWay.running g' r₁ hr₁ (by rw [hphase]; decide) (hcause.trans hc))
      | stay _ _ =>
        rcases hself with ⟨_, hover⟩ | ⟨r₁, hr₁, hcause, hphase⟩
        · exact absurd hover hp
        · exact Or.inl (OnWay.running g' r₁ hr₁ (by rw [hphase]; exact hp) (hcause.trans hc))
    · rcases ht.other g' hg with hsame | ⟨hge, _, _⟩
      · rw [← hsame] at h
        exact Or.inl (OnWay.running g' r' h hp hc)
      · rw [hm.routine g' hge] at h
        cases h

/-- A goroutine puts nothing on its way. -/
theorem Turn.onWay_old (ht : Turn s g r s') (hr : s.routine g = some r) (h : OnWay s' c) :
    OnWay s c := by
  rcases h with h | ⟨b, event, h, hc⟩ | ⟨g', r', h, hp, hc⟩
  · rw [ht.conn] at h
    exact OnWay.held h
  · rw [ht.queue] at h
    exact OnWay.queued b event h hc
  · by_cases hg : g' = g
    · subst hg
      rcases ht.self with ⟨p, hadvance, ⟨hnone, _⟩ | ⟨r₁, hr₁, hcause, hphase⟩⟩
      · rw [hnone] at h
        cases h
      · rw [hr₁] at h
        cases h
        refine OnWay.running g' r hr ?_ (hcause.symm.trans hc)
        cases hadvance with
        | enter hwait _ =>
          rw [hwait]
          decide
        | stay _ _ =>
          rw [hphase] at hp
          exact hp
        | commit _ _ => exact absurd hphase hp
    · rcases ht.other g' hg with hsame | ⟨_, _, r₁, hr₁, _, hover⟩
      · rw [hsame] at h
        exact OnWay.running g' r' h hp hc
      · rw [hr₁] at h
        cases h
        exact absurd hover hp

theorem Dispatch.onWay (hd : Dispatch s b s') (hm : Made s) : OnWay s' c ↔ OnWay s c := by
  rcases hd.event with ⟨event, rest, r, hqueue, hrest, hr, hcause, hphase⟩
  constructor
  · rintro (h | ⟨b', event', h, hc⟩ | ⟨g, r', h, hp, hc⟩)
    · rw [hd.conn] at h
      exact OnWay.held h
    · rw [hrest] at h
      by_cases hb : b' = b
      · subst hb
        rw [if_pos rfl] at h
        refine OnWay.queued b' event' ?_ hc
        rw [hqueue]
        exact List.mem_cons_of_mem _ h
      · rw [if_neg hb] at h
        exact OnWay.queued b' event' h hc
    · by_cases hg : g = s.nextRoutine
      · subst hg
        rw [hr] at h
        cases h
        refine OnWay.queued b event ?_ (hcause.symm.trans hc)
        rw [hqueue]
        exact List.mem_cons_self
      · rw [hd.other g hg] at h
        exact OnWay.running g r' h hp hc
  · rintro (h | ⟨b', event', h, hc⟩ | ⟨g, r', h, hp, hc⟩)
    · rw [← hd.conn] at h
      exact OnWay.held h
    · by_cases hb : b' = b
      · subst hb
        rw [hqueue] at h
        rcases List.mem_cons.mp h with rfl | h
        · exact OnWay.running s.nextRoutine r hr (by rw [hphase]; decide) (hcause.trans hc)
        · refine OnWay.queued b' event' ?_ hc
          rw [hrest, if_pos rfl]
          exact h
      · refine OnWay.queued b' event' ?_ hc
        rw [hrest, if_neg hb]
        exact h
    · have hg : g ≠ s.nextRoutine := by
        rintro rfl
        rw [hm.routine _ (le_refl _)] at h
        cases h
      rw [← hd.other g hg] at h
      exact OnWay.running g r' h hp hc

/-- Connections hold commands of their own, the last that they have read. -/
def HeldLast (s : Sys N I T) : Prop :=
  ∀ t c, (s.conn t).pc.held = some c → c.conn = t ∧ c.index + 1 = (s.conn t).index

theorem ConnTurn.running (hc : ConnTurn s t s') {c : Cause N I T} (hr : s.routine g = some r)
    (hp : r.pc.phase ≠ .over) (heq : r.cause = c) : OnWay s' c := by
  rw [← hc.routine] at hr
  exact OnWay.running g r hr hp heq

theorem ConnTurn.onWay (ht : ConnTurn s t s') (h : OnWay s c) :
    OnWay s' c ∨ s.rejects t = some c := by
  rcases h with h | ⟨b, event, h, hc⟩ | ⟨g, r, h, hp, hc⟩
  · by_cases hct : c.conn = t
    · subst hct
      cases ht.handling with
      | read _ _ _ hidle _ _ _ _ _ =>
        rw [hidle] at h
        cases h
      | keep hheld _ _ _ _ =>
        rw [← hheld] at h
        exact Or.inl (OnWay.held h)
      | reject c' hheld _ _ _ hrejects _ =>
        rw [hheld] at h
        cases h
        exact Or.inr hrejects
      | send b event hpc _ _ _ _ hqueue =>
        rw [hpc] at h
        refine Or.inl (OnWay.queued b event ?_ (Option.some.inj h))
        rw [hqueue, if_pos rfl]
        exact List.mem_append_right _ (List.mem_singleton_self event)
    · rw [← ht.conn _ hct] at h
      exact Or.inl (OnWay.held h)
  · refine Or.inl (OnWay.queued b event ?_ hc)
    cases ht.handling with
    | read _ _ _ _ _ _ _ _ hqueue => exact (hqueue b).symm ▸ h
    | keep _ _ _ _ hqueue => exact (hqueue b).symm ▸ h
    | reject _ _ _ _ _ _ hqueue => exact (hqueue b).symm ▸ h
    | send b' event' _ _ _ _ _ hqueue =>
      rw [hqueue]
      split
      next hb =>
        subst hb
        exact List.mem_append_left _ h
      · exact h
  · exact Or.inl (ht.running h hp hc)

/-- What is on its way afterwards was so before, or has just been read. -/
theorem ConnTurn.onWay_old (ht : ConnTurn s t s') (hl : HeldLast s) (h : OnWay s' c) :
    OnWay s c ∨
      c.conn = t ∧ c.index = (s.conn t).index ∧ (s'.conn t).index = (s.conn t).index + 1 := by
  rcases h with h | ⟨b, event, h, hc⟩ | ⟨g, r, h, hp, hc⟩
  · by_cases hct : c.conn = t
    · subst hct
      cases ht.handling with
      | read c' _ hindex _ hheld _ hnext _ _ =>
        rw [hheld] at h
        cases h
        exact Or.inr ⟨rfl, hindex, hnext⟩
      | keep hheld _ _ _ _ =>
        rw [hheld] at h
        exact Or.inl (OnWay.held h)
      | reject _ _ hidle _ _ _ _ =>
        rw [hidle] at h
        cases h
      | send _ _ _ hidle _ _ _ _ =>
        rw [hidle] at h
        cases h
    · rw [ht.conn _ hct] at h
      exact Or.inl (OnWay.held h)
  · left
    cases ht.handling with
    | read _ _ _ _ _ _ _ _ hqueue =>
      rw [hqueue] at h
      exact OnWay.queued b event h hc
    | keep _ _ _ _ hqueue =>
      rw [hqueue] at h
      exact OnWay.queued b event h hc
    | reject _ _ _ _ _ _ hqueue =>
      rw [hqueue] at h
      exact OnWay.queued b event h hc
    | send b' event' hpc _ _ _ _ hqueue =>
      rw [hqueue] at h
      split at h
      next hb =>
        subst hb
        rcases List.mem_append.mp h with h | h
        · exact OnWay.queued b event h hc
        · cases List.mem_singleton.mp h
          have hheld : (s.conn t).pc.held = some c := by
            rw [hpc, ← hc]
            rfl
          have hct := (hl t c hheld).1
          subst hct
          exact OnWay.held hheld
      · exact OnWay.queued b event h hc
  · rw [ht.routine] at h
    exact Or.inl (OnWay.running g r h hp hc)

/-! ## What holds on the way -/

theorem Waits.clear (h : s.Waits a) (hc : s.enters a = some c) : s.Clear c := h c hc

/-- A command that was sent before `c` is on its way with the connection only, if at all. -/
theorem Clear.held (h : s.Clear c) (hm : Made s) (hbefore : c'.Before c) (hway : OnWay s c') :
    (s.conn c'.conn).pc.held = some c' := by
  rcases hway with hheld | ⟨b, event, hevent, rfl⟩ | ⟨g, r, hr, hp, rfl⟩
  · exact hheld
  · have hb : b < s.nextBook := by
      by_contra hb
      rw [hm.queue b (not_lt.mp hb)] at hevent
      cases hevent
    exact absurd hbefore (h.queue b hb event hevent)
  · have hg : g < s.nextRoutine := by
      by_contra hg
      rw [hm.routine g (not_lt.mp hg)] at hr
      cases hr
    exact absurd hbefore (h.routine g hg r hr hp)

/-- What holds of the commands in a run of the condition. -/
structure Tracked (cmds : T → List (Command N I)) (s : Sys N I T) (es : List (Cause N I T)) :
    Prop where
  made : Made s
  toCome : ∀ t, (s.conn t).cmds = (cmds t).drop (s.conn t).index
  held : HeldLast s
  /-- what is on its way has been read -/
  onWay : ∀ c, OnWay s c → c.index < (s.conn c.conn).index
  routine : ∀ g r, s.routine g = some r → r.cause.index < (s.conn r.cause.conn).index
  known : ∀ c : Cause N I T, c.Sent cmds → c.index < (s.conn c.conn).index → c ∈ es ∨ OnWay s c
  /-- none is behind a command that has locked its book -/
  entered : ∀ g r, s.routine g = some r → r.pc.phase = .entered → ∀ c, c.Before r.cause → ¬ OnWay s c
  inOrder : InOrder cmds es

variable {cmds : T → List (Command N I)} {es : List (Cause N I T)}

theorem tracked_init (cmds : T → List (Command N I)) : Tracked cmds (init cmds) [] where
  made := made_init cmds
  toCome := fun _ => rfl
  held := fun _ _ h => by cases h
  onWay := by
    rintro c (h | ⟨b, event, h, hc⟩ | ⟨g, r, h, hp, hc⟩)
    · cases h
    · cases h
    · cases h
  routine := fun _ _ h => by cases h
  known := fun _ _ h => absurd h (Nat.not_lt_zero _)
  entered := fun _ _ h => by cases h
  inOrder := fun es₁ c es₂ h => by
    cases es₁ <;> cases h

/-- A command takes effect when those before it have. -/
theorem Tracked.commit (h : Tracked cmds s es) (hread : c.index < (s.conn c.conn).index)
    (hfirst : ∀ c', c'.Before c → ¬ OnWay s c') : InOrder cmds (es ++ [c]) := by
  apply inOrder_append h.inOrder
  intro c' hsent hbefore
  have hread' : c'.index < (s.conn c'.conn).index := by
    rw [hbefore.1]
    exact hbefore.2.trans hread
  exact (h.known c' hsent hread').resolve_right (hfirst c' hbefore)

theorem Tracked.kept (h : Tracked cmds s es) (hk : Kept s s') : Tracked cmds s' es where
  made := h.made.kept hk
  toCome := by
    rw [hk.conn]
    exact h.toCome
  held := by
    unfold HeldLast
    rw [hk.conn]
    exact h.held
  onWay := by
    intro c hc
    rw [hk.conn]
    exact h.onWay c ((OnWay.of_kept hk).mp hc)
  routine := by
    rw [hk.routine, hk.conn]
    exact h.routine
  known := by
    intro c hsent hread
    rw [hk.conn] at hread
    rw [OnWay.of_kept hk]
    exact h.known c hsent hread
  entered := by
    intro g r hr hp c hbefore hc
    rw [hk.routine] at hr
    exact h.entered g r hr hp c hbefore ((OnWay.of_kept hk).mp hc)
  inOrder := h.inOrder

theorem Tracked.dispatch (h : Tracked cmds s es) (hd : Dispatch s b s') : Tracked cmds s' es where
  made := h.made.dispatch hd
  toCome := by
    rw [hd.conn]
    exact h.toCome
  held := by
    unfold HeldLast
    rw [hd.conn]
    exact h.held
  onWay := by
    intro c hc
    rw [hd.conn]
    exact h.onWay c ((hd.onWay h.made).mp hc)
  routine := by
    intro g r hr
    rw [hd.conn]
    by_cases hg : g = s.nextRoutine
    · rcases hd.event with ⟨event, rest, r', hqueue, _, hr', hcause, _⟩
      subst hg
      rw [hr'] at hr
      cases hr
      rw [hcause]
      apply h.onWay
      exact OnWay.queued b event (hqueue ▸ List.mem_cons_self) rfl
    · rw [hd.other g hg] at hr
      exact h.routine g r hr
  known := by
    intro c hsent hread
    rw [hd.conn] at hread
    rw [hd.onWay h.made]
    exact h.known c hsent hread
  entered := by
    intro g r hr hp c hbefore hc
    rw [hd.onWay h.made] at hc
    by_cases hg : g = s.nextRoutine
    · rcases hd.event with ⟨event, rest, r', _, _, hr', _, hphase⟩
      subst hg
      rw [hr'] at hr
      cases hr
      rw [hphase] at hp
      cases hp
    · rw [hd.other g hg] at hr
      exact h.entered g r hr hp c hbefore hc
  inOrder := h.inOrder

theorem Turn.cause (ht : Turn s g r s') (hr : s.routine g = some r) {g' : ℕ} {r' : Routine N I T}
    (hr' : s'.routine g' = some r') : r'.cause = r.cause ∨ s.routine g' = some r' := by
  by_cases hg : g' = g
  · subst hg
    rcases ht.self with ⟨p, _, ⟨hnone, _⟩ | ⟨r₁, hr₁, hcause, _⟩⟩
    · rw [hnone] at hr'
      cases hr'
    · rw [hr₁] at hr'
      cases hr'
      exact Or.inl hcause
  · rcases ht.other g' hg with hsame | ⟨_, _, r₁, hr₁, hcause, _⟩
    · exact Or.inr (hsame ▸ hr')
    · rw [hr₁] at hr'
      cases hr'
      exact Or.inl hcause

theorem Tracked.turn (h : Tracked cmds s es) (hr : s.routine g = some r) (hw : s.Waits (.routine g))
    (ht : Turn s g r s') : Tracked cmds s' (es ++ (s.commits r).toList) where
  made := h.made.turn hr ht
  toCome := by
    rw [ht.conn]
    exact h.toCome
  held := by
    unfold HeldLast
    rw [ht.conn]
    exact h.held
  onWay := by
    intro c hc
    rw [ht.conn]
    exact h.onWay c (ht.onWay_old hr hc)
  routine := by
    intro g' r' hr'
    rw [ht.conn]
    rcases ht.cause hr hr' with hcause | hold
    · rw [hcause]
      exact h.routine g r hr
    · exact h.routine g' r' hold
  known := by
    intro c hsent hread
    rw [ht.conn] at hread
    rcases h.known c hsent hread with hc | hc
    · exact Or.inl (List.mem_append_left _ hc)
    · rcases ht.onWay h.made hr hc with hc | hc
      · exact Or.inr hc
      · rw [hc]
        exact Or.inl (List.mem_append_right _ (List.mem_singleton_self c))
  entered := by
    intro g' r' hr' hp c hbefore hc
    have hold := ht.onWay_old hr hc
    by_cases hg : g' = g
    · subst hg
      rcases ht.self with ⟨p, hadvance, ⟨hnone, _⟩ | ⟨r₁, hr₁, hcause, hphase⟩⟩
      · rw [hnone] at hr'
        cases hr'
      · rw [hr₁] at hr'
        cases hr'
        rw [hcause] at hbefore
        cases hadvance with
        | enter hwait _ =>
          -- the condition is for this step
          have henters : s.enters (.routine g') = some r.cause := by
            unfold enters
            dsimp only
            rw [hr]
            exact if_pos hwait
          have hheld := (hw.clear henters).held h.made hbefore hold
          have hlast := (h.held _ _ hheld).2
          have hread := h.routine g' r hr
          rw [← hbefore.1] at hread
          have hlt := hbefore.2
          omega
        | stay _ _ => exact h.entered g' r hr (hphase.symm.trans hp) c hbefore hold
        | commit _ _ =>
          rw [hp] at hphase
          cases hphase
    · rcases ht.other g' hg with hsame | ⟨_, _, r₁, hr₁, _, hover⟩
      · rw [hsame] at hr'
        exact h.entered g' r' hr' hp c hbefore hold
      · rw [hr₁] at hr'
        cases hr'
        rw [hp] at hover
        cases hover
  inOrder := by
    cases hc : s.commits r with
    | none =>
      rw [Option.toList_none, List.append_nil]
      exact h.inOrder
    | some c =>
      have hself : c = r.cause ∧ r.pc.phase = .entered := by
        rcases ht.self with ⟨p, hadvance, _⟩
        cases hadvance with
        | enter _ he =>
          rw [hc] at he
          cases he
        | stay _ he =>
          rw [hc] at he
          cases he
        | commit hphase he =>
          rw [hc] at he
          exact ⟨Option.some.inj he, hphase⟩
      rw [Option.toList_some, hself.1]
      exact h.commit (h.routine g r hr) (h.entered g r hr hself.2)

theorem ConnTurn.index (ht : ConnTurn s t s') (u : T) : (s.conn u).index ≤ (s'.conn u).index := by
  by_cases hu : u = t
  · subst hu
    cases ht.handling with
    | read _ _ _ _ _ _ hnext _ _ =>
      rw [hnext]
      omega
    | keep _ _ hnext _ _ => exact hnext.ge
    | reject _ _ _ _ hnext _ _ => exact hnext.ge
    | send _ _ _ _ _ hnext _ _ => exact hnext.ge
  · rw [ht.conn u hu]

/-- A command that has been read with this step is with its connection. -/
theorem ConnTurn.onWay_read (ht : ConnTurn s t s')
    (htoCome : (s.conn t).cmds = (cmds t).drop (s.conn t).index) (hsent : c.Sent cmds)
    (hold : ¬ c.index < (s.conn c.conn).index) (hread : c.index < (s'.conn c.conn).index) :
    OnWay s' c := by
  by_cases hct : c.conn = t
  · subst hct
    cases ht.handling with
    | read c' hconn hindex _ hheld hcmds hnext _ _ =>
      have hc : c.index = c'.index := by omega
      have hcommand : c.command = c'.command := by
        have hget : (cmds c.conn)[(s.conn c.conn).index]? = some c'.command := by
          rw [← List.head?_drop, ← htoCome, hcmds]
          rfl
        rw [← hindex, ← hc, hsent] at hget
        exact Option.some.inj hget
      have heq : c = c' := by
        cases c
        cases c'
        cases hconn
        cases hc
        cases hcommand
        rfl
      exact OnWay.held (heq ▸ hheld)
    | keep _ _ hnext _ _ => omega
    | reject _ _ _ _ hnext _ _ => omega
    | send _ _ _ _ _ hnext _ _ => omega
  · rw [ht.conn _ hct] at hread
    omega

theorem Tracked.conn (h : Tracked cmds s es) (hw : s.Waits (.conn t)) (hm : Made s')
    (ht : ConnTurn s t s') : Tracked cmds s' (es ++ (s.rejects t).toList) where
  made := hm
  toCome := by
    intro u
    by_cases hu : u = t
    · subst hu
      have hold := h.toCome u
      cases ht.handling with
      | read c _ _ _ _ hcmds hnext _ _ =>
        rw [hcmds] at hold
        rw [hnext, ← List.tail_drop, ← hold]
        rfl
      | keep _ hcmds hnext _ _ =>
        rw [hcmds, hnext]
        exact hold
      | reject _ _ _ hcmds hnext _ _ =>
        rw [hcmds, hnext]
        exact hold
      | send _ _ _ _ hcmds hnext _ _ =>
        rw [hcmds, hnext]
        exact hold
    · rw [ht.conn u hu]
      exact h.toCome u
  held := by
    intro u c hc
    by_cases hu : u = t
    · subst hu
      cases ht.handling with
      | read c' hconn hindex _ hheld _ hnext _ _ =>
        rw [hheld] at hc
        cases hc
        rw [hindex, hnext]
        exact ⟨hconn, rfl⟩
      | keep hheld _ hnext _ _ =>
        rw [hheld] at hc
        rw [hnext]
        exact h.held u c hc
      | reject _ _ hidle _ _ _ _ =>
        rw [hidle] at hc
        cases hc
      | send _ _ _ hidle _ _ _ _ =>
        rw [hidle] at hc
        cases hc
    · rw [ht.conn u hu] at hc ⊢
      exact h.held u c hc
  onWay := by
    intro c hc
    rcases ht.onWay_old h.held hc with hc | ⟨hct, hindex, hnext⟩
    · exact (h.onWay c hc).trans_le (ht.index c.conn)
    · rw [hct]
      omega
  routine := by
    intro g r hr
    rw [ht.routine] at hr
    exact (h.routine g r hr).trans_le (ht.index r.cause.conn)
  known := by
    intro c hsent hread
    by_cases hold : c.index < (s.conn c.conn).index
    · rcases h.known c hsent hold with hc | hc
      · exact Or.inl (List.mem_append_left _ hc)
      · rcases ht.onWay hc with hc | hc
        · exact Or.inr hc
        · rw [hc]
          exact Or.inl (List.mem_append_right _ (List.mem_singleton_self c))
    · exact Or.inr (ht.onWay_read (h.toCome t) hsent hold hread)
  entered := by
    intro g r hr hp c hbefore hc
    rw [ht.routine] at hr
    rcases ht.onWay_old h.held hc with hc | ⟨hct, hindex, _⟩
    · exact h.entered g r hr hp c hbefore hc
    · have hread := h.routine g r hr
      rw [← hbefore.1, hct, ← hindex] at hread
      have hlt := hbefore.2
      omega
  inOrder := by
    cases hc : s.rejects t with
    | none =>
      rw [Option.toList_none, List.append_nil]
      exact h.inOrder
    | some c =>
      have hheld : (s.conn t).pc.held = some c := by
        cases ht.handling with
        | read _ _ _ _ _ _ _ hnone _ =>
          rw [hnone] at hc
          cases hc
        | keep _ _ _ hnone _ =>
          rw [hnone] at hc
          cases hc
        | reject c' hheld _ _ _ hsome _ =>
          rw [hsome] at hc
          rw [hheld]
          exact hc
        | send _ _ _ _ _ _ hnone _ =>
          rw [hnone] at hc
          cases hc
      have hlast := h.held t c hheld
      apply h.commit
      · rw [hlast.1]
        omega
      · intro c' hbefore hway
        have hheld' := (hw.clear hc).held h.made hbefore hway
        rw [hbefore.1, hlast.1, hheld] at hheld'
        have hlt := hbefore.2
        rw [Option.some.inj hheld'] at hlt
        exact absurd hlt (lt_irrefl _)

theorem Tracked.step (h : Tracked cmds s es) (hw : s.Waits a) (hs : s.step a = some s') :
    Tracked cmds s' (es ++ (s.effect a).toList) := by
  cases a with
  | conn t => exact h.conn hw (h.made.handleConn hs) (turn_handleConn hs)
  | dispatcher b =>
    have hnone : s.effect (.dispatcher b) = none := rfl
    rw [hnone, Option.toList_none, List.append_nil]
    exact h.dispatch (dispatch_spec hs)
  | routine g =>
    simp only [Sys.step] at hs
    split at hs
    · cases hs
    next r hr =>
      have heffect : s.effect (.routine g) = s.commits r := by
        unfold effect
        dsimp only
        rw [hr]
        rfl
      rw [heffect]
      exact h.turn hr hw (turn_routineStep hs)
  | printer =>
    have hnone : s.effect .printer = none := rfl
    rw [hnone, Option.toList_none, List.append_nil]
    exact h.kept (kept_printOutputChnl hs)

theorem Commits.tracked (h : Commits Waits cmds s es) : Tracked cmds s es := by
  induction h with
  | init => exact tracked_init cmds
  | step h hp hs ih => exact ih.step hp hs

end Sys

section Overtaken

/-- One connection sells and cancels. -/
def soldAndCancelled : Unit → List (Command UInt32 Unit) :=
  fun _ => [.order .sell 1 () 2700 10 0, .cancel 1 1]

/-- The order is booked before the cancel looks for it. -/
def bookedFirst : List (Actor Unit) :=
  List.flatten
    [List.replicate 6 (.conn ()), [.dispatcher 0], List.replicate 10 (.routine 0),
      List.replicate 8 (.routine 1), List.replicate 6 (.conn ()), [.dispatcher 0],
      List.replicate 9 (.routine 2), List.replicate 6 .printer]

/-- The order is still in the channel of its book. -/
def cancelledFirst : List (Actor Unit) :=
  List.flatten
    [List.replicate 13 (.conn ()), [.dispatcher 0], List.replicate 10 (.routine 0),
      List.replicate 8 (.routine 1), List.replicate 6 .printer]

end Overtaken

end MatchingEngine.Go
