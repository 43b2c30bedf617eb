import MatchingEngine.Cpp.Synced
import Mathlib.Data.List.SplitBy

/-!
# The verdict of the grader

`check_correctness` accepts exactly the logs that are `Lawful`, whatever groups of equal timestamps it
takes them in, and the output thread those that are lawful in one of its eight ways.
-/

namespace MatchingEngine.Cpp.Grader

open Text PriceTime

variable {ptype : PriorityType} {stype : SortByTimestampType} {orders orders' : Orders}
  {sd : Side} {i : Bytes} {id price : UInt32} {o r : OrderStatus} {c c' : Checking} {output : ParsedEngineOutput} {outputs : List ParsedEngineOutput}

/-! ## Nothing crosses -/

theorem Uncrossed.of_rests (h : Uncrossed orders)
    (hrests : ∀ i sd id o, Rests orders' i sd id o → ∃ o', Rests orders i sd id o' ∧ o'.price = o.price) :
    Uncrossed orders' := by
  intro i sd id o id' o' ho ho'
  rcases hrests i sd id o ho with ⟨r, hr, hprice⟩
  rcases hrests i sd.opp id' o' ho' with ⟨r', hr', hprice'⟩
  rw [← hprice, ← hprice']
  exact h i sd id r id' r' hr hr'

/-- A write to an order that does not book it. -/
theorem rests_of_modify {f : OrderStatus → OrderStatus} (hr : orders id = some r)
    (hinst : (f r).instrument = r.instrument) (htype : (f r).type = r.type)
    (hprice : (f r).price = r.price) (hstate : (f r).state = .booked → r.state = .booked)
    (i : Bytes) (sd : Side) (q : UInt32) (o : OrderStatus) (ho : Rests (modify orders id f) i sd q o) :
    ∃ o', Rests orders i sd q o' ∧ o'.price = o.price := by
  by_cases hq : q = id
  · subst hq
    cases (modify_self hr).symm.trans ho.status
    exact ⟨r, ⟨hr, hstate ho.booked, hinst.symm.trans ho.instrument, htype.symm.trans ho.type⟩,
      hprice.symm⟩
  · exact ⟨o, ⟨(modify_of_ne hq).symm.trans ho.status, ho.booked, ho.instrument, ho.type⟩, rfl⟩

theorem price_settle (o : OrderStatus) : o.settle.price = o.price := by
  unfold OrderStatus.settle
  split <;> rfl

theorem state_of_settle (h : o.settle.state = .booked) : o.state = .booked := by
  rw [state_settle] at h
  split at h
  · cases h
  · exact h

/-- The side of an order that is booked was open to it. -/
theorem Uncrossed.book {tin tout : ℕ} (h : Uncrossed orders) (hr : orders id = some r)
    (hmay : MayBook orders sd i price r) : Uncrossed (modify orders id (.book tin tout)) := by
  have hcases : ∀ j sd' q o, Rests (modify orders id (.book tin tout)) j sd' q o →
      Rests orders j sd' q o ∨ j = i ∧ sd' = sd ∧ o.price = price := by
    intro j sd' q o ho
    by_cases hq : q = id
    · subst hq
      cases (modify_self hr).symm.trans ho.status
      exact Or.inr ⟨ho.instrument.symm.trans hmay.instrument, ho.type.symm.trans hmay.type, hmay.price⟩
    · exact Or.inl ⟨(modify_of_ne hq).symm.trans ho.status, ho.booked, ho.instrument, ho.type⟩
  intro j sd' q o q' o' ho ho'
  rcases hcases j sd' q o ho with hold | ⟨rfl, rfl, hprice⟩
  · rcases hcases j sd'.opp q' o' ho' with hold' | ⟨rfl, rfl, hprice'⟩
    · exact h j sd' q o q' o' hold hold'
    · have hcross := hmay.uncrossed q o
      rw [Side.opp_opp] at hcross
      rw [hprice']
      exact hcross hold
  · rcases hcases j sd'.opp q' o' ho' with hold' | ⟨-, hsd, -⟩
    · rw [hprice, crosses_comm]
      exact hmay.uncrossed q' o' hold'
    · exact absurd hsd (Side.opp_ne sd')

theorem Uncrossed.after (h : Uncrossed orders) (hp : Permits ptype stype orders output) :
    Uncrossed (Grader.after orders output) := by
  unfold Permits at hp
  unfold Grader.after
  cases hpar : output.parsed with
  | buySell sd oid instrument price count =>
    rw [hpar] at hp
    rcases hp with ⟨o, ho, hmay⟩
    exact h.book ho hmay
  | exec rid nid executionId price count =>
    rw [hpar] at hp
    rcases hp with ⟨r, n, hr, hn, hmay⟩
    have hne : nid ≠ rid := by
      rintro rfl
      cases hr.symm.trans hn
      have ha := hmay.active
      rw [hmay.booked] at ha
      cases ha
    have hn' : modify orders rid (fun r => (r.take count).execute.settle) nid = some n :=
      (modify_of_ne hne).trans hn
    have htrade : Uncrossed (modify orders rid fun r => (r.take count).execute.settle) :=
      h.of_rests (rests_of_modify hr (instrument_settle _) (type_settle _) (price_settle _) fun _ =>
        hmay.booked)
    exact htrade.of_rests (rests_of_modify hn' (instrument_settle _) (type_settle _) (price_settle _)
      state_of_settle)
  | cancel oid accept =>
    rw [hpar] at hp
    rcases hp with ⟨o, ho, -⟩
    cases accept with
    | true => exact h.of_rests (rests_of_modify ho rfl rfl rfl fun hb => by cases hb)
    | false => exact h

/-! ## All lines -/

/-- The grader accepts a line exactly where the rules do, and keeps its books. -/
theorem Synced.accepts (h : Synced ptype stype c) (hun : Uncrossed c.orders)
    (output : ParsedEngineOutput) :
    (Permits ptype stype c.orders output ↔ ∃ c', checkOutput ptype stype c output = .ok c') ∧
      ∀ c', checkOutput ptype stype c output = .ok c' →
        c'.orders = after c.orders output ∧ Synced ptype stype c' := by
  unfold checkOutput Permits after
  cases hp : output.parsed with
  | buySell sd id instrument price count =>
    refine ⟨⟨?_, ?_⟩, ?_⟩
    · rintro ⟨o, ho, hmay⟩
      exact h.buySell_of ho hmay
    · rintro ⟨c', hc'⟩
      exact (h.buySell hc').1
    · exact fun c' hc' => (h.buySell hc').2
  | exec rid nid executionId price count =>
    dsimp only
    simp only [h.exec_iff hun]
    refine ⟨⟨?_, ?_⟩, ?_⟩
    · rintro ⟨r, n, hmay⟩
      exact ⟨_, r, n, hmay, rfl⟩
    · rintro ⟨c', r, n, hmay, -⟩
      exact ⟨r, n, hmay⟩
    · rintro c' ⟨r, n, ⟨hr, hn, hmay⟩, rfl⟩
      exact ⟨rfl, h.trade hr hn hmay.booked hmay.active⟩
  | cancel id accept =>
    dsimp only
    simp only [h.cancel_iff]
    refine ⟨⟨?_, ?_⟩, ?_⟩
    · rintro ⟨r, hmay⟩
      exact ⟨_, r, hmay, rfl⟩
    · rintro ⟨c', r, hmay, -⟩
      exact ⟨r, hmay⟩
    · rintro c' ⟨r, ⟨hr, hiff⟩, rfl⟩
      cases accept with
      | true => exact ⟨rfl, h.cancelled ⟨hr, hiff.mp rfl, rfl, rfl⟩⟩
      | false => exact ⟨rfl, h⟩

theorem checkOutputset_cons (outputset : List ParsedEngineOutput) :
    checkCorrectnessOutputset ptype stype c (output :: outputset) = .ok c' ↔
      ∃ c₁, checkOutput ptype stype c output = .ok c₁ ∧
        checkCorrectnessOutputset ptype stype c₁ outputset = .ok c' := bind_ok

theorem Synced.outputset (h : Synced ptype stype c) (hun : Uncrossed c.orders) :
    (∃ c', checkCorrectnessOutputset ptype stype c outputs = .ok c') ↔
      Lawful ptype stype c.orders outputs := by
  induction outputs generalizing c with
  | nil => exact ⟨fun _ => trivial, fun _ => ⟨c, rfl⟩⟩
  | cons output outputs ih =>
    have hacc := h.accepts hun output
    unfold Lawful
    simp only [checkOutputset_cons]
    rw [hacc.1]
    have hnext : ∀ c₁, checkOutput ptype stype c output = .ok c₁ →
        ((∃ c', checkCorrectnessOutputset ptype stype c₁ outputs = .ok c') ↔
          Lawful ptype stype (after c.orders output) outputs) := by
      intro c₁ hc₁
      rcases hacc.2 c₁ hc₁ with ⟨horders, hsync⟩
      rw [← horders]
      apply ih hsync
      rw [horders]
      exact hun.after (hacc.1.mpr ⟨c₁, hc₁⟩)
    constructor
    · rintro ⟨c', c₁, hc₁, hc'⟩
      exact ⟨⟨c₁, hc₁⟩, (hnext c₁ hc₁).mp ⟨c', hc'⟩⟩
    · rintro ⟨⟨c₁, hc₁⟩, hlaw⟩
      rcases (hnext c₁ hc₁).mpr hlaw with ⟨c', hc'⟩
      exact ⟨c', c₁, hc₁, hc'⟩

theorem checkOutputset_append (l l' : List ParsedEngineOutput) :
    checkCorrectnessOutputset ptype stype c (l ++ l') = .ok c' ↔
      ∃ c₁, checkCorrectnessOutputset ptype stype c l = .ok c₁ ∧
        checkCorrectnessOutputset ptype stype c₁ l' = .ok c' := by
  induction l generalizing c with
  | nil =>
    constructor
    · exact fun h => ⟨c, rfl, h⟩
    · rintro ⟨c₁, ⟨⟩, h⟩
      exact h
  | cons output l ih =>
    rw [List.cons_append]
    simp only [checkOutputset_cons, ih]
    constructor
    · rintro ⟨c₂, hc₂, c₁, hc₁, h⟩
      exact ⟨c₁, ⟨c₂, hc₂, hc₁⟩, h⟩
    · rintro ⟨c₁, ⟨c₂, hc₂, hc₁⟩, h⟩
      exact ⟨c₂, hc₂, c₁, hc₁, h⟩

/-- The groups matter for the text of an error only. -/
theorem checkGroups_ok (groups : List (List ParsedEngineOutput)) :
    checkGroups ptype stype c groups = .ok c' ↔
      checkCorrectnessOutputset ptype stype c groups.flatten = .ok c' := by
  induction groups generalizing c with
  | nil => rfl
  | cons outputset groups ih =>
    rw [List.flatten_cons, checkOutputset_append]
    unfold checkGroups
    cases hset : checkCorrectnessOutputset ptype stype c outputset with
    | ok c₁ =>
      simp only [bind_ok, Except.ok.injEq, exists_eq_left', ih]
    | error what =>
      constructor
      · intro h
        dsimp only at h
        split at h <;> cases h
      · rintro ⟨c₁, ⟨⟩, -⟩

theorem Orders.init_some {commands : List (Command UInt32 Bytes)} {id : UInt32} {o : OrderStatus}
    (h : Orders.init commands id = some o) : o.orderId = id ∧ o.state = .active := by
  induction commands with
  | nil => cases h
  | cons command commands ih =>
    cases command with
    | order sd orderId instrument price count inputTime =>
      unfold Orders.init at h
      by_cases hid : id = orderId
      · subst hid
        rw [Function.update_self] at h
        cases h
        exact ⟨rfl, rfl⟩
      · rw [Function.update_of_ne hid] at h
        exact ih h
    | cancel orderId inputTime => exact ih h

theorem synced_init (ptype : PriorityType) (stype : SortByTimestampType)
    (commands : List (Command UInt32 Bytes)) :
    Synced ptype stype { orders := Orders.init commands, book := fun _ => InstBook.empty } := by
  have hnone : ∀ i sd id, ¬ ∃ o, Rests (Orders.init commands) i sd id o := by
    rintro i sd id ⟨o, ho⟩
    have hb := ho.booked
    rw [(Orders.init_some ho.status).2] at hb
    cases hb
  have hside : ∀ sd, InstBook.empty.side sd = [] := by
    intro sd
    cases sd <;> rfl
  constructor
  · exact fun id o ho => (Orders.init_some ho).1
  · intro i id p
    constructor
    · rintro ⟨⟩
    · rintro ⟨-, sd, ho⟩
      exact absurd ho (hnone i sd id)
  · intro i sd id
    rw [hside]
    exact ⟨fun h => absurd h List.not_mem_nil, fun ho => absurd ho (hnone i sd id)⟩
  · intro i sd
    rw [hside]
    exact List.nodup_nil
  · intro i sd
    rw [hside]
    exact List.Pairwise.nil

theorem uncrossed_init (commands : List (Command UInt32 Bytes)) :
    Uncrossed (Orders.init commands) := by
  intro i sd id o id' o' ho
  have hb := ho.booked
  rw [(Orders.init_some ho.status).2] at hb
  cases hb

theorem checkCorrectness_ok (commands : List (Command UInt32 Bytes)) :
    checkCorrectness ptype stype (Orders.init commands) outputs = .ok () ↔
      Lawful ptype stype (Orders.init commands) outputs := by
  have hsync := synced_init ptype stype commands
  unfold checkCorrectness
  simp only [bind_ok, checkGroups_ok, groupbytimestamp, List.flatten_splitBy]
  rw [← hsync.outputset (uncrossed_init commands)]
  constructor
  · rintro ⟨c', hc', -⟩
    exact ⟨c', hc'⟩
  · rintro ⟨c', hc'⟩
    exact ⟨c', hc', trivial⟩

theorem judge_ok {ways : List (String × PriorityType × SortByTimestampType × Bool)}
    {errors : List String} :
    judge orders outputs ways errors = .ok () ↔ ∃ way ∈ ways,
      checkCorrectness way.2.1 way.2.2.1 orders
        (if way.2.2.2 then sortByOutput outputs else outputs) = .ok () := by
  induction ways generalizing errors with
  | nil =>
    constructor
    · rintro ⟨⟩
    · rintro ⟨way, ⟨⟩, -⟩
  | cons way ways ih =>
    unfold judge
    cases hway : checkCorrectness way.2.1 way.2.2.1 orders
        (if way.2.2.2 then sortByOutput outputs else outputs) with
    | ok u => exact ⟨fun _ => ⟨way, List.mem_cons_self, hway⟩, fun _ => rfl⟩
    | error exc =>
      dsimp only
      rw [ih]
      constructor
      · rintro ⟨way', hmem, hok⟩
        exact ⟨way', List.mem_cons_of_mem _ hmem, hok⟩
      · rintro ⟨way', hmem, hok⟩
        rcases List.mem_cons.mp hmem with rfl | hmem
        · rw [hway] at hok
          cases hok
        · exact ⟨way', hmem, hok⟩

/-- The output thread accepts a log exactly if it is lawful in one of the eight ways. -/
theorem judge_iff (commands : List (Command UInt32 Bytes)) (outputs : List ParsedEngineOutput) :
    judge (Orders.init commands) outputs attempts [] = .ok () ↔ ∃ way ∈ attempts,
      Lawful way.2.1 way.2.2.1 (Orders.init commands)
        (if way.2.2.2 then sortByOutput outputs else outputs) := by
  rw [judge_ok]
  constructor
  · rintro ⟨way, hmem, hok⟩
    exact ⟨way, hmem, (checkCorrectness_ok commands).mp hok⟩
  · rintro ⟨way, hmem, hlaw⟩
    exact ⟨way, hmem, (checkCorrectness_ok commands).mpr hlaw⟩

end MatchingEngine.Cpp.Grader
