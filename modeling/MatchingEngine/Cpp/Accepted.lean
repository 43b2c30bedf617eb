import MatchingEngine.Cpp.Verdict
import MatchingEngine.Cpp.Reference
import MatchingEngine.OutputLines

/-!
# The grader accepts the engine, one command at a time

What the grader holds of the orders follows the reference book line by line, so that every line the
reference emits is permitted when the grader comes to it.
-/

namespace MatchingEngine.Cpp.Grader

open Text PriceTime
open Quantity (value)

variable {m m' : Market Bytes} {orders orders' : Orders} {i : Bytes} {sd : Side}
  {id nid price limit : UInt32} {q : ℕ} {r : Resting UInt32 ℤ} {output : ParsedEngineOutput}
  {outputs : List ParsedEngineOutput}

/-! ## Statuses and the reference book -/

/-- The status of an order that rests in the reference book. -/
structure Stands (orders : Orders) (i : Bytes) (sd : Side) (id : UInt32) (r : Resting UInt32 ℤ)
    (o : OrderStatus) : Prop where
  rests : Rests orders i sd id o
  price : o.price = r.price
  input : o.inputTimestamp = r.key.toNat * 1000
  key : 0 ≤ r.key
  count : o.filledCount.toNat + r.count = o.count.toNat
  open' : 0 < r.count
  executionId : o.executionId.toNat + 1 = r.nextExec

/-- The booked orders are those of the reference book. -/
structure Follows (m : Market Bytes) (orders : Orders) : Prop where
  stands : ∀ i sd id r, m i sd id = some r → ∃ o, Stands orders i sd id r o
  rests : ∀ i sd id o, Rests orders i sd id o → ∃ r, m i sd id = some r

/-- The order of the command under way, of which `q` is open. -/
structure Incoming (sd : Side) (i : Bytes) (id price : UInt32) (q : ℕ) (n : OrderStatus) : Prop where
  type : n.type = sd
  instrument : n.instrument = i
  price : n.price = price
  count : n.filledCount.toNat + q = n.count.toNat
  executionId : n.executionId = 0
  active : 0 < q → n.state = .active
  unbooked : n.state ≠ .booked

/-- Orders other than the new one that have not come up are as before, and none is gone. -/
structure Frame (new : Option UInt32) (orders orders' : Orders) : Prop where
  active : ∀ p o, new ≠ some p → orders p = some o → o.state = .active → orders' p = some o
  known : ∀ p, orders p ≠ none → orders' p ≠ none

theorem Frame.refl (new : Option UInt32) (orders : Orders) : Frame new orders orders where
  active := fun _ _ _ ho _ => ho
  known := fun _ h => h

theorem Frame.trans {new : Option UInt32} {orders'' : Orders} (h : Frame new orders orders')
    (h' : Frame new orders' orders'') : Frame new orders orders'' where
  active := fun p o hp ho ha => h'.active p o hp (h.active p o hp ho ha) ha
  known := fun p hp => h'.known p (h.known p hp)

theorem modify_ne_none {f : OrderStatus → OrderStatus} {p : UInt32} (h : orders p ≠ none) :
    modify orders id f p ≠ none := by
  by_cases hp : p = id
  · subst hp
    unfold modify
    rw [Function.update_self]
    exact Option.some_ne_none _
  · rwa [modify_of_ne hp]

theorem Follows.stands_of_rests (h : Follows m orders) {o : OrderStatus} (ho : Rests orders i sd id o) :
    ∃ r, m i sd id = some r ∧ Stands orders i sd id r o := by
  rcases h.rests i sd id o ho with ⟨r, hr⟩
  rcases h.stands i sd id r hr with ⟨o', ho'⟩
  cases ho.status.symm.trans ho'.rests.status
  exact ⟨r, hr, ho'⟩

/-- An order rests in one place. -/
theorem Follows.place (h : Follows m orders) {j : Bytes} {sd' : Side} {r' : Resting UInt32 ℤ}
    (hr : m i sd id = some r) (hr' : m j sd' id = some r') : i = j ∧ sd = sd' := by
  rcases h.stands i sd id r hr with ⟨o, ho⟩
  rcases h.stands j sd' id r' hr' with ⟨o', ho'⟩
  cases ho.rests.status.symm.trans ho'.rests.status
  exact ⟨ho.rests.instrument.symm.trans ho'.rests.instrument, ho.rests.type.symm.trans ho'.rests.type⟩

/-- A status that is written at orders that do not rest. -/
theorem Follows.of_unbooked (h : Follows m orders)
    (hsame : ∀ p o, o.state = .booked → (orders p = some o ↔ orders' p = some o)) :
    Follows m orders' where
  stands := by
    intro i sd id r hr
    rcases h.stands i sd id r hr with ⟨o, ho⟩
    have hstatus := (hsame id o ho.rests.booked).mp ho.rests.status
    exact ⟨o, ⟨⟨hstatus, ho.rests.booked, ho.rests.instrument, ho.rests.type⟩, ho.price, ho.input,
      ho.key, ho.count, ho.open', ho.executionId⟩⟩
  rests := by
    intro i sd id o ho
    have hstatus := (hsame id o ho.booked).mpr ho.status
    exact h.rests i sd id o ⟨hstatus, ho.booked, ho.instrument, ho.type⟩

/-- What becomes of one resting order, the others being as before. -/
theorem Follows.set (h : Follows m orders) (hr : m i sd id = some r) {r' : Option (Resting UInt32 ℤ)}
    (hother : ∀ p, p ≠ id → orders' p = orders p)
    (hself : ∀ r₁, r' = some r₁ → ∃ o, Stands orders' i sd id r₁ o)
    (hnone : r' = none → ∀ o, orders' id = some o → o.state ≠ .booked) :
    Follows (m.set i sd (Function.update (m i sd) id r')) orders' where
  stands := by
    intro j sd' p r₁ hr₁
    rw [Market.set_apply] at hr₁
    by_cases hp : p = id
    · subst hp
      split at hr₁
      next hat =>
        rcases hat with ⟨rfl, rfl⟩
        rw [Function.update_self] at hr₁
        exact hself r₁ hr₁
      next hat =>
        rcases h.place hr₁ hr with ⟨rfl, rfl⟩
        exact absurd ⟨rfl, rfl⟩ hat
    · have hold : m j sd' p = some r₁ := by
        split at hr₁
        next hat =>
          rcases hat with ⟨rfl, rfl⟩
          rwa [Function.update_of_ne hp] at hr₁
        next => exact hr₁
      rcases h.stands j sd' p r₁ hold with ⟨o, ho⟩
      exact ⟨o, ⟨⟨(hother p hp).trans ho.rests.status, ho.rests.booked, ho.rests.instrument,
        ho.rests.type⟩, ho.price, ho.input, ho.key, ho.count, ho.open', ho.executionId⟩⟩
  rests := by
    intro j sd' p o ho
    rw [Market.set_apply]
    by_cases hp : p = id
    · subst hp
      cases hr' : r' with
      | none => exact absurd ho.booked (hnone hr' o ho.status)
      | some r₁ =>
        rcases hself r₁ hr' with ⟨o', ho'⟩
        cases ho.status.symm.trans ho'.rests.status
        have hj := ho.instrument.symm.trans ho'.rests.instrument
        have hsd := ho.type.symm.trans ho'.rests.type
        rw [if_pos ⟨hj, hsd⟩, Function.update_self]
        exact ⟨r₁, rfl⟩
    · rcases h.rests j sd' p o ⟨(hother p hp).symm.trans ho.status, ho.booked, ho.instrument, ho.type⟩
        with ⟨r₁, hr₁⟩
      refine ⟨r₁, ?_⟩
      split
      next hat =>
        rcases hat with ⟨rfl, rfl⟩
        rwa [Function.update_of_ne hp]
      next => exact hr₁

/-! ## Line by line -/

theorem toNat_add_of_le {a b c : UInt32} (h : a.toNat + b.toNat ≤ c.toNat) :
    (a + b).toNat = a.toNat + b.toNat := by
  rw [UInt32.toNat_add]
  exact Nat.mod_eq_of_lt (lt_of_le_of_lt h c.toNat_lt)

/-- A status after `c` more are filled, of which there were enough. -/
theorem take_settle {o : OrderStatus} {c : UInt32} {k : ℕ}
    (h : o.filledCount.toNat + (c.toNat + k) = o.count.toNat) :
    (o.take c).filledCount.toNat + k = o.count.toNat ∧ ((o.take c).full = true ↔ k = 0) := by
  have hadd : (o.take c).filledCount.toNat = o.filledCount.toNat + c.toNat :=
    toNat_add_of_le (c := o.count) (by omega)
  refine ⟨by rw [hadd]; omega, ?_⟩
  unfold OrderStatus.full
  rw [decide_eq_true_iff, ← UInt32.toNat_inj, hadd]
  show o.filledCount.toNat + c.toNat = o.count.toNat ↔ k = 0
  omega

theorem filledCount_settle (o : OrderStatus) : o.settle.filledCount = o.filledCount := by
  unfold OrderStatus.settle
  split <;> rfl

theorem count_settle (o : OrderStatus) : o.settle.count = o.count := by
  unfold OrderStatus.settle
  split <;> rfl

theorem inputTimestamp_settle (o : OrderStatus) : o.settle.inputTimestamp = o.inputTimestamp := by
  unfold OrderStatus.settle
  split <;> rfl

theorem executionId_settle (o : OrderStatus) : o.settle.executionId = o.executionId := by
  unfold OrderStatus.settle
  split <;> rfl

/-- The execution id of the line is the next one. -/
theorem Stands.executionId_succ {o : OrderStatus} (ho : Stands orders i sd id r o) {e : UInt32}
    (he : e.toNat = r.nextExec) : o.executionId + 1 = e := by
  apply UInt32.toNat.inj
  rw [UInt32.toNat_add, UInt32.toNat_one, ho.executionId, ← he]
  exact Nat.mod_eq_of_lt e.toNat_lt

/-- The resting order of a trade, if it is not filled by it. -/
theorem Stands.trade {o : OrderStatus} (ho : Stands orders i sd id r o) {c e : UInt32}
    (hc : c.toNat < r.count) (he : e.toNat = r.nextExec) :
    Stands (modify orders id fun r => (r.take c).execute.settle) i sd id
      { r with count := r.count - c.toNat, nextExec := r.nextExec + 1 }
      (o.take c).execute.settle := by
  have hcount := ho.count
  rcases take_settle (o := o) (c := c) (k := r.count - c.toNat) (by omega) with ⟨hfilled, hfull⟩
  have hopen : ¬ (o.take c).execute.full = true := by
    intro h
    have hzero := hfull.mp h
    omega
  have hsettle : (o.take c).execute.settle = (o.take c).execute := by
    unfold OrderStatus.settle
    rw [if_neg hopen]
  constructor
  · exact ⟨modify_self ho.rests.status, by rw [hsettle]; exact ho.rests.booked,
      by rw [hsettle]; exact ho.rests.instrument, by rw [hsettle]; exact ho.rests.type⟩
  · rw [hsettle]
    exact ho.price
  · rw [hsettle]
    exact ho.input
  · exact ho.key
  · rw [hsettle]
    exact hfilled
  · exact Nat.sub_pos_of_lt hc
  · rw [hsettle]
    show (o.executionId + 1).toNat + 1 = r.nextExec + 1
    rw [ho.executionId_succ he, he]

/-- A trade with the order that the reference takes. -/
theorem Follows.executed (h : Follows m orders) (hel : Eligible sd (m i sd) limit id r)
    {n : OrderStatus} (hn : orders nid = some n) (hin : Incoming sd.opp i nid price q n) (hq : 0 < q)
    {c e : UInt32} (hpar : output.parsed = .exec id nid e r.price c) (he : e.toNat = r.nextExec)
    (hc : c.toNat = min q r.count) :
    Permits .priceTime .input orders output ∧
    Follows (m.set i sd (afterTrade (m i sd) id r (min q r.count))) (after orders output) ∧
    (∃ n', after orders output nid = some n' ∧
      Incoming sd.opp i nid price (q - min q r.count) n') ∧ Frame (some nid) orders (after orders output) := by
  rcases h.stands i sd id r hel.resting with ⟨o, ho⟩
  have ha : n.state = .active := hin.active hq
  have hne : nid ≠ id := by
    rintro rfl
    cases hn.symm.trans ho.rests.status
    have hb := ho.rests.booked
    rw [ha] at hb
    cases hb
  have hcount := ho.count
  have hcount' := hin.count
  have hafter : after orders output = traded orders id nid c := by
    unfold after
    rw [hpar]
    rfl
  have hn' : modify orders id (fun r => (r.take c).execute.settle) nid = some n :=
    (modify_of_ne hne).trans hn
  rcases take_settle (o := n) (c := c) (k := q - c.toNat) (by omega) with ⟨hfilled, hfull⟩
  have hincoming : Incoming sd.opp i nid price (q - min q r.count) (n.take c).settle := by
    constructor
    · exact (type_settle _).trans hin.type
    · exact (instrument_settle _).trans hin.instrument
    · exact (price_settle _).trans hin.price
    · rw [filledCount_settle, count_settle, ← hc]
      exact hfilled
    · exact (executionId_settle _).trans hin.executionId
    · intro hpos
      rw [← hc] at hpos
      rw [state_settle, if_neg fun hf => hpos.ne' (hfull.mp hf)]
      exact ha
    · rw [state_settle]
      split
      · decide
      · exact hin.unbooked
  refine ⟨?_, ?_, ⟨(n.take c).settle, ?_, hincoming⟩, ?_⟩
  · unfold Permits
    rw [hpar]
    refine ⟨o, n, ho.rests.status, hn, ?_⟩
    constructor
    · exact ho.rests.booked
    · exact ha
    · exact ho.price
    · exact ho.rests.instrument.trans hin.instrument.symm
    · rw [ho.rests.type, hin.type, Side.opp_opp]
    · intro id' o' ho'
      rw [ho.rests.instrument, ho.rests.type] at ho'
      rcases h.stands_of_rests ho' with ⟨r', hr', hs'⟩
      -- no better price, and no earlier time at the price
      apply decide_eq_false
      rintro (hlt | ⟨heq, hlt⟩)
      · rw [hs'.price, ho.price, ho.rests.type] at hlt
        exact hel.best id' r' hr' hlt
      · rw [hs'.price, ho.price] at heq
        have hkey := hel.earliest id' r' hr' heq
        have hle : r.key.toNat ≤ r'.key.toNat := Int.toNat_le_toNat hkey
        rw [show o'.timestamp .input = _ from hs'.input, show o.timestamp .input = _ from ho.input] at hlt
        omega
    · exact ho.executionId_succ he
    · rw [UInt32.le_iff_toNat_le, toNat_add_of_le (c := o.count) (by omega)]
      omega
    · rw [UInt32.le_iff_toNat_le, toNat_add_of_le (c := n.count) (by omega)]
      omega
  · rw [hafter]
    have htrade : Follows (m.set i sd (afterTrade (m i sd) id r (min q r.count)))
        (modify orders id fun r => (r.take c).execute.settle) := by
      apply h.set hel.resting
      · exact fun p hp => modify_of_ne hp
      · intro r₁ hr₁
        split at hr₁
        next hlt =>
          cases hr₁
          rw [← hc]
          rw [← hc] at hlt
          exact ⟨_, ho.trade hlt he⟩
        · cases hr₁
      · intro hnone o' ho'
        split at hnone
        · cases hnone
        next hge =>
          rw [modify_self ho.rests.status] at ho'
          cases ho'
          rcases take_settle (o := o) (c := c) (k := 0) (by omega) with ⟨-, hfull'⟩
          have hall : (o.take c).execute.full = true := hfull'.mpr rfl
          rw [state_settle, if_pos hall]
          decide
    apply htrade.of_unbooked
    intro p o' hb
    unfold traded
    by_cases hp : p = nid
    · subst hp
      rw [hn', modify_self hn']
      constructor
      · rintro ⟨⟩
        exact absurd hb hin.unbooked
      · rintro ⟨⟩
        exact absurd hb hincoming.unbooked
    · rw [modify_of_ne hp]
  · rw [hafter]
    exact modify_self hn'
  · rw [hafter]
    refine ⟨?_, fun p hp => modify_ne_none (modify_ne_none hp)⟩
    intro p o' hp ho' ha'
    unfold traded
    rw [modify_of_ne fun heq => hp (congrArg some heq.symm)]
    by_cases hpid : p = id
    · subst hpid
      cases ho.rests.status.symm.trans ho'
      have hb := ho.rests.booked
      rw [ha'] at hb
      cases hb
    · rw [modify_of_ne hpid]
      exact ho'

/-- A remainder that is booked where nothing crosses it. -/
theorem Follows.added (h : Follows m orders) {n : OrderStatus} (hn : orders id = some n)
    (hin : Incoming sd i id price q n) (hq : 0 < q)
    (hcross : ∀ id' r', m i sd.opp id' = some r' → ¬ sd.opp.Crosses price r'.price) {c : UInt32}
    {time : ℤ} (hpar : output.parsed = .buySell sd id i price c)
    (htime : output.inputTimestamp = time.toNat * 1000) (hpos : 0 ≤ time) :
    Permits .priceTime .input orders output ∧
    Follows (m.set i sd (Function.update (m i sd) id
      (some { price, key := time, count := q, nextExec := 1 }))) (after orders output) ∧
    Frame (some id) orders (after orders output) := by
  have ha := hin.active hq
  have hafter : after orders output =
      modify orders id (.book output.inputTimestamp output.outputTimestamp) := by
    unfold after
    rw [hpar]
  have hself := modify_self (f := .book output.inputTimestamp output.outputTimestamp) hn
  have hnot : ∀ j sd' r, m j sd' id ≠ some r := by
    intro j sd' r hr
    rcases h.stands j sd' id r hr with ⟨o, ho⟩
    cases hn.symm.trans ho.rests.status
    exact hin.unbooked ho.rests.booked
  have hstands : Stands (after orders output) i sd id { price, key := time, count := q, nextExec := 1 }
      (n.book output.inputTimestamp output.outputTimestamp) := by
    rw [hafter]
    refine ⟨⟨hself, rfl, hin.instrument, hin.type⟩, hin.price, htime, hpos, hin.count, hq, ?_⟩
    show n.executionId.toNat + 1 = 1
    rw [hin.executionId]
    rfl
  have hother : ∀ p, p ≠ id → after orders output p = orders p := by
    intro p hp
    rw [hafter, modify_of_ne hp]
  refine ⟨?_, ⟨?_, ?_⟩, ?_, ?_⟩
  · unfold Permits
    rw [hpar]
    refine ⟨n, hn, ha, hin.type, ?_, hin.instrument, ?_, hin.price⟩
    · rw [UInt32.lt_iff_toNat_lt]
      have hcount := hin.count
      omega
    · intro id' o' ho'
      rcases h.stands_of_rests ho' with ⟨r', hr', hs'⟩
      rw [hs'.price]
      exact hcross id' r' hr'
  · intro j sd' p r hr
    rw [Market.set_apply] at hr
    by_cases hp : p = id
    · subst hp
      split at hr
      next hat =>
        rcases hat with ⟨rfl, rfl⟩
        rw [Function.update_self] at hr
        cases hr
        exact ⟨_, hstands⟩
      next => exact absurd hr (hnot j sd' r)
    · have hold : m j sd' p = some r := by
        split at hr
        next hat =>
          rcases hat with ⟨rfl, rfl⟩
          rwa [Function.update_of_ne hp] at hr
        next => exact hr
      rcases h.stands j sd' p r hold with ⟨o, ho⟩
      exact ⟨o, ⟨⟨(hother p hp).trans ho.rests.status, ho.rests.booked, ho.rests.instrument,
        ho.rests.type⟩, ho.price, ho.input, ho.key, ho.count, ho.open', ho.executionId⟩⟩
  · intro j sd' p o ho
    rw [Market.set_apply]
    by_cases hp : p = id
    · subst hp
      cases ho.status.symm.trans hstands.rests.status
      have hj := ho.instrument.symm.trans hin.instrument
      have hsd := ho.type.symm.trans hin.type
      rw [if_pos ⟨hj, hsd⟩, Function.update_self]
      exact ⟨_, rfl⟩
    · rcases h.rests j sd' p o ⟨(hother p hp).symm.trans ho.status, ho.booked, ho.instrument, ho.type⟩
        with ⟨r, hr⟩
      refine ⟨r, ?_⟩
      split
      next hat =>
        rcases hat with ⟨rfl, rfl⟩
        rwa [Function.update_of_ne hp]
      next => exact hr
  · exact fun p o hp ho _ => (hother p fun heq => hp (congrArg some heq.symm)).trans ho
  · rw [hafter]
    exact fun p hp => modify_ne_none hp

theorem Follows.accepted (h : Follows m orders) (hr : m i sd id = some r)
    (hpar : output.parsed = .cancel id true) :
    Permits .priceTime .input orders output ∧
    Follows (m.set i sd (Function.update (m i sd) id none)) (after orders output) ∧
    Frame none orders (after orders output) := by
  rcases h.stands i sd id r hr with ⟨o, ho⟩
  have hafter : after orders output = modify orders id .cancel := by
    unfold after
    rw [hpar]
    rfl
  refine ⟨?_, ?_, ?_, ?_⟩
  · unfold Permits
    rw [hpar]
    exact ⟨o, ho.rests.status, fun _ => ho.rests.booked, fun _ => rfl⟩
  · rw [hafter]
    apply h.set hr
    · exact fun p hp => modify_of_ne hp
    · exact fun r₁ hr₁ => absurd hr₁ (by simp)
    · intro _ o' ho'
      rw [modify_self ho.rests.status] at ho'
      cases ho'
      rintro ⟨⟩
  · intro p o' _ ho' ha
    by_cases hp : p = id
    · subst hp
      cases ho.rests.status.symm.trans ho'
      have hb := ho.rests.booked
      rw [ha] at hb
      cases hb
    · rw [hafter, modify_of_ne hp]
      exact ho'
  · rw [hafter]
    exact fun p hp => modify_ne_none hp

theorem Follows.rejected (h : Follows m orders) (hnone : ∀ i sd, m i sd id = none)
    (hknown : orders id ≠ none) (hpar : output.parsed = .cancel id false) :
    Permits .priceTime .input orders output ∧ after orders output = orders := by
  rcases Option.ne_none_iff_exists'.mp hknown with ⟨o, ho⟩
  constructor
  · unfold Permits
    rw [hpar]
    refine ⟨o, ho, ?_⟩
    constructor
    · rintro ⟨⟩
    · intro hb
      rcases h.rests o.instrument o.type id o ⟨ho, hb, rfl, rfl⟩ with ⟨r, hr⟩
      rw [hnone] at hr
      cases hr
  · unfold after
    rw [hpar]
    rfl

/-! ## One command -/

/-- The outputs that the grader parses from the lines. -/
def Prints (lines : List (Line UInt32 Bytes)) (outputs : List ParsedEngineOutput) : Prop :=
  List.Forall₂ (fun line output => output.parsed = parsedLine line ∧
    output.inputTimestamp = line.inputTime.toNat * 1000) lines outputs

theorem lawful_append {ptype : PriorityType} {stype : SortByTimestampType}
    (outputs outputs' : List ParsedEngineOutput) : Lawful ptype stype orders (outputs ++ outputs') ↔
      Lawful ptype stype orders outputs ∧ Lawful ptype stype (outputs.foldl after orders) outputs' := by
  induction outputs generalizing orders with
  | nil => exact (and_iff_right trivial).symm
  | cons output outputs ih =>
    rw [List.cons_append, Lawful, Lawful, List.foldl_cons, ih, and_assoc]

/-- Executions are numbers of a line of words. -/
theorem executed_of_toNat {line : Line UInt32 Bytes} {x : Exec UInt32 UInt32} {time : ℤ}
    (h : line.toNat = Market.execLine nid time x) : ∃ e c, e.toNat = x.execId ∧ c.toNat = x.count ∧
      parsedLine line = .exec x.restingId nid e x.price c := by
  cases line with
  | added side orderId instrument price count inputTime => cases h
  | executed restingId newId executionId price count inputTime =>
    simp only [Line.toNat, Market.execLine, Line.executed.injEq] at h
    rcases h with ⟨rfl, rfl, he, rfl, hc, -⟩
    exact ⟨executionId, count, he, hc, rfl⟩
  | deleted orderId accepted inputTime => cases h

theorem market_set_set (m : Market Bytes) (b b' : HalfBook UInt32 UInt32 ℤ) :
    (m.set i sd b).set i sd b' = m.set i sd b' := by
  funext j sd'
  rw [Market.set_apply, Market.set_apply, Market.set_apply]
  split <;> rfl

/-- All trades of a command. -/
theorem Follows.fills {b b' : HalfBook UInt32 UInt32 ℤ} {q' : ℕ} {es : List (Exec UInt32 UInt32)}
    (hfills : PriceTime.Fills sd limit b q es b' q') (h : Follows m orders) (hb : b = m i sd) {n : OrderStatus}
    (hn : orders nid = some n) (hin : Incoming sd.opp i nid price q n)
    {lines : List (Line UInt32 Bytes)} {time : ℤ}
    (hlines : lines.map Line.toNat = es.map (Market.execLine nid time))
    (hprints : Prints lines outputs) :
    Lawful .priceTime .input orders outputs ∧ Follows (m.set i sd b') (outputs.foldl after orders) ∧
    (∃ n', outputs.foldl after orders nid = some n' ∧ Incoming sd.opp i nid price q' n') ∧
    Frame (some nid) orders (outputs.foldl after orders) := by
  induction hfills generalizing m orders n lines outputs with
  | stop =>
    rw [List.map_nil, List.map_eq_nil_iff] at hlines
    subst hlines hb
    cases hprints
    refine ⟨trivial, ?_, ⟨n, hn, hin⟩, Frame.refl _ orders⟩
    rw [Market.set_eq_self]
    exact h
  | @trade b b' q q' id r es hq hel hrest ih =>
    subst hb
    cases hprints with
    | nil => cases hlines
    | @cons line output lines outputs hline hprints =>
      rw [List.map_cons, List.map_cons] at hlines
      rcases List.cons.inj hlines with ⟨hfirst, hlines⟩
      rcases executed_of_toNat hfirst with ⟨e, c, he, hc, hpar⟩
      rcases h.executed hel hn hin hq (hline.1.trans hpar) he hc with
        ⟨hpermits, hfollows, ⟨n', hn', hin'⟩, hframe⟩
      rcases ih hfollows (by rw [Market.set_apply, if_pos ⟨rfl, rfl⟩]) hn' hin' hlines hprints with
        ⟨hlawful, hfollows', hincoming, hframe'⟩
      refine ⟨⟨hpermits, hlawful⟩, ?_, hincoming, hframe.trans hframe'⟩
      rw [market_set_set] at hfollows'
      exact hfollows'

/-- Where a pass ends, nothing crosses what is left. -/
theorem uncrossed_of_fills {b b' : HalfBook UInt32 UInt32 ℤ} {q' : ℕ} {es : List (Exec UInt32 UInt32)}
    (h : PriceTime.Fills sd limit b q es b' q') (hq : 0 < q') :
    ∀ id r, b' id = some r → ¬ sd.Crosses limit r.price := by
  induction h with
  | stop h => exact h.resolve_left hq.ne'
  | trade _ _ _ ih => exact ih hq

theorem Prints.append {lines lines' : List (Line UInt32 Bytes)} (h : Prints (lines ++ lines') outputs) :
    ∃ outs outs', outputs = outs ++ outs' ∧ Prints lines outs ∧ Prints lines' outs' := by
  induction lines generalizing outputs with
  | nil => exact ⟨[], outputs, rfl, .nil, h⟩
  | cons line lines ih =>
    cases h with
    | cons hline hrest =>
      rcases ih hrest with ⟨outs, outs', rfl, hl, hr⟩
      exact ⟨_ :: outs, outs', rfl, .cons hline hl, hr⟩

/-- The grader has taken up the order, or the order of the cancel. -/
def Registered (orders : Orders) : Command UInt32 Bytes → Prop
  | .order sd id instrument price count _ => orders id = some (.new sd id price count instrument)
  | .cancel id _ => orders id ≠ none

theorem Registered.frame {c : Command UInt32 Bytes} {new : Option UInt32} (h : Registered orders c)
    (hf : Frame new orders orders') (hne : ∀ id, newId c = some id → new ≠ some id) :
    Registered orders' c := by
  cases c with
  | order sd id instrument price count time => exact hf.active id _ (hne id rfl) h rfl
  | cancel id time => exact hf.known id h

/-- One line that comes from the number version of it. -/
theorem added_of_toNat {line : Line UInt32 Bytes} {time : ℤ}
    (h : line.toNat = .added sd id i price q time) :
    ∃ c, parsedLine line = .buySell sd id i price c ∧ line.inputTime = time := by
  cases line with
  | added side orderId instrument price count inputTime =>
    simp only [Line.toNat, Line.added.injEq] at h
    rcases h with ⟨rfl, rfl, rfl, rfl, -, rfl⟩
    exact ⟨count, rfl, rfl⟩
  | executed restingId newId executionId price count inputTime => cases h
  | deleted orderId accepted inputTime => cases h

theorem deleted_of_toNat {line : Line UInt32 Bytes} {accept : Bool} {time : ℤ}
    (h : line.toNat = .deleted id accept time) : parsedLine line = .cancel id accept := by
  cases line with
  | added side orderId instrument price count inputTime => cases h
  | executed restingId newId executionId price count inputTime => cases h
  | deleted orderId accepted inputTime =>
    simp only [Line.toNat, Line.deleted.injEq] at h
    rcases h with ⟨rfl, rfl, -⟩
    rfl

/-- The lines of a command are permitted one after the other. -/
theorem Follows.command (h : Follows m orders) {c : Command UInt32 Bytes}
    {lines : List (Line UInt32 Bytes)} (hstep : Market.Step m c (lines.map Line.toNat) m')
    (hreg : Registered orders c) (htime : 0 ≤ c.inputTime) (hprints : Prints lines outputs) :
    Lawful .priceTime .input orders outputs ∧ Follows m' (outputs.foldl after orders) ∧
      Frame (newId c) orders (outputs.foldl after orders) := by
  generalize hlines : lines.map Line.toNat = out at hstep
  cases hstep with
  | @filled sd orderId price i count time es b hfills =>
    have hin : Incoming sd.opp.opp i orderId price (value count) (.new sd orderId price count i) := by
      rw [Side.opp_opp]
      exact ⟨rfl, rfl, rfl, Nat.zero_add _, rfl, fun _ => rfl, by rintro ⟨⟩⟩
    rcases h.fills hfills rfl hreg hin hlines hprints with ⟨hlawful, hfollows, -, hframe⟩
    exact ⟨hlawful, hfollows, hframe⟩
  | @booked sd orderId price i count time es b q hq hfills =>
    have hin : Incoming sd.opp.opp i orderId price (value count) (.new sd orderId price count i) := by
      rw [Side.opp_opp]
      exact ⟨rfl, rfl, rfl, Nat.zero_add _, rfl, fun _ => rfl, by rintro ⟨⟩⟩
    rcases List.map_eq_append_iff.mp hlines with ⟨trades, last, rfl, htrades, hlast⟩
    rcases List.map_eq_singleton_iff.mp hlast with ⟨line, rfl, hline⟩
    rcases hprints.append with ⟨outs, outs', rfl, houts, houts'⟩
    rcases h.fills hfills rfl hreg hin htrades houts with ⟨hlawful, hfollows, ⟨n, hn, hin'⟩, hframe⟩
    cases houts' with
    | @cons _ output _ outs'' hprint hnil =>
      cases hnil
      rw [Side.opp_opp] at hin'
      rcases added_of_toNat hline with ⟨c, hpar, hinput⟩
      have hcross : ∀ id' r', m.set i sd.opp b i sd.opp id' = some r' →
          ¬ sd.opp.Crosses price r'.price := by
        rw [Market.set_apply, if_pos ⟨rfl, rfl⟩]
        exact uncrossed_of_fills hfills hq
      have hstamp : output.inputTimestamp = time.toNat * 1000 := by rw [hprint.2, hinput]
      rcases hfollows.added hn hin' hq hcross (hprint.1.trans hpar) hstamp htime with
        ⟨hpermits, hfollows', hframe'⟩
      rw [Market.set_apply, if_neg fun hat => Side.ne_opp sd hat.2] at hfollows'
      rw [lawful_append, List.foldl_append]
      exact ⟨⟨hlawful, hpermits, trivial⟩, hfollows', hframe.trans hframe'⟩
  | @accepted i sd orderId r time time' hr =>
    rcases List.map_eq_singleton_iff.mp hlines with ⟨line, rfl, hline⟩
    cases hprints with
    | @cons _ output _ outs hprint hnil =>
      cases hnil
      rcases h.accepted hr (hprint.1.trans (deleted_of_toNat hline)) with ⟨hpermits, hfollows, hframe⟩
      exact ⟨⟨hpermits, trivial⟩, hfollows, hframe⟩
  | @rejected orderId time time' hnone =>
    rcases List.map_eq_singleton_iff.mp hlines with ⟨line, rfl, hline⟩
    cases hprints with
    | @cons _ output _ outs hprint hnil =>
      cases hnil
      rcases h.rejected hnone hreg (hprint.1.trans (deleted_of_toNat hline)) with ⟨hpermits, hafter⟩
      refine ⟨⟨hpermits, trivial⟩, ?_, ?_⟩
      · rw [List.foldl_cons, List.foldl_nil, hafter]
        exact h
      · rw [List.foldl_cons, List.foldl_nil, hafter]
        exact Frame.refl none orders

/-! ## A run -/

section Run

variable {e : Engine UInt32 Bytes} {used : UInt32 → Prop} {cs : List (Command UInt32 Bytes)}

theorem Follows.run (h : Follows e.resting orders) (ht : e.Tidy used) (hids : (cs.filterMap newId).Nodup)
    (hfresh : ∀ id ∈ cs.filterMap newId, ¬ used id) (hpriced : ∀ c ∈ cs, Priced c)
    (hreg : ∀ c ∈ cs, Registered orders c) (htimes : ∀ c ∈ cs, 0 ≤ c.inputTime)
    (hprints : Prints (e.run cs).2 outputs) : Lawful .priceTime .input orders outputs := by
  induction cs generalizing e used orders outputs with
  | nil =>
    cases hprints
    trivial
  | cons c cs ih =>
    rw [Engine.run] at hprints
    rcases Prints.append hprints with ⟨outs, outs', rfl, houts, houts'⟩
    have hstep := Engine.exec_refines ht (fun id hid => hfresh id (Engine.mem_newIds_head hid))
      (hpriced c List.mem_cons_self)
    rcases h.command hstep.1 (hreg c List.mem_cons_self) (htimes c List.mem_cons_self) houts with
      ⟨hlawful, hfollows, hframe⟩
    rw [lawful_append]
    refine ⟨hlawful, ih hfollows hstep.2 (Engine.newIds_tail hids) (Engine.newIds_tail_fresh hids hfresh)
      (fun c' hc' => hpriced c' (List.mem_cons_of_mem _ hc')) ?_
      (fun c' hc' => htimes c' (List.mem_cons_of_mem _ hc')) houts'⟩
    intro c' hc'
    apply (hreg c' (List.mem_cons_of_mem _ hc')).frame hframe
    intro id hid hnew
    rw [List.filterMap_cons, hnew] at hids
    exact (List.nodup_cons.mp hids).1 (List.mem_filterMap.mpr ⟨c', hc', hid⟩)

/-- A command that can be printed. -/
def Sendable : Command UInt32 Bytes → Prop
  | .order _ _ instrument _ _ inputTime => PrintableInstrument instrument ∧ InRange inputTime
  | .cancel _ inputTime => InRange inputTime

theorem Sendable.inRange {c : Command UInt32 Bytes} (h : Sendable c) : InRange c.inputTime := by
  cases c with
  | order sd id instrument price count inputTime => exact h.2
  | cancel id inputTime => exact h

/-- The orders in the map were received at times that can be printed. -/
def KnownInRange (known : HashMap UInt32 (InputType × UInt32 × UInt32 × Bytes × ℤ)) : Prop :=
  ∀ id header, known id = some header → InRange header.2.2.2.2

theorem KnownInRange.put {known : HashMap UInt32 (InputType × UInt32 × UInt32 × Bytes × ℤ)}
    (h : KnownInRange known) {header : InputType × UInt32 × UInt32 × Bytes × ℤ}
    (hnew : InRange header.2.2.2.2) : KnownInRange (known.put id header) := by
  intro id' header' hid'
  unfold HashMap.put at hid'
  cases hold : known id with
  | some old =>
    rw [hold] at hid'
    exact h id' header' hid'
  | none =>
    rw [hold] at hid'
    dsimp only at hid'
    by_cases heq : id' = id
    · subst heq
      rw [Function.update_self] at hid'
      cases hid'
      exact hnew
    · rw [Function.update_of_ne heq] at hid'
      exact h id' header' hid'

theorem KnownInRange.remove {known : HashMap UInt32 (InputType × UInt32 × UInt32 × Bytes × ℤ)}
    (h : KnownInRange known) : KnownInRange (known.remove id) := by
  intro id' header' hid'
  unfold HashMap.remove at hid'
  by_cases heq : id' = id
  · subst heq
    rw [Function.update_self] at hid'
    cases hid'
  · rw [Function.update_of_ne heq] at hid'
    exact h id' header' hid'

theorem exec_printable (ht : e.Tidy used) {c : Command UInt32 Bytes}
    (hfresh : ∀ id, newId c = some id → ¬ used id) (hc : Priced c) (hsend : Sendable c)
    (hknown : KnownInRange e.view.known) :
    (∀ line ∈ (e.exec c).2, line.Printable ∧ InRange line.inputTime) ∧
      KnownInRange (e.exec c).1.view.known := by
  rcases Engine.exec_view ht.ptr c hfresh with ⟨hview, hout, -⟩
  have hstep := (Engine.exec_refines ht hfresh hc).1
  rw [hview]
  cases c with
  | order sd orderId i price count time =>
    constructor
    · -- every line is about the command
      have hlines : ∀ line ∈ (e.exec (.order sd orderId i price count time)).2.map Line.toNat,
          (∃ x, line = Market.execLine orderId time x) ∨ ∃ q, line = .added sd orderId i price q time := by
        generalize (e.exec (.order sd orderId i price count time)).2.map Line.toNat = out at hstep
        generalize (e.exec (.order sd orderId i price count time)).1.resting = m' at hstep
        cases hstep with
        | filled hfills =>
          intro line hline
          rcases List.mem_map.mp hline with ⟨x, -, rfl⟩
          exact Or.inl ⟨x, rfl⟩
        | booked hq hfills =>
          intro line hline
          rcases List.mem_append.mp hline with hline | hline
          · rcases List.mem_map.mp hline with ⟨x, -, rfl⟩
            exact Or.inl ⟨x, rfl⟩
          · exact Or.inr ⟨_, List.mem_singleton.mp hline⟩
      intro line hline
      rcases hlines line.toNat (List.mem_map_of_mem hline) with ⟨x, hx⟩ | ⟨q, hq⟩
      · cases line with
        | executed restingId newId executionId p count inputTime =>
          simp only [Line.toNat, Market.execLine, Line.executed.injEq] at hx
          rcases hx with ⟨-, -, -, -, -, rfl⟩
          exact ⟨trivial, hsend.2⟩
        | added => cases hx
        | deleted => cases hx
      · cases line with
        | added side id instrument p count inputTime =>
          simp only [Line.toNat, Line.added.injEq] at hq
          rcases hq with ⟨-, -, rfl, -, -, rfl⟩
          exact hsend
        | executed => cases hq
        | deleted => cases hq
    · rw [Books.exec]
      dsimp only
      split
      · apply hknown.put
        rw [matchLevels_incoming]
        exact hsend.2
      · exact hknown
  | cancel orderId time =>
    rw [hout, Books.exec]
    cases hk : e.view.known orderId with
    | none =>
      refine ⟨?_, hknown⟩
      intro line hline
      rw [List.mem_singleton.mp hline]
      exact ⟨trivial, hsend⟩
    | some header =>
      rcases header with ⟨type, id, price, i, time'⟩
      have hremoved : ∀ found : Bool,
          KnownInRange (if found then e.view.known.remove id else e.view.known) := by
        intro found
        cases found with
        | true => exact hknown.remove
        | false => exact hknown
      refine ⟨?_, hremoved _⟩
      intro line hline
      rw [List.mem_singleton.mp hline]
      exact ⟨trivial, hknown _ _ hk⟩

theorem run_printable (ht : e.Tidy used) (hids : (cs.filterMap newId).Nodup)
    (hfresh : ∀ id ∈ cs.filterMap newId, ¬ used id) (hpriced : ∀ c ∈ cs, Priced c)
    (hsend : ∀ c ∈ cs, Sendable c) (hknown : KnownInRange e.view.known) :
    ∀ line ∈ (e.run cs).2, line.Printable ∧ InRange line.inputTime := by
  induction cs generalizing e used with
  | nil => exact fun line hline => absurd hline List.not_mem_nil
  | cons c cs ih =>
    have hfresh' : ∀ id, newId c = some id → ¬ used id :=
      fun id hid => hfresh id (Engine.mem_newIds_head hid)
    have hstep := Engine.exec_refines ht hfresh' (hpriced c List.mem_cons_self)
    have hprint := exec_printable ht hfresh' (hpriced c List.mem_cons_self) (hsend c List.mem_cons_self)
      hknown
    intro line hline
    rw [Engine.run] at hline
    rcases List.mem_append.mp hline with hline | hline
    · exact hprint.1 line hline
    · exact ih hstep.2 (Engine.newIds_tail hids) (Engine.newIds_tail_fresh hids hfresh)
        (fun c' hc' => hpriced c' (List.mem_cons_of_mem _ hc'))
        (fun c' hc' => hsend c' (List.mem_cons_of_mem _ hc')) hprint.2 line hline

theorem Orders.init_order {sd : Side} {instrument : Bytes} {count : UInt32} {time : ℤ}
    (hids : (cs.filterMap newId).Nodup) (hc : .order sd id instrument price count time ∈ cs) :
    Orders.init cs id = some (.new sd id price count instrument) := by
  induction cs with
  | nil => cases hc
  | cons c cs ih =>
    rcases List.mem_cons.mp hc with rfl | hrest
    · exact Function.update_self ..
    · have htail := ih (Engine.newIds_tail hids) hrest
      cases c with
      | cancel id' time' => exact htail
      | order sd' id' i' price' count' time' =>
        have hne : id ≠ id' := by
          rintro rfl
          exact (List.nodup_cons.mp hids).1 (List.mem_filterMap.mpr ⟨_, hrest, rfl⟩)
        exact (Function.update_of_ne hne ..).trans htail

/-- What the grader has taken up before the engine starts. -/
theorem registered_init (hids : (cs.filterMap newId).Nodup)
    (hcancels : ∀ id time, .cancel id time ∈ cs → id ∈ cs.filterMap newId) :
    ∀ c ∈ cs, Registered (Orders.init cs) c := by
  intro c hc
  cases c with
  | order sd id instrument price count time => exact Orders.init_order hids hc
  | cancel id time =>
    rcases List.mem_filterMap.mp (hcancels id time hc) with ⟨c', hc', hid⟩
    cases c' with
    | cancel id' time' => cases hid
    | order sd id' instrument price count time' =>
      cases hid
      show Orders.init cs id ≠ none
      rw [Orders.init_order hids hc']
      exact Option.some_ne_none _

theorem follows_init (heap : Heap UInt32 Bytes) :
    Follows (Engine.init heap).resting (Orders.init cs) where
  stands := by
    intro i sd id r hr
    rw [Engine.resting_init] at hr
    cases hr
  rests := by
    intro i sd id o ho
    have hb := ho.booked
    rw [(Orders.init_some ho.status).2] at hb
    cases hb

/-- What the grader parses from a line that was printed at this time. -/
def parsedOf (line : Line UInt32 Bytes) (outputTime : ℤ) : ParsedEngineOutput where
  line := Cpp.Output.print line outputTime
  parsed := parsedLine line
  inputTimestamp := line.inputTime.toNat * 1000
  outputTimestamp := outputTime.toNat * 1000

theorem parsed_of_printed {lines : List (Line UInt32 Bytes)} {times : List ℤ}
    (hlen : times.length = lines.length)
    (hlines : ∀ line ∈ lines, line.Printable ∧ InRange line.inputTime)
    (htimes : ∀ time ∈ times, InRange time) :
    List.Forall₂ (fun printed output => parseEngineOutputLine printed = .ok output)
      (List.zipWith Cpp.Output.print lines times) (List.zipWith parsedOf lines times) ∧
    Prints lines (List.zipWith parsedOf lines times) := by
  induction lines generalizing times with
  | nil => exact ⟨.nil, .nil⟩
  | cons line lines ih =>
    cases times with
    | nil => cases hlen
    | cons time times =>
      rcases hlines line List.mem_cons_self with ⟨hprintable, hin⟩
      have hrest := ih (Nat.succ.inj hlen) (fun l hl => hlines l (List.mem_cons_of_mem _ hl))
        fun t ht => htimes t (List.mem_cons_of_mem _ ht)
      exact ⟨.cons (parse_print hprintable hin (htimes time List.mem_cons_self)) hrest.1,
        .cons ⟨rfl, rfl⟩ hrest.2⟩

/-- An order that trades twice, the second time with one that books its remainder, and a late cancel. -/
def tradedTwice : List (Command UInt32 Bytes) :=
  [.order .sell 1 [71, 79, 79, 71] 2700 10 0, .order .buy 2 [71, 79, 79, 71] 2705 4 1,
    .order .buy 3 [71, 79, 79, 71] 2710 8 2, .cancel 1 3]

theorem sendable_tradedTwice : ∀ c ∈ tradedTwice, Sendable c := by
  have hinstrument : PrintableInstrument [71, 79, 79, 71] := by
    refine ⟨by decide, by decide, ?_⟩
    simp only [List.forall_mem_cons]
    exact ⟨by decide, by decide, by decide, by decide, by simp⟩
  unfold tradedTwice
  simp only [List.forall_mem_cons]
  exact ⟨⟨hinstrument, by decide, by decide⟩, ⟨hinstrument, by decide, by decide⟩,
    ⟨hinstrument, by decide, by decide⟩, ⟨by decide, by decide⟩, by simp⟩

end Run

end MatchingEngine.Cpp.Grader
