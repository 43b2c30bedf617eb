import Mathlib.Data.List.Nodup
import Mathlib.Logic.Function.Basic

/-!
# Streams read one after the other

Each sender writes to a stream of its own.  A reader takes the streams in the order in which they were
queued and reads each one to its end.  What it has read and what it has still to read is then all that
was sent, in the order of the queue, however the sends fall between the reads.
-/

/-- The streams that wait, the one that is being read, what each one holds and what has been read. -/
structure Drain (C M : Type) where
  waiting : List C
  current : Option C
  unread : C → List M
  read : List M

namespace Drain

variable {C M : Type}

/-- The streams in the order in which they were queued, and what was sent on each. -/
structure History (C M : Type) where
  queued : List C
  sent : C → List M

def History.empty : History C M := { queued := [], sent := fun _ => [] }

/-- The streams that the reader has not finished. -/
def ahead (d : Drain C M) : List C := d.current.toList ++ d.waiting

/-- The reader is through with the streams `finished` and has read `part` of the current one. -/
structure Reads (d : Drain C M) (h : History C M) (finished : List C) (part : List M) : Prop where
  queued : h.queued = finished ++ d.ahead
  nodup : h.queued.Nodup
  read : d.read = finished.flatMap h.sent ++ part
  none : d.current = none → part = []
  current : ∀ ch, d.current = some ch → h.sent ch = part ++ d.unread ch
  waiting : ∀ ch ∈ d.waiting, h.sent ch = d.unread ch
  unsent : ∀ ch, ch ∉ h.queued → h.sent ch = []

/-- What was read is what was sent, as far as the reader has come. -/
def Follows (d : Drain C M) (h : History C M) : Prop := ∃ finished part, Reads d h finished part

theorem Follows.init {d : Drain C M} (hwaiting : d.waiting = []) (hcurrent : d.current = none)
    (hread : d.read = []) : Follows d History.empty := by
  refine ⟨[], [], ?_, List.nodup_nil, hread, fun _ => rfl, ?_, ?_, fun _ _ => rfl⟩
  · rw [ahead, hwaiting, hcurrent]
    rfl
  · intro ch hch
    rw [hcurrent] at hch
    cases hch
  · intro ch hch
    rw [hwaiting] at hch
    cases hch

variable {d d' : Drain C M} {h : History C M} {ch : C}

theorem Follows.mem_queued (hf : Follows d h) (hch : ch ∈ d.ahead) : ch ∈ h.queued := by
  obtain ⟨finished, part, hr⟩ := hf
  rw [hr.queued]
  exact List.mem_append_right finished hch

theorem Follows.nodup (hf : Follows d h) : d.ahead.Nodup := by
  obtain ⟨finished, part, hr⟩ := hf
  exact (hr.queued ▸ hr.nodup).of_append_right

/-- All that was sent is read or waits, in the order of the queue. -/
theorem Follows.read_append (hf : Follows d h) :
    d.read ++ d.ahead.flatMap d.unread = h.queued.flatMap h.sent := by
  obtain ⟨finished, part, hr⟩ := hf
  have hwaiting : d.waiting.flatMap d.unread = d.waiting.flatMap h.sent := by
    rw [List.flatMap_congr]
    exact fun ch hch => (hr.waiting ch hch).symm
  rw [hr.read, hr.queued, List.flatMap_append, List.append_assoc]
  congr 1
  rw [ahead, List.flatMap_append, List.flatMap_append, hwaiting, ← List.append_assoc]
  congr 1
  cases hcurrent : d.current with
  | none => rw [hr.none hcurrent]; rfl
  | some ch =>
    rw [Option.toList_some, List.flatMap_singleton, List.flatMap_singleton, hr.current ch hcurrent]

theorem Follows.unsent (hf : Follows d h) (hch : ch ∉ h.queued) : h.sent ch = [] := by
  obtain ⟨finished, part, hr⟩ := hf
  exact hr.unsent ch hch

/-- What is on streams that nobody has queued does not matter. -/
theorem Follows.congr (hf : Follows d h) (hwaiting : d'.waiting = d.waiting)
    (hcurrent : d'.current = d.current) (hread : d'.read = d.read)
    (hunread : ∀ ch ∈ d.ahead, d'.unread ch = d.unread ch) : Follows d' h := by
  obtain ⟨finished, part, hr⟩ := hf
  refine ⟨finished, part, ?_, hr.nodup, ?_, ?_, ?_, ?_, hr.unsent⟩
  · rw [ahead, hcurrent, hwaiting]
    exact hr.queued
  · rw [hread]
    exact hr.read
  · rw [hcurrent]
    exact hr.none
  · intro ch hch
    rw [hcurrent] at hch
    have hmem : ch ∈ d.ahead := by
      rw [ahead, hch]
      exact List.mem_append_left _ (List.mem_singleton_self ch)
    rw [hunread ch hmem]
    exact hr.current ch hch
  · intro ch hch
    rw [hwaiting] at hch
    rw [hunread ch (List.mem_append_right _ hch)]
    exact hr.waiting ch hch

/-- An empty stream that was not queued before is queued. -/
theorem Follows.queue (hf : Follows d h) (hch : ch ∉ h.queued)
    (hwaiting : d'.waiting = d.waiting ++ [ch]) (hcurrent : d'.current = d.current)
    (hread : d'.read = d.read) (hempty : d'.unread ch = [])
    (hunread : ∀ c ∈ d.ahead, d'.unread c = d.unread c) :
    Follows d' { h with queued := h.queued ++ [ch] } := by
  obtain ⟨finished, part, hr⟩ := hf
  have hsent := hr.unsent ch hch
  have hahead : d'.ahead = d.ahead ++ [ch] := by
    rw [ahead, ahead, hcurrent, hwaiting, List.append_assoc]
  refine ⟨finished, part, ?_, ?_, ?_, ?_, ?_, ?_, ?_⟩
  · rw [hahead, ← List.append_assoc, ← hr.queued]
  · exact List.nodup_append.mpr ⟨hr.nodup, List.nodup_singleton ch, by
      rintro a ha b hb rfl
      exact hch (List.mem_singleton.mp hb ▸ ha)⟩
  · rw [hread]
    exact hr.read
  · rw [hcurrent]
    exact hr.none
  · intro c hc
    rw [hcurrent] at hc
    have hmem : c ∈ d.ahead := by
      rw [ahead, hc]
      exact List.mem_append_left _ (List.mem_singleton_self c)
    rw [hunread c hmem]
    exact hr.current c hc
  · intro c hc
    rw [hwaiting] at hc
    rcases List.mem_append.mp hc with hc | hc
    · rw [hunread c (List.mem_append_right _ hc)]
      exact hr.waiting c hc
    · rw [List.mem_singleton.mp hc, hempty]
      exact hsent
  · intro c hc
    exact hr.unsent c fun hmem => hc (List.mem_append_left _ hmem)

/-- The reader takes the next stream. -/
theorem Follows.take (hf : Follows d h) (hcurrent : d.current = none)
    (hwaiting : d.waiting = ch :: d'.waiting) (hcurrent' : d'.current = some ch)
    (hread : d'.read = d.read) (hunread : d'.unread = d.unread) : Follows d' h := by
  obtain ⟨finished, part, hr⟩ := hf
  have hahead : d'.ahead = d.ahead := by
    rw [ahead, ahead, hcurrent, hcurrent', hwaiting]
    rfl
  have hpart := hr.none hcurrent
  refine ⟨finished, part, ?_, hr.nodup, ?_, ?_, ?_, ?_, hr.unsent⟩
  · rw [hahead]
    exact hr.queued
  · rw [hread]
    exact hr.read
  · rw [hcurrent']
    intro hnone
    cases hnone
  · intro c hc
    rw [hcurrent'] at hc
    cases hc
    rw [hpart, hunread]
    exact hr.waiting ch (hwaiting ▸ List.mem_cons_self)
  · intro c hc
    rw [hunread]
    exact hr.waiting c (hwaiting ▸ List.mem_cons_of_mem ch hc)

/-- The reader is through with a stream that holds nothing more. -/
theorem Follows.finish (hf : Follows d h) (hcurrent : d.current = some ch) (hempty : d.unread ch = [])
    (hwaiting : d'.waiting = d.waiting) (hcurrent' : d'.current = none) (hread : d'.read = d.read)
    (hunread : d'.unread = d.unread) : Follows d' h := by
  obtain ⟨finished, part, hr⟩ := hf
  have hsent := hr.current ch hcurrent
  rw [hempty, List.append_nil] at hsent
  refine ⟨finished ++ [ch], [], ?_, hr.nodup, ?_, fun _ => rfl, ?_, ?_, hr.unsent⟩
  · rw [hr.queued, ahead, ahead, hcurrent, hcurrent', hwaiting, List.append_assoc]
    rfl
  · rw [hread, hr.read, List.flatMap_append, List.flatMap_singleton, hsent, List.append_nil]
  · intro c hc
    rw [hcurrent'] at hc
    cases hc
  · intro c hc
    rw [hwaiting] at hc
    rw [hunread]
    exact hr.waiting c hc

variable [DecidableEq C]

/-- A message is sent on a stream that the reader has not finished. -/
theorem Follows.send (hf : Follows d h) (m : M) (hch : ch ∈ d.ahead)
    (hwaiting : d'.waiting = d.waiting) (hcurrent : d'.current = d.current) (hread : d'.read = d.read)
    (hunread : d'.unread = Function.update d.unread ch (d.unread ch ++ [m])) :
    Follows d' { h with sent := Function.update h.sent ch (h.sent ch ++ [m]) } := by
  have hmem := hf.mem_queued hch
  obtain ⟨finished, part, hr⟩ := hf
  have hdisj : ∀ c ∈ finished, c ≠ ch := by
    rintro c hc rfl
    have hnodup := hr.nodup
    rw [hr.queued] at hnodup
    exact List.disjoint_of_nodup_append hnodup hc hch
  refine ⟨finished, part, ?_, hr.nodup, ?_, ?_, ?_, ?_, ?_⟩
  · rw [ahead, hcurrent, hwaiting]
    exact hr.queued
  · rw [hread, hr.read]
    congr 1
    apply List.flatMap_congr
    intro c hc
    exact (Function.update_of_ne (hdisj c hc) ..).symm
  · rw [hcurrent]
    exact hr.none
  · intro c hc
    rw [hcurrent] at hc
    rw [hunread]
    dsimp only
    by_cases heq : c = ch
    · subst heq
      rw [Function.update_self, Function.update_self, hr.current c hc, List.append_assoc]
    · rw [Function.update_of_ne heq, Function.update_of_ne heq]
      exact hr.current c hc
  · intro c hc
    rw [hwaiting] at hc
    rw [hunread]
    dsimp only
    by_cases heq : c = ch
    · subst heq
      rw [Function.update_self, Function.update_self, hr.waiting c hc]
    · rw [Function.update_of_ne heq, Function.update_of_ne heq]
      exact hr.waiting c hc
  · intro c hc
    dsimp only at hc ⊢
    rw [Function.update_of_ne (ne_of_mem_of_not_mem hmem hc).symm]
    exact hr.unsent c hc

/-- The reader reads a message. -/
theorem Follows.readOne (hf : Follows d h) {m : M} {ms : List M} (hcurrent : d.current = some ch)
    (hms : d.unread ch = m :: ms) (hwaiting : d'.waiting = d.waiting)
    (hcurrent' : d'.current = some ch) (hread : d'.read = d.read ++ [m])
    (hunread : d'.unread = Function.update d.unread ch ms) : Follows d' h := by
  have hnodup := hf.nodup
  obtain ⟨finished, part, hr⟩ := hf
  rw [ahead, hcurrent, Option.toList_some, List.singleton_append, List.nodup_cons] at hnodup
  refine ⟨finished, part ++ [m], ?_, hr.nodup, ?_, ?_, ?_, ?_, hr.unsent⟩
  · rw [ahead, hcurrent', ← hcurrent, hwaiting]
    exact hr.queued
  · rw [hread, hr.read, List.append_assoc]
  · rw [hcurrent']
    intro hnone
    cases hnone
  · intro c hc
    rw [hcurrent'] at hc
    cases hc
    rw [hunread, Function.update_self, hr.current ch hcurrent, hms, List.append_assoc]
    rfl
  · intro c hc
    rw [hwaiting] at hc
    rw [hunread, Function.update_of_ne (ne_of_mem_of_not_mem hc hnodup.1)]
    exact hr.waiting c hc

end Drain
