import MatchingEngine.Cpp.Bindings
import MatchingEngine.Cpp.Received

/-!
# Serializability

The commands take effect one after the other: an order when it unlocks the mutex of its book, a cancel
when it locks the head of its side or misses its id.
-/

set_option linter.unusedSectionVars false

namespace MatchingEngine.Cpp

open LockChain PriceTime Serial

variable {I T : Type} [DecidableEq I] [DecidableEq T] {s s' : Sys ℕ I T} {V V' : View I T} {t u : T}
  {cmds : T → List (Command ℕ I)} {order : List (T × Command ℕ I)}

/-! ## The order of the commands -/

/-- The commands that have taken effect, in their order: by themselves they would leave what will be
    left once everything pending has happened, and print what has been printed or will be. -/
structure Serialized (s : Sys ℕ I T) (V : View I T) (order : List (T × Command ℕ I)) : Prop where
  side : (serve Books.exec Books.init order).1.side = fun i sd => half (settled (V i sd))
  served : ∀ t, share t (serve Books.exec Books.init order).2 = account s V t
  known : ∀ id, (serve Books.exec Books.init order).1.known id =
    bound id ((serve Books.exec Books.init order).2.map fun x => digest x.2)

/-- A command takes effect before the first thing that it does as a command past that point. -/
theorem Entered.early (h : Entered s s' V V' t) : (s.thread t).pc.phase.early = true := by
  cases h with
  | order hpc | cancel hpc | missed hpc =>
    rw [hpc]
    rfl

theorem Quiet.serialized (hq : Quiet s s' V V') (h : Serialized s V order) :
    Serialized s' V' order where
  side := by
    rw [h.side]
    funext i sd
    rw [hq.settled]
  served := by
    intro t
    rw [h.served, hq.account]
  known := h.known

/-- Commands with the lines they have printed and will print belong to their thread. -/
theorem Serialized.mem (h : Serialized s V order) (hsplit : s.Split cmds t)
    {x : Command ℕ I × List (Line ℕ I)} (hx : (t, x) ∈ (serve Books.exec Books.init order).2) :
    x.1 ∈ cmds t ∧ ((s.thread t).pc.entered = false → x ∈ (s.thread t).history) := by
  have hacc := mem_share.mpr hx
  rw [h.served] at hacc
  unfold account at hacc
  rw [← hsplit]
  rcases List.mem_append.mp hacc with hhist | hcur
  · exact ⟨List.mem_append_left _ (List.mem_map_of_mem hhist), fun _ => hhist⟩
  · split at hcur
    next hent =>
      rcases List.mem_map.mp hcur with ⟨c, hc, rfl⟩
      refine ⟨List.mem_append_right _ (List.mem_of_mem_head? (Option.mem_toList.mp hc)), ?_⟩
      intro hnot
      rw [hent] at hnot
      cases hnot
    · cases hcur

/-- What the serial run knows of an order of a thread, before the thread's next command takes
    effect. -/
theorem Serialized.known_own (h : Serialized s V order) (hsplit : ∀ t, s.Split cmds t)
    (hown : OwnCancels cmds) (hids : UniqueIds cmds) (hent : (s.thread t).pc.entered = false)
    {id : UInt32} (hid : id ∈ (cmds t).filterMap newId) :
    (serve Books.exec Books.init order).1.known id =
      bound id ((s.thread t).history.map digest) := by
  have hshare : ∀ x ∈ (serve Books.exec Books.init order).2.map fun x => (x.1, digest x.2),
      x.1 ≠ t → ∀ entry, bind id entry x.2 = entry := by
    intro x hx hne entry
    rcases List.mem_map.mp hx with ⟨⟨u, y⟩, hy, rfl⟩
    exact bind_of_ne (hown.apart hids hne (h.mem (hsplit u) hy).1 hid) entry
  have hfold := foldl_share hshare none
  rw [List.map_map, share_map, h.served, account_of_idle hent] at hfold
  rw [h.known]
  exact hfold

theorem Serialized.known_key (h : Serialized s V order) {id : UInt32}
    {k : InputType × UInt32 × UInt32 × I × ℤ}
    (hk : (serve Books.exec Books.init order).1.known id = some k) : k.2.1 = id := by
  rw [h.known] at hk
  exact (bound_eq_some hk).1

/-- An id that no command has used so far is not known. -/
theorem Serialized.known_fresh (h : Serialized s V order) {id : UInt32}
    (hnew : ∀ u x, (u, x) ∈ (serve Books.exec Books.init order).2 → newId x.1 ≠ some id) :
    (serve Books.exec Books.init order).1.known id = none := by
  rw [h.known]
  apply bound_eq_none
  intro x hx
  rcases List.mem_map.mp hx with ⟨⟨u, y⟩, hy, rfl⟩
  exact hnew u y hy

/-- One more command. -/
theorem Serialized.snoc (h : Serialized s V order) {c : Command ℕ I}
    (hentry : Entry s s' V V' t c (serve Books.exec Books.init order).1.known)
    (hnew : ∀ id, newId c = some id → (serve Books.exec Books.init order).1.known id = none) :
    Serialized s' V' (order ++ [(t, c)]) := by
  have hbooks : V.books (serve Books.exec Books.init order).1.known =
      (serve Books.exec Books.init order).1 := by
    unfold View.books
    rw [← h.side]
  have hside := hentry.side
  have hlines := hentry.own
  rw [hbooks] at hside hlines
  have hsnoc := serve_append Books.exec Books.init order [(t, c)]
  constructor
  · rw [hsnoc]
    exact hside.symm
  · intro u
    rw [hsnoc, share_append, h.served]
    by_cases hu : t = u
    · subst hu
      rw [hlines]
      show _ ++ share t [(t, _)] = _
      rw [share_cons_self]
      rfl
    · rw [hentry.other u (Ne.symm hu)]
      show _ ++ share u [(t, _)] = _
      rw [share_cons_of_ne hu]
      exact List.append_nil _
  · intro id
    rw [hsnoc, List.map_append]
    show ((serve Books.exec Books.init order).1.exec c).1.known id = bound id (_ ++ [_])
    rw [bound_append, ← h.known]
    exact Books.known_exec hnew (fun id k hk => h.known_key hk) id

/-- The order that a thread is about to send has an id of its own. -/
theorem Sys.Split.not_used (hsplit : s.Split cmds t) (hids : UniqueIds cmds) {c : Command ℕ I}
    (hc : (s.thread t).cmds.head? = some c) {x : Command ℕ I × List (Line ℕ I)}
    (hx : x ∈ (s.thread t).history) {id : UInt32} (hid : newId c = some id) :
    newId x.1 ≠ some id := by
  intro hold
  have hnodup := hids.nodup t
  rw [← hsplit, List.filterMap_append] at hnodup
  apply (List.nodup_append.mp hnodup).2.2 id _ id _ rfl
  · exact List.mem_filterMap.mpr ⟨x.1, List.mem_map_of_mem hx, hold⟩
  · exact List.mem_filterMap.mpr ⟨c, List.mem_of_mem_head? hc, hid⟩

theorem Serialized.entered (h : Serialized s V order) (hinv : Inv s V) (hm : Mapped cmds s V t)
    (hsplit : ∀ t, s.Split cmds t) (hown : OwnCancels cmds) (hids : UniqueIds cmds)
    (he : Entered s s' V V' t) : ∃ c, Serialized s' V' (order ++ [(t, c)]) := by
  cases he with
  | @order j v orderId price count inputTime hpc hcmd ho hentry =>
    refine ⟨_, h.snoc (hentry _) ?_⟩
    intro id hid
    apply h.known_fresh
    intro u x hx hold
    rcases h.mem (hsplit u) hx with ⟨hmem, hhist⟩
    by_cases hu : t = u
    · subst hu
      exact (hsplit t).not_used hids hcmd (hhist (by rw [hpc]; rfl)) hid hold
    · apply hids.apart t u hu id _ (List.mem_filterMap.mpr ⟨x.1, hmem, hold⟩)
      exact List.mem_filterMap.mpr ⟨_, (hsplit t).mem hcmd, hid⟩
  | @cancel j inputTime hpc hcmd hentry =>
    refine ⟨_, h.snoc (hentry _ ?_) fun id hid => (by cases hid)⟩
    have haimed := hm.aimed j.order (by rw [hpc]; rfl) (by rw [hpc]; rfl)
    have hid : (s.heap j.order).orderId ∈ (cmds t).filterMap newId := by
      rcases Option.ne_none_iff_exists'.mp haimed with ⟨k, hk⟩
      rcases (bound_eq_some hk).2 with ⟨x, hx, hnew⟩
      rcases List.mem_map.mp hx with ⟨y, hy, rfl⟩
      rw [← hsplit t]
      exact List.mem_filterMap.mpr ⟨y.1, List.mem_append_left _ (List.mem_map_of_mem hy), hnew⟩
    have hentry := hm.entry _ hid
    rw [shown_of_not_bound (by rw [hpc]; rfl)] at hentry
    rw [h.known_own hsplit hown hids (by rw [hpc]; rfl) hid, ← hentry]
    -- the entry leads to the object that the thread has found there before
    cases ho : s.orders (s.heap j.order).orderId with
    | none =>
      rw [ho] at hentry
      exact absurd hentry.symm haimed
    | some q =>
      rcases hinv.objs.mapped _ q ho with ⟨hq, hqid, -⟩
      rw [hinv.objs.ids q j.order hq (hinv.objs.ref t _ (by rw [hpc]; rfl)) hqid]
      rfl
  | @missed orderId inputTime hpc hget hcmd hentry =>
    refine ⟨_, h.snoc (hentry _ ?_) fun id hid => (by cases hid)⟩
    by_cases hid : orderId ∈ (cmds t).filterMap newId
    · have hentry := hm.entry _ hid
      rw [shown_of_not_bound (by rw [hpc]; rfl), hget] at hentry
      rw [h.known_own hsplit hown hids (by rw [hpc]; rfl) hid, ← hentry]
      rfl
    · apply h.known_fresh
      intro u x hx hold
      have hmem : orderId ∈ (cmds u).filterMap newId :=
        List.mem_filterMap.mpr ⟨x.1, (h.mem (hsplit u) hx).1, hold⟩
      by_cases hu : t = u
      · exact hid (hu ▸ hmem)
      · exact hown t u hu orderId inputTime ((hsplit t).mem hcmd) hmem

/-! ## Runs -/

/-- The invariant of a run, with the order of its commands so far. -/
structure Ordered (cmds : T → List (Command ℕ I)) (s : Sys ℕ I T) (V : View I T)
    (order : List (T × Command ℕ I)) : Prop where
  inv : Inv s V
  told : ∀ t, Told s t
  plain : ∀ t, Plain s t
  split : ∀ t, s.Split cmds t
  sent : s.Sent cmds
  mapped : ∀ t, Mapped cmds s V t
  serialized : Serialized s V order

theorem Ordered.init {heap : Heap ℕ I} (hids : UniqueIds cmds) :
    Ordered cmds (Sys.init heap cmds) View.init [] where
  inv := Inv.init hids
  told := Told.init heap cmds
  plain t := ⟨fun _ => rfl, fun _ hp => by cases hp⟩
  split t := rfl
  sent p hp := absurd hp (Nat.not_lt_zero p)
  mapped t := ⟨fun _ _ => rfl, fun _ hp => by cases hp⟩
  serialized := ⟨rfl, fun _ => rfl, fun _ => rfl⟩

theorem Ordered.step (h : Ordered cmds s V order) (hids : UniqueIds cmds) (hown : OwnCancels cmds)
    (hs : s.step t = some s') : ∃ V' order', Ordered cmds s' V' order' := by
  rcases h.inv.step (h.told t) hs with ⟨V', hinv', heffect⟩
  have hstepped := Sys.step_cases hs hinv'.fault
  have hsplit : ∀ u, s'.Split cmds u := by
    intro u
    by_cases hu : u = t
    · subst hu
      exact hstepped.split (h.split u)
    · unfold Sys.Split
      rw [hstepped.other hu]
      exact h.split u
  have hplain : ∀ u, Plain s' u := by
    intro u
    by_cases hu : u = t
    · subst hu
      exact (h.plain u).own hstepped
    · constructor
      · rw [hstepped.other hu]
        exact (h.plain u).out
      · rw [hstepped.other hu]
        exact (h.plain u).printing
  -- a command that has taken effect is quiet until the next
  have hself : (s.thread t).pc.phase.early = false → account s' V' t = account s V t := by
    intro hnot
    rcases heffect with hq | he
    · exact hq.account t
    · rw [he.early] at hnot
      cases hnot
  have hother : ∀ u, u ≠ t → account s' V' u = account s V u := by
    intro u hu
    rcases heffect with hq | he
    · exact hq.account u
    · cases he with
      | order hpc hcmd ho hentry => exact (hentry (fun _ => none)).other u hu
      | cancel hpc hcmd hentry =>
        exact (hentry (fun _ => some (s.heap _).header) rfl).other u hu
      | missed hpc hget hcmd hentry => exact (hentry (fun _ => none) rfl).other u hu
  have hmapped : ∀ u, Mapped cmds s' V' u := by
    intro u
    by_cases hu : u = t
    · subst hu
      exact (h.mapped u).own h.inv hstepped (h.told u) (h.plain u) (h.split u) h.sent hown hself
    · exact (h.mapped u).other h.inv hstepped (Ne.symm hu) (h.told t) (h.split t) hown hids
        (hother u hu)
  have hserial : ∃ order', Serialized s' V' order' := by
    rcases heffect with hq | he
    · exact ⟨order, hq.serialized h.serialized⟩
    · rcases h.serialized.entered h.inv (h.mapped t) h.split hown hids he with ⟨c, hc⟩
      exact ⟨_, hc⟩
  rcases hserial with ⟨order', hserial⟩
  exact ⟨V', order', hinv', Told.step h.told h.inv hstepped, hplain, hsplit,
    hstepped.sent (h.split t) h.sent, hmapped, hserial⟩

theorem Sys.Reachable.ordered {heap : Heap ℕ I} (hids : UniqueIds cmds) (hown : OwnCancels cmds)
    (h : Sys.Reachable heap cmds s) : ∃ V order, Ordered cmds s V order := by
  induction h with
  | init => exact ⟨_, _, Ordered.init hids⟩
  | step h hs ih =>
    rcases ih with ⟨V, order, hord⟩
    exact hord.step hids hown hs

/-! ## The books -/

/-- The nodes that `next` leads to. -/
def Chain.walk {N T : Type} (c : Chain N T) : ℕ → Option Addr → List (OrderNode N)
  | 0, _ => []
  | _, none => []
  | n + 1, some a => (c.node a).toOrderNode :: c.walk n (c.node a).next

/-- The head sentinel and the nodes after it. -/
def Chain.nodes {N T : Type} (c : Chain N T) : List (OrderNode N) := c.walk c.nextAddr (some 0)

/-- The prices of a book in the order of its nodes, each with the orders that rest at it. -/
def Sys.levels {N I T : Type} [Quantity N] [DecidableEq I] (s : Sys N I T) (i : I) (sd : Side) :
    List (Level N I) :=
  Cpp.levels s.heap (s.chain i sd).nodes

def Engine.levels {N I : Type} [Quantity N] [DecidableEq I] (e : Engine N I) (i : I) (sd : Side) :
    List (Level N I) :=
  Cpp.levels e.heap (e.bookOf i sd).chain

theorem Chain.walk_linked {N : Type} (c : Chain N T) {addrs : List Addr}
    (h : Linked (fun a => (c.node a).next) addrs) {n : ℕ} (hn : addrs.length ≤ n) :
    c.walk n addrs.head? = addrs.map fun a => (c.node a).toOrderNode := by
  induction addrs generalizing n with
  | nil => cases n <;> rfl
  | cons a addrs ih =>
    cases n with
    | zero => cases hn
    | succ n =>
      have hnext : (c.node a).next = addrs.head? := h.1
      rw [List.head?_cons, Chain.walk, hnext, ih h.2 (Nat.le_of_succ_le_succ hn), List.map_cons]

theorem Shows.nodes {ch : Chain ℕ T} {heap : Heap ℕ I} {cs : List (Cell I T)}
    (h : Shows ch heap cs) : ch.nodes = cs.map Cell.node := by
  have hlen : (cs.map Cell.addr).length ≤ ch.nextAddr := by
    have hsub : cs.map Cell.addr ⊆ List.range ch.nextAddr := by
      intro a ha
      rcases List.mem_map.mp ha with ⟨c, hc, rfl⟩
      exact List.mem_range.mpr (h.lt c hc)
    have hle := (h.nodup.subperm hsub).length_le
    rwa [List.length_range] at hle
  have hhead : (cs.map Cell.addr).head? = some 0 := by
    rw [List.head?_map]
    exact h.head
  have hwalk := ch.walk_linked h.linked hlen
  rw [hhead, List.map_map] at hwalk
  unfold Chain.nodes
  rw [hwalk]
  exact List.map_congr_left fun c hc => h.node c hc

/-- Without anything pending the levels are those of the nodes. -/
theorem Inv.levels (h : Inv s V) (hready : ∀ t, (s.thread t).pc = .ready) (i : I) (sd : Side) :
    s.levels i sd = settled (V i sd) := by
  have hpend : ∀ c ∈ V i sd, c.pend = .none := by
    intro c hc
    apply h.idle i sd c hc
    by_contra hne
    rcases Option.ne_none_iff_exists'.mp hne with ⟨t, ht⟩
    exact h.not_ready hc ht (hready t)
  unfold Sys.levels settled
  rw [(h.shows i sd).nodes, run_none hpend, List.append_nil]
  show ((V i sd).map Cell.node).map (OrderNode.level s.heap) = (V i sd).map Cell.level
  rw [List.map_map]
  apply List.map_congr_left
  intro c hc
  show (c.node.level s.heap) = c.level
  unfold OrderNode.level Cell.level
  rw [(h.shows i sd).orders c hc]

/-! ## The engine by itself -/

/-- A serial run of the engine is one on its values. -/
theorem Engine.serve_view {used : UInt32 → Prop} {e : Engine ℕ I} (hi : e.PtrInv used)
    (hnodup : ((order.map Prod.snd).filterMap newId).Nodup)
    (hfresh : ∀ id ∈ (order.map Prod.snd).filterMap newId, ¬ used id) :
    (serve Engine.exec e order).1.view = (serve Books.exec e.view order).1 ∧
      (serve Engine.exec e order).2 = (serve Books.exec e.view order).2 := by
  induction order generalizing e used with
  | nil => exact ⟨rfl, rfl⟩
  | cons x order ih =>
    rcases x with ⟨t, c⟩
    have hmem : ∀ id, newId c = some id →
        id ∈ (((t, c) :: order).map Prod.snd).filterMap newId := fun id hid =>
      List.mem_filterMap.mpr ⟨c, List.mem_cons_self, hid⟩
    rcases Engine.exec_view hi c (fun id hid => hfresh id (hmem id hid)) with ⟨hview, hout, hinv⟩
    have hcons : (((t, c) :: order).map Prod.snd).filterMap newId =
        (newId c).toList ++ (order.map Prod.snd).filterMap newId := by
      rw [List.map_cons, List.filterMap_cons]
      cases newId c <;> rfl
    rw [hcons] at hnodup hfresh
    have hrest := ih hinv (List.nodup_append.mp hnodup).2.1 (by
      rintro id hid (hused | hnew)
      · exact hfresh id (List.mem_append_right _ hid) hused
      · rw [hnew] at hnodup
        exact (List.nodup_append.mp hnodup).2.2 id List.mem_cons_self id hid rfl)
    rw [serve, serve, ← hview, ← hout]
    exact ⟨hrest.1, by rw [hrest.2]⟩

theorem Engine.levels_eq {e : Engine ℕ I} {i : I} {sd : Side} :
    e.levels i sd = (e.view.side i sd).1 :: (e.view.side i sd).2 := rfl

/-! ## The result -/

/-- When every command is finished, there is an order of all the commands, in which the commands of
    each connection stand as they were sent, such that the engine by itself prints the same lines for
    each command and leaves the same orders in the same places. -/
theorem serializable {heap : Heap ℕ I} (hids : UniqueIds cmds) (hown : OwnCancels cmds)
    (h : Sys.Reachable heap cmds s) (hdone : ∀ t, (s.thread t).cmds = []) :
    ∃ order : List (T × Command ℕ I), (∀ t, share t order = cmds t) ∧
      (∀ t, share t (serve Engine.exec (Engine.init heap) order).2 = (s.thread t).history) ∧
      ∀ i sd, (serve Engine.exec (Engine.init heap) order).1.levels i sd = s.levels i sd := by
  rcases h.ordered hids hown with ⟨V, order, hord⟩
  have hready : ∀ t, (s.thread t).pc = .ready := by
    intro t
    by_contra hpc
    exact (hord.told t).cmds_ne_nil hpc (hdone t)
  have hserved : ∀ t, share t (serve Books.exec Books.init order).2 = (s.thread t).history := by
    intro t
    rw [hord.serialized.served, account_of_idle (by rw [hready]; rfl)]
  have hshare : ∀ t, share t order = cmds t := by
    intro t
    have hmap := congrArg (share t) (map_serve Books.exec Books.init order)
    rw [share_map t Prod.fst, hserved] at hmap
    have hsplit := hord.split t
    unfold Sys.Split at hsplit
    rw [hdone, List.append_nil] at hsplit
    exact hmap.symm.trans hsplit
  have hnodup : ((order.map Prod.snd).filterMap newId).Nodup := by
    apply nodup_labels
    · intro t
      rw [hshare]
      exact hids.nodup t
    · intro t u htu
      rw [hshare, hshare]
      exact hids.apart t u htu
  rcases Engine.serve_view (Engine.ptrInv_init (fun _ => False) heap) hnodup (fun _ _ h => h) with
    ⟨hview, hout⟩
  rw [Engine.view_init] at hview hout
  refine ⟨order, hshare, ?_, ?_⟩
  · intro t
    rw [hout]
    exact hserved t
  · intro i sd
    have hside := congrFun (congrFun hord.serialized.side i) sd
    rw [Engine.levels_eq, hview, hside, hord.inv.levels hready]
    rcases ((hord.inv.shows i sd).exists_head) with ⟨c, r, hV, -⟩
    have hne : settled (V i sd) ≠ [] := by
      have hlevels := hord.inv.levels hready i sd
      unfold Sys.levels at hlevels
      rw [(hord.inv.shows i sd).nodes, hV] at hlevels
      rw [hV, ← hlevels]
      exact List.cons_ne_nil _ _
    cases hs : settled (V i sd) with
    | nil => exact absurd hs hne
    | cons lv lvs => rfl

theorem ownCancels_crossing : OwnCancels crossing := by
  intro t u htu id inputTime hc
  cases t <;> cases u <;> simp_all [crossing, newId]

/-- Both threads step in turn until their orders have traded and the late cancel is rejected. -/
def crossed : Sys ℕ String Bool :=
  (Sys.init (fun _ => newOrder .buy 0 "" 0 0 0) crossing).run
    (List.replicate 30 [true, false]).flatten

theorem serializable_crossing :
    ∃ order : List (Bool × Command ℕ String), (∀ t, share t order = crossing t) ∧
      (∀ t, share t (serve Engine.exec (Engine.init fun _ => newOrder .buy 0 "" 0 0 0) order).2 =
        (crossed.thread t).history) ∧
      ∀ i sd, (serve Engine.exec (Engine.init fun _ => newOrder .buy 0 "" 0 0 0) order).1.levels i sd =
        crossed.levels i sd :=
  serializable uniqueIds_crossing ownCancels_crossing (Sys.Reachable.init.run _) (by decide +kernel)

end MatchingEngine.Cpp
