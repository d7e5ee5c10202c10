import VibeRtos.Kernel.Dwork
import VibeRtos.Proof.TimerFires
import VibeRtos.Proof.WorkqOrder

/-!
# When a cancel of delayed work is final

An item is pending exactly when it is in one of the queues, so one that is not pending cannot be
taken off. A cancel that finds the timer running finds the item not pending: had the timer fired
behind the test, it would have stopped by itself. What is left is an item that a worker has
already taken off its queue.
-/

namespace VibeRtos

open SList Runs

/-! ## Several queues -/

section Queues

variable {mem mem' : WorkMem} {q q' : Workq} {w v : WorkId} {xs ys : List WorkId}
  {workq : Nat → Workq} {items : Nat → List WorkId}

/-- The items, where only those of one queue count as pending. -/
def viewOf (mem : WorkMem) (xs : List WorkId) : WorkMem :=
  fun w => { mem w with pending := decide (w ∈ xs) }

/-- Queue `i` holds the items `items i`. -/
structure Queues (mem : WorkMem) (workq : Nat → Workq) (items : Nat → List WorkId) : Prop where
  holds : ∀ i, (workq i).Holds (viewOf mem (items i)) (items i)
  apart : ∀ i j w, w ∈ items i → w ∈ items j → i = j
  pending : ∀ w, (mem w).pending ↔ ∃ i, w ∈ items i

/-- The other queues do not see changes of items that are not theirs. -/
theorem Workq.Holds.congr_mem (h : q.Holds (viewOf mem xs) xs)
    (hnext : ∀ w ∈ xs, (mem' w).next = (mem w).next)
    (hhandler : ∀ w, (mem' w).handler = (mem w).handler) : q.Holds (viewOf mem' xs) xs := by
  refine ⟨h.path.congr fun w hw => ?_, h.nodup, h.tail, fun w => by simp [viewOf], fun w => ?_⟩
  · exact hnext w hw
  · show (mem' w).handler ≠ none
    rw [hhandler w]
    exact h.handler w

/-- An update of an item that the view shows. -/
theorem viewOf_update (mem : WorkMem) (xs : List WorkId) (w : WorkId) (x : Work) :
    viewOf (Function.update mem w x) xs
      = Function.update (viewOf mem xs) w { x with pending := decide (w ∈ xs) } := by
  funext v
  by_cases hv : v = w
  · subst hv
    simp [viewOf]
  · simp [viewOf, Function.update_of_ne hv]

/-- A view in which an item has come or gone differs only there. -/
theorem viewOf_change (mem : WorkMem) (x : Work) (h : ∀ v, v ≠ w → (v ∈ ys ↔ v ∈ xs)) :
    Function.update (viewOf mem ys) w x = Function.update (viewOf mem xs) w x := by
  funext v
  by_cases hv : v = w
  · rw [hv, Function.update_self, Function.update_self]
  · rw [Function.update_of_ne hv, Function.update_of_ne hv]
    simp only [viewOf, h v hv]

/-- What a submit does is what it does in the view of its queue. -/
theorem workSubmit_view (hnew : ¬ (mem w).pending) (hw : w ∉ xs) (htail : q.tail = xs.getLast?) :
    workSubmit (viewOf mem xs) q w = (.ok, viewOf (workSubmit mem q w).2.1 (xs ++ [w]),
      (workSubmit mem q w).2.2) := by
  have hnew' : ¬ (viewOf mem xs w).pending := by simpa [viewOf] using hw
  have hin : w ∈ xs ++ [w] := by simp
  have hsnoc : ∀ v, v ≠ w → (v ∈ xs ++ [w] ↔ v ∈ xs) := fun v hv => by simp [hv]
  rw [workSubmit, workSubmit, if_neg hnew, if_neg hnew']
  rcases hq : q.tail with _ | t
  · simp only [viewOf_update, viewOf_change mem _ hsnoc, hin, decide_true]
    rfl
  · have ht : t ∈ xs := List.mem_of_getLast? (htail.symm.trans hq)
    have htw : t ≠ w := fun he => hw (he ▸ ht)
    have htin : t ∈ xs ++ [w] := List.mem_append_left _ ht
    simp only [viewOf_update, viewOf_change mem _ hsnoc, hin, htin, decide_true,
      Function.update_of_ne htw]
    simp only [viewOf, ht, decide_true]

/-- A pop, too. -/
theorem workqPop_view (mem : WorkMem) (hhead : q.head = (w :: xs).head?) (hnd : (w :: xs).Nodup) :
    workqPop (viewOf mem (w :: xs)) q = (some w, viewOf (workqPop mem q).2.1 xs,
      (workqPop mem q).2.2) := by
  have hw : w ∉ xs := (List.nodup_cons.mp hnd).1
  have hcons : ∀ v, v ≠ w → (v ∈ w :: xs ↔ v ∈ xs) := fun v hv => by simp [hv]
  rw [workqPop, workqPop, hhead]
  simp only [List.head?_cons, viewOf_update, viewOf_change mem _ hcons, hw, decide_false]
  rfl

/-- What a submit does to one item. -/
theorem workSubmit_item (mem : WorkMem) (q : Workq) (w v : WorkId) :
    ((workSubmit mem q w).2.1 v).handler = (mem v).handler
      ∧ (v ≠ w → ((workSubmit mem q w).2.1 v).pending = (mem v).pending)
      ∧ (v ≠ w → q.tail ≠ some v → ((workSubmit mem q w).2.1 v).next = (mem v).next) := by
  rw [workSubmit]
  by_cases hpending : (mem w).pending
  · rw [if_pos hpending]
    exact ⟨rfl, fun _ => rfl, fun _ _ => rfl⟩
  · have hlink : ∀ x : Work, x.handler = (mem w).handler →
        (Function.update mem w x v).handler = (mem v).handler
        ∧ (v ≠ w → Function.update mem w x v = mem v) := by
      intro x hx
      by_cases hv : v = w
      · subst hv
        exact ⟨by rw [Function.update_self, hx], fun h => absurd rfl h⟩
      · rw [Function.update_of_ne hv]
        exact ⟨rfl, fun _ => rfl⟩
    obtain ⟨hhandler, hother⟩ := hlink { mem w with pending := true, next := none } rfl
    rw [if_neg hpending]
    rcases q.tail with _ | t
    · exact ⟨hhandler, fun hv => congrArg Work.pending (hother hv),
        fun hv _ => congrArg Work.next (hother hv)⟩
    · by_cases hvt : v = t
      · subst hvt
        simp only [Function.update_self]
        exact ⟨hhandler, fun hv => by rw [hother hv], fun _ hne => absurd rfl hne⟩
      · simp only [Function.update_of_ne hvt]
        exact ⟨hhandler, fun hv => by rw [hother hv], fun hv _ => by rw [hother hv]⟩

/-- An item that is not pending is accepted. -/
theorem workSubmit_new (q : Workq) (hnew : ¬ (mem w).pending) :
    (workSubmit mem q w).1 = .ok ∧ ((workSubmit mem q w).2.1 w).pending = true := by
  rw [workSubmit, if_neg hnew]
  rcases q.tail with _ | t
  · simp
  · by_cases hwt : w = t
    · subst hwt
      simp
    · simp [Function.update_of_ne hwt]

/-- What a pop does to one item. -/
theorem workqPop_item (mem : WorkMem) (q : Workq) (v : WorkId) :
    ((workqPop mem q).2.1 v).handler = (mem v).handler
      ∧ (q.head ≠ some v → (workqPop mem q).2.1 v = mem v) := by
  rw [workqPop]
  rcases q.head with _ | w
  · exact ⟨rfl, fun _ => rfl⟩
  · by_cases hv : v = w
    · subst hv
      exact ⟨by simp, fun h => absurd rfl h⟩
    · simp [Function.update_of_ne hv]

namespace Queues

variable {i : Nat}

/-- What is in the queues when one of them changes. -/
theorem mem_update {j : Nat} : v ∈ Function.update items i ys j
    ↔ (j = i ∧ v ∈ ys) ∨ (j ≠ i ∧ v ∈ items j) := by
  by_cases hj : j = i
  · subst hj
    simp
  · simp [hj]

theorem handler (h : Queues mem workq items) (w : WorkId) : (mem w).handler ≠ none :=
  (h.holds 0).handler w

/-- A submit is refused, or it links the item in at the end. -/
theorem submit (h : Queues mem workq items) (i : Nat) (w : WorkId) :
    ((mem w).pending ∧ workSubmit mem (workq i) w = (.ebusy, mem, workq i))
    ∨ (¬ (mem w).pending ∧ (workSubmit mem (workq i) w).1 = .ok
      ∧ Queues (workSubmit mem (workq i) w).2.1
        (Function.update workq i (workSubmit mem (workq i) w).2.2)
        (Function.update items i (items i ++ [w]))) := by
  by_cases hpending : (mem w).pending
  · exact Or.inl ⟨hpending, if_pos hpending⟩
  have hnew : ∀ j, w ∉ items j := fun j hj => hpending ((h.pending w).mpr ⟨j, hj⟩)
  have hview := workSubmit_view hpending (hnew i) (h.holds i).tail
  have hlist : (workSubmit mem (workq i) w).2.2.Holds
      (viewOf (workSubmit mem (workq i) w).2.1 (items i ++ [w])) (items i ++ [w]) := by
    rcases (h.holds i).submit w with hbusy | ⟨mem', q', hok, hq', -⟩
    · rw [hview] at hbusy
      exact absurd (congrArg Prod.fst hbusy) (by simp)
    · rw [hview] at hok
      cases hok
      exact hq'
  obtain ⟨hok, hpend⟩ := workSubmit_new (workq i) hpending
  have hitem := workSubmit_item mem (workq i) w
  refine Or.inr ⟨hpending, hok, fun j => ?_, fun a b v ha hb => ?_, fun v => ?_⟩
  · by_cases hj : j = i
    · subst hj
      rw [Function.update_self, Function.update_self]
      exact hlist
    · rw [Function.update_of_ne hj, Function.update_of_ne hj]
      refine (h.holds j).congr_mem (fun v hv => ?_) fun v => (hitem v).1
      refine (hitem v).2.2 (fun he => hnew j (he ▸ hv)) fun htail => hj ?_
      exact h.apart j i v hv (List.mem_of_getLast? ((h.holds i).tail.symm.trans htail))
  · rw [mem_update] at ha hb
    have hin : ∀ {c : Nat}, v ∈ items c → v ≠ w := fun hc he => hnew _ (he ▸ hc)
    rcases ha with ⟨rfl, ha⟩ | ⟨hai, ha⟩ <;> rcases hb with ⟨rfl, hb⟩ | ⟨hbi, hb⟩
    · rfl
    · rcases List.mem_append.mp ha with ha | ha
      · exact h.apart _ _ v ha hb
      · exact absurd (List.mem_singleton.mp ha) (hin hb)
    · rcases List.mem_append.mp hb with hb | hb
      · exact h.apart _ _ v ha hb
      · exact absurd (List.mem_singleton.mp hb) (hin ha)
    · exact h.apart _ _ v ha hb
  · by_cases hv : v = w
    · subst hv
      exact iff_of_true hpend ⟨i, by simp⟩
    · rw [(hitem v).2.1 hv, h.pending v]
      refine exists_congr fun j => ?_
      rw [mem_update, List.mem_append, List.mem_singleton, or_iff_left hv]
      by_cases hj : j = i <;> simp [hj]

/-- The worker takes the first item off, if there is one. -/
theorem pop (h : Queues mem workq items) (i : Nat) :
    (workqPop mem (workq i)).1 = (items i).head?
    ∧ Queues (workqPop mem (workq i)).2.1
      (Function.update workq i (workqPop mem (workq i)).2.2)
      (Function.update items i (items i).tail) := by
  have hhead : (workq i).head = (items i).head? := (h.holds i).path.head
  rcases hitems : items i with _ | ⟨w, xs⟩
  · have hnone : workqPop mem (workq i) = (none, mem, workq i) := by
      rw [workqPop, hhead, hitems]
      rfl
    rw [hnone, List.tail_nil, ← hitems, Function.update_eq_self, Function.update_eq_self]
    exact ⟨by rw [hitems]; rfl, h⟩
  rw [hitems] at hhead
  have hholds := h.holds i
  rw [hitems] at hholds
  have hview := workqPop_view mem hhead hholds.nodup
  have hw : w ∉ xs := (List.nodup_cons.mp hholds.nodup).1
  have hwi : w ∈ items i := hitems ▸ List.mem_cons_self
  obtain ⟨mem', q', hpop, hq', -⟩ := hholds.pop
  rw [hview] at hpop
  cases hpop
  have hfst : (workqPop mem (workq i)).1 = some w := by
    rw [workqPop, hhead]
    rfl
  have hgone : ((workqPop mem (workq i)).2.1 w).pending = false := by
    rw [workqPop, hhead]
    simp
  have hitem := workqPop_item mem (workq i)
  have hother : ∀ v, v ≠ w → (workqPop mem (workq i)).2.1 v = mem v := by
    intro v hv
    refine (hitem v).2 ?_
    rw [hhead]
    exact fun he => hv (Option.some.inj he).symm
  refine ⟨hfst, fun j => ?_, fun a b v ha hb => ?_, fun v => ?_⟩
  · by_cases hj : j = i
    · subst hj
      rw [Function.update_self, Function.update_self]
      exact hq'
    · rw [Function.update_of_ne hj, Function.update_of_ne hj]
      refine (h.holds j).congr_mem (fun v hv => ?_) fun v => (hitem v).1
      rw [hother v fun he => hj (h.apart j i w (he ▸ hv) hwi)]
  · rw [mem_update] at ha hb
    have htail : ∀ {c : Nat}, (c = i ∧ v ∈ (w :: xs).tail) ∨ (c ≠ i ∧ v ∈ items c) →
        v ∈ items c := by
      intro c hc
      rcases hc with ⟨rfl, hc⟩ | ⟨-, hc⟩
      · rw [hitems]
        exact List.mem_cons_of_mem _ hc
      · exact hc
    exact h.apart a b v (htail ha) (htail hb)
  · by_cases hv : v = w
    · subst hv
      rw [hgone]
      refine iff_of_false (by simp) ?_
      intro hqueued
      rcases hqueued with ⟨j, hj⟩
      rcases mem_update.mp hj with ⟨-, hj⟩ | ⟨hji, hj⟩
      · exact hw hj
      · exact hji (h.apart j i v hj hwi)
    · rw [hother v hv, h.pending v]
      refine exists_congr fun j => ?_
      rw [mem_update]
      by_cases hj : j = i
      · subst hj
        simp [hitems, hv]
      · simp [hj]

/-- A pop makes nothing pending. -/
theorem pop_pending (h : Queues mem workq items) {i : Nat}
    (hp : ((workqPop mem (workq i)).2.1 v).pending) : (mem v).pending := by
  by_cases hhead : (workq i).head = some v
  · have hv : (items i).head? = some v := (h.holds i).path.head.symm.trans hhead
    exact (h.pending v).mpr ⟨i, List.mem_of_head? hv⟩
  · rwa [(workqPop_item mem (workq i) v).2 hhead] at hp

end Queues

end Queues

/-! ## What becomes of a timer -/

namespace Timer

/-- What `vibe_timer_init` has set and nothing changes. -/
structure SameKind (x y : Timer) : Prop where
  expiryFn : x.expiryFn = y.expiryFn
  userData : x.userData = y.userData
  mode : x.mode = y.mode

theorem ticked_kind (x : Timer) : SameKind x.ticked x := by
  unfold ticked
  split <;> exact ⟨rfl, rfl, rfl⟩

theorem visited_kind (x : Timer) : SameKind x.visited x := by
  obtain ⟨hfn, hdata, hmode⟩ := ticked_kind x
  unfold visited
  split
  · split <;> exact ⟨hfn, hdata, hmode⟩
  · exact ⟨hfn, hdata, hmode⟩

theorem alone_kind (cfg : Config) (t : TimerId) (x : Timer) (op : TimerOp) :
    SameKind (x.alone cfg t op).1 x := by
  cases op with
  | start u ms | stop u | restart u =>
      unfold alone
      dsimp only
      split <;> exact ⟨rfl, rfl, rfl⟩
  | tick => exact visited_kind x

end Timer

namespace Timers

variable {m : Timers} {u : TimerId}

theorem Ready.kind (cfg : Config) (h : m.Ready) (op : TimerOp) (u : TimerId) :
    Timer.SameKind ((op.exec cfg m).1.timer u) (m.timer u) := by
  obtain ⟨-, hcore, -⟩ := h.exec cfg op u
  have hkind := Timer.alone_kind cfg u (m.timer u).core op
  rw [← hcore] at hkind
  exact ⟨hkind.expiryFn, hkind.userData, hkind.mode⟩

/-- A call on another timer does not start this one. -/
theorem Ready.other (cfg : Config) (op : TimerOp) (h : m.Ready) (hop : ¬ op.Concerns u) :
    ((op.exec cfg m).1.timer u).active = (m.timer u).active := by
  obtain ⟨-, hcore, -⟩ := h.exec cfg op u
  rw [Timer.alone_of_not_concerns _ hop] at hcore
  exact Timer.active_of_core hcore

/-- A stop stops. -/
theorem Ready.stopped (h : m.Ready) (u : TimerId) :
    ((timerStop m u).2.timer u).active = false := by
  obtain ⟨-, hcore⟩ := h.stop u
  have hactive := congrArg Timer.active (hcore u)
  by_cases hon : (m.timer u).active
  · rw [if_pos ⟨rfl, hon⟩] at hactive
    exact hactive
  · rw [if_neg fun hand => hon hand.2] at hactive
    exact hactive.trans (Bool.eq_false_iff.mpr hon)

/-- A tick leaves a stopped timer alone, and stops a one-shot that it fires. -/
theorem Ready.tick_timer (h : m.Ready) (u : TimerId) :
    ((m.timer u).active = false →
      ((timerTick m).1.timer u).active = false ∧ u ∉ (timerTick m).2)
    ∧ (u ∈ (timerTick m).2 → (m.timer u).mode = .oneShot →
      ((timerTick m).1.timer u).active = false) := by
  obtain ⟨-, -, hall⟩ := h.tick
  obtain ⟨hcore, hfires⟩ := hall u
  rw [Timer.visited_core] at hcore
  have hactive := Timer.active_of_core hcore
  refine ⟨fun hoff => ?_, fun hu hmode => ?_⟩
  · obtain ⟨hsame, hquiet⟩ := Timer.visited_inactive (h.fit u) hoff
    refine ⟨?_, fun hu => hquiet (hfires.mp hu).1⟩
    rw [hactive, hsame, hoff]
  · have hexp := (hfires.mp hu).1
    rw [hactive, Timer.visited, if_pos hexp, if_neg (by rw [hmode]; decide)]

end Timers

/-! ## What a callback does -/

namespace DworkSys

variable {cb : Nat} {cfg : Config} {s s' s₁ : DworkSys} {d w : WorkId} {l : Label}

theorem dworkTimer_inj {d e : WorkId} (h : dworkTimer d = dworkTimer e) : d = e :=
  add_right_cancel h

/-- The timers with `_dwork_timer_cb` are the one-shots of delayed items. -/
def Owned (cb : Nat) (m : Timers) : Prop := ∀ t, (m.timer t).expiryFn = some cb →
  ∃ d : WorkId, t = dworkTimer d ∧ (m.timer t).userData = some d.val
    ∧ (m.timer t).mode = .oneShot

/-- Items have been submitted, of which the timers in `ts` belong to the pending ones. -/
structure Linked (s s' : DworkSys) (ts : List TimerId) : Prop where
  timers : s'.timers = s.timers
  worker : s'.worker = s.worker
  submitting : s'.submitting = s.submitting
  cancelling : s'.cancelling = s.cancelling
  cancelled : s'.cancelled = s.cancelled
  queues : (∃ items, Queues s.mem s.workq items) → ∃ items, Queues s'.mem s'.workq items
  pending : ∀ d, (s'.mem d).pending → (s.mem d).pending ∨ dworkTimer d ∈ ts

theorem Linked.refl (s : DworkSys) (ts : List TimerId) : Linked s s ts :=
  ⟨rfl, rfl, rfl, rfl, rfl, id, fun _ => Or.inl⟩

theorem Linked.trans {ts : List TimerId} (h : Linked s s₁ ts) (h' : Linked s₁ s' ts) :
    Linked s s' ts := by
  refine ⟨h'.timers.trans h.timers, h'.worker.trans h.worker, h'.submitting.trans h.submitting,
    h'.cancelling.trans h.cancelling, h'.cancelled.trans h.cancelled,
    fun hq => h'.queues (h.queues hq), fun d hd => ?_⟩
  rcases h'.pending d hd with hd | hd
  · exact h.pending d hd
  · exact Or.inr hd

/-- The linking section of a submit. -/
theorem link_linked (s : DworkSys) (i : Nat) (w : WorkId) {ts : List TimerId}
    (hw : dworkTimer w ∈ ts) : Linked s (s.link i w).2 ts := by
  refine ⟨rfl, rfl, rfl, rfl, rfl, fun ⟨items, hq⟩ => ?_, fun d hd => ?_⟩
  · rcases hq.submit i w with ⟨-, hbusy⟩ | ⟨-, -, hnew⟩
    · refine ⟨items, ?_⟩
      simp only [link, hbusy, Function.update_eq_self]
      exact hq
    · exact ⟨_, hnew⟩
  · by_cases hdw : d = w
    · exact Or.inr (hdw ▸ hw)
    · have hsame : ((s.link i w).2.mem d).pending = (s.mem d).pending :=
        (workSubmit_item s.mem (s.workq i) w d).2.1 hdw
      exact Or.inl (hsame ▸ hd)

theorem fire_linked (hown : Owned cb s.timers) {t : TimerId} {ts : List TimerId} (ht : t ∈ ts) :
    Linked s (fire cb s t) ts := by
  by_cases hfn : (s.timers.timer t).expiryFn = some cb
  · obtain ⟨d, rfl, hdata, -⟩ := hown t hfn
    have hfire : fire cb s (dworkTimer d) = s.dworkTimerCb d := by
      simp only [fire, if_pos hfn, hdata, dif_pos d.isLt]
    rw [hfire, dworkTimerCb]
    rcases s.target d with _ | i
    · exact Linked.refl s ts
    · obtain ⟨ht₁, hw, hs, hc, hd, hq, hp⟩ := link_linked s i d ht
      dsimp only
      split <;> exact ⟨ht₁, hw, hs, hc, hd, hq, hp⟩
  · rw [fire, if_neg hfn]
    exact Linked.refl s ts

theorem foldl_fire_linked {ts : List TimerId} : ∀ (us : List TimerId) (s : DworkSys),
    Owned cb s.timers → (∀ t ∈ us, t ∈ ts) → Linked s (us.foldl (fire cb) s) ts := by
  intro us
  induction us with
  | nil => exact fun s _ _ => Linked.refl s ts
  | cons t us ih =>
      intro s hown hsub
      have hone := fire_linked hown (hsub t (List.mem_cons_self ..))
      refine hone.trans (ih _ ?_ fun u hu => hsub u (List.mem_cons_of_mem _ hu))
      rw [hone.timers]
      exact hown

/-! ## What every step keeps -/

/-- The invariant. -/
structure Inv (cb : Nat) (s : DworkSys) : Prop where
  queues : ∃ items, Queues s.mem s.workq items
  timers : s.timers.Ready
  owned : Owned cb s.timers
  /-- had the timer fired behind the test, it would have stopped -/
  cancelling : ∀ d ∈ s.cancelling, s.IsDwork cb d ∧ d ∉ s.submitting
    ∧ ((s.mem d).pending → (s.timers.timer (dworkTimer d)).active = false)

theorem Initial.inv (h : s.Initial cb) : s.Inv cb := by
  refine ⟨⟨fun _ => [], fun i => ?_, fun _ _ w hw => absurd hw List.not_mem_nil, fun w => ?_⟩,
    h.timers.ready, h.dwork, ?_⟩
  · obtain ⟨hhead, htail⟩ := h.workq i
    refine ⟨hhead, List.nodup_nil, htail, fun w => by simp [viewOf], fun w => ?_⟩
    obtain ⟨fn, hw⟩ := h.mem w
    simp [viewOf, hw]
  · obtain ⟨fn, hw⟩ := h.mem w
    simp [hw]
  · rw [h.cancelling]
    simp

theorem Owned.kind {m m' : Timers} (h : Owned cb m)
    (hkind : ∀ t, Timer.SameKind (m'.timer t) (m.timer t)) : Owned cb m' := by
  intro t ht
  rw [(hkind t).expiryFn] at ht
  obtain ⟨d, hd, hdata, hmode⟩ := h t ht
  exact ⟨d, hd, (hkind t).userData.trans hdata, (hkind t).mode.trans hmode⟩

theorem isDwork_kind (hkind : ∀ t, Timer.SameKind (s'.timers.timer t) (s.timers.timer t)) :
    s'.IsDwork cb d ↔ s.IsDwork cb d := by
  unfold IsDwork
  rw [(hkind _).expiryFn]

/-- A delayed item that nothing brings to a worker. -/
structure Quiet (cb : Nat) (s : DworkSys) (d : WorkId) : Prop where
  dwork : s.IsDwork cb d
  timer : (s.timers.timer (dworkTimer d)).active = false
  pending : (s.mem d).pending = false
  hand : ¬ s.InHand d

/-- The tick handler. -/
theorem Inv.tick (cfg : Config) (h : s.Inv cb) : (s.tick cb).Inv cb
    ∧ (s.tick cb).worker = s.worker ∧ (s.tick cb).cancelled = s.cancelled
    ∧ ∀ d, s.Quiet cb d → (s.tick cb).Quiet cb d := by
  have hkind := h.timers.kind cfg .tick
  have hown : Owned cb (timerTick s.timers).1 := h.owned.kind hkind
  have hlink : Linked { s with timers := (timerTick s.timers).1 } (s.tick cb)
      (timerTick s.timers).2 := foldl_fire_linked _ _ hown fun _ => id
  have htimers : (s.tick cb).timers = (timerTick s.timers).1 := hlink.timers
  have hdwork : ∀ d, (s.tick cb).IsDwork cb d ↔ s.IsDwork cb d := by
    intro d
    refine isDwork_kind fun t => ?_
    rw [htimers]
    exact hkind t
  refine ⟨⟨hlink.queues h.queues, ?_, ?_, fun d hd => ?_⟩, hlink.worker, hlink.cancelled,
    fun d hd => ?_⟩
  · rw [htimers]
    exact h.timers.tick.1
  · rw [htimers]
    exact hown
  · rw [hlink.cancelling] at hd
    obtain ⟨hd₁, hd₂, hd₃⟩ := h.cancelling d hd
    refine ⟨(hdwork d).mpr hd₁, by rw [hlink.submitting]; exact hd₂, fun hpend => ?_⟩
    obtain ⟨hstays, hfired⟩ := h.timers.tick_timer (dworkTimer d)
    obtain ⟨-, -, -, hmode⟩ := h.owned _ hd₁
    rw [htimers]
    rcases hlink.pending d hpend with hold | hin
    · exact (hstays (hd₃ hold)).1
    · exact hfired hin hmode
  · obtain ⟨hstays, hnot⟩ := (h.timers.tick_timer (dworkTimer d)).1 hd.timer
    refine ⟨(hdwork d).mpr hd.dwork, by rw [htimers]; exact hstays, ?_, ?_⟩
    · rw [← Bool.not_eq_true]
      intro hpend
      rcases hlink.pending d hpend with hold | hin
      · exact absurd hold (by simp [hd.pending])
      · exact hnot hin
    · have hhand := hd.hand
      unfold InHand at hhand ⊢
      rw [hlink.worker]
      exact hhand

/-- A call on a timer, where the items stay as they are. -/
theorem Inv.timers_step (cfg : Config) (op : TimerOp) (h : s.Inv cb)
    (htimers : s'.timers = (op.exec cfg s.timers).1) (hmem : s'.mem = s.mem)
    (hworkq : s'.workq = s.workq)
    (hcancel : ∀ d ∈ s'.cancelling, d ∈ s.cancelling ∧ d ∉ s'.submitting ∧
      ((s.timers.timer (dworkTimer d)).active = false →
        (s'.timers.timer (dworkTimer d)).active = false)) : s'.Inv cb := by
  have hkind := h.timers.kind cfg op
  rw [← htimers] at hkind
  refine ⟨by rw [hmem, hworkq]; exact h.queues, ?_, h.owned.kind hkind, fun d hd => ?_⟩
  · rw [htimers]
    exact (h.timers.exec cfg op 0).1
  · obtain ⟨hd₁, hd₂, hd₃⟩ := hcancel d hd
    obtain ⟨hdw, -, hpend⟩ := h.cancelling d hd₁
    rw [hmem]
    exact ⟨(isDwork_kind hkind).mpr hdw, hd₂, fun hp => hd₃ (hpend hp)⟩

theorem Quiet.of (h : s.Quiet cb d) (htimers : s'.timers = s.timers)
    (hpend : (s'.mem d).pending → (s.mem d).pending) (hhand : s'.InHand d → s.InHand d) :
    s'.Quiet cb d := by
  refine ⟨?_, by rw [htimers]; exact h.timer, ?_, fun hin => h.hand (hhand hin)⟩
  · unfold IsDwork
    rw [htimers]
    exact h.dwork
  · rw [← Bool.not_eq_true]
    intro hp
    exact absurd (hpend hp) (by simp [h.pending])

theorem Quiet.timers_step (cfg : Config) (op : TimerOp) (h : s.Quiet cb d) (hinv : s.Inv cb)
    (htimers : s'.timers = (op.exec cfg s.timers).1) (hmem : s'.mem = s.mem)
    (hworker : s'.worker = s.worker)
    (hoff : (s'.timers.timer (dworkTimer d)).active = false) : s'.Quiet cb d := by
  have hkind := hinv.timers.kind cfg op
  rw [← htimers] at hkind
  refine ⟨(isDwork_kind hkind).mpr h.dwork, hoff, by rw [hmem]; exact h.pending, ?_⟩
  have hhand := h.hand
  unfold InHand at hhand ⊢
  rw [hworker]
  exact hhand

/-- A worker that is given something else to do has no new item in hand. -/
theorem inHand_update {i : Nat} {p : WorkerPc} (hp : p ≠ .popped (some d))
    (hin : ∃ j, Function.update s.worker i p j = .popped (some d)) : s.InHand d := by
  obtain ⟨j, hj⟩ := hin
  by_cases hji : j = i
  · subst hji
    rw [Function.update_self] at hj
    exact absurd hj hp
  · rw [Function.update_of_ne hji] at hj
    exact ⟨j, hj⟩

/-- Items that are not delayed are submitted. -/
theorem Linked.foreign {ts : List TimerId} (hlink : Linked s s' ts) (h : s.Inv cb)
    (hts : ∀ d, s.IsDwork cb d → dworkTimer d ∉ ts) :
    s'.Inv cb ∧ ∀ d, s.Quiet cb d → ¬ Submits d l → s'.Quiet cb d := by
  have hold : ∀ d, s.IsDwork cb d → (s'.mem d).pending → (s.mem d).pending :=
    fun d hd hp => (hlink.pending d hp).resolve_right (hts d hd)
  refine ⟨⟨hlink.queues h.queues, by rw [hlink.timers]; exact h.timers,
    by rw [hlink.timers]; exact h.owned, fun d hd => ?_⟩, fun d hq _ => ?_⟩
  · rw [hlink.cancelling] at hd
    obtain ⟨hd₁, hd₂, hd₃⟩ := h.cancelling d hd
    unfold IsDwork
    rw [hlink.timers, hlink.submitting]
    exact ⟨hd₁, hd₂, fun hp => hd₃ (hold d hd₁ hp)⟩
  · refine hq.of hlink.timers (hold d hq.dwork) fun hin => ?_
    unfold InHand at hin
    rw [hlink.worker] at hin
    exact hin

/-- A worker that goes on without a new item in hand. -/
theorem Inv.worker_step (h : s.Inv cb) (tokens : Nat → Nat) (i : Nat) {p : WorkerPc}
    (hp : ∀ d, p ≠ .popped (some d)) :
    Inv cb { s with tokens, worker := Function.update s.worker i p }
    ∧ ∀ d, s.Quiet cb d →
      Quiet cb { s with tokens, worker := Function.update s.worker i p } d :=
  ⟨⟨h.queues, h.timers, h.owned, h.cancelling⟩,
    fun d hq => hq.of rfl id (inHand_update (hp d))⟩

/-- Behind the call the worker is in the handler or back in its loop. -/
theorem step_call {i : Nat} (hs : s.step cfg cb (.call i) = some s') :
    ∃ p, (∀ d, p ≠ .popped (some d))
      ∧ s' = { s with worker := Function.update s.worker i p } := by
  rcases hw : s.worker i with _ | _ | (_ | w) | _
  all_goals simp only [DworkSys.step, hw, reduceCtorEq] at hs
  · exact ⟨.loop, nofun, (Option.some.inj hs).symm⟩
  · refine ⟨_, fun d => ?_, (Option.some.inj hs).symm⟩
    split <;> nofun

/-- The `vibe_timer_start` of a submit. Only the timer of that item may start to run, and not even
that one when the delay is zero. -/
theorem Inv.start_step {ms : UInt32} (h : s.Inv cb)
    (hs : s.step cfg cb (.dworkStart w ms) = some s') :
    s'.Inv cb ∧ ∀ d, s.Quiet cb d → ¬ Submits d (.dworkStart w ms) → s'.Quiet cb d := by
  rw [DworkSys.step, Option.ite_none_right_eq_some] at hs
  obtain ⟨hw, hs⟩ := hs
  obtain rfl := Option.some.inj hs
  have hother : ∀ d, d ≠ w → ((timerStart cfg s.timers (dworkTimer w) ms).2.timer
      (dworkTimer d)).active = (s.timers.timer (dworkTimer d)).active := by
    intro d hd
    exact h.timers.other cfg (.start (dworkTimer w) ms)
      fun heq => hd (dworkTimer_inj heq).symm
  refine ⟨h.timers_step cfg (.start (dworkTimer w) ms) rfl rfl rfl fun d hd => ?_,
    fun d hq hsub => ?_⟩
  · obtain ⟨-, hd₂, -⟩ := h.cancelling d hd
    have hdw : d ≠ w := fun heq => hd₂ (heq ▸ hw)
    refine ⟨hd, fun hin => hd₂ (List.mem_of_mem_erase hin), fun hoff => ?_⟩
    exact (hother d hdw).trans hoff
  · refine hq.timers_step cfg (.start (dworkTimer w) ms) h rfl rfl rfl ?_
    by_cases hdw : d = w
    · have hms : ms = 0 := by
        by_contra hms
        exact hsub ⟨hdw.symm, hms⟩
      subst hms
      exact hq.timer
    · exact (hother d hdw).trans hq.timer

/-- The `vibe_timer_stop` of a cancel: no timer that is stopped runs behind it. -/
theorem Inv.stop_step (h : s.Inv cb) (hs : s.step cfg cb (.dworkStop w) = some s') :
    s'.Inv cb ∧ ∀ d, s.Quiet cb d → s'.Quiet cb d := by
  rw [DworkSys.step, Option.ite_none_right_eq_some] at hs
  obtain ⟨hw, hs⟩ := hs
  obtain rfl := Option.some.inj hs
  have hoff : ∀ d, (s.timers.timer (dworkTimer d)).active = false →
      ((timerStop s.timers (dworkTimer w)).2.timer (dworkTimer d)).active = false := by
    intro d hd
    by_cases hdw : d = w
    · subst hdw
      exact h.timers.stopped _
    · exact (h.timers.other cfg (.stop (dworkTimer w))
        fun heq => hdw (dworkTimer_inj heq).symm).trans hd
  refine ⟨h.timers_step cfg (.stop (dworkTimer w)) rfl rfl rfl fun d hd => ?_,
    fun d hq => hq.timers_step cfg (.stop (dworkTimer w)) h rfl rfl rfl (hoff d hq.timer)⟩
  have hd' := List.mem_of_mem_erase hd
  exact ⟨hd', (h.cancelling d hd').2.1, hoff d⟩

/-- The section of a worker behind its semaphore. It takes the head of the list in hand, which is
pending, and an item that is quiet is not. -/
theorem Inv.pop_step {i : Nat} (h : s.Inv cb) (hs : s.step cfg cb (.pop i) = some s') :
    s'.Inv cb ∧ ∀ d, s.Quiet cb d → s'.Quiet cb d := by
  rw [DworkSys.step, Option.ite_none_right_eq_some] at hs
  obtain rfl := Option.some.inj hs.2
  obtain ⟨items, hqueues⟩ := h.queues
  obtain ⟨hfst, hpopped⟩ := hqueues.pop i
  refine ⟨⟨⟨_, hpopped⟩, h.timers, h.owned, fun d hd => ?_⟩, fun d hq => ?_⟩
  · obtain ⟨hd₁, hd₂, hd₃⟩ := h.cancelling d hd
    exact ⟨hd₁, hd₂, fun hp => hd₃ (hqueues.pop_pending hp)⟩
  · refine hq.of rfl hqueues.pop_pending (inHand_update fun heq => ?_)
    rw [hfst] at heq
    have hd : d ∈ items i := List.mem_of_head? (WorkerPc.popped.inj heq)
    exact absurd ((hqueues.pending d).mpr ⟨i, hd⟩) (by simp [hq.pending])

/-- A call on a timer that no delayed item has. -/
theorem Inv.timer_step {op : TimerOp} (h : s.Inv cb)
    (hs : s.step cfg cb (.timer op) = some s') :
    s'.Inv cb ∧ ∀ d, s.Quiet cb d → s'.Quiet cb d := by
  rw [DworkSys.step, Option.ite_none_right_eq_some] at hs
  obtain ⟨hforeign, hs⟩ := hs
  obtain rfl := Option.some.inj hs
  have hother : ∀ d, s.IsDwork cb d → ((op.exec cfg s.timers).1.timer (dworkTimer d)).active
      = (s.timers.timer (dworkTimer d)).active := by
    intro d hd
    refine h.timers.other cfg op fun hcon => ?_
    cases op with
    | start t ms | stop t | restart t =>
        obtain rfl : t = dworkTimer d := hcon
        exact hforeign hd
    | tick => exact hforeign
  refine ⟨h.timers_step cfg op rfl rfl rfl fun d hd => ?_, fun d hq => ?_⟩
  · obtain ⟨hd₁, hd₂, -⟩ := h.cancelling d hd
    exact ⟨hd, hd₂, fun hoff => (hother d hd₁).trans hoff⟩
  · exact hq.timers_step cfg op h rfl rfl rfl ((hother d hq.dwork).trans hq.timer)

/-- **What a step keeps**: the invariant, and that a delayed item is quiet until it is
submitted. -/
theorem Inv.step (h : s.Inv cb) (hs : s.step cfg cb l = some s') :
    s'.Inv cb ∧ ∀ d, s.Quiet cb d → ¬ Submits d l → s'.Quiet cb d := by
  cases l with
  | dworkSubmit w i =>
      rw [DworkSys.step, Option.ite_none_right_eq_some] at hs
      obtain ⟨⟨-, hw⟩, hs⟩ := hs
      obtain rfl := Option.some.inj hs
      refine ⟨⟨h.queues, h.timers, h.owned, fun d hd => ?_⟩,
        fun d hq _ => hq.of rfl id id⟩
      obtain ⟨hd₁, hd₂, hd₃⟩ := h.cancelling d hd
      refine ⟨hd₁, fun hin => ?_, hd₃⟩
      rcases List.mem_cons.mp hin with rfl | hin
      · exact hw hd
      · exact hd₂ hin
  | dworkStart w ms => exact h.start_step hs
  | dworkCancel w =>
      rw [DworkSys.step, Option.ite_none_right_eq_some] at hs
      obtain ⟨⟨hw₁, hw₂⟩, hs⟩ := hs
      by_cases hpend : (s.mem w).pending
      · rw [cancelTest, if_pos hpend] at hs
        obtain rfl := Option.some.inj hs
        exact ⟨h, fun _ hq _ => hq⟩
      · rw [cancelTest, if_neg hpend] at hs
        obtain rfl := Option.some.inj hs
        refine ⟨⟨h.queues, h.timers, h.owned, fun d hd => ?_⟩, fun d hq _ => hq.of rfl id id⟩
        rcases List.mem_cons.mp hd with rfl | hd
        · exact ⟨hw₁, hw₂, fun hp => absurd hp hpend⟩
        · exact h.cancelling d hd
  | dworkStop w =>
      obtain ⟨hinv, hquiet⟩ := h.stop_step hs
      exact ⟨hinv, fun d hq _ => hquiet d hq⟩
  | tick =>
      obtain rfl := Option.some.inj hs
      obtain ⟨hinv, -, -, hquiet⟩ := h.tick cfg
      exact ⟨hinv, fun d hq _ => hquiet d hq⟩
  | take i =>
      rw [DworkSys.step, Option.ite_none_right_eq_some] at hs
      obtain rfl := Option.some.inj hs.2
      obtain ⟨hinv, hquiet⟩ :=
        h.worker_step (Function.update s.tokens i (s.tokens i - 1)) i (p := .token) nofun
      exact ⟨hinv, fun d hq _ => hquiet d hq⟩
  | pop i =>
      obtain ⟨hinv, hquiet⟩ := h.pop_step hs
      exact ⟨hinv, fun d hq _ => hquiet d hq⟩
  | call i =>
      obtain ⟨p, hp, rfl⟩ := step_call hs
      obtain ⟨hinv, hquiet⟩ := h.worker_step s.tokens i hp
      exact ⟨hinv, fun d hq _ => hquiet d hq⟩
  | ret i =>
      rw [DworkSys.step, Option.ite_none_right_eq_some] at hs
      obtain rfl := Option.some.inj hs.2
      obtain ⟨hinv, hquiet⟩ := h.worker_step s.tokens i (p := .loop) nofun
      exact ⟨hinv, fun d hq _ => hquiet d hq⟩
  | submit i w =>
      rw [DworkSys.step, Option.ite_none_left_eq_some] at hs
      obtain ⟨hw, hs⟩ := hs
      obtain rfl := Option.some.inj hs
      have hlink : Linked s (if (s.link i w).1 = .ok then
          { (s.link i w).2 with giving := i :: s.giving } else (s.link i w).2) [dworkTimer w] := by
        obtain ⟨h₁, h₂, h₃, h₄, h₅, h₆, h₇⟩ := link_linked s i w (List.mem_singleton_self _)
        split <;> exact ⟨h₁, h₂, h₃, h₄, h₅, h₆, h₇⟩
      exact hlink.foreign h fun d hd hin =>
        hw (dworkTimer_inj (List.mem_singleton.mp hin) ▸ hd)
  | give i =>
      rw [DworkSys.step, Option.ite_none_right_eq_some] at hs
      obtain rfl := Option.some.inj hs.2
      exact ⟨⟨h.queues, h.timers, h.owned, h.cancelling⟩, fun d hq _ => hq.of rfl id id⟩
  | timer op =>
      obtain ⟨hinv, hquiet⟩ := h.timer_step hs
      exact ⟨hinv, fun d hq _ => hquiet d hq⟩

/-! ## Cancels -/

theorem Quiet.not_starts (h : s.Quiet cb d) (l : Label) : ¬ s.Starts d l := by
  intro hs
  cases l with
  | call i => exact h.hand ⟨i, hs.1⟩
  | _ => exact hs

/-- **A cancel that stops the timer** leaves the item quiet, unless a worker has it in hand. -/
theorem Inv.stop_quiet (h : s.Inv cb) (hs : s.step cfg cb (.dworkStop d) = some s')
    (hon : (s.timers.timer (dworkTimer d)).active = true) (hfree : ¬ s.InHand d) :
    s'.Quiet cb d := by
  rw [DworkSys.step, Option.ite_none_right_eq_some] at hs
  obtain ⟨hd, hs⟩ := hs
  obtain rfl := Option.some.inj hs
  obtain ⟨hdw, -, hpend⟩ := h.cancelling d hd
  have hkind := h.timers.kind cfg (.stop (dworkTimer d))
  refine ⟨(hkind _).expiryFn.trans hdw, h.timers.stopped _, ?_, hfree⟩
  show (s.mem d).pending = false
  by_contra hp
  rw [Bool.not_eq_false] at hp
  rw [hpend hp] at hon
  exact absurd hon (by decide)

/-- The item was cancelled before and is not submitted, or it is now. -/
theorem Inv.cancelled_step (h : s.Inv cb) (hs : s.step cfg cb l = some s')
    (hc : s'.cancelled d = true) : (s.cancelled d = true ∧ ¬ Submits d l)
      ∨ (l = .dworkStop d ∧ (s.timers.timer (dworkTimer d)).active = true) := by
  have hkeep : s'.cancelled = s.cancelled → ¬ Submits d l → s.cancelled d = true ∧ ¬ Submits d l :=
    fun hsame hsub => ⟨by rw [← hsame]; exact hc, hsub⟩
  cases l with
  | dworkStart e ms =>
      rw [DworkSys.step, Option.ite_none_right_eq_some] at hs
      obtain rfl := Option.some.inj hs.2
      left
      have hc' : (if (timerStart cfg s.timers (dworkTimer e) ms).1 = .ok then
          Function.update s.cancelled e false else s.cancelled) d = true := hc
      by_cases hms : ms = 0
      · rw [if_neg (by rw [timerStart, if_pos hms]; simp)] at hc'
        exact ⟨hc', fun hsub => hsub.2 hms⟩
      · rw [if_pos (by rw [timerStart, if_neg hms])] at hc'
        by_cases hde : d = e
        · rw [hde, Function.update_self] at hc'
          exact absurd hc' (by decide)
        · rw [Function.update_of_ne hde] at hc'
          exact ⟨hc', fun hsub => hde hsub.1.symm⟩
  | dworkStop e =>
      rw [DworkSys.step, Option.ite_none_right_eq_some] at hs
      obtain rfl := Option.some.inj hs.2
      have hc' : (if (timerStop s.timers (dworkTimer e)).1 = .ok then
          Function.update s.cancelled e true else s.cancelled) d = true := hc
      by_cases hon : (s.timers.timer (dworkTimer e)).active
      · by_cases hde : d = e
        · subst hde
          exact Or.inr ⟨rfl, hon⟩
        · have hok : (timerStop s.timers (dworkTimer e)).1 = .ok := by
            rw [timerStop, if_neg (not_not.mpr hon)]
          rw [if_pos hok, Function.update_of_ne hde] at hc'
          exact Or.inl ⟨hc', id⟩
      · rw [if_neg (by rw [timerStop, if_pos hon]; simp)] at hc'
        exact Or.inl ⟨hc', id⟩
  | dworkSubmit e i | take i | pop i | ret i | give i | timer op =>
      rw [DworkSys.step, Option.ite_none_right_eq_some] at hs
      obtain rfl := Option.some.inj hs.2
      exact Or.inl (hkeep rfl id)
  | dworkCancel e =>
      rw [DworkSys.step, Option.ite_none_right_eq_some] at hs
      obtain ⟨-, hs⟩ := hs
      split at hs
      all_goals
        obtain rfl := Option.some.inj hs
        exact Or.inl (hkeep rfl id)
  | tick =>
      obtain rfl := Option.some.inj hs
      exact Or.inl (hkeep (h.tick cfg).2.2.1 id)
  | call i =>
      obtain ⟨p, -, rfl⟩ := step_call hs
      exact Or.inl (hkeep rfl id)
  | submit i w =>
      rw [DworkSys.step, Option.ite_none_left_eq_some] at hs
      obtain rfl := Option.some.inj hs.2
      refine Or.inl (hkeep ?_ id)
      split <;> rfl

/-- The item is quiet from a cancel to the next submit. -/
structure Kept (cb : Nat) (d : WorkId) (s : DworkSys) : Prop where
  inv : s.Inv cb
  quiet : s.cancelled d = true → s.Quiet cb d

theorem Kept.step (h : s.Kept cb d) (hfree : Free d s l) (hs : s.step cfg cb l = some s') :
    s'.Kept cb d := by
  obtain ⟨hinv, hquiet⟩ := h.inv.step hs
  refine ⟨hinv, fun hc => ?_⟩
  rcases h.inv.cancelled_step hs hc with ⟨hold, hsub⟩ | ⟨rfl, hon⟩
  · exact hquiet d (h.quiet hold) hsub
  · exact h.inv.stop_quiet hs hon (hfree rfl hon)

/-- A pending item is in a queue. -/
theorem Inv.queued (h : s.Inv cb) (hp : (s.mem d).pending) : s.Queued d := by
  obtain ⟨items, hq⟩ := h.queues
  obtain ⟨i, hi⟩ := (hq.pending d).mp hp
  exact ⟨i, items i, (hq.holds i).path, hi⟩

/-- What a worker has in hand it starts. -/
theorem Inv.starts (cfg : Config) (h : s.Inv cb) {i : Nat} (hw : s.worker i = .popped (some d)) :
    (∃ s', s.step cfg cb (.call i) = some s') ∧ s.Starts d (.call i) := by
  obtain ⟨items, hq⟩ := h.queues
  refine ⟨⟨_, by simp only [DworkSys.step, hw]; rfl⟩, hw, hq.handler d⟩

/-- From a quiet item on, no handler starts before the next submit. -/
theorem Quiet.along (hinv : s.Inv cb) (h : s.Quiet cb d) {ls : List Label}
    (hsub : ∀ l ∈ ls, ¬ Submits d l) :
    Along (DworkSys.step cfg cb) (fun s l => ¬ s.Starts d l) s ls :=
  along_of_guarded (Q := fun s => s.Inv cb ∧ s.Quiet cb d) (G := fun _ l => ¬ Submits d l)
    (fun _ _ _ hq hl hs => ⟨(hq.1.step hs).1, (hq.1.step hs).2 d hq.2 hl⟩)
    (fun _ l hq => hq.2.not_starts l) ⟨hinv, h⟩ (along_of_forall s fun _ => hsub)

/--
**When a cancel of delayed work is final.**

Submits, cancels, ticks and workers interleave in any way. As long as a cancel stops the timer
only when no worker has the item in hand, no handler starts between a cancel that has returned
`VIBE_OK` and the next submit. From any such cancel on, the handler can be started without a
submit exactly when a worker has the item in hand. `VIBE_EAGAIN` says that the item is in a queue,
or that its timer is not running.
-/
theorem dwork_cancel_final_iff {cfg : Config} {cb : Nat} {s₀ s : DworkSys} (h : s₀.Initial cb)
    {ls : List Label} (hr : run (DworkSys.step cfg cb) s₀ ls = some s) (d : WorkId) :
    (Along (DworkSys.step cfg cb) (Free d) s₀ ls → Along (DworkSys.step cfg cb) (Timely d) s₀ ls)
    ∧ (∀ s', s.step cfg cb (.dworkStop d) = some s' →
        (timerStop s.timers (dworkTimer d)).1 = .ok →
        ((∀ ls' s'', run (DworkSys.step cfg cb) s' ls' = some s'' →
            (∀ l ∈ ls', ¬ Submits d l) →
            Along (DworkSys.step cfg cb) (fun s l => ¬ s.Starts d l) s' ls')
          ↔ ¬ s.InHand d))
    ∧ (s.cancelTest d = some .eagain → s.Queued d)
    ∧ ((timerStop s.timers (dworkTimer d)).1 = .eagain →
        (s.timers.timer (dworkTimer d)).active = false) := by
  have hinv : s.Inv cb := run_invariant (fun _ _ _ hi hs => (hi.step hs).1) h.inv hr
  refine ⟨fun hfree => ?_, fun s' hs hok => ?_, fun htest => ?_, fun hagain => ?_⟩
  · have hkept : s₀.Kept cb d := ⟨h.inv, fun hc => absurd hc (by simp [h.cancelled d])⟩
    exact along_of_guarded (Q := Kept cb d) (fun _ _ _ hk hl hs => hk.step hl hs)
      (fun _ l hk hc => (hk.quiet hc).not_starts l) hkept hfree
  · have hon : (s.timers.timer (dworkTimer d)).active = true := by
      by_contra hoff
      rw [timerStop, if_pos hoff] at hok
      exact absurd hok (by simp)
    constructor
    · intro hnever hhand
      rcases hhand with ⟨i, hi⟩
      have hsame : s'.worker = s.worker := by
        rw [DworkSys.step, Option.ite_none_right_eq_some] at hs
        obtain rfl := Option.some.inj hs.2
        rfl
      have hinv' : s'.Inv cb := (hinv.step hs).1
      obtain ⟨⟨s'', hcall⟩, hstarts⟩ := hinv'.starts cfg (hsame ▸ hi)
      have halong := hnever [.call i] s'' (run_cons.mpr ⟨s'', hcall, rfl⟩) (by
        intro l hl
        obtain rfl := List.mem_singleton.mp hl
        exact id)
      exact halong.1 hstarts
    · intro hfree ls' s'' _ hsub
      exact (hinv.stop_quiet hs hon hfree).along (hinv.step hs).1 hsub
  · refine hinv.queued ?_
    by_contra hp
    rw [cancelTest, if_neg hp] at htest
    exact absurd htest (by simp)
  · by_contra hon
    rw [Bool.not_eq_false] at hon
    rw [timerStop, if_neg (not_not.mpr hon)] at hagain
    exact absurd hagain (by simp)

/-- Initialised items, of which item 3 is delayed; nothing is submitted yet. -/
def dworkReady : DworkSys where
  mem := fun _ => ⟨some 0, none, false⟩
  workq := fun _ => ⟨none, none, ⟨0, 0, listInit⟩⟩
  tokens := fun _ => 0
  worker := fun _ => .loop
  timers := ⟨fun t => if t = dworkTimer 3 then
      { timerDefine (some 1) .oneShot with userData := some 3 }
    else timerDefine (some 0) .periodic, none⟩
  target := fun _ => none
  giving := []
  submitting := []
  cancelling := []
  cancelled := fun _ => false

theorem dworkReady_initial : dworkReady.Initial 1 := by
  refine ⟨fun _ => ⟨0, rfl⟩, fun _ => ⟨rfl, rfl⟩, fun _ => rfl, ⟨rfl, fun t => ?_⟩, fun t ht => ?_,
    rfl, rfl, fun _ => rfl⟩
  · by_cases h : t = dworkTimer 3
    · exact ⟨1, some 3, .oneShot, if_pos h⟩
    · exact ⟨0, none, .periodic, if_neg h⟩
  · by_cases h : t = dworkTimer 3
    · subst h
      exact ⟨3, rfl, rfl, rfl⟩
    · have hother : dworkReady.timers.timer t = timerDefine (some 0) .periodic := if_neg h
      rw [hother] at ht
      exact absurd ht (by decide)

/-- A submit for one millisecond, and a cancel before the tick. -/
def earlyCancel : List Label := [.dworkSubmit 3 0, .dworkStart 3 1, .dworkCancel 3]

/-- The state before `vibe_timer_stop`. -/
def earlyState : DworkSys :=
  (run (DworkSys.step ⟨1000, 10, true⟩ 1) dworkReady earlyCancel).getD dworkReady

/-- The cancel is final: with its worker before the loop, item 3 is in nobody's hand. -/
theorem dwork_cancel_final_iff_early : ∃ s',
    run (DworkSys.step ⟨1000, 10, true⟩ 1) dworkReady earlyCancel = some earlyState
    ∧ earlyState.step ⟨1000, 10, true⟩ 1 (.dworkStop 3) = some s'
    ∧ ∀ ls' s'', run (DworkSys.step ⟨1000, 10, true⟩ 1) s' ls' = some s'' →
      (∀ l ∈ ls', ¬ Submits 3 l) →
      Along (DworkSys.step ⟨1000, 10, true⟩ 1) (fun s l => ¬ s.Starts 3 l) s' ls' := by
  obtain ⟨s, hrun⟩ : ∃ s, run (DworkSys.step ⟨1000, 10, true⟩ 1) dworkReady earlyCancel = some s :=
    Option.isSome_iff_exists.mp (by decide +kernel)
  obtain ⟨s', hs⟩ : ∃ s', earlyState.step ⟨1000, 10, true⟩ 1 (.dworkStop 3) = some s' :=
    Option.isSome_iff_exists.mp (by decide +kernel)
  have hr : run (DworkSys.step ⟨1000, 10, true⟩ 1) dworkReady earlyCancel = some earlyState := by
    rw [earlyState, hrun, Option.getD_some]
  have hfinal := (dwork_cancel_final_iff dworkReady_initial hr 3).2.1 s' hs (by decide +kernel)
  refine ⟨s', hr, hs, hfinal.mpr fun ⟨i, hi⟩ => ?_⟩
  have hloop : earlyState.worker i = .loop := rfl
  rw [hloop] at hi
  exact absurd hi (by decide)

/-- The item is submitted again while it is still in the queue. The worker takes it off and is
preempted by the thread that cancels it; the timer is stopped, and then the handler starts. -/
theorem cancelled_dwork_starts : dworkReady.Initial 1 ∧ dworkReady.IsDwork 1 3
    ∧ ¬ Along (DworkSys.step ⟨1000, 10, true⟩ 1) (Timely 3) dworkReady
      [.dworkSubmit 3 0, .dworkStart 3 1, .tick, .dworkSubmit 3 0, .dworkStart 3 100, .take 0,
        .pop 0, .dworkCancel 3, .dworkStop 3, .call 0] :=
  ⟨dworkReady_initial, rfl, by decide +kernel⟩

end DworkSys

end VibeRtos
