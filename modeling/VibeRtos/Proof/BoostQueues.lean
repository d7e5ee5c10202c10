import VibeRtos.Proof.MutexSteps
import VibeRtos.Proof.OrderlyRuns

/-!
# Priority inheritance and the run queues

A lock that raises the owner should move the owner to another run queue and take the
caller out of its own, and nobody else should notice; an unlock that gives the owner its
priority back likewise. Both set the priority first and then look for the thread in the
queue of its new priority, where it is not. So what they should do is what they do
precisely if the thread is in no run queue at all: then there is nothing to move.
-/

namespace VibeRtos

open Links Kernel Runs

/-- `t` moves to queue `q`, if it was queued, and everyone else stays queued in order. -/
structure Relocates (qs qs' : Prio → List Tid) (t : Tid) (q : Prio) : Prop where
  others : ∀ r, (qs' r).erase t = (qs r).erase t
  place : ∀ r, t ∈ qs' r ↔ (∃ p, t ∈ qs p) ∧ r = q

/-- What a lock by `self` that raises `owner` should do to the run queues. -/
def BoostFrame (k k' : Kernel) (self owner : Tid) : Prop :=
  ∃ qs qs₁ qs', QueuesRep k qs ∧ Relocates qs qs₁ owner (k.thr self).priority
    ∧ (∀ r, qs' r = (qs₁ r).erase self) ∧ QueuesRep k' qs'

/-- What an unlock by `self` that restores `prio` and hands over to `next` should do to them. -/
def RestoreFrame (k k' : Kernel) (self : Tid) (prio : Prio) (next : Option Tid) : Prop :=
  ∃ qs qs₁ qs', QueuesRep k qs ∧ Relocates qs qs₁ self prio
    ∧ (∀ r, qs' r = qs₁ r ++ next.toList.filter fun w => (k'.thr w).priority = r)
    ∧ QueuesRep k' qs'

variable {k k' : Kernel} {qs qs' : Prio → List Tid} {ys : List Tid} {self owner t : Tid}
  {m : Mutex} {p q : Prio} {timeout : UInt32}

/-- Nothing moves, and the thread is in no queue. -/
theorem Relocates.refl (hout : ∀ p, t ∉ qs p) : Relocates qs qs t q :=
  ⟨fun _ => rfl, fun r =>
    ⟨fun hin => absurd hin (hout r), fun ⟨⟨p, hin⟩, _⟩ => absurd hin (hout p)⟩⟩

/-- The queue the thread has left. -/
theorem Relocates.left (h : Relocates qs qs' t q) (hpq : p ≠ q) : qs' p = (qs p).erase t := by
  have hout : t ∉ qs' p := fun hin => hpq ((h.place p).mp hin).2
  rw [← h.others p, List.erase_of_not_mem hout]

/-- Nobody else changes queues. -/
theorem Relocates.mem_iff {u : Tid} (h : Relocates qs qs' t q) (hu : u ≠ t) (r : Prio) :
    u ∈ qs' r ↔ u ∈ qs r := by
  rw [← List.mem_erase_of_ne hu, h.others r, List.mem_erase_of_ne hu]

/-! ## Counting a queue -/

theorem QueuesRep.length_lt (h : QueuesRep k qs) (p : Prio) : (qs p).length < 2 ^ 32 := by
  have hle := (h.rep p).nodup.length_le_card
  rw [Fintype.card_fin] at hle
  omega

/-- The count of a queue is the number of its threads. -/
theorem QueuesRep.count (h : QueuesRep k qs) (p : Prio) :
    (k.runQueues p).count.toNat = (qs p).length := by
  rw [(h.rep p).count, UInt32.toNat_ofNat_of_lt' (h.length_lt p)]

theorem schedDequeue_other (h : p ≠ (k.thr t).priority) :
    (k.schedDequeue t).runQueues p = k.runQueues p := Function.update_of_ne h _ _

theorem schedEnqueue_other (h : p ≠ (k.thr t).priority) :
    (k.schedEnqueue t).runQueues p = k.runQueues p := by
  have hprio : ((k.modThread t fun th => { th with state := .ready }).thr t).priority
      = (k.thr t).priority := by rw [modThread_self]
  exact Function.update_of_ne (by rw [hprio]; exact h) _ _

theorem schedEnqueue_count (k : Kernel) (t : Tid) (p : Prio) :
    ((k.schedEnqueue t).runQueues p).count
    = (k.runQueues p).count + if (k.thr t).priority = p then 1 else 0 := by
  split
  · rename_i hp
    have hprio : ((k.modThread t fun th => { th with state := .ready }).thr t).priority = p := by
      rw [modThread_self, ← hp]
    have happ : ∀ (node : Tid → Link Tid) (l : VList Tid), (listAppend node l t).2.count
        = l.count + 1 := by
      intro node l
      unfold listAppend
      dsimp only
      split <;> rfl
    unfold schedEnqueue
    dsimp only
    rw [hprio, Function.update_self, happ]
    rfl
  · rename_i hp
    rw [schedEnqueue_other (Ne.symm hp), UInt32.add_zero]

/-! ## Locking -/

/-- Raising an owner leaves the queue it is in as it is. -/
theorem mutexBoost_other (hp : p ≠ (k.thr self).priority) :
    (mutexBoost k self owner).runQueues p = k.runQueues p := by
  unfold mutexBoost
  split
  · dsimp only
    split
    · have hprio : ((k.modThread owner fun th =>
          { th with priority := (k.thr self).priority }).thr owner).priority
          = (k.thr self).priority := by rw [modThread_self]
      rw [schedEnqueue_other (by rw [schedDequeue_thr, hprio]; exact hp),
        schedDequeue_other (by rw [hprio]; exact hp)]
      rfl
    · rfl
  · rfl

/-- An owner that is not queued is raised in place. -/
theorem mutexBoost_idle (howner : ¬ (k.thr owner).state.Active) :
    (mutexBoost k self owner).schedNode = k.schedNode
      ∧ (mutexBoost k self owner).runQueues = k.runQueues
      ∧ (mutexBoost k self owner).readyMask = k.readyMask := by
  unfold mutexBoost
  split
  · dsimp only
    rw [if_neg (by rw [modThread_self]; exact fun hr => howner (Or.inl hr))]
    exact ⟨rfl, rfl, rfl⟩
  · exact ⟨rfl, rfl, rfl⟩

/-- The wait list is none of the run queues. -/
theorem mutexQueue_sched {l : VList Tid} {r : Kernel × VList Tid}
    (h : mutexQueue k l self = some r) : r.1.schedNode = k.schedNode
      ∧ r.1.runQueues = k.runQueues ∧ r.1.readyMask = k.readyMask := by
  unfold mutexQueue at h
  split at h
  · split at h
    · obtain rfl := Option.some.inj h
      exact ⟨rfl, rfl, rfl⟩
    · exact absurd h (by simp)
  · obtain rfl := Option.some.inj h
    exact ⟨rfl, rfl, rfl⟩

/-- The caller is linked, unless the first waiter that is less urgent has no predecessor. -/
theorem mutexQueue_isSome {l : VList Tid} : (∃ r, mutexQueue k l self = some r)
    ↔ ∀ w ∈ (listNodes k.waitNode l).find? (fun t => (k.thr t).priority < (k.thr self).priority),
      (k.waitNode w).prev ≠ none := by
  unfold mutexQueue
  cases (listNodes k.waitNode l).find? fun t => (k.thr t).priority < (k.thr self).priority with
  | none => exact ⟨fun _ w hw => absurd hw (by simp), fun _ => ⟨_, rfl⟩⟩
  | some w =>
      dsimp only
      cases hprev : (k.waitNode w).prev with
      | none =>
          refine ⟨fun ⟨r, hr⟩ => absurd hr (by simp), fun hall => ?_⟩
          exact absurd hprev (hall w rfl)
      | some p =>
          refine ⟨fun _ v hv => ?_, fun _ => ⟨_, rfl⟩⟩
          obtain rfl : w = v := Option.some.inj hv
          rw [hprev]
          exact Option.some_ne_none p

section Boost

/-- The first waiter that is less urgent than `self` when `owner` has become as urgent. -/
def Kernel.overtaken (k : Kernel) (l : VList Tid) (self owner : Tid) : Option Tid :=
  (listNodes k.waitNode l).find? fun t =>
    t ≠ owner ∧ (k.thr t).priority < (k.thr self).priority

/-- The kernel once the owner is raised and the caller is blocked. -/
def boosted (k : Kernel) (self owner : Tid) (timeout : UInt32) : Kernel :=
  (mutexBoost k self owner).block self ((mutexBoost k self owner).deadline timeout)

theorem boosted_other (hne : owner ≠ self) (hp : p ≠ (k.thr self).priority) :
    (boosted k self owner timeout).runQueues p = k.runQueues p := by
  have hself : ((mutexBoost k self owner).thr self).priority = (k.thr self).priority := by
    rw [mutexBoost_thr, Function.update_of_ne hne.symm]
  show ((mutexBoost k self owner).schedDequeue self).runQueues p = _
  rw [schedDequeue_other (by rw [hself]; exact hp), mutexBoost_other hp]

theorem boosted_priority (hlow : (k.thr owner).priority < (k.thr self).priority) (w : Tid) :
    ((boosted k self owner timeout).thr w).priority
      = if w = owner then (k.thr self).priority else (k.thr w).priority := by
  have hblock : ((boosted k self owner timeout).thr w).priority
      = ((mutexBoost k self owner).thr w).priority := by
    unfold boosted Kernel.block
    rw [modThread_thr, schedDequeue_thr]
    split
    · rename_i hw
      rw [hw]
    · rfl
  rw [hblock, mutexBoost_thr, Function.update_apply]
  split
  · exact max_eq_right (le_of_lt hlow)
  · rfl

/-- An owner that is queued stays in the queue it was in, and is counted there. -/
theorem BoostFrame.owner_idle {k₁ : Kernel} (hp : Placed k qs ys) (hne : owner ≠ self)
    (hlow : (k.thr owner).priority < (k.thr self).priority)
    (hq : k₁.runQueues = (boosted k self owner timeout).runQueues)
    (h : BoostFrame k k₁ self owner) : ¬ (k.thr owner).state.Active := by
  obtain ⟨qs₀, qs₁, qs', hrep, hmove, herase, hrep'⟩ := h
  obtain rfl := hrep.unique hp.queues
  intro hact
  have hin : owner ∈ qs₀ (k.thr owner).priority := (hp.agree owner _).mpr ⟨hact, rfl⟩
  have hself : self ∉ qs₀ (k.thr owner).priority := fun hs =>
    (ne_of_gt hlow) ((hp.agree self _).mp hs).2
  have hlen : (qs' (k.thr owner).priority).length = (qs₀ (k.thr owner).priority).length - 1 := by
    have hout : self ∉ (qs₀ (k.thr owner).priority).erase owner :=
      fun hs => hself (List.mem_of_mem_erase hs)
    rw [herase, hmove.left (ne_of_lt hlow), List.erase_of_not_mem hout,
      List.length_erase_of_mem hin]
  have hcount := hrep'.count (k.thr owner).priority
  rw [hq, boosted_other hne (ne_of_lt hlow), hrep.count, hlen] at hcount
  have hpos := List.length_pos_of_mem hin
  omega

/-- A caller that is not queued is counted out all the same. -/
theorem BoostFrame.caller_active {k₁ : Kernel} (hp : Placed k qs ys) (hne : owner ≠ self)
    (hout : ¬ (k.thr owner).state.Active)
    (hq : k₁.runQueues = (boosted k self owner timeout).runQueues)
    (h : BoostFrame k k₁ self owner) : (k.thr self).state.Active := by
  obtain ⟨qs₀, qs₁, qs', hrep, hmove, herase, hrep'⟩ := h
  obtain rfl := hrep.unique hp.queues
  by_contra hna
  have hidle : ∀ {u}, ¬ (k.thr u).state.Active → ∀ r, u ∉ qs₀ r :=
    fun hu r hin => hu ((hp.agree _ r).mp hin).1
  have hsame : ∀ r, qs' r = qs₀ r := by
    intro r
    have hnone : owner ∉ qs₁ r := fun hin =>
      let ⟨p, hp⟩ := ((hmove.place r).mp hin).1
      hidle hout p hp
    have hmid : qs₁ r = qs₀ r := by
      rw [← List.erase_of_not_mem hnone, hmove.others r, List.erase_of_not_mem (hidle hout r)]
    rw [herase r, hmid, List.erase_of_not_mem (hidle hna r)]
  have hself : ((mutexBoost k self owner).thr self).priority = (k.thr self).priority := by
    rw [mutexBoost_thr, Function.update_of_ne hne.symm]
  have hdown : (k₁.runQueues (k.thr self).priority).count
      = (k.runQueues (k.thr self).priority).count - 1 := by
    rw [hq]
    show (((mutexBoost k self owner).schedDequeue self).runQueues _).count = _
    unfold schedDequeue
    dsimp only
    rw [hself, Function.update_self, listRemove_count, (mutexBoost_idle hout).2.1]
  have hcount := hrep'.count (k.thr self).priority
  rw [hdown, hsame, ← hrep.count] at hcount
  have hone : (1 : UInt32).toNat = 1 := rfl
  rw [UInt32.toNat_sub, hone] at hcount
  have hlt := (k.runQueues (k.thr self).priority).count.toNat_lt
  omega

/-- **What a raising lock does, as it should be**: exactly when the caller is queued and the owner
is not, and the first waiter that the caller overtakes has somebody before it. -/
theorem boost_frame_iff (hp : Placed k qs ys) (howner : m.owner = some owner) (hne : owner ≠ self)
    (hwait : timeout ≠ noWait) (hlow : (k.thr owner).priority < (k.thr self).priority) :
    (∃ r, mutexLock k m self timeout = some r ∧ BoostFrame k r.1 self owner)
      ↔ (k.thr self).state.Active ∧ ¬ (k.thr owner).state.Active
        ∧ ∀ w ∈ k.overtaken m.waitList self owner, (k.waitNode w).prev ≠ none := by
  have hother : m.owner ≠ some self := by
    rw [howner]
    exact fun he => hne (Option.some.inj he)
  have hlock : mutexLock k m self timeout = (mutexQueue (boosted k self owner timeout) m.waitList
      self).map fun r => (r.1, { m with waitList := r.2 }, .block) := by
    unfold mutexLock
    rw [if_neg hother, howner]
    exact if_neg hwait
  have hplace : (∃ r, mutexQueue (boosted k self owner timeout) m.waitList self = some r)
      ↔ ∀ w ∈ k.overtaken m.waitList self owner, (k.waitNode w).prev ≠ none := by
    have hnode : (boosted k self owner timeout).waitNode = k.waitNode :=
      (mutexBoost_frame k self owner).1
    have hlower : (fun t => decide (((boosted k self owner timeout).thr t).priority
          < ((boosted k self owner timeout).thr self).priority))
        = fun t => decide (t ≠ owner ∧ (k.thr t).priority < (k.thr self).priority) := by
      funext t
      rw [boosted_priority hlow t, boosted_priority hlow self, if_neg hne.symm]
      by_cases ht : t = owner
      · simp [ht]
      · simp [ht]
    rw [mutexQueue_isSome, hnode, hlower]
    rfl
  rw [hlock]
  constructor
  · rintro ⟨r, hr, hframe⟩
    obtain ⟨v, hv, rfl⟩ := Option.map_eq_some_iff.mp hr
    have hq := (mutexQueue_sched hv).2.1
    have hidle := hframe.owner_idle hp hne hlow hq
    exact ⟨hframe.caller_active hp hne hidle hq, hidle, hplace.mp ⟨v, hv⟩⟩
  · rintro ⟨hact, hidle, hhead⟩
    obtain ⟨v, hv⟩ := hplace.mpr hhead
    refine ⟨_, by rw [hv]; rfl, ?_⟩
    obtain ⟨hn, hq, hm⟩ := mutexQueue_sched hv
    obtain ⟨hbn, hbq, hbm⟩ : (mutexBoost k self owner).schedNode = k.schedNode ∧ _ ∧ _ :=
      mutexBoost_idle hidle
    have hself : (mutexBoost k self owner).thr self = k.thr self := by
      rw [mutexBoost_thr, Function.update_of_ne hne.symm]
    have hin : self ∈ qs ((mutexBoost k self owner).thr self).priority := by
      rw [hself]
      exact (hp.agree self _).mpr ⟨hact, rfl⟩
    have hdeq := (hp.queues.congr hbn hbq hbm).dequeue hin
    refine ⟨qs, qs, _, hp.queues, .refl fun r hr => hidle ((hp.agree owner r).mp hr).1, fun r => ?_,
      hdeq.congr hn hq hm⟩
    rw [Function.update_apply]
    split
    · rename_i hr
      rw [hr]
    · rename_i hr
      have hout : self ∉ qs r := fun hs =>
        hr (by rw [hself]; exact ((hp.agree self r).mp hs).2.symm)
      rw [List.erase_of_not_mem hout]

end Boost

/-! ## Unlocking -/

/-- Restoring a priority leaves the queues of all others as they are. -/
theorem mutexRestore_other {prio : Prio} (hp : p ≠ prio) :
    (mutexRestore k self prio).runQueues p = k.runQueues p := by
  have hprio : ((k.modThread self fun th => { th with priority := prio }).thr self).priority
      = prio := by rw [modThread_self]
  unfold mutexRestore
  dsimp only
  split
  · rw [schedEnqueue_other (by rw [schedDequeue_thr, hprio]; exact hp),
      schedDequeue_other (by rw [hprio]; exact hp)]
    rfl
  · rfl

/-- A thread that is not queued, or keeps its priority, is in the right queue afterwards. -/
theorem Placed.restore (h : Placed k qs ys) {prio : Prio}
    (hok : ¬ (k.thr self).state.Active ∨ (k.thr self).priority = prio) :
    ∃ qs', QueuesRep (mutexRestore k self prio) qs' ∧ Relocates qs qs' self prio := by
  by_cases hready : (k.thr self).state = .ready
  · -- it goes to the back of its queue
    have hsame : (k.thr self).priority = prio := hok.resolve_left (not_not.mpr (Or.inl hready))
    let k₁ := k.modThread self fun th => { th with priority := prio }
    have hrep₁ : QueuesRep k₁ qs := h.queues.congr rfl rfl rfl
    have hprio : (k₁.thr self).priority = prio := by rw [modThread_self]
    have hin : self ∈ qs (k₁.thr self).priority := by
      rw [hprio, ← hsame]
      exact (h.agree self _).mpr ⟨Or.inl hready, rfl⟩
    have hdeq := hrep₁.dequeue hin
    have hout : ∀ r, self ∉ Function.update qs (k₁.thr self).priority
        ((qs (k₁.thr self).priority).erase self) r := by
      intro r
      rw [Function.update_apply]
      split
      · exact (h.queues.rep _).nodup.not_mem_erase
      · rename_i hr
        exact fun hmem => hr (h.queues.disjoint hmem hin)
    have henq := hdeq.enqueue hout
    rw [schedDequeue_thr, hprio, Function.update_idem, Function.update_self] at henq
    rw [hprio] at hin
    have heq : mutexRestore k self prio = (k₁.schedDequeue self).schedEnqueue self := by
      unfold mutexRestore
      exact if_pos (by rw [modThread_self]; exact hready)
    rw [heq]
    refine ⟨_, henq, fun r => ?_, fun r => ?_⟩
    · rw [Function.update_apply]
      split
      · rename_i hr
        rw [hr, List.erase_append_right _ (h.queues.rep _).nodup.not_mem_erase]
        simp
      · rfl
    · rw [Function.update_apply]
      split
      · rename_i hr
        simp only [List.mem_append, List.mem_singleton, or_true, true_iff]
        exact ⟨⟨prio, hin⟩, hr⟩
      · rename_i hr
        exact ⟨fun hmem => absurd (h.queues.disjoint hmem hin) hr, fun ⟨_, he⟩ => absurd he hr⟩
  · have heq : mutexRestore k self prio
      = k.modThread self fun th => { th with priority := prio } := by
      unfold mutexRestore
      exact if_neg (by rw [modThread_self]; exact hready)
    rw [heq]
    refine ⟨qs, h.queues.congr rfl rfl rfl, fun _ => rfl, fun r => ⟨fun hin => ⟨⟨r, hin⟩, ?_⟩, ?_⟩⟩
    · obtain ⟨hact, hprio⟩ := (h.agree self r).mp hin
      rw [← hprio, ← hok.resolve_left (not_not.mpr hact)]
    · rintro ⟨⟨p, hin⟩, rfl⟩
      obtain ⟨hact, hprio⟩ := (h.agree self p).mp hin
      exact (h.agree self r).mpr ⟨hact, hok.resolve_left (not_not.mpr hact)⟩

/-- What the last unlock does. -/
theorem mutexUnlock_eq (howner : m.owner = some self) (hlast : m.lockCount - 1 = 0) :
    (mutexUnlock k m self).1 = match m.waitList.head with
      | some w => ((mutexRestore k self m.ownerOrigPrio).waitRemove m.waitList w).1.schedEnqueue w
      | none => mutexRestore k self m.ownerOrigPrio := by
  have hzero : ¬ m.lockCount - 1 > 0 := by
    rw [hlast]
    decide
  unfold mutexUnlock
  rw [if_neg (not_not.mpr howner)]
  dsimp only
  rw [if_neg hzero]
  unfold Kernel.waitGetHead
  cases m.waitList.head <;> rfl

/-- The queue a thread is handed to. -/
theorem handover_pos {w : Tid} (h : (k.thr w).priority = p) :
    ((some w).toList.filter fun v => ((k.schedEnqueue w).thr v).priority = p) = [w] := by
  rw [← h]
  simp

theorem handover_neg {w : Tid} (h : (k.thr w).priority ≠ p) :
    ((some w).toList.filter fun v => ((k.schedEnqueue w).thr v).priority = p) = [] := by
  simp [h]

/-- A thread that is queued already cannot be handed the mutex. -/
theorem RestoreFrame.next_idle {prio : Prio} {w : Tid} (hp : Placed k qs ys)
    (h : RestoreFrame k k' self prio (some w)) : ¬ (k.thr w).state.Active := by
  obtain ⟨qs₀, qs₁, qs', hrep, hmove, happ, hrep'⟩ := h
  obtain rfl := hrep.unique hp.queues
  intro hact
  have hin : w ∈ qs₀ (k.thr w).priority := (hp.agree w _).mpr ⟨hact, rfl⟩
  obtain ⟨r, hr⟩ : ∃ r, w ∈ qs₁ r := by
    by_cases hws : w = self
    · subst hws
      exact ⟨prio, (hmove.place prio).mpr ⟨⟨_, hin⟩, rfl⟩⟩
    · exact ⟨_, (hmove.mem_iff hws _).mpr hin⟩
  -- it is in queue `r` from before, and at the end of the queue it is handed to
  have hlast : qs' (k'.thr w).priority = qs₁ (k'.thr w).priority ++ [w] := by
    rw [happ]
    simp
  have hboth : r = (k'.thr w).priority := by
    refine hrep'.disjoint (t := w) ?_ ?_
    · rw [happ]
      exact List.mem_append_left _ hr
    · rw [hlast]
      simp
  have hnodup := (hrep'.rep (k'.thr w).priority).nodup
  rw [hlast, ← hboth] at hnodup
  exact (List.nodup_append.mp hnodup).2.2 w hr w (by simp) rfl

/-- **What a restoring unlock does, as it should be**: exactly when the owner is not queued, or has
its old priority already, and the first waiter is not queued. -/
theorem restore_frame_iff (hp : Placed k qs ys) (howner : m.owner = some self)
    (hlast : m.lockCount - 1 = 0) :
    RestoreFrame k (mutexUnlock k m self).1 self m.ownerOrigPrio m.waitList.head
      ↔ (¬ (k.thr self).state.Active ∨ (k.thr self).priority = m.ownerOrigPrio)
        ∧ k.HeadIdle m.waitList := by
  rw [mutexUnlock_eq howner hlast]
  constructor
  · intro hframe
    refine ⟨?_, fun w hw => RestoreFrame.next_idle hp (by rw [hw] at hframe; exact hframe)⟩
    obtain ⟨qs₀, qs₁, qs', hrep, hmove, happ, hrep'⟩ := hframe
    obtain rfl := hrep.unique hp.queues
    by_contra hnot
    obtain ⟨hact, hdiff⟩ := not_or.mp hnot
    have hact := not_not.mp hact
    have hin : self ∈ qs₀ (k.thr self).priority := (hp.agree self _).mpr ⟨hact, rfl⟩
    have hpos := List.length_pos_of_mem hin
    have hcount := hrep'.count (k.thr self).priority
    have hlt := hrep.length_lt (k.thr self).priority
    rw [happ, List.length_append, hmove.left hdiff, List.length_erase_of_mem hin] at hcount
    have hkeep : ((mutexRestore k self m.ownerOrigPrio).runQueues (k.thr self).priority).count.toNat
        = (qs₀ (k.thr self).priority).length := by
      rw [mutexRestore_other hdiff, hrep.count]
    -- the owner is still counted in its old queue
    cases hhead : m.waitList.head with
    | none =>
        rw [hhead] at hcount
        have hzero : (Option.toList (none : Option Tid)).filter (fun w =>
            ((mutexRestore k self m.ownerOrigPrio).thr w).priority = (k.thr self).priority)
              = [] := rfl
        rw [hzero] at hcount
        dsimp only at hcount
        rw [hkeep] at hcount
        simp only [List.length_nil] at hcount
        omega
    | some w =>
        rw [hhead] at hcount
        have hstay : (((mutexRestore k self m.ownerOrigPrio).waitRemove m.waitList w).1.runQueues
            (k.thr self).priority).count.toNat = (qs₀ (k.thr self).priority).length := hkeep
        dsimp only at hcount
        rw [schedEnqueue_count, UInt32.toNat_add, hstay] at hcount
        have hone : (1 : UInt32).toNat = 1 := rfl
        by_cases hq : (((mutexRestore k self m.ownerOrigPrio).waitRemove m.waitList w).1.thr
            w).priority = (k.thr self).priority
        · rw [if_pos hq, hone, handover_pos hq] at hcount
          simp only [List.length_cons, List.length_nil] at hcount
          omega
        · rw [if_neg hq, handover_neg hq] at hcount
          simp only [List.length_nil, UInt32.toNat_zero] at hcount
          omega
  · rintro ⟨hok, hidle⟩
    obtain ⟨qs₁, hrep₁, hmove⟩ := hp.restore hok
    cases hhead : m.waitList.head with
    | none => exact ⟨qs, qs₁, qs₁, hp.queues, hmove, fun r => (List.append_nil _).symm, hrep₁⟩
    | some w =>
        have hna := hidle w hhead
        have hout : ∀ r, w ∉ qs₁ r := by
          intro r hin
          by_cases hw : w = self
          · subst hw
            obtain ⟨p, hp'⟩ := ((hmove.place r).mp hin).1
            exact hna ((hp.agree w p).mp hp').1
          · exact hna ((hp.agree w r).mp ((hmove.mem_iff hw r).mp hin)).1
        have hrep₂ : QueuesRep ((mutexRestore k self m.ownerOrigPrio).waitRemove m.waitList w).1
            qs₁ := hrep₁.congr rfl rfl rfl
        refine ⟨qs, qs₁, _, hp.queues, hmove, fun r => ?_, hrep₂.enqueue hout⟩
        rw [Function.update_apply]
        split
        · rename_i hr
          rw [handover_pos hr.symm, hr]
        · rename_i hr
          rw [handover_neg (Ne.symm hr), List.append_nil]

/-- Thread 1 locks a mutex and creates thread 2, with a higher priority; then it sleeps. -/
def sleepingOwner : List Sys.Label :=
  [.boot 9 0x200 0 (some ⟨256, 0, none, true, -1⟩) (some 0x1000) none,
    .boot 1 0x100 0 (some ⟨512, 5, none, true, -1⟩) (some 0x2000) none, .start,
    .call (.mutexLock 0 waitForever), .cont,
    .call (.threadCreate 2 0x100 0 (some ⟨512, 10, none, true, -1⟩) (some 0x3000) none), .cont,
    .call (.threadSleep 100), .cont]

/-- Thread 1 locks a mutex and creates threads 2 and 3, with a higher priority. At the next tick
thread 2 takes over. -/
def readyOwner : List Sys.Label :=
  [.boot 9 0x200 0 (some ⟨256, 0, none, true, -1⟩) (some 0x1000) none,
    .boot 1 0x100 0 (some ⟨512, 5, none, true, -1⟩) (some 0x2000) none, .start,
    .call (.mutexLock 0 waitForever), .cont,
    .call (.threadCreate 2 0x100 0 (some ⟨512, 10, none, true, -1⟩) (some 0x3000) none), .cont,
    .call (.threadCreate 3 0x100 0 (some ⟨512, 10, none, true, -1⟩) (some 0x4000) none), .cont,
    .tick]

end VibeRtos
