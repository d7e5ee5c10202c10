import VibeRtos.Proof.RunQueues

/-!
# Where the threads are linked

`Placed k qs ys`: the run queues hold exactly the READY and RUNNING threads, each in
the queue of its priority, and the sleep list holds at least the SLEEPING ones.
`Away` is the same with one thread left aside, which is in no run queue: it is what
holds between taking a thread out of its queue and putting it back.
-/

namespace VibeRtos

open Links Kernel

/-- The run queues agree with the thread states, and no sleeper is lost. -/
structure Placed (k : Kernel) (qs : Prio → List Tid) (ys : List Tid) : Prop where
  queues : QueuesRep k qs
  agree : ∀ u p, u ∈ qs p ↔ (k.thr u).state.Active ∧ (k.thr u).priority = p
  sleepers : ListRep k.sleepNode k.sleepList ys
  asleep : ∀ u, (k.thr u).state = .sleeping → u ∈ ys

/-- The same for everyone but `t`, which is in no run queue. -/
structure Away (k : Kernel) (qs : Prio → List Tid) (ys : List Tid) (t : Tid) : Prop where
  queues : QueuesRep k qs
  out : ∀ p, t ∉ qs p
  agree : ∀ u, u ≠ t → ∀ p, u ∈ qs p ↔ (k.thr u).state.Active ∧ (k.thr u).priority = p
  sleepers : ListRep k.sleepNode k.sleepList ys
  asleep : ∀ u, u ≠ t → (k.thr u).state = .sleeping → u ∈ ys

variable {k k' : Kernel} {qs : Prio → List Tid} {ys : List Tid} {t : Tid}

theorem not_active_sleeping : ¬ ThreadState.sleeping.Active := by decide
theorem not_active_suspended : ¬ ThreadState.suspended.Active := by decide
theorem not_active_dead : ¬ ThreadState.dead.Active := by decide

/-! ## Leaving a run queue -/

theorem Placed.away (h : Placed k qs ys) (ht : ¬ (k.thr t).state.Active) : Away k qs ys t where
  queues := h.queues
  out p hp := ht ((h.agree t p).mp hp).1
  agree u _ := h.agree u
  sleepers := h.sleepers
  asleep u _ := h.asleep u

theorem Placed.dequeue (h : Placed k qs ys) (ht : (k.thr t).state.Active) :
    ∃ qs', Away (k.schedDequeue t) qs' ys t := by
  have hmem : t ∈ qs (k.thr t).priority := (h.agree t _).mpr ⟨ht, rfl⟩
  refine ⟨_, ⟨h.queues.dequeue hmem, ?_, ?_, h.sleepers, fun u _ => h.asleep u⟩⟩
  · intro p hp
    rw [Function.update_apply] at hp
    split at hp
    · exact ((h.queues.rep _).nodup.not_mem_erase) hp
    · rename_i hne
      exact hne (h.queues.disjoint hp hmem)
  · intro u hu p
    rw [Function.update_apply, schedDequeue_thr, ← h.agree u p]
    split
    · rename_i hp
      rw [List.mem_erase_of_ne hu, hp]
    · rfl

/-- Dequeueing a thread if it is active, as `delete` and `suspend` do. -/
theorem Placed.dequeue_if (h : Placed k qs ys) (t : Tid) :
    ∃ qs', Away (if (k.thr t).state.Active then k.schedDequeue t else k) qs' ys t := by
  split
  · rename_i ht
    exact h.dequeue ht
  · rename_i ht
    exact ⟨qs, h.away ht⟩

/-! ## Outside -/

/-- Whatever happens to `t`'s own control block leaves the others placed. -/
theorem Away.congr (h : Away k qs ys t) (hthr : ∀ u, u ≠ t → k'.thr u = k.thr u)
    (hn : k'.schedNode = k.schedNode) (hq : k'.runQueues = k.runQueues)
    (hm : k'.readyMask = k.readyMask) (hs : k'.sleepNode = k.sleepNode)
    (hl : k'.sleepList = k.sleepList) : Away k' qs ys t where
  queues := h.queues.congr hn hq hm
  out := h.out
  agree u hu p := by rw [hthr u hu]; exact h.agree u hu p
  sleepers := by rw [hs, hl]; exact h.sleepers
  asleep u hu := by rw [hthr u hu]; exact h.asleep u hu

theorem Away.modThread (h : Away k qs ys t) (f : Thread → Thread) :
    Away (k.modThread t f) qs ys t :=
  h.congr (fun _ hu => modThread_of_ne k t f hu) rfl rfl rfl rfl rfl

/-- A thread that is in no queue may stay out of them in any state that is not active. -/
theorem Away.placed (h : Away k qs ys t) (ht : ¬ (k.thr t).state.Active)
    (hs : (k.thr t).state = .sleeping → t ∈ ys) : Placed k qs ys where
  queues := h.queues
  agree u p := by
    by_cases hu : u = t
    · subst hu
      exact ⟨fun hp => absurd hp (h.out p), fun hp => absurd hp.1 ht⟩
    · exact h.agree u hu p
  sleepers := h.sleepers
  asleep u hu := by
    by_cases hut : u = t
    · subst hut; exact hs hu
    · exact h.asleep u hut hu

theorem Away.enqueue (h : Away k qs ys t) : ∃ qs', Placed (k.schedEnqueue t) qs' ys := by
  refine ⟨_, ⟨h.queues.enqueue h.out, ?_, h.sleepers, ?_⟩⟩
  · intro u p
    rw [Function.update_apply, schedEnqueue_thr, Function.update_apply]
    by_cases hu : u = t
    · subst hu
      rw [if_pos rfl]
      split
      · rename_i hp
        simp [hp, ThreadState.Active]
      · rename_i hp
        exact ⟨fun hm => absurd hm (h.out p), fun hm => absurd hm.2.symm hp⟩
    · rw [if_neg hu, ← h.agree u hu p]
      split
      · rename_i hp
        simp [hp, hu]
      · rfl
  · intro u hu
    rw [schedEnqueue_thr, Function.update_apply] at hu
    split at hu
    · exact absurd hu (by simp)
    · rename_i hut
      exact h.asleep u hut hu

/-! ## The sleep list -/

/-- `schedSleep` links the thread before the first one that is to sleep longer. -/
theorem sleep_rep (hy : ListRep k.sleepNode k.sleepList ys) (ht : t ∉ ys) (expiry : UInt32) :
    ∃ pre post, ys = pre ++ post ∧ ListRep (k.schedSleep t expiry).sleepNode
      (k.schedSleep t expiry).sleepList (pre ++ t :: post)
      ∧ (∀ u ∈ pre, (k.thr u).timeout ≤ expiry)
      ∧ ∀ u, post.head? = some u → expiry < (k.thr u).timeout := by
  have hnodes : listNodes k.sleepNode k.sleepList = ys := hy.nodes (length_le_walkBound hy.nodup)
  have hthr : ∀ u ∈ ys, (k.modThread t fun th =>
      { th with timeout := expiry, state := .sleeping }).thr u = k.thr u := fun u hu =>
    modThread_of_ne k t _ fun he => ht (he ▸ hu)
  unfold schedSleep
  simp only [modThread_sleepNode, modThread_sleepList, hnodes]
  split
  · rename_i u hfind
    obtain ⟨hlater, pre, post, hys, hpre⟩ := List.find?_eq_some_iff_append.mp hfind
    have hin : u ∈ ys := by
      rw [hys]
      simp
    rw [hthr u hin] at hlater
    have hpre' : ∀ v ∈ pre, (k.thr v).timeout ≤ expiry := by
      intro v hv
      have hno := hpre v hv
      rw [hthr v (hys ▸ List.mem_append_left _ hv)] at hno
      simpa using hno
    subst hys
    have hat : k.sleepNode u = ⟨pre.getLast?, post.head?⟩ := by simpa using hy.chain.at
    refine ⟨pre, u :: post, rfl, ?_, hpre', fun v hv => ?_⟩
    · rw [hat]
      cases hlast : pre.getLast? with
      | none =>
          rw [List.getLast?_eq_none_iff] at hlast
          subst hlast
          exact hy.prepend ht
      | some p =>
          obtain ⟨init, hinit⟩ := List.getLast?_eq_some_iff.mp hlast
          subst hinit
          have hy' : ListRep k.sleepNode k.sleepList (init ++ p :: u :: post) := by simpa using hy
          have hins := hy'.insertAfter (n := t) (by simpa using ht)
          simpa using hins
    · obtain rfl : u = v := Option.some.inj hv
      exact of_decide_eq_true hlater
  · rename_i hfind
    refine ⟨ys, [], by simp, hy.append ht, fun u hu => ?_, by simp⟩
    have hno := List.find?_eq_none.mp hfind u hu
    rw [hthr u hu] at hno
    simpa using hno

/-- Who sleeps less is served first. -/
def urgency (k : Kernel) (t : Tid) : ℕᵒᵈ := OrderDual.toDual (k.thr t).timeout.toNat

theorem urgency_le {u : Tid} : urgency k t ≤ urgency k u ↔ (k.thr u).timeout ≤ (k.thr t).timeout :=
  UInt32.le_iff_toNat_le.symm

theorem urgency_lt {u : Tid} : urgency k t < urgency k u ↔ (k.thr u).timeout < (k.thr t).timeout :=
  UInt32.lt_iff_toNat_lt.symm

/-- In a list by expiry everyone behind the thread sleeps longer. -/
theorem longer_behind {pre post : List Tid} {expiry : UInt32}
    (h : (pre ++ post).Pairwise fun u v => (k.thr u).timeout ≤ (k.thr v).timeout)
    (hpost : ∀ u, post.head? = some u → expiry < (k.thr u).timeout) :
    ∀ u ∈ post, expiry < (k.thr u).timeout := by
  intro u hu
  cases post with
  | nil => exact absurd hu List.not_mem_nil
  | cons v rest =>
      have hv := hpost v rfl
      have hsorted := (List.pairwise_cons.mp (List.pairwise_append.mp h).2.1).1
      rcases List.mem_cons.mp hu with rfl | hu
      · exact hv
      · exact UInt32.lt_of_lt_of_le hv (hsorted u hu)

/-- And the list stays by expiry. -/
theorem insert_by_expiry {pre post : List Tid} {expiry : UInt32}
    (h : (pre ++ post).Pairwise fun u v => (k.thr u).timeout ≤ (k.thr v).timeout)
    (hpre : ∀ u ∈ pre, (k.thr u).timeout ≤ expiry)
    (hbehind : ∀ u ∈ post, expiry < (k.thr u).timeout)
    (hself : (k'.thr t).timeout = expiry) (hother : ∀ u ∈ pre ++ post, k'.thr u = k.thr u) :
    (pre ++ t :: post).Pairwise fun u v => (k'.thr u).timeout ≤ (k'.thr v).timeout := by
  have hold : PrioFifo.Sorted (urgency k') (pre ++ post) := h.imp_of_mem fun {u v} hu hv hle => by
    rw [urgency_le, hother u hu, hother v hv]
    exact hle
  refine (hold.insert (a := t) (fun u hu => ?_) fun u hu => ?_).imp urgency_le.mp
  · rw [urgency_le, hself, hother u (List.mem_append_left _ hu)]
    exact hpre u hu
  · rw [urgency_lt, hself, hother u (List.mem_append_right _ hu)]
    exact hbehind u hu

/-- A thread in no run queue goes to sleep. -/
theorem Away.sleep (h : Away k qs ys t) (ht : t ∉ ys) (expiry : UInt32) :
    ∃ ys', Placed (k.schedSleep t expiry) qs ys' := by
  obtain ⟨pre, post, hys, hrep, -⟩ := sleep_rep h.sleepers ht expiry
  have hself : ((k.schedSleep t expiry).thr t).state = .sleeping := by
    simp [schedSleep]
  have hother : ∀ u, u ≠ t → (k.schedSleep t expiry).thr u = k.thr u := by
    intro u hu
    simp [schedSleep, hu]
  have haway : Away (k.schedSleep t expiry) qs (pre ++ t :: post) t := by
    refine ⟨h.queues.congr rfl rfl rfl, h.out, ?_, hrep, ?_⟩
    · intro u hu p
      rw [hother u hu]
      exact h.agree u hu p
    · intro u hu hs
      rw [hother u hu] at hs
      have hmem := h.asleep u hu hs
      rw [hys] at hmem
      rcases List.mem_append.mp hmem with hm | hm
      · exact List.mem_append_left _ hm
      · exact List.mem_append_right _ (List.mem_cons_of_mem _ hm)
  refine ⟨_, haway.placed ?_ (fun _ => by simp)⟩
  rw [hself]
  exact not_active_sleeping

/-- Taking `t` off the sleep list. -/
theorem Away.sleepRemove (h : Away k qs ys t) (ht : t ∈ ys) :
    Away (k.sleepRemove t) qs (ys.erase t) t where
  queues := h.queues.congr rfl rfl rfl
  out := h.out
  agree := h.agree
  sleepers := h.sleepers.remove_erase ht
  asleep u hu hs := (List.mem_erase_of_ne hu).mpr (h.asleep u hu hs)

/-! ## Waking -/

/-- The sleepers a tick wakes: the list up to the first one whose time has not come. -/
def expiring (k : Kernel) (now : UInt32) (ys : List Tid) : List Tid :=
  ys.takeWhile fun t => (k.thr t).timeout ≤ now

theorem expiring_congr {now : UInt32} :
    ∀ {ys : List Tid}, (∀ u ∈ ys, (k'.thr u).timeout = (k.thr u).timeout) →
      expiring k' now ys = expiring k now ys
  | [], _ => rfl
  | y :: ys, h => by
      have ih : expiring k' now ys = expiring k now ys :=
        expiring_congr fun u hu => h u (List.mem_cons_of_mem _ hu)
      simp only [expiring] at ih
      simp only [expiring, List.takeWhile_cons, h y List.mem_cons_self, ih]

/-- The sleepers a tick leaves asleep. -/
def dozing (k : Kernel) (now : UInt32) (ys : List Tid) : List Tid :=
  ys.dropWhile fun t => (k.thr t).timeout ≤ now

theorem dozing_congr {now : UInt32} :
    ∀ {ys : List Tid}, (∀ u ∈ ys, (k'.thr u).timeout = (k.thr u).timeout) →
      dozing k' now ys = dozing k now ys
  | [], _ => rfl
  | y :: ys, h => by
      have ih : dozing k' now ys = dozing k now ys :=
        dozing_congr fun u hu => h u (List.mem_cons_of_mem _ hu)
      simp only [dozing] at ih
      simp only [dozing, List.dropWhile_cons, h y List.mem_cons_self, ih]

theorem expiring_append_dozing (k : Kernel) (now : UInt32) (ys : List Tid) :
    expiring k now ys ++ dozing k now ys = ys := List.takeWhile_append_dropWhile

/-- The wake loop moves every expired sleeper to its run queue. -/
theorem Placed.wakeLoop {now : UInt32} : ∀ {ys : List Tid} {fuel : Nat} {k : Kernel}
    {qs : Prio → List Tid}, Placed k qs ys → ys.length < fuel →
    (∀ t ∈ expiring k now ys, ¬ (k.thr t).state.Active) →
    ∃ qs', Placed (Kernel.wakeLoop now fuel k ys.head?) qs' (dozing k now ys)
      ∧ ∀ u, (Kernel.wakeLoop now fuel k ys.head?).thr u
        = if u ∈ expiring k now ys then { k.thr u with state := .ready } else k.thr u := by
  intro ys
  induction ys with
  | nil =>
      intro fuel k qs h _ _
      refine ⟨qs, ?_⟩
      cases fuel <;> exact ⟨h, fun _ => rfl⟩
  | cons t rest ih =>
      intro fuel k qs h hfuel hexp
      cases fuel with
      | zero => simp at hfuel
      | succ fuel =>
        rw [List.head?_cons, Kernel.wakeLoop]
        have hnext : (k.sleepNode t).next = rest.head? := by
          rw [h.sleepers.chain.1]
          simp
        by_cases hdue : (k.thr t).timeout ≤ now
        · rw [if_pos hdue, hnext]
          have hexpiring : expiring k now (t :: rest) = t :: expiring k now rest := by
            simp [expiring, hdue]
          have hdozing : dozing k now (t :: rest) = dozing k now rest := by
            simp [dozing, hdue]
          rw [hexpiring] at hexp ⊢
          rw [hdozing]
          have haway := (h.away (hexp t List.mem_cons_self)).sleepRemove List.mem_cons_self
          rw [List.erase_cons_head] at haway
          obtain ⟨qs', hplaced⟩ := haway.enqueue
          have hnd : t ∉ rest := (List.nodup_cons.mp h.sleepers.nodup).1
          -- the rest of the list reads the same timeouts and states
          have hother : ∀ u, u ≠ t → ((k.sleepRemove t).schedEnqueue t).thr u = k.thr u := by
            intro u hut
            simp [hut]
          have hsame : ∀ u ∈ rest, ((k.sleepRemove t).schedEnqueue t).thr u = k.thr u :=
            fun u hu => hother u fun he => hnd (he ▸ hu)
          have htimeout : ∀ u ∈ rest, (((k.sleepRemove t).schedEnqueue t).thr u).timeout
              = (k.thr u).timeout := fun u hu => congrArg Thread.timeout (hsame u hu)
          have hsub : ∀ u ∈ expiring k now rest, u ∈ rest :=
            fun u hu => (List.takeWhile_sublist _).subset hu
          obtain ⟨qs'', hrest, hthr⟩ := ih hplaced (by simpa using hfuel) fun u hu => by
            rw [expiring_congr htimeout] at hu
            rw [hsame u (hsub u hu)]
            exact hexp u (List.mem_cons_of_mem _ hu)
          rw [dozing_congr htimeout] at hrest
          refine ⟨qs'', hrest, fun u => ?_⟩
          rw [hthr u, expiring_congr htimeout]
          by_cases hut : u = t
          · subst hut
            rw [if_neg fun hu => hnd (hsub u hu), if_pos List.mem_cons_self]
            simp
          · rw [hother u hut]
            simp [hut]
        · rw [if_neg hdue]
          have hnone : expiring k now (t :: rest) = [] := by simp [expiring, hdue]
          have hall : dozing k now (t :: rest) = t :: rest := by simp [dozing, hdue]
          rw [hnone, hall]
          exact ⟨qs, h, fun u => by simp⟩

/-! ## Staying put -/

/-- Threads may change in whatever does not make them active, inactive or asleep, nor moves them
to another priority. -/
theorem Placed.congr (h : Placed k qs ys)
    (hact : ∀ u, (k'.thr u).state.Active ↔ (k.thr u).state.Active)
    (hprio : ∀ u, (k'.thr u).priority = (k.thr u).priority)
    (hsleep : ∀ u, (k'.thr u).state = .sleeping → (k.thr u).state = .sleeping)
    (hn : k'.schedNode = k.schedNode) (hq : k'.runQueues = k.runQueues)
    (hm : k'.readyMask = k.readyMask) (hs : k'.sleepNode = k.sleepNode)
    (hl : k'.sleepList = k.sleepList) : Placed k' qs ys where
  queues := h.queues.congr hn hq hm
  agree u p := by rw [hact u, hprio u]; exact h.agree u p
  sleepers := by rw [hs, hl]; exact h.sleepers
  asleep u hu := h.asleep u (hsleep u hu)

/-- The CPU goes to a thread that is in a run queue. -/
theorem Placed.switchTo (h : Placed k qs ys) (ht : (k.thr t).state.Active) :
    Placed (k.switchTo t) qs ys := by
  obtain ⟨hn, hq, hm, hs, hl, -⟩ := switchTo_frame k t
  refine h.congr ?_ ?_ ?_ hn hq hm hs hl
  · intro u
    obtain ⟨st, hst, hcase⟩ := switchTo_thr k t u
    rw [hst]
    rcases hcase with ⟨hold, hnew⟩ | ⟨-, hold, hnew⟩
    · refine ⟨fun _ => ?_, fun _ => hnew⟩
      rcases hold with hut | hold
      · rw [hut]; exact ht
      · exact hold
    · dsimp only
      rw [hnew]
  · intro u
    obtain ⟨st, hst, -⟩ := switchTo_thr k t u
    rw [hst]
  · intro u hu
    obtain ⟨st, hst, hcase⟩ := switchTo_thr k t u
    rw [hst] at hu
    rcases hcase with ⟨-, hnew⟩ | ⟨-, -, hnew⟩
    · dsimp only at hu
      rw [hu] at hnew
      exact absurd hnew not_active_sleeping
    · rw [← hnew]; exact hu

/-- `schedReschedule` does not hand the CPU to an idle thread that is in no run queue. -/
def Reschedulable (k : Kernel) : Prop :=
  k.schedLockCount > 0 ∨ k.readyMask ≠ 0#32 ∨ k.idle = none ∨ k.current = k.idle

theorem QueuesRep.exists_ready (h : QueuesRep k qs) (hm : k.readyMask ≠ 0#32) :
    ∃ p, qs p ≠ [] := by
  by_contra hnone
  refine hm (BitVec.eq_of_getLsbD_eq fun i hi => ?_)
  have hoff : ¬ k.readyMask.getLsbD i = true := by
    intro hset
    exact hnone ⟨⟨i, hi⟩, (h.mask ⟨i, hi⟩).mp hset⟩
  simpa using hoff

theorem Placed.reschedule (h : Placed k qs ys) (hg : Reschedulable k) :
    Placed k.schedReschedule qs ys := by
  unfold schedReschedule
  split
  · exact h
  · rename_i hlock
    rcases h.queues.next with ⟨hempty, hnext⟩ | ⟨p, t, rest, hp, -, hnext⟩
    · rw [hnext]
      cases hidle : k.idle with
      | none => exact h
      | some i =>
        rcases hg with hg | hg | hg | hg
        · exact absurd hg hlock
        · obtain ⟨p, hp⟩ := h.queues.exists_ready hg
          exact absurd (hempty p) hp
        · rw [hidle] at hg
          exact absurd hg (by simp)
        · rw [hidle] at hg
          simp only [hg, if_true]
          exact h
    · rw [hnext]
      dsimp only
      split
      · exact h
      · have hmem : t ∈ qs p := by rw [hp]; exact List.mem_cons_self
        exact h.switchTo ((h.agree t p).mp hmem).1

end VibeRtos
