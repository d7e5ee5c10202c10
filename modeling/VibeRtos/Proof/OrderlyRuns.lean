import VibeRtos.Proof.Agreement
import VibeRtos.Proof.ObjectCalls

/-!
# Orderly runs of the whole machine

`Sys.Keeps` is about lifecycle calls. The calls on kernel objects add four ways to lose the
agreement of run queues and thread states: a caller blocks that is in no run queue, a thread
is woken that is in one, a mutex raises an owner that is in one, and a mutex restores another
priority to an owner that is in one. A run that avoids these is orderly: the run queues agree
with the thread states in each of its states, whatever is called.
-/

namespace VibeRtos

open Links Kernel Runs

variable {cfg : Config} {k : Kernel} {self t : Tid}

/-! ## Lifecycle calls -/

theorem threadCreate_steady (cfg : Config) (k : Kernel) (t : Tid) (entry arg : Nat)
    (attr : Option ThreadAttr) (stack heapStack : Option Nat) :
    Steady k (threadCreate cfg k t entry arg attr stack heapStack).2 := by
  unfold threadCreate
  split
  · exact .refl k
  · split
    · exact .refl k
    · split
      · exact .refl k
      · dsimp only
        split <;> exact ⟨rfl, rfl, rfl⟩

theorem threadDelete_steady (k : Kernel) (t : Tid) : Steady k (threadDelete k t) := by
  unfold threadDelete
  dsimp only
  split <;> exact ⟨rfl, rfl, rfl⟩

theorem threadSuspend_steady (k : Kernel) (t : Tid) : Steady k (threadSuspend k t).2 := by
  unfold threadSuspend
  split
  · exact .refl k
  · dsimp only
    split <;> exact ⟨rfl, rfl, rfl⟩

theorem threadResume_steady (k : Kernel) (t : Tid) : Steady k (threadResume k t).2 := by
  unfold threadResume
  split <;> exact ⟨rfl, rfl, rfl⟩

theorem threadRestart_steady (k : Kernel) (t : Tid) : Steady k (threadRestart k t) := by
  unfold threadRestart
  dsimp only
  split
  · exact ⟨rfl, rfl, rfl⟩
  · split <;> exact ⟨rfl, rfl, rfl⟩

theorem threadSetPriority_steady (k : Kernel) (t : Tid) (priority : UInt8) :
    Steady k (threadSetPriority k t priority).2 := by
  unfold threadSetPriority
  split
  · exact .refl k
  · dsimp only
    split <;> exact ⟨rfl, rfl, rfl⟩

/-! ## The time slice -/

/-- The countdown is at most a whole slice. -/
def Sliced (cfg : Config) (k : Kernel) : Prop := k.sliceLeft ≤ msToTicks cfg cfg.timesliceMs

theorem Steady.sliced {k' : Kernel} (h : Steady k k') (hk : Sliced cfg k) : Sliced cfg k' := by
  unfold Sliced
  rw [h.slice]
  exact hk

theorem wakeLoop_steady (now : UInt32) : ∀ (fuel : Nat) (k : Kernel) (o : Option Tid),
    Steady k (wakeLoop now fuel k o)
  | 0, k, _ => .refl k
  | _ + 1, k, none => .refl k
  | fuel + 1, k, some t => by
      rw [wakeLoop]
      split
      · have hone : Steady k ((k.sleepRemove t).schedEnqueue t) := ⟨rfl, rfl, rfl⟩
        exact hone.trans (wakeLoop_steady now fuel _ _)
      · exact .refl k

theorem switchTo_slice (k : Kernel) (t : Tid) : (k.switchTo t).sliceLeft = k.sliceLeft := by
  unfold switchTo
  cases k.current with
  | none => rfl
  | some p =>
      dsimp only
      split <;> rfl

theorem Sliced.reschedule (h : Sliced cfg k) : Sliced cfg k.schedReschedule := by
  unfold schedReschedule
  split
  · exact h
  · split
    · exact h
    · rename_i next _
      split
      · exact h
      · unfold Sliced
        rw [switchTo_slice]
        exact h

theorem Sliced.timeslice (h : Sliced cfg k) : Sliced cfg (k.schedTimesliceTick cfg) := by
  unfold schedTimesliceTick
  split
  · exact h
  · split
    · exact h
    · split
      · exact h
      · split
        · rename_i hmore
          -- counting down from more than 1 does not wrap
          have hle : k.sliceLeft - 1 ≤ k.sliceLeft := by
            have hone : (1 : UInt32) ≤ k.sliceLeft := UInt32.le_of_lt hmore
            exact UInt32.sub_le hone
          exact UInt32.le_trans hle h
        · dsimp only
          split
          · exact UInt32.le_refl _
          · exact UInt32.le_refl _

theorem Sliced.tick (h : Sliced cfg k) : Sliced cfg (sysTickHandler cfg k) := by
  have hwake : Steady k ({ k with tickCount := k.tickCount + 1 }.schedWakeExpired
      (k.tickCount + 1)) := by
    have hcount : Steady k { k with tickCount := k.tickCount + 1 } := ⟨rfl, rfl, rfl⟩
    exact hcount.trans (wakeLoop_steady _ _ _ _)
  exact (hwake.sliced h).timeslice.reschedule

theorem Sliced.start (h : Sliced cfg k) : Sliced cfg k.schedStart := by
  unfold schedStart
  split
  · exact h
  · exact h

/-! ## Orderly steps -/

/-- When a call on a kernel object by `self` keeps the run queues in agreement with the thread
states: a caller that blocks leaves its run queue, and who is woken is in none. -/
def Call.KeepsObject (s : Sys) (self : Tid) : Call → Prop
  | .semTake i timeout =>
      (s.sem i).count = 0 → timeout ≠ noWait → (s.k.thr self).state.Active
  | .semGive i => s.k.HeadIdle (s.sem i).waitList
  | .msgqPut i _ timeout =>
      if (s.msgq i).used < (s.msgq i).maxMsgs then s.k.HeadIdle (s.msgq i).readWait
      else timeout ≠ noWait → (s.k.thr self).state.Active
  | .msgqGet i timeout =>
      if (s.msgq i).used > 0 then s.k.HeadIdle (s.msgq i).writeWait
      else timeout ≠ noWait → (s.k.thr self).state.Active
  | .msgqPurge i => wakesIdle walkBound s.k (s.msgq i).writeWait
  | .eventPost i flags => eventPostIdle s.k (s.event i) s.eventCtx flags
  | .eventWait i flags mode timeout =>
      flags ≠ 0 → ¬ flagsSatisfied (s.event i).flags flags mode → timeout ≠ noWait →
        (s.k.thr self).state.Active
  | .memPoolAlloc i timeout =>
      (s.pool i).freeList = 0 → timeout ≠ noWait → (s.k.thr self).state.Active
  | .memPoolFree i ptr => ¬ (s.pool i).Refuses ptr → s.k.HeadIdle (s.pool i).waitList
  -- a raised owner is looked for in the queue of its new priority
  | .mutexLock m timeout => (s.mutex m).owner ≠ some self → timeout ≠ noWait →
      ∀ owner ∈ (s.mutex m).owner, (s.k.thr self).state.Active
        ∧ ((s.k.thr owner).priority < (s.k.thr self).priority → ¬ (s.k.thr owner).state.Active)
  -- and so is an owner that gets its priority back
  | .mutexUnlock m => (s.mutex m).owner = some self → (s.mutex m).lockCount - 1 = 0 →
      s.k.HeadIdle (s.mutex m).waitList
        ∧ ((s.k.thr self).state.Active → (s.k.thr self).priority = (s.mutex m).ownerOrigPrio)
  | _ => True

/-- The same for a stretch behind a reschedule: a round of a pipe loop. -/
def After.KeepsObject (s : Sys) (self : Tid) : After → Prop
  | .pipeWrite i src written timeout stopAt => written < src.length →
      if (s.pipe i).size - (s.pipe i).used > 0 then s.k.HeadIdle (s.pipe i).readWait
      else timeout ≠ noWait → ¬ s.k.Expired stopAt → (s.k.thr self).state.Active
  | .pipeRead i len _ readCnt timeout stopAt => readCnt < len →
      if (s.pipe i).used > 0 then s.k.HeadIdle (s.pipe i).writeWait
      else ¬ (timeout = noWait ∨ readCnt > 0) → ¬ s.k.Expired stopAt → (s.k.thr self).state.Active
  | _ => True

/-- The same for the steps of the machine. -/
def Sys.KeepsObjects (s : Sys) : Sys.Label → Prop
  | .call c => ∀ self, s.k.current = some self → c.KeepsObject s self
  | .cont => ∀ self a, s.k.current = some self → s.pc self = .at a → a.KeepsObject s self
  | .isrSemGive i => s.k.HeadIdle (s.sem i).waitList
  | .isrEventPost i flags => eventPostIdle s.k (s.event i) s.eventCtx flags
      ∧ Reschedulable (VibeRtos.eventPost s.k (s.event i) s.eventCtx flags).1
  | _ => True

/-- When a step of the whole machine keeps the run queues in agreement with the thread states. -/
structure Sys.Orderly (s : Sys) (l : Sys.Label) : Prop where
  lifecycle : s.Keeps l
  objects : s.KeepsObjects l

/-! ## Deciding whether a step is orderly -/

instance {entry : Nat} {stack heapStack : Option Nat} :
    (attr : Option ThreadAttr) → Decidable (CreateAccepted entry attr stack heapStack)
  | none => isFalse fun ⟨_, ⟨_, h, _⟩, _⟩ => Option.some_ne_none _ h.symm
  | some a => decidable_of_iff (entry ≠ 0 ∧ a.priority ≤ prioMax ∧ stack.or heapStack ≠ none) <|
      and_congr_right' <| and_congr_left' <| by simp

instance (k : Kernel) (t : Tid) : Decidable (Unlinked k t) := inferInstanceAs (Decidable (_ ∧ _))

instance (k : Kernel) : Decidable (Reschedulable k) := inferInstanceAs (Decidable (_ ∨ _))

instance (k : Kernel) (self : Tid) : (c : Call) → Decidable (c.Keeps k self)
  | .threadCreate .. => inferInstanceAs (Decidable (CreateAccepted _ _ _ _ → Unlinked _ _))
  | .threadSleep _ => inferInstanceAs (Decidable (_ ∧ _))
  | .threadYield => inferInstanceAs (Decidable (ThreadState.Active _))
  | .threadRestart _ => inferInstanceAs (Decidable (_ ≠ _))
  | .threadSetPriority .. => inferInstanceAs (Decidable (_ → _ → _))
  | .threadDelete _ | .threadSuspend _ | .threadResume _ | .schedLock | .schedUnlock
  | .mutexLock .. | .mutexUnlock _ | .semTake .. | .semGive _ | .semReset _ | .msgqPut ..
  | .msgqGet .. | .msgqPeek _ | .msgqPurge _ | .eventPost .. | .eventClear .. | .eventWait ..
  | .memPoolAlloc .. | .memPoolFree .. | .pipeWrite .. | .pipeRead .. => isTrue trivial

instance (s : Sys) (self : Tid) : (c : Call) → Decidable (c.KeepsObject s self)
  | .semTake .. | .memPoolAlloc .. => inferInstanceAs (Decidable (_ → _ → _))
  | .eventWait .. => inferInstanceAs (Decidable (_ → _ → _ → _))
  | .msgqPut i _ timeout => inferInstanceAs (Decidable
      (if (s.msgq i).used < (s.msgq i).maxMsgs then s.k.HeadIdle (s.msgq i).readWait
        else timeout ≠ noWait → (s.k.thr self).state.Active))
  | .msgqGet i timeout => inferInstanceAs (Decidable
      (if (s.msgq i).used > 0 then s.k.HeadIdle (s.msgq i).writeWait
        else timeout ≠ noWait → (s.k.thr self).state.Active))
  | .semGive _ => inferInstanceAs (Decidable (s.k.HeadIdle _))
  | .memPoolFree .. => inferInstanceAs (Decidable (_ → _))
  | .msgqPurge _ | .eventPost .. => inferInstanceAs (Decidable (_ = true))
  | .mutexLock m _ =>
      have := Option.decidableForallMem (p := fun owner => (s.k.thr self).state.Active
        ∧ ((s.k.thr owner).priority < (s.k.thr self).priority → ¬ (s.k.thr owner).state.Active))
        (s.mutex m).owner
      inferInstanceAs (Decidable (_ → _ → _))
  | .mutexUnlock _ => inferInstanceAs (Decidable (_ → _ → _ ∧ (_ → _)))
  | .threadCreate .. | .threadDelete _ | .threadSuspend _ | .threadResume _ | .threadSleep _
  | .threadYield | .threadRestart _ | .threadSetPriority .. | .schedLock | .schedUnlock
  | .semReset _ | .msgqPeek _ | .eventClear .. | .pipeWrite .. | .pipeRead .. => isTrue trivial

instance (s : Sys) (self : Tid) : (a : After) → Decidable (a.KeepsObject s self)
  | .pipeWrite i _ _ timeout stopAt =>
      have : Decidable
          (if (s.pipe i).size - (s.pipe i).used > 0 then s.k.HeadIdle (s.pipe i).readWait
            else timeout ≠ noWait → ¬ s.k.Expired stopAt → (s.k.thr self).state.Active) :=
        inferInstance
      inferInstanceAs (Decidable (_ → _))
  | .pipeRead i _ _ readCnt timeout stopAt =>
      have : Decidable (if (s.pipe i).used > 0 then s.k.HeadIdle (s.pipe i).writeWait
          else ¬ (timeout = noWait ∨ readCnt > 0) → ¬ s.k.Expired stopAt →
            (s.k.thr self).state.Active) := inferInstance
      inferInstanceAs (Decidable (_ → _))
  | .ret _ | .resumeCheck _ | .unlockCheck | .mutexLockWake _ | .semTakeWake | .msgqPutRetry ..
  | .msgqGetRetry _ | .eventWaitWake _ | .memPoolAllocRetry _ | .memPoolClear .. => isTrue trivial

/-- What is left to do behind a reschedule yet to be made. -/
def Pc.ahead : Pc → Option After
  | .resched a => some a
  | _ => none

/-- What is left to do now. -/
def Pc.here : Pc → Option After
  | .at a => some a
  | _ => none

theorem Pc.mem_ahead {p : Pc} {a : After} : a ∈ p.ahead ↔ p = .resched a := by
  cases p <;> simp [Pc.ahead]

theorem Pc.mem_here {p : Pc} {a : After} : a ∈ p.here ↔ p = .at a := by
  cases p <;> simp [Pc.here]

instance (s : Sys) : (l : Sys.Label) → Decidable (s.Keeps l)
  | .boot .. => inferInstanceAs (Decidable (CreateAccepted _ _ _ _ → Unlinked _ _))
  | .start => inferInstanceAs (Decidable (_ ∨ _))
  | .call _ => Option.decidableForallMem s.k.current
  | .cont =>
      have := fun self => Option.decidableForallMem (p := fun _ => Reschedulable s.k)
        (s.pc self).ahead
      have := Option.decidableForallMem
        (p := fun self => ∀ a ∈ (s.pc self).ahead, Reschedulable s.k)
        s.k.current
      decidable_of_iff (∀ self ∈ s.k.current, ∀ a ∈ (s.pc self).ahead, Reschedulable s.k)
        ⟨fun h self a hc ha => h self hc a (Pc.mem_ahead.mpr ha),
          fun h self hc a ha => h self a hc (Pc.mem_ahead.mp ha)⟩
  | .tick =>
      -- the list is walked, not the type of threads
      have := List.decidableBAll (fun t => ¬ (s.k.thr t).state.Active)
        (expiring s.k (s.k.tickCount + 1) (listNodes s.k.sleepNode s.k.sleepList))
      inferInstanceAs (Decidable (_ ∧ _))
  | .isrSemGive _ | .isrEventPost .. => isTrue trivial

instance (s : Sys) : (l : Sys.Label) → Decidable (s.KeepsObjects l)
  | .call _ => Option.decidableForallMem s.k.current
  | .cont =>
      have := fun self => Option.decidableForallMem
        (p := fun a : After => a.KeepsObject s self) (s.pc self).here
      have := Option.decidableForallMem (p := fun self =>
        ∀ a ∈ (s.pc self).here, After.KeepsObject s self a) s.k.current
      decidable_of_iff (∀ self ∈ s.k.current, ∀ a ∈ (s.pc self).here, a.KeepsObject s self)
        ⟨fun h self a hc ha => h self hc a (Pc.mem_here.mpr ha),
          fun h self hc a ha => h self a hc (Pc.mem_here.mp ha)⟩
  | .isrSemGive _ => inferInstanceAs (Decidable (s.k.HeadIdle _))
  | .isrEventPost .. => inferInstanceAs (Decidable (_ = true ∧ _))
  | .boot .. | .start | .tick => isTrue trivial

instance (s : Sys) (l : Sys.Label) : Decidable (s.Orderly l) :=
  decidable_of_iff (s.Keeps l ∧ s.KeepsObjects l) ⟨fun h => ⟨h.1, h.2⟩, fun h => ⟨h.1, h.2⟩⟩

/-- The invariant of an orderly run. -/
structure Sys.Ordered (cfg : Config) (s : Sys) : Prop where
  sound : Sound s.k
  sliced : Sliced cfg s.k

theorem Sys.Initial.ordered {s : Sys} (h : s.Initial cfg) : s.Ordered cfg := by
  obtain ⟨thr, idle, hk, -⟩ := h.kernel
  refine ⟨h.sane.1, ?_⟩
  rw [hk]
  exact UInt32.le_refl _

/-- Before the first step, with every thread suspended and thread 9 to idle. -/
theorem initial_bss (cfg : Config) : (Sys.bss cfg (fun _ => threadDefine [] 512 0 0 0 5)
    (some 9)).Initial cfg :=
  ⟨⟨_, _, rfl, fun _ => rfl⟩, fun _ => rfl⟩

variable {s s' : Sys}

/-! ## Calls on objects -/

/-- What a section of a call does to the machine: what it does to the scheduler is followed by
a reschedule. -/
structure Heeded (s s' : Sys) (caller : Tid) : Prop where
  served : Served s.k s'.k
  outcome : (∃ a, s'.pc caller = .resched a) ∨ s'.k = s.k

theorem Attended.heeded {ρ : Type} {f : Flow ρ} {val : ρ → Ret} {wake : After}
    (h : Attended s.k s'.k f) (hpc : s'.pc = Function.update s.pc self (f.toPc val wake)) :
    Heeded s s' self := by
  refine ⟨h.toServed, ?_⟩
  rw [hpc, Function.update_self]
  cases f with
  | done r => exact Or.inr (h.quiet trivial)
  | resched r => exact Or.inl ⟨_, rfl⟩
  | block => exact Or.inl ⟨_, rfl⟩

theorem Sound.idles (h : Sound s.k) (hk : s'.k = s.k) : Heeded s s' self := by
  refine ⟨?_, Or.inr hk⟩
  rw [hk]
  exact h.served

/-- A call that is not about threads. -/
theorem Sys.Ordered.enter (h : s.Ordered cfg) {c : Call} (hc : ¬ c.Lifecycle)
    (hg : c.KeepsObject s self) (hs : s.enter cfg self c = some s') : Heeded s s' self := by
  obtain ⟨hk, -⟩ := h
  cases c with
  | mutexLock m timeout =>
      obtain ⟨r, hr, rfl⟩ := Option.map_eq_some_iff.mp hs
      exact (hk.mutexLock hg hr).heeded rfl
  | mutexUnlock m =>
      obtain rfl := Option.some.inj hs
      exact (hk.mutexUnlock hg).heeded rfl
  | semTake i timeout =>
      obtain rfl := Option.some.inj hs
      exact (hk.semTake hg).heeded rfl
  | semGive i =>
      obtain rfl := Option.some.inj hs
      exact (hk.semGive hg).heeded rfl
  | semReset i =>
      obtain rfl := Option.some.inj hs
      exact hk.idles rfl
  | msgqPut i data timeout =>
      obtain rfl := Option.some.inj hs
      exact (hk.msgqPut data hg).heeded rfl
  | msgqGet i timeout =>
      obtain rfl := Option.some.inj hs
      exact (hk.msgqGet hg).heeded rfl
  | msgqPeek i =>
      obtain rfl := Option.some.inj hs
      exact hk.idles rfl
  | msgqPurge i =>
      obtain rfl := Option.some.inj hs
      exact ⟨hk.msgqPurge hg, Or.inl ⟨_, Function.update_self _ _ _⟩⟩
  | eventPost i flags =>
      obtain rfl := Option.some.inj hs
      exact ⟨hk.eventPost hg, Or.inl ⟨_, Function.update_self _ _ _⟩⟩
  | eventClear i flags =>
      obtain rfl := Option.some.inj hs
      exact hk.idles rfl
  | eventWait i flags mode timeout =>
      obtain rfl := Option.some.inj hs
      exact (hk.eventWait s.eventCtx hg).heeded rfl
  | memPoolAlloc i timeout =>
      obtain rfl := Option.some.inj hs
      have hp := hk.memPoolAlloc s.mem hg
      refine ⟨hp.toServed, ?_⟩
      dsimp only [Sys.setPc]
      rw [Function.update_self]
      generalize (VibeRtos.memPoolAlloc s.k s.mem (s.pool i) self timeout).2.2 = f at *
      cases f with
      | done blk => exact Or.inr (hp.quiet trivial)
      | resched blk => exact Or.inl ⟨_, rfl⟩
      | block => exact Or.inl ⟨_, rfl⟩
  | memPoolFree i ptr =>
      obtain rfl := Option.some.inj hs
      exact (hk.memPoolFree s.mem hg).heeded rfl
  | pipeWrite i src timeout =>
      obtain rfl := Option.some.inj hs
      exact hk.idles rfl
  | pipeRead i len dst timeout =>
      obtain rfl := Option.some.inj hs
      exact hk.idles rfl
  | _ => exact absurd trivial hc

/-- A stretch behind a reschedule. -/
theorem Sys.Ordered.resume (h : s.Ordered cfg) {a : After}
    (hg : a.KeepsObject s self) : Heeded s (s.resume self a) self := by
  obtain ⟨hk, -⟩ := h
  cases a with
  | pipeWrite i src written timeout stopAt =>
      rw [Sys.resume]
      split
      · rename_i hmore
        have hp := hk.pipeWriteRound src written (hg hmore)
        refine ⟨hp.toServed, ?_⟩
        dsimp only [Sys.setPc]
        rw [Function.update_self]
        split
        · rename_i hret
          exact Or.inr (hp.quiet hret)
        · exact Or.inl ⟨_, rfl⟩
      · exact hk.idles rfl
  | pipeRead i len dst readCnt timeout stopAt =>
      rw [Sys.resume]
      dsimp only
      split
      · rename_i hmore
        have hp := hk.pipeReadRound len dst (hg hmore)
        refine ⟨hp.toServed, ?_⟩
        dsimp only [Sys.setPc]
        rw [Function.update_self]
        split
        · rename_i hret
          exact Or.inr (hp.quiet hret)
        · exact Or.inl ⟨_, rfl⟩
      · exact hk.idles rfl
  | _ => exact hk.idles rfl

/-! ## Steps and runs -/

/-- A call about threads leaves the run queues and the time slice in order. -/
theorem Sys.Ordered.enterThread (h : s.Ordered cfg) {c : Call} (hc : c.Lifecycle)
    (hg : c.Keeps s.k self) (hs : s.enter cfg self c = some s') :
    Sound s'.k ∧ Sliced cfg s'.k := by
  obtain ⟨hk, hsl⟩ := h
  cases c with
  | threadCreate t entry arg attr stack heapStack =>
      obtain rfl := Option.some.inj hs
      have hsound : Sound (threadCreate cfg s.k t entry arg attr stack heapStack).2 := hk.create hg
      have hslice := (threadCreate_steady cfg s.k t entry arg attr stack heapStack).sliced hsl
      dsimp only [Sys.setPc]
      split
      · exact ⟨hsound, hslice⟩
      · exact ⟨hsound, hslice⟩
  | threadDelete t =>
      obtain rfl := Option.some.inj hs
      exact ⟨hk.delete _, (threadDelete_steady _ _).sliced hsl⟩
  | threadSuspend t =>
      obtain rfl := Option.some.inj hs
      exact ⟨hk.suspend _, (threadSuspend_steady _ _).sliced hsl⟩
  | threadResume t =>
      cases t with
      | none =>
          obtain rfl := Option.some.inj hs
          exact ⟨hk, hsl⟩
      | some t =>
          obtain rfl := Option.some.inj hs
          exact ⟨hk.resume t, (threadResume_steady _ _).sliced hsl⟩
  | threadSleep ms =>
      obtain rfl := Option.some.inj hs
      exact ⟨hk.sleep hg.1 hg.2 ms, hsl⟩
  | threadYield =>
      obtain rfl := Option.some.inj hs
      exact ⟨hk.yield hg, hsl⟩
  | threadRestart t =>
      obtain rfl := Option.some.inj hs
      exact ⟨hk.restart hg, (threadRestart_steady _ _).sliced hsl⟩
  | threadSetPriority t priority =>
      obtain rfl := Option.some.inj hs
      exact ⟨hk.setPriority hg, (threadSetPriority_steady _ _ _).sliced hsl⟩
  | schedLock =>
      obtain rfl := Option.some.inj hs
      exact ⟨hk.lock, hsl⟩
  | schedUnlock =>
      obtain rfl := Option.some.inj hs
      refine ⟨hk.unlock, ?_⟩
      show Sliced cfg s.k.schedUnlock
      unfold schedUnlock
      split
      · exact hsl
      · exact hsl
  | _ => exact absurd hc id

/-- A thread that was woken is ready. -/
theorem semGive_reschedulable {k : Kernel} {sem : Sem} {e : Err}
    (h : (VibeRtos.semGive k sem).2.2 = .resched e) :
    Reschedulable (VibeRtos.semGive k sem).1 := by
  unfold VibeRtos.semGive at h ⊢
  split at h
  · exact Or.inr (Or.inl (schedEnqueue_readyMask _ _))
  · split at h
    · exact absurd h (by simp)
    · exact absurd h (by simp)

theorem Sys.Ordered.step (h : s.Ordered cfg) {l : Sys.Label} (hg : s.Orderly l)
    (hs : s.step cfg l = some s') : s'.Ordered cfg := by
  obtain ⟨hkeep, hobj⟩ := hg
  suffices hsched : Sound s'.k ∧ Sliced cfg s'.k from ⟨hsched.1, hsched.2⟩
  have hheeded : ∀ {s' : Sys} {self}, Heeded s s' self → Sound s'.k ∧ Sliced cfg s'.k :=
    fun {_ _} hh => ⟨hh.served.sound, hh.served.steady.sliced h.sliced⟩
  cases l with
  | boot t entry arg attr stack heapStack =>
      rw [Sys.step] at hs
      split at hs
      · exact absurd hs (by simp)
      · obtain rfl := Option.some.inj hs
        have hsound : Sound (threadCreate cfg s.k t entry arg attr stack heapStack).2 :=
          h.sound.create hkeep
        have hslice :=
          (threadCreate_steady cfg s.k t entry arg attr stack heapStack).sliced h.sliced
        split
        · exact ⟨hsound, hslice⟩
        · exact ⟨hsound, hslice⟩
  | start =>
      rw [Sys.step] at hs
      split at hs
      · exact absurd hs (by simp)
      · obtain rfl := Option.some.inj hs
        exact ⟨h.sound.start hkeep, h.sliced.start⟩
  | call c =>
      rw [Sys.step] at hs
      split at hs
      · exact absurd hs (by simp)
      · rename_i self hself
        split at hs
        · by_cases hc : c.Lifecycle
          · exact h.enterThread hc (hkeep self hself) hs
          · exact hheeded (h.enter hc (hobj self hself) hs)
        · exact absurd hs (by simp)
  | cont =>
      rw [Sys.step] at hs
      split at hs
      · exact absurd hs (by simp)
      · rename_i self hself
        split at hs
        · exact absurd hs (by simp)
        · rename_i a ha
          obtain rfl := Option.some.inj hs
          exact ⟨h.sound.reschedule (hkeep self a hself ha), h.sliced.reschedule⟩
        · rename_i a ha
          obtain rfl := Option.some.inj hs
          exact hheeded (h.resume (hobj self a hself ha))
  | tick =>
      obtain rfl := Option.some.inj hs
      exact ⟨h.sound.tick hkeep.1 hkeep.2, h.sliced.tick⟩
  | isrSemGive i =>
      obtain rfl := Option.some.inj hs
      have hgive := h.sound.semGive hobj
      dsimp only
      split
      · rename_i e he
        exact ⟨hgive.sound.reschedule (semGive_reschedulable he),
          (hgive.steady.sliced h.sliced).reschedule⟩
      · exact ⟨hgive.sound, hgive.steady.sliced h.sliced⟩
  | isrEventPost i flags =>
      obtain rfl := Option.some.inj hs
      have hpost := h.sound.eventPost hobj.1
      exact ⟨hpost.sound.reschedule hobj.2, (hpost.steady.sliced h.sliced).reschedule⟩

/-- **In an orderly run, run queues and thread states agree in every state**, whatever calls are
made. -/
theorem ordered_along_run {labels : List Sys.Label} (h : s.Initial cfg)
    (hg : Along (Sys.step cfg) Sys.Orderly s labels)
    (hr : run (Sys.step cfg) s labels = some s') : s'.Ordered cfg :=
  run_guarded (fun _ _ _ hi hl hs => hi.step hl hs) h.ordered hg hr

end VibeRtos
