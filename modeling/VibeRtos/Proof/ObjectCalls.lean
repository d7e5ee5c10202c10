import VibeRtos.Proof.Lifecycle
import VibeRtos.Kernel.System

/-!
# Kernel objects and the run queues

A section of a call on a semaphore, message queue, event group, memory pool or pipe
blocks its caller, wakes threads that wait, or does nothing to the scheduler. A section
that is not followed by a reschedule is of the third kind. The first two keep the run
queues in agreement with the thread states as long as a caller that blocks is in its run
queue and a thread that is woken is in none. Mutexes also change priorities, which is
another way to lose the agreement.
-/

namespace VibeRtos

open Links Kernel

/-- Who runs, the lock count and the time slice are left alone. -/
structure Steady (k k' : Kernel) : Prop where
  current : k'.current = k.current
  lock : k'.schedLockCount = k.schedLockCount
  slice : k'.sliceLeft = k.sliceLeft

/-- What a section of a call on a kernel object does to the scheduler. -/
structure Served (k k' : Kernel) : Prop where
  sound : Sound k'
  steady : Steady k k'

variable {cfg : Config} {k k' k'' : Kernel} {l : VList Tid} {self t : Tid}

theorem Steady.refl (k : Kernel) : Steady k k := ⟨rfl, rfl, rfl⟩

theorem Steady.trans (h : Steady k k') (h' : Steady k' k'') : Steady k k'' :=
  ⟨h'.current.trans h.current, h'.lock.trans h.lock, h'.slice.trans h.slice⟩

theorem Sound.served (h : Sound k) : Served k k := ⟨h, .refl k⟩

theorem Served.trans (h : Served k k') (h' : Served k' k'') : Served k k'' :=
  ⟨h'.sound, h.steady.trans h'.steady⟩

/-! ## Blocking and waking -/

/-- Wait nodes are none of the scheduler's business. -/
theorem Sound.waitNode (h : Sound k) (node : Tid → Link Tid) :
    Served k { k with waitNode := node } := by
  obtain ⟨qs, ys, hp⟩ := h
  have hp' : Placed { k with waitNode := node } qs ys :=
    hp.congr (fun _ => Iff.rfl) (fun _ => rfl) (fun _ hs => hs) rfl rfl rfl rfl rfl
  exact ⟨⟨qs, ys, hp'⟩, rfl, rfl, rfl⟩

theorem not_active_waiting : ¬ ThreadState.waiting.Active := by decide

/-- A READY or RUNNING caller leaves its run queue and waits. -/
theorem Sound.block (h : Sound k) (hact : (k.thr self).state.Active) (stop : UInt32) :
    Served k (k.block self stop) := by
  obtain ⟨qs, ys, hp⟩ := h
  obtain ⟨qs', haway⟩ := hp.dequeue hact
  have hself : ((k.block self stop).thr self).state = .waiting := by
    rw [Kernel.block, modThread_self]
  refine ⟨⟨qs', ys, (haway.modThread _).placed ?_ ?_⟩, rfl, rfl, rfl⟩
  · exact fun ha => not_active_waiting (hself ▸ ha)
  · exact fun hs => absurd (hself.symm.trans hs) (by simp)

/-- The same, linked at the end of a wait list. -/
theorem Sound.park (h : Sound k) (hact : (k.thr self).state.Active) (stop : UInt32)
    (l : VList Tid) : Served k ((k.block self stop).waitAppend l self).1 :=
  (h.block hact stop).trans ((h.block hact stop).sound.waitNode _)

/-- The first thread of a wait list, if any, is in no run queue. -/
def Kernel.HeadIdle (k : Kernel) (l : VList Tid) : Prop :=
  ∀ t ∈ l.head, ¬ (k.thr t).state.Active

instance (k : Kernel) (l : VList Tid) : Decidable (k.HeadIdle l) :=
  Option.decidableForallMem l.head

/-- Whether no thread that `wakeAll` wakes is in a run queue already. -/
def wakesIdle : Nat → Kernel → VList Tid → Bool
  | 0, _, _ => true
  | fuel + 1, k, l =>
      match k.waitGetHead l with
      | (some t, k, l) =>
          decide (¬ (k.thr t).state.Active) && wakesIdle fuel (k.schedEnqueue t) l
      | (none, _, _) => true

/-- Whether no thread that `eventPostLoop` wakes is in a run queue already. -/
def postsIdle (flags : UInt32) : Nat → Kernel → VList Tid → EventCtxMem → Option Tid → Bool
  | 0, _, _, _, _ => true
  | _ + 1, _, _, _, none => true
  | fuel + 1, k, l, ctxs, some t =>
      let tmp := (k.waitNode t).next
      match (k.thr t).tls with
      | none => postsIdle flags fuel k l ctxs tmp
      | some ctx =>
          if flagsSatisfied flags (ctxs ctx).waitFlags (ctxs ctx).waitMode then
            let ctxs := Function.update ctxs ctx { ctxs ctx with satisfied := true }
            let r := k.waitRemove l t
            decide (¬ (k.thr t).state.Active)
              && postsIdle flags fuel (r.1.schedEnqueue t) r.2 ctxs tmp
          else postsIdle flags fuel k l ctxs tmp

/-- A thread in no run queue is taken off its wait list and enqueued. -/
theorem Sound.wake (h : Sound k) (ht : ¬ (k.thr t).state.Active) (l : VList Tid) :
    Served k ((k.waitRemove l t).1.schedEnqueue t) := by
  obtain ⟨⟨qs, ys, hp⟩, hsteady⟩ := h.waitNode (listRemove k.waitNode l t).1
  have hna : ¬ ((k.waitRemove l t).1.thr t).state.Active := ht
  obtain ⟨qs', hp'⟩ := (hp.away hna).enqueue
  exact ⟨⟨qs', ys, hp'⟩, hsteady.trans ⟨rfl, rfl, rfl⟩⟩

theorem Sound.wakeHead (h : Sound k) (hl : k.HeadIdle l) : Served k (k.wakeHead l).1 := by
  unfold Kernel.wakeHead Kernel.waitGetHead
  cases hhead : l.head with
  | none => exact h.served
  | some t => exact h.wake (hl t hhead) l

theorem Sound.wakeAll : ∀ {fuel : Nat} {k : Kernel} {l : VList Tid}, Sound k →
    wakesIdle fuel k l → Served k (Kernel.wakeAll fuel k l).1
  | 0, _, _, h, _ => h.served
  | fuel + 1, k, l, h, hl => by
      rw [wakesIdle] at hl
      rw [Kernel.wakeAll]
      unfold Kernel.waitGetHead at hl ⊢
      cases hhead : l.head with
      | none => exact h.served
      | some t =>
          rw [hhead] at hl
          obtain ⟨hidle, hrest⟩ := (Bool.and_eq_true _ _).mp hl
          have hone := h.wake (of_decide_eq_true hidle) l
          exact hone.trans (Sound.wakeAll hone.sound hrest)

/-- The loop of `vibe_event_post`. -/
theorem Sound.eventPostLoop (flags : UInt32) : ∀ {fuel : Nat} {k : Kernel} {l : VList Tid}
    {ctxs : EventCtxMem} {o : Option Tid}, Sound k → postsIdle flags fuel k l ctxs o →
    Served k (VibeRtos.eventPostLoop flags fuel k l ctxs o).1
  | 0, _, _, _, _, h, _ => h.served
  | _ + 1, _, _, _, none, h, _ => h.served
  | fuel + 1, k, l, ctxs, some t, h, hidle => by
      rw [postsIdle] at hidle
      rw [VibeRtos.eventPostLoop]
      dsimp only at hidle ⊢
      split
      · rename_i htls
        rw [htls] at hidle
        exact Sound.eventPostLoop flags h hidle
      · rename_i ctx htls
        rw [htls] at hidle
        dsimp only at hidle
        split
        · rename_i hsat
          rw [if_pos hsat] at hidle
          obtain ⟨hna, hrest⟩ := (Bool.and_eq_true _ _).mp hidle
          have hone := h.wake (of_decide_eq_true hna) l
          exact hone.trans (Sound.eventPostLoop flags hone.sound hrest)
        · rename_i hsat
          rw [if_neg hsat] at hidle
          exact Sound.eventPostLoop flags h hidle

/-! ## The calls -/

/-- The section is not followed by a reschedule. -/
def Flow.IsDone {ρ : Type} : Flow ρ → Prop
  | .done _ => True
  | _ => False

/-- What the first section of a call does: nothing, if no reschedule follows it. -/
structure Attended {ρ : Type} (k k' : Kernel) (f : Flow ρ) : Prop extends Served k k' where
  quiet : f.IsDone → k' = k

theorem Sound.done (h : Sound k) {ρ : Type} (f : Flow ρ) : Attended k k f :=
  ⟨h.served, fun _ => rfl⟩

theorem Served.resched {ρ : Type} {r : ρ} (h : Served k k') : Attended k k' (.resched r) :=
  ⟨h, fun hd => absurd hd id⟩

theorem Served.block {ρ : Type} (h : Served k k') : Attended k k' (.block : Flow ρ) :=
  ⟨h, fun hd => absurd hd id⟩

theorem Sound.semTake (h : Sound k) {sem : Sem} {timeout : UInt32}
    (hact : sem.count = 0 → timeout ≠ noWait → (k.thr self).state.Active) :
    Attended k (semTake k sem self timeout).1 (semTake k sem self timeout).2.2 := by
  unfold VibeRtos.semTake
  split
  · exact h.done _
  · rename_i hcount
    split
    · exact h.done _
    · rename_i hwait
      have hzero : sem.count = 0 := UInt32.le_zero_iff.mp (UInt32.not_lt.mp hcount)
      exact (h.park (hact hzero hwait) _ _).block

theorem Sound.semGive (h : Sound k) {sem : Sem} (hl : k.HeadIdle sem.waitList) :
    Attended k (semGive k sem).1 (semGive k sem).2.2 := by
  unfold VibeRtos.semGive Kernel.waitGetHead
  cases hhead : sem.waitList.head with
  | none =>
      dsimp only
      split
      · exact h.done _
      · exact h.done _
  | some t => exact (h.wake (hl t hhead) sem.waitList).resched

theorem Sound.msgqPut (h : Sound k) {q : Msgq} (data : Nat → UInt8) {timeout : UInt32}
    (hg : if q.used < q.maxMsgs then k.HeadIdle q.readWait
      else timeout ≠ noWait → (k.thr self).state.Active) :
    Attended k (msgqPut k q self data timeout).1 (msgqPut k q self data timeout).2.2 := by
  unfold VibeRtos.msgqPut
  split
  · rename_i hspace
    rw [if_pos hspace] at hg
    exact (h.wakeHead hg).resched
  · rename_i hfull
    rw [if_neg hfull] at hg
    split
    · exact h.done _
    · rename_i hwait
      exact (h.park (hg hwait) _ _).block

theorem Sound.msgqGet (h : Sound k) {q : Msgq} {timeout : UInt32}
    (hg : if q.used > 0 then k.HeadIdle q.writeWait
      else timeout ≠ noWait → (k.thr self).state.Active) :
    Attended k (msgqGet k q self timeout).1 (msgqGet k q self timeout).2.2 := by
  unfold VibeRtos.msgqGet
  split
  · rename_i hused
    rw [if_pos hused] at hg
    exact (h.wakeHead hg).resched
  · rename_i hempty
    rw [if_neg hempty] at hg
    split
    · exact h.done _
    · rename_i hwait
      exact (h.park (hg hwait) _ _).block

theorem Sound.msgqPurge (h : Sound k) {q : Msgq} (hl : wakesIdle walkBound k q.writeWait) :
    Served k (msgqPurge k q).1 := h.wakeAll hl

/-- Whether no thread that `vibe_event_post` wakes is in a run queue already. -/
def eventPostIdle (k : Kernel) (e : Event) (ctxs : EventCtxMem) (flags : UInt32) : Bool :=
  postsIdle (e.flags ||| flags) walkBound k e.waitList ctxs e.waitList.head

theorem Sound.eventPost (h : Sound k) {e : Event} {ctxs : EventCtxMem} {flags : UInt32}
    (hg : eventPostIdle k e ctxs flags) : Served k (eventPost k e ctxs flags).1 :=
  h.eventPostLoop _ hg

theorem Sound.eventWait (h : Sound k) {e : Event} (ctxs : EventCtxMem) {flags : UInt32}
    {mode : EventWaitMode} {timeout : UInt32}
    (hact : flags ≠ 0 → ¬ flagsSatisfied e.flags flags mode → timeout ≠ noWait →
      (k.thr self).state.Active) :
    Attended k (eventWait k e ctxs self flags mode timeout).1
      (eventWait k e ctxs self flags mode timeout).2.2.2 := by
  unfold VibeRtos.eventWait
  split
  · exact h.done _
  · rename_i hflags
    split
    · exact h.done _
    · rename_i hsat
      split
      · exact h.done _
      · rename_i hwait
        exact (h.park (hact hflags hsat hwait) _ _).block

theorem Sound.memPoolAlloc (h : Sound k) (mem : ByteMem.Mem) {p : MemPool} {timeout : UInt32}
    (hact : p.freeList = 0 → timeout ≠ noWait → (k.thr self).state.Active) :
    Attended k (memPoolAlloc k mem p self timeout).1 (memPoolAlloc k mem p self timeout).2.2 := by
  unfold VibeRtos.memPoolAlloc
  split
  · exact h.done _
  · rename_i hfree
    split
    · exact h.done _
    · rename_i hwait
      exact (h.park (hact (not_not.mp hfree) hwait) _ _).block

/-- A pointer that `vibe_mem_pool_free` refuses. -/
def MemPool.Refuses (p : MemPool) (ptr : Nat) : Prop :=
  ptr = 0 ∨ ptr < p.blocks ∨ ptr ≥ p.blocks + (p.numBlocks * p.blockSize).toNat

instance (p : MemPool) (ptr : Nat) : Decidable (p.Refuses ptr) :=
  inferInstanceAs (Decidable (_ ∨ _ ∨ _))

theorem Sound.memPoolFree (h : Sound k) (mem : ByteMem.Mem) {p : MemPool} {ptr : Nat}
    (hl : ¬ p.Refuses ptr → k.HeadIdle p.waitList) : Attended k (memPoolFree k mem p ptr).1
      (memPoolFree k mem p ptr).2.2.2 := by
  unfold VibeRtos.memPoolFree
  dsimp only
  split
  · exact h.done _
  · rename_i hptr
    exact (h.wakeHead (hl hptr)).resched

/-- A round of a pipe loop does nothing to the scheduler when it is the last. -/
structure Rounded {ρ : Type} (k k' : Kernel) (f : PipeFlow ρ) : Prop extends Served k k' where
  quiet : f = .ret → k' = k

/-- The deadline of a pipe loop has passed. -/
def Kernel.Expired (k : Kernel) (stopAt : UInt32) : Prop :=
  stopAt ≠ waitForever ∧ k.tickCount ≥ stopAt

instance (k : Kernel) (stopAt : UInt32) : Decidable (k.Expired stopAt) :=
  inferInstanceAs (Decidable (_ ∧ _))

theorem Sound.pipeWriteRound (h : Sound k) {p : Pipe} (src : List UInt8) (written : Nat)
    {timeout stopAt : UInt32} (hg : if p.size - p.used > 0 then k.HeadIdle p.readWait
      else timeout ≠ noWait → ¬ k.Expired stopAt → (k.thr self).state.Active) :
    Rounded k (pipeWriteRound k p self src written timeout stopAt).1
      (pipeWriteRound k p self src written timeout stopAt).2.2 := by
  have hpush : ∀ (bytes : List UInt8) (p : Pipe), (pipePush p bytes).readWait = p.readWait := by
    intro bytes
    induction bytes with
    | nil => exact fun _ => rfl
    | cons b bytes ih => exact fun p => ih _
  unfold VibeRtos.pipeWriteRound
  dsimp only
  split
  · rename_i hspace
    rw [if_pos hspace] at hg
    refine ⟨Sound.wakeHead h (show k.HeadIdle _ from ?_), fun hr => absurd hr (by simp)⟩
    rw [hpush]
    exact hg
  · rename_i hfull
    rw [if_neg hfull] at hg
    split
    · exact ⟨h.served, fun _ => rfl⟩
    · rename_i hwait
      split
      · exact ⟨h.served, fun _ => rfl⟩
      · rename_i htime
        exact ⟨h.park (hg hwait htime) _ _, fun hr => absurd hr (by simp)⟩

theorem Sound.pipeReadRound (h : Sound k) {p : Pipe} (len : Nat) (dst : ByteMem.Mem) {readCnt : Nat}
    {timeout stopAt : UInt32} (hg : if p.used > 0 then k.HeadIdle p.writeWait
      else ¬ (timeout = noWait ∨ readCnt > 0) → ¬ k.Expired stopAt → (k.thr self).state.Active) :
    Rounded k (pipeReadRound k p self len dst readCnt timeout stopAt).1
      (pipeReadRound k p self len dst readCnt timeout stopAt).2.2 := by
  have hpull : ∀ (n : Nat) (p : Pipe) (dst : ByteMem.Mem) (i : Nat),
      (pipePull n p dst i).1.writeWait = p.writeWait := by
    intro n
    induction n with
    | zero => exact fun _ _ _ => rfl
    | succ n ih => exact fun p dst i => ih _ _ _
  unfold VibeRtos.pipeReadRound
  dsimp only
  split
  · rename_i hused
    rw [if_pos hused] at hg
    refine ⟨Sound.wakeHead h (show k.HeadIdle _ from ?_), fun hr => absurd hr (by simp)⟩
    rw [hpull]
    exact hg
  · rename_i hempty
    rw [if_neg hempty] at hg
    split
    · exact ⟨h.served, fun _ => rfl⟩
    · rename_i hwait
      split
      · exact ⟨h.served, fun _ => rfl⟩
      · rename_i htime
        exact ⟨h.park (hg hwait htime) _ _, fun hr => absurd hr (by simp)⟩

/-! ## Mutexes -/

/-- The owner is raised without harm as long as it is in no run queue. -/
theorem Sound.boost (h : Sound k) {owner : Tid}
    (hout : (k.thr owner).priority < (k.thr self).priority → ¬ (k.thr owner).state.Active) :
    Served k (mutexBoost k self owner) := by
  unfold mutexBoost
  split
  · rename_i hlow
    have hna := hout hlow
    have hready : (k.thr owner).state ≠ .ready := fun hr => hna (Or.inl hr)
    dsimp only
    rw [if_neg (by rw [modThread_self]; exact hready)]
    obtain ⟨qs, ys, hp⟩ := h
    refine ⟨⟨qs, ys, ((hp.away hna).modThread _).placed ?_ ?_⟩, rfl, rfl, rfl⟩
    · rw [modThread_self]
      exact hna
    · rw [modThread_self]
      exact hp.asleep owner
  · exact h.served

theorem mutexBoost_active (k : Kernel) (self owner u : Tid) (hu : (k.thr u).state.Active) :
    ((mutexBoost k self owner).thr u).state.Active := by
  unfold mutexBoost
  split
  · dsimp only
    split
    · rename_i hready
      by_cases huo : u = owner
      · subst huo
        rw [schedEnqueue_thr, Function.update_self]
        exact Or.inl rfl
      · rw [schedEnqueue_thr, Function.update_of_ne huo, schedDequeue_thr,
          modThread_of_ne _ _ _ huo]
        exact hu
    · by_cases huo : u = owner
      · subst huo
        rw [modThread_self]
        exact hu
      · rw [modThread_of_ne _ _ _ huo]
        exact hu
  · exact hu

theorem Sound.mutexQueue (h : Sound k) {l : VList Tid} {r : Kernel × VList Tid}
    (hr : mutexQueue k l self = some r) : Served k r.1 := by
  unfold VibeRtos.mutexQueue at hr
  split at hr
  · split at hr
    · obtain rfl := Option.some.inj hr
      exact h.waitNode _
    · exact absurd hr (by simp)
  · obtain rfl := Option.some.inj hr
    exact h.waitNode _

theorem Sound.mutexLock (h : Sound k) {m : Mutex} {timeout : UInt32} {r : Kernel × Mutex × Flow Err}
    (hg : m.owner ≠ some self → timeout ≠ noWait → ∀ owner ∈ m.owner, (k.thr self).state.Active
      ∧ ((k.thr owner).priority < (k.thr self).priority → ¬ (k.thr owner).state.Active))
    (hr : mutexLock k m self timeout = some r) : Attended k r.1 r.2.2 := by
  unfold VibeRtos.mutexLock at hr
  split at hr
  · obtain rfl := Option.some.inj hr
    exact h.done _
  · rename_i hother
    split at hr
    · obtain rfl := Option.some.inj hr
      exact h.done _
    · rename_i owner howner
      split at hr
      · obtain rfl := Option.some.inj hr
        exact h.done _
      · rename_i hwait
        obtain ⟨q, hq, rfl⟩ := Option.map_eq_some_iff.mp hr
        obtain ⟨hact, hout⟩ := hg hother hwait owner howner
        have hboost := h.boost hout
        have hblock := hboost.trans (hboost.sound.block (mutexBoost_active k self owner self hact)
          ((mutexBoost k self owner).deadline timeout))
        exact (hblock.trans (hblock.sound.mutexQueue hq)).block

/-- Restoring a priority is harmless if it is the current one, or the thread is in no queue. -/
theorem Sound.restore (h : Sound k) {prio : Prio}
    (hsame : (k.thr self).state.Active → (k.thr self).priority = prio) :
    Served k (mutexRestore k self prio) := by
  obtain ⟨qs, ys, hp⟩ := h
  by_cases hact : (k.thr self).state.Active
  · have hid : (k.modThread self fun th => { th with priority := prio }) = k := by
      have hthr : { k.thr self with priority := prio } = k.thr self := by
        rw [← hsame hact]
      show { k with thr := Function.update k.thr self { k.thr self with priority := prio } } = k
      rw [hthr, Function.update_eq_self]
    unfold mutexRestore
    rw [hid]
    dsimp only
    split
    · obtain ⟨_, haway⟩ := hp.dequeue hact
      obtain ⟨qs', hp'⟩ := haway.enqueue
      exact ⟨⟨qs', ys, hp'⟩, rfl, rfl, rfl⟩
    · exact ⟨⟨qs, ys, hp⟩, rfl, rfl, rfl⟩
  · have hready : (k.thr self).state ≠ .ready := fun hr => hact (Or.inl hr)
    unfold mutexRestore
    dsimp only
    rw [if_neg (by rw [modThread_self]; exact hready)]
    refine ⟨⟨qs, ys, ((hp.away hact).modThread _).placed ?_ ?_⟩, rfl, rfl, rfl⟩
    · rw [modThread_self]
      exact hact
    · rw [modThread_self]
      exact hp.asleep self

theorem mutexRestore_active (k : Kernel) (self : Tid) (prio : Prio) (u : Tid) :
    ((mutexRestore k self prio).thr u).state.Active ↔ (k.thr u).state.Active := by
  have hmod : ((k.modThread self fun th => { th with priority := prio }).thr u).state
      = (k.thr u).state := by
    by_cases hu : u = self
    · subst hu
      rw [modThread_self]
    · rw [modThread_of_ne _ _ _ hu]
  unfold mutexRestore
  dsimp only
  split
  · rename_i hready
    rw [schedEnqueue_thr, schedDequeue_thr]
    by_cases hu : u = self
    · subst hu
      rw [Function.update_self, ← hmod, hready]
    · rw [Function.update_of_ne hu, hmod]
  · rw [hmod]

theorem Sound.mutexUnlock (h : Sound k) {m : Mutex}
    (hg : m.owner = some self → m.lockCount - 1 = 0 → k.HeadIdle m.waitList
      ∧ ((k.thr self).state.Active → (k.thr self).priority = m.ownerOrigPrio)) :
    Attended k (mutexUnlock k m self).1 (mutexUnlock k m self).2.2 := by
  unfold VibeRtos.mutexUnlock
  split
  · exact h.done _
  · rename_i howner
    dsimp only
    split
    · exact h.done _
    · rename_i hlast
      have hzero : m.lockCount - 1 = 0 := UInt32.le_zero_iff.mp (UInt32.not_lt.mp hlast)
      obtain ⟨hidle, hsame⟩ := hg (not_not.mp howner) hzero
      have hrest := h.restore hsame
      unfold Kernel.waitGetHead
      cases hhead : m.waitList.head with
      | none => exact hrest.resched
      | some t =>
          have hna : ¬ ((mutexRestore k self m.ownerOrigPrio).thr t).state.Active := by
            rw [mutexRestore_active]
            exact hidle t hhead
          exact (hrest.trans (hrest.sound.wake hna _)).resched

end VibeRtos
