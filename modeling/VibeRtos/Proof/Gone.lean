import VibeRtos.Lib.Runs
import VibeRtos.Proof.Spare

/-!
# Deleted and suspended threads

`Gone t s`: nothing in the system points at `t`, its state keeps it out of the run
queues, and it has the CPU at most until the next reschedule. Every step keeps this,
whoever takes it, short of re-creating, restarting or resuming `t`. Deleting or
suspending `t` reaches it when `t` was linked at most in the run queue it is taken
out of.
-/

namespace VibeRtos

open Links Kernel Runs

/-- No wait list of the system has an anchor that points at `t`. -/
structure ListsAvoid (s : Sys) (t : Tid) : Prop where
  mutex : ∀ i, ListAvoid (s.mutex i).waitList t
  sem : ∀ i, ListAvoid (s.sem i).waitList t
  msgqRead : ∀ i, ListAvoid (s.msgq i).readWait t
  msgqWrite : ∀ i, ListAvoid (s.msgq i).writeWait t
  event : ∀ i, ListAvoid (s.event i).waitList t
  pool : ∀ i, ListAvoid (s.pool i).waitList t
  pipeRead : ∀ i, ListAvoid (s.pipe i).readWait t
  pipeWrite : ∀ i, ListAvoid (s.pipe i).writeWait t

/-- `t` is out of every list and cannot act. -/
structure Gone (t : Tid) (s : Sys) : Prop where
  apart : Apart t s.k
  lists : ListsAvoid s t
  state : (s.k.thr t).state = .dead ∨ (s.k.thr t).state = .suspended
  idle : s.k.idle ≠ none ∧ s.k.idle ≠ some t
  /-- if `t` still has the CPU, it is about to give it away -/
  current : s.k.current = some t → s.k.schedLockCount = 0 ∧ ∃ a, s.pc t = .resched a

/-- A step that creates or restarts `t`. -/
def Revives (t : Tid) : Sys.Label → Prop
  | .boot u .. => u = t
  | .call (.threadCreate u ..) => u = t
  | .call (.threadRestart o) => o = some t
  | _ => False

/-- A step that resumes `t`. -/
def Resumes (t : Tid) : Sys.Label → Prop
  | .call (.threadResume o) => o = some t
  | _ => False

/-- `t` stays out, and a DEAD thread stays DEAD. -/
def StaysGone (t : Tid) (s s' : Sys) : Prop :=
  Gone t s' ∧ ((s.k.thr t).state = .dead → (s'.k.thr t).state = .dead)

variable {cfg : Config} {s s' : Sys} {t self : Tid}

theorem Gone.not_active (h : Gone t s) : ¬ (s.k.thr t).state.Active := by
  rcases h.state with hs | hs <;> rw [hs] <;> decide

/-- A section of another thread keeps `t` out. -/
theorem Gone.spares (h : Gone t s) (s' : Sys) (hcur : s.k.current ≠ some t) (hk : Spares t s.k s'.k)
    (hl : ListsAvoid s' t) : StaysGone t s s' := by
  refine ⟨⟨hk.1, hl, ?_, ?_, ?_⟩, ?_⟩
  · rw [hk.2.state]
    exact h.state
  · rw [hk.2.idle]
    exact h.idle
  · intro hc
    rw [hk.2.current] at hc
    exact absurd hc hcur
  · intro hd
    rw [hk.2.state]
    exact hd

theorem StaysGone.setPc (h : StaysGone t s s') (hcur : s'.k.current ≠ some t) (u : Tid) (p : Pc) :
    StaysGone t s (s'.setPc u p) := by
  refine ⟨⟨h.1.apart, ?_, h.1.state, h.1.idle, fun hc => absurd hc hcur⟩, h.2⟩
  exact ⟨h.1.lists.mutex, h.1.lists.sem, h.1.lists.msgqRead, h.1.lists.msgqWrite, h.1.lists.event,
    h.1.lists.pool, h.1.lists.pipeRead, h.1.lists.pipeWrite⟩

/-- The two together: a section of another thread, which moves on to `p`. -/
theorem Gone.section (h : Gone t s) (s' : Sys) (hcur : s.k.current ≠ some t)
    (hk : Spares t s.k s'.k)
    (hl : ListsAvoid s' t) (u : Tid) (p : Pc) : StaysGone t s (s'.setPc u p) := by
  refine (h.spares s' hcur hk hl).setPc ?_ u p
  rw [hk.2.current]
  exact hcur

/-- Replacing one object. -/
theorem avoid_object {α : Type} {f : Nat → α} {g : α → VList Tid} {i : Nat} {v : α}
    (h : ∀ j, ListAvoid (g (f j)) t) (hv : ListAvoid (g v) t) (j : Nat) :
    ListAvoid (g (Function.update f i v j)) t := by
  rw [Function.update_apply]
  split
  · exact hv
  · exact h j

theorem Gone.enter (h : Gone t s) (hself : self ≠ t) (hcur : s.k.current = some self) {c : Call}
    (hl : ¬ Revives t (.call c)) (hr : (s.k.thr t).state = .suspended → ¬ Resumes t (.call c))
    (hs : s.enter cfg self c = some s') : StaysGone t s s' := by
  have hne : s.k.current ≠ some t := by
    rw [hcur]
    exact some_ne hself
  have ha := h.apart
  have hw := h.lists
  cases c with
  | threadCreate u entry arg attr stack heapStack =>
      obtain rfl := Option.some.inj hs
      have hu : u ≠ t := hl
      have hk := ha.create hu cfg entry arg attr stack heapStack
      have hgone := h.spares ({ s with
        k := (threadCreate cfg s.k u entry arg attr stack heapStack).2 }) hne hk { hw with }
      have hne' : (threadCreate cfg s.k u entry arg attr stack heapStack).2.current ≠ some t := by
        rw [hk.2.current]
        exact hne
      split
      · exact (hgone.setPc hne' u _).setPc hne' self _
      · exact hgone.setPc hne' self _
  | threadDelete o =>
      obtain rfl := Option.some.inj hs
      by_cases hu : o.getD self = t
      · -- deleting a thread that is already out only marks it DEAD
        rw [hu]
        have hkeep : threadDelete s.k t = s.k.modThread t fun th => { th with
            state := .dead, stackBase := if th.isStatic then th.stackBase else none } := by
          unfold threadDelete
          rw [if_neg h.not_active]
        rw [hkeep]
        have hgone : StaysGone t s { s with k := s.k.modThread t fun th => { th with
            state := .dead, stackBase := if th.isStatic then th.stackBase else none } } := by
          refine ⟨⟨⟨ha.sched, ha.queues, ha.sleep, ha.sleepers, ha.wait⟩, { hw with }, ?_, h.idle,
            fun hc => absurd hc hne⟩, fun _ => ?_⟩
          · exact Or.inl (by simp)
          · simp
        exact hgone.setPc hne self _
      · exact h.section ({ s with k := threadDelete s.k (o.getD self) }) hne
          (ha.delete hu) { hw with } self _
  | threadSuspend o =>
      obtain rfl := Option.some.inj hs
      exact h.section ({ s with k := (threadSuspend s.k (o.getD self)).2 }) hne
        (ha.suspend fun _ => h.state) { hw with } self _
  | threadResume o =>
      cases o with
      | none =>
          obtain rfl := Option.some.inj hs
          exact h.section _ hne ha.refl hw self _
      | some u =>
          obtain rfl := Option.some.inj hs
          refine h.section ({ s with k := (threadResume s.k u).2 }) hne
            (ha.resume fun hu => ?_) { hw with } self _
          rcases h.state with hd | hsus
          · exact hd
          · exact absurd (congrArg some hu) (hr hsus)
  | threadSleep ms =>
      obtain rfl := Option.some.inj hs
      exact h.section ({ s with k := threadSleep cfg s.k self ms }) hne
        (ha.threadSleep hself cfg ms) { hw with } self _
  | threadYield =>
      obtain rfl := Option.some.inj hs
      exact h.section ({ s with k := threadYield s.k self }) hne (ha.requeue hself)
        { hw with } self _
  | threadRestart o =>
      obtain rfl := Option.some.inj hs
      have hu : o.getD self ≠ t := by
        cases o with
        | none => exact hself
        | some u => exact fun he => hl (congrArg some he)
      have hk := ha.restart hu
      have hgone := h.section ({ s with k := threadRestart s.k (o.getD self) }) hne hk
        { hw with } (o.getD self) .user
      refine hgone.setPc ?_ self _
      show (threadRestart s.k (o.getD self)).current ≠ some t
      rw [hk.2.current]
      exact hne
  | threadSetPriority o priority =>
      obtain rfl := Option.some.inj hs
      exact h.section ({ s with k := (threadSetPriority s.k (o.getD self) priority).2 }) hne
        (ha.setPriority h.not_active priority) { hw with } self _
  | schedLock =>
      obtain rfl := Option.some.inj hs
      exact ⟨⟨⟨ha.sched, ha.queues, ha.sleep, ha.sleepers, ha.wait⟩, { hw with }, h.state, h.idle,
        fun hc => absurd hc hne⟩, id⟩
  | schedUnlock =>
      obtain rfl := Option.some.inj hs
      have hstays : StaysGone t s { s with k := schedUnlock s.k } := by
        unfold Kernel.schedUnlock
        split <;> exact ⟨⟨⟨ha.sched, ha.queues, ha.sleep, ha.sleepers, ha.wait⟩, { hw with },
          h.state, h.idle, fun hc => absurd hc hne⟩, id⟩
      refine hstays.setPc ?_ self _
      show (Kernel.schedUnlock s.k).current ≠ some t
      unfold Kernel.schedUnlock
      split <;> exact hne
  | mutexLock m timeout =>
      obtain ⟨⟨k', m', f⟩, hlock, rfl⟩ := Option.map_eq_some_iff.mp hs
      have hstep := ha.mutexLock (hw.mutex m) h.not_active hself hlock
      exact h.section ({ s with k := k', mutex := Function.update s.mutex m m' }) hne hstep.1
        { hw with mutex := avoid_object (g := Mutex.waitList) hw.mutex hstep.2 } self _
  | mutexUnlock m =>
      obtain rfl := Option.some.inj hs
      have hstep := ha.mutexUnlock (hw.mutex m) hself
      exact h.section ({ s with
        k := (VibeRtos.mutexUnlock s.k (s.mutex m) self).1
        mutex := Function.update s.mutex m (VibeRtos.mutexUnlock s.k (s.mutex m) self).2.1 })
        hne hstep.1 { hw with mutex := avoid_object (g := Mutex.waitList) hw.mutex hstep.2 } self _
  | semTake i timeout =>
      obtain rfl := Option.some.inj hs
      have hstep := ha.semTake (hw.sem i) hself timeout
      exact h.section ({ s with
        k := (VibeRtos.semTake s.k (s.sem i) self timeout).1
        sem := Function.update s.sem i (VibeRtos.semTake s.k (s.sem i) self timeout).2.1 })
        hne hstep.1 { hw with sem := avoid_object (g := Sem.waitList) hw.sem hstep.2 } self _
  | semGive i =>
      obtain rfl := Option.some.inj hs
      have hstep := ha.semGive (hw.sem i)
      exact h.section ({ s with
        k := (VibeRtos.semGive s.k (s.sem i)).1
        sem := Function.update s.sem i (VibeRtos.semGive s.k (s.sem i)).2.1 })
        hne hstep.1 { hw with sem := avoid_object (g := Sem.waitList) hw.sem hstep.2 } self _
  | semReset i =>
      obtain rfl := Option.some.inj hs
      exact h.section ({ s with
        sem := Function.update s.sem i (VibeRtos.semReset (s.sem i)) }) hne ha.refl
        { hw with sem := avoid_object (g := Sem.waitList) hw.sem (hw.sem i) } self _
  | msgqPut i data timeout =>
      obtain rfl := Option.some.inj hs
      have hstep := ha.msgqPut (hw.msgqRead i) (hw.msgqWrite i) hself data timeout
      exact h.section ({ s with
        k := (VibeRtos.msgqPut s.k (s.msgq i) self data timeout).1
        msgq := Function.update s.msgq i (VibeRtos.msgqPut s.k (s.msgq i) self data timeout).2.1 })
        hne hstep.1 { hw with
          msgqRead := avoid_object (g := Msgq.readWait) hw.msgqRead hstep.2.1
          msgqWrite := avoid_object (g := Msgq.writeWait) hw.msgqWrite hstep.2.2 } self _
  | msgqGet i timeout =>
      obtain rfl := Option.some.inj hs
      have hstep := ha.msgqGet (hw.msgqRead i) (hw.msgqWrite i) hself timeout
      exact h.section ({ s with
        k := (VibeRtos.msgqGet s.k (s.msgq i) self timeout).1
        msgq := Function.update s.msgq i (VibeRtos.msgqGet s.k (s.msgq i) self timeout).2.1 })
        hne hstep.1 { hw with
          msgqRead := avoid_object (g := Msgq.readWait) hw.msgqRead hstep.2.1
          msgqWrite := avoid_object (g := Msgq.writeWait) hw.msgqWrite hstep.2.2 } self _
  | msgqPeek i =>
      obtain rfl := Option.some.inj hs
      exact h.section _ hne ha.refl hw self _
  | msgqPurge i =>
      obtain rfl := Option.some.inj hs
      have hstep := ha.wakeAll walkBound (hw.msgqWrite i)
      exact h.section ({ s with
        k := (VibeRtos.msgqPurge s.k (s.msgq i)).1
        msgq := Function.update s.msgq i (VibeRtos.msgqPurge s.k (s.msgq i)).2 })
        hne hstep.1 { hw with
          msgqRead := avoid_object (g := Msgq.readWait) hw.msgqRead (hw.msgqRead i)
          msgqWrite := avoid_object (g := Msgq.writeWait) hw.msgqWrite hstep.2 } self _
  | eventPost i flags =>
      obtain rfl := Option.some.inj hs
      have hstep := ha.eventPost (hw.event i) s.eventCtx flags
      exact h.section ({ s with
        k := (VibeRtos.eventPost s.k (s.event i) s.eventCtx flags).1
        event := Function.update s.event i
          (VibeRtos.eventPost s.k (s.event i) s.eventCtx flags).2.1
        eventCtx := (VibeRtos.eventPost s.k (s.event i) s.eventCtx flags).2.2 })
        hne hstep.1 { hw with event := avoid_object (g := Event.waitList) hw.event hstep.2 } self _
  | eventClear i flags =>
      obtain rfl := Option.some.inj hs
      exact h.section ({ s with
        event := Function.update s.event i (VibeRtos.eventClear (s.event i) flags) }) hne ha.refl
        { hw with event := avoid_object (g := Event.waitList) hw.event (hw.event i) } self _
  | eventWait i flags mode timeout =>
      obtain rfl := Option.some.inj hs
      have hstep := ha.eventWait (hw.event i) hself s.eventCtx flags mode timeout
      exact h.section ({ s with
        k := (VibeRtos.eventWait s.k (s.event i) s.eventCtx self flags mode timeout).1
        event := Function.update s.event i
          (VibeRtos.eventWait s.k (s.event i) s.eventCtx self flags mode timeout).2.1
        eventCtx := (VibeRtos.eventWait s.k (s.event i) s.eventCtx self flags mode timeout).2.2.1 })
        hne hstep.1 { hw with event := avoid_object (g := Event.waitList) hw.event hstep.2 } self _
  | memPoolAlloc i timeout =>
      obtain rfl := Option.some.inj hs
      have hstep := ha.memPoolAlloc (hw.pool i) hself s.mem timeout
      exact h.section ({ s with
        k := (VibeRtos.memPoolAlloc s.k s.mem (s.pool i) self timeout).1
        pool := Function.update s.pool i
          (VibeRtos.memPoolAlloc s.k s.mem (s.pool i) self timeout).2.1 })
        hne hstep.1 { hw with pool := avoid_object (g := MemPool.waitList) hw.pool hstep.2 } self _
  | memPoolFree i ptr =>
      obtain rfl := Option.some.inj hs
      have hstep := ha.memPoolFree (hw.pool i) s.mem ptr
      exact h.section ({ s with
        k := (VibeRtos.memPoolFree s.k s.mem (s.pool i) ptr).1
        mem := (VibeRtos.memPoolFree s.k s.mem (s.pool i) ptr).2.1
        pool := Function.update s.pool i
          (VibeRtos.memPoolFree s.k s.mem (s.pool i) ptr).2.2.1 })
        hne hstep.1 { hw with pool := avoid_object (g := MemPool.waitList) hw.pool hstep.2 } self _
  | pipeWrite i src timeout =>
      obtain rfl := Option.some.inj hs
      exact h.section _ hne ha.refl hw self _
  | pipeRead i len dst timeout =>
      obtain rfl := Option.some.inj hs
      exact h.section _ hne ha.refl hw self _

theorem Gone.resume (h : Gone t s) (hself : self ≠ t) (hcur : s.k.current = some self)
    (a : After) : StaysGone t s (s.resume self a) := by
  have hne : s.k.current ≠ some t := by
    rw [hcur]
    exact some_ne hself
  have ha := h.apart
  have hw := h.lists
  cases a with
  | ret r =>
      exact h.section ({ s with ret := Function.update s.ret self r }) hne ha.refl
        { hw with } self _
  | msgqPutRetry i data =>
      refine h.section ({ s with
        msgq := Function.update s.msgq i (VibeRtos.msgqPutRetry (s.msgq i) data).1 }) hne ha.refl
        ?_ self _
      unfold VibeRtos.msgqPutRetry
      split <;> exact { hw with
        msgqRead := avoid_object (g := Msgq.readWait) hw.msgqRead (hw.msgqRead i)
        msgqWrite := avoid_object (g := Msgq.writeWait) hw.msgqWrite (hw.msgqWrite i) }
  | msgqGetRetry i =>
      refine h.section ({ s with
        msgq := Function.update s.msgq i (VibeRtos.msgqGetRetry (s.msgq i)).1 }) hne ha.refl
        ?_ self _
      unfold VibeRtos.msgqGetRetry
      split <;> exact { hw with
        msgqRead := avoid_object (g := Msgq.readWait) hw.msgqRead (hw.msgqRead i)
        msgqWrite := avoid_object (g := Msgq.writeWait) hw.msgqWrite (hw.msgqWrite i) }
  | memPoolAllocRetry i =>
      refine h.section ({ s with
        pool := Function.update s.pool i (VibeRtos.memPoolAllocRetry s.mem (s.pool i)).1 }) hne
        ha.refl ?_ self _
      unfold VibeRtos.memPoolAllocRetry
      split <;> exact { hw with
        pool := avoid_object (g := MemPool.waitList) hw.pool (hw.pool i) }
  | memPoolClear i blk =>
      exact h.section ({ s with mem := VibeRtos.memPoolClear s.mem (s.pool i) blk }) hne
        ha.refl { hw with } self _
  | pipeWrite i src written timeout stopAt =>
      rw [Sys.resume]
      split
      · have hstep := ha.pipeWriteRound (hw.pipeRead i) (hw.pipeWrite i) hself src written timeout
          stopAt
        exact h.section ({ s with
          k := (pipeWriteRound s.k (s.pipe i) self src written timeout stopAt).1
          pipe := Function.update s.pipe i
            (pipeWriteRound s.k (s.pipe i) self src written timeout stopAt).2.1 })
          hne hstep.1 { hw with
            pipeRead := avoid_object (g := Pipe.readWait) hw.pipeRead hstep.2.1
            pipeWrite := avoid_object (g := Pipe.writeWait) hw.pipeWrite hstep.2.2 } self _
      · exact h.section _ hne ha.refl hw self _
  | pipeRead i len dst readCnt timeout stopAt =>
      rw [Sys.resume]
      split
      · have hstep :=
          ha.pipeReadRound (hw.pipeRead i) (hw.pipeWrite i) hself len dst readCnt timeout stopAt
        exact h.section ({ s with
          k := (pipeReadRound s.k (s.pipe i) self len dst readCnt timeout stopAt).1
          pipe := Function.update s.pipe i
            (pipeReadRound s.k (s.pipe i) self len dst readCnt timeout stopAt).2.1 })
          hne hstep.1 { hw with
            pipeRead := avoid_object (g := Pipe.readWait) hw.pipeRead hstep.2.1
            pipeWrite := avoid_object (g := Pipe.writeWait) hw.pipeWrite hstep.2.2 } self _
      · exact h.section _ hne ha.refl hw self _
  | _ => exact h.section _ hne ha.refl hw self _

/-- A reschedule takes the CPU away from `t` if it still has it. -/
theorem Gone.reschedule {k : Kernel} (h : Gone t s) (s' : Sys) (hk : Spares t s.k k)
    (hl : ListsAvoid s' t) (hs : s'.k = k.schedReschedule) :
    StaysGone t s s' ∧ s'.k.current ≠ some t := by
  have hna : ¬ (k.thr t).state.Active := by
    rw [hk.2.state]
    exact h.not_active
  obtain ⟨hidle, hidle_ne⟩ := h.idle
  obtain ⟨hapart, hstate, hi, -, hcur⟩ := hk.1.reschedule (by rw [hk.2.idle]; exact hidle_ne)
    (by rw [hk.2.idle]; exact hidle) hna
  have hgives : s'.k.current ≠ some t := by
    rw [hs]
    intro hc
    obtain ⟨hold, hlock⟩ := hcur hc
    rw [hk.2.current] at hold
    rw [hk.2.lock] at hlock
    exact hlock (h.current hold).1
  refine ⟨⟨⟨?_, hl, ?_, ?_, fun hc => absurd hc hgives⟩, ?_⟩, hgives⟩
  · rw [hs]
    exact hapart
  · rw [hs, hstate, hk.2.state]
    exact h.state
  · rw [hs, hi, hk.2.idle]
    exact h.idle
  · intro hd
    rw [hs, hstate, hk.2.state]
    exact hd

/-- **One step keeps `t` out.** -/
theorem Gone.step (h : Gone t s) {l : Sys.Label} (hl : ¬ Revives t l)
    (hr : (s.k.thr t).state = .suspended → ¬ Resumes t l) (hs : s.step cfg l = some s') :
    StaysGone t s s' := by
  have ha := h.apart
  have hw := h.lists
  cases l with
  | boot u entry arg attr stack heapStack =>
      rw [Sys.step] at hs
      split at hs
      · exact absurd hs (by simp)
      · rename_i hnone
        obtain rfl := Option.some.inj hs
        have hne : s.k.current ≠ some t := by
          rw [hnone]
          simp
        have hk := ha.create (u := u) hl cfg entry arg attr stack heapStack
        have hgone := h.spares ({ s with
          k := (threadCreate cfg s.k u entry arg attr stack heapStack).2 }) hne hk { hw with }
        split
        · refine hgone.setPc ?_ u _
          rw [hk.2.current]
          exact hne
        · exact hgone
  | start =>
      rw [Sys.step] at hs
      split at hs
      · exact absurd hs (by simp)
      · rename_i hnone
        obtain rfl := Option.some.inj hs
        have hne : s.k.current ≠ some t := by
          rw [hnone]
          simp
        have hnext := ha.next h.idle.2
        unfold schedStart
        cases hx : s.k.schedNextThread with
        | none => exact h.spares ({ s with k := s.k }) hne ha.refl hw
        | some x =>
            have hxt : x ≠ t := by
              intro he
              exact hnext (hx.trans (by rw [he]))
            have hstate : (({ s.k with current := some x }.modThread x
                fun th => { th with state := .running }).thr t).state = (s.k.thr t).state := by
              rw [modThread_of_ne _ _ _ hxt.symm]
            refine ⟨⟨⟨ha.sched, ha.queues, ha.sleep, ha.sleepers, ha.wait⟩, { hw with }, ?_, h.idle,
              ?_⟩, ?_⟩
            · rw [hstate]
              exact h.state
            · intro hc
              exact absurd (Option.some.inj hc) hxt
            · intro hd
              rw [hstate]
              exact hd
  | call c =>
      rw [Sys.step] at hs
      split at hs
      · exact absurd hs (by simp)
      · rename_i self hself
        split at hs
        · rename_i hpc
          have hne : self ≠ t := by
            intro he
            obtain ⟨-, a, hpc'⟩ := h.current (he ▸ hself)
            rw [he, hpc'] at hpc
            exact absurd hpc (by simp)
          exact h.enter hne hself hl hr hs
        · exact absurd hs (by simp)
  | cont =>
      rw [Sys.step] at hs
      split at hs
      · exact absurd hs (by simp)
      · rename_i self hself
        split at hs
        · exact absurd hs (by simp)
        · rename_i a _
          obtain rfl := Option.some.inj hs
          obtain ⟨hgone, hcur⟩ := h.reschedule ({ s with k := schedReschedule s.k }) ha.refl
            { hw with } rfl
          exact hgone.setPc hcur self _
        · rename_i a hpc
          have hne : self ≠ t := by
            intro he
            obtain ⟨-, b, hpc'⟩ := h.current (he ▸ hself)
            rw [he, hpc'] at hpc
            exact absurd hpc (by simp)
          obtain rfl := Option.some.inj hs
          exact h.resume hne hself a
  | tick =>
      obtain rfl := Option.some.inj hs
      have htick : Spares t s.k { s.k with tickCount := s.k.tickCount + 1 } :=
        ⟨⟨ha.sched, ha.queues, ha.sleep, ha.sleepers, ha.wait⟩, rfl, rfl, rfl, rfl⟩
      have hwake := htick.trans (htick.1.wakeLoop (s.k.tickCount + 1) walkBound ha.sleepers.1)
      have hslice := hwake.trans (hwake.1.timeslice cfg (by
        rw [hwake.2.state]
        intro hrun
        exact h.not_active (Or.inr hrun)))
      have hlists : ListsAvoid { s with k := sysTickHandler cfg s.k } t := { hw with }
      exact (h.reschedule _ hslice hlists rfl).1
  | isrSemGive i =>
      obtain rfl := Option.some.inj hs
      have hstep := ha.semGive (hw.sem i)
      have hlists : ListsAvoid { s with
          k := (VibeRtos.semGive s.k (s.sem i)).1
          sem := Function.update s.sem i (VibeRtos.semGive s.k (s.sem i)).2.1 } t :=
        { hw with sem := avoid_object (g := Sem.waitList) hw.sem hstep.2 }
      split
      · have hlists' : ListsAvoid { s with
            k := schedReschedule (VibeRtos.semGive s.k (s.sem i)).1
            sem := Function.update s.sem i (VibeRtos.semGive s.k (s.sem i)).2.1 } t :=
          { hlists with }
        exact (h.reschedule _ hstep.1 hlists' rfl).1
      · refine ⟨⟨hstep.1.1, hlists, ?_, ?_, ?_⟩, ?_⟩
        · rw [hstep.1.2.state]
          exact h.state
        · rw [hstep.1.2.idle]
          exact h.idle
        · intro hc
          rw [hstep.1.2.current] at hc
          rw [hstep.1.2.lock]
          exact h.current hc
        · intro hd
          rw [hstep.1.2.state]
          exact hd
  | isrEventPost i flags =>
      obtain rfl := Option.some.inj hs
      have hstep := ha.eventPost (hw.event i) s.eventCtx flags
      have hlists : ListsAvoid { s with
          k := schedReschedule (VibeRtos.eventPost s.k (s.event i) s.eventCtx flags).1
          event := Function.update s.event i
            (VibeRtos.eventPost s.k (s.event i) s.eventCtx flags).2.1
          eventCtx := (VibeRtos.eventPost s.k (s.event i) s.eventCtx flags).2.2 } t :=
        { hw with event := avoid_object (g := Event.waitList) hw.event hstep.2 }
      exact (h.reschedule _ hstep.1 hlists rfl).1

end VibeRtos
