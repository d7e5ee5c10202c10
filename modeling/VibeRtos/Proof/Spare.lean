import VibeRtos.Proof.Avoid

/-!
# Kernel calls spare a thread that nothing points at

Each call made by another thread keeps `Apart` and leaves the lists it works on
without a pointer to `t`. The only sections that name `t` at all are those applied to
`t` itself, and they leave a thread that is not in a run queue where it is.
-/

namespace VibeRtos

open Links Kernel ByteMem

variable {t self u : Tid} {k : Kernel}

/-! ## Threads -/

theorem Apart.create (h : Apart t k) (hu : u ≠ t) (cfg : Config) (entry arg : Nat)
    (attr : Option ThreadAttr) (stack heapStack : Option Nat) :
    Spares t k (threadCreate cfg k u entry arg attr stack heapStack).2 := by
  unfold threadCreate
  split
  · exact h.refl
  · split
    · exact h.refl
    · split
      · exact h.refl
      · dsimp only
        split
        · exact h.refl
        · -- the new control block starts with empty links
          have hclear : ∀ {mem : Tid → Link Tid}, NodesAvoid mem t →
              NodesAvoid (Function.update mem u listNodeInit) t :=
            fun hm => hm.update (by simp [listNodeInit]) (by simp [listNodeInit])
          have hnew : ∀ th, Spares t k { k with
              nextThreadId := k.nextThreadId + 1
              thr := Function.update k.thr u th
              schedNode := Function.update k.schedNode u listNodeInit
              waitNode := Function.update k.waitNode u listNodeInit
              sleepNode := Function.update k.sleepNode u listNodeInit } := by
            intro th
            refine ⟨⟨hclear h.sched, h.queues, hclear h.sleep, h.sleepers, hclear h.wait⟩, ?_, rfl,
              rfl, rfl⟩
            dsimp only
            rw [Function.update_of_ne hu.symm]
          exact (hnew _).trans ((hnew _).1.enqueue hu)

theorem Apart.dequeue_if (h : Apart t k) {p : Prop} [Decidable p] (hp : u = t → ¬ p) :
    Spares t k (if p then k.schedDequeue u else k) := by
  split
  · rename_i hyes
    exact h.dequeue fun he => hp he hyes
  · exact h.refl

theorem Apart.modEnqueue (h : Apart t k) (hu : u ≠ t) (f : Thread → Thread) :
    Spares t k ((k.modThread u f).schedEnqueue u) := by
  have hm := h.modThread f fun he => absurd he hu
  exact hm.trans (hm.1.enqueue hu)

theorem Apart.suspend (h : Apart t k)
    (ht : u = t → (k.thr t).state = .dead ∨ (k.thr t).state = .suspended) :
    Spares t k (threadSuspend k u).2 := by
  unfold threadSuspend
  split
  · exact h.refl
  · rename_i hdead
    have hd := h.dequeue_if (u := u) (p := (k.thr u).state.Active) (by
      intro he hact
      rw [he] at hact
      rcases ht he with hs | hs <;> rw [hs] at hact <;> exact absurd hact (by decide))
    dsimp only
    refine hd.trans (hd.1.modThread _ fun he => ?_)
    have hs : (k.thr t).state = .suspended := by
      rcases ht he with hs | hs
      · rw [he] at hdead
        exact absurd hs hdead
      · exact hs
    exact (hd.2.state.trans hs).symm

theorem Apart.delete (h : Apart t k) (hu : u ≠ t) : Spares t k (threadDelete k u) := by
  have hd := h.dequeue_if (u := u) (p := (k.thr u).state.Active) (fun he => absurd he hu)
  unfold threadDelete
  dsimp only
  exact hd.trans (hd.1.modThread _ fun he => absurd he hu)

theorem Apart.resume (h : Apart t k) (ht : u = t → (k.thr t).state = .dead) :
    Spares t k (threadResume k u).2 := by
  unfold threadResume
  split
  · exact h.refl
  · rename_i hs
    refine h.enqueue fun he => hs ?_
    rw [he, ht he]
    simp

theorem Apart.threadSleep (h : Apart t k) (hself : self ≠ t) (cfg : Config) (ms : UInt32) :
    Spares t k (Kernel.threadSleep cfg k self ms) :=
  (h.dequeue hself).trans ((h.dequeue hself).1.schedSleep hself _)

theorem Apart.restart (h : Apart t k) (hu : u ≠ t) : Spares t k (threadRestart k u) := by
  have hoff : Spares t k (if (k.thr u).state = .ready then k.schedDequeue u
      else if (k.thr u).state = .sleeping then k.sleepRemove u else k) := by
    split
    · exact h.dequeue hu
    · split
      · exact h.sleepRemove hu
      · exact h.refl
  exact hoff.trans (hoff.1.modEnqueue hu _)

theorem Apart.setPriority (h : Apart t k) (hna : ¬ (k.thr t).state.Active) (priority : UInt8) :
    Spares t k (threadSetPriority k u priority).2 := by
  unfold threadSetPriority
  split
  · exact h.refl
  · by_cases hready : (k.thr u).state = .ready
    · have hu : u ≠ t := by
        intro he
        rw [he] at hready
        exact hna (Or.inl hready)
      simp only [hready, if_true]
      have hd := h.dequeue hu
      exact hd.trans (hd.1.modEnqueue hu _)
    · simp only [hready, if_false]
      exact h.modThread _ fun _ => rfl

/-! ## Mutexes -/

theorem Apart.mutexBoost (h : Apart t k) (hna : ¬ (k.thr t).state.Active) (owner : Tid) :
    Spares t k (mutexBoost k self owner) := by
  unfold VibeRtos.mutexBoost
  split
  · have hm := h.modThread (u := owner)
      (fun th => { th with priority := (k.thr self).priority }) (fun _ => rfl)
    dsimp only
    split
    · rename_i hready
      have ho : owner ≠ t := by
        intro he
        rw [he, modThread_self] at hready
        exact hna (Or.inl hready)
      exact hm.trans (hm.1.requeue ho)
    · exact hm
  · exact h.refl

theorem Apart.mutexQueue {k' : Kernel} {l l' : VList Tid} (h : Apart t k) (hl : ListAvoid l t)
    (hself : self ≠ t) (hq : mutexQueue k l self = some (k', l')) :
    Spares t k k' ∧ ListAvoid l' t := by
  unfold VibeRtos.mutexQueue at hq
  split at hq
  · rename_i x hfind
    have hx : x ≠ t := by
      intro he
      exact avoid_nodes h.wait hl (he ▸ List.mem_of_find?_eq_some hfind)
    split at hq
    · rename_i p hp
      have hpt : p ≠ t := by
        intro he
        exact (h.wait x hx).1 (by rw [hp, he])
      obtain ⟨rfl, rfl⟩ := Prod.mk.inj (Option.some.inj hq)
      have hstep := avoid_insertAfter h.wait hl hself hpt
      exact ⟨⟨⟨h.sched, h.queues, h.sleep, h.sleepers, hstep.1⟩, rfl, rfl, rfl, rfl⟩, hstep.2⟩
    · exact absurd hq (by simp)
  · obtain ⟨rfl, rfl⟩ := Prod.mk.inj (Option.some.inj hq)
    exact h.waitAppend hl hself

theorem Apart.mutexLock {k' : Kernel} {m m' : Mutex} {timeout : UInt32} {f : Flow Err}
    (h : Apart t k) (hl : ListAvoid m.waitList t) (hna : ¬ (k.thr t).state.Active)
    (hself : self ≠ t) (hs : mutexLock k m self timeout = some (k', m', f)) :
    Spares t k k' ∧ ListAvoid m'.waitList t := by
  unfold VibeRtos.mutexLock at hs
  split at hs
  · obtain ⟨rfl, rfl, -⟩ := by simpa using hs
    exact ⟨h.refl, hl⟩
  · split at hs
    · obtain ⟨rfl, rfl, -⟩ := by simpa using hs
      exact ⟨h.refl, hl⟩
    · rename_i owner _
      split at hs
      · obtain ⟨rfl, rfl, -⟩ := by simpa using hs
        exact ⟨h.refl, hl⟩
      · obtain ⟨⟨k₁, l₁⟩, hq, heq⟩ := Option.map_eq_some_iff.mp hs
        obtain ⟨rfl, rfl, -⟩ := by simpa using heq
        have hb : Spares t k (VibeRtos.mutexBoost k self owner) := h.mutexBoost hna owner
        have hbl :=
          hb.trans (hb.1.block hself ((VibeRtos.mutexBoost k self owner).deadline timeout))
        have hqueue := hbl.1.mutexQueue hl hself hq
        exact ⟨hbl.trans hqueue.1, hqueue.2⟩

theorem Apart.mutexUnlock {m : Mutex} (h : Apart t k) (hl : ListAvoid m.waitList t)
    (hself : self ≠ t) :
    Spares t k (mutexUnlock k m self).1 ∧ ListAvoid (mutexUnlock k m self).2.1.waitList t := by
  unfold VibeRtos.mutexUnlock
  split
  · exact ⟨h.refl, hl⟩
  · dsimp only
    split
    · exact ⟨h.refl, hl⟩
    · have hrestore : Spares t k (mutexRestore k self m.ownerOrigPrio) := by
        unfold mutexRestore
        have hm := h.modThread (u := self) (fun th => { th with priority := m.ownerOrigPrio })
          (fun _ => rfl)
        dsimp only
        split
        · exact hm.trans (hm.1.requeue hself)
        · exact hm
      unfold Kernel.waitGetHead
      cases hhead : m.waitList.head with
      | none => exact ⟨hrestore, hl⟩
      | some x =>
          have hx : x ≠ t := by
            intro he
            exact hl.1 (by rw [hhead, he])
          have hone := hrestore.1.wakeOne hl hx
          exact ⟨hrestore.trans hone.1, hone.2⟩

/-! ## Semaphores, queues, pools and pipes -/

theorem Apart.semTake {s : Sem} (h : Apart t k) (hl : ListAvoid s.waitList t) (hself : self ≠ t)
    (timeout : UInt32) : Spares t k (semTake k s self timeout).1
      ∧ ListAvoid (semTake k s self timeout).2.1.waitList t := by
  unfold VibeRtos.semTake
  split
  · exact ⟨h.refl, hl⟩
  · split
    · exact ⟨h.refl, hl⟩
    · exact h.blockOn hl hself _

theorem Apart.semGive {s : Sem} (h : Apart t k) (hl : ListAvoid s.waitList t) :
    Spares t k (semGive k s).1 ∧ ListAvoid (semGive k s).2.1.waitList t := by
  unfold VibeRtos.semGive Kernel.waitGetHead
  cases hhead : s.waitList.head with
  | none =>
      dsimp only
      split <;> exact ⟨h.refl, hl⟩
  | some x =>
      have hx : x ≠ t := by
        intro he
        exact hl.1 (by rw [hhead, he])
      exact h.wakeOne hl hx

theorem Apart.msgqPut {q : Msgq} (h : Apart t k) (hr : ListAvoid q.readWait t)
    (hw : ListAvoid q.writeWait t) (hself : self ≠ t) (data : Nat → UInt8) (timeout : UInt32) :
    Spares t k (msgqPut k q self data timeout).1
      ∧ ListAvoid (msgqPut k q self data timeout).2.1.readWait t
      ∧ ListAvoid (msgqPut k q self data timeout).2.1.writeWait t := by
  unfold VibeRtos.msgqPut
  split
  · have hwake := h.wakeHead hr
    exact ⟨hwake.1, hwake.2, hw⟩
  · split
    · exact ⟨h.refl, hr, hw⟩
    · have hblock := h.blockOn hw hself (k.deadline timeout)
      exact ⟨hblock.1, hr, hblock.2⟩

theorem Apart.msgqGet {q : Msgq} (h : Apart t k) (hr : ListAvoid q.readWait t)
    (hw : ListAvoid q.writeWait t) (hself : self ≠ t) (timeout : UInt32) :
    Spares t k (msgqGet k q self timeout).1
      ∧ ListAvoid (msgqGet k q self timeout).2.1.readWait t
      ∧ ListAvoid (msgqGet k q self timeout).2.1.writeWait t := by
  unfold VibeRtos.msgqGet
  split
  · have hwake := h.wakeHead hw
    exact ⟨hwake.1, hr, hwake.2⟩
  · split
    · exact ⟨h.refl, hr, hw⟩
    · have hblock := h.blockOn hr hself (k.deadline timeout)
      exact ⟨hblock.1, hblock.2, hw⟩

theorem Apart.memPoolAlloc {p : MemPool} (h : Apart t k) (hl : ListAvoid p.waitList t)
    (hself : self ≠ t) (mem : Mem) (timeout : UInt32) :
    Spares t k (memPoolAlloc k mem p self timeout).1
      ∧ ListAvoid (memPoolAlloc k mem p self timeout).2.1.waitList t := by
  unfold VibeRtos.memPoolAlloc
  split
  · exact ⟨h.refl, hl⟩
  · split
    · exact ⟨h.refl, hl⟩
    · exact h.blockOn hl hself _

theorem Apart.memPoolFree {p : MemPool} (h : Apart t k) (hl : ListAvoid p.waitList t) (mem : Mem)
    (ptr : Nat) : Spares t k (memPoolFree k mem p ptr).1
      ∧ ListAvoid (memPoolFree k mem p ptr).2.2.1.waitList t := by
  unfold VibeRtos.memPoolFree
  dsimp only
  split
  · exact ⟨h.refl, hl⟩
  · exact h.wakeHead hl

theorem pipePush_waits (p : Pipe) (bytes : List UInt8) :
    (pipePush p bytes).readWait = p.readWait ∧ (pipePush p bytes).writeWait = p.writeWait := by
  unfold pipePush
  induction bytes generalizing p with
  | nil => exact ⟨rfl, rfl⟩
  | cons b bytes ih => exact ih _

theorem pipePull_waits (n : Nat) (p : Pipe) (dst : Mem) (i : Nat) :
    (pipePull n p dst i).1.readWait = p.readWait
      ∧ (pipePull n p dst i).1.writeWait = p.writeWait := by
  induction n generalizing p dst i with
  | zero => exact ⟨rfl, rfl⟩
  | succ n ih => exact ih _ _ _

theorem Apart.pipeWriteRound {p : Pipe} (h : Apart t k) (hr : ListAvoid p.readWait t)
    (hw : ListAvoid p.writeWait t) (hself : self ≠ t) (src : List UInt8) (written : Nat)
    (timeout stopAt : UInt32) :
    Spares t k (pipeWriteRound k p self src written timeout stopAt).1
      ∧ ListAvoid (pipeWriteRound k p self src written timeout stopAt).2.1.readWait t
      ∧ ListAvoid (pipeWriteRound k p self src written timeout stopAt).2.1.writeWait t := by
  unfold VibeRtos.pipeWriteRound
  dsimp only
  split
  · obtain ⟨hrp, hwp⟩ := pipePush_waits p
      ((src.drop written).take (min (src.length - written) (p.size - p.used).toNat))
    have hwake := h.wakeHead (l := (pipePush p ((src.drop written).take
      (min (src.length - written) (p.size - p.used).toNat))).readWait) (by rw [hrp]; exact hr)
    exact ⟨hwake.1, hwake.2, by rw [hwp]; exact hw⟩
  · split
    · exact ⟨h.refl, hr, hw⟩
    · split
      · exact ⟨h.refl, hr, hw⟩
      · have hblock := h.blockOn hw hself stopAt
        exact ⟨hblock.1, hr, hblock.2⟩

theorem Apart.pipeReadRound {p : Pipe} (h : Apart t k) (hr : ListAvoid p.readWait t)
    (hw : ListAvoid p.writeWait t) (hself : self ≠ t) (len : Nat) (dst : Mem)
    (readCnt : Nat) (timeout stopAt : UInt32) :
    Spares t k (pipeReadRound k p self len dst readCnt timeout stopAt).1
      ∧ ListAvoid (pipeReadRound k p self len dst readCnt timeout stopAt).2.1.readWait t
      ∧ ListAvoid (pipeReadRound k p self len dst readCnt timeout stopAt).2.1.writeWait t := by
  unfold VibeRtos.pipeReadRound
  dsimp only
  split
  · obtain ⟨hrp, hwp⟩ := pipePull_waits (min (len - readCnt) p.used.toNat) p dst readCnt
    have hwake := h.wakeHead
      (l := (pipePull (min (len - readCnt) p.used.toNat) p dst readCnt).1.writeWait)
      (by rw [hwp]; exact hw)
    exact ⟨hwake.1, by rw [hrp]; exact hr, hwake.2⟩
  · split
    · exact ⟨h.refl, hr, hw⟩
    · split
      · exact ⟨h.refl, hr, hw⟩
      · have hblock := h.blockOn hr hself stopAt
        exact ⟨hblock.1, hblock.2, hw⟩

/-! ## Events -/

theorem Apart.eventPostLoop (flags : UInt32) : ∀ (fuel : Nat) {k : Kernel} {l : VList Tid}
    {ctxs : EventCtxMem} {o : Option Tid}, Apart t k → ListAvoid l t → o ≠ some t →
    Spares t k (eventPostLoop flags fuel k l ctxs o).1
      ∧ ListAvoid (eventPostLoop flags fuel k l ctxs o).2.1 t
  | 0, _, _, _, _, h, hl, _ => ⟨h.refl, hl⟩
  | _ + 1, _, _, _, none, h, hl, _ => ⟨h.refl, hl⟩
  | fuel + 1, k, l, ctxs, some x, h, hl, hx => by
      have hxt : x ≠ t := fun he => hx (by rw [he])
      have hnext := (h.wait x hxt).2
      rw [VibeRtos.eventPostLoop]
      dsimp only
      split
      · exact Apart.eventPostLoop flags fuel h hl hnext
      · split
        · have hone := h.wakeOne hl hxt
          have hrest : ∀ ctxs, _ := fun ctxs =>
            @Apart.eventPostLoop flags fuel _ _ ctxs _ hone.1.1 hone.2 hnext
          exact ⟨hone.1.trans (hrest _).1, (hrest _).2⟩
        · exact Apart.eventPostLoop flags fuel h hl hnext

theorem Apart.eventPost {e : Event} (h : Apart t k) (hl : ListAvoid e.waitList t)
    (ctxs : EventCtxMem) (flags : UInt32) : Spares t k (eventPost k e ctxs flags).1
      ∧ ListAvoid (eventPost k e ctxs flags).2.1.waitList t :=
  Apart.eventPostLoop _ _ h hl hl.1

theorem Apart.eventWait {e : Event} (h : Apart t k) (hl : ListAvoid e.waitList t)
    (hself : self ≠ t) (ctxs : EventCtxMem) (flags : UInt32) (mode : EventWaitMode)
    (timeout : UInt32) : Spares t k (eventWait k e ctxs self flags mode timeout).1
      ∧ ListAvoid (eventWait k e ctxs self flags mode timeout).2.1.waitList t := by
  unfold VibeRtos.eventWait
  split
  · exact ⟨h.refl, hl⟩
  · split
    · exact ⟨h.refl, hl⟩
    · split
      · exact ⟨h.refl, hl⟩
      · exact h.blockOn hl hself _

end VibeRtos
