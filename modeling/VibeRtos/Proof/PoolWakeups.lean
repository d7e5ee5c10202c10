import VibeRtos.Lib.Chan
import VibeRtos.Proof.MsgqFifo
import VibeRtos.Proof.Parked
import VibeRtos.Proof.PoolSafety

/-!
# No wake-up at a memory pool is lost

The pool is a channel of `Chan` whose units are the free blocks: a free puts one and
wakes a reader, an alloc takes one, and nobody waits for room. Nobody else wakes, yet
none is needed: while threads wait, a woken thread is on its way for every free block,
whoever takes the blocks in the meantime.
-/

namespace VibeRtos

open ByteMem Kernel Runs

namespace PoolSys

/-- The pool as a channel of blocks. -/
def chan (s : PoolSys) : Chan Tid where
  cap := s.obj.pool.numBlocks.toNat
  used := s.obj.pool.freeCount.toNat
  readers := s.waiters
  writers := []
  woken := s.obj.woken

/-- The thread is inside an alloc that found no block. -/
def Waiting (s : PoolSys) (t : Tid) : Prop := ∃ timeout, s.pc t = .waiting timeout

/-- What a section of a thread is to the channel. -/
def opOf (s : PoolSys) (self : Tid) : PoolPc → PoolAct → Chan.Op Tid
  | .idle, .alloc timeout =>
      if s.obj.pool.freeList ≠ 0 then .take self 1 false
      else if timeout = noWait then .leave self else .waitRead self
  | .waiting _, .retry => if s.obj.pool.freeList ≠ 0 then .take self 1 false else .leave self
  | .idle, .free ptr =>
      if (memPoolFree s.k s.obj.mem s.obj.pool ptr).2.2.2 = .done .einval then .leave self
      else .put self 1 true
  | _, _ => .leave self

/-- The wait list of the pool, and where the threads are. -/
structure Queue (s : PoolSys) : Prop where
  waiters : Parked s.k s.obj.pool.waitList s.waiters
  /-- a thread that waits is on the wait list, or woken -/
  account : s.chan.Accounted s.Waiting
  earmarked : s.chan.Earmarked
  sleep : s.k.sleepList.head = none

/-- The pool at any time. -/
structure Inv (buffer : Nat) (blockSize numBlocks : UInt32) (s : PoolSys) : Prop where
  partition : s.Partition buffer blockSize numBlocks
  queue : s.Queue

variable {cfg : Config} {buffer : Nat} {bs n : UInt32} {s s' : PoolSys} {l : PoolLabel}
  {self : Tid} {r : Kernel × PoolObj × PoolPc}

theorem Inv.freeList_eq_zero (h : s.Inv buffer bs n) :
    s.obj.pool.freeList = 0 ↔ s.obj.pool.freeCount = 0 := by
  obtain ⟨free, hb⟩ := h.partition.blocks
  exact hb.freeList_eq_zero

/-- The kernel's own steps leave the pool alone. -/
theorem Queue.kernel {k' : Kernel} (h : s.Queue) (hw : Parked k' s.obj.pool.waitList s.waiters)
    (hsleep : k'.sleepList.head = none) :
    Queue { s with k := k' } ∧ PoolSys.chan { s with k := k' } = s.chan := by
  have hw' : PoolSys.waiters { s with k := k' } = s.waiters := hw.nodes
  have hc : PoolSys.chan { s with k := k' } = s.chan := by rw [chan, hw', chan]
  refine ⟨⟨?_, ?_, ?_, hsleep⟩, hc⟩
  · rw [hw']
    exact hw
  · rw [hc]
    exact h.account
  · rw [hc]
    exact h.earmarked

/-- A section keeps the wait list in order and is the operation it should be. -/
def Performs (s : PoolSys) (self : Tid) (a : PoolAct) (r : Kernel × PoolObj × PoolPc) : Prop :=
  PoolSys.Queue (s.after self r)
    ∧ PoolSys.chan (s.after self r) = s.chan.exec (s.opOf self (s.pc self) a)

/-- A section of the current thread, as an operation on the channel. -/
theorem Queue.exec {op : Chan.Op Tid} {a : PoolAct} (h : s.Queue)
    (hact : (s.k.thr self).state.Active) (hself : op.self = self)
    (hop : s.opOf self (s.pc self) a = op) (hone : s.chan.Single op)
    (hw : Parked r.1 r.2.1.pool.waitList (s.chan.exec op).readers)
    (hwoken : r.2.1.woken = (s.chan.exec op).woken) (hwriters : (s.chan.exec op).writers = [])
    (hfree : r.2.1.pool.freeCount.toNat = (s.chan.exec op).used)
    (hnum : r.2.1.pool.numBlocks = s.obj.pool.numBlocks)
    (hpc : (∃ timeout, r.2.2 = .waiting timeout) ↔ op.Parks)
    (hsleep : r.1.sleepList = s.k.sleepList) : s.Performs self a r := by
  have hwaiters : PoolSys.waiters (s.after self r) = (s.chan.exec op).readers := hw.nodes
  have hc : PoolSys.chan (s.after self r) = s.chan.exec op := by
    have hcap : (s.chan.exec op).cap = s.chan.cap := by cases op <;> rfl
    rw [chan, hwaiters, ← hwriters]
    show (⟨r.2.1.pool.numBlocks.toNat, r.2.1.pool.freeCount.toNat, _, _, r.2.1.woken⟩ : Chan Tid) =
      _
    rw [hwoken, hfree, hnum]
    show (⟨s.chan.cap, _, _, _, _⟩ : Chan Tid) = _
    rw [← hcap]
  rw [Performs, hop]
  refine ⟨⟨?_, ?_, ?_, by rw [← h.sleep, ← hsleep]; rfl⟩, hc⟩
  · rw [hwaiters]
    exact hw
  · rw [hc]
    refine h.account.exec hself (h.waiters.not_mem hact) List.not_mem_nil ?_ ?_
    · intro t ht
      rw [Waiting, ObjectSys.after_pc_of_ne _ _ ht, Waiting]
    · rw [Waiting, ObjectSys.after_pc_self]
      exact hpc
  · rw [hc]
    exact h.earmarked.exec hone

/-- A thread in its own code is not woken. -/
theorem Queue.not_woken (h : s.Queue) (hpc : ∀ timeout, s.pc self ≠ .waiting timeout) :
    self ∉ s.obj.woken := by
  intro hw
  obtain ⟨⟨timeout, ht⟩, -⟩ := (h.account.woken self).mp hw
  exact hpc timeout ht

/-- A section that leaves the wait list, the count and the woken threads alone. -/
theorem Queue.still {a : PoolAct} (h : s.Queue) (hact : (s.k.thr self).state.Active)
    (hop : s.opOf self (s.pc self) a = .leave self) (hpc : ∀ timeout, s.pc self ≠ .waiting timeout)
    (hk : r.1 = s.k) (hpool : r.2.1.pool = s.obj.pool) (hwoken : r.2.1.woken = s.obj.woken)
    (hafter : ∀ timeout, r.2.2 ≠ .waiting timeout) : s.Performs self a r := by
  have hnot := h.not_woken hpc
  refine h.exec hact rfl hop (fun hin => absurd hin hnot) ?_ ?_ rfl ?_ ?_
    ⟨fun ⟨timeout, ht⟩ => hafter timeout ht, False.elim⟩ ?_
  · rw [hk, hpool]
    exact h.waiters
  · rw [hwoken]
    exact (List.erase_of_not_mem hnot).symm
  · rw [hpool]
    rfl
  · rw [hpool]
  · rw [hk]

/-! ## The sections -/

/-- A block is taken, by a thread that was woken or not. -/
theorem Queue.taking {a : PoolAct} (h : s.Queue) (hact : (s.k.thr self).state.Active)
    (hop : s.opOf self (s.pc self) a = .take self 1 false) (hne : s.obj.pool.freeCount ≠ 0)
    (hk : r.1 = s.k)
    (hpool : r.2.1.pool = s.obj.pool.take s.obj.mem)
    (hwoken : r.2.1.woken = s.obj.woken.erase self)
    (hafter : ∀ timeout, r.2.2 ≠ .waiting timeout) : s.Performs self a r := by
  have hpos : s.obj.pool.freeCount > 0 := UInt32.pos_iff_ne_zero.mpr hne
  refine h.exec hact rfl hop rfl ?_ ?_ rfl ?_ ?_
    ⟨fun ⟨timeout, ht⟩ => hafter timeout ht, False.elim⟩ ?_
  · rw [hk, hpool]
    exact h.waiters
  · rw [hwoken]
    exact (List.append_nil _).symm
  · rw [hpool]
    exact toNat_pred hpos
  · rw [hpool]
    rfl
  · rw [hk]

theorem Queue.alloc (h : s.Queue) (hfree : s.obj.pool.freeList = 0 ↔ s.obj.pool.freeCount = 0)
    {timeout : UInt32} (hact : (s.k.thr self).state.Active) (hpc : s.pc self = .idle)
    (hr : poolThread s.k s.obj self (s.pc self) (.alloc timeout) = some r) :
    s.Performs self (.alloc timeout) r := by
  have hidle : ∀ timeout, s.pc self ≠ .waiting timeout := fun _ => by simp [hpc]
  have hnot := h.not_woken hidle
  rw [hpc] at hr
  obtain rfl := Option.some.inj hr
  by_cases hne : s.obj.pool.freeList ≠ 0
  · have hres : memPoolAlloc s.k s.obj.mem s.obj.pool self timeout
        = (s.k, s.obj.pool.take s.obj.mem, .done s.obj.pool.freeList) := if_pos hne
    refine h.taking hact (by simp [opOf, hpc, hne]) (fun h0 => hne (hfree.mpr h0)) ?_ ?_ ?_ ?_
    · simp only [hres]
    · simp only [hres, PoolObj.take, if_pos hne]
    · simp only [hres, PoolObj.take, if_pos hne]
      exact (List.erase_of_not_mem hnot).symm
    · simp [hres, PoolObj.take, if_pos hne]
  · have hempty : s.obj.pool.freeCount = 0 := hfree.mp (not_not.mp hne)
    by_cases ht : timeout = noWait
    · have hres : memPoolAlloc s.k s.obj.mem s.obj.pool self timeout
          = (s.k, s.obj.pool, .done 0) := by
        rw [memPoolAlloc, if_neg hne, if_pos ht]
      refine h.still hact (by simp [opOf, hpc, hne, ht]) hidle ?_ ?_ ?_ ?_
      all_goals simp [hres, PoolObj.take]
    · have hres : memPoolAlloc s.k s.obj.mem s.obj.pool self timeout
          = (((s.k.block self (s.k.deadline timeout)).waitAppend s.obj.pool.waitList self).1,
            { s.obj.pool with waitList :=
                ((s.k.block self (s.k.deadline timeout)).waitAppend s.obj.pool.waitList self).2 },
            .block) := by
        rw [memPoolAlloc, if_neg hne, if_neg ht]
      rw [hres]
      have hone : s.chan.Single (.waitRead self) := by
        show s.obj.pool.freeCount.toNat = 0
        rw [hempty]
        rfl
      exact h.exec hact rfl (by simp [opOf, hpc, hne, ht]) hone
        (h.waiters.park (h.waiters.not_mem hact) _)
        (List.erase_of_not_mem hnot).symm rfl rfl rfl
          ⟨fun _ => trivial, fun _ => ⟨timeout, rfl⟩⟩ rfl

theorem Queue.retry (h : s.Queue) (hfree : s.obj.pool.freeList = 0 ↔ s.obj.pool.freeCount = 0)
    {timeout : UInt32} (hact : (s.k.thr self).state.Active) (hpc : s.pc self = .waiting timeout)
    (hr : poolThread s.k s.obj self (s.pc self) .retry = some r) :
    s.Performs self .retry r := by
  rw [hpc] at hr
  obtain rfl := Option.some.inj hr
  by_cases hne : s.obj.pool.freeList ≠ 0
  · have hres : memPoolAllocRetry s.obj.mem s.obj.pool
        = (s.obj.pool.take s.obj.mem, s.obj.pool.freeList) := if_pos hne
    refine h.taking hact (by simp [opOf, hpc, hne]) (fun h0 => hne (hfree.mpr h0)) rfl ?_ ?_ ?_
    all_goals simp [hres, PoolObj.take, hne]
  · -- somebody else was faster
    have hempty : s.obj.pool.freeCount = 0 := hfree.mp (not_not.mp hne)
    have hres : memPoolAllocRetry s.obj.mem s.obj.pool = (s.obj.pool, 0) := if_neg hne
    have hone : s.chan.Single (.leave self) := fun _ => by
      show s.obj.pool.freeCount.toNat = 0
      rw [hempty]
      rfl
    have hop : s.opOf self (s.pc self) .retry = .leave self := by
      simp only [opOf, hpc, hne, if_false]
    refine h.exec hact rfl hop hone ?_ ?_ rfl ?_ ?_ ⟨?_, False.elim⟩ rfl
    · simp only [hres, PoolObj.take, ne_eq, not_true_eq_false, if_false]
      exact h.waiters
    · simp only [hres, PoolObj.take, ne_eq, not_true_eq_false, if_false]
      rfl
    · simp only [hres, PoolObj.take, ne_eq, not_true_eq_false, if_false]
      rfl
    · simp only [hres, PoolObj.take, ne_eq, not_true_eq_false, if_false]
    · simp [hres, PoolObj.take]

/-- While a block is allocated, not all of them are free. -/
theorem Partition.room (h : s.Partition buffer bs n) {b : Nat} (hb : b ∈ s.obj.allocated) :
    s.obj.pool.freeCount < s.obj.pool.numBlocks := by
  obtain ⟨free, hblocks⟩ := h.blocks
  have hlen := hblocks.length
  have hpos : 0 < s.obj.allocated.length := List.length_pos_of_mem hb
  have hcount := hblocks.count
  exact UInt32.lt_iff_toNat_lt.mpr (by omega)

theorem Queue.free (h : s.Queue) (hp : s.Partition buffer bs n) {ptr : Nat}
    (hact : (s.k.thr self).state.Active) (hpc : s.pc self = .idle)
    (hr : poolThread s.k s.obj self (s.pc self) (.free ptr) = some r) :
    s.Performs self (.free ptr) r := by
  have hidle : ∀ timeout, s.pc self ≠ .waiting timeout := fun _ => by simp [hpc]
  have hnot := h.not_woken hidle
  rw [hpc] at hr
  rcases poolThread_free hr with ⟨hres, rfl⟩ | ⟨hres, hin, rfl⟩
  · exact h.still hact (by simp [opOf, hpc, hres]) hidle rfl rfl rfl (by simp)
  · have hroom := hp.room (List.mem_append_right _ hin)
    have hop : s.opOf self (s.pc self) (.free ptr) = .put self 1 true := by
      simp [opOf, hpc, hres]
    refine h.exec hact rfl hop ⟨rfl, rfl, hnot⟩ (h.waiters.wakeHead).1 ?_ rfl
      (toNat_succ hroom) rfl ⟨fun ⟨_, ht⟩ => absurd ht (by simp), False.elim⟩
      (h.waiters.wakeHead).2.2.2
    show s.obj.woken ++ s.obj.pool.waitList.head.toList = s.obj.woken.erase self ++ _
    rw [List.erase_of_not_mem hnot, h.waiters.rep.head]
    rfl

/-! ## Steps and runs -/

/-- **A section of the current thread is the operation it should be.** -/
theorem Inv.act {a : PoolAct} (h : s.Inv buffer bs n) (hact : (s.k.thr self).state.Active)
    (hr : poolThread s.k s.obj self (s.pc self) a = some r) : s.Performs self a r := by
  have hq := h.queue
  cases hpc : s.pc self with
  | idle =>
      cases a with
      | alloc timeout => exact hq.alloc h.freeList_eq_zero hact hpc hr
      | free ptr => exact hq.free h.partition hact hpc hr
      | store x v =>
          rw [hpc] at hr
          obtain ⟨-, hr⟩ := Option.ite_none_right_eq_some.mp hr
          obtain rfl := Option.some.inj hr
          exact hq.still hact (by simp [opOf, hpc]) (by simp [hpc]) rfl rfl rfl (by simp)
      | retry | clear =>
          rw [hpc] at hr
          exact absurd hr (by simp [poolThread])
  | waiting timeout =>
      cases a with
      | retry => exact hq.retry h.freeList_eq_zero hact hpc hr
      | _ =>
          rw [hpc] at hr
          exact absurd hr (by simp [poolThread])
  | clearing blk =>
      cases a with
      | clear =>
          rw [hpc] at hr
          obtain rfl := Option.some.inj hr
          exact hq.still hact (by simp [opOf, hpc]) (by simp [hpc]) rfl rfl rfl (by simp)
      | _ =>
          rw [hpc] at hr
          exact absurd hr (by simp [poolThread])

/-- The steps that are no thread's leave the pool alone. -/
theorem Queue.outside (h : s.Queue) (hl : ∀ a, l ≠ .act a) (hs : s.step cfg l = some s') :
    s'.Queue ∧ s'.chan = s.chan ∧ s'.pc = s.pc ∧ s'.obj = s.obj := by
  cases l with
  | dispatch t =>
      obtain ⟨hready, rfl⟩ := ObjectSys.dispatch_eq_some hs
      have hsleep := switchTo_asleep t h.sleep
      obtain ⟨hq, hc⟩ := h.kernel (h.waiters.switchTo hready) hsleep
      exact ⟨hq, hc, rfl, rfl⟩
  | tick =>
      obtain rfl := Option.some.inj hs
      have hsleep := tickSection_asleep cfg h.sleep
      obtain ⟨hq, hc⟩ := h.kernel (h.waiters.tickSection cfg h.sleep) hsleep
      exact ⟨hq, hc, rfl, rfl⟩
  | isr i => exact i.elim
  | act a => exact absurd rfl (hl a)

/-- **Every step keeps the invariant.** -/
theorem Inv.step (h : s.Inv buffer bs n) (hs : s.step cfg l = some s') : s'.Inv buffer bs n := by
  refine ⟨(h.partition.step hs).1, ?_⟩
  cases l with
  | act a =>
      obtain ⟨self, r, -, hact, hr, rfl⟩ := ObjectSys.act_eq_some hs
      exact (h.act hact hr).1
  | dispatch t => exact (h.queue.outside (by simp) hs).1
  | tick => exact (h.queue.outside (by simp) hs).1
  | isr i => exact i.elim

/-- A block size below a pointer's is rounded up, so some size is large enough. -/
theorem Initial.rounded (h : s.Initial buffer bs n) :
    ∃ bs', 4 ≤ bs'.toNat ∧ s.Initial buffer bs' n := by
  by_cases hbs : bs < 4
  · obtain ⟨mem, hinit⟩ := h.pool
    have hlt := UInt32.lt_iff_toNat_lt.mp hbs
    have hfits := h.fits
    have hfour : (4 : UInt32).toNat = 4 := rfl
    rw [hfour] at hlt
    refine ⟨4, le_rfl, ⟨⟨mem, ?_⟩, ?_, h.woken, h.flight, h.inUse, h.nulls, h.pc, h.sleep⟩⟩
    · unfold memPoolInit at hinit ⊢
      split at hinit
      · exact absurd hinit (by simp)
      · rename_i hok
        have hok' : ¬ (buffer = 0 ∨ (4 : UInt32) = 0 ∨ n = 0) := by
          rintro (hz | hz | hz)
          · exact hok (Or.inl hz)
          · exact absurd hz (by decide)
          · exact hok (Or.inr (Or.inr hz))
        rw [if_neg hok', ← hinit]
        rfl
    · rw [Nat.max_eq_left (by omega)] at hfits
      exact hfits
  · exact ⟨bs, UInt32.le_iff_toNat_le.mp (UInt32.not_lt.mp hbs), h⟩

theorem Initial.inv (h : s.Initial buffer bs n) : ∃ bs', s.Inv buffer bs' n := by
  obtain ⟨bs', hbs, h'⟩ := h.rounded
  obtain ⟨mem, hinit⟩ := h.pool
  have hwait : s.obj.pool.waitList = listInit := by
    unfold memPoolInit at hinit
    split at hinit
    · exact absurd hinit (by simp)
    · rw [← (Prod.mk.inj (Option.some.inj hinit)).2]
  have hparked := parked_init s.k
  have hw : s.waiters = [] := by rw [PoolSys.waiters, hwait, hparked.nodes]
  refine ⟨bs', h'.partition hbs, ⟨?_, ?_, fun hne => absurd hw hne, h.sleep⟩⟩
  · rw [hw, hwait]
    exact hparked
  · constructor <;> simp [chan, hw, h.woken, h.pc, Waiting]

theorem Queue.noLostWakeup (h : s.Queue) : s.NoLostWakeup := by
  refine ⟨fun t => ?_, h.account.once, h.earmarked, fun hne hnone => ?_⟩
  · have hin := h.account.woken t
    simpa [chan, Waiting] using hin
  · have hle := h.earmarked hne
    have hzero : s.obj.pool.freeCount.toNat ≤ 0 := by
      have hlen : s.chan.woken.length = 0 := List.length_eq_zero_iff.mpr hnone
      rw [hlen] at hle
      exact hle
    exact UInt32.toNat_inj.mp (Nat.le_zero.mp hzero)

end PoolSys

/--
**No wake-up at a memory pool is lost.**

From `vibe_mem_pool_init` on, under any interleaving of allocs and frees by any threads:
while threads are on the wait list, there are at most as many free blocks as threads that
a free took off it and that have still to retry.
-/
theorem pool_no_lost_wakeup {cfg : Config} {buffer : Nat} {bs n : UInt32} {s s' : PoolSys}
    {labels : List PoolLabel} (h : s.Initial buffer bs n)
    (hr : run (PoolSys.step cfg) s labels = some s') : s'.NoLostWakeup := by
  obtain ⟨bs', hinv⟩ := h.inv
  exact (run_invariant (P := fun s => PoolSys.Inv buffer bs' n s) (fun _ _ _ hi hs => hi.step hs)
    hinv hr).queue.noLostWakeup

/-- Threads 3 and 4 wait for a block; thread 2 frees one, which wakes thread 3, and takes it again
before thread 3 retries. -/
theorem pool_no_lost_wakeup_stolen : ∃ s', run (PoolSys.step ⟨1000, 10, true⟩)
      (poolReady ⟨1000, 10, true⟩)
      [.dispatch 1, .act (.alloc noWait), .act .clear, .dispatch 2, .act (.alloc noWait),
        .act .clear, .dispatch 3, .act (.alloc waitForever), .dispatch 4,
        .act (.alloc waitForever), .dispatch 2, .act (.free 0x2008), .act (.alloc noWait)] = some s'
    ∧ s'.waiters = [4] ∧ s'.obj.woken = [3] ∧ s'.NoLostWakeup := by
  obtain ⟨s', hrun, hall⟩ : ∃ s', run (PoolSys.step ⟨1000, 10, true⟩)
      (poolReady ⟨1000, 10, true⟩)
      [.dispatch 1, .act (.alloc noWait), .act .clear, .dispatch 2, .act (.alloc noWait),
        .act .clear, .dispatch 3, .act (.alloc waitForever), .dispatch 4,
        .act (.alloc waitForever), .dispatch 2, .act (.free 0x2008), .act (.alloc noWait)] = some s'
      ∧ (s'.waiters, s'.obj.woken) = ([4], [3]) := Option.map_eq_some_iff.mp (by decide +kernel)
  simp only [Prod.mk.injEq] at hall
  exact ⟨s', hrun, hall.1, hall.2, pool_no_lost_wakeup (poolReady_initial _) hrun⟩

end VibeRtos
