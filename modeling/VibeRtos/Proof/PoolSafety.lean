import VibeRtos.Lib.Runs
import VibeRtos.Proof.PoolBlocks

/-!
# The blocks of a pool under any scheduler

At any time a block is free, in flight, or in use. A thread that took a block is the only
one that has it until it returns it to its caller, so the `memset` it makes outside of the
section touches nobody else's block.
-/

namespace VibeRtos

open ByteMem SList Kernel Runs

namespace PoolSys

/-- Every block is free or allocated. -/
structure Partition (buffer : Nat) (blockSize numBlocks : UInt32) (s : PoolSys) : Prop where
  blocks : ∃ free, Blocks s.obj.mem s.obj.pool free s.obj.allocated
  buffer : s.obj.pool.blocks = buffer
  blockSize : s.obj.pool.blockSize = blockSize
  numBlocks : s.obj.pool.numBlocks = numBlocks
  /-- a block that is about to be cleared is in flight, -/
  flight : ∀ t b, s.pc t = .clearing b → b ∈ s.obj.flight
  /-- and only one thread has it -/
  single : ∀ t u b, s.pc t = .clearing b → s.pc u = .clearing b → t = u

/-- What the pool promises in a state. -/
structure Law (buffer : Nat) (blockSize numBlocks : UInt32) (s : PoolSys) : Prop where
  /-- the free list ends, holds no block twice, and is as long as the count says; free and
  allocated blocks are the blocks of the pool, each once -/
  blocks : ∃ free, Path (link s.obj.mem) (ptr s.obj.pool.freeList) free none ∧ free.Nodup
    ∧ s.obj.pool.freeCount.toNat = free.length
    ∧ (free ++ s.obj.allocated).Perm (blockStarts buffer blockSize numBlocks)
  distinct : (blockStarts buffer blockSize numBlocks).Nodup

/-- What a step does not do. -/
structure Kept (s : PoolSys) (l : PoolLabel) (s' : PoolSys) : Prop where
  /-- an alloc takes no block that is allocated -/
  fresh : ∀ t b, s'.pc t = .clearing b → s.pc t ≠ .clearing b → b ∉ s.obj.allocated
  /-- a block that stays allocated, or is allocated now, is not written by the pool, except that
  the alloc that returns it clears it -/
  untouched : ∀ b ∈ s'.obj.allocated, ∀ a, s.obj.pool.InBlock b a → s'.obj.mem a = s.obj.mem a
    ∨ (∃ x v, l = .act (.store x v))
    ∨ ∃ self, s.k.current = some self ∧ s.pc self = .clearing b ∧ l = .act .clear
      ∧ s'.obj.mem a = 0

variable {cfg : Config} {buffer : Nat} {bs n : UInt32} {s s' : PoolSys} {l : PoolLabel}
  {self : Tid} {r : Kernel × PoolObj × PoolPc}

/-- A section that does not go to the `memset` leaves nobody there who was not. -/
theorem not_clearing_after {t : Tid} {b : Nat} (hpc : r.2.2 ≠ .clearing b)
    (hold : s.pc t ≠ .clearing b) : (s.after self r).pc t ≠ .clearing b := by
  by_cases hts : t = self
  · subst hts
    rw [ObjectSys.after_pc_self]
    exact hpc
  · rw [ObjectSys.after_pc_of_ne _ _ hts]
    exact hold

/-- A section of a thread, as far as the blocks are concerned. -/
theorem Partition.after (h : s.Partition buffer bs n)
    (hblocks : ∃ free, Blocks r.2.1.mem r.2.1.pool free r.2.1.allocated)
    (hsame : r.2.1.pool.blocks = s.obj.pool.blocks ∧ r.2.1.pool.blockSize = s.obj.pool.blockSize
      ∧ r.2.1.pool.numBlocks = s.obj.pool.numBlocks)
    (hothers : ∀ t b, t ≠ self → s.pc t = .clearing b → b ∈ r.2.1.flight)
    (hself : ∀ b, r.2.2 = .clearing b → b ∈ r.2.1.flight ∧ ∀ t, s.pc t ≠ .clearing b) :
    Partition buffer bs n (s.after self r) := by
  refine ⟨hblocks, hsame.1.trans h.buffer, hsame.2.1.trans h.blockSize,
    hsame.2.2.trans h.numBlocks, fun t b ht => ?_, fun t u b ht hu => ?_⟩
  · by_cases hts : t = self
    · subst hts
      rw [ObjectSys.after_pc_self] at ht
      exact (hself b ht).1
    · rw [ObjectSys.after_pc_of_ne _ _ hts] at ht
      exact hothers t b hts ht
  · by_cases hts : t = self
    · by_cases hus : u = self
      · exact hts.trans hus.symm
      · subst hts
        rw [ObjectSys.after_pc_self] at ht
        rw [ObjectSys.after_pc_of_ne _ _ hus] at hu
        exact absurd hu ((hself b ht).2 u)
    · rw [ObjectSys.after_pc_of_ne _ _ hts] at ht
      by_cases hus : u = self
      · subst hus
        rw [ObjectSys.after_pc_self] at hu
        exact absurd ht ((hself b hu).2 t)
      · rw [ObjectSys.after_pc_of_ne _ _ hus] at hu
        exact h.single t u b ht hu

/-- A section that takes no block and writes nothing. -/
theorem Partition.still (h : s.Partition buffer bs n)
    (hobj : ∃ p w m,
    r.2.1 = { s.obj with pool := { s.obj.pool with waitList := p }, woken := w, nulls := m })
    (hpc : ∀ b, r.2.2 ≠ .clearing b) (l : PoolLabel) :
    Partition buffer bs n (s.after self r) ∧ s.Kept l (s.after self r) := by
  obtain ⟨p, w, m, hobj⟩ := hobj
  obtain ⟨free, hb⟩ := h.blocks
  refine ⟨h.after ?_ ?_ ?_ ?_, ⟨fun t b ht hnot => ?_, fun b hb a _ => Or.inl ?_⟩⟩
  · rw [hobj]
    exact ⟨free, ⟨hb.list, hb.count, hb.blocks, hb.size, hb.pos, hb.fits⟩⟩
  · rw [hobj]
    exact ⟨rfl, rfl, rfl⟩
  · intro t b _ ht
    rw [hobj]
    exact h.flight t b ht
  · exact fun b hr => absurd hr (hpc b)
  · exact absurd ht (not_clearing_after (hpc b) hnot)
  · show r.2.1.mem a = s.obj.mem a
    rw [hobj]

/-- A section that takes the first block. -/
theorem Partition.taking (h : s.Partition buffer bs n) (hne : s.obj.pool.freeList ≠ 0)
    (hobj : ∃ w m, r.2.1 = { s.obj with
      pool := s.obj.pool.take s.obj.mem
      flight := s.obj.pool.freeList :: s.obj.flight, woken := w, nulls := m })
    (hpc : r.2.2 = .clearing s.obj.pool.freeList) (l : PoolLabel) :
    Partition buffer bs n (s.after self r) ∧ s.Kept l (s.after self r) := by
  obtain ⟨w, m, hobj⟩ := hobj
  obtain ⟨free, hb⟩ := h.blocks
  obtain ⟨rest, rfl, hrest⟩ := hb.take hne
  have hnot : s.obj.pool.freeList ∉ s.obj.allocated := hb.not_alloc List.mem_cons_self
  refine ⟨h.after ?_ ?_ ?_ ?_, ⟨fun t b ht hold => ?_, fun b hb a _ => Or.inl ?_⟩⟩
  · rw [hobj]
    exact ⟨rest, hrest⟩
  · rw [hobj]
    exact ⟨rfl, rfl, rfl⟩
  · intro t b _ ht
    rw [hobj]
    exact List.mem_cons_of_mem _ (h.flight t b ht)
  · intro b hr
    obtain rfl : s.obj.pool.freeList = b := PoolPc.clearing.inj (hpc.symm.trans hr)
    rw [hobj]
    exact ⟨List.mem_cons_self, fun t ht => hnot (List.mem_append_left _ (h.flight t _ ht))⟩
  · by_cases hts : t = self
    · subst hts
      rw [ObjectSys.after_pc_self] at ht
      obtain rfl : s.obj.pool.freeList = b := PoolPc.clearing.inj (hpc.symm.trans ht)
      exact hnot
    · rw [ObjectSys.after_pc_of_ne _ _ hts] at ht
      exact absurd ht hold
  · show r.2.1.mem a = s.obj.mem a
    rw [hobj]

/-! ## The sections -/

theorem Partition.alloc (h : s.Partition buffer bs n) {timeout : UInt32} (hpc : s.pc self = .idle)
    (hr : poolThread s.k s.obj self (s.pc self) (.alloc timeout) = some r) (l : PoolLabel) :
    Partition buffer bs n (s.after self r) ∧ s.Kept l (s.after self r) := by
  rw [hpc] at hr
  obtain rfl := Option.some.inj hr
  by_cases hne : s.obj.pool.freeList ≠ 0
  · have hres : memPoolAlloc s.k s.obj.mem s.obj.pool self timeout
        = (s.k, s.obj.pool.take s.obj.mem, .done s.obj.pool.freeList) := if_pos hne
    refine h.taking hne ⟨s.obj.woken, s.obj.nulls, ?_⟩ ?_ l
    · simp only [hres, PoolObj.take, if_pos hne]
    · simp only [hres, PoolObj.take, if_pos hne]
  · by_cases ht : timeout = noWait
    · have hres : memPoolAlloc s.k s.obj.mem s.obj.pool self timeout
          = (s.k, s.obj.pool, .done 0) := by
        rw [memPoolAlloc, if_neg hne, if_pos ht]
      refine h.still ⟨s.obj.pool.waitList, s.obj.woken, s.obj.nulls, ?_⟩ ?_ l
      · simp [hres, PoolObj.take]
      · simp [hres, PoolObj.take]
    · refine h.still ⟨((s.k.block self (s.k.deadline timeout)).waitAppend s.obj.pool.waitList
        self).2, s.obj.woken, s.obj.nulls, ?_⟩ ?_ l
      · simp only [memPoolAlloc, if_neg hne, if_neg ht]
      · simp only [memPoolAlloc, if_neg hne, if_neg ht]
        simp

theorem Partition.retry (h : s.Partition buffer bs n) {timeout : UInt32}
    (hpc : s.pc self = .waiting timeout)
    (hr : poolThread s.k s.obj self (s.pc self) .retry = some r) (l : PoolLabel) :
    Partition buffer bs n (s.after self r) ∧ s.Kept l (s.after self r) := by
  rw [hpc] at hr
  obtain rfl := Option.some.inj hr
  by_cases hne : s.obj.pool.freeList ≠ 0
  · have hres : memPoolAllocRetry s.obj.mem s.obj.pool
        = (s.obj.pool.take s.obj.mem, s.obj.pool.freeList) := if_pos hne
    refine h.taking hne ⟨s.obj.woken.erase self, s.obj.nulls, ?_⟩ ?_ l
    · simp [hres, PoolObj.take, hne]
    · simp only [hres, PoolObj.take, if_pos hne]
  · have hres : memPoolAllocRetry s.obj.mem s.obj.pool = (s.obj.pool, 0) := if_neg hne
    refine h.still ⟨s.obj.pool.waitList, s.obj.woken.erase self,
      if timeout = waitForever then s.obj.nulls + 1 else s.obj.nulls, ?_⟩ ?_ l
    · simp [hres, PoolObj.take]
    · simp [hres, PoolObj.take]

/-- The `memset` writes the block of the thread that makes it. -/
theorem Partition.clear (h : s.Partition buffer bs n) {blk : Nat} (hself : s.k.current = some self)
    (hpc : s.pc self = .clearing blk)
    (hr : poolThread s.k s.obj self (s.pc self) .clear = some r) :
    Partition buffer bs n (s.after self r) ∧ s.Kept (.act .clear) (s.after self r) := by
  rw [hpc] at hr
  obtain rfl := Option.some.inj hr
  obtain ⟨free, hb⟩ := h.blocks
  have hin : blk ∈ s.obj.flight := h.flight self blk hpc
  have hall : blk ∈ s.obj.allocated := List.mem_append_left _ hin
  have hperm : (s.obj.flight.erase blk ++ blk :: s.obj.inUse).Perm s.obj.allocated := by
    refine List.perm_middle.trans ?_
    rw [PoolObj.allocated, ← List.cons_append]
    exact (List.perm_cons_erase hin).symm.append_right _
  refine ⟨h.after ⟨free, ?_⟩ ⟨rfl, rfl, rfl⟩ ?_ ?_, ⟨fun t b ht hold => ?_, fun b hbin a ha => ?_⟩⟩
  · exact (hb.write hall fun a ha => fill_frame ha).perm hperm.symm
  · intro t b hts ht
    have hne : b ≠ blk := fun he => hts (h.single t self b ht (by rw [hpc, he]))
    exact (List.mem_erase_of_ne hne).mpr (h.flight t b ht)
  · exact fun b hclear => absurd hclear (by simp)
  · exact absurd ht (not_clearing_after nofun hold)
  · have hbin' : b ∈ s.obj.allocated := hperm.mem_iff.mp hbin
    by_cases hbb : b = blk
    · subst hbb
      exact Or.inr (Or.inr ⟨self, hself, hpc, rfl, if_pos ha⟩)
    · have hapart := hb.apart (List.mem_append_right _ hbin') (List.mem_append_right _ hall) hbb
      obtain ⟨hlow, hhigh⟩ := ha
      exact Or.inl (fill_frame (by omega))

theorem Partition.free (h : s.Partition buffer bs n) {ptr : Nat} (hpc : s.pc self = .idle)
    (hr : poolThread s.k s.obj self (s.pc self) (.free ptr) = some r) :
    Partition buffer bs n (s.after self r) ∧ s.Kept (.act (.free ptr)) (s.after self r) := by
  rw [hpc] at hr
  rcases poolThread_free hr with ⟨-, rfl⟩ | ⟨-, hin, rfl⟩
  · exact h.still ⟨s.obj.pool.waitList, s.obj.woken, s.obj.nulls, rfl⟩ (by simp) _
  · obtain ⟨free, hb⟩ := h.blocks
    have hall : ptr ∈ s.obj.allocated := List.mem_append_right _ hin
    have hperm : s.obj.allocated.Perm (ptr :: (s.obj.flight ++ s.obj.inUse.erase ptr)) :=
      ((List.perm_cons_erase hin).append_left _).trans List.perm_middle
    have hgive := hb.give hall hperm
    have hnot : ptr ∉ s.obj.flight ++ s.obj.inUse.erase ptr := fun hin' =>
      hgive.not_alloc List.mem_cons_self hin'
    refine ⟨h.after ⟨ptr :: free, ⟨hgive.list, hgive.count, hgive.blocks, hgive.size, hgive.pos,
      hgive.fits⟩⟩ ⟨rfl, rfl, rfl⟩ ?_ ?_, ⟨fun t b ht hold => ?_, fun b hbin a ha => Or.inl ?_⟩⟩
    · exact fun t b _ ht => h.flight t b ht
    · exact fun b hclear => absurd hclear (by simp)
    · exact absurd ht (not_clearing_after nofun hold)
    · -- the link goes into the block that is given back
      have hbin' : b ∈ s.obj.allocated := hperm.mem_iff.mpr (List.mem_cons_of_mem _ hbin)
      have hne : b ≠ ptr := fun he => hnot (he ▸ hbin)
      have hapart := hb.apart (List.mem_append_right _ hbin') (List.mem_append_right _ hall) hne
      have hsize := hb.size
      obtain ⟨hlow, hhigh⟩ := ha
      exact write32_frame (by omega)

theorem Partition.store (h : s.Partition buffer bs n) {x : Nat} {v : UInt8}
    (hpc : s.pc self = .idle)
    (hr : poolThread s.k s.obj self (s.pc self) (.store x v) = some r) :
    Partition buffer bs n (s.after self r) ∧ s.Kept (.act (.store x v)) (s.after self r) := by
  rw [hpc] at hr
  obtain ⟨⟨b, hbin, hx⟩, hr⟩ := Option.ite_none_right_eq_some.mp hr
  obtain rfl := Option.some.inj hr
  obtain ⟨free, hb⟩ := h.blocks
  refine ⟨h.after ⟨free, ?_⟩ ⟨rfl, rfl, rfl⟩ ?_ ?_, ⟨fun t c ht hold => ?_, fun _ _ _ _ =>
    Or.inr (Or.inl ⟨x, v, rfl⟩)⟩⟩
  · refine hb.write (List.mem_append_right _ hbin) fun a ha => ?_
    obtain ⟨hlow, hhigh⟩ := hx
    exact Function.update_of_ne (by omega) _ _
  · exact fun t c _ ht => h.flight t c ht
  · exact fun c hclear => absurd hclear (by simp)
  · exact absurd ht (not_clearing_after nofun hold)

/-! ## Steps and runs -/

/-- **Every step keeps the partition.** -/
theorem Partition.step (h : s.Partition buffer bs n) (hs : s.step cfg l = some s') :
    s'.Partition buffer bs n ∧ s.Kept l s' := by
  have hkernel : ∀ k', Partition buffer bs n { s with k := k' } ∧ s.Kept l { s with k := k' } :=
    fun k' => ⟨⟨h.blocks, h.buffer, h.blockSize, h.numBlocks, h.flight, h.single⟩,
      ⟨fun t b ht hold => absurd ht hold, fun _ _ _ _ => Or.inl rfl⟩⟩
  cases l with
  | dispatch t =>
      obtain ⟨-, rfl⟩ := ObjectSys.dispatch_eq_some hs
      exact hkernel _
  | tick =>
      obtain rfl := Option.some.inj hs
      exact hkernel _
  | isr i => exact i.elim
  | act a =>
      obtain ⟨self, r, hself, -, hr, rfl⟩ := ObjectSys.act_eq_some hs
      change poolThread s.k s.obj self (s.pc self) a = some r at hr
      cases hpc : s.pc self with
      | idle =>
          cases a with
          | alloc timeout => exact h.alloc hpc hr _
          | free ptr => exact h.free hpc hr
          | store x v => exact h.store hpc hr
          | retry | clear =>
              rw [hpc] at hr
              exact absurd hr (by simp [poolThread])
      | waiting timeout =>
          cases a with
          | retry => exact h.retry hpc hr _
          | _ =>
              rw [hpc] at hr
              exact absurd hr (by simp [poolThread])
      | clearing blk =>
          cases a with
          | clear => exact h.clear hself hpc hr
          | _ =>
              rw [hpc] at hr
              exact absurd hr (by simp [poolThread])

theorem Initial.partition (h : s.Initial buffer bs n) (hbs : 4 ≤ bs.toNat) :
    s.Partition buffer bs n := by
  obtain ⟨mem, hinit⟩ := h.pool
  have hfits := h.fits
  rw [Nat.max_eq_right hbs] at hfits
  obtain ⟨hb, hbuffer, hsize, hnum, -⟩ := memPoolInit_blocks hbs hfits hinit
  refine ⟨⟨blockStarts buffer bs n, ?_⟩, hbuffer, hsize, hnum, fun t b ht => ?_,
    fun t u b ht _ => ?_⟩
  · rw [PoolObj.allocated, h.flight, h.inUse]
    exact hb
  all_goals
    rw [h.pc t] at ht
    exact absurd ht (by simp)

theorem Partition.law (h : s.Partition buffer bs n) : s.Law buffer bs n := by
  obtain ⟨free, hb⟩ := h.blocks
  have hstarts : blockStarts s.obj.pool.blocks s.obj.pool.blockSize s.obj.pool.numBlocks
      = blockStarts buffer bs n := by
    rw [h.buffer, h.blockSize, h.numBlocks]
  have hnodup := hb.blocks.nodup_iff.mp hb.nodup
  rw [hstarts] at hnodup
  refine ⟨⟨free, hb.list, (List.nodup_append.mp hb.nodup).1, hb.count, ?_⟩, hnodup⟩
  rw [← hstarts]
  exact hb.blocks

end PoolSys

/--
**The blocks of a memory pool.**

From `vibe_mem_pool_init` on, under any interleaving of allocs, frees and stores by any
threads: the free list and the allocated blocks are the blocks of the pool, each once, no
alloc takes a block that is allocated, and the pool writes into no allocated block, except
that the alloc that returns it clears it.
-/
theorem pool_partition {cfg : Config} {buffer : Nat} {bs n : UInt32} {s s' : PoolSys}
    {labels : List PoolLabel} (h : s.Initial buffer bs n) (hbs : 4 ≤ bs.toNat)
    (hr : run (PoolSys.step cfg) s labels = some s') :
    s'.Law buffer bs n ∧ ∀ l s'', s'.step cfg l = some s'' → s'.Kept l s'' := by
  have hinv : s'.Partition buffer bs n :=
    run_invariant (P := fun s => PoolSys.Partition buffer bs n s)
      (fun _ _ _ hi hs => (hi.step hs).1) (h.partition hbs) hr
  exact ⟨hinv.law, fun l s'' hs => (hinv.step hs).2⟩

/-- READY threads and a new pool of two blocks of eight bytes. -/
def poolReady (cfg : Config) : PoolSys where
  k := Kernel.bss cfg (fun _ => { threadDefine [] 512 0 0 0 5 with state := .ready }) none
  obj :=
    let r := (memPoolInit (fun _ => 7) 0x2000 8 2).getD (fun _ => 0, ⟨0, 0, 0, 0, 0, listInit⟩)
    ⟨r.1, r.2, [], [], [], 0⟩
  pc := fun _ => .idle

theorem poolReady_initial (cfg : Config) : (poolReady cfg).Initial 0x2000 8 2 :=
  ⟨⟨fun _ => 7, rfl⟩, by decide, rfl, rfl, rfl, rfl, fun _ => rfl, rfl⟩

/-- Thread 1 has taken a block and not cleared it yet when thread 2 takes the other one, frees
it, and thread 3 takes it again. -/
theorem pool_partition_in_flight : ∃ s', run (PoolSys.step ⟨1000, 10, true⟩)
      (poolReady ⟨1000, 10, true⟩)
      [.dispatch 1, .act (.alloc noWait), .dispatch 2, .act (.alloc noWait), .act .clear,
        .act (.store 0x2009 1), .act (.free 0x2008), .dispatch 3, .act (.alloc noWait)] = some s'
    ∧ s'.obj.allocated = [0x2008, 0x2000] ∧ s'.Law 0x2000 8 2
    ∧ ∀ l s'', s'.step ⟨1000, 10, true⟩ l = some s'' → s'.Kept l s'' := by
  obtain ⟨s', hrun, hall⟩ : ∃ s', run (PoolSys.step ⟨1000, 10, true⟩)
      (poolReady ⟨1000, 10, true⟩)
      [.dispatch 1, .act (.alloc noWait), .dispatch 2, .act (.alloc noWait), .act .clear,
        .act (.store 0x2009 1), .act (.free 0x2008), .dispatch 3, .act (.alloc noWait)] = some s'
      ∧ s'.obj.allocated = [0x2008, 0x2000] := Option.map_eq_some_iff.mp (by decide +kernel)
  exact ⟨s', hrun, hall, pool_partition (poolReady_initial _) (by decide) hrun⟩

end VibeRtos
