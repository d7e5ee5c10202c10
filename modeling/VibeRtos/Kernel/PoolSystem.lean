import VibeRtos.Kernel.ObjectSystem
import VibeRtos.Kernel.MemPool

/-!
# A memory pool under any scheduler

Any number of threads allocate and free blocks of one pool, and store into the blocks
they were given. A block is cleared in a step of its own, after the section that takes it
off the free list, so it may be in flight while other threads use the pool.
-/

namespace VibeRtos

open Kernel ByteMem

/-- Where a thread is in `vibe_mem_pool_alloc`. -/
inductive PoolPc where
  /-- in its own code -/
  | idle
  /-- blocked, or in front of the retry section -/
  | waiting (timeout : UInt32)
  /-- in front of the `memset` of the block it took -/
  | clearing (blk : Nat)
  deriving DecidableEq

/-- The pool and the memory, and a record of who has what. -/
structure PoolObj where
  mem : Mem
  pool : MemPool
  /-- the threads taken off the wait list whose retry section is still to run -/
  woken : List Tid
  /-- the blocks taken off the free list that no alloc has returned yet -/
  flight : List Nat
  /-- the blocks that allocs have returned -/
  inUse : List Nat
  /-- the allocs with `VIBE_WAIT_FOREVER` that returned `NULL` -/
  nulls : Nat

/-- The blocks that are allocated. -/
def PoolObj.allocated (o : PoolObj) : List Nat := o.flight ++ o.inUse

/-- The byte at `a` belongs to the block `b`. -/
def MemPool.InBlock (p : MemPool) (b a : Nat) : Prop := b ≤ a ∧ a < b + p.blockSize.toNat

instance (p : MemPool) (b a : Nat) : Decidable (p.InBlock b a) :=
  inferInstanceAs (Decidable (_ ∧ _))

/-- The sections of the two calls, the `memset`, and the stores of a thread. -/
inductive PoolAct where
  | alloc (timeout : UInt32)
  | retry
  | clear
  | free (ptr : Nat)
  /-- a store into a block in use -/
  | store (a : Nat) (v : UInt8)

/-- A block is taken, or there was none. -/
def PoolObj.take (o : PoolObj) (p : MemPool) (blk : Nat) : PoolObj × PoolPc :=
  if blk ≠ 0 then ({ o with pool := p, flight := blk :: o.flight }, .clearing blk)
  else ({ o with pool := p }, .idle)

/-- The sections of a thread. A pointer that is freed is in use, or one that
`vibe_mem_pool_free` rejects. -/
def poolThread (k : Kernel) (o : PoolObj) (self : Tid) :
    PoolPc → PoolAct → Option (Kernel × PoolObj × PoolPc)
  | .idle, .alloc timeout =>
      let r := memPoolAlloc k o.mem o.pool self timeout
      some (r.1, match r.2.2 with
        | .done blk => o.take r.2.1 blk
        | .resched _ => ({ o with pool := r.2.1 }, .idle)
        | .block => ({ o with pool := r.2.1 }, .waiting timeout))
  | .waiting timeout, .retry =>
      let r := memPoolAllocRetry o.mem o.pool
      some (k, { o with
        woken := o.woken.erase self
        nulls := if r.2 = 0 ∧ timeout = waitForever then o.nulls + 1 else o.nulls }.take r.1 r.2)
  | .clearing blk, .clear =>
      some (k, { o with
        mem := memPoolClear o.mem o.pool blk
        flight := o.flight.erase blk
        inUse := blk :: o.inUse }, .idle)
  | .idle, .free ptr =>
      let r := memPoolFree k o.mem o.pool ptr
      if r.2.2.2 = .done .einval then some (r.1, { o with mem := r.2.1, pool := r.2.2.1 }, .idle)
      else if ptr ∈ o.inUse then
        some (r.1, { o with
          mem := r.2.1
          pool := r.2.2.1
          woken := o.woken ++ o.pool.waitList.head.toList
          inUse := o.inUse.erase ptr }, .idle)
      else none
  | .idle, .store a v =>
      if ∃ b ∈ o.inUse, o.pool.InBlock b a then
        some (k, { o with mem := Function.update o.mem a v }, .idle)
      else none
  | _, _ => none

/-- The machine; no interrupt uses the pool. -/
abbrev PoolSys := ObjectSys PoolObj PoolPc

def poolSections : Sections PoolObj PoolPc PoolAct Empty where
  thread := poolThread
  isr := fun k o _ => (k, o)

abbrev PoolLabel := ObjectSys.Label PoolAct Empty

namespace PoolSys

/-- One step. -/
def step (cfg : Config) (s : PoolSys) (l : PoolLabel) : Option PoolSys :=
  ObjectSys.step cfg poolSections s l

/-- `vibe_mem_pool_init` has returned `VIBE_OK` for a buffer that holds the blocks, and nobody
has used the pool. -/
structure Initial (buffer : Nat) (blockSize numBlocks : UInt32) (s : PoolSys) : Prop where
  pool : ∃ mem, memPoolInit mem buffer blockSize numBlocks = some (s.obj.mem, s.obj.pool)
  /-- a block has room for its link -/
  fits : buffer + numBlocks.toNat * max 4 blockSize.toNat ≤ 2 ^ 32
  woken : s.obj.woken = []
  flight : s.obj.flight = []
  inUse : s.obj.inUse = []
  nulls : s.obj.nulls = 0
  pc : ∀ t, s.pc t = .idle
  sleep : s.k.sleepList.head = none

/-- The threads blocked in an alloc, in list order. -/
def waiters (s : PoolSys) : List Tid := listNodes s.k.waitNode s.obj.pool.waitList

/-- No thread stays blocked next to a free block with no wake-up in flight. -/
structure NoLostWakeup (s : PoolSys) : Prop where
  /-- a woken thread is inside an alloc, and off the wait list -/
  woken : ∀ t, t ∈ s.obj.woken ↔ (∃ timeout, s.pc t = .waiting timeout) ∧ t ∉ s.waiters
  once : s.obj.woken.Nodup
  counted : s.waiters ≠ [] → s.obj.pool.freeCount.toNat ≤ s.obj.woken.length
  none_free : s.waiters ≠ [] → s.obj.woken = [] → s.obj.pool.freeCount = 0

/-- Where the blocks of the pool start. -/
def blockStarts (buffer : Nat) (blockSize numBlocks : UInt32) : List Nat :=
  (List.range numBlocks.toNat).map fun i => buffer + i * blockSize.toNat

/-- A pointer, with `none` for `NULL`. -/
def ptr (v : Nat) : Option Nat := if v = 0 then none else some v

/-- The link of a free block. -/
def link (mem : Mem) (b : Nat) : Option Nat := ptr (read32 mem b)

end PoolSys

end VibeRtos
