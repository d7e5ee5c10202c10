import VibeRtos.Kernel.Wait
import VibeRtos.Lib.ByteMem

/-!
# Memory pools

`mem_pool.c`: a singly linked list of free blocks, threaded through their first
word. Address 0 is `NULL`.
-/

namespace VibeRtos

open Kernel ByteMem

/-- `vibe_mem_pool_t`. -/
structure MemPool where
  blockSize : UInt32
  numBlocks : UInt32
  freeCount : UInt32
  blocks : Nat
  freeList : Nat
  waitList : VList Tid

/-- The variables of the loop in `vibe_mem_pool_init`. -/
structure PoolChain where
  mem : Mem
  freeList : Nat
  prevBlk : Nat
  /-- the block of the next round -/
  p : Nat

/-- Round `i` of the loop. -/
def memPoolChain (blockSize : UInt32) (c : PoolChain) (i : Nat) : PoolChain :=
  let blk := c.p
  let mem := if c.prevBlk ≠ 0 then write32 c.mem c.prevBlk blk else c.mem
  { mem := write32 mem blk 0
    freeList := if i = 0 then blk else c.freeList
    prevBlk := blk
    p := c.p + blockSize.toNat }

/-- `vibe_mem_pool_init`; `none` is `VIBE_EINVAL`. -/
def memPoolInit (mem : Mem) (buffer : Nat) (blockSize numBlocks : UInt32) :
    Option (Mem × MemPool) :=
  if buffer = 0 ∨ blockSize = 0 ∨ numBlocks = 0 then none
  else
    -- the first word of a free block is its link
    let blockSize := if blockSize < 4 then 4 else blockSize
    let c := (List.range numBlocks.toNat).foldl (memPoolChain blockSize) ⟨mem, 0, 0, buffer⟩
    some (c.mem, {
      blockSize := blockSize
      numBlocks := numBlocks
      freeCount := numBlocks
      blocks := buffer
      freeList := c.freeList
      waitList := listInit })

/-- Take the first free block off the list. -/
def MemPool.take (mem : Mem) (p : MemPool) : MemPool :=
  { p with freeList := read32 mem p.freeList, freeCount := p.freeCount - 1 }

/-- `vibe_mem_pool_alloc`, up to the reschedule; the block taken is cleared afterwards. -/
def memPoolAlloc (k : Kernel) (mem : Mem) (p : MemPool) (self : Tid) (timeout : UInt32) :
    Kernel × MemPool × Flow Nat :=
  if p.freeList ≠ 0 then (k, p.take mem, .done p.freeList)
  else if timeout = noWait then (k, p, .done 0)
  else
    let k := k.block self (k.deadline timeout)
    let r := k.waitAppend p.waitList self
    (r.1, { p with waitList := r.2 }, .block)

/-- `vibe_mem_pool_alloc` once the blocked caller runs again. -/
def memPoolAllocRetry (mem : Mem) (p : MemPool) : MemPool × Nat :=
  if p.freeList ≠ 0 then (p.take mem, p.freeList) else (p, 0)

/-- The `memset` of a block that was taken, made after the section. -/
def memPoolClear (mem : Mem) (p : MemPool) (blk : Nat) : Mem := fill mem blk p.blockSize.toNat 0

/-- `vibe_mem_pool_free`. -/
def memPoolFree (k : Kernel) (mem : Mem) (p : MemPool) (ptr : Nat) :
    Kernel × Mem × MemPool × Flow Err :=
  let stop := p.blocks + (p.numBlocks * p.blockSize).toNat
  if ptr = 0 ∨ ptr < p.blocks ∨ ptr ≥ stop then (k, mem, p, .done .einval)
  else
    let mem := write32 mem ptr p.freeList
    let p := { p with freeList := ptr, freeCount := p.freeCount + 1 }
    let r := k.wakeHead p.waitList
    (r.1, mem, { p with waitList := r.2 }, .resched .ok)

end VibeRtos
