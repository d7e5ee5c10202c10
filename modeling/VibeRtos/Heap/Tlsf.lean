import VibeRtos.Heap.Api
import VibeRtos.Lib.Bits

/-!
# TLSF

`heap_tlsf.c`. Free blocks are kept in doubly linked lists, one for each class of sizes,
and two levels of bitmaps tell which lists hold a block. The control structure lies at
the start of the pool, the links of a free block lie in its payload, and the rest of the
header is in front of it; all of it lives in the byte memory, at the offsets a 32-bit
target gives.
-/

namespace VibeRtos

open ByteMem Bits

namespace Tlsf

/-- The heaps TLSF can manage. -/
structure TlsfConfig extends HeapConfig where
  multiple : 8 ∣ size
  /-- room for the control structure, a block and the sentinel -/
  large : 768 ≤ size
  /-- the largest size class (`FL_INDEX_MAX`); the build offers at most 131072 -/
  small : size ≤ 2 ^ 23 - 2 ^ 19

/-! ## Parameters -/

/-- `FL_INDEX_SHIFT`. -/
def flIndexShift : Nat := 3

/-- `SL_INDEX_COUNT_LOG2`. -/
def slIndexCountLog2 : Nat := 3

/-- `SL_INDEX_COUNT`. -/
def slIndexCount : Nat := 8

/-- `FL_INDEX_COUNT`, with `FL_INDEX_MAX` being 22. -/
def flIndexCount : Nat := 22 - flIndexShift + 1

/-- `BLOCK_IS_FREE`. -/
def isFreeBit : Nat := 1

/-- `BLOCK_PREV_FREE`. -/
def prevFreeBit : Nat := 2

/-- `BLOCK_SIZE_MASK`. -/
def blockSizeMask : Nat := not32 (isFreeBit ||| prevFreeBit)

/-- `BLOCK_PAYLOAD_MIN`: two pointers. -/
def blockPayloadMin : Nat := 8

/-- `BLOCK_HDR_OFFSET`. -/
def blockHdrOffset : Nat := 8

/-! ## Blocks and the control structure -/

section Fields

variable (mem : Mem) (b v : Nat)

/-- `b->prev_phys`. -/
def prevPhys : Nat := read32 mem b

/-- `b->size_flags`. -/
def sizeFlags : Nat := read32 mem (b + 4)

/-- `b->next_free`. -/
def nextFree : Nat := read32 mem (b + 8)

/-- `b->prev_free`. -/
def prevFree : Nat := read32 mem (b + 12)

/-- `b->prev_phys = v`. -/
def setPrevPhys : Mem := write32 mem b v

/-- `b->size_flags = v`. -/
def setSizeFlags : Mem := write32 mem (b + 4) v

/-- `b->next_free = v`. -/
def setNextFree : Mem := write32 mem (b + 8) v

/-- `b->prev_free = v`. -/
def setPrevFree : Mem := write32 mem (b + 12) v

variable (ctl i j : Nat)

/-- `ctl->fl_bitmap`. -/
def flBitmap : Nat := read32 mem ctl

/-- `ctl->fl_bitmap = v`. -/
def setFlBitmap : Mem := write32 mem ctl v

/-- `ctl->sl_bitmap[i]`. -/
def slBitmap : Nat := read32 mem (ctl + 4 + 4 * i)

/-- `ctl->sl_bitmap[i] = v`. -/
def setSlBitmap : Mem := write32 mem (ctl + 4 + 4 * i) v

/-- `ctl->free[i][j]`. -/
def freeHead : Nat := read32 mem (ctl + 84 + 4 * (slIndexCount * i + j))

/-- `ctl->free[i][j] = v`. -/
def setFreeHead : Mem := write32 mem (ctl + 84 + 4 * (slIndexCount * i + j)) v

/-- `&ctl->null_block`. -/
def nullBlock : Nat := ctl + 724

/-- `sizeof(tlsf_ctl_t)`. -/
def ctlSize : Nat := 740

end Fields

section Accessors

variable (mem : Mem) (b : Nat)

/-- `block_size`. -/
def blockSize : Nat := sizeFlags mem b &&& blockSizeMask

/-- `block_set_size`. -/
def blockSetSize (sz : Nat) : Mem :=
  setSizeFlags mem b ((sizeFlags mem b &&& not32 blockSizeMask) ||| (sz &&& blockSizeMask))

/-- `block_is_free`. -/
def blockIsFree : Prop := sizeFlags mem b &&& isFreeBit ≠ 0

/-- `block_set_free`. -/
def blockSetFree : Mem := setSizeFlags mem b (sizeFlags mem b ||| isFreeBit)

/-- `block_set_used`. -/
def blockSetUsed : Mem := setSizeFlags mem b (sizeFlags mem b &&& not32 isFreeBit)

/-- `block_prev_is_free`. -/
def blockPrevIsFree : Prop := sizeFlags mem b &&& prevFreeBit ≠ 0

/-- `block_set_prev_free`. -/
def blockSetPrevFree : Mem := setSizeFlags mem b (sizeFlags mem b ||| prevFreeBit)

/-- `block_set_prev_used`. -/
def blockSetPrevUsed : Mem := setSizeFlags mem b (sizeFlags mem b &&& not32 prevFreeBit)

/-- `block_next`. -/
def blockNext : Nat := b + blockHdrOffset + blockSize mem b

/-- `block_to_ptr`. -/
def blockToPtr : Nat := b + blockHdrOffset

/-- `ptr_to_block`. -/
def ptrToBlock (p : Nat) : Nat := p - blockHdrOffset

instance : Decidable (blockIsFree mem b) := inferInstanceAs (Decidable (_ ≠ _))

instance : Decidable (blockPrevIsFree mem b) := inferInstanceAs (Decidable (_ ≠ _))

end Accessors

/-! ## Size classes -/

/-- `mapping`: the first-level and the second-level index. -/
def mapping (size : Nat) : Nat × Nat :=
  if size < shl32 1 (flIndexShift + slIndexCountLog2) then (0, size >>> flIndexShift)
  else
    let fl := 31 - clz32 size
    (fl - flIndexShift, (size >>> (fl - slIndexCountLog2)) - slIndexCount)

/-- `round_up_size`. -/
def roundUpSize (size : Nat) : Nat :=
  if size < shl32 1 (flIndexShift + slIndexCountLog2) then size
  else
    let fl := 31 - clz32 size
    let round := shl32 1 (fl - slIndexCountLog2) - 1
    add32 size round &&& not32 round

/-! ## Free lists -/

/-- `free_list_insert`. -/
def freeListInsert (mem : Mem) (ctl blk : Nat) : Mem :=
  let k := mapping (blockSize mem blk)
  let head := freeHead mem ctl k.1 k.2
  let mem := setNextFree mem blk head
  let mem := setPrevFree mem blk (nullBlock ctl)
  let mem := if head ≠ nullBlock ctl then setPrevFree mem head blk else mem
  let mem := setFreeHead mem blk ctl k.1 k.2
  let mem := setFlBitmap mem (flBitmap mem ctl ||| shl32 1 k.1) ctl
  setSlBitmap mem (slBitmap mem ctl k.1 ||| shl32 1 k.2) ctl k.1

/-- `free_list_remove`. -/
def freeListRemove (mem : Mem) (ctl blk : Nat) : Mem :=
  let k := mapping (blockSize mem blk)
  let mem := setNextFree mem (prevFree mem blk) (nextFree mem blk)
  let mem := setPrevFree mem (nextFree mem blk) (prevFree mem blk)
  if freeHead mem ctl k.1 k.2 = blk then
    let mem := setFreeHead mem (nextFree mem blk) ctl k.1 k.2
    if nextFree mem blk = nullBlock ctl then
      let mem := setSlBitmap mem (slBitmap mem ctl k.1 &&& not32 (shl32 1 k.2)) ctl k.1
      if slBitmap mem ctl k.1 = 0 then
        setFlBitmap mem (flBitmap mem ctl &&& not32 (shl32 1 k.1)) ctl
      else mem
    else mem
  else mem

/-- The end of `locate_free`: the first block of the lowest class in `slMap`. -/
def locateIn (mem : Mem) (ctl fl slMap : Nat) : Option Nat :=
  let blk := freeHead mem ctl fl (ctz32 slMap)
  if blk ≠ nullBlock ctl then some blk else none

/-- `locate_free`. -/
def locateFree (mem : Mem) (ctl size : Nat) : Option Nat :=
  if size = 0 then none
  else
    let k := mapping (roundUpSize size)
    let slMap := slBitmap mem ctl k.1 &&& shl32 (not32 0) k.2
    if slMap = 0 then
      -- no block in this class: try a larger one
      let flMap := flBitmap mem ctl &&& shl32 (not32 0) (k.1 + 1)
      if flMap = 0 then none
      else locateIn mem ctl (ctz32 flMap) (slBitmap mem ctl (ctz32 flMap))
    else locateIn mem ctl k.1 slMap

/-! ## Merging and splitting -/

/-- `merge_prev`. -/
def mergePrev (mem : Mem) (ctl blk : Nat) : Mem × Nat :=
  if blockPrevIsFree mem blk then
    let prev := prevPhys mem blk
    let mem := freeListRemove mem ctl prev
    let mem := setSizeFlags mem prev ((sizeFlags mem prev &&& not32 blockSizeMask)
      ||| (blockSize mem prev + blockHdrOffset + blockSize mem blk))
    (setPrevPhys mem (blockNext mem prev) prev, prev)
  else (mem, blk)

/-- `merge_next`. -/
def mergeNext (mem : Mem) (ctl blk : Nat) : Mem × Nat :=
  let nxt := blockNext mem blk
  if blockIsFree mem nxt then
    let mem := freeListRemove mem ctl nxt
    let mem := blockSetSize mem blk (blockSize mem blk + blockHdrOffset + blockSize mem nxt)
    (setPrevPhys mem (blockNext mem blk) blk, blk)
  else (mem, blk)

/-- `block_split`: the memory, and the residual block. -/
def blockSplit (mem : Mem) (blk size : Nat) : Mem × Nat :=
  let rem := blockToPtr blk + size
  let remSize := sub32 (sub32 (blockSize mem blk) size) blockHdrOffset
  let mem := setSizeFlags mem rem remSize
  let mem := setPrevPhys mem rem blk
  let mem := blockSetSize mem blk size
  let after := blockNext mem rem
  (setPrevPhys mem after rem, rem)

/-! ## The pool -/

/-- The end of the control structure, where the usable pool starts. -/
def poolStart (ctl : Nat) : Nat := ctl + heapAlignUp ctlSize

/-- The loops of `tlsf_init` over the free lists. -/
def initFree (mem : Mem) (ctl : Nat) : Mem :=
  (List.range flIndexCount).foldl (fun mem i =>
    (List.range slIndexCount).foldl (fun mem j => setFreeHead mem (nullBlock ctl) ctl i j) mem) mem

/-- `tlsf_init`, without the assignment to `g_ctl`. -/
def tlsfInit (c : HeapConfig) (mem : Mem) : Mem :=
  let ctl := c.pool
  let mem := fill mem ctl ctlSize 0
  let mem := setNextFree mem (nullBlock ctl) (nullBlock ctl)
  let mem := setPrevFree mem (nullBlock ctl) (nullBlock ctl)
  let mem := setSizeFlags mem (nullBlock ctl) 0
  let mem := initFree mem ctl
  let poolEnd := c.pool + c.size
  let sentinel := poolEnd - blockHdrOffset
  let mem := setSizeFlags mem sentinel prevFreeBit
  let mem := setPrevPhys mem sentinel 0
  let mainBlk := poolStart ctl
  let mainSize := sub32 (sub32 (sub32 poolEnd (poolStart ctl)) blockHdrOffset) blockHdrOffset
  let mem := setSizeFlags mem mainBlk (mainSize ||| isFreeBit)
  let mem := setPrevPhys mem mainBlk 0
  let mem := setPrevPhys mem sentinel mainBlk
  let mem := blockSetPrevFree mem sentinel
  freeListInsert mem ctl mainBlk

/-! ## The API -/

/-- The memory, and `g_ctl`. -/
structure TlsfState where
  mem : Mem
  ctl : Nat

/-- Before the first call. -/
def tlsfState (mem : Mem) : TlsfState := ⟨mem, 0⟩

/-- `vibe_heap_alloc`. -/
def heapAlloc (c : HeapConfig) (st : TlsfState) (size : Nat) : TlsfState × Nat :=
  if size = 0 then (st, 0)
  else
    let size := heapAlignUp size
    let size := if size < blockPayloadMin then blockPayloadMin else size
    let st := if st.ctl = 0 then ⟨tlsfInit c st.mem, c.pool⟩ else st
    match locateFree st.mem st.ctl size with
    | none => (st, 0)
    | some blk =>
        let mem := freeListRemove st.mem st.ctl blk
        let remSize := sub32 (blockSize mem blk) size
        let mem :=
          if remSize ≥ blockHdrOffset + blockPayloadMin then
            let split := blockSplit mem blk size
            freeListInsert (blockSetPrevUsed split.1 split.2) st.ctl split.2
          else mem
        let mem := blockSetUsed mem blk
        let mem := blockSetPrevFree mem (blockNext mem blk)
        let mem := blockSetPrevUsed mem (blockNext mem blk)
        ({ st with mem := mem }, blockToPtr blk)

/-- `vibe_heap_free`; the diagnostic print is left out. -/
def heapFree (st : TlsfState) (ptr : Nat) : TlsfState :=
  if ptr = 0 then st
  else
    let blk := ptrToBlock ptr
    if blockIsFree st.mem blk then st
    else
      let mem := blockSetFree st.mem blk
      let merged := mergePrev mem st.ctl blk
      let merged := mergeNext merged.1 st.ctl merged.2
      let mem := blockSetPrevFree merged.1 (blockNext merged.1 merged.2)
      { st with mem := freeListInsert mem st.ctl merged.2 }

/-- One round of the loop in `vibe_heap_stats`. -/
def statsStep (mem : Mem) (out : HeapStats) (b : Nat) : HeapStats :=
  let bsz := blockSize mem b
  if blockIsFree mem b then
    { out with
      free := add32 out.free bsz
      freeCount := add32 out.freeCount 1
      largestFree := if bsz > out.largestFree then bsz else out.largestFree }
  else
    { out with used := add32 out.used bsz, allocCount := add32 out.allocCount 1 }

/-- The loop in `vibe_heap_stats`; `none` if the sentinel is not met within `fuel` rounds. -/
def statsLoop (mem : Mem) : Nat → Nat → HeapStats → Option HeapStats
  | 0, _, _ => none
  | fuel + 1, cur, out =>
      if blockSize mem cur = 0 then some out
      else statsLoop mem fuel (blockNext mem cur) (statsStep mem out cur)

/-- `vibe_heap_stats`, with `CONFIG_HEAP_STATS`. -/
def heapStats (c : HeapConfig) (fuel : Nat) (st : TlsfState) : Option HeapStats :=
  if st.ctl = 0 then some ⟨c.size, 0, c.size, 0, 0, 0⟩
  else statsLoop st.mem fuel (poolStart st.ctl) ⟨c.size, 0, 0, 0, 0, 0⟩

/-- The backend. -/
def backend (c : HeapConfig) : Backend TlsfState where
  mem := TlsfState.mem
  setMem := fun st m => { st with mem := m }
  alloc := heapAlloc c
  free := heapFree
  sizeOf := fun st p => blockSize st.mem (ptrToBlock p)

end Tlsf

end VibeRtos
