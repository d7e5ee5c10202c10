import VibeRtos.Heap.Api
import VibeRtos.Sys.List

/-!
# First fit and best fit

`heap_priv.h`, `heap_first_fit.c` and `heap_best_fit.c`. Both backends keep the blocks
of the pool in one physical chain and differ only in how they search it, so
`vibe_heap_alloc` is written over the search. The headers live in the byte memory, at
the offsets of `hdr_t` on a 32-bit target.
-/

namespace VibeRtos

open ByteMem Links

namespace Hdr

/-- `HEAP_MAGIC_FREE`. -/
def magicFree : Nat := 0xFEEDF00D

/-- `HEAP_MAGIC_USED`. -/
def magicUsed : Nat := 0xA110CA7E

/-- `HDR_SIZE`: `sizeof(hdr_t)` is 16 already. -/
def hdrSize : Nat := 16

/-- `BLK_MIN_SIZE`: a header and `HEAP_ALIGN` bytes of payload. -/
def blkMinSize : Nat := hdrSize + 8

section Fields

variable (mem : Mem) (b v : Nat)

/-- `b->prev`. -/
def prev : Nat := read32 mem b

/-- `b->next`. -/
def next : Nat := read32 mem (b + 4)

/-- `b->size`. -/
def size : Nat := read32 mem (b + 8)

/-- `b->magic`. -/
def magic : Nat := read32 mem (b + 12)

/-- `b->prev = v`. -/
def setPrev : Mem := write32 mem b v

/-- `b->next = v`. -/
def setNext : Mem := write32 mem (b + 4) v

/-- `b->size = v`. -/
def setSize : Mem := write32 mem (b + 8) v

/-- `b->magic = v`. -/
def setMagic : Mem := write32 mem (b + 12) v

end Fields

/-- `hdr_from_ptr`. -/
def hdrFromPtr (ptr : Nat) : Nat := ptr - hdrSize

/-- `ptr_from_hdr`. -/
def ptrFromHdr (h : Nat) : Nat := h + hdrSize

/-- `heap_state_t`, and the memory it lives in. -/
structure HeapState where
  mem : Mem
  head : Nat
  usedBytes : Nat
  allocCount : Nat
  initialized : Bool

/-- `g_st` before the first call. -/
def heapState (mem : Mem) : HeapState := ⟨mem, 0, 0, 0, false⟩

/-- `heap_pool_init`. -/
def heapPoolInit (c : HeapConfig) (st : HeapState) : HeapState :=
  let blk := c.pool
  let mem := setPrev st.mem blk 0
  let mem := setNext mem blk 0
  let mem := setSize mem blk (c.size - hdrSize)
  let mem := setMagic mem blk magicFree
  { st with mem := mem, head := blk, initialized := true }

/-- `heap_split`; its callers have checked that the block is large enough. -/
def heapSplit (mem : Mem) (blk sz : Nat) : Mem :=
  let leftover := size mem blk - sz
  if leftover < blkMinSize then mem
  else
    let nxt := blk + hdrSize + sz
    let mem := setPrev mem nxt blk
    let mem := setNext mem nxt (next mem blk)
    let mem := setSize mem nxt (leftover - hdrSize)
    let mem := setMagic mem nxt magicFree
    let mem := if next mem blk ≠ 0 then setPrev mem (next mem blk) nxt else mem
    let mem := setNext mem blk nxt
    setSize mem blk sz

/-- The body of either merge in `heap_coalesce`: `blk` swallows the block behind it. -/
def absorb (mem : Mem) (blk nxt : Nat) : Mem :=
  let mem := setSize mem blk (size mem blk + (hdrSize + size mem nxt))
  let mem := setNext mem blk (next mem nxt)
  if next mem nxt ≠ 0 then setPrev mem (next mem nxt) blk else mem

/-- `heap_coalesce`; its result, the surviving block, is not used by its callers. -/
def heapCoalesce (mem : Mem) (blk : Nat) : Mem :=
  let mem :=
    if next mem blk ≠ 0 ∧ magic mem (next mem blk) = magicFree then absorb mem blk (next mem blk)
    else mem
  if prev mem blk ≠ 0 ∧ magic mem (prev mem blk) = magicFree then absorb mem (prev mem blk) blk
  else mem

/-- A pointer, with `none` for `NULL`. -/
def ptr (v : Nat) : Option Nat := if v = 0 then none else some v

/-- The two links of a header. -/
def links (mem : Mem) (b : Nat) : Link Nat := ⟨ptr (prev mem b), ptr (next mem b)⟩

/-- The blocks the loop `for (b = head; b != NULL; b = b->next)` visits. -/
def chain (st : HeapState) : List Nat := walk (links st.mem) walkBound (ptr st.head)

/-- One round of the loop in `heap_walk_stats`. -/
def walkStatsStep (mem : Mem) (out : HeapStats) (b : Nat) : HeapStats :=
  if magic mem b = magicUsed then
    { out with used := add32 out.used (size mem b), allocCount := add32 out.allocCount 1 }
  else
    { out with
      free := add32 out.free (size mem b)
      freeCount := add32 out.freeCount 1
      largestFree := if size mem b > out.largestFree then size mem b else out.largestFree }

/-- `heap_walk_stats`. -/
def heapWalkStats (c : HeapConfig) (st : HeapState) : HeapStats :=
  (chain st).foldl (walkStatsStep st.mem) ⟨sub32 c.size hdrSize, 0, 0, 0, 0, 0⟩

/-- What both searches ask of a block. -/
def Fits (mem : Mem) (sz b : Nat) : Prop := magic mem b = magicFree ∧ size mem b ≥ sz

instance (mem : Mem) (sz b : Nat) : Decidable (Fits mem sz b) :=
  inferInstanceAs (Decidable (_ ∧ _))

/-- The loop of the first-fit search. -/
def firstFit (mem : Mem) (sz : Nat) : List Nat → Option Nat
  | [] => none
  | b :: bs => if Fits mem sz b then some b else firstFit mem sz bs

/-- The loop of the best-fit search; it stops early on a perfect fit. -/
def bestFit (mem : Mem) (sz : Nat) (best : Option Nat) : List Nat → Option Nat
  | [] => best
  | b :: bs =>
      if Fits mem sz b ∧ best.all (fun x => size mem b < size mem x) then
        if size mem b = sz then some b else bestFit mem sz (some b) bs
      else bestFit mem sz best bs

/-- Which backend is configured, and `CONFIG_HEAP_CORRUPTION_CHECK`. -/
structure Variant where
  best : Bool
  corruptionCheck : Bool

/-- The search of the configured backend. -/
def search (v : Variant) (mem : Mem) (sz : Nat) (blocks : List Nat) : Option Nat :=
  if v.best then bestFit mem sz none blocks else firstFit mem sz blocks

/-- `vibe_heap_alloc`. -/
def heapAlloc (v : Variant) (c : HeapConfig) (st : HeapState) (sz : Nat) : HeapState × Nat :=
  if sz = 0 then (st, 0)
  else
    let sz := heapAlignUp sz
    let st := if st.initialized then st else heapPoolInit c st
    match search v st.mem sz (chain st) with
    | none => (st, 0)
    | some b =>
        let mem := setMagic (heapSplit st.mem b sz) b magicUsed
        ({ st with
          mem := mem
          usedBytes := add32 st.usedBytes (size mem b)
          allocCount := add32 st.allocCount 1 }, ptrFromHdr b)

/-- `vibe_heap_free`; the diagnostic print is left out. -/
def heapFree (v : Variant) (st : HeapState) (ptr : Nat) : HeapState :=
  if ptr = 0 then st
  else
    let blk := hdrFromPtr ptr
    if v.corruptionCheck ∧ magic st.mem blk ≠ magicUsed then st
    else
      { st with
        usedBytes := sub32 st.usedBytes (size st.mem blk)
        allocCount := sub32 st.allocCount 1
        mem := heapCoalesce (setMagic st.mem blk magicFree) blk }

/-- The two backends. -/
def backend (v : Variant) (c : HeapConfig) : Backend HeapState where
  mem := HeapState.mem
  setMem := fun st m => { st with mem := m }
  alloc := heapAlloc v c
  free := heapFree v
  sizeOf := fun st p => size st.mem (hdrFromPtr p)

end Hdr

end VibeRtos
