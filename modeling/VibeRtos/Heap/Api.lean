import VibeRtos.Lib.ByteMem
import VibeRtos.Lib.Runs

/-!
# The heap API

`vibe/heap.h` over any of the three backends. `vibe_heap_realloc` and
`vibe_heap_calloc` have the same text in each of them, up to the way a block's size is
read from its header, so they are written once over a `Backend`.

The machine below is a program that uses the heap as `heap.h` allows: it asks for at
most the heap's size, frees and resizes pointers it holds, and stores into memory it was
granted. Besides the backend's state it keeps the list of grants that are live.
-/

namespace VibeRtos

open ByteMem

/-- Where the heap pool lies: `g_heap_pool` and `CONFIG_HEAP_SIZE`. -/
structure HeapConfig where
  pool : Nat
  size : Nat
  pos : 0 < pool
  /-- `_Alignas(HEAP_ALIGN)` -/
  aligned : 8 ∣ pool
  /-- the array ends inside the 32-bit address space -/
  fits : pool + size < 2 ^ 32

/-! The pools of the examples lie at `0x2000`, most of them 256 bytes long. -/

theorem samplePool_pos : 0 < 0x2000 := by decide

theorem samplePool_aligned : 8 ∣ 0x2000 := by decide

theorem samplePool_fits : 0x2000 + 256 < 2 ^ 32 := by decide

/-- `HEAP_ALIGN_UP`. -/
def heapAlignUp (x : Nat) : Nat := (x + 7) % 2 ^ 32 / 8 * 8

/-- `a - b` on `size_t`. -/
def sub32 (a b : Nat) : Nat := (a + (2 ^ 32 - b)) % 2 ^ 32

/-- `a + b` on `size_t`. -/
def add32 (a b : Nat) : Nat := (a + b) % 2 ^ 32

theorem heapAlignUp_eq {x : Nat} (h : x + 7 < 2 ^ 32) : heapAlignUp x = (x + 7) / 8 * 8 := by
  rw [heapAlignUp, Nat.mod_eq_of_lt h]

theorem sub32_eq {a b : Nat} (hb : b ≤ a) (ha : a < 2 ^ 32) : sub32 a b = a - b := by
  unfold sub32
  omega

theorem add32_eq {a b : Nat} (h : a + b < 2 ^ 32) : add32 a b = a + b := Nat.mod_eq_of_lt h

/-- An allocator: its state and what its functions do. `NULL` is 0. -/
structure Backend (σ : Type) where
  mem : σ → Mem
  setMem : σ → Mem → σ
  /-- `vibe_heap_alloc` -/
  alloc : σ → Nat → σ × Nat
  /-- `vibe_heap_free` -/
  free : σ → Nat → σ
  /-- the size in the header of a user pointer -/
  sizeOf : σ → Nat → Nat

namespace Backend

variable {σ : Type} (B : Backend σ)

/-- `vibe_heap_realloc`. -/
def realloc (s : σ) (ptr size : Nat) : σ × Nat :=
  if ptr = 0 then B.alloc s size
  else if size = 0 then (B.free s ptr, 0)
  else
    let oldSize := B.sizeOf s ptr
    let newSize := heapAlignUp size
    if newSize ≤ oldSize then (s, ptr)
    else
      let r := B.alloc s size
      if r.2 = 0 then (r.1, 0)
      else
        let len := if oldSize < size then oldSize else size
        (B.free (B.setMem r.1 (copy (B.mem r.1) r.2 ptr len)) ptr, r.2)

/-- `vibe_heap_calloc`. -/
def calloc (s : σ) (nmemb size : Nat) : σ × Nat :=
  if nmemb = 0 ∨ size = 0 then (s, 0)
  else if nmemb > (2 ^ 32 - 1) / size then (s, 0)
  else
    let total := nmemb * size
    let r := B.alloc s total
    if r.2 ≠ 0 then (B.setMem r.1 (fill (B.mem r.1) r.2 total 0), r.2) else r

end Backend

/-- `vibe_heap_stats_t`. -/
structure HeapStats where
  total : Nat
  used : Nat
  free : Nat
  largestFree : Nat
  allocCount : Nat
  freeCount : Nat
  deriving DecidableEq

/-- A pointer the program holds, and the size it asked for. -/
structure Grant where
  ptr : Nat
  req : Nat
  deriving DecidableEq, Repr

/-- The heap, and what the program holds. -/
structure HeapSys (σ : Type) where
  heap : σ
  live : List Grant

/-- What the program does. -/
inductive HeapLabel where
  | alloc (size : Nat)
  | calloc (nmemb size : Nat)
  | realloc (ptr size : Nat)
  | free (ptr : Nat)
  /-- the program stores a byte -/
  | store (a : Nat) (v : UInt8)

/-- Add a grant, unless the allocator returned `NULL`. -/
def grant (live : List Grant) (p req : Nat) : List Grant :=
  if p = 0 then live else ⟨p, req⟩ :: live

/-- Give up a pointer. -/
def release (live : List Grant) (p : Nat) : List Grant := live.filter fun l => l.ptr ≠ p

/-- The program holds `p`. -/
def Held (live : List Grant) (p : Nat) : Prop := ∃ l ∈ live, l.ptr = p

instance (live : List Grant) (p : Nat) : Decidable (Held live p) :=
  inferInstanceAs (Decidable (∃ l ∈ live, l.ptr = p))

/-- The address `a` lies in memory the program asked for. -/
def Writable (live : List Grant) (a : Nat) : Prop := ∃ l ∈ live, l.ptr ≤ a ∧ a < l.ptr + l.req

instance (live : List Grant) (a : Nat) : Decidable (Writable live a) :=
  inferInstanceAs (Decidable (∃ l ∈ live, l.ptr ≤ a ∧ a < l.ptr + l.req))

namespace HeapSys

variable {σ : Type}

/-- One step of the program; requests go up to `limit` bytes. -/
def step (B : Backend σ) (limit : Nat) (s : HeapSys σ) : HeapLabel → Option (HeapSys σ)
  | .alloc size =>
      if size ≤ limit then
        let r := B.alloc s.heap size
        some ⟨r.1, grant s.live r.2 size⟩
      else none
  | .calloc nmemb size =>
      if nmemb * size ≤ limit then
        let r := B.calloc s.heap nmemb size
        some ⟨r.1, grant s.live r.2 (nmemb * size)⟩
      else none
  | .realloc ptr size =>
      if size ≤ limit ∧ (ptr = 0 ∨ Held s.live ptr) then
        let r := B.realloc s.heap ptr size
        some ⟨r.1, if r.2 = 0 ∧ size ≠ 0 then s.live else grant (release s.live ptr) r.2 size⟩
      else none
  | .free ptr =>
      if ptr = 0 ∨ Held s.live ptr then some ⟨B.free s.heap ptr, release s.live ptr⟩ else none
  | .store a v =>
      if Writable s.live a then
        some { s with heap := B.setMem s.heap (Function.update (B.mem s.heap) a v) }
      else none

end HeapSys

/-- The grant a call is given to work on. -/
def HeapLabel.target : HeapLabel → Nat
  | .realloc ptr _ => ptr
  | .free ptr => ptr
  | _ => 0

/-- A call of the allocator. -/
def HeapLabel.IsCall : HeapLabel → Prop
  | .store .. => False
  | _ => True

end VibeRtos
