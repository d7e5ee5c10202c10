import VibeRtos.Lib.ByteMem

/-!
# Ring buffers

`ring_buffer.c`: a byte ring of a power-of-two size with free-running read and
write counters, which are masked where they index the buffer.
-/

namespace VibeRtos

open ByteMem

/-- The statistics fields of `vibe_rb_t`. -/
structure RbStats where
  peakUsed : UInt32
  putCount : UInt32
  getCount : UInt32
  dropCount : UInt32

/-- `vibe_rb_t`, with the bytes behind `buf`. -/
structure RingBuffer where
  buf : Mem
  size : UInt32
  head : UInt32
  tail : UInt32
  /-- there with `CONFIG_RING_BUFFER_STATS` only -/
  stats : Option RbStats

/-- `IS_POWER_OF_TWO`. -/
def isPowerOfTwo (x : UInt32) : Bool := x ≠ 0 ∧ x &&& (x - 1) = 0

/-- `vibe_rb_init`; `NULL` is `none` and `withStats` is `CONFIG_RING_BUFFER_STATS`. -/
def rbInit (withStats : Bool) (buf : Option Mem) (size : UInt32) : Option RingBuffer :=
  match buf with
  | none => none
  | some buf =>
    if size = 0 then none
    else if ¬ isPowerOfTwo size then none
    else some {
      buf := buf
      size := size
      head := 0
      tail := 0
      stats := if withStats then some ⟨0, 0, 0, 0⟩ else none }

/-- `_mask`. -/
def rbMask (rb : RingBuffer) (idx : UInt32) : UInt32 := idx &&& (rb.size - 1)

/-- `vibe_rb_used`. -/
def rbUsed (rb : RingBuffer) : UInt32 := rb.tail - rb.head

/-- `vibe_rb_free`. -/
def rbFree (rb : RingBuffer) : UInt32 := rb.size - rbUsed rb

/-- `vibe_rb_is_empty`. -/
def rbIsEmpty (rb : RingBuffer) : Bool := rb.head = rb.tail

/-- `vibe_rb_is_full`. -/
def rbIsFull (rb : RingBuffer) : Bool := rbUsed rb = rb.size

/-- Update the statistics, where there are any. -/
def RingBuffer.count (rb : RingBuffer) (f : RbStats → RbStats) : RingBuffer :=
  { rb with stats := rb.stats.map f }

/-- Raise the peak to the present occupancy. -/
def RingBuffer.notePeak (rb : RingBuffer) : RingBuffer :=
  rb.count fun st => if rbUsed rb > st.peakUsed then { st with peakUsed := rbUsed rb } else st

/-- `vibe_rb_put`. -/
def rbPut (rb : RingBuffer) (byte : UInt8) : Bool × RingBuffer :=
  if rbIsFull rb then
    (false, rb.count fun st => { st with dropCount := st.dropCount + 1 })
  else
    let rb := { rb with
      buf := Function.update rb.buf (rbMask rb rb.tail).toNat byte
      tail := rb.tail + 1 }
    let rb := rb.count fun st => { st with putCount := st.putCount + 1 }
    (true, rb.notePeak)

/-- `vibe_rb_get`. -/
def rbGet (rb : RingBuffer) : Option UInt8 × RingBuffer :=
  if rbIsEmpty rb then (none, rb)
  else
    let byte := rb.buf (rbMask rb rb.head).toNat
    let rb := { rb with head := rb.head + 1 }
    (some byte, rb.count fun st => { st with getCount := st.getCount + 1 })

/-- `vibe_rb_put_buf`. -/
def rbPutBuf (rb : RingBuffer) (data : Nat → UInt8) (len : UInt32) : UInt32 × RingBuffer :=
  let space := rbFree rb
  let n := if len < space then len else space
  let tailIdx := rbMask rb rb.tail
  let chunk := rb.size - tailIdx
  let chunk := if chunk > n then n else chunk
  let buf := blit rb.buf tailIdx.toNat data chunk.toNat
  let buf := if n > chunk then blit buf 0 (fun i => data (chunk.toNat + i))
    (n - chunk).toNat else buf
  let rb := { rb with buf := buf, tail := rb.tail + n }
  let rb := rb.count fun st =>
    { st with putCount := st.putCount + n, dropCount := st.dropCount + (len - n) }
  (n, rb.notePeak)

/-- `vibe_rb_get_buf`, with the bytes it stores at `buf`. -/
def rbGetBuf (rb : RingBuffer) (len : UInt32) : UInt32 × List UInt8 × RingBuffer :=
  let avail := rbUsed rb
  let n := if len < avail then len else avail
  let headIdx := rbMask rb rb.head
  let chunk := rb.size - headIdx
  let chunk := if chunk > n then n else chunk
  let first := slice rb.buf headIdx.toNat chunk.toNat
  let bytes := if n > chunk then first ++ slice rb.buf 0 (n - chunk).toNat else first
  let rb := { rb with head := rb.head + n }
  (n, bytes, rb.count fun st => { st with getCount := st.getCount + n })

/-- `vibe_rb_get_stats`, there with `CONFIG_RING_BUFFER_STATS` only. -/
def rbGetStats (rb : RingBuffer) : Option RbStats := rb.stats

end VibeRtos
