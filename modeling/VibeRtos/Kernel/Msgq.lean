import VibeRtos.Kernel.Wait
import VibeRtos.Lib.ByteMem

/-!
# Message queues

`msgq.c`: a ring of `max_msgs` slots of `msg_size` bytes. `put` and `get` have a
fast path and, for a caller that had to wait, a retry section with its own copy of
the ring update.
-/

namespace VibeRtos

open Kernel ByteMem

/-- `vibe_msgq_t`, with the bytes behind `buffer`. -/
structure Msgq where
  buffer : Mem
  msgSize : UInt32
  maxMsgs : UInt32
  head : UInt32
  tail : UInt32
  used : UInt32
  readWait : VList Tid
  writeWait : VList Tid

/-- `vibe_msgq_init`. -/
def msgqInit (buffer : Mem) (msgSize maxMsgs : UInt32) : Option Msgq :=
  if msgSize = 0 ∨ maxMsgs = 0 then none
  else some ⟨buffer, msgSize, maxMsgs, 0, 0, 0, listInit, listInit⟩

/-- The bytes of a message at `data`. -/
def Msgq.message (q : Msgq) (data : Nat → UInt8) : List UInt8 :=
  (List.range q.msgSize.toNat).map data

/-- The bytes of slot `i`, as `get` and `peek` copy them out. -/
def Msgq.slot (q : Msgq) (i : UInt32) : List UInt8 :=
  slice q.buffer (i * q.msgSize).toNat q.msgSize.toNat

/-- Copy a message into the slot at `tail` and advance. -/
def Msgq.push (q : Msgq) (data : Nat → UInt8) : Msgq :=
  { q with
    buffer := blit q.buffer (q.tail * q.msgSize).toNat data q.msgSize.toNat
    tail := (q.tail + 1) % q.maxMsgs
    used := q.used + 1 }

/-- Drop the message in the slot at `head`. -/
def Msgq.pop (q : Msgq) : Msgq :=
  { q with head := (q.head + 1) % q.maxMsgs, used := q.used - 1 }

/-- `vibe_msgq_put`, up to the reschedule. -/
def msgqPut (k : Kernel) (q : Msgq) (self : Tid) (data : Nat → UInt8) (timeout : UInt32) :
    Kernel × Msgq × Flow Err :=
  if q.used < q.maxMsgs then
    let q := q.push data
    let r := k.wakeHead q.readWait
    (r.1, { q with readWait := r.2 }, .resched .ok)
  else if timeout = noWait then (k, q, .done .eagain)
  else
    let k := k.block self (k.deadline timeout)
    let r := k.waitAppend q.writeWait self
    (r.1, { q with writeWait := r.2 }, .block)

/-- `vibe_msgq_put` once the blocked caller runs again; no reader is woken here. -/
def msgqPutRetry (q : Msgq) (data : Nat → UInt8) : Msgq × Err :=
  if q.used < q.maxMsgs then (q.push data, .ok) else (q, .etimeout)

/-- `vibe_msgq_get`, up to the reschedule, with the message copied out. -/
def msgqGet (k : Kernel) (q : Msgq) (self : Tid) (timeout : UInt32) :
    Kernel × Msgq × Flow (Err × List UInt8) :=
  if q.used > 0 then
    let msg := q.slot q.head
    let q := q.pop
    let r := k.wakeHead q.writeWait
    (r.1, { q with writeWait := r.2 }, .resched (.ok, msg))
  else if timeout = noWait then (k, q, .done (.eagain, []))
  else
    let k := k.block self (k.deadline timeout)
    let r := k.waitAppend q.readWait self
    (r.1, { q with readWait := r.2 }, .block)

/-- `vibe_msgq_get` once the blocked caller runs again; no writer is woken here. -/
def msgqGetRetry (q : Msgq) : Msgq × Err × List UInt8 :=
  if q.used > 0 then (q.pop, .ok, q.slot q.head) else (q, .etimeout, [])

/-- `vibe_msgq_peek`. -/
def msgqPeek (q : Msgq) : Err × List UInt8 :=
  if q.used = 0 then (.eagain, []) else (.ok, q.slot q.head)

/-- `vibe_msgq_purge`. -/
def msgqPurge (k : Kernel) (q : Msgq) : Kernel × Msgq :=
  let q := { q with head := 0, tail := 0, used := 0 }
  let r := k.wakeAll walkBound q.writeWait
  (r.1, { q with writeWait := r.2 })

end VibeRtos
