import VibeRtos.Kernel.Wait
import VibeRtos.Lib.ByteMem

/-!
# Pipes

`pipe.c`: a byte ring. Each round of the loops of `vibe_pipe_write` and
`vibe_pipe_read` is one IRQ-locked section followed by a reschedule.
-/

namespace VibeRtos

open Kernel ByteMem

/-- `vibe_pipe_t`, with the bytes behind `buf`. -/
structure Pipe where
  buf : Mem
  size : UInt32
  head : UInt32
  tail : UInt32
  used : UInt32
  readWait : VList Tid
  writeWait : VList Tid

/-- `vibe_pipe_init`. -/
def pipeInit (buf : Mem) (size : UInt32) : Option Pipe :=
  if size = 0 then none else some ⟨buf, size, 0, 0, 0, listInit, listInit⟩

/-- How a round of a pipe loop goes on. -/
inductive PipeFlow (ρ : Type) where
  /-- leave the loop -/
  | ret
  /-- `_vibe_sched_reschedule`, then the next round with this progress -/
  | loop (progress : ρ)

/-- The copy loop of `vibe_pipe_write`. -/
def pipePush (p : Pipe) (bytes : List UInt8) : Pipe :=
  bytes.foldl (fun p b => { p with
    buf := Function.update p.buf p.tail.toNat b
    tail := (p.tail + 1) % p.size }) p

/-- The copy loop of `vibe_pipe_read`, storing from `dst[i]` on. -/
def pipePull : Nat → Pipe → Mem → Nat → Pipe × Mem
  | 0, p, dst, _ => (p, dst)
  | n + 1, p, dst, i =>
      pipePull n { p with head := (p.head + 1) % p.size }
        (Function.update dst i (p.buf p.head.toNat)) (i + 1)

/-- The conversion of a `size_t` to `int` where both calls return. -/
def intOfSize (n : Nat) : Int := (BitVec.ofNat 32 n).toInt

/-- One round of the loop of `vibe_pipe_write`; `src` is the data and `written` what is done. -/
def pipeWriteRound (k : Kernel) (p : Pipe) (self : Tid) (src : List UInt8) (written : Nat)
    (timeout stopAt : UInt32) : Kernel × Pipe × PipeFlow Nat :=
  let space := p.size - p.used
  if space > 0 then
    let toWrite := min (src.length - written) space.toNat
    let p := pipePush p ((src.drop written).take toWrite)
    let p := { p with used := p.used + UInt32.ofNat toWrite }
    let r := k.wakeHead p.readWait
    (r.1, { p with readWait := r.2 }, .loop (written + toWrite))
  else if timeout = noWait then (k, p, .ret)
  else if stopAt ≠ waitForever ∧ k.tickCount ≥ stopAt then (k, p, .ret)
  else
    let k := k.block self stopAt
    let r := k.waitAppend p.writeWait self
    (r.1, { p with writeWait := r.2 }, .loop written)

/-- One round of the loop of `vibe_pipe_read`; `dst` is the caller's buffer and `readCnt` what
is done. -/
def pipeReadRound (k : Kernel) (p : Pipe) (self : Tid) (len : Nat) (dst : Mem) (readCnt : Nat)
    (timeout stopAt : UInt32) : Kernel × Pipe × PipeFlow (Mem × Nat) :=
  if p.used > 0 then
    let toRead := min (len - readCnt) p.used.toNat
    let r := pipePull toRead p dst readCnt
    let p := { r.1 with used := p.used - UInt32.ofNat toRead }
    let w := k.wakeHead p.writeWait
    (w.1, { p with writeWait := w.2 }, .loop (r.2, readCnt + toRead))
  else if timeout = noWait ∨ readCnt > 0 then (k, p, .ret)
  else if stopAt ≠ waitForever ∧ k.tickCount ≥ stopAt then (k, p, .ret)
  else
    let k := k.block self stopAt
    let r := k.waitAppend p.readWait self
    (r.1, { p with readWait := r.2 }, .loop (dst, readCnt))

end VibeRtos
