import VibeRtos.Lib.ByteMem
import VibeRtos.Lib.Fifo
import VibeRtos.Lib.Runs

/-!
# RTT channels

`rtt.c`: rings that a debug probe shares with the target. The probe reads and writes the memory
of the target, so it is the other party here. An access outside of a ring's storage is `none`.
-/

namespace VibeRtos

open ByteMem Fifo

/-- The options of `Kconfig`, in their ranges. -/
structure RttConfig where
  /-- `CONFIG_RTT_MAX_UP_BUFFERS` -/
  maxUp : Nat
  /-- `CONFIG_RTT_MAX_DOWN_BUFFERS` -/
  maxDown : Nat
  /-- `CONFIG_RTT_BUFFER_SIZE_UP` -/
  sizeUp : UInt32
  /-- `CONFIG_RTT_BUFFER_SIZE_DOWN` -/
  sizeDown : UInt32
  maxUp_range : 1 ≤ maxUp ∧ maxUp ≤ 8
  maxDown_range : 1 ≤ maxDown ∧ maxDown ≤ 8
  sizeUp_range : 64 ≤ sizeUp ∧ sizeUp ≤ 65536
  sizeDown_range : 16 ≤ sizeDown ∧ sizeDown ≤ 4096

/-- `vibe_rtt_up_t` and `vibe_rtt_down_t`, which have the same fields; the bytes behind `pBuffer`
stand in its place. -/
structure RttRing where
  pBuffer : Option Mem
  sizeOfBuffer : UInt32
  wrOff : UInt32
  rdOff : UInt32

/-- `vibe_rtt_cb_t`, with the file-scope variables. -/
structure Rtt (cfg : RttConfig) where
  /-- `_rtt_ready` -/
  ready : Bool
  aUp : Fin cfg.maxUp → RttRing
  aDown : Fin cfg.maxDown → RttRing
  /-- `_rtt_up0_storage` -/
  up0Storage : Mem
  /-- `_rtt_down0_storage` -/
  down0Storage : Mem

/-- A ring after the `memset`. -/
def RttRing.zero : RttRing := ⟨none, 0, 0, 0⟩

section

variable {cfg : RttConfig}

/-- Before `vibe_rtt_init` the control block is zero. -/
def Rtt.Booted (s : Rtt cfg) : Prop :=
  s.ready = false → (∀ i, s.aUp i = .zero) ∧ ∀ i, s.aDown i = .zero

/-- `vibe_rtt_init` -/
def rttInit (s : Rtt cfg) : Rtt cfg :=
  if s.ready then s
  else { s with
    ready := true
    aUp := fun i => if i.val = 0 then ⟨some s.up0Storage, cfg.sizeUp, 0, 0⟩ else .zero
    aDown := fun i => if i.val = 0 then ⟨some s.down0Storage, cfg.sizeDown, 0, 0⟩ else .zero }

/-- `memcpy(&up->pBuffer[wr], &src[written], run)` -/
def rttCopy (size : UInt32) (buf : Mem) (src : Nat → UInt8) (wr written run : UInt32) :
    Option Mem :=
  if wr.toNat + run.toNat ≤ size.toNat then
    some (blit buf wr.toNat (fun i => src (written.toNat + i)) run.toNat)
  else none

/-- `while (written < len)`. Each round but the last writes a byte, so that `len + 1` rounds are
enough. -/
def rttWriteLoop (size rd : UInt32) (src : Nat → UInt8) (len : UInt32) :
    Nat → Mem → UInt32 → UInt32 → Option (Mem × UInt32 × UInt32)
  | 0, _, _, _ => none
  | fuel + 1, buf, wr, written =>
      if written < len then
        let space := if rd > wr then rd - wr - 1 else size - wr + rd - 1
        if space = 0 then some (buf, wr, written)
        else
          let run := size - wr
          let run := if run > space then space else run
          let run := if run > len - written then len - written else run
          (rttCopy size buf src wr written run).bind fun buf =>
            let wr := wr + run
            let wr := if wr ≥ size then 0 else wr
            rttWriteLoop size rd src len fuel buf wr (written + run)
      else some (buf, wr, written)

/-- The locked part of `vibe_rtt_write`. -/
def RttRing.write (r : RttRing) (buf : Mem) (src : Nat → UInt8) (len : UInt32) :
    Option (RttRing × UInt32) :=
  (rttWriteLoop r.sizeOfBuffer r.rdOff src len (len.toNat + 1) buf r.wrOff 0).map fun w =>
    ({ r with pBuffer := some w.1, wrOff := w.2.1 }, w.2.2)

/-- `vibe_rtt_write` -/
def rttWrite (s : Rtt cfg) (channel : UInt32) (src : Nat → UInt8) (len : UInt32) :
    Option (Rtt cfg × UInt32) :=
  let s := if ¬ s.ready then rttInit s else s
  if h : channel.toNat < cfg.maxUp then
    match (s.aUp ⟨channel.toNat, h⟩).pBuffer with
    | none => some (s, 0)
    | some buf => ((s.aUp ⟨channel.toNat, h⟩).write buf src len).map fun w =>
        ({ s with aUp := Function.update s.aUp ⟨channel.toNat, h⟩ w.1 }, w.2)
  else some (s, 0)

/-- `while (read < len && rd != wr)`; `dst` has the bytes read so far. -/
def rttReadLoop (size wr : UInt32) (buf : Mem) (len : UInt32) :
    Nat → UInt32 → List UInt8 → Option (UInt32 × List UInt8)
  | 0, _, _ => none
  | fuel + 1, rd, dst =>
      if dst.length < len.toNat ∧ rd ≠ wr then
        if rd < size then
          let dst := dst ++ [buf rd.toNat]
          let rd := rd + 1
          let rd := if rd ≥ size then 0 else rd
          rttReadLoop size wr buf len fuel rd dst
        else none
      else some (rd, dst)

/-- The locked part of `vibe_rtt_read`. -/
def RttRing.read (r : RttRing) (buf : Mem) (len : UInt32) : Option (RttRing × List UInt8) :=
  (rttReadLoop r.sizeOfBuffer r.wrOff buf len (len.toNat + 1) r.rdOff []).map fun w =>
    ({ r with rdOff := w.1 }, w.2)

/-- `vibe_rtt_read`: the bytes that it stores, whose number it returns. -/
def rttRead (s : Rtt cfg) (channel : UInt32) (len : UInt32) : Option (Rtt cfg × List UInt8) :=
  let s := if ¬ s.ready then rttInit s else s
  if h : channel.toNat < cfg.maxDown then
    match (s.aDown ⟨channel.toNat, h⟩).pBuffer with
    | none => some (s, [])
    | some buf => ((s.aDown ⟨channel.toNat, h⟩).read buf len).map fun w =>
        ({ s with aDown := Function.update s.aDown ⟨channel.toNat, h⟩ w.1 }, w.2)
  else some (s, [])

/-- The occupancy of a ring, as `vibe_rtt_up_used` computes it. -/
def RttRing.used (r : RttRing) : UInt32 :=
  if r.wrOff ≥ r.rdOff then r.wrOff - r.rdOff else r.sizeOfBuffer - r.rdOff + r.wrOff

/-- `vibe_rtt_up_used` -/
def rttUpUsed (s : Rtt cfg) (channel : UInt32) : UInt32 :=
  if h : s.ready ∧ channel.toNat < cfg.maxUp then (s.aUp ⟨channel.toNat, h.2⟩).used else 0

end

/-! ## The rings and the probe -/

namespace RttRing

/-- The bytes from `RdOff` to `WrOff`, oldest first. -/
def pending (r : RttRing) : List UInt8 :=
  match r.pBuffer with
  | none => []
  | some buf => ringRead buf r.sizeOfBuffer.toNat r.rdOff.toNat r.used.toNat

/-- The offsets are below the size. -/
structure Ok (r : RttRing) : Prop where
  wr : r.wrOff < r.sizeOfBuffer
  rd : r.rdOff < r.sizeOfBuffer

/-- The probe consumes `n` bytes and advances `RdOff`. -/
def consume (r : RttRing) (n : Nat) : RttRing :=
  { r with rdOff := UInt32.ofNat (ringAt r.sizeOfBuffer.toNat r.rdOff.toNat n) }

/-- The probe stores one byte and advances `WrOff`. -/
def put (r : RttRing) (b : UInt8) : RttRing :=
  { r with
    pBuffer := r.pBuffer.map fun buf => Function.update buf r.wrOff.toNat b
    wrOff := UInt32.ofNat (ringAt r.sizeOfBuffer.toNat r.wrOff.toNat 1) }

end RttRing

/-- The channels, with what has gone through them. -/
structure RttSys (cfg : RttConfig) where
  rtt : Rtt cfg
  /-- the bytes that writes have stored -/
  stored : Fin cfg.maxUp → List UInt8
  /-- the bytes that the probe has consumed -/
  consumed : Fin cfg.maxUp → List UInt8
  /-- the bytes that the probe has sent -/
  sent : Fin cfg.maxDown → List UInt8
  /-- the bytes that reads have returned -/
  received : Fin cfg.maxDown → List UInt8

namespace RttSys

variable {cfg : RttConfig}

/-- The calls of the target and the steps of the probe between them. -/
inductive Label (cfg : RttConfig) where
  | write (channel : UInt32) (src : Nat → UInt8) (len : UInt32)
  | read (channel len : UInt32)
  /-- the probe consumes `n` pending bytes of an up channel -/
  | consume (i : Fin cfg.maxUp) (n : Nat)
  /-- the probe sends bytes down a channel that has room for them -/
  | send (i : Fin cfg.maxDown) (bytes : List UInt8)

/-- The history of a channel grows. -/
def grow {m : Nat} (hist : Fin m → List UInt8) (channel : Nat) (bytes : List UInt8) :
    Fin m → List UInt8 :=
  if h : channel < m then Function.update hist ⟨channel, h⟩ (hist ⟨channel, h⟩ ++ bytes) else hist

def step (s : RttSys cfg) : Label cfg → Option (RttSys cfg)
  | .write channel src len => (rttWrite s.rtt channel src len).map fun r =>
      { s with
        rtt := r.1
        stored := grow s.stored channel.toNat ((List.range r.2.toNat).map src) }
  | .read channel len => (rttRead s.rtt channel len).map fun r =>
      { s with rtt := r.1, received := grow s.received channel.toNat r.2 }
  | .consume i n =>
      if n ≤ (s.rtt.aUp i).pending.length then
        some { s with
          rtt := { s.rtt with aUp := Function.update s.rtt.aUp i ((s.rtt.aUp i).consume n) }
          consumed := grow s.consumed i ((s.rtt.aUp i).pending.take n) }
      else none
  | .send i bytes =>
      if (s.rtt.aDown i).pBuffer ≠ none
          ∧ (s.rtt.aDown i).pending.length + bytes.length < (s.rtt.aDown i).sizeOfBuffer.toNat then
        some { s with
          rtt := { s.rtt with
            aDown := Function.update s.rtt.aDown i (bytes.foldl RttRing.put (s.rtt.aDown i)) }
          sent := grow s.sent i bytes }
      else none

end RttSys

end VibeRtos
