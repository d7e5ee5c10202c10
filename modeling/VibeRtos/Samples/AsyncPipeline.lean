import VibeRtos.Async.Jobs
import VibeRtos.Kernel.Types
import VibeRtos.Sys.RingBuffer

/-!
# The pipeline of samples/async_pipeline

`samples/async_pipeline/main.c`: a sampler, a processor and a printer, coroutines in one task that
pass words through two ring buffers. The contexts of the three jobs and the buffers are one
record. The numbers of the lines printed are kept, and not their texts.

`vibe_tick_get` reads a counter that the tick interrupt advances meanwhile, so what it returns is
left open: `clock n` is what its `n`-th call in this task returns.
-/

namespace VibeRtos.Pipeline

open Coroutine Async ByteMem

/-- `SAMPLE_PERIOD_MS`. -/
def samplePeriodMs : UInt32 := 100

/-- `PRINT_EVERY`. -/
def printEvery : UInt32 := 10

/-- `RAW_BUF_BYTES` and `PROC_BUF_BYTES`. -/
def bufBytes : UInt32 := 64

/-- The calls of `vibe_printk`. -/
inductive Line where
  /-- `"[pipeline] sampler: raw buf full, sample dropped\n"` -/
  | rawFull
  /-- `"[pipeline] processor: proc buf full, result dropped\n"` -/
  | procFull
  /-- `"[pipeline] avg=%lu  (n=%lu)\n"` -/
  | avg (result n : UInt32)
  /-- `"[pipeline] raw buf stats: put=%lu get=%lu drop=%lu peak=%lu\n"` -/
  | stats (put get drop peak : UInt32)
  /-- `"[pipeline] started — sampler=%d ms window=%d\n"` -/
  | started (ms window : UInt32)
  deriving DecidableEq

/-- `g_raw_buf`, `g_proc_buf`, and the contexts of the jobs. -/
structure Data where
  raw : RingBuffer
  proc : RingBuffer
  deadline : UInt32
  seq : UInt32
  /-- of `AVG_WINDOW` words -/
  history : Fin 4 → UInt32
  hlen : UInt8
  produced : UInt32
  received : UInt32
  /-- the calls of `vibe_tick_get` so far -/
  reads : Nat
  /-- what has been printed, oldest first -/
  console : List Line

namespace Data

/-- `vibe_tick_get`. -/
def tickGet (clock : Nat → UInt32) (d : Data) : UInt32 × Data :=
  (clock d.reads, { d with reads := d.reads + 1 })

def print (d : Data) (l : Line) : Data := { d with console := d.console ++ [l] }

end Data

local instance instNeZeroWindow : NeZero 4 := ⟨by decide⟩

/-- `n % AVG_WINDOW` -/
def slot (n : Nat) : Fin 4 := Fin.ofNat 4 n

/-- The bytes of a word in memory. -/
def wordBytes (w : UInt32) (i : Nat) : UInt8 := write32 (fun _ => 0) 0 w.toNat i

/-- The word of four bytes in memory. -/
def wordOf (bytes : List UInt8) : UInt32 := UInt32.ofNat (read32 (fun i => bytes.getD i 0) 0)

/-! ## The jobs -/

section

variable (cfg : Config) (clock : Nat → UInt32)

/-- The loop of `sampler_job`, up to its `ASYNC_AWAIT`. -/
def sample (d : Data) : Data :=
  let sample := d.seq * 7 &&& 0xFF
  let put := rbPutBuf d.raw (wordBytes sample) 4
  let d := { d with raw := put.2 }
  let d := if put.1 < 4 then d.print .rawFull else d
  let d := { d with seq := d.seq + 1 }
  let now := d.tickGet clock
  { now.2 with deadline := now.1 + msToTicks cfg samplePeriodMs }

/-- `vibe_tick_get() >= c->deadline`. -/
def sampleDue (d : Data) : Data × Bool :=
  let now := d.tickGet clock
  (now.2, now.1 ≥ d.deadline)

/-- The sum over the filled portion of the window. -/
def windowSum (history : Fin 4 → UInt32) (n : Nat) : UInt32 :=
  ((List.finRange 4).take n).foldl (fun sum i => sum + history i) 0

/-- The loop of `processor_job`, behind its `ASYNC_AWAIT`. -/
def process (d : Data) : Data :=
  let get := rbGetBuf d.raw 4
  let d := { d with
    raw := get.2.2
    history := Function.update d.history (slot d.hlen.toNat) (wordOf get.2.1)
    hlen := d.hlen + 1 }
  let i := min 4 d.hlen.toNat
  let avg := windowSum d.history i / if i > 0 then UInt32.ofNat i else 1
  let put := rbPutBuf d.proc (wordBytes avg) 4
  let d := { d with proc := put.2 }
  let d := if put.1 < 4 then d.print .procFull else d
  { d with produced := d.produced + 1 }

/-- The loop of `printer_job`, behind its `ASYNC_AWAIT`. -/
def printResult (d : Data) : Data :=
  let get := rbGetBuf d.proc 4
  let d := { d with proc := get.2.2, received := d.received + 1 }
  let d := d.print (.avg (wordOf get.2.1) d.received)
  match rbGetStats d.raw with
  | none => d
  | some rs =>
      if d.received % printEvery = 0 then
        d.print (.stats rs.putCount rs.getCount rs.dropCount rs.peakUsed)
      else d

def forever (d : Data) : Data × Bool := (d, true)

/-- `sampler_job`. -/
def samplerJob : Body Data :=
  .loop forever (.seq (.act (sample cfg clock)) (.await 113 (sampleDue clock)))

/-- `processor_job`. -/
def processorJob : Body Data :=
  .loop forever (.seq (.await 137 fun d => (d, rbUsed d.raw ≥ 4)) (.act process))

/-- `printer_job`. -/
def printerJob : Body Data :=
  .loop forever (.seq (.await 178 fun d => (d, rbUsed d.proc ≥ 4)) (.act printResult))

/-! ## The task -/

/-- The functions, by their addresses. -/
def code (fn _ctx : Nat) : Body Data :=
  match fn with
  | 0 => samplerJob cfg clock
  | 1 => processorJob
  | _ => printerJob

/-- `VIBE_RING_BUF_DEFINE`. -/
def ringBufDefine (withStats : Bool) : RingBuffer where
  buf _ := 0
  size := bufBytes
  head := 0
  tail := 0
  stats := if withStats then some ⟨0, 0, 0, 0⟩ else none

/-- The static variables, when the program starts. -/
def Data.init (withStats : Bool) : Data where
  raw := ringBufDefine withStats
  proc := ringBufDefine withStats
  deadline := 0
  seq := 0
  history _ := 0
  hlen := 0
  produced := 0
  received := 0
  reads := 0
  console := []

/-- `vibe_sched_submit`, called from the task. -/
def submit {N : Nat} (s : CoroSys N Data) (fn ctx : Nat) (prio : UInt8) : CoroSys N Data :=
  match s.sys.step (.submit fn ctx prio) with
  | some sys => { s with
      sys := sys
      given := if sys.submits = s.sys.submits then s.given
        else Function.update s.given s.sys.submits (some (fn, ctx)) }
  | none => s

/-- `pipeline_task`, up to its loop around `vibe_sched_run`. -/
def pipelineTask (N : Nat) (withStats : Bool) : CoroSys N Data :=
  let s : CoroSys N Data := {
    sys := ⟨JobSched.init N, .idle, 0, fun _ => none, none, 0, 0, 0⟩
    mem := Data.init withStats
    children := fun _ _ => 0
    given := fun _ => none
    log := [] }
  let s := submit s 0 0 20
  let s := submit s 1 1 15
  let s := submit s 2 2 10
  { s with mem := s.mem.print (.started samplePeriodMs 4) }

end

/-! ## What it is to compute -/

/-- The sample with the number `i`. -/
def sampleAt (i : Nat) : UInt32 := UInt32.ofNat (7 * i % 256)

/-- The samples that were not dropped; `oks` says so of each one. -/
def keptSamples (oks : List Bool) : List UInt32 :=
  (oks.zipIdx.filter Prod.fst).map fun e => sampleAt e.2

/-- The mean of the last `w` of the first `n` samples. -/
def meanOfLast (xs : List UInt32) (n w : Nat) : UInt32 :=
  UInt32.ofNat (((List.range w).map fun j => (xs.getD (n - 1 - j) 0).toNat).sum / w)

/-- The moving average: of the last `AVG_WINDOW` of the first `n` samples, or of all while there
are fewer. -/
def movingAverage (xs : List UInt32) (n : Nat) : UInt32 := meanOfLast xs n (min 4 n)

/-- The average over the window of `processor_job` behind the first `n` samples. They are counted
in a `uint8_t`: every 256th empties the window, and its average is 0. -/
def windowAverage (xs : List UInt32) (n : Nat) : UInt32 := meanOfLast xs n (min 4 (n % 256))

/-- The number printed, and the number of it. -/
def Line.result : Line → Option (UInt32 × UInt32)
  | .avg v n => some (v, n)
  | _ => none

end VibeRtos.Pipeline
