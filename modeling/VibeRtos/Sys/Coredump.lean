import VibeRtos.Lib.Stores

/-!
# Coredumps

`coredump.c` and `coredump.h`. The record `g_coredump` lies in memory that survives a reset, so it
is bytes here, at the offsets that the fields have; a capture finds in it what an earlier boot
left. The assignments of a capture are a list of stores: their values come from the arguments and
from the machine, never from the record.
-/

namespace VibeRtos

open ByteMem Stores

/-- `CONFIG_COREDUMP_STACK_SIZE`, in the range of `Kconfig`. -/
structure CoredumpConfig where
  stackSize : Nat
  range : 32 ≤ stackSize ∧ stackSize ≤ 512

namespace Coredump

/-! ## The record -/

/-- `VIBE_COREDUMP_MAGIC` -/
def MAGIC : UInt32 := 0xDEADC0DE

/-- `VIBE_COREDUMP_VERSION` -/
def VERSION : UInt32 := 1

/-- `VIBE_COREDUMP_REASON_STACK_OVERFLOW` -/
def reasonStackOverflow : UInt32 := 16

/-- `VIBE_COREDUMP_REASON_ASSERT` -/
def reasonAssert : UInt32 := 32

/-- `offsetof(vibe_coredump_t, magic)`, and so on. -/
def magic : Nat := 0
def version : Nat := 4
def reason : Nat := 8
def timestamp : Nat := 12
def threadName : Nat := 16
def threadId : Nat := 48
/-- `regs.r0`; the words of the exception frame follow each other. -/
def regsR0 : Nat := 52
def regsR1 : Nat := 56
def regsR2 : Nat := 60
def regsR3 : Nat := 64
def regsR12 : Nat := 68
def regsLr : Nat := 72
def regsPc : Nat := 76
def regsXpsr : Nat := 80
/-- `regs.r4`, which `regs.r5` to `regs.r11` follow. -/
def regsR4 : Nat := 84
def regsPsp : Nat := 116
def regsMsp : Nat := 120
def regsPrimask : Nat := 124
def regsControl : Nat := 128
def faultCfsr : Nat := 132
def faultHfsr : Nat := 136
def faultDfsr : Nat := 140
def faultMmfar : Nat := 144
def faultBfar : Nat := 148
def faultAfsr : Nat := 152
def stackSp : Nat := 156
def stackCaptured : Nat := 160
def stackData : Nat := 164

variable (cfg : CoredumpConfig)

/-- `assert_info.file`: the stack snapshot is padded to words. -/
def assertFile : Nat := stackData + (cfg.stackSize + 3) / 4 * 4
def assertLine : Nat := assertFile cfg + 64
def assertExpr : Nat := assertFile cfg + 68
def crc32 : Nat := assertFile cfg + 132

/-- `sizeof(vibe_coredump_t)` -/
def size : Nat := crc32 cfg + 4

/-! ## The checksum -/

/-- `crc = (crc >> 1) ^ (0xEDB88320U & -(crc & 1U))` -/
def crc32Bit (crc : UInt32) : UInt32 := (crc >>> 1) ^^^ (0xEDB88320 &&& -(crc &&& 1))

/-- A round of `while (len--)`. -/
def crc32Byte (crc : UInt32) (b : UInt8) : UInt32 := crc32Bit^[8] (crc ^^^ b.toUInt32)

/-- `crc32_update` -/
def crc32Update (crc : UInt32) (data : List UInt8) : UInt32 := ~~~ data.foldl crc32Byte (~~~ crc)

/-- `coredump_crc` -/
def coredumpCrc (cd : Mem) : UInt32 := crc32Update 0 (slice cd 0 (crc32 cfg))

/-- `vibe_coredump_is_valid` -/
def isValid (cd : Mem) : Bool :=
  if read32 cd magic ≠ MAGIC.toNat then false
  else if read32 cd version ≠ VERSION.toNat then false
  else read32 cd (crc32 cfg) == (coredumpCrc cfg cd).toNat

/-- `vibe_coredump_clear` -/
def clear (cd : Mem) : Mem := write32 (write32 cd magic 0) (crc32 cfg) 0

/-! ## Captures -/

/-- What a capture reads from the machine. -/
structure Env where
  /-- `vibe_tick_get()` -/
  tick : UInt32
  /-- `vibe_thread_self()`: the address of the thread and the bytes of its name -/
  self : Option (UInt32 × List UInt8)
  primask : UInt32
  control : UInt32
  cfsr : UInt32
  hfsr : UInt32
  dfsr : UInt32
  mmfar : UInt32
  bfar : UInt32
  afsr : UInt32
  /-- the byte at an address -/
  ram : UInt32 → UInt8

/-- `cd->field = v` -/
def word (off : Nat) (v : UInt32) : Store := ⟨off, 4, fun i => UInt8.ofNat (v.toNat / 256 ^ i)⟩

/-- `cd->field[..] = '\0'` -/
def nul (off : Nat) : Store := ⟨off, 1, fun _ => 0⟩

/-- `strncpy(cd->field, s, n)`, which fills up with zeros. -/
def strncpy (off : Nat) (s : List UInt8) (n : Nat) : Store :=
  ⟨off, n, fun i => (s.takeWhile (· ≠ 0)).getD i 0⟩

/-- `"<none>"` -/
def noThread : List UInt8 := [60, 110, 111, 110, 101, 62]

/-- `"?"` -/
def unknown : List UInt8 := [63]

/-- The thread has a name. -/
def Env.Named (env : Env) : Prop := ∃ t ∈ env.self, t.2.headD 0 ≠ 0

/-- Current thread info. -/
def threadStores (env : Env) : List Store :=
  match env.self with
  | some (t, name) =>
      if name.headD 0 ≠ 0 then
        [strncpy threadName name 31, nul (threadName + 31), word threadId t]
      else [strncpy threadName noThread 31, word threadId 0]
  | none => [strncpy threadName noThread 31, word threadId 0]

/-- CPU registers from the exception frame. -/
def frameStores (excFrame : Option (Nat → UInt32)) : List Store :=
  match excFrame with
  | some frame =>
      [word regsR0 (frame 0), word regsR1 (frame 1), word regsR2 (frame 2), word regsR3 (frame 3),
        word regsR12 (frame 4), word regsLr (frame 5), word regsPc (frame 6),
        word regsXpsr (frame 7)]
  | none => []

/-- The assignments between those of `version` and `magic`. -/
def bodyStores (env : Env) (excFrame : Option (Nat → UInt32)) (psp msp reason : UInt32) :
    List Store :=
  let sp := if psp ≠ 0 then psp else msp
  [word Coredump.reason reason, word timestamp env.tick]
    ++ threadStores env ++ frameStores excFrame
    ++ [word regsPsp psp, word regsMsp msp, word regsPrimask env.primask,
      word regsControl env.control, word faultCfsr env.cfsr, word faultHfsr env.hfsr,
      word faultDfsr env.dfsr, word faultMmfar env.mmfar, word faultBfar env.bfar,
      word faultAfsr env.afsr, word stackSp sp, word stackCaptured (UInt32.ofNat cfg.stackSize),
      ⟨stackData, cfg.stackSize, fun i => env.ram (sp + UInt32.ofNat i)⟩]

/-- The assignments of `_vibe_coredump_capture` up to the checksum. -/
def captureStores (env : Env) (excFrame : Option (Nat → UInt32)) (psp msp reason : UInt32) :
    List Store :=
  [word magic 0, word version VERSION] ++ bodyStores cfg env excFrame psp msp reason
    ++ [word magic MAGIC]

/-- `cd->crc32 = coredump_crc(cd)` -/
def sealRecord (cd : Mem) : Mem :=
  write32 cd (crc32 cfg) (coredumpCrc cfg cd).toNat

/-- `_vibe_coredump_capture` -/
def capture (env : Env) (excFrame : Option (Nat → UInt32))
    (psp msp reason : UInt32) (cd : Mem) : Mem :=
  sealRecord cfg (runAll cd (captureStores cfg env excFrame psp msp reason))

/-- The assignments of `vibe_coredump_capture_assert`. -/
def assertStores (file : Option (List UInt8)) (line : Int32)
    (expr : Option (List UInt8)) : List Store :=
  [word magic 0, word Coredump.reason reasonAssert,
    strncpy (assertFile cfg) (file.getD unknown) 63, nul (assertFile cfg + 63),
    word (assertLine cfg) line.toUInt32,
    strncpy (assertExpr cfg) (expr.getD unknown) 63, nul (assertExpr cfg + 63)]

/-- `vibe_coredump_capture_assert` -/
def captureAssert (env : Env) (file : Option (List UInt8)) (line : Int32)
    (expr : Option (List UInt8)) (cd : Mem) : Mem :=
  capture cfg env none 0 0 reasonAssert (runAll cd (assertStores cfg file line expr))

/-- `vibe_coredump_capture_stack_overflow` -/
def captureStackOverflow (env : Env) (name : Option (List UInt8))
    (cd : Mem) : Mem :=
  let named := match name with
    | some s => [strncpy threadName s 31, nul (threadName + 31)]
    | none => []
  capture cfg env none 0 0 reasonStackOverflow (runAll cd (word magic 0 :: named))

end Coredump

end VibeRtos
