import VibeRtos.Kernel.Types
import VibeRtos.Lib.ByteMem

/-!
# The context switch

`context_switch.S` and the switching half of `irq.c`, on the registers they name and a
byte memory. The handler is given instruction by instruction; it runs with interrupts
masked, between the exception entry and the exception return of the hardware.
-/

namespace VibeRtos

open ByteMem

/-- A machine word, also as an address. -/
abbrev Word := UInt32

/-- `ldr`: the word at `a`. -/
def ldr (m : Mem) (a : Word) : Word := UInt32.ofNat (read32 m a.toNat)

/-- `str`: store `v` at `a`. -/
def str (m : Mem) (a v : Word) : Mem := write32 m a.toNat v.toNat

/-- The registers the handler works with, and the memory. -/
structure Cpu where
  r0 : Word
  r1 : Word
  r2 : Word
  r4 : Word
  r5 : Word
  r6 : Word
  r7 : Word
  r8 : Word
  r9 : Word
  r10 : Word
  r11 : Word
  psp : Word
  msp : Word
  mem : Mem

/-- The addresses the linker chose, and what the kernel knows about the threads. -/
structure Board where
  /-- `&g_arch_running_sp_loc` -/
  runningSpLoc : Word
  /-- `&g_arch_next_sp_loc` -/
  nextSpLoc : Word
  /-- `__StackTop` -/
  stackTop : Word
  /-- `_vibe_thread_exit` -/
  threadExit : Word
  /-- `&thread->stack_ptr` -/
  spLoc : Tid → Word
  /-- the control blocks -/
  thr : Tid → Thread
  /-- the threads that exist -/
  threads : List Tid

/-! ## PendSV -/

namespace Cpu

/-- `stmia r0!, {r4-r7}` -/
def stmia (c : Cpu) : Cpu :=
  { c with
    mem := str (str (str (str c.mem c.r0 c.r4) (c.r0 + 4) c.r5) (c.r0 + 8) c.r6) (c.r0 + 12) c.r7
    r0 := c.r0 + 16 }

/-- `ldmia r0!, {r4-r7}` -/
def ldmia (c : Cpu) : Cpu :=
  { c with
    r4 := ldr c.mem c.r0
    r5 := ldr c.mem (c.r0 + 4)
    r6 := ldr c.mem (c.r0 + 8)
    r7 := ldr c.mem (c.r0 + 12)
    r0 := c.r0 + 16 }

/-- Save the context that is physically on the CPU; `r1` is `&running->stack_ptr`. -/
def pendSvSave (c : Cpu) : Cpu :=
  -- mrs r0, psp
  let c := { c with r0 := c.psp }
  -- R4-R7 at [psp-16 .. psp-4]
  let c := { c with r0 := c.r0 - 16 }
  let c := c.stmia
  let c := { c with r0 := c.r0 - 16 }
  -- R8-R11 below, through the low registers
  let c := { c with r4 := c.r8, r5 := c.r9, r6 := c.r10, r7 := c.r11 }
  let c := { c with r0 := c.r0 - 16 }
  let c := c.stmia
  let c := { c with r0 := c.r0 - 16 }
  -- str r0, [r1]
  { c with mem := str c.mem c.r1 c.r0 }

/-- `_pendsv_first_switch`: the frame on MSP is abandoned. -/
def pendSvFirstSwitch (b : Board) (c : Cpu) : Cpu := { c with r0 := b.stackTop, msp := b.stackTop }

/-- `_pendsv_restore`: restore the kernel's latest scheduling choice. -/
def pendSvRestore (b : Board) (c : Cpu) : Cpu :=
  let c := { c with r2 := b.nextSpLoc }
  let c := { c with r1 := ldr c.mem c.r2 }
  let c := { c with r0 := ldr c.mem c.r1 }
  -- R8-R11, stored lowest
  let c := c.ldmia
  let c := { c with r8 := c.r4, r9 := c.r5, r10 := c.r6, r11 := c.r7 }
  -- R4-R7
  let c := c.ldmia
  -- msr psp, r0
  let c := { c with psp := c.r0 }
  let c := { c with r2 := b.runningSpLoc }
  { c with mem := str c.mem c.r2 c.r1 }

/-- `PendSV_Handler`. -/
def pendSvHandler (b : Board) (c : Cpu) : Cpu :=
  let c := { c with r2 := b.runningSpLoc }
  let c := { c with r1 := ldr c.mem c.r2 }
  pendSvRestore b (if c.r1 = 0 then pendSvFirstSwitch b c else pendSvSave c)

end Cpu

/-! ## irq.c -/

/-- `arch_switch_to`, up to the write that pends PendSV; the source does not use `from`. -/
def archSwitchTo (b : Board) (m : Mem) (_prev : Option Tid) (next : Tid) : Mem :=
  str m b.nextSpLoc (b.spLoc next)

/-- `thread->stack_base` -/
def Board.base (b : Board) (t : Tid) : Nat := (b.thr t).stackBase.getD 0

/-- `thread->stack_size` -/
def Board.size (b : Board) (t : Tid) : Nat := (b.thr t).stackSize

/-- The end of the stack, aligned down to 8. -/
def Board.top (b : Board) (t : Tid) : Word :=
  (UInt32.ofNat (b.base t) + UInt32.ofNat (b.size t)) &&& 0xFFFFFFF8

/-- `arch_thread_stack_init`. -/
def archThreadStackInit (b : Board) (m : Mem) (t : Tid) : Mem :=
  let frame := b.top t - 32
  -- the hardware exception frame
  let m := str m frame (UInt32.ofNat (b.thr t).arg)
  let m := str m (frame + 4) 1
  let m := str m (frame + 8) 2
  let m := str m (frame + 12) 3
  let m := str m (frame + 16) 0xC
  let m := str m (frame + 20) b.threadExit
  let m := str m (frame + 24) (UInt32.ofNat (b.thr t).entry)
  let m := str m (frame + 28) 0x01000000
  -- R4..R11 = 0 below it
  let swFrame := frame - 32
  let m := (List.range 8).foldl (fun m i => str m (swFrame + 4 * UInt32.ofNat i) 0) m
  str m (b.spLoc t) swFrame

/-! ## What a thread has when it leaves the CPU -/

/-- The registers the software saves. -/
structure Callee where
  r4 : Word
  r5 : Word
  r6 : Word
  r7 : Word
  r8 : Word
  r9 : Word
  r10 : Word
  r11 : Word
  deriving DecidableEq

/-- The registers the hardware saves. -/
structure Frame where
  r0 : Word
  r1 : Word
  r2 : Word
  r3 : Word
  r12 : Word
  lr : Word
  pc : Word
  xpsr : Word
  deriving DecidableEq

/-- All of it, with the stack pointer between the two. -/
structure Context where
  callee : Callee
  psp : Word
  frame : Frame
  deriving DecidableEq

/-- The hardware stores the frame at `a`. -/
def Frame.store (f : Frame) (m : Mem) (a : Word) : Mem :=
  let m := str m a f.r0
  let m := str m (a + 4) f.r1
  let m := str m (a + 8) f.r2
  let m := str m (a + 12) f.r3
  let m := str m (a + 16) f.r12
  let m := str m (a + 20) f.lr
  let m := str m (a + 24) f.pc
  str m (a + 28) f.xpsr

/-- The frame at `a`. -/
def Frame.load (m : Mem) (a : Word) : Frame :=
  ⟨ldr m a, ldr m (a + 4), ldr m (a + 8), ldr m (a + 12), ldr m (a + 16), ldr m (a + 20),
    ldr m (a + 24), ldr m (a + 28)⟩

/-- The registers on the CPU. -/
def Cpu.callee (c : Cpu) : Callee := ⟨c.r4, c.r5, c.r6, c.r7, c.r8, c.r9, c.r10, c.r11⟩

/-- The context on the CPU, between exception entry and return. -/
def Cpu.context (c : Cpu) : Context := ⟨c.callee, c.psp, Frame.load c.mem c.psp⟩

/-- What a thread starts with: `entry(arg)`, returning to `_vibe_thread_exit`. -/
def Board.initial (b : Board) (t : Tid) : Context where
  callee := ⟨0, 0, 0, 0, 0, 0, 0, 0⟩
  psp := b.top t - 32
  frame := ⟨UInt32.ofNat (b.thr t).arg, 1, 2, 3, 0xC, b.threadExit,
    UInt32.ofNat (b.thr t).entry, 0x01000000⟩

end VibeRtos
