import VibeRtos.Sys.List

/-!
# Threads and the scheduler's globals

The data of `types.h` and `thread.h`, and the file-scope variables of `sched.c`
and `init.c` in one record. The three list nodes embedded in a control block are
kept as three node memories, one for each kind of list.

Priorities are `Fin 32`: every store to `priority` in the kernel comes from a value
that was checked against `VIBE_PRIO_MAX`, or from another priority.
-/

namespace VibeRtos

open Links

/-- The address of a `vibe_thread_t`: 32 bits wide and not `NULL`. -/
abbrev Tid := Fin 4294967295

/-- `VIBE_PRIO_MIN .. VIBE_PRIO_MAX`, with `CONFIG_NUM_PRIORITIES = 32`. -/
abbrev Prio := Fin 32

/-- There are addresses other than `NULL`. -/
instance instNeZeroAddresses : NeZero 4294967295 := ⟨by decide⟩

/-- There are priorities. -/
instance instNeZeroPriorities : NeZero 32 := ⟨by decide⟩

/-- Addresses are compared as numbers. -/
instance instLawfulBEqTid : LawfulBEq Tid := inferInstance

/-- `vibe_err_t`. -/
inductive Err where
  | ok | etimeout | enomem | einval | ebusy | eagain | enosys | enodev | eperm | edeadlk | eoverflow
  deriving DecidableEq, Repr

/-- `VIBE_PRIO_MAX`. -/
def prioMax : UInt8 := 31

/-- `VIBE_WAIT_FOREVER`. -/
def waitForever : UInt32 := 0xFFFFFFFF

/-- `VIBE_NO_WAIT`. -/
def noWait : UInt32 := 0

/-- The build-time configuration the kernel reads. -/
structure Config where
  /-- `CONFIG_SYS_CLOCK_HZ` -/
  sysClockHz : Nat
  /-- `CONFIG_TIMESLICE_MS` -/
  timesliceMs : UInt32
  /-- `CONFIG_TLS` -/
  tls : Bool

/-- `VIBE_MS_TO_TICKS`. -/
def msToTicks (cfg : Config) (ms : UInt32) : UInt32 :=
  UInt32.ofNat (ms.toNat * cfg.sysClockHz / 1000)

/-- `vibe_thread_state_t`. -/
inductive ThreadState where
  | ready | running | suspended | sleeping | waiting | dead
  deriving DecidableEq, Repr

/-- `vibe_thread_t`, without its list nodes and its saved context. -/
structure Thread where
  id : UInt32
  name : List UInt8
  state : ThreadState
  priority : Prio
  basePriority : Prio
  entry : Nat
  arg : Nat
  stackBase : Option Nat
  stackSize : Nat
  timeout : UInt32
  tls : Option Nat
  cpuId : UInt8
  isStatic : Bool
  deriving DecidableEq

/-- The control block `VIBE_THREAD_DEFINE` declares, before `vibe_thread_create`. -/
def threadDefine (name : List UInt8) (stackSize entry arg stackBase : Nat) (prio : Prio) :
    Thread where
  id := 0
  name := name
  state := .suspended
  priority := prio
  basePriority := prio
  entry := entry
  arg := arg
  stackBase := some stackBase
  stackSize := stackSize
  timeout := 0
  tls := none
  cpuId := 0
  isStatic := true

/-- The states in which a thread belongs to a run queue. -/
def ThreadState.Active (s : ThreadState) : Prop := s = .ready ∨ s = .running

instance (s : ThreadState) : Decidable s.Active := inferInstanceAs (Decidable (_ ∨ _))

/-- `vibe_thread_attr_t`. -/
structure ThreadAttr where
  stackSize : Nat
  priority : UInt8
  name : Option (List UInt8)
  isStatic : Bool
  cpuId : Int

/-- The globals of the scheduler, the threads and the tick counter. -/
structure Kernel where
  thr : Tid → Thread
  /-- every thread's `sched_node` -/
  schedNode : Tid → Link Tid
  /-- every thread's `wait_node` -/
  waitNode : Tid → Link Tid
  /-- every thread's `sleep_node` -/
  sleepNode : Tid → Link Tid
  runQueues : Prio → VList Tid
  readyMask : BitVec 32
  sleepList : VList Tid
  current : Option Tid
  idle : Option Tid
  schedLockCount : Nat
  tickCount : UInt32
  sliceLeft : UInt32
  nextThreadId : UInt32

/-- Update the control block of `t`. -/
def Kernel.modThread (k : Kernel) (t : Tid) (f : Thread → Thread) : Kernel :=
  { k with thr := Function.update k.thr t (f (k.thr t)) }

section ModThread

variable (k : Kernel) (t : Tid) (f : Thread → Thread)

@[simp] theorem modThread_self : (k.modThread t f).thr t = f (k.thr t) := by
  simp [Kernel.modThread]

@[simp] theorem modThread_of_ne {u : Tid} (h : u ≠ t) : (k.modThread t f).thr u = k.thr u := by
  simp [Kernel.modThread, h]

theorem modThread_thr (u : Tid) :
    (k.modThread t f).thr u = if u = t then f (k.thr t) else k.thr u := by
  by_cases h : u = t
  · subst h; simp
  · simp [h]

@[simp] theorem modThread_schedNode : (k.modThread t f).schedNode = k.schedNode := rfl
@[simp] theorem modThread_waitNode : (k.modThread t f).waitNode = k.waitNode := rfl
@[simp] theorem modThread_sleepNode : (k.modThread t f).sleepNode = k.sleepNode := rfl
@[simp] theorem modThread_runQueues : (k.modThread t f).runQueues = k.runQueues := rfl
@[simp] theorem modThread_readyMask : (k.modThread t f).readyMask = k.readyMask := rfl
@[simp] theorem modThread_sleepList : (k.modThread t f).sleepList = k.sleepList := rfl
@[simp] theorem modThread_current : (k.modThread t f).current = k.current := rfl
@[simp] theorem modThread_idle : (k.modThread t f).idle = k.idle := rfl
@[simp] theorem modThread_schedLockCount :
    (k.modThread t f).schedLockCount = k.schedLockCount := rfl
@[simp] theorem modThread_tickCount : (k.modThread t f).tickCount = k.tickCount := rfl

end ModThread

/-- Every list of distinct threads fits in the walk bound. -/
theorem length_le_walkBound {xs : List Tid} (h : xs.Nodup) : xs.length ≤ walkBound := by
  have hle := h.length_le_card
  rw [Fintype.card_fin] at hle
  exact hle.trans (by decide)

end VibeRtos
