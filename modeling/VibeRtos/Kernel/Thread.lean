import VibeRtos.Kernel.Sched

/-!
# Thread lifecycle

`thread.c`. Each function is the part of the call that runs before
`_vibe_sched_reschedule`; whether the call goes on to reschedule is decided where
the calls are put together. A `NULL` thread argument stands for the caller and is
resolved there too.
-/

namespace VibeRtos

open Links

namespace Kernel

/-- `strncpy(thread->name, attr->name, sizeof(thread->name) - 1)` into zeroed memory. -/
def copyName (name : Option (List UInt8)) : List UInt8 := (name.getD []).take 31

/-- The control block `vibe_thread_create` fills in. -/
def newThread (cfg : Config) (id : UInt32) (entry arg : Nat) (attr : ThreadAttr) (prio : Prio)
    (stackBuf stackSize : Nat) : Thread where
  id := id
  name := copyName attr.name
  state := .suspended
  priority := prio
  basePriority := prio
  entry := entry
  arg := arg
  stackBase := some stackBuf
  stackSize := stackSize
  timeout := 0
  tls := if cfg.tls then some (stackBuf + stackSize - 4) else none
  cpuId := if attr.cpuId < 0 then 0 else UInt8.ofNat attr.cpuId.toNat
  isStatic := attr.isStatic

/--
`vibe_thread_create`. `stack` is the caller's buffer and `heapStack` what
`vibe_heap_alloc` returns for the stack; `NULL` is `none`.
-/
def threadCreate (cfg : Config) (k : Kernel) (t : Tid) (entry arg : Nat)
    (attr : Option ThreadAttr) (stack heapStack : Option Nat) : Err × Kernel :=
  match attr with
  | none => (.einval, k)
  | some attr =>
  if entry = 0 then (.einval, k)
  else if h : attr.priority > prioMax then (.einval, k)
  else
    let stackSize := if attr.stackSize > 0 then attr.stackSize else 512
    match stack.or heapStack with
    | none => (.enomem, k)
    | some stackBuf =>
        let prio : Prio := ⟨attr.priority.toNat, by
          have := UInt8.le_iff_toNat_le.mp (UInt8.not_lt.mp h); simp [prioMax] at this; omega⟩
        let th := newThread cfg k.nextThreadId entry arg attr prio stackBuf stackSize
        let k := { k with
          nextThreadId := k.nextThreadId + 1
          thr := Function.update k.thr t th
          schedNode := Function.update k.schedNode t listNodeInit
          waitNode := Function.update k.waitNode t listNodeInit
          sleepNode := Function.update k.sleepNode t listNodeInit }
        (.ok, k.schedEnqueue t)

/-- `vibe_thread_delete`; a stack that is not static goes back to the heap. -/
def threadDelete (k : Kernel) (t : Tid) : Kernel :=
  let k := if (k.thr t).state.Active then k.schedDequeue t else k
  k.modThread t fun th =>
    { th with state := .dead, stackBase := if th.isStatic then th.stackBase else none }

/-- `vibe_thread_suspend`. -/
def threadSuspend (k : Kernel) (t : Tid) : Err × Kernel :=
  if (k.thr t).state = .dead then (.einval, k)
  else
    let k := if (k.thr t).state.Active then k.schedDequeue t else k
    (.ok, k.modThread t fun th => { th with state := .suspended })

/-- `vibe_thread_resume`. -/
def threadResume (k : Kernel) (t : Tid) : Err × Kernel :=
  if (k.thr t).state ≠ .suspended then (.einval, k) else (.ok, k.schedEnqueue t)

/-- `vibe_thread_sleep`. -/
def threadSleep (cfg : Config) (k : Kernel) (self : Tid) (ms : UInt32) : Kernel :=
  let expiry := k.tickCount + msToTicks cfg ms
  (k.schedDequeue self).schedSleep self expiry

/-- `vibe_thread_yield`. -/
def threadYield (k : Kernel) (self : Tid) : Kernel := (k.schedDequeue self).schedEnqueue self

/-- `vibe_thread_restart`. -/
def threadRestart (k : Kernel) (t : Tid) : Kernel :=
  let k :=
    if (k.thr t).state = .ready then k.schedDequeue t
    else if (k.thr t).state = .sleeping then k.sleepRemove t
    else k
  let k := k.modThread t fun th =>
    { th with priority := th.basePriority, state := .suspended, timeout := 0 }
  k.schedEnqueue t

/-- `vibe_thread_set_priority`. -/
def threadSetPriority (k : Kernel) (t : Tid) (priority : UInt8) : Err × Kernel :=
  if h : priority > prioMax then (.einval, k)
  else
    let prio : Prio := ⟨priority.toNat, by
      have := UInt8.le_iff_toNat_le.mp (UInt8.not_lt.mp h); simp [prioMax] at this; omega⟩
    let wasReady := (k.thr t).state = .ready
    let k := if wasReady then k.schedDequeue t else k
    let k := k.modThread t fun th => { th with priority := prio, basePriority := prio }
    (.ok, if wasReady then k.schedEnqueue t else k)

end Kernel

end VibeRtos
