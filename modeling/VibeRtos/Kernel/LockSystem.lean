import VibeRtos.Kernel.Grants
import VibeRtos.Kernel.SubmitSystem

/-!
# The kernel in IRQ-locked sections

While the scheduler is locked it does not matter who runs: the calls of a thread and of the
interrupts around it are sequences of IRQ-locked sections, and a run is any interleaving
of them. The tick handler counts as four sections, since the timers it serves in between
may call into the kernel.
-/

namespace VibeRtos

open Links Kernel

/-- The machine and the work queues; queue `i` has semaphore `i` of the machine. -/
structure LockSys where
  sys : Sys
  mem : WorkMem
  workq : Nat → Workq

/-- The IRQ-locked sections of the calls. -/
inductive Section where
  | threadCreate (t : Tid) (entry arg : Nat) (attr : Option ThreadAttr)
      (stack heapStack : Option Nat)
  | threadResume (t : Tid)
  | semGive (i : Nat)
  | eventPost (i : Nat) (flags : UInt32)
  | memPoolFree (i ptr : Nat)
  /-- `vibe_work_submit`, up to the give -/
  | workSubmit (i : Nat) (w : WorkId)
  /-- `vibe_msgq_put(.., VIBE_NO_WAIT)` -/
  | msgqPut (i : Nat) (self : Tid) (data : Nat → UInt8)
  /-- `vibe_msgq_get(.., VIBE_NO_WAIT)` -/
  | msgqGet (i : Nat) (self : Tid)
  /-- the tick handler: the count -/
  | tick
  /-- the tick handler: `_vibe_sched_wake_expired` -/
  | wakeExpired
  /-- the tick handler: `_vibe_sched_timeslice_tick` -/
  | timeslice
  /-- `_vibe_sched_reschedule`, at the end of the tick handler and of most calls -/
  | reschedule
  | lock
  | unlock

namespace LockSys

/-- How often the scheduler is locked. -/
def lockCount (s : LockSys) : Nat := s.sys.k.schedLockCount

/-- One section. -/
def exec (cfg : Config) (s : LockSys) : Section → LockSys
  | .threadCreate t entry arg attr stack heapStack =>
      { s with sys := { s.sys with
        k := (Kernel.threadCreate cfg s.sys.k t entry arg attr stack heapStack).2 } }
  | .threadResume t => { s with sys := { s.sys with k := (Kernel.threadResume s.sys.k t).2 } }
  | .semGive i =>
      let r := VibeRtos.semGive s.sys.k (s.sys.sem i)
      { s with sys := { s.sys with k := r.1, sem := Function.update s.sys.sem i r.2.1 } }
  | .eventPost i flags =>
      let r := VibeRtos.eventPost s.sys.k (s.sys.event i) s.sys.eventCtx flags
      { s with sys := { s.sys with
        k := r.1
        event := Function.update s.sys.event i r.2.1
        eventCtx := r.2.2 } }
  | .memPoolFree i ptr =>
      let r := VibeRtos.memPoolFree s.sys.k s.sys.mem (s.sys.pool i) ptr
      { s with sys := { s.sys with
        k := r.1
        mem := r.2.1
        pool := Function.update s.sys.pool i r.2.2.1 } }
  | .workSubmit i w =>
      let r := VibeRtos.workSubmit s.mem { s.workq i with sem := s.sys.sem i } w
      { s with mem := r.2.1, workq := Function.update s.workq i r.2.2 }
  | .msgqPut i self data =>
      let r := VibeRtos.msgqPut s.sys.k (s.sys.msgq i) self data noWait
      { s with sys := { s.sys with k := r.1, msgq := Function.update s.sys.msgq i r.2.1 } }
  | .msgqGet i self =>
      let r := VibeRtos.msgqGet s.sys.k (s.sys.msgq i) self noWait
      { s with sys := { s.sys with k := r.1, msgq := Function.update s.sys.msgq i r.2.1 } }
  | .tick =>
      { s with sys := { s.sys with k := { s.sys.k with tickCount := s.sys.k.tickCount + 1 } } }
  | .wakeExpired => { s with sys := { s.sys with k := s.sys.k.schedWakeExpired s.sys.k.tickCount } }
  | .timeslice => { s with sys := { s.sys with k := s.sys.k.schedTimesliceTick cfg } }
  | .reschedule => { s with sys := { s.sys with k := s.sys.k.schedReschedule } }
  | .lock => { s with sys := { s.sys with k := s.sys.k.schedLock } }
  | .unlock => { s with sys := { s.sys with k := s.sys.k.schedUnlock } }

/-- One step of a run. -/
def step (cfg : Config) (s : LockSys) (l : Section) : Option LockSys := some (s.exec cfg l)

/-- The tick handler with no timer armed. -/
theorem exec_tickHandler (cfg : Config) (s : LockSys) :
    ([.tick, .wakeExpired, .timeslice, .reschedule].foldl (exec cfg) s).sys.k
      = sysTickHandler cfg s.sys.k := by
  simp only [List.foldl, exec, sysTickHandler]

/-! ## Who is made ready -/

/-- The run queue of a priority. -/
def queue (s : LockSys) (p : Prio) : List Tid :=
  listNodes s.sys.k.schedNode (s.sys.k.runQueues p)

/-- The sleep list. -/
def sleepers (s : LockSys) : List Tid := listNodes s.sys.k.sleepNode s.sys.k.sleepList

/-- A post of `flags` meets the condition of the waiter. -/
def meets (s : LockSys) (flags : UInt32) (t : Tid) : Bool :=
  match (s.sys.k.thr t).tls with
  | some c => flagsSatisfied flags (s.sys.eventCtx c).waitFlags (s.sys.eventCtx c).waitMode
  | none => false

/-- The arguments `vibe_thread_create` accepts. -/
def Accepted (entry : Nat) (attr : Option ThreadAttr) (stack heapStack : Option Nat) : Prop :=
  entry ≠ 0 ∧ attr.any (fun a => a.priority ≤ prioMax) ∧ stack.or heapStack ≠ none

instance (entry : Nat) (attr : Option ThreadAttr) (stack heapStack : Option Nat) :
    Decidable (Accepted entry attr stack heapStack) := inferInstanceAs (Decidable (_ ∧ _))

/-- The slice of the running thread is over, and others of its priority are ready. -/
def Rotates (cfg : Config) (s : LockSys) (t : Tid) : Prop :=
  cfg.timesliceMs ≠ 0 ∧ s.sys.k.current = some t ∧ (s.sys.k.thr t).state = .running
    ∧ s.sys.k.sliceLeft ≤ 1 ∧ 1 < (s.queue (s.sys.k.thr t).priority).length

instance (cfg : Config) (s : LockSys) (t : Tid) : Decidable (Rotates cfg s t) :=
  inferInstanceAs (Decidable (_ ∧ _))

/-- The threads a section makes ready, in order; a thread at the end of its slice starts anew. -/
def readied (cfg : Config) (s : LockSys) : Section → List Tid
  | .threadCreate t entry _ attr stack heapStack =>
      if Accepted entry attr stack heapStack then [t] else []
  | .threadResume t => if (s.sys.k.thr t).state = .suspended then [t] else []
  | .semGive i => ((WaitList.sem i).nodes s.sys).head?.toList
  | .eventPost i flags => ((WaitList.event i).nodes s.sys).filter
      (s.meets ((s.sys.event i).flags ||| flags))
  | .memPoolFree i ptr =>
      let p := s.sys.pool i
      if ptr ≠ 0 ∧ p.blocks ≤ ptr ∧ ptr < p.blocks + (p.numBlocks * p.blockSize).toNat
      then ((WaitList.pool i).nodes s.sys).head?.toList else []
  | .msgqPut i _ _ => if (s.sys.msgq i).used < (s.sys.msgq i).maxMsgs
      then ((WaitList.msgqRead i).nodes s.sys).head?.toList else []
  | .msgqGet i _ => if (s.sys.msgq i).used > 0
      then ((WaitList.msgqWrite i).nodes s.sys).head?.toList else []
  | .wakeExpired => s.sleepers.takeWhile fun t => (s.sys.k.thr t).timeout ≤ s.sys.k.tickCount
  | .timeslice => match s.sys.k.current with
      | some t => if Rotates cfg s t then [t] else []
      | none => []
  | .workSubmit .. | .tick | .reschedule | .lock | .unlock => []

/-- The threads made ready in a run, in order. -/
def arrivals (cfg : Config) : LockSys → List Section → List Tid
  | _, [] => []
  | s, l :: ls => readied cfg s l ++ arrivals cfg (s.exec cfg l) ls

/-! ## Conditions on a run -/

/-- A thread is created in a control block that no list of the kernel holds. -/
def Fresh (s : LockSys) : Section → Prop
  | .threadCreate t entry _ attr stack heapStack => Accepted entry attr stack heapStack →
      (∀ p, t ∉ s.queue p) ∧ t ∉ s.sleepers ∧ ∀ L : WaitList, t ∉ L.nodes s.sys
  | _ => True

/-- A reschedule finds the scheduler locked. -/
def Held (s : LockSys) (l : Section) : Prop := l = .reschedule → 0 < s.lockCount

end LockSys

end VibeRtos
