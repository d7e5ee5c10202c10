import VibeRtos.Kernel.Mutex
import VibeRtos.Kernel.Sem
import VibeRtos.Kernel.Msgq
import VibeRtos.Kernel.Event
import VibeRtos.Kernel.MemPool
import VibeRtos.Kernel.Pipe

/-!
# The kernel as one machine

The scheduler, the threads, the synchronisation objects and, for each thread, the
point it has reached inside a kernel call. A step is one IRQ-locked section of the
current thread, one of its unlocked checks, one run of the tick handler, or one
call from an interrupt. The scheduler's own choice is what `schedReschedule` makes
of it: whoever is current takes the next thread-level step.
-/

namespace VibeRtos

open Links Kernel ByteMem

/-- What a kernel call returned. -/
inductive Ret where
  | void
  | err (e : Err)
  | msg (e : Err) (bytes : List UInt8)
  | ptr (p : Nat)
  | count (n : Int)
  | read (n : Int) (bytes : List UInt8)
  deriving DecidableEq

/-- What a call still has to do. -/
inductive After where
  /-- return to the caller -/
  | ret (r : Ret)
  /-- the priority comparison at the end of `vibe_thread_resume` -/
  | resumeCheck (t : Tid)
  /-- the test of the lock count at the end of `vibe_sched_unlock` -/
  | unlockCheck
  | mutexLockWake (m : Nat)
  | semTakeWake
  | msgqPutRetry (q : Nat) (data : Nat → UInt8)
  | msgqGetRetry (q : Nat)
  | eventWaitWake (ctx : Option Nat)
  | memPoolAllocRetry (p : Nat)
  | memPoolClear (p blk : Nat)
  | pipeWrite (p : Nat) (src : List UInt8) (written : Nat) (timeout stopAt : UInt32)
  | pipeRead (p len : Nat) (dst : Mem) (readCnt : Nat) (timeout stopAt : UInt32)

/-- The point a thread has reached. -/
inductive Pc where
  /-- in its own code -/
  | user
  /-- before a call of `_vibe_sched_reschedule` -/
  | resched (a : After)
  /-- behind it -/
  | at (a : After)

/-- The kernel calls; `none` as a thread stands for `NULL`. -/
inductive Call where
  | threadCreate (t : Tid) (entry arg : Nat) (attr : Option ThreadAttr)
    (stack heapStack : Option Nat)
  | threadDelete (t : Option Tid)
  | threadSuspend (t : Option Tid)
  | threadResume (t : Option Tid)
  | threadSleep (ms : UInt32)
  | threadYield
  | threadRestart (t : Option Tid)
  | threadSetPriority (t : Option Tid) (priority : UInt8)
  | schedLock
  | schedUnlock
  | mutexLock (m : Nat) (timeout : UInt32)
  | mutexUnlock (m : Nat)
  | semTake (s : Nat) (timeout : UInt32)
  | semGive (s : Nat)
  | semReset (s : Nat)
  | msgqPut (q : Nat) (data : Nat → UInt8) (timeout : UInt32)
  | msgqGet (q : Nat) (timeout : UInt32)
  | msgqPeek (q : Nat)
  | msgqPurge (q : Nat)
  | eventPost (e : Nat) (flags : UInt32)
  | eventClear (e : Nat) (flags : UInt32)
  | eventWait (e : Nat) (flags : UInt32) (mode : EventWaitMode) (timeout : UInt32)
  | memPoolAlloc (p : Nat) (timeout : UInt32)
  | memPoolFree (p ptr : Nat)
  | pipeWrite (p : Nat) (src : List UInt8) (timeout : UInt32)
  | pipeRead (p len : Nat) (dst : Mem) (timeout : UInt32)

/-- The state of the machine. -/
structure Sys where
  k : Kernel
  mem : Mem
  mutex : Nat → Mutex
  sem : Nat → Sem
  msgq : Nat → Msgq
  event : Nat → Event
  eventCtx : EventCtxMem
  pool : Nat → MemPool
  pipe : Nat → Pipe
  pc : Tid → Pc
  /-- what each thread's last call returned -/
  ret : Tid → Ret

/-- The wait lists of the kernel objects. -/
inductive WaitList where
  | mutex (i : Nat)
  | sem (i : Nat)
  | msgqRead (i : Nat)
  | msgqWrite (i : Nat)
  | event (i : Nat)
  | pool (i : Nat)
  | pipeRead (i : Nat)
  | pipeWrite (i : Nat)

/-- The anchor of a wait list. -/
def WaitList.anchor (s : Sys) : WaitList → VList Tid
  | .mutex i => (s.mutex i).waitList
  | .sem i => (s.sem i).waitList
  | .msgqRead i => (s.msgq i).readWait
  | .msgqWrite i => (s.msgq i).writeWait
  | .event i => (s.event i).waitList
  | .pool i => (s.pool i).waitList
  | .pipeRead i => (s.pipe i).readWait
  | .pipeWrite i => (s.pipe i).writeWait

/-- How a section goes on, as a program point. -/
def Flow.toPc {ρ : Type} (f : Flow ρ) (val : ρ → Ret) (wake : After) : Pc :=
  match f with
  | .done r => .at (.ret (val r))
  | .resched r => .resched (.ret (val r))
  | .block => .resched wake

namespace Sys

/-- The machine as the C start-up code leaves it, with every object zero. -/
def bss (cfg : Config) (thr : Tid → Thread) (idle : Option Tid) : Sys where
  k := Kernel.bss cfg thr idle
  mem := fun _ => 0
  mutex := fun _ => mutexInit
  sem := fun _ => ⟨0, 0, listInit⟩
  msgq := fun _ => ⟨fun _ => 0, 0, 0, 0, 0, 0, listInit, listInit⟩
  event := fun _ => ⟨0, listInit⟩
  eventCtx := fun _ => ⟨0, .any, false⟩
  pool := fun _ => ⟨0, 0, 0, 0, 0, listInit⟩
  pipe := fun _ => ⟨fun _ => 0, 0, 0, 0, 0, listInit, listInit⟩
  pc := fun _ => .user
  ret := fun _ => .void

/-- Move `t` to a program point. -/
def setPc (s : Sys) (t : Tid) (p : Pc) : Sys := { s with pc := Function.update s.pc t p }

/-- The first section of a call made by `self`; `none` when it dereferences `NULL`. -/
def enter (cfg : Config) (s : Sys) (self : Tid) : Call → Option Sys
  | .threadCreate t entry arg attr stack heapStack =>
      let r := threadCreate cfg s.k t entry arg attr stack heapStack
      let s := { s with k := r.2 }
      let s := if r.1 = .ok then s.setPc t .user else s
      some (s.setPc self (.at (.ret (.err r.1))))
  | .threadDelete t =>
      let t := t.getD self
      let s := { s with k := threadDelete s.k t }
      some (s.setPc self (if t = self then .resched (.ret (.err .ok)) else .at (.ret (.err .ok))))
  | .threadSuspend t =>
      let t := t.getD self
      let r := threadSuspend s.k t
      let s := { s with k := r.2 }
      some (s.setPc self
        (if r.1 = .ok ∧ t = self then .resched (.ret (.err r.1)) else .at (.ret (.err r.1))))
  | .threadResume none => some (s.setPc self (.at (.ret (.err .einval))))
  | .threadResume (some t) =>
      let r := threadResume s.k t
      let s := { s with k := r.2 }
      some (s.setPc self
        (if r.1 = .ok then .at (.resumeCheck t) else .at (.ret (.err r.1))))
  | .threadSleep ms =>
      some ({ s with k := threadSleep cfg s.k self ms }.setPc self (.resched (.ret .void)))
  | .threadYield =>
      some ({ s with k := threadYield s.k self }.setPc self (.resched (.ret .void)))
  | .threadRestart t =>
      let t := t.getD self
      let s := { s with k := threadRestart s.k t }
      some ((s.setPc t .user).setPc self (.at (.ret (.err .ok))))
  | .threadSetPriority t priority =>
      let t := t.getD self
      let r := threadSetPriority s.k t priority
      let s := { s with k := r.2 }
      some (s.setPc self
        (if r.1 = .ok then .resched (.ret (.err r.1)) else .at (.ret (.err r.1))))
  | .schedLock => some ({ s with k := schedLock s.k }.setPc self (.at (.ret .void)))
  | .schedUnlock => some ({ s with k := schedUnlock s.k }.setPc self (.at .unlockCheck))
  | .mutexLock m timeout =>
      (VibeRtos.mutexLock s.k (s.mutex m) self timeout).map fun r =>
        { s with k := r.1, mutex := Function.update s.mutex m r.2.1 }.setPc self
          (r.2.2.toPc .err (.mutexLockWake m))
  | .mutexUnlock m =>
      let r := VibeRtos.mutexUnlock s.k (s.mutex m) self
      some ({ s with k := r.1, mutex := Function.update s.mutex m r.2.1 }.setPc self
        (r.2.2.toPc .err (.mutexLockWake m)))
  | .semTake i timeout =>
      let r := VibeRtos.semTake s.k (s.sem i) self timeout
      some ({ s with k := r.1, sem := Function.update s.sem i r.2.1 }.setPc self
        (r.2.2.toPc .err .semTakeWake))
  | .semGive i =>
      let r := VibeRtos.semGive s.k (s.sem i)
      some ({ s with k := r.1, sem := Function.update s.sem i r.2.1 }.setPc self
        (r.2.2.toPc .err .semTakeWake))
  | .semReset i =>
      some ({ s with sem := Function.update s.sem i (VibeRtos.semReset (s.sem i)) }.setPc self
        (.at (.ret .void)))
  | .msgqPut i data timeout =>
      let r := VibeRtos.msgqPut s.k (s.msgq i) self data timeout
      some ({ s with k := r.1, msgq := Function.update s.msgq i r.2.1 }.setPc self
        (r.2.2.toPc .err (.msgqPutRetry i data)))
  | .msgqGet i timeout =>
      let r := VibeRtos.msgqGet s.k (s.msgq i) self timeout
      some ({ s with k := r.1, msgq := Function.update s.msgq i r.2.1 }.setPc self
        (r.2.2.toPc (fun v => .msg v.1 v.2) (.msgqGetRetry i)))
  | .msgqPeek i =>
      let r := VibeRtos.msgqPeek (s.msgq i)
      some (s.setPc self (.at (.ret (.msg r.1 r.2))))
  | .msgqPurge i =>
      let r := VibeRtos.msgqPurge s.k (s.msgq i)
      some ({ s with k := r.1, msgq := Function.update s.msgq i r.2 }.setPc self
        (.resched (.ret .void)))
  | .eventPost i flags =>
      let r := VibeRtos.eventPost s.k (s.event i) s.eventCtx flags
      some ({ s with k := r.1, event := Function.update s.event i r.2.1, eventCtx := r.2.2 }.setPc
        self (.resched (.ret (.err .ok))))
  | .eventClear i flags =>
      some ({ s with event := Function.update s.event i (VibeRtos.eventClear (s.event i) flags)
        }.setPc self (.at (.ret (.err .ok))))
  | .eventWait i flags mode timeout =>
      let ctx := (s.k.thr self).tls
      let r := VibeRtos.eventWait s.k (s.event i) s.eventCtx self flags mode timeout
      some ({ s with
        k := r.1
        event := Function.update s.event i r.2.1
        eventCtx := r.2.2.1 }.setPc self (r.2.2.2.toPc .err (.eventWaitWake ctx)))
  | .memPoolAlloc i timeout =>
      let r := VibeRtos.memPoolAlloc s.k s.mem (s.pool i) self timeout
      let s := { s with k := r.1, pool := Function.update s.pool i r.2.1 }
      some (s.setPc self (match r.2.2 with
        | .done blk => if blk ≠ 0 then .at (.memPoolClear i blk) else .at (.ret (.ptr 0))
        | f => f.toPc .ptr (.memPoolAllocRetry i)))
  | .memPoolFree i ptr =>
      let r := VibeRtos.memPoolFree s.k s.mem (s.pool i) ptr
      some ({ s with k := r.1, mem := r.2.1, pool := Function.update s.pool i r.2.2.1 }.setPc self
        (r.2.2.2.toPc .err (.memPoolAllocRetry i)))
  | .pipeWrite i src timeout =>
      some (s.setPc self (.at (.pipeWrite i src 0 timeout (s.k.deadline timeout))))
  | .pipeRead i len dst timeout =>
      some (s.setPc self (.at (.pipeRead i len dst 0 timeout (s.k.deadline timeout))))

/-- The next stretch of a call that `self` is inside of. -/
def resume (s : Sys) (self : Tid) : After → Sys
  | .ret r => { s with ret := Function.update s.ret self r }.setPc self .user
  | .resumeCheck t =>
      s.setPc self (if (s.k.thr self).priority < (s.k.thr t).priority
        then .resched (.ret (.err .ok)) else .at (.ret (.err .ok)))
  | .unlockCheck =>
      s.setPc self (if s.k.schedLockCount = 0 then .resched (.ret .void) else .at (.ret .void))
  | .mutexLockWake m =>
      s.setPc self (.at (.ret (.err (VibeRtos.mutexLockWake s.k (s.mutex m) self))))
  | .semTakeWake => s.setPc self (.at (.ret (.err (VibeRtos.semTakeWake s.k self))))
  | .msgqPutRetry i data =>
      let r := VibeRtos.msgqPutRetry (s.msgq i) data
      { s with msgq := Function.update s.msgq i r.1 }.setPc self (.at (.ret (.err r.2)))
  | .msgqGetRetry i =>
      let r := VibeRtos.msgqGetRetry (s.msgq i)
      { s with msgq := Function.update s.msgq i r.1 }.setPc self (.at (.ret (.msg r.2.1 r.2.2)))
  | .eventWaitWake ctx =>
      s.setPc self (.at (.ret (.err (VibeRtos.eventWaitWake s.eventCtx ctx))))
  | .memPoolAllocRetry i =>
      let r := VibeRtos.memPoolAllocRetry s.mem (s.pool i)
      { s with pool := Function.update s.pool i r.1 }.setPc self
        (if r.2 ≠ 0 then .at (.memPoolClear i r.2) else .at (.ret (.ptr 0)))
  | .memPoolClear i blk =>
      { s with mem := VibeRtos.memPoolClear s.mem (s.pool i) blk }.setPc self
        (.at (.ret (.ptr blk)))
  | .pipeWrite i src written timeout stopAt =>
      if written < src.length then
        let r := pipeWriteRound s.k (s.pipe i) self src written timeout stopAt
        { s with k := r.1, pipe := Function.update s.pipe i r.2.1 }.setPc self (match r.2.2 with
          | .ret => .at (.ret (.count (intOfSize written)))
          | .loop written => .resched (.pipeWrite i src written timeout stopAt))
      else s.setPc self (.at (.ret (.count (intOfSize written))))
  | .pipeRead i len dst readCnt timeout stopAt =>
      let got := Ret.read (intOfSize readCnt) (slice dst 0 readCnt)
      if readCnt < len then
        let r := pipeReadRound s.k (s.pipe i) self len dst readCnt timeout stopAt
        { s with k := r.1, pipe := Function.update s.pipe i r.2.1 }.setPc self (match r.2.2 with
          | .ret => .at (.ret got)
          | .loop done => .resched (.pipeRead i len done.1 done.2 timeout stopAt))
      else s.setPc self (.at (.ret got))

/-- The steps of the machine. -/
inductive Label where
  /-- `vibe_thread_create` from `vibe_init`, before the scheduler runs -/
  | boot (t : Tid) (entry arg : Nat) (attr : Option ThreadAttr) (stack heapStack : Option Nat)
  /-- `vibe_sched_start` -/
  | start
  /-- the current thread makes a kernel call -/
  | call (c : Call)
  /-- the current thread goes on with the call it is inside of -/
  | cont
  /-- `_vibe_sys_tick_handler` -/
  | tick
  /-- `vibe_sem_give` from an interrupt -/
  | isrSemGive (i : Nat)
  /-- `vibe_event_post` from an interrupt -/
  | isrEventPost (i : Nat) (flags : UInt32)

/-- One step; `none` when the label is not enabled or the section dereferences `NULL`. -/
def step (cfg : Config) (s : Sys) : Label → Option Sys
  | .boot t entry arg attr stack heapStack =>
      match s.k.current with
      | some _ => none
      | none =>
          let r := threadCreate cfg s.k t entry arg attr stack heapStack
          let s := { s with k := r.2 }
          some (if r.1 = .ok then s.setPc t .user else s)
  | .start =>
      match s.k.current with
      | some _ => none
      | none => some { s with k := schedStart s.k }
  | .call c =>
      match s.k.current with
      | none => none
      | some self =>
          match s.pc self with
          | .user => s.enter cfg self c
          | _ => none
  | .cont =>
      match s.k.current with
      | none => none
      | some self =>
          match s.pc self with
          | .user => none
          | .resched a => some ({ s with k := schedReschedule s.k }.setPc self (.at a))
          | .at a => some (s.resume self a)
  | .tick => some { s with k := sysTickHandler cfg s.k }
  | .isrSemGive i =>
      let r := VibeRtos.semGive s.k (s.sem i)
      let s := { s with k := r.1, sem := Function.update s.sem i r.2.1 }
      some (match r.2.2 with
        | .resched _ => { s with k := schedReschedule s.k }
        | _ => s)
  | .isrEventPost i flags =>
      let r := VibeRtos.eventPost s.k (s.event i) s.eventCtx flags
      some { s with
        k := schedReschedule r.1
        event := Function.update s.event i r.2.1
        eventCtx := r.2.2 }

end Sys

end VibeRtos
