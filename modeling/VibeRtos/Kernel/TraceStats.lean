import VibeRtos.Kernel.Sched
import VibeRtos.Lib.Runs

/-!
# Runtime statistics

With `CONFIG_TRACE` the scheduler keeps three counters in each TCB, written where it changes
`g_current_thread` and nowhere else. `g_current_thread` and `g_tick_count` are static in sched.c and
init.c, so whatever the rest of the kernel does between two calls of the scheduler, these two stay
as they are: the machine below leaves it everything else.
-/

namespace VibeRtos

open Kernel

/-- `vibe_trace_thread_stats_t`, and the fields of the TCB that it is filled from. -/
structure TraceStats where
  switchInCount : UInt32
  lastSwitchIn : UInt32
  totalRuntime : UInt32
  deriving DecidableEq

/-- `memset` -/
def TraceStats.zero : TraceStats := ⟨0, 0, 0⟩

/-- The runtime statistics at a switch from `prev` to `next`. -/
def traceSwitch (now : UInt32) (prev : Option Tid) (next : Tid) (st : Tid → TraceStats) :
    Tid → TraceStats :=
  let st :=
    match prev with
    | none => st
    | some p => Function.update st p { st p with
        totalRuntime := (st p).totalRuntime + (now - (st p).lastSwitchIn) }
  Function.update st next { st next with
    switchInCount := (st next).switchInCount + 1
    lastSwitchIn := now }

/-- `_vibe_sched_reschedule` with `CONFIG_TRACE`. -/
def schedRescheduleTraced (k : Kernel) (st : Tid → TraceStats) : Kernel × (Tid → TraceStats) :=
  if k.schedLockCount > 0 then (k, st)
  else
    match k.schedNextThread with
    | none => (k, st)
    | some next =>
        if k.current = some next then (k, st)
        else (k.switchTo next, traceSwitch k.tickCount k.current next st)

/-- `vibe_sched_start` with `CONFIG_TRACE`, up to the first context switch. -/
def schedStartTraced (k : Kernel) (st : Tid → TraceStats) : Kernel × (Tid → TraceStats) :=
  match k.schedNextThread with
  | none => (k, st)
  | some t => (k.schedStart, traceSwitch k.tickCount none t st)

/-- `vibe_trace_thread_stats`; `none` as an argument stands for `NULL`, and `stats` says whether
there is somewhere to write to. -/
def traceThreadStats (trace : Bool) (k : Kernel) (st : Tid → TraceStats) (thread : Option Tid)
    (stats : Bool) : Err × Option TraceStats :=
  if stats = false then (.einval, none)
  else
    match thread.or k.current with
    | none => (.einval, none)
    | some t => (.ok, some (if trace then st t else .zero))

/-- The kernel, the statistics, and beside them what they are to count: the ticks that came while a
thread was current and how often it was made current, both since the thread was created, and the
ticks that came while there was a current thread. -/
structure TraceSys where
  k : Kernel
  stats : Tid → TraceStats
  ran : Tid → Nat
  chosen : Tid → Nat
  elapsed : Nat

namespace TraceSys

/-- What happens next. -/
inductive Label where
  /-- `vibe_sched_start` -/
  | start
  /-- `_vibe_sched_reschedule` -/
  | reschedule
  /-- `g_tick_count++` -/
  | tick
  /-- the `memset` of `vibe_thread_create` -/
  | create (t : Tid)
  /-- anything else that the kernel does -/
  | other (k : Kernel)

/-- Count what the call of the scheduler made of `g_current_thread`. -/
def choose (s : TraceSys) (r : Kernel × (Tid → TraceStats)) : TraceSys :=
  { s with
    k := r.1
    stats := r.2
    chosen :=
      match r.1.current with
      | none => s.chosen
      | some t =>
          if s.k.current = some t then s.chosen
          else Function.update s.chosen t (s.chosen t + 1) }

/-- `vibe_sched_start` runs before there is a current thread. -/
def step (s : TraceSys) : Label → Option TraceSys
  | .start =>
      match s.k.current with
      | some _ => none
      | none => some (s.choose (schedStartTraced s.k s.stats))
  | .reschedule => some (s.choose (schedRescheduleTraced s.k s.stats))
  | .tick => some { s with
      k := { s.k with tickCount := s.k.tickCount + 1 }
      ran :=
        match s.k.current with
        | none => s.ran
        | some c => Function.update s.ran c (s.ran c + 1)
      elapsed := if s.k.current = none then s.elapsed else s.elapsed + 1 }
  | .create t => some { s with
      stats := Function.update s.stats t .zero
      ran := Function.update s.ran t 0
      chosen := Function.update s.chosen t 0 }
  | .other k =>
      if k.current = s.k.current ∧ k.tickCount = s.k.tickCount then some { s with k := k }
      else none

/-- The C start-up code leaves everything zero. -/
structure Initial (s : TraceSys) : Prop where
  current : s.k.current = none
  stats : ∀ t, s.stats t = .zero
  ran : ∀ t, s.ran t = 0
  chosen : ∀ t, s.chosen t = 0
  elapsed : s.elapsed = 0

/-- The TCB of the current thread is not created anew. -/
def Spares (s : TraceSys) : Label → Prop
  | .create t => s.k.current ≠ some t
  | _ => True

/-- No TCB is created anew. -/
def Keeps (_ : TraceSys) : Label → Prop
  | .create _ => False
  | _ => True

/-- The ticks since the current thread was switched in. -/
def running (s : TraceSys) (t : Tid) : UInt32 :=
  if s.k.current = some t then s.k.tickCount - (s.stats t).lastSwitchIn else 0

end TraceSys

end VibeRtos
