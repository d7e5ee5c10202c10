import VibeRtos.Kernel.Sched
import VibeRtos.Lib.PrioFifo

/-!
# The sleep list in use

The calls that make threads sleep and wake, and a record of who sleeps, in order of arrival.
-/

namespace VibeRtos

open Links Kernel PrioFifo

/-- The kernel, and the sleepers with their expiries in the order of the calls. -/
structure SleepSys where
  k : Kernel
  log : List (Tid × UInt32)

namespace SleepSys

inductive Label where
  /-- `_vibe_sched_sleep` -/
  | sleep (t : Tid) (expiry : UInt32)
  /-- `_vibe_sched_wake_expired` -/
  | wake (now : UInt32)
  /-- whatever else the kernel does that leaves the sleep list alone -/
  | elsewhere (k : Kernel)

/-- `k` becomes `k'`, but for the sleep list and the expiries of the threads in it. -/
def outside (k k' : Kernel) : Kernel :=
  let asleep := listNodes k.sleepNode k.sleepList
  { k' with
    sleepNode := fun t => if t ∈ asleep then k.sleepNode t else k'.sleepNode t
    sleepList := k.sleepList
    thr := fun t =>
      if t ∈ asleep then { k'.thr t with timeout := (k.thr t).timeout } else k'.thr t }

/-- One call. -/
def step (s : SleepSys) : Label → Option SleepSys
  | .sleep t expiry =>
      if t ∈ listNodes s.k.sleepNode s.k.sleepList then none
      else some ⟨s.k.schedSleep t expiry, arrive s.log t expiry⟩
  | .wake now => some ⟨s.k.schedWakeExpired now, s.log.filter fun e => ¬ e.2 ≤ now⟩
  | .elsewhere k => some { s with k := outside s.k k }

end SleepSys

end VibeRtos
