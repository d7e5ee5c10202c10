import VibeRtos.Kernel.Wait

/-!
# Mutexes with priority inheritance

`mutex.c`. `mutexLock` is the IRQ-locked section of `vibe_mutex_lock`, `mutexLockWake`
the unlocked check made when the caller runs again.
-/

namespace VibeRtos

open Kernel

/-- `vibe_mutex_t`. -/
structure Mutex where
  owner : Option Tid
  lockCount : UInt32
  waitList : VList Tid
  ownerOrigPrio : Prio

/-- `vibe_mutex_init`. -/
def mutexInit : Mutex := ⟨none, 0, listInit, 0⟩

/-- Priority inheritance: raise the owner to the caller's priority, and re-enqueue it if READY. -/
def mutexBoost (k : Kernel) (self owner : Tid) : Kernel :=
  if (k.thr owner).priority < (k.thr self).priority then
    let k := k.modThread owner fun th => { th with priority := (k.thr self).priority }
    if (k.thr owner).state = .ready then (k.schedDequeue owner).schedEnqueue owner else k
  else k

/-- Link the caller on the wait list, highest priority first. Before the head the source passes
a `NULL` anchor to `vibe_list_insert_after`, which dereferences it: `none`. -/
def mutexQueue (k : Kernel) (l : VList Tid) (self : Tid) : Option (Kernel × VList Tid) :=
  match (listNodes k.waitNode l).find? fun t => (k.thr t).priority < (k.thr self).priority with
  | some t =>
      match (k.waitNode t).prev with
      | some p => some (k.waitInsertAfter l p self)
      | none => none
  | none => some (k.waitAppend l self)

/-- `vibe_mutex_lock`, up to the reschedule. -/
def mutexLock (k : Kernel) (m : Mutex) (self : Tid) (timeout : UInt32) :
    Option (Kernel × Mutex × Flow Err) :=
  if m.owner = some self then some (k, { m with lockCount := m.lockCount + 1 }, .done .ok)
  else
    match m.owner with
    | none =>
        some (k, { m with
          owner := some self
          lockCount := 1
          ownerOrigPrio := (k.thr self).priority }, .done .ok)
    | some owner =>
        if timeout = noWait then some (k, m, .done .ebusy)
        else
          let k := mutexBoost k self owner
          let k := k.block self (k.deadline timeout)
          (mutexQueue k m.waitList self).map fun r => (r.1, { m with waitList := r.2 }, .block)

/-- `vibe_mutex_lock` once the blocked caller runs again. -/
def mutexLockWake (k : Kernel) (m : Mutex) (self : Tid) : Err :=
  if (k.thr self).state.Active ∧ m.owner = some self then .ok else .etimeout

/-- `vibe_mutex_trylock`. -/
def mutexTrylock (k : Kernel) (m : Mutex) (self : Tid) : Option (Kernel × Mutex × Flow Err) :=
  mutexLock k m self noWait

/-- Undo the boost: back to the priority saved in the mutex, re-enqueued if READY. -/
def mutexRestore (k : Kernel) (self : Tid) (prio : Prio) : Kernel :=
  let k := k.modThread self fun th => { th with priority := prio }
  if (k.thr self).state = .ready then (k.schedDequeue self).schedEnqueue self else k

/-- `vibe_mutex_unlock`. -/
def mutexUnlock (k : Kernel) (m : Mutex) (self : Tid) : Kernel × Mutex × Flow Err :=
  if m.owner ≠ some self then (k, m, .done .eperm)
  else
    let m := { m with lockCount := m.lockCount - 1 }
    if m.lockCount > 0 then (k, m, .done .ok)
    else
      let k := mutexRestore k self m.ownerOrigPrio
      match k.waitGetHead m.waitList with
      | (some next, k, l) =>
          (k.schedEnqueue next, { m with
            owner := some next
            lockCount := 1
            ownerOrigPrio := (k.thr next).basePriority
            waitList := l }, .resched .ok)
      | (none, k, l) =>
          (k, { m with owner := none, lockCount := 0, waitList := l }, .resched .ok)

end VibeRtos
