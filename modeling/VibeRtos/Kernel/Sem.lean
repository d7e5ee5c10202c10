import VibeRtos.Kernel.Wait

/-!
# Counting semaphores

`sem.c`.
-/

namespace VibeRtos

open Kernel

/-- `vibe_sem_t`. -/
structure Sem where
  count : UInt32
  maxCount : UInt32
  waitList : VList Tid

/-- `vibe_sem_init`. -/
def semInit (initial max : UInt32) : Option Sem :=
  if max > 0 ∧ initial > max then none else some ⟨initial, max, listInit⟩

/-- `vibe_sem_take`, up to the reschedule. -/
def semTake (k : Kernel) (s : Sem) (self : Tid) (timeout : UInt32) : Kernel × Sem × Flow Err :=
  if s.count > 0 then (k, { s with count := s.count - 1 }, .done .ok)
  else if timeout = noWait then (k, s, .done .eagain)
  else
    let k := k.block self (k.deadline timeout)
    let r := k.waitAppend s.waitList self
    (r.1, { s with waitList := r.2 }, .block)

/-- `vibe_sem_take` once the blocked caller runs again: the source's crude check. -/
def semTakeWake (k : Kernel) (self : Tid) : Err :=
  if (k.thr self).state ≠ .sleeping then .ok else .etimeout

/-- `vibe_sem_give`. -/
def semGive (k : Kernel) (s : Sem) : Kernel × Sem × Flow Err :=
  match k.waitGetHead s.waitList with
  | (some waiter, k, l) => (k.schedEnqueue waiter, { s with waitList := l }, .resched .ok)
  | (none, _, _) =>
      if s.maxCount > 0 ∧ s.count ≥ s.maxCount then (k, s, .done .eoverflow)
      else (k, { s with count := s.count + 1 }, .done .ok)

/-- `vibe_sem_reset`. -/
def semReset (s : Sem) : Sem := { s with count := 0 }

end VibeRtos
