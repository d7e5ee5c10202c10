import VibeRtos.Kernel.Sem
import VibeRtos.Lib.SList

/-!
# Work queues

`workq.c`: a singly linked list of work items and a semaphore that counts them. The
delayed items and the worker's thread object are left out.
-/

namespace VibeRtos

/-- The address of a `vibe_work_t`: 32 bits wide and not `NULL`. -/
abbrev WorkId := Fin 4294967295

/-- `vibe_work_t`. -/
structure Work where
  handler : Option Nat
  next : Option WorkId
  pending : Bool

/-- `vibe_workq_t`, without its thread. -/
structure Workq where
  head : Option WorkId
  tail : Option WorkId
  sem : Sem

/-- Every work item. -/
abbrev WorkMem := WorkId → Work

/-- What `vibe_workq_init` leaves behind: zeroes, and a semaphore without tokens or bound. -/
def workqInit : Option Workq := (semInit 0 0).map fun sem => ⟨none, none, sem⟩

/-- `vibe_work_init`. -/
def workInit (mem : WorkMem) (w : WorkId) (handler : Option Nat) : Err × WorkMem :=
  if handler = none then (.einval, mem)
  else (.ok, Function.update mem w ⟨handler, none, false⟩)

/-- `vibe_work_submit`, up to the give. -/
def workSubmit (mem : WorkMem) (q : Workq) (w : WorkId) : Err × WorkMem × Workq :=
  if (mem w).pending then (.ebusy, mem, q)
  else
    let mem := Function.update mem w { mem w with pending := true, next := none }
    match q.tail with
    | some t =>
        (.ok, Function.update mem t { mem t with next := some w }, { q with tail := some w })
    | none => (.ok, mem, { q with head := some w, tail := some w })

/-- The section of the worker that takes the first item off the list. -/
def workqPop (mem : WorkMem) (q : Workq) : Option WorkId × WorkMem × Workq :=
  match q.head with
  | none => (none, mem, q)
  | some w =>
      let q := { q with head := (mem w).next }
      let q := if q.head = none then { q with tail := none } else q
      (some w, Function.update mem w { mem w with next := none, pending := false }, q)

end VibeRtos
