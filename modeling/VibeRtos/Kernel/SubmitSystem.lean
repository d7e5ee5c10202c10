import VibeRtos.Kernel.System
import VibeRtos.Kernel.Workq

/-!
# Submitting work on the whole machine

`vibe_work_submit` links the item in one section and ends with `vibe_sem_give` on the
semaphore of the queue. Work queue `i` has semaphore `i` of the machine; between the two
parts of a submit anything else may happen.
-/

namespace VibeRtos

/-- The machine, the work items, and who is between the parts of a submit. -/
structure SubmitSys where
  sys : Sys
  mem : WorkMem
  workq : Nat → Workq
  /-- the queue whose semaphore a thread has yet to give -/
  giving : Tid → Option Nat

namespace SubmitSys

/-- The steps of the machine. -/
inductive Label where
  | sys (l : Sys.Label)
  /-- the first section of `vibe_work_submit` -/
  | link (i : Nat) (w : WorkId)

/-- What the current thread has yet to give. -/
def owed (s : SubmitSys) : Option Nat := s.sys.k.current.bind s.giving

/-- A thread between the parts of a submit calls nothing but `vibe_sem_give`. -/
def Allowed (s : SubmitSys) : Sys.Label → Prop
  | .call (.semGive i) => ∀ j ∈ s.owed, j = i
  | .call _ => s.owed = none
  | _ => True

instance (s : SubmitSys) : (l : Sys.Label) → Decidable (s.Allowed l)
  | .call (.semGive i) => Option.decidableForallMem (p := fun j => j = i) s.owed
  | .call (.threadCreate ..) | .call (.threadDelete _) | .call (.threadSuspend _)
  | .call (.threadResume _) | .call (.threadSleep _) | .call .threadYield
  | .call (.threadRestart _) | .call (.threadSetPriority ..) | .call .schedLock
  | .call .schedUnlock | .call (.mutexLock ..) | .call (.mutexUnlock _) | .call (.semTake ..)
  | .call (.semReset _) | .call (.msgqPut ..) | .call (.msgqGet ..) | .call (.msgqPeek _)
  | .call (.msgqPurge _) | .call (.eventPost ..) | .call (.eventClear ..) | .call (.eventWait ..)
  | .call (.memPoolAlloc ..) | .call (.memPoolFree ..) | .call (.pipeWrite ..)
  | .call (.pipeRead ..) => inferInstanceAs (Decidable (_ = _))
  | .boot .. | .start | .cont | .tick | .isrSemGive _ | .isrEventPost .. => isTrue trivial

/-- Who has given what it owed. -/
def settle (s : SubmitSys) : Sys.Label → Tid → Option Nat
  | .call (.semGive _) => match s.sys.k.current with
      | some self => Function.update s.giving self none
      | none => s.giving
  | _ => s.giving

/-- One step. -/
def step (cfg : Config) (s : SubmitSys) : Label → Option SubmitSys
  | .sys l =>
      if s.Allowed l then
        (s.sys.step cfg l).map fun sys => { s with sys := sys, giving := s.settle l }
      else none
  | .link i w =>
      match s.sys.k.current with
      | none => none
      | some self =>
          match s.sys.pc self, s.giving self with
          | .user, none =>
              let r := workSubmit s.mem { s.workq i with sem := s.sys.sem i } w
              some { s with
                mem := r.2.1
                workq := Function.update s.workq i r.2.2
                -- an item that is pending is refused
                giving := if r.1 = .ok then Function.update s.giving self (some i) else s.giving }
          | _, _ => none

end SubmitSys

end VibeRtos
