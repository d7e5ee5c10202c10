import VibeRtos.Kernel.MutexSystem
import VibeRtos.Lib.PrioFifo
import VibeRtos.Lib.Runs

/-!
# The order in which threads get a mutex

The machine of the mutexes with a record of who waits, in order of arrival, and what the
source promises of its wait lists.
-/

namespace VibeRtos

open Kernel PrioFifo

namespace MutexSys

/-- The priority of a thread. -/
def prio (s : MutexSys) (t : Tid) : Prio := (s.k.thr t).priority

/-- The thread is in a wait list. -/
def Queued (s : MutexSys) (t : Tid) : Prop :=
  match s.pc t with
  | .run => False
  | .waiting n => t ∈ s.waiters n

instance (s : MutexSys) (t : Tid) : Decidable (s.Queued t) := by
  unfold Queued
  split <;> infer_instance

end MutexSys

/-- The machine, and the record. -/
structure MutexOrder where
  sys : MutexSys
  /-- who waits for each mutex, in order of arrival, with the priority it arrived with -/
  log : Nat → List (Tid × Prio)

namespace MutexOrder

open MutexSys

/-- The record after a step to `t`: who has blocked is added, and who has got the mutex leaves. -/
def record (s : MutexOrder) (l : Label) (t : MutexSys) : Nat → List (Tid × Prio) :=
  match l with
  | .lock m _ =>
      match s.sys.k.current with
      | some self =>
          if t.pc self = .waiting m then
            Function.update s.log m (arrive (s.log m) self (s.sys.prio self))
          else s.log
      | none => s.log
  | .unlock m =>
      match (t.mutex m).owner with
      | some next => Function.update s.log m (leave (s.log m) next)
      | none => s.log
  | _ => s.log

def step (s : MutexOrder) (l : Label) : Option MutexOrder :=
  (s.sys.step l).map fun t => ⟨t, s.record l t⟩

structure Initial (s : MutexOrder) : Prop where
  sys : s.sys.Initial
  log : ∀ m, s.log m = []

/-- The current thread can call `vibe_mutex_lock`, and will block. -/
def Blocks (s : MutexSys) (self owner : Tid) (m : Nat) (timeout : UInt32) : Prop :=
  s.k.current = some self ∧ (s.k.thr self).state.Active ∧ s.pc self = .run
    ∧ (s.mutex m).owner = some owner ∧ owner ≠ self ∧ timeout ≠ noWait

instance (s : MutexSys) (self owner : Tid) (m : Nat) (timeout : UInt32) :
    Decidable (Blocks s self owner m timeout) := inferInstanceAs (Decidable (_ ∧ _))

/-- No thread is raised while it waits. -/
def Unraised (s : MutexOrder) : Label → Prop
  | .lock m timeout => ∀ self ∈ s.sys.k.current, ∀ owner ∈ (s.sys.mutex m).owner,
      Blocks s.sys self owner m timeout → s.sys.prio owner < s.sys.prio self → ¬ s.sys.Queued owner
  | _ => True

/-- A thread that blocks is not more urgent than the first waiter. -/
def BehindHead (s : MutexOrder) : Label → Prop
  | .lock m timeout => ∀ self ∈ s.sys.k.current, ∀ owner ∈ (s.sys.mutex m).owner,
      Blocks s.sys self owner m timeout → ∀ head ∈ (s.sys.waiters m).head?,
        s.sys.prio self ≤ s.sys.prio head
  | _ => True

instance (s : MutexOrder) : DecidablePred s.Unraised
  | .lock m timeout =>
      have (self : Tid) := Option.decidableForallMem (p := fun owner =>
        Blocks s.sys self owner m timeout → s.sys.prio owner < s.sys.prio self →
          ¬ s.sys.Queued owner) (s.sys.mutex m).owner
      Option.decidableForallMem s.sys.k.current
  | .dispatch _ | .trylock _ | .wake | .unlock _ => isTrue trivial

instance (s : MutexOrder) : DecidablePred s.BehindHead
  | .lock m timeout =>
      have (self : Tid) := Option.decidableForallMem (p := fun head =>
        s.sys.prio self ≤ s.sys.prio head) (s.sys.waiters m).head?
      have (self : Tid) := Option.decidableForallMem (p := fun owner =>
        Blocks s.sys self owner m timeout → ∀ head ∈ (s.sys.waiters m).head?,
          s.sys.prio self ≤ s.sys.prio head) (s.sys.mutex m).owner
      Option.decidableForallMem s.sys.k.current
  | .dispatch _ | .trylock _ | .wake | .unlock _ => isTrue trivial

/-- What is promised in a state and of the step that is taken there. -/
structure InOrder (s : MutexOrder) (l : Label) : Prop where
  /-- highest priority first -/
  sorted : ∀ m, Sorted s.sys.prio (s.sys.waiters m)
  /-- and in order of arrival among equals -/
  arrival : ∀ m p, (s.sys.waiters m).filter (fun t => s.sys.prio t = p) = fifo (s.log m) p
  /-- `vibe_list_insert_after` is given an anchor -/
  anchor : ∀ m timeout self owner, l = .lock m timeout → Blocks s.sys self owner m timeout →
    (s.sys.lock self m timeout).isSome
  /-- the last unlock hands the mutex to who arrived first among the most urgent -/
  next : ∀ m self, l = .unlock m → s.sys.k.current = some self → (s.sys.mutex m).owner = some self →
    (s.sys.mutex m).lockCount - 1 = 0 → s.sys.waiters m ≠ [] →
    ∃ next, ((s.sys.unlock self m).mutex m).owner = some next ∧ First (s.log m) next

end MutexOrder

end VibeRtos
