import VibeRtos.Kernel.Mutex

/-!
# Threads and mutexes under any scheduler

The machine in which the laws of mutexes are stated: any number of threads, any
number of mutexes, and a scheduler that may hand the CPU to any READY thread at any
time. The current thread takes the IRQ-locked sections of `mutex.c`; a section that
dereferences `NULL` is not a step.
-/

namespace VibeRtos

open Kernel

/-- Where a thread is in `vibe_mutex_lock`. -/
inductive MutexPc where
  /-- in its own code -/
  | run
  /-- behind the reschedule of a lock of mutex `m` that blocked -/
  | waiting (m : Nat)
  deriving DecidableEq

/-- The state of the machine. -/
structure MutexSys where
  k : Kernel
  mutex : Nat → Mutex
  pc : Tid → MutexPc
  /-- each thread's successful locks of each mutex, counted from the hand-off if handed over -/
  locks : Tid → Nat → Nat
  /-- each thread's successful unlocks of each mutex -/
  unlocks : Tid → Nat → Nat

/-- Count one more for thread `t` and mutex `m`. -/
def bump (f : Tid → Nat → Nat) (t : Tid) (m : Nat) : Tid → Nat → Nat := fun u n =>
  if u = t ∧ n = m then f u n + 1 else f u n

namespace MutexSys

/-- No thread has used a mutex yet. -/
structure Initial (s : MutexSys) : Prop where
  mutex : ∀ m, s.mutex m = mutexInit
  pc : ∀ t, s.pc t = .run
  locks : ∀ t m, s.locks t m = 0
  unlocks : ∀ t m, s.unlocks t m = 0

/-- The threads blocked on mutex `m`, in list order. -/
def waiters (s : MutexSys) (m : Nat) : List Tid := listNodes s.k.waitNode (s.mutex m).waitList

/-- The locking section of `vibe_mutex_lock`. -/
def lock (s : MutexSys) (self : Tid) (m : Nat) (timeout : UInt32) : Option MutexSys :=
  (mutexLock s.k (s.mutex m) self timeout).map fun r => { s with
    k := r.1
    mutex := Function.update s.mutex m r.2.1
    pc := if r.2.2 = .block then Function.update s.pc self (.waiting m) else s.pc
    locks := if r.2.2 = .done .ok then bump s.locks self m else s.locks }

/-- The return of a blocked `vibe_mutex_lock`. -/
def wake (s : MutexSys) (self : Tid) : MutexSys :=
  { s with pc := Function.update s.pc self .run }

/-- `vibe_mutex_unlock`. -/
def unlock (s : MutexSys) (self : Tid) (m : Nat) : MutexSys :=
  let r := mutexUnlock s.k (s.mutex m) self
  { s with
    k := r.1
    mutex := Function.update s.mutex m r.2.1
    locks := match r.2.1.owner with
      | some next => if (s.mutex m).owner = some self ∧ next ≠ self then bump s.locks next m
          else s.locks
      | none => s.locks
    unlocks := if r.2.2 = .done .eperm then s.unlocks else bump s.unlocks self m }

/-- The steps of the machine. -/
inductive Label where
  /-- the scheduler hands the CPU to `t` -/
  | dispatch (t : Tid)
  | lock (m : Nat) (timeout : UInt32)
  | trylock (m : Nat)
  /-- the current thread goes on behind the reschedule of a lock -/
  | wake
  | unlock (m : Nat)

/-- The current thread acts, if it is READY or RUNNING. -/
def act (s : MutexSys) (f : Tid → Option MutexSys) : Option MutexSys :=
  match s.k.current with
  | none => none
  | some self => if (s.k.thr self).state.Active then f self else none

/-- One step. -/
def step (s : MutexSys) : Label → Option MutexSys
  | .dispatch t =>
      if (s.k.thr t).state = .ready then some { s with k := s.k.switchTo t } else none
  | .lock m timeout => s.act fun self => if s.pc self = .run then s.lock self m timeout else none
  | .trylock m => s.act fun self => if s.pc self = .run then s.lock self m noWait else none
  | .wake => s.act fun self => if s.pc self = .run then none else some (s.wake self)
  | .unlock m => s.act fun self => if s.pc self = .run then some (s.unlock self m) else none

/-- The recursion depth stays below `2 ^ 32`. -/
def Shallow (s : MutexSys) : Label → Prop
  | .lock m _ | .trylock m =>
      (s.mutex m).owner = s.k.current → (s.mutex m).lockCount.toNat + 1 < 2 ^ 32
  | _ => True

instance (s : MutexSys) : (l : Label) → Decidable (s.Shallow l)
  | .lock .. | .trylock _ => inferInstanceAs (Decidable (_ → _))
  | .dispatch _ | .wake | .unlock _ => isTrue trivial

theorem act_eq_some {s s' : MutexSys} {f : Tid → Option MutexSys} (h : s.act f = some s') :
    ∃ self, s.k.current = some self ∧ (s.k.thr self).state.Active ∧ f self = some s' := by
  unfold act at h
  split at h
  · exact absurd h (by simp)
  · rename_i self hself
    split at h
    · rename_i hact
      exact ⟨self, hself, hact, h⟩
    · exact absurd h (by simp)

/-- What a step is: a dispatch, a lock with some timeout, a return, or an unlock. -/
theorem step_cases {s s' : MutexSys} {l : Label} (h : s.step l = some s') :
    (∃ t, l = .dispatch t ∧ (s.k.thr t).state = .ready ∧ s' = { s with k := s.k.switchTo t })
      ∨ ∃ self, s.k.current = some self ∧ (s.k.thr self).state.Active ∧
        ((∃ m timeout, (l = .lock m timeout ∨ l = .trylock m ∧ timeout = noWait)
            ∧ s.pc self = .run ∧ s.lock self m timeout = some s')
          ∨ (l = .wake ∧ s.pc self ≠ .run ∧ s' = s.wake self)
          ∨ ∃ m, l = .unlock m ∧ s.pc self = .run ∧ s' = s.unlock self m) := by
  cases l with
  | dispatch t =>
      rw [step] at h
      split at h
      · rename_i hready
        exact Or.inl ⟨t, rfl, hready, (Option.some.inj h).symm⟩
      · exact absurd h (by simp)
  | lock m timeout =>
      obtain ⟨self, hself, hact, hf⟩ := act_eq_some h
      split at hf
      · rename_i hpc
        exact Or.inr ⟨self, hself, hact, Or.inl ⟨m, timeout, Or.inl rfl, hpc, hf⟩⟩
      · exact absurd hf (by simp)
  | trylock m =>
      obtain ⟨self, hself, hact, hf⟩ := act_eq_some h
      split at hf
      · rename_i hpc
        exact Or.inr ⟨self, hself, hact, Or.inl ⟨m, noWait, Or.inr ⟨rfl, rfl⟩, hpc, hf⟩⟩
      · exact absurd hf (by simp)
  | wake =>
      obtain ⟨self, hself, hact, hf⟩ := act_eq_some h
      split at hf
      · exact absurd hf (by simp)
      · rename_i hpc
        exact Or.inr ⟨self, hself, hact, Or.inr (Or.inl ⟨rfl, hpc, (Option.some.inj hf).symm⟩)⟩
  | unlock m =>
      obtain ⟨self, hself, hact, hf⟩ := act_eq_some h
      split at hf
      · rename_i hpc
        exact Or.inr ⟨self, hself, hact, Or.inr (Or.inr ⟨m, rfl, hpc, (Option.some.inj hf).symm⟩)⟩
      · exact absurd hf (by simp)

end MutexSys

end VibeRtos
