import VibeRtos.Kernel.Thread
import VibeRtos.Lib.Runs

/-!
# Stacks from create to delete

The calls that create, stop, restart and delete threads, with whoever the scheduler puts on
the CPU between them, and beside the kernel a record of where each thread's stack came from.
`vibe_heap_alloc` and `vibe_heap_free` appear as the block one returns and the block the other
is given.
-/

namespace VibeRtos

open Kernel

/-- Where a thread's stack came from, and whether it is still there. -/
inductive StackOrigin where
  /-- `vibe_thread_create` has not been called for the thread -/
  | unset
  /-- a buffer of the caller -/
  | caller (base : Nat)
  /-- a block of the heap -/
  | heap (base : Nat)
  /-- given to `vibe_heap_free` -/
  | freed (base : Nat)
  deriving DecidableEq

/-- What `vibe_thread_delete` gives to `vibe_heap_free`. -/
def Kernel.deleteFrees (k : Kernel) (t : Tid) : Option Nat :=
  if (k.thr t).isStatic then none else (k.thr t).stackBase

/-- The kernel, and the record. -/
structure StackSys where
  k : Kernel
  origin : Tid → StackOrigin

namespace StackSys

/-- The steps; a `NULL` thread is the current one. -/
inductive Label where
  | create (t : Tid) (entry arg : Nat) (attr : Option ThreadAttr) (stack heapStack : Option Nat)
  | delete (t : Tid)
  | suspend (t : Tid)
  | resume (t : Tid)
  | restart (t : Tid)
  /-- another thread runs -/
  | switch (next : Option Tid)

/-- The record after a successful create. -/
def born (stack heapStack : Option Nat) : StackOrigin :=
  match stack with
  | some base => .caller base
  | none => match heapStack with
    | some base => .heap base
    | none => .unset

/-- One step. -/
def step (cfg : Config) (s : StackSys) : Label → Option StackSys
  | .create t entry arg attr stack heapStack =>
      let r := s.k.threadCreate cfg t entry arg attr stack heapStack
      some ⟨r.2, if r.1 = .ok then Function.update s.origin t (born stack heapStack) else s.origin⟩
  | .delete t =>
      some ⟨s.k.threadDelete t, match s.k.deleteFrees t with
        | some base => Function.update s.origin t (.freed base)
        | none => s.origin⟩
  | .suspend t => some { s with k := (s.k.threadSuspend t).2 }
  | .resume t => some { s with k := (s.k.threadResume t).2 }
  | .restart t => some { s with k := s.k.threadRestart t }
  | .switch next => some { s with k := { s.k with current := next } }

/-- No thread has been created; those that `VIBE_THREAD_DEFINE` declares are static. -/
structure Initial (s : StackSys) : Prop where
  origin : ∀ t, s.origin t = .unset
  static : ∀ t, (s.k.thr t).isStatic = true ∨ (s.k.thr t).stackBase = none

/-- What a step promises about stacks. -/
structure Owns (s : StackSys) (l : Label) : Prop where
  /-- a deletion frees the block that the thread's create got from the heap, and nothing else;
  once it has been freed, no deletion frees it again -/
  freed : ∀ t, l = .delete t → s.k.deleteFrees t
    = match s.origin t with
      | .heap base => some base
      | _ => none
  /-- the stack of the running thread is not freed -/
  running : ∀ t, l = .delete t → s.k.current = some t → s.k.deleteFrees t = none
  /-- a restart builds no frame on a stack that has been freed -/
  restart : ∀ t base, l = .restart t → s.origin t = .freed base → (s.k.thr t).stackBase ≠ some base

/-- The thread that is deleted has `is_static` set exactly when the caller gave the stack, and does
not run on a stack from the heap. -/
def Tidy (s : StackSys) (l : Label) : Prop :=
  match l with
  | .delete t =>
      match s.origin t with
      | .caller _ => (s.k.thr t).isStatic = true
      | .heap _ => (s.k.thr t).isStatic = false ∧ s.k.current ≠ some t
      | _ => True
  | _ => True

instance (s : StackSys) (l : Label) : Decidable (s.Tidy l) := by
  unfold Tidy
  split
  · split <;> infer_instance
  · exact instDecidableTrue

end StackSys

end VibeRtos
