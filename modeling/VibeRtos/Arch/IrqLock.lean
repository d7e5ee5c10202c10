import VibeRtos.Arch.ContextSwitch
import VibeRtos.Lib.Sections

/-!
# Interrupt locks and spinlocks

`arch_irq_lock`, `arch_irq_unlock` (irq.c) and the spinlock calls (spinlock.h, spinlock.c) at the
granularity of instructions, on one processor: threads that PendSV switches, and handlers that nest
by priority, each running code that pairs its locks and unlocks.

Next to it stands the machine that the rest of the development is about, with no PRIMASK and no
spin flags: what a context does from an outermost lock to the matching unlock is one step.
-/

namespace VibeRtos.Irq

/-- A spinlock, by its address. -/
abbrev Spin := Nat

/-! ## The lock functions -/

/-- The instructions of the lock functions. -/
inductive Instr where
  /-- `mrs key, PRIMASK` -/
  | mrs
  /-- `cpsid i` -/
  | cpsid
  /-- `while (atomic_flag_test_and_set_explicit(&lock->flag, ..))`: one test, made again as long as
  the flag was set -/
  | testAndSet (lock : Spin)
  /-- `atomic_flag_clear_explicit(&lock->flag, ..)` -/
  | clear (lock : Spin)
  /-- `msr PRIMASK, key` -/
  | msr
  deriving DecidableEq

def archIrqLock : List Instr := [.mrs, .cpsid]

def archIrqUnlock : List Instr := [.msr]

def vibeSpinlockLock (lock : Spin) : List Instr := [.testAndSet lock]

def vibeSpinlockUnlock (lock : Spin) : List Instr := [.clear lock]

def vibeSpinlockLockIrqsave (lock : Spin) : List Instr := archIrqLock ++ vibeSpinlockLock lock

def vibeSpinlockUnlockIrqrestore (lock : Spin) : List Instr :=
  vibeSpinlockUnlock lock ++ archIrqUnlock

/-- The function that locks: `arch_irq_lock` or `vibe_spinlock_lock_irqsave`. -/
def lockCode : Option Spin → List Instr
  | none => archIrqLock
  | some lock => vibeSpinlockLockIrqsave lock

/-- The function that unlocks. -/
def unlockCode : Option Spin → List Instr
  | none => archIrqUnlock
  | some lock => vibeSpinlockUnlockIrqrestore lock

/-! ## The code of a context -/

/-- What a context does next. `L` are its control points, with its registers and its frames. -/
inductive Stmt (L σ : Type) where
  /-- An instruction on the memory. -/
  | exec (f : σ → L × σ)
  /-- `key = arch_irq_lock()` or `key = vibe_spinlock_lock_irqsave(lock)`; go on at `k key` -/
  | lock (lock : Option Spin) (k : Word → L)
  /-- `arch_irq_unlock(key)` or `vibe_spinlock_unlock_irqrestore(lock, key)` -/
  | unlock (lock : Option Spin) (key : Word) (k : L)
  /-- Return from the handler. -/
  | ret

/-- Code whose locks and unlocks are paired: at each point some sections are open, the innermost
first, each with its key, and an unlock gives back the key of the innermost one. -/
structure Program (L σ : Type) where
  code : L → Stmt L σ
  sections : L → List (Word × Option Spin)
  exec : ∀ {l f}, code l = .exec f → ∀ m, sections (f m).1 = sections l
  lock : ∀ {l lk k}, code l = .lock lk k → ∀ key, sections (k key) = (key, lk) :: sections l
  unlock : ∀ {l lk key k}, code l = .unlock lk key k → sections l = (key, lk) :: sections k
  ret : ∀ {l}, code l = .ret → sections l = []

variable {L σ : Type}

/-- What a context is at: a point of its code, or a lock function that it has called there. -/
inductive Ctx (L : Type) where
  | run (l : L)
  | call (l : L) (key : Word) (todo : List Instr)

/-- The spinlocks of the sections. -/
def spins (ss : List (Word × Option Spin)) : List Spin := ss.filterMap Prod.snd

namespace Program

variable (p : Program L σ)

/-- Where a lock function that was called at `l` returns to. -/
def after (l : L) (key : Word) : L :=
  match p.code l with
  | .lock _ k => k key
  | .unlock _ _ k => k
  | _ => l

/-- A section is open. -/
def inside (l : L) : Bool := !(p.sections l).isEmpty

/-- A statement as one step; a lock gives the key that belongs to its depth. -/
def stmt (l : L) (m : σ) : Option (L × σ) :=
  match p.code l with
  | .exec f => some (f m)
  | .lock _ k => some (k (if p.inside l then 1 else 0), m)
  | .unlock _ _ k => some (k, m)
  | .ret => none

end Program

/-! ## The processor -/

/-- The registers and the memory that the contexts share. -/
structure Shared (σ : Type) where
  primask : Bool
  flag : Spin → Bool
  mem : σ

/-- The next instruction of a context. -/
def Ctx.step (p : Program L σ) (c : Ctx L) (m : Shared σ) : Option (Ctx L × Shared σ) :=
  match c with
  | .run l =>
      match p.code l with
      | .exec f => some (.run (f m.mem).1, { m with mem := (f m.mem).2 })
      | .lock lk _ => some (.call l 0 (lockCode lk), m)
      | .unlock lk key _ => some (.call l key (unlockCode lk), m)
      | .ret => none
  | .call l key [] => some (.run (p.after l key), m)
  | .call l _ (.mrs :: todo) => some (.call l (if m.primask then 1 else 0) todo, m)
  | .call l key (.cpsid :: todo) => some (.call l key todo, { m with primask := true })
  | .call l key (.testAndSet lk :: todo) =>
      if m.flag lk then some (.call l key (.testAndSet lk :: todo), m)
      else some (.call l key todo, { m with flag := Function.update m.flag lk true })
  | .call l key (.clear lk :: todo) =>
      some (.call l key todo, { m with flag := Function.update m.flag lk false })
  | .call l key (.msr :: todo) =>
      some (.call l key todo, { m with primask := key.toNat.testBit 0 })

/-- The processor: the contexts of the threads, the one on the CPU, the handlers that are active,
the innermost first. -/
structure Cpu (L σ : Type) extends Shared σ where
  thread : Tid → Ctx L
  current : Tid
  nest : List (Nat × Ctx L)

/-- What happens next. -/
inductive Label where
  /-- An instruction of the running context. -/
  | exec
  /-- The interrupt `i` is taken. -/
  | interrupt (i : Nat)
  /-- The innermost handler returns. -/
  | ret
  /-- PendSV switches to `t`. -/
  | switch (t : Tid)
  deriving DecidableEq

/-- The board: the code, where the handlers start, and the priorities of the interrupts (the least
number is the most urgent one). -/
structure Board (L σ : Type) where
  prog : Program L σ
  handler : Nat → L
  prio : Nat → Nat
  closed : ∀ i, prog.sections (handler i) = []

/-- `i` preempts the handlers that are active. -/
def Preempts (prio : Nat → Nat) (i : Nat) (active : List Nat) : Prop :=
  ∀ j ∈ active, prio i < prio j

instance (prio : Nat → Nat) (i : Nat) (active : List Nat) : Decidable (Preempts prio i active) :=
  inferInstanceAs (Decidable (∀ j ∈ active, prio i < prio j))

namespace Cpu

/-- The context that has the processor. -/
def running (s : Cpu L σ) : Ctx L :=
  match s.nest with
  | [] => s.thread s.current
  | (_, c) :: _ => c

def setRunning (s : Cpu L σ) (c : Ctx L) (m : Shared σ) : Cpu L σ :=
  match s.nest with
  | [] => { s with toShared := m, thread := Function.update s.thread s.current c }
  | (i, _) :: rest => { s with toShared := m, nest := (i, c) :: rest }

/-- Interrupts and PendSV wait for PRIMASK; PendSV, the lowest priority, for all handlers as well,
and `PendSV_Handler` leaves with `cpsie i`. -/
def step (b : Board L σ) (s : Cpu L σ) : Label → Option (Cpu L σ)
  | .exec => (s.running.step b.prog s.toShared).map fun r => s.setRunning r.1 r.2
  | .interrupt i =>
      if s.primask = false ∧ Preempts b.prio i (s.nest.map Prod.fst) then
        some { s with nest := (i, .run (b.handler i)) :: s.nest }
      else none
  | .ret =>
      match s.nest with
      | (_, .run l) :: rest =>
          match b.prog.code l with
          | .ret => some { s with nest := rest }
          | _ => none
      | _ => none
  | .switch t =>
      if s.primask = false ∧ s.nest = [] then some { s with current := t, primask := false }
      else none

end Cpu

/-! ## Sections as one step -/

/-- The processor without PRIMASK, spin flags and lock functions. -/
structure Atomic (L σ : Type) where
  thread : Tid → L
  current : Tid
  nest : List (Nat × L)
  mem : σ

namespace Atomic

def running (a : Atomic L σ) : L :=
  match a.nest with
  | [] => a.thread a.current
  | (_, l) :: _ => l

def setRunning (a : Atomic L σ) (l : L) (m : σ) : Atomic L σ :=
  match a.nest with
  | [] => { a with mem := m, thread := Function.update a.thread a.current l }
  | (i, _) :: rest => { a with mem := m, nest := (i, l) :: rest }

/-- A statement of the running context. -/
def stmt (p : Program L σ) (a : Atomic L σ) : Option (Atomic L σ) :=
  (p.stmt a.running a.mem).map fun r => a.setRunning r.1 r.2

def inside (p : Program L σ) (a : Atomic L σ) : Bool := p.inside a.running

/-- What happens next. -/
inductive Label where
  /-- A statement outside all sections, or a section of `n` statements besides its last one. -/
  | act (n : Nat)
  | interrupt (i : Nat)
  | ret
  | switch (t : Tid)

def step (b : Board L σ) (a : Atomic L σ) : Label → Option (Atomic L σ)
  | .act n => CriticalSections.block (stmt b.prog) (inside b.prog) n a
  | .interrupt i =>
      if Preempts b.prio i (a.nest.map Prod.fst) then
        some { a with nest := (i, b.handler i) :: a.nest }
      else none
  | .ret =>
      match a.nest with
      | (_, l) :: rest =>
          match b.prog.code l with
          | .ret => some { a with nest := rest }
          | _ => none
      | _ => none
  | .switch t => if a.nest = [] then some { a with current := t } else none

end Atomic

/-! ## The two together -/

/-- The point that a context is at, a lock taken with `cpsid i` and given back with `msr`. -/
def Ctx.point (p : Program L σ) : Ctx L → L
  | .run l => l
  | .call l key todo => if Instr.cpsid ∈ todo ∨ Instr.msr ∈ todo then l else p.after l key

/-- The processor as the atomic machine sees it. -/
def Cpu.view (p : Program L σ) (s : Cpu L σ) : Atomic L σ where
  thread t := (s.thread t).point p
  current := s.current
  nest := s.nest.map fun c => (c.1, c.2.point p)
  mem := s.mem

/-- The events that both have. -/
inductive Event where
  | interrupt (i : Nat)
  | ret
  | switch (t : Tid)

def Label.event : Label → Option Event
  | .exec => none
  | .interrupt i => some (.interrupt i)
  | .ret => some .ret
  | .switch t => some (.switch t)

def Atomic.Label.event : Atomic.Label → Option Event
  | .act _ => none
  | .interrupt i => some (.interrupt i)
  | .ret => some .ret
  | .switch t => some (.switch t)

/-- The spinlocks that a context has taken and not given back. -/
def Ctx.holds (p : Program L σ) : Ctx L → List Spin
  | .run l => spins (p.sections l)
  | .call l _ todo =>
      match p.code l with
      | .lock lk _ => (if todo = [] then lk.toList else []) ++ spins (p.sections l)
      | .unlock lk _ k =>
          (lk.filter fun x => decide (Instr.clear x ∈ todo)).toList ++ spins (p.sections k)
      | _ => []

/-- Reset: interrupts enabled, all flags clear, no handler active, and each thread at a point
outside all sections. -/
structure Cpu.Boot (p : Program L σ) (s : Cpu L σ) : Prop where
  primask : s.primask = false
  flag : ∀ lk, s.flag lk = false
  thread : ∀ t, ∃ l, s.thread t = .run l ∧ p.sections l = []
  nest : s.nest = []

end VibeRtos.Irq
