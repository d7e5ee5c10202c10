import VibeRtos.Arch.ContextSwitch

/-!
# Context switches in any order

Threads run, the kernel asks for switches from thread and from interrupt context, and
PendSV is entered, re-pended, chained and left in any order the hardware allows. Which
thread is on the CPU, whom the kernel asked for last, and what each thread had when it
left the CPU are recorded next to the machine.
-/

namespace VibeRtos

open ByteMem

/-- Where the CPU is. -/
inductive Mode where
  /-- in thread mode, or in an interrupt above it -/
  | thread
  /-- PendSV is entered, and interrupts are not masked yet -/
  | entered
  /-- PendSV has unmasked interrupts and is yet to return -/
  | done
  deriving DecidableEq

/-- The machine, and the record. -/
structure SwitchSys where
  cpu : Cpu
  /-- PendSV is pending -/
  pending : Bool
  mode : Mode
  /-- the argument of the latest `arch_switch_to` -/
  latest : Option Tid
  /-- the thread on the CPU, `none` for the start-up code -/
  onCpu : Option Tid
  /-- what each thread had when it last left the CPU -/
  left : Tid → Option Context

/-- The byte at `a` belongs to the stack of `t`. -/
def Board.InStack (b : Board) (t : Tid) (a : Nat) : Prop :=
  b.base t ≤ a ∧ a < b.base t + b.size t

instance (b : Board) (t : Tid) (a : Nat) : Decidable (b.InStack t a) :=
  inferInstanceAs (Decidable (_ ∧ _))

/-- The byte at `a` is one of the word at `w`. -/
def InWord (w : Word) (a : Nat) : Prop := w.toNat ≤ a ∧ a < w.toNat + 4

instance (w : Word) (a : Nat) : Decidable (InWord w a) := inferInstanceAs (Decidable (_ ∧ _))

/-- The bytes that a thread on the CPU leaves alone: the two pointers, the saved stack pointers,
and the stacks of the others. -/
def Board.Protected (b : Board) (onCpu : Option Tid) (a : Nat) : Prop :=
  InWord b.runningSpLoc a ∨ InWord b.nextSpLoc a
    ∨ ∃ t ∈ b.threads, InWord (b.spLoc t) a ∨ onCpu ≠ some t ∧ b.InStack t a

instance (b : Board) (onCpu : Option Tid) (a : Nat) : Decidable (b.Protected onCpu a) :=
  inferInstanceAs (Decidable (_ ∨ _ ∨ _))

namespace SwitchSys

/-- The steps of the machine. -/
inductive Label where
  /-- `arch_switch_to(prev, next)`, from thread or interrupt context -/
  | switchTo (prev : Option Tid) (next : Tid)
  /-- what is on the CPU executes, up to the state `c` -/
  | execute (c : Cpu)
  /-- PendSV is entered; the hardware has stacked `frame` at `fp` -/
  | enter (fp : Word) (frame : Frame)
  /-- the masked part of `PendSV_Handler` -/
  | handle
  /-- PendSV returns, or is entered again at once when it was pended meanwhile -/
  | leave

/-- There is room in the stack of `t` for the frame at `fp` and for R4-R11 below it. -/
def Room (b : Board) (t : Tid) (fp : Word) : Prop :=
  b.base t + 32 ≤ fp.toNat ∧ fp.toNat + 32 ≤ b.base t + b.size t

instance (b : Board) (t : Tid) (fp : Word) : Decidable (Room b t fp) :=
  inferInstanceAs (Decidable (_ ∧ _))

/-- One step. -/
def step (b : Board) (s : SwitchSys) : Label → Option SwitchSys
  | .switchTo prev next =>
      if next ∈ b.threads then
        some { s with
          cpu := { s.cpu with mem := archSwitchTo b s.cpu.mem prev next }
          pending := true
          latest := some next }
      else none
  | .execute c =>
      if s.mode = .thread then
        some { s with cpu := { c with
          mem := fun a => if b.Protected s.onCpu a then s.cpu.mem a else c.mem a } }
      else none
  | .enter fp frame =>
      if s.mode = .thread ∧ s.pending then
        match s.onCpu with
        -- the frame of the start-up code goes to MSP
        | none => some { s with pending := false, mode := .entered }
        | some t =>
            if Room b t fp then
              some { s with
                cpu := { s.cpu with psp := fp, mem := frame.store s.cpu.mem fp }
                pending := false
                mode := .entered
                left := Function.update s.left t (some ⟨s.cpu.callee, fp, frame⟩) }
            else none
      else none
  | .handle =>
      if s.mode = .entered then
        some { s with cpu := s.cpu.pendSvHandler b, mode := .done, onCpu := s.latest }
      else none
  | .leave =>
      if s.mode = .done then
        some (if s.pending then { s with pending := false, mode := .entered }
          else { s with mode := .thread })
      else none

/-- The threads are initialised and none has run; the two pointers are zero. -/
structure Initial (b : Board) (s : SwitchSys) : Prop where
  mem : ∃ m, s.cpu.mem = b.threads.foldl (archThreadStackInit b) m
    ∧ ldr m b.runningSpLoc = 0 ∧ ldr m b.nextSpLoc = 0
  pending : s.pending = false
  mode : s.mode = .thread
  latest : s.latest = none
  onCpu : s.onCpu = none
  left : s.left = fun _ => none

/-- What `t` goes on with: what it had when it last left, or its start. -/
def resumesWith (b : Board) (s : SwitchSys) (t : Tid) : Context :=
  (s.left t).getD (b.initial t)

/-- What the context switch promises in a state. -/
structure Law (b : Board) (s : SwitchSys) : Prop where
  /-- a thread is dispatched with what it had when it last left the CPU -/
  resumes : s.mode = .done → ∀ t, s.onCpu = some t → s.cpu.context = s.resumesWith b t
  /-- the pointer to the running thread's stack pointer tells who is on the CPU -/
  running : ldr s.cpu.mem b.runningSpLoc = (s.onCpu.map b.spLoc).getD 0
  /-- with no switch to come, that is the thread asked for last -/
  settled : s.pending = false → s.mode ≠ .entered → s.onCpu = s.latest

/-- What the masked part of an activation promises. -/
structure Activation (b : Board) (s s' : SwitchSys) : Prop where
  /-- it runs the thread asked for last -/
  latest : s'.onCpu = s.latest ∧ ∃ t ∈ b.threads, s.latest = some t
    ∧ ldr s'.cpu.mem b.runningSpLoc = b.spLoc t ∧ s'.cpu.context = s.resumesWith b t
  /-- it writes no saved stack pointer but that of the thread it takes off the CPU -/
  stackPtr : ∀ t ∈ b.threads, s.onCpu ≠ some t →
    ldr s'.cpu.mem (b.spLoc t) = ldr s.cpu.mem (b.spLoc t)
  /-- and no other stack -/
  stack : ∀ t ∈ b.threads, s.onCpu ≠ some t → ∀ a, b.InStack t a → s'.cpu.mem a = s.cpu.mem a

end SwitchSys

/-- `n` bytes at `a` and `k` bytes at `c` do not overlap. -/
def Separate (a n c k : Nat) : Prop := a + n ≤ c ∨ c + k ≤ a

/-- The stacks hold their first contexts, and stacks, stack pointers and the two pointers do not
overlap. -/
structure Board.Sound (b : Board) : Prop where
  nodup : b.threads.Nodup
  size : ∀ t ∈ b.threads, 72 ≤ b.size t ∧ b.base t + b.size t < 2 ^ 32
  spLoc : ∀ t ∈ b.threads, b.spLoc t ≠ 0
  pointers : Separate b.runningSpLoc.toNat 4 b.nextSpLoc.toNat 4
  regions : ∀ t ∈ b.threads, ∀ u ∈ b.threads, t ≠ u →
    Separate (b.base t) (b.size t) (b.base u) (b.size u)
  spLocs : ∀ t ∈ b.threads, ∀ u ∈ b.threads, t ≠ u →
    Separate (b.spLoc t).toNat 4 (b.spLoc u).toNat 4
  spLocStack : ∀ t ∈ b.threads, ∀ u ∈ b.threads,
    Separate (b.spLoc t).toNat 4 (b.base u) (b.size u)
  running : ∀ t ∈ b.threads, Separate b.runningSpLoc.toNat 4 (b.spLoc t).toNat 4
    ∧ Separate b.runningSpLoc.toNat 4 (b.base t) (b.size t)
  next : ∀ t ∈ b.threads, Separate b.nextSpLoc.toNat 4 (b.spLoc t).toNat 4
    ∧ Separate b.nextSpLoc.toNat 4 (b.base t) (b.size t)

end VibeRtos
