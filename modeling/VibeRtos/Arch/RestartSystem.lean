import VibeRtos.Arch.SwitchSystem

/-!
# Restarts

The machine of the context switch, in which threads and interrupts also restart threads.
Of `vibe_thread_restart` it has what concerns contexts: the stack is set up anew. Beside
the machine stands which threads have been restarted since they were last dispatched.
-/

namespace VibeRtos

open ByteMem

/-- `STACK_CANARY_VALUE`. -/
def stackCanaryValue : Word := 0xDEADBEEF

/-- `_thread_stack_setup`; `canary` is `CONFIG_STACK_CANARY`. -/
def threadStackSetup (canary : Bool) (b : Board) (m : Mem) (t : Tid) : Mem :=
  let m := if canary then str m (UInt32.ofNat (b.base t)) stackCanaryValue else m
  archThreadStackInit b m t

/-- The stack of `t` is set up, so what `t` had when it left the CPU is gone. -/
def SwitchSys.restart (canary : Bool) (b : Board) (s : SwitchSys) (t : Tid) : SwitchSys :=
  { s with
    cpu := { s.cpu with mem := threadStackSetup canary b s.cpu.mem t }
    left := Function.update s.left t none }

/-- The machine, and the record. -/
structure RestartSys where
  s : SwitchSys
  /-- restarted, and not dispatched since -/
  restarted : Tid → Bool

namespace RestartSys

/-- The steps of the machine. -/
inductive Label where
  | switch (l : SwitchSys.Label)
  /-- `vibe_thread_restart(t)`, from thread or interrupt context -/
  | restart (t : Tid)

/-- The record after a step of the context switch. -/
def dispatched (restarted : Tid → Bool) (s' : SwitchSys) : SwitchSys.Label → Tid → Bool
  | .handle => fun t => restarted t && !decide (s'.onCpu = some t)
  | _ => restarted

/-- One step. -/
def step (canary : Bool) (b : Board) (r : RestartSys) : Label → Option RestartSys
  | .switch l => (r.s.step b l).map fun s' => ⟨s', dispatched r.restarted s' l⟩
  | .restart t =>
      if t ∈ b.threads then some ⟨r.s.restart canary b t, Function.update r.restarted t true⟩
      else none

/-- The threads are initialised and none has run. -/
structure Initial (b : Board) (r : RestartSys) : Prop where
  s : r.s.Initial b
  restarted : r.restarted = fun _ => false

/-- The thread that is restarted is not the one whose context is on the CPU. -/
def OffCpu (r : RestartSys) : Label → Prop
  | .restart t => r.s.onCpu ≠ some t
  | .switch _ => True

instance (r : RestartSys) : (l : Label) → Decidable (r.OffCpu l)
  | .restart t => inferInstanceAs (Decidable (r.s.onCpu ≠ some t))
  | .switch _ => isTrue trivial

/-- A restarted thread that the handler restores is about to enter its function. -/
def Begins (b : Board) (r r' : RestartSys) : Prop :=
  ∀ t, r'.s.onCpu = some t → r.restarted t = true →
    r'.s.cpu.context.frame.pc = UInt32.ofNat (b.thr t).entry
      ∧ r'.s.cpu.context.frame.r0 = UInt32.ofNat (b.thr t).arg
      ∧ r'.s.cpu.context.frame.lr = b.threadExit

end RestartSys

end VibeRtos
