import VibeRtos.Kernel.MsgqSystem
import VibeRtos.Kernel.PoolSystem

/-!
# Calls that wait forever

The machine of a message queue with a record of the timeouts of the calls, and what
everybody has to leave for the threads that wait forever. A put that is woken needs
room, a get a message, and an alloc of a memory pool a block.
-/

namespace VibeRtos

open Kernel

/-- A queue, the timeout of each thread's last call, and the number of calls with
`VIBE_WAIT_FOREVER` that returned `VIBE_ETIMEOUT`. -/
structure PatientSys where
  s : MsgqSys
  timeout : Tid → UInt32
  expired : Nat

namespace PatientSys

/-- What a retry returns. -/
def retryErr (q : Msgq) : MsgqPc → Err
  | .idle => .ok
  | .putting data => (msgqPutRetry q data).2
  | .getting => (msgqGetRetry q).2.1

/-- The record after a section of `self`. -/
def note (p : PatientSys) (self : Tid) (s' : MsgqSys) : MsgqAct → PatientSys
  | .put _ timeout | .get timeout =>
      ⟨s', Function.update p.timeout self timeout, p.expired⟩
  | .retry =>
      let late := p.timeout self = waitForever ∧ retryErr p.s.obj.q (p.s.pc self) = .etimeout
      ⟨s', p.timeout, if late then p.expired + 1 else p.expired⟩

/-- One step. -/
def step (cfg : Config) (p : PatientSys) (l : MsgqLabel) : Option PatientSys :=
  (p.s.step cfg l).map fun s' =>
    match l, p.s.k.current with
    | .act a, some self => p.note self s' a
    | _, _ => { p with s := s' }

/-- A new queue, and no call yet. -/
structure Initial (p : PatientSys) : Prop where
  queue : p.s.Initial
  expired : p.expired = 0

/-- The thread is in a put that waits forever. -/
def WantsRoom (p : PatientSys) (t : Tid) : Prop :=
  match p.s.pc t with
  | .putting _ => p.timeout t = waitForever
  | _ => False

/-- The thread is in a get that waits forever. -/
def WantsMessage (p : PatientSys) (t : Tid) : Prop :=
  match p.s.pc t with
  | .getting => p.timeout t = waitForever
  | _ => False

instance (p : PatientSys) : DecidablePred p.WantsRoom := fun t => by
  unfold WantsRoom
  cases p.s.pc t <;> infer_instance

instance (p : PatientSys) : DecidablePred p.WantsMessage := fun t => by
  unfold WantsMessage
  cases p.s.pc t <;> infer_instance

/-- One message more leaves room for every woken put that waits forever. -/
def LeavesRoom (p : PatientSys) : Prop :=
  p.s.obj.woken.countP p.WantsRoom + (p.s.obj.q.used.toNat + 1) ≤ p.s.obj.q.maxMsgs.toNat

/-- One message less leaves a message for every woken get that waits forever. -/
def LeavesMessage (p : PatientSys) : Prop :=
  p.s.obj.woken.countP p.WantsMessage + 1 ≤ p.s.obj.q.used.toNat

instance (p : PatientSys) : Decidable p.LeavesRoom := inferInstanceAs (Decidable (_ ≤ _))
instance (p : PatientSys) : Decidable p.LeavesMessage := inferInstanceAs (Decidable (_ ≤ _))

/-- A section of a thread that is no retry of a call that waits forever leaves what such calls
were woken for: if it stores a message it leaves room, and if it takes one it leaves one. -/
def Considerate (p : PatientSys) (self : Tid) : MsgqPc → MsgqAct → Prop
  | .idle, .put _ _ => p.s.obj.q.used < p.s.obj.q.maxMsgs → p.LeavesRoom
  | .idle, .get _ => p.s.obj.q.used > 0 → p.LeavesMessage
  | .putting _, .retry => p.timeout self ≠ waitForever →
      p.s.obj.q.used < p.s.obj.q.maxMsgs → p.LeavesRoom
  | .getting, .retry => p.timeout self ≠ waitForever → p.s.obj.q.used > 0 → p.LeavesMessage
  | _, _ => True

instance (p : PatientSys) (self : Tid) :
    (pc : MsgqPc) → (a : MsgqAct) → Decidable (p.Considerate self pc a)
  | .idle, .put _ _ => inferInstanceAs (Decidable (_ → _))
  | .idle, .get _ => inferInstanceAs (Decidable (_ → _))
  | .putting _, .retry => inferInstanceAs (Decidable (_ → _ → _))
  | .getting, .retry => inferInstanceAs (Decidable (_ → _ → _))
  | .idle, .retry | .putting _, .put _ _ | .putting _, .get _ | .getting, .put _ _
  | .getting, .get _ => isTrue trivial

/-- The step is considerate. -/
def Leaves (p : PatientSys) : MsgqLabel → Prop
  | .act a => ∀ self ∈ p.s.k.current, p.Considerate self (p.s.pc self) a
  | _ => True

instance (p : PatientSys) : (l : MsgqLabel) → Decidable (p.Leaves l)
  | .act _ => Option.decidableForallMem _
  | .dispatch _ | .tick => isTrue trivial
  | .isr i => i.elim

end PatientSys

namespace PoolSys

/-- The thread is in an alloc that waits forever. -/
def WantsBlock (s : PoolSys) (t : Tid) : Prop := s.pc t = .waiting waitForever

instance (s : PoolSys) : DecidablePred s.WantsBlock := fun t =>
  inferInstanceAs (Decidable (s.pc t = _))

/-- One block less leaves a block for every woken alloc that waits forever. -/
def LeavesBlock (s : PoolSys) : Prop :=
  s.obj.woken.countP s.WantsBlock + 1 ≤ s.obj.pool.freeCount.toNat

instance (s : PoolSys) : Decidable s.LeavesBlock := inferInstanceAs (Decidable (_ ≤ _))

/-- A section that takes a block, and is no retry of an alloc that waits forever, leaves what
such allocs were woken for. -/
def Considerate (s : PoolSys) : PoolPc → PoolAct → Prop
  | .idle, .alloc _ => s.obj.pool.freeList ≠ 0 → s.LeavesBlock
  | .waiting timeout, .retry =>
      timeout ≠ waitForever → s.obj.pool.freeList ≠ 0 → s.LeavesBlock
  | _, _ => True

instance (s : PoolSys) : (pc : PoolPc) → (a : PoolAct) → Decidable (s.Considerate pc a)
  | .idle, .alloc _ => inferInstanceAs (Decidable (_ → _))
  | .waiting _, .retry => inferInstanceAs (Decidable (_ → _ → _))
  | .idle, .retry | .idle, .clear | .idle, .free _ | .idle, .store _ _ | .waiting _, .alloc _
  | .waiting _, .clear | .waiting _, .free _ | .waiting _, .store _ _ | .clearing _, _ =>
      isTrue (by simp [Considerate])

/-- The step is considerate. -/
def Leaves (s : PoolSys) : PoolLabel → Prop
  | .act a => ∀ self ∈ s.k.current, s.Considerate (s.pc self) a
  | _ => True

instance (s : PoolSys) : (l : PoolLabel) → Decidable (s.Leaves l)
  | .act _ => Option.decidableForallMem _
  | .dispatch _ | .tick => isTrue trivial
  | .isr i => i.elim

end PoolSys

end VibeRtos
