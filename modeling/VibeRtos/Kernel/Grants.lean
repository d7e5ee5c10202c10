import VibeRtos.Kernel.ObjectSystem
import VibeRtos.Kernel.System

/-!
# Wait lists and the calls behind them

A thread on a wait list should be blocked in the call that put it there. Here is what
that means for each list, which steps may take a thread off it, and when a step of the
machine keeps lists and calls together. The takes of semaphores are counted next to
the machine: how often a give took a thread off a list, and how often a take that had
blocked returned.
-/

namespace VibeRtos

open Links Kernel

deriving instance DecidableEq for WaitList

/-- The threads of a wait list. -/
def WaitList.nodes (s : Sys) (L : WaitList) : List Tid := listNodes s.k.waitNode (L.anchor s)

/-- Where a call that waits on the list goes on. -/
def WaitList.Wakes : WaitList → After → Prop
  | .mutex m, .mutexLockWake n => n = m
  | .sem _, .semTakeWake => True
  | .msgqRead q, .msgqGetRetry n => n = q
  | .msgqWrite q, .msgqPutRetry n _ => n = q
  | .event _, .eventWaitWake _ => True
  | .pool p, .memPoolAllocRetry n => n = p
  | .pipeRead p, .pipeRead n .. => n = p
  | .pipeWrite p, .pipeWrite n .. => n = p
  | _, _ => False

/-- The thread is inside a call that waits on the list. -/
def WaitList.Holds (L : WaitList) (p : Pc) : Prop :=
  ∃ a, L.Wakes a ∧ (p = .resched a ∨ p = .at a)

/-- The thread is blocked in such a call. -/
def Sys.BlockedOn (s : Sys) (t : Tid) (L : WaitList) : Prop :=
  (s.k.thr t).state = .waiting ∧ L.Holds (s.pc t)

/-- The steps that take threads off the list. -/
def WaitList.ReleasedBy (s : Sys) : WaitList → Sys.Label → Prop
  | .mutex m, .call (.mutexUnlock n) => n = m
  | .sem i, .call (.semGive n) | .sem i, .isrSemGive n => n = i
  | .msgqRead q, .call (.msgqPut n ..) => n = q
  | .msgqWrite q, .call (.msgqGet n _) | .msgqWrite q, .call (.msgqPurge n) => n = q
  | .event e, .call (.eventPost n _) | .event e, .isrEventPost n _ => n = e
  | .pool p, .call (.memPoolFree n _) => n = p
  | .pipeRead p, .cont => ∃ self src written timeout stopAt, s.k.current = some self
      ∧ s.pc self = .at (.pipeWrite p src written timeout stopAt)
  | .pipeWrite p, .cont => ∃ self len dst readCnt timeout stopAt, s.k.current = some self
      ∧ s.pc self = .at (.pipeRead p len dst readCnt timeout stopAt)
  | _, _ => False

/-! ## Steps that keep lists and calls together -/

/-- A reschedule hands the CPU to no thread that is WAITING. -/
def Kernel.SwitchSafe (k : Kernel) : Prop :=
  k.schedLockCount = 0 →
    ∀ t ∈ k.schedNextThread, k.current = some t ∨ (k.thr t).state ≠ .waiting

instance (k : Kernel) : Decidable k.SwitchSafe :=
  have := Option.decidableForallMem (p := fun t => k.current = some t ∨ (k.thr t).state ≠ .waiting)
    k.schedNextThread
  inferInstanceAs (Decidable (_ → _))

/-- A reschedule takes the CPU away from `self`. -/
def Kernel.Leaves (k : Kernel) (self : Tid) : Prop :=
  k.schedLockCount = 0 ∧ k.schedNextThread ≠ none ∧ k.schedNextThread ≠ some self

instance (k : Kernel) (self : Tid) : Decidable (k.Leaves self) :=
  inferInstanceAs (Decidable (_ ∧ _))

/-- Whether no thread that `wakeLoop` wakes is WAITING. -/
def wakeSafe (now : UInt32) : Nat → Kernel → Option Tid → Bool
  | 0, _, _ => true
  | _ + 1, _, none => true
  | fuel + 1, k, some t =>
      if (k.thr t).timeout ≤ now then
        (k.thr t).state ≠ .waiting
          && wakeSafe now fuel ((k.sleepRemove t).schedEnqueue t) (k.sleepNode t).next
      else true

/-- When a call by `self` leaves the WAITING threads alone. -/
def Call.Respects (k : Kernel) (self : Tid) : Call → Prop
  | .threadCreate t .. => (k.thr t).state ≠ .waiting
  | .threadDelete t | .threadSuspend t | .threadRestart t =>
      (k.thr (t.getD self)).state ≠ .waiting
  | _ => True

instance (k : Kernel) (self : Tid) : (c : Call) → Decidable (c.Respects k self)
  | .threadCreate .. | .threadDelete _ | .threadSuspend _ | .threadRestart _ =>
      inferInstanceAs (Decidable (_ ≠ _))
  | .threadResume _ | .threadSleep _ | .threadYield | .threadSetPriority .. | .schedLock
  | .schedUnlock | .mutexLock .. | .mutexUnlock _ | .semTake .. | .semGive _ | .semReset _
  | .msgqPut .. | .msgqGet .. | .msgqPeek _ | .msgqPurge _ | .eventPost .. | .eventClear ..
  | .eventWait .. | .memPoolAlloc .. | .memPoolFree .. | .pipeWrite .. | .pipeRead .. =>
      isTrue trivial

/-- When the current thread goes on: a caller that has blocked gives the CPU away. -/
def Sys.ContRespects (s : Sys) (self : Tid) : Pc → Prop
  | .resched _ => s.k.SwitchSafe ∧ ((s.k.thr self).state = .waiting → s.k.Leaves self)
  | _ => True

instance (s : Sys) (self : Tid) : (p : Pc) → Decidable (s.ContRespects self p)
  | .resched _ => inferInstanceAs (Decidable (_ ∧ _))
  | .user | .at _ => isTrue trivial

/-- When a step keeps wait lists and calls together. -/
def Sys.Respects (cfg : Config) (s : Sys) : Sys.Label → Prop
  | .boot t .. => (s.k.thr t).state ≠ .waiting
  | .start => ∀ t ∈ s.k.schedNextThread, (s.k.thr t).state ≠ .waiting
  | .call c => ∀ self ∈ s.k.current, c.Respects s.k self
  | .cont => ∀ self ∈ s.k.current, s.ContRespects self (s.pc self)
  | .tick => wakeSafe (s.k.tickCount + 1) walkBound { s.k with tickCount := s.k.tickCount + 1 }
      s.k.sleepList.head ∧ (s.k.tickSection cfg).SwitchSafe
  | .isrSemGive i => let r := VibeRtos.semGive s.k (s.sem i)
      r.2.2 = .resched .ok → r.1.SwitchSafe
  | .isrEventPost i flags =>
      (VibeRtos.eventPost s.k (s.event i) s.eventCtx flags).1.SwitchSafe

instance (cfg : Config) (s : Sys) : (l : Sys.Label) → Decidable (s.Respects cfg l)
  | .boot .. => inferInstanceAs (Decidable (_ ≠ _))
  | .start => Option.decidableForallMem s.k.schedNextThread
  | .call _ => Option.decidableForallMem s.k.current
  | .cont => Option.decidableForallMem s.k.current
  | .tick => inferInstanceAs (Decidable (_ ∧ _))
  | .isrSemGive _ => inferInstanceAs (Decidable ((_ : Flow Err) = _ → _))
  | .isrEventPost .. => inferInstanceAs (Decidable (Kernel.SwitchSafe _))

/-! ## The account of the takes -/

/-- The machine, with the account. -/
structure GrantSys where
  sys : Sys
  /-- how often a give took each thread off the wait list of its semaphore -/
  granted : Tid → Nat
  /-- how often each thread returned from a take that had blocked -/
  returned : Tid → Nat

/-- The semaphore a step gives. -/
def Sys.Label.gives : Sys.Label → Option Nat
  | .call (.semGive i) | .isrSemGive i => some i
  | _ => none

/-- Who is taken off the wait list of the semaphore a step gives. -/
def Sys.grants (s : Sys) (l : Sys.Label) (s' : Sys) : List Tid :=
  match l.gives with
  | some i => (WaitList.nodes s (.sem i)).filter fun t => t ∉ WaitList.nodes s' (.sem i)
  | none => []

/-- Who returns from a take that had blocked. -/
def Sys.takes (s : Sys) (l : Sys.Label) : List Tid :=
  match l, s.k.current with
  | .cont, some self =>
      match s.pc self with
      | .at .semTakeWake => [self]
      | _ => []
  | _, _ => []

namespace GrantSys

/-- One step of the machine and its account. -/
def step (cfg : Config) (s : GrantSys) (l : Sys.Label) : Option GrantSys :=
  (s.sys.step cfg l).map fun s' =>
    ⟨s', fun t => s.granted t + (s.sys.grants l s').count t,
      fun t => s.returned t + (s.sys.takes l).count t⟩

/-- No thread exists, the wait lists are empty, and nothing is counted yet. -/
structure Initial (cfg : Config) (s : GrantSys) : Prop where
  kernel : ∃ thr idle, s.sys.k = Kernel.bss cfg thr idle ∧ ∀ t, (thr t).state = .suspended
  pc : ∀ t, s.sys.pc t = .user
  lists : ∀ L : WaitList, L.anchor s.sys = listInit
  granted : s.granted = fun _ => 0
  returned : s.returned = fun _ => 0

def Respects (cfg : Config) (s : GrantSys) (l : Sys.Label) : Prop := s.sys.Respects cfg l

instance (cfg : Config) (s : GrantSys) (l : Sys.Label) : Decidable (s.Respects cfg l) :=
  inferInstanceAs (Decidable (s.sys.Respects cfg l))

end GrantSys

/-- What a step from `s` to `s'` promises about the threads that were waiting. -/
structure Sys.NoGhosts (s : Sys) (l : Sys.Label) (s' : Sys) : Prop where
  /-- who is taken off a list is blocked in the call that put it there, and the step is one
  that releases from this list -/
  removed : ∀ (L : WaitList) t, t ∈ L.nodes s → t ∉ L.nodes s' → s.BlockedOn t L ∧ L.ReleasedBy s l
  /-- a call goes on behind its reschedule only when its thread is on no list any more -/
  goesOn : ∀ t a, l = .cont → s.k.current = some t → s.pc t = .at a →
    ∀ L : WaitList, t ∉ L.nodes s
  /-- a mutex goes to the thread that locks it now, or to one still blocked in a lock -/
  owner : ∀ m t, (s'.mutex m).owner = some t → (s.mutex m).owner = some t
    ∨ (∃ timeout, l = .call (.mutexLock m timeout) ∧ s.k.current = some t)
    ∨ t ∈ WaitList.nodes s (.mutex m) ∧ s.BlockedOn t (.mutex m)

end VibeRtos
