import VibeRtos.Kernel.ObjectSystem
import VibeRtos.Kernel.Msgq

/-!
# A message queue under any scheduler

Any number of threads put to and get from one queue. A caller that blocked is, once
woken, in front of its retry section until it runs again.
-/

namespace VibeRtos

open Kernel

/-- Where a thread is in `vibe_msgq_put` or `vibe_msgq_get`. -/
inductive MsgqPc where
  /-- in its own code -/
  | idle
  /-- blocked in a put, or in front of its retry section -/
  | putting (data : Nat → UInt8)
  /-- blocked in a get, or in front of its retry section -/
  | getting

/-- The queue. -/
structure MsgqObj where
  q : Msgq
  /-- the threads taken off a wait list whose retry section is still to run -/
  woken : List Tid

/-- The sections of the two calls. -/
inductive MsgqAct where
  | put (data : Nat → UInt8) (timeout : UInt32)
  | get (timeout : UInt32)
  | retry

/-- The sections of a thread. -/
def msgqThread (k : Kernel) (o : MsgqObj) (self : Tid) :
    MsgqPc → MsgqAct → Option (Kernel × MsgqObj × MsgqPc)
  | .idle, .put data timeout =>
      let r := msgqPut k o.q self data timeout
      some (r.1, match r.2.2 with
        | .done _ => (⟨r.2.1, o.woken⟩, .idle)
        | .resched _ => (⟨r.2.1, o.woken ++ o.q.readWait.head.toList⟩, .idle)
        | .block => (⟨r.2.1, o.woken⟩, .putting data))
  | .idle, .get timeout =>
      let r := msgqGet k o.q self timeout
      some (r.1, match r.2.2 with
        | .done _ => (⟨r.2.1, o.woken⟩, .idle)
        | .resched _ => (⟨r.2.1, o.woken ++ o.q.writeWait.head.toList⟩, .idle)
        | .block => (⟨r.2.1, o.woken⟩, .getting))
  | .putting data, .retry => some (k, ⟨(msgqPutRetry o.q data).1, o.woken.erase self⟩, .idle)
  | .getting, .retry => some (k, ⟨(msgqGetRetry o.q).1, o.woken.erase self⟩, .idle)
  | _, _ => none

/-- The machine; no interrupt uses the queue. -/
abbrev MsgqSys := ObjectSys MsgqObj MsgqPc

def msgqSections : Sections MsgqObj MsgqPc MsgqAct Empty where
  thread := msgqThread
  isr := fun k o _ => (k, o)

abbrev MsgqLabel := ObjectSys.Label MsgqAct Empty

namespace MsgqSys

/-- One step. -/
def step (cfg : Config) (s : MsgqSys) (l : MsgqLabel) : Option MsgqSys :=
  ObjectSys.step cfg msgqSections s l

/-- Nobody is inside a call, nobody sleeps, and the queue is new. -/
structure Initial (s : MsgqSys) : Prop where
  queue : ∃ buffer msgSize maxMsgs, msgqInit buffer msgSize maxMsgs = some s.obj.q
  woken : s.obj.woken = []
  pc : ∀ t, s.pc t = .idle
  sleep : s.k.sleepList.head = none

/-- The threads blocked in a get, in list order. -/
def readers (s : MsgqSys) : List Tid := listNodes s.k.waitNode s.obj.q.readWait

/-- The threads blocked in a put, in list order. -/
def writers (s : MsgqSys) : List Tid := listNodes s.k.waitNode s.obj.q.writeWait

/-- Nobody sleeps next to what it waits for, unless a woken thread has still to retry. -/
def NoLostWakeup (s : MsgqSys) : Prop :=
  s.obj.woken = [] →
    (s.readers ≠ [] → s.obj.q.used = 0) ∧ (s.writers ≠ [] → s.obj.q.used = s.obj.q.maxMsgs)

/-- A retry concerns nobody else: no thread waits on the other side, and on the caller's own
side only if the queue is or becomes full (for a put), or empty (for a get). -/
def RetrySettles (s : MsgqSys) : MsgqPc → Prop
  | .idle => True
  | .putting _ =>
      s.readers = [] ∧ (s.writers = [] ∨ s.obj.q.maxMsgs.toNat ≤ s.obj.q.used.toNat + 1)
  | .getting => s.writers = [] ∧ (s.readers = [] ∨ s.obj.q.used.toNat ≤ 1)

/-- If the step is the retry of the last woken thread, it concerns nobody else. -/
def Settles (s : MsgqSys) : MsgqLabel → Prop
  | .act .retry => ∀ self ∈ s.k.current, s.obj.woken.erase self = [] → s.RetrySettles (s.pc self)
  | _ => True

instance (s : MsgqSys) : (p : MsgqPc) → Decidable (s.RetrySettles p)
  | .idle => isTrue trivial
  | .putting _ => inferInstanceAs (Decidable (_ ∧ (_ ∨ _)))
  | .getting => inferInstanceAs (Decidable (_ ∧ (_ ∨ _)))

instance (s : MsgqSys) : (l : MsgqLabel) → Decidable (s.Settles l)
  | .act .retry =>
      match h : s.k.current with
      | none => isTrue (by simp [Settles, h])
      | some self => decidable_of_iff
          (s.obj.woken.erase self = [] → s.RetrySettles (s.pc self)) (by simp [Settles, h])
  | .act (.put ..) | .act (.get _) | .dispatch _ | .tick | .isr _ => isTrue trivial

end MsgqSys

end VibeRtos
