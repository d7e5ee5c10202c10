import VibeRtos.Kernel.ObjectSystem
import VibeRtos.Kernel.Event

/-!
# An event group under any scheduler

Any number of threads and interrupts post and clear the flags of one event group, and
threads wait for them. Beside the group stands a record of what each wait is for and of
whether its condition has held, at the call or at a post made while the thread was blocked.
-/

namespace VibeRtos

open Kernel

/-- Where a thread is in `vibe_event_wait`. -/
inductive EventPc where
  /-- in its own code -/
  | idle
  /-- blocked, or in front of the section that checks the outcome; `ctx` is the local variable -/
  | waiting (ctx : Option Nat)
  deriving DecidableEq

/-- The event group and the context blocks, and the record. -/
structure EventObj where
  e : Event
  ctxs : EventCtxMem
  /-- the mask and the mode of each thread's last wait that blocked -/
  wants : Tid → UInt32 × EventWaitMode
  /-- the condition of that wait has held -/
  met : Tid → Bool
  /-- the waits that have returned, with their result and whether the condition had held -/
  returned : List (Tid × Err × Bool)

/-- The last wait of `t` that blocked is for these flags. -/
def EventObj.wantsFlags (o : EventObj) (flags : UInt32) (t : Tid) : Bool :=
  flagsSatisfied flags (o.wants t).1 (o.wants t).2

/-- The calls of a thread, and the section after the wake-up. -/
inductive EventAct where
  | post (flags : UInt32)
  | clear (flags : UInt32)
  | wait (flags : UInt32) (mode : EventWaitMode) (timeout : UInt32)
  | finish

/-- The calls of an interrupt. -/
inductive EventIsr where
  | post (flags : UInt32)
  | clear (flags : UInt32)

/-- A post, and whom it concerns. -/
def EventObj.post (k : Kernel) (o : EventObj) (flags : UInt32) : Kernel × EventObj :=
  let r := eventPost k o.e o.ctxs flags
  (r.1, { o with
    e := r.2.1
    ctxs := r.2.2
    met := fun t => o.met t || (decide (t ∈ listNodes k.waitNode o.e.waitList)
      && o.wantsFlags (o.e.flags ||| flags) t) })

/-- The sections of a thread. Whoever waits has a context block, and waits for something. -/
def eventThread (k : Kernel) (o : EventObj) (self : Tid) :
    EventPc → EventAct → Option (Kernel × EventObj × EventPc)
  | .idle, .post flags =>
      let r := o.post k flags
      some (r.1, r.2, .idle)
  | .idle, .clear flags => some (k, { o with e := eventClear o.e flags }, .idle)
  | .idle, .wait flags mode timeout =>
      if flags = 0 ∨ (k.thr self).tls = none then none
      else
        let r := eventWait k o.e o.ctxs self flags mode timeout
        let held := flagsSatisfied o.e.flags flags mode
        let o := { o with e := r.2.1, ctxs := r.2.2.1 }
        some (r.1, match r.2.2.2 with
          | .done err | .resched err =>
              ({ o with returned := (self, err, held) :: o.returned }, .idle)
          | .block =>
              ({ o with
                wants := Function.update o.wants self (flags, mode)
                met := Function.update o.met self held }, .waiting (k.thr self).tls))
  | .waiting ctx, .finish =>
      some (k, { o with
        returned := (self, eventWaitWake o.ctxs ctx, o.met self) :: o.returned }, .idle)
  | _, _ => none

/-- The machine. -/
abbrev EventSys := ObjectSys EventObj EventPc

def eventSections : Sections EventObj EventPc EventAct EventIsr where
  thread := eventThread
  isr := fun k o i =>
    match i with
    | .post flags => o.post k flags
    | .clear flags => (k, { o with e := eventClear o.e flags })

abbrev EventLabel := ObjectSys.Label EventAct EventIsr

namespace EventSys

/-- One step. -/
def step (cfg : Config) (s : EventSys) (l : EventLabel) : Option EventSys :=
  ObjectSys.step cfg eventSections s l

/-- `vibe_event_init` has returned and nobody has used the group; no context block is shared. -/
structure Initial (s : EventSys) : Prop where
  event : s.obj.e = eventInit
  returned : s.obj.returned = []
  pc : ∀ t, s.pc t = .idle
  own : ∀ t u c, (s.k.thr t).tls = some c → (s.k.thr u).tls = some c → t = u
  sleep : s.k.sleepList.head = none

/-- The threads blocked in a wait, in list order. -/
def waiters (s : EventSys) : List Tid := listNodes s.k.waitNode s.obj.e.waitList

/-- The flags a step posts. -/
def posted : EventLabel → Option UInt32
  | .act (.post flags) | .isr (.post flags) => some flags
  | _ => none

/-- No event is missed. -/
structure Law (s : EventSys) : Prop where
  /-- nobody is blocked whose condition the flags meet -/
  blocked : ∀ t ∈ s.waiters, s.obj.wantsFlags s.obj.e.flags t = false
  /-- a wait returns `VIBE_OK` exactly if its condition has held -/
  returned : ∀ r ∈ s.obj.returned, r.2.1 = .ok ↔ r.2.2 = true

/-- What a post does: it wakes the waiters whose condition the old and the posted flags meet,
each once and in list order, and leaves the others as they are. -/
structure Posts (s : EventSys) (flags : UInt32) (s' : EventSys) : Prop where
  set : s'.obj.e.flags = s.obj.e.flags ||| flags
  linked : s'.waiters = s.waiters.filter fun t => !s.obj.wantsFlags (s.obj.e.flags ||| flags) t
  woken : s'.k = { (s.waiters.filter (s.obj.wantsFlags (s.obj.e.flags ||| flags))).foldl
    Kernel.schedEnqueue s.k with waitNode := s'.k.waitNode }

end EventSys

end VibeRtos
