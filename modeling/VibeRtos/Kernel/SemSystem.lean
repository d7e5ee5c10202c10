import VibeRtos.Kernel.ObjectSystem
import VibeRtos.Kernel.Sem

/-!
# A semaphore under any scheduler

Any number of threads take, give and reset one semaphore, and interrupts give it. The
tokens are counted as the calls return them, and the takers that had to wait are kept
in the order in which they came and in the order in which they were served.
-/

namespace VibeRtos

open Links Kernel

/-- Where a thread is. -/
inductive SemPc where
  /-- in its own code -/
  | idle
  /-- blocked in `vibe_sem_take`, or handed a token there and yet to run again -/
  | taking
  deriving DecidableEq

/-- The semaphore, and the account of its tokens. -/
structure SemObj where
  sem : Sem
  /-- the gives that returned `VIBE_OK` -/
  given : Nat
  /-- the takes that returned `VIBE_OK` -/
  taken : Nat
  /-- the tokens that resets threw away -/
  discarded : Nat
  /-- the takers handed a token whose call is still to return -/
  handed : List Tid
  /-- the takers that blocked, in the order in which they came -/
  arrived : List Tid
  /-- the takers handed a token, in the order in which they got it -/
  served : List Tid

/-- The sections of the calls. -/
inductive SemAct where
  | take (timeout : UInt32)
  /-- the end of a take that blocked -/
  | wake
  | give
  | reset

/-- `vibe_sem_give`, up to the reschedule. -/
def semGiving (k : Kernel) (o : SemObj) : Kernel × SemObj :=
  let r := semGive k o.sem
  (r.1, match r.2.2 with
    | .done .ok => { o with sem := r.2.1, given := o.given + 1 }
    | .resched .ok => { o with
        sem := r.2.1
        given := o.given + 1
        handed := o.handed ++ o.sem.waitList.head.toList
        served := o.served ++ o.sem.waitList.head.toList }
    | _ => { o with sem := r.2.1 })

/-- `vibe_sem_take`, up to the reschedule. -/
def semTaking (k : Kernel) (o : SemObj) (self : Tid) (timeout : UInt32) :
    Kernel × SemObj × SemPc :=
  let r := semTake k o.sem self timeout
  (r.1, match r.2.2 with
    | .done .ok => ({ o with sem := r.2.1, taken := o.taken + 1 }, .idle)
    | .block => ({ o with sem := r.2.1, arrived := o.arrived ++ [self] }, .taking)
    | _ => ({ o with sem := r.2.1 }, .idle))

/-- The end of a take that blocked. -/
def semTaken (k : Kernel) (o : SemObj) (self : Tid) : SemObj :=
  match semTakeWake k self with
  | .ok => { o with taken := o.taken + 1, handed := o.handed.erase self }
  | _ => { o with handed := o.handed.erase self }

/-- The sections of a thread. -/
def semThread (k : Kernel) (o : SemObj) (self : Tid) :
    SemPc → SemAct → Option (Kernel × SemObj × SemPc)
  | .idle, .take timeout => some (semTaking k o self timeout)
  | .taking, .wake => some (k, semTaken k o self, .idle)
  | .idle, .give =>
      let r := semGiving k o
      some (r.1, r.2, .idle)
  | .idle, .reset =>
      some (k, { o with
        sem := semReset o.sem
        discarded := o.discarded + o.sem.count.toNat }, .idle)
  | _, _ => none

/-- The machine; interrupts give. -/
abbrev SemSys := ObjectSys SemObj SemPc

def semSections : Sections SemObj SemPc SemAct Unit where
  thread := semThread
  isr := fun k o _ => semGiving k o

abbrev SemLabel := ObjectSys.Label SemAct Unit

namespace SemSys

/-- One step. -/
def step (cfg : Config) (s : SemSys) (l : SemLabel) : Option SemSys :=
  ObjectSys.step cfg semSections s l

/-- `vibe_sem_init(initial, max)` has returned `VIBE_OK`, and nobody has used the semaphore. -/
structure Initial (initial max : UInt32) (s : SemSys) : Prop where
  sem : semInit initial max = some s.obj.sem
  given : s.obj.given = 0
  taken : s.obj.taken = 0
  discarded : s.obj.discarded = 0
  handed : s.obj.handed = []
  arrived : s.obj.arrived = []
  served : s.obj.served = []
  pc : ∀ t, s.pc t = .idle
  sleep : s.k.sleepList.head = none

/-- The threads blocked in a take, in list order. -/
def waiters (s : SemSys) : List Tid := listNodes s.k.waitNode s.obj.sem.waitList

/-- The outstanding tokens stay below `2 ^ 32`. -/
def Few (s : SemSys) : SemLabel → Prop
  | .act .give | .isr _ => s.obj.sem.count.toNat + 1 < 2 ^ 32
  | _ => True

instance (s : SemSys) : (l : SemLabel) → Decidable (s.Few l)
  | .act .give | .isr _ => inferInstanceAs (Decidable (_ < _))
  | .act (.take _) | .act .wake | .act .reset | .dispatch _ | .tick => isTrue trivial

/-- What the account of a semaphore promises. -/
structure Law (initial max : UInt32) (s : SemSys) : Prop where
  /-- no token is lost or made up -/
  conserved : initial.toNat + s.obj.given
    = s.obj.sem.count.toNat + (s.obj.taken + s.obj.handed.length) + s.obj.discarded
  bounded : max > 0 → s.obj.sem.count ≤ max
  /-- nobody waits next to a token -/
  exclusive : s.obj.sem.count > 0 → s.waiters = []
  /-- first come, first served -/
  order : s.obj.arrived = s.obj.served ++ s.waiters
  overflow : (semGive s.k s.obj.sem).2.2 = .done .eoverflow →
    semGive s.k s.obj.sem = (s.k, s.obj.sem, .done .eoverflow)
  again : ∀ self timeout, (semTake s.k s.obj.sem self timeout).2.2 = .done .eagain →
    semTake s.k s.obj.sem self timeout = (s.k, s.obj.sem, .done .eagain)

end SemSys

end VibeRtos
