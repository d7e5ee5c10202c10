import VibeRtos.Kernel.ObjectSystem
import VibeRtos.Kernel.Workq

/-!
# A work queue under any scheduler

One worker, and any number of threads and interrupts that submit items. A submit is two
sections: the item is linked in the first, and the semaphore is given in the second.
The handlers run on the worker and may submit items themselves.
-/

namespace VibeRtos

open Links SList Kernel

/-- Who is inside `vibe_work_submit`. -/
inductive WorkCtx where
  | thread (t : Tid)
  | isr (n : Nat)
  deriving DecidableEq

/-- Where a thread is. -/
inductive WorkPc where
  /-- in its own code -/
  | idle
  /-- in a submit, behind the section that links the item -/
  | giving
  /-- the worker, before `vibe_sem_take` -/
  | loop
  /-- the worker, blocked there, or handed a token and yet to run again -/
  | blocked
  /-- the worker, behind `vibe_sem_take` -/
  | token
  /-- the worker, with what it has taken off the list -/
  | popped (w : Option WorkId)
  /-- the worker, inside a handler -/
  | handler
  /-- the worker, in a submit made by a handler -/
  | handlerGiving
  deriving DecidableEq

/-- The item taken off the list whose handler is still to be called. -/
def WorkPc.inHand : WorkPc → List WorkId
  | .popped w => w.toList
  | _ => []

/-- Between the two sections of a submit. -/
def WorkPc.InFlight (p : WorkPc) : Prop := p = .giving ∨ p = .handlerGiving

/-- The items, the queue, and a record of what went through it. -/
structure WorkObj where
  mem : WorkMem
  q : Workq
  /-- who has linked an item and is still to give -/
  flight : List WorkCtx
  /-- the items of the submits that succeeded, in the order of their sections -/
  submitted : List WorkId
  /-- the items whose handlers were called, in that order -/
  invoked : List WorkId

/-- The sections. -/
inductive WorkAct where
  | submit (w : WorkId)
  | give
  | take
  | wake
  | pop
  /-- the worker calls the handler, if there is one -/
  | call
  /-- the handler returns -/
  | ret

/-- The first section of a submit by `c`. -/
def workSubmitting (o : WorkObj) (c : WorkCtx) (w : WorkId) : Err × WorkObj :=
  let r := workSubmit o.mem o.q w
  (r.1, if r.1 = .ok then { o with
      mem := r.2.1
      q := r.2.2
      flight := o.flight ++ [c]
      submitted := o.submitted ++ [w] }
    else { o with mem := r.2.1, q := r.2.2 })

/-- The second section of a submit by `c`. -/
def workGiving (k : Kernel) (o : WorkObj) (c : WorkCtx) : Kernel × WorkObj :=
  let r := semGive k o.q.sem
  (r.1, { o with q := { o.q with sem := r.2.1 }, flight := o.flight.erase c })

/-- The sections of a thread; the worker does not look at what `vibe_sem_take` returns. -/
def workThread (k : Kernel) (o : WorkObj) (self : Tid) :
    WorkPc → WorkAct → Option (Kernel × WorkObj × WorkPc)
  | .idle, .submit w =>
      let r := workSubmitting o (.thread self) w
      some (k, r.2, if r.1 = .ok then .giving else .idle)
  | .giving, .give =>
      let r := workGiving k o (.thread self)
      some (r.1, r.2, .idle)
  | .loop, .take =>
      let r := semTake k o.q.sem self waitForever
      some (r.1, { o with q := { o.q with sem := r.2.1 } }, match r.2.2 with
        | .block => .blocked
        | _ => .token)
  | .blocked, .wake => some (k, o, .token)
  | .token, .pop =>
      let r := workqPop o.mem o.q
      some (k, { o with mem := r.2.1, q := r.2.2 }, .popped r.1)
  | .popped none, .call => some (k, o, .loop)
  | .popped (some w), .call =>
      if (o.mem w).handler ≠ none then some (k, { o with invoked := o.invoked ++ [w] }, .handler)
      else some (k, o, .loop)
  | .handler, .submit w =>
      let r := workSubmitting o (.thread self) w
      some (k, r.2, if r.1 = .ok then .handlerGiving else .handler)
  | .handlerGiving, .give =>
      let r := workGiving k o (.thread self)
      some (r.1, r.2, .handler)
  | .handler, .ret => some (k, o, .loop)
  | _, _ => none

/-- The sections of an interrupt. -/
inductive WorkIsr where
  | submit (n : Nat) (w : WorkId)
  | give (n : Nat)

/-- An interrupt takes them in turn. -/
def workIsr (k : Kernel) (o : WorkObj) : WorkIsr → Kernel × WorkObj
  | .submit n w => if .isr n ∈ o.flight then (k, o) else (k, (workSubmitting o (.isr n) w).2)
  | .give n => if .isr n ∈ o.flight then workGiving k o (.isr n) else (k, o)

/-- The machine. -/
abbrev WorkSys := ObjectSys WorkObj WorkPc

def workSections : Sections WorkObj WorkPc WorkAct WorkIsr where
  thread := workThread
  isr := workIsr

abbrev WorkLabel := ObjectSys.Label WorkAct WorkIsr

namespace WorkSys

/-- One step. -/
def step (cfg : Config) (s : WorkSys) (l : WorkLabel) : Option WorkSys :=
  ObjectSys.step cfg workSections s l

/-- The queue is new, every item is initialised, and `worker` is before its loop. -/
structure Initial (worker : Tid) (s : WorkSys) : Prop where
  q : workqInit = some s.obj.q
  mem : ∀ w, ∃ fn, s.obj.mem w = ⟨some fn, none, false⟩
  flight : s.obj.flight = []
  submitted : s.obj.submitted = []
  invoked : s.obj.invoked = []
  loop : s.pc worker = .loop
  idle : ∀ t, t ≠ worker → s.pc t = .idle
  sleep : s.k.sleepList.head = none

/-- The threads blocked on the semaphore, in list order. -/
def waiters (s : WorkSys) : List Tid := listNodes s.k.waitNode s.obj.q.sem.waitList

/-- The outstanding tokens stay below `2 ^ 32`. -/
def Few (s : WorkSys) : WorkLabel → Prop
  | .act .give | .isr (.give _) => s.obj.q.sem.count.toNat + 1 < 2 ^ 32
  | _ => True

instance (s : WorkSys) : (l : WorkLabel) → Decidable (s.Few l)
  | .act .give | .isr (.give _) => inferInstanceAs (Decidable (_ < _))
  | .act (.submit _) | .act .take | .act .wake | .act .pop | .act .call | .act .ret
  | .isr (.submit ..) | .dispatch _ | .tick => isTrue trivial

/-- What a work queue with worker `worker` and items `xs` in its list promises. -/
structure Law (worker : Tid) (s : WorkSys) (xs : List WorkId) : Prop where
  /-- the list is well formed -/
  list : Path (fun w => (s.obj.mem w).next) s.obj.q.head xs none ∧ xs.Nodup
    ∧ s.obj.q.tail = xs.getLast?
  pending : ∀ w, (s.obj.mem w).pending ↔ w ∈ xs
  /-- one handler call for each successful submit, in order -/
  once : s.obj.submitted = s.obj.invoked ++ (s.pc worker).inHand ++ xs
  /-- a token finds an item -/
  token : s.pc worker = .token → xs ≠ []
  /-- the worker does not sleep next to an item -/
  stranded : s.pc worker = .blocked → worker ∈ s.waiters → s.obj.q.sem.count = 0 →
    s.obj.flight = [] → xs = [] ∧ s.obj.invoked = s.obj.submitted

end WorkSys

end VibeRtos
