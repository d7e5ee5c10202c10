import VibeRtos.Kernel.ObjectSystem
import VibeRtos.Kernel.Pipe

/-!
# A pipe under any scheduler

Any number of threads write to and read from one pipe. Between two rounds of its loop
a caller is blocked, woken and yet to run again, or on its way to the next round. The
bytes that went in and out are recorded in the order of the sections that moved them.
-/

namespace VibeRtos

open Kernel ByteMem

/-- Where a thread is. -/
inductive PipePc where
  /-- in its own code -/
  | idle
  /-- before a round of `vibe_pipe_write`; `asleep` until a blocked caller runs again -/
  | writing (src : List UInt8) (written : Nat) (timeout stopAt : UInt32) (asleep : Bool)
  /-- before a round of `vibe_pipe_read` -/
  | reading (len : Nat) (dst : Mem) (readCnt : Nat) (timeout stopAt : UInt32) (asleep : Bool)
  /-- in its own code again, `vibe_pipe_write` having returned `ret` -/
  | wrote (src : List UInt8) (ret : Int)
  /-- in its own code again, `vibe_pipe_read` having returned `ret` -/
  | gotten (dst : Mem) (ret : Int)

/-- Not inside a call. -/
def PipePc.free : PipePc → Bool
  | .idle | .wrote .. | .gotten .. => true
  | .writing .. | .reading .. => false

/-- Blocked, or woken and yet to run again. -/
def PipePc.asleep : PipePc → Bool
  | .writing _ _ _ _ asleep | .reading _ _ _ _ _ asleep => asleep
  | _ => false

/-- The pipe, and a record of what went through it. -/
structure PipeObj where
  p : Pipe
  /-- the threads taken off a wait list whose loop body is still to run again -/
  woken : List Tid
  /-- the bytes accepted from writers -/
  accepted : List UInt8
  /-- the bytes delivered to readers -/
  delivered : List UInt8
  /-- the bytes each thread's present or last call has moved -/
  part : Tid → List UInt8

/-- The sections of the two calls. -/
inductive PipeAct where
  | write (src : List UInt8) (timeout : UInt32)
  | read (len : Nat) (dst : Mem) (timeout : UInt32)
  | round

/-- A round of `vibe_pipe_write`, or its return. -/
def pipeWriting (k : Kernel) (o : PipeObj) (self : Tid) (src : List UInt8) (written : Nat)
    (timeout stopAt : UInt32) : Kernel × PipeObj × PipePc :=
  let woken := o.woken.erase self
  if written < src.length then
    let r := pipeWriteRound k o.p self src written timeout stopAt
    match r.2.2 with
    | .ret => (r.1, { o with p := r.2.1, woken := woken }, .wrote src (intOfSize written))
    | .loop done =>
        if done = written then
          (r.1, { o with p := r.2.1, woken := woken }, .writing src written timeout stopAt true)
        else
          let bytes := (src.drop written).take (done - written)
          (r.1, {
            p := r.2.1
            woken := woken ++ o.p.readWait.head.toList
            accepted := o.accepted ++ bytes
            delivered := o.delivered
            part := Function.update o.part self (o.part self ++ bytes) },
            .writing src done timeout stopAt false)
  else (k, { o with woken := woken }, .wrote src (intOfSize written))

/-- A round of `vibe_pipe_read`, or its return. -/
def pipeReading (k : Kernel) (o : PipeObj) (self : Tid) (len : Nat) (dst : Mem) (readCnt : Nat)
    (timeout stopAt : UInt32) : Kernel × PipeObj × PipePc :=
  let woken := o.woken.erase self
  if readCnt < len then
    let r := pipeReadRound k o.p self len dst readCnt timeout stopAt
    match r.2.2 with
    | .ret => (r.1, { o with p := r.2.1, woken := woken }, .gotten dst (intOfSize readCnt))
    | .loop done =>
        if done.2 = readCnt then
          (r.1, { o with p := r.2.1, woken := woken },
            .reading len done.1 readCnt timeout stopAt true)
        else
          let bytes := slice done.1 readCnt (done.2 - readCnt)
          (r.1, {
            p := r.2.1
            woken := woken ++ o.p.writeWait.head.toList
            accepted := o.accepted
            delivered := o.delivered ++ bytes
            part := Function.update o.part self (o.part self ++ bytes) },
            .reading len done.1 done.2 timeout stopAt false)
  else (k, { o with woken := woken }, .gotten dst (intOfSize readCnt))

/-- The sections of a thread. -/
def pipeThread (k : Kernel) (o : PipeObj) (self : Tid) (pc : PipePc) :
    PipeAct → Option (Kernel × PipeObj × PipePc)
  | .write src timeout =>
      if pc.free then
        some (k, { o with part := Function.update o.part self [] },
          .writing src 0 timeout (k.deadline timeout) false)
      else none
  | .read len dst timeout =>
      if pc.free then
        some (k, { o with part := Function.update o.part self [] },
          .reading len dst 0 timeout (k.deadline timeout) false)
      else none
  | .round =>
      match pc with
      | .writing src written timeout stopAt _ =>
          some (pipeWriting k o self src written timeout stopAt)
      | .reading len dst readCnt timeout stopAt _ =>
          some (pipeReading k o self len dst readCnt timeout stopAt)
      | _ => none

/-- The machine; no interrupt uses the pipe. -/
abbrev PipeSys := ObjectSys PipeObj PipePc

def pipeSections : Sections PipeObj PipePc PipeAct Empty where
  thread := pipeThread
  isr := fun k o _ => (k, o)

abbrev PipeLabel := ObjectSys.Label PipeAct Empty

namespace PipeSys

/-- One step. -/
def step (cfg : Config) (s : PipeSys) (l : PipeLabel) : Option PipeSys :=
  ObjectSys.step cfg pipeSections s l

/-- Nobody is inside a call, nobody sleeps, and the pipe is new. -/
structure Initial (s : PipeSys) : Prop where
  pipe : ∃ buf size, pipeInit buf size = some s.obj.p
  woken : s.obj.woken = []
  accepted : s.obj.accepted = []
  delivered : s.obj.delivered = []
  pc : ∀ t, s.pc t = .idle
  sleep : s.k.sleepList.head = none

/-- The threads blocked in a read, in list order. -/
def readers (s : PipeSys) : List Tid := listNodes s.k.waitNode s.obj.p.readWait

/-- The threads blocked in a write, in list order. -/
def writers (s : PipeSys) : List Tid := listNodes s.k.waitNode s.obj.p.writeWait

/-- Nobody sleeps next to what it waits for, unless a woken thread has still to run again. -/
def NoLostWakeup (s : PipeSys) : Prop :=
  s.obj.woken = [] →
    (s.readers ≠ [] → s.obj.p.used = 0) ∧ (s.writers ≠ [] → s.obj.p.used = s.obj.p.size)

/-- A round of a woken thread wakes somebody, or leaves nobody waiting on the caller's own
side, or fills the pipe (for a write) or empties it (for a read). -/
def RoundSettles (s : PipeSys) : PipePc → Prop
  | .writing src written _ _ _ => s.readers ≠ [] ∨ s.writers = []
      ∨ s.obj.p.size.toNat ≤ s.obj.p.used.toNat + (src.length - written)
  | .reading len _ readCnt _ _ _ => s.writers ≠ [] ∨ s.readers = []
      ∨ s.obj.p.used.toNat ≤ len - readCnt
  | _ => True

/-- If the step is a round of the last woken thread, nobody is left asleep by it. -/
def Settles (s : PipeSys) : PipeLabel → Prop
  | .act .round => ∀ self ∈ s.k.current, self ∈ s.obj.woken → s.obj.woken.erase self = [] →
      s.RoundSettles (s.pc self)
  | _ => True

instance (s : PipeSys) : (p : PipePc) → Decidable (s.RoundSettles p)
  | .writing .. => inferInstanceAs (Decidable (_ ∨ _ ∨ _))
  | .reading .. => inferInstanceAs (Decidable (_ ∨ _ ∨ _))
  | .idle | .wrote .. | .gotten .. => isTrue trivial

instance (s : PipeSys) : (l : PipeLabel) → Decidable (s.Settles l)
  | .act .round =>
      match h : s.k.current with
      | none => isTrue (by simp [Settles, h])
      | some self => decidable_of_iff
          (self ∈ s.obj.woken → s.obj.woken.erase self = [] → s.RoundSettles (s.pc self))
          (by simp [Settles, h])
  | .act (.write ..) | .act (.read ..) | .dispatch _ | .tick | .isr _ => isTrue trivial

end PipeSys

end VibeRtos
