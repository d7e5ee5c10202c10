import Mathlib

/-!
# The job scheduler

`job_scheduler.c`, with statistics. `vibe_sched_run` calls the job functions in the
middle of its loops, and a job function may submit and cancel jobs, so the loops are
given as rounds, with the program point between them. `N` is
`CONFIG_JOB_SCHEDULER_MAX_JOBS`.
-/

namespace VibeRtos

/-- `async_status_t`; the `switch` over it treats what it does not know as `ASYNC_RUNNING`. -/
inductive AsyncStatus where
  | done | running | blocked
  deriving DecidableEq

/-- `job_state_t`. -/
inductive JobState where
  | idle | ready | blocked
  deriving DecidableEq

/-- `vibe_job_t`. -/
structure Job where
  /-- the coroutine, by its address -/
  fn : Nat
  ctx : Nat
  /-- the resume point -/
  co : Int
  state : JobState
  prio : UInt8
  runCount : UInt32
  deriving DecidableEq

/-- `vibe_sched_stats_t`. -/
structure SchedStats where
  submitted : UInt32
  completed : UInt32
  active : UInt32
  ticks : UInt32
  deriving DecidableEq

/-- `vibe_job_sched_t`; its `capacity` is `N`. -/
structure JobSched (N : Nat) where
  jobs : Fin N → Job
  stats : SchedStats

namespace JobSched

variable {N : Nat}

/-- `vibe_sched_init`. -/
def init (N : Nat) : JobSched N where
  jobs := fun _ => ⟨0, 0, 0, .idle, 0, 0⟩
  stats := ⟨0, 0, 0, 0⟩

/-- Write the slot `i`. -/
def setJob (s : JobSched N) (i : Fin N) (j : Job) : JobSched N :=
  { s with jobs := Function.update s.jobs i j }

/-- `vibe_sched_submit`: the slot, or `none` when the pool is full. -/
def submit (s : JobSched N) (fn ctx : Nat) (prio : UInt8) : JobSched N × Option (Fin N) :=
  match (List.finRange N).find? fun i => (s.jobs i).state = .idle with
  | some i =>
      ({ s.setJob i ⟨fn, ctx, 0, .ready, prio, 0⟩ with
        stats := { s.stats with
          submitted := s.stats.submitted + 1
          active := s.stats.active + 1 } }, some i)
  | none => (s, none)

/-- `vibe_sched_cancel`. -/
def cancel (s : JobSched N) (job : Option (Fin N)) : JobSched N :=
  match job with
  | none => s
  | some i =>
      if (s.jobs i).state = .idle then s
      else { s.setJob i { s.jobs i with state := .idle } with
        stats := { s.stats with active := s.stats.active - 1 } }

/-- `_exec`, from the return of the job function on. -/
def execReturn (s : JobSched N) (i : Fin N) (st : AsyncStatus) : JobSched N :=
  let j := { s.jobs i with runCount := (s.jobs i).runCount + 1 }
  match st with
  | .done =>
      { s.setJob i { j with state := .idle } with
        stats := { s.stats with
          completed := s.stats.completed + 1
          active := s.stats.active - 1 } }
  | .blocked => s.setJob i { j with state := .blocked }
  | .running => s.setJob i { j with state := .ready }

/-- `vibe_sched_run`, before its loops. -/
def runStart (s : JobSched N) : JobSched N :=
  { s with stats := { s.stats with ticks := s.stats.ticks + 1 } }

/-- One step of the scan for the READY job to run next. -/
def scanStep (s : JobSched N) (ran : BitVec 64) (best : Option (Fin N)) (i : Fin N) :
    Option (Fin N) :=
  if ran.getLsbD i then best
  else if (s.jobs i).state ≠ .ready then best
  else
    match best with
    | none => some i
    | some b => if (s.jobs i).prio > (s.jobs b).prio then some i else best

/-- The scan; `ran` has the bits of the slots that ran in this tick. -/
def scan (s : JobSched N) (ran : BitVec 64) : Option (Fin N) :=
  (List.finRange N).foldl (s.scanStep ran) none

/-- `vibe_sched_is_idle`. -/
def isIdle (s : JobSched N) : Bool :=
  (List.finRange N).all fun i => (s.jobs i).state ≠ .ready

/-- `vibe_sched_active_count`. -/
def activeCount (s : JobSched N) : Nat :=
  (List.finRange N).countP fun i => (s.jobs i).state ≠ .idle

end JobSched

/-! ## Runs -/

/-- Where the task that owns the scheduler is. -/
inductive JobPc (N : Nat) where
  /-- outside of `vibe_sched_run` -/
  | idle
  /-- before a round of phase 1, with `ran` the slots that ran in this tick -/
  | ready (ran : BitVec 64) (n : Nat)
  /-- in the job function of slot `i`, called from phase 1 -/
  | inReady (ran : BitVec 64) (n : Nat) (i : Fin N)
  /-- before the round of phase 2 for slot `i` -/
  | blocked (i n : Nat)
  /-- in the job function of slot `i`, called from phase 2 -/
  | inBlocked (n : Nat) (i : Fin N)
  deriving DecidableEq

/-- The slot whose job function is running. -/
def JobPc.running {N : Nat} : JobPc N → Option (Fin N)
  | .inReady _ _ i => some i
  | .inBlocked _ i => some i
  | _ => none

/-- Between rounds nobody calls the scheduler. -/
def JobPc.CanCall {N : Nat} : JobPc N → Prop
  | .ready .. => False
  | .blocked .. => False
  | _ => True

instance {N : Nat} : (p : JobPc N) → Decidable p.CanCall
  | .ready .. | .blocked .. => isFalse id
  | .idle | .inReady .. | .inBlocked .. => isTrue trivial

/-- The scheduler, and a record of what became of the jobs. Jobs are numbered as they are
submitted. -/
structure JobSys (N : Nat) where
  sched : JobSched N
  pc : JobPc N
  /-- what the latest `vibe_sched_run` returned -/
  ran : Nat
  /-- the job each slot was last given to, until that job is done or cancelled -/
  job : Fin N → Option Nat
  /-- the job whose function is running -/
  current : Option Nat
  /-- the submits that succeeded -/
  submits : Nat
  /-- the cancels that found a job -/
  cancels : Nat
  /-- the calls of functions whose job is gone -/
  strays : Nat

namespace JobSys

variable {N : Nat}

/-- The steps. -/
inductive Label (N : Nat) where
  | submit (fn ctx : Nat) (prio : UInt8)
  | cancel (job : Option (Fin N))
  /-- `vibe_sched_run` is called -/
  | run
  /-- `vibe_sched_run` goes through one round of its loops -/
  | round
  /-- the job function returns `st`, having left its resume point at `co` -/
  | ret (st : AsyncStatus) (co : Int)

/-- Call the function of slot `i`. -/
def call (s : JobSys N) (i : Fin N) (pc : JobPc N) : JobSys N :=
  { s with
    pc := pc
    current := s.job i
    strays := if s.job i = none then s.strays + 1 else s.strays }

/-- One round of the loops of `vibe_sched_run`. -/
def round (s : JobSys N) : JobPc N → Option (JobSys N)
  | .ready ran n =>
      match s.sched.scan ran with
      | some i => some (s.call i (.inReady (ran ||| 1#64 <<< i.val) n i))
      | none => some { s with pc := .blocked 0 n }
  | .blocked i n =>
      if h : i < N then
        if (s.sched.jobs ⟨i, h⟩).state ≠ .blocked then some { s with pc := .blocked (i + 1) n }
        else some (s.call ⟨i, h⟩ (.inBlocked n ⟨i, h⟩))
      else some { s with pc := .idle, ran := n }
  | _ => none

/-- The point behind a call of `_exec`. -/
def behind : JobPc N → JobPc N
  | .inReady ran n _ => .ready ran (n + 1)
  | .inBlocked n i => .blocked (i.val + 1) (n + 1)
  | p => p

/-- One step. -/
def step (s : JobSys N) : Label N → Option (JobSys N)
  | .submit fn ctx prio =>
      if s.pc.CanCall then
        let r := s.sched.submit fn ctx prio
        some (match r.2 with
          | some i => { s with
              sched := r.1
              job := Function.update s.job i (some s.submits)
              submits := s.submits + 1 }
          | none => { s with sched := r.1 })
      else none
  | .cancel job =>
      if s.pc.CanCall then
        let s' := { s with sched := s.sched.cancel job }
        some (match job with
          | some i =>
              if (s.sched.jobs i).state = .idle then s'
              else { s' with job := Function.update s.job i none, cancels := s.cancels + 1 }
          | none => s')
      else none
  | .run =>
      if s.pc = .idle then some { s with sched := s.sched.runStart, pc := .ready 0#64 0 } else none
  | .round => s.round s.pc
  | .ret st co =>
      match s.pc.running with
      | none => none
      | some i =>
          let sched := s.sched.setJob i { s.sched.jobs i with co := co }
          some { s with
            sched := sched.execReturn i st
            pc := behind s.pc
            job := if st = .done ∧ s.job i = s.current then Function.update s.job i none
              else s.job }

/-- `vibe_sched_init` has returned. -/
structure Initial (s : JobSys N) : Prop where
  sched : s.sched = JobSched.init N
  pc : s.pc = .idle
  job : ∀ i, s.job i = none
  submits : s.submits = 0
  cancels : s.cancels = 0
  strays : s.strays = 0

/-- What the scheduler promises about its slots and its statistics. -/
structure Law (s : JobSys N) : Prop where
  active : s.sched.stats.active = UInt32.ofNat s.sched.activeCount
  /-- every job submitted is done, cancelled or active -/
  sum : s.sched.stats.submitted
    = s.sched.stats.completed + UInt32.ofNat s.cancels + s.sched.stats.active
  /-- a slot is held exactly while its job is neither done nor cancelled -/
  held : ∀ i, (s.sched.jobs i).state ≠ .idle ↔ s.job i ≠ none
  /-- no function was called whose job is gone -/
  strays : s.strays = 0

/-- A job function that has cancelled its own job has submitted another one into the slot, and
does not return `ASYNC_DONE`. -/
def Leaves (s : JobSys N) : Label N → Prop
  | .ret st _ => ∀ i ∈ s.pc.running, s.job i ≠ s.current → s.job i ≠ none ∧ st ≠ .done
  | _ => True

instance (s : JobSys N) : (l : Label N) → Decidable (s.Leaves l)
  | .ret _ _ => Option.decidableForallMem _
  | .submit .. | .cancel _ | .run | .round => isTrue trivial

end JobSys

end VibeRtos
