import VibeRtos.Job.Scheduler

/-!
# One tick of the job scheduler

`vibe_sched_run` from its call to its return, with jobs that leave the scheduler alone: what
they do is the sequence of statuses they return. The record of a tick is the list of the
calls of job functions it made.
-/

namespace VibeRtos

/-- The two loops of `vibe_sched_run`. -/
inductive JobPhase where
  | ready | blocked
  deriving DecidableEq

/-- A call of a job function from `vibe_sched_run`. -/
structure JobCall (N : Nat) where
  phase : JobPhase
  slot : Fin N
  /-- what the function returned -/
  st : AsyncStatus
  deriving DecidableEq

/-- The state `_exec` puts a job into. -/
def AsyncStatus.state : AsyncStatus → JobState
  | .done => .idle
  | .running => .ready
  | .blocked => .blocked

/-- Slot `i` is in front of slot `j` in phase 1: it is more urgent, or as urgent and before it. -/
def JobSched.Ahead {N : Nat} (s : JobSched N) (i j : Fin N) : Prop :=
  (s.jobs j).prio < (s.jobs i).prio ∨ (s.jobs i).prio = (s.jobs j).prio ∧ i < j

/-- What the function of slot `i` returned when it was called last. -/
def lastStatus {N : Nat} (log : List (JobCall N)) (i : Fin N) : Option AsyncStatus :=
  (log.filter fun c => c.slot = i).getLast?.map JobCall.st

namespace JobSys

variable {N : Nat}

/-- The call that ends when the job function at this point returns `st`. -/
def ending (pc : JobPc N) (st : AsyncStatus) : List (JobCall N) :=
  match pc with
  | .inReady _ _ i => [⟨.ready, i, st⟩]
  | .inBlocked _ i => [⟨.blocked, i, st⟩]
  | _ => []

/-- Go on until `vibe_sched_run` returns. The `k`-th job function called in this tick returns
`(rets k).1` and leaves its resume point at `(rets k).2`; `log` has the calls so far. -/
def drive (rets : Nat → AsyncStatus × Int) :
    Nat → JobSys N → List (JobCall N) → Option (JobSys N × List (JobCall N))
  | 0, _, _ => none
  | fuel + 1, s, log =>
      match s.pc with
      | .idle => some (s, log)
      | .ready .. | .blocked .. => (s.step .round).bind fun s' => drive rets fuel s' log
      | .inReady .. | .inBlocked .. =>
          let r := rets log.length
          (s.step (.ret r.1 r.2)).bind fun s' =>
            drive rets fuel s' (log ++ ending s.pc r.1)

/-- One `vibe_sched_run`: each loop takes at most one round more than it has slots. -/
def tick (s : JobSys N) (rets : Nat → AsyncStatus × Int) : Option (JobSys N × List (JobCall N)) :=
  (s.step .run).bind fun s' => drive rets (4 * N + 3) s' []

/-- The slots that are READY. -/
def readySlots (s : JobSys N) : List (Fin N) :=
  (List.finRange N).filter fun i => (s.sched.jobs i).state = .ready

/-- Every job is resumed once: the READY ones in phase 1, the BLOCKED ones in phase 2. -/
structure OnceEach (s s' : JobSys N) (log : List (JobCall N)) : Prop where
  ready : ∀ i, (s.sched.jobs i).state = .ready →
    ∃ st, log.filter (fun c => c.slot = i) = [⟨.ready, i, st⟩]
  blocked : ∀ i, (s.sched.jobs i).state = .blocked →
    ∃ st, log.filter (fun c => c.slot = i) = [⟨.blocked, i, st⟩]
  idle : ∀ i, (s.sched.jobs i).state = .idle → log.filter (fun c => c.slot = i) = []
  /-- what a job returned decides how the next tick finds it -/
  next : ∀ c ∈ log, (s'.sched.jobs c.slot).state = c.st.state
  /-- the count that is returned -/
  count : s'.ran = (log.map JobCall.slot).dedup.length

end JobSys

end VibeRtos
