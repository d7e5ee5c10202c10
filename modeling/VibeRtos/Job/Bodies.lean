import VibeRtos.Job.Tick

/-!
# Ticks with jobs that use the scheduler

`vibe_sched_run` with job functions that do as they please: between its call and its return a
function may submit jobs, cancel them, give a slot to another job, or run the scheduler itself.
All of that is some change of the scheduler, so a function is a map from the scheduler it finds
to the scheduler it leaves.
-/

namespace VibeRtos

/-- The job functions. What a function does may depend on all calls of the tick so far, as its
own memory does. -/
abbrev JobBodies (N : Nat) := List (JobCall N) → Fin N → JobSched N → JobSched N × AsyncStatus

/-- Functions that leave the scheduler alone, the `k`-th called in the tick with the result
`rets k`. -/
def JobBodies.ofRets {N : Nat} (rets : Nat → AsyncStatus × Int) : JobBodies N := fun log i s =>
  (s.setJob i { s.jobs i with co := (rets log.length).2 }, (rets log.length).1)

/-- A call of the scheduler from a job function. -/
inductive JobRequest (N : Nat) where
  | submit (fn ctx : Nat) (prio : UInt8)
  | cancel (job : Option (Fin N))

namespace JobSched

variable {N : Nat}

def request (s : JobSched N) : JobRequest N → JobSched N
  | .submit fn ctx prio => (s.submit fn ctx prio).1
  | .cancel job => s.cancel job

/-- `_exec` of slot `i`. -/
def exec (bodies : JobBodies N) (s : JobSched N) (i : Fin N) (log : List (JobCall N)) :
    JobSched N × AsyncStatus :=
  let r := bodies log i s
  (r.1.execReturn i r.2, r.2)

/-- Phase 1 of `vibe_sched_run`: `for (;;)`, until the scan finds nobody. -/
def readyLoop (bodies : JobBodies N) : Nat → JobSched N → BitVec 64 → List (JobCall N) →
    Option (JobSched N × List (JobCall N))
  | 0, _, _, _ => none
  | fuel + 1, s, done, log =>
      match s.scan done with
      | none => some (s, log)
      | some best =>
          let r := s.exec bodies best log
          readyLoop bodies fuel r.1 (done ||| 1#64 <<< best.val) (log ++ [⟨.ready, best, r.2⟩])

/-- One round of phase 2. -/
def blockedStep (bodies : JobBodies N) (r : JobSched N × List (JobCall N)) (i : Fin N) :
    JobSched N × List (JobCall N) :=
  if (r.1.jobs i).state ≠ .blocked then r
  else
    let r' := r.1.exec bodies i r.2
    (r'.1, r.2 ++ [⟨.blocked, i, r'.2⟩])

/-- `vibe_sched_run`, with `fuel` rounds for phase 1. It returns the number of the calls. -/
def run (bodies : JobBodies N) (fuel : Nat) (s : JobSched N) :
    Option (JobSched N × List (JobCall N)) :=
  (readyLoop bodies fuel s.runStart 0#64 []).map fun r =>
    (List.finRange N).foldl (blockedStep bodies) r

end JobSched

end VibeRtos
