import VibeRtos.Async.Macros

/-!
# Coroutines as jobs

The job scheduler of a task whose jobs are coroutines. A job's own `async_t` is the field `co`
of its slot; those of the coroutines it awaits live in its context, and each slot is given the
context of its job.

Everything else that happens in the system, between the invocations and during them, is a
change of the memory.
-/

namespace VibeRtos.Async

open Coroutine

/-- The address under which a coroutine sees the `co` of its slot. -/
def slotCo : Nat := 0

/-- The scheduler, the memory and what the jobs did. -/
structure CoroSys (N : Nat) (σ : Type) where
  sys : JobSys N
  mem : σ
  /-- the `async_t`s in the context of a slot's job -/
  children : Fin N → Lines
  /-- function and context of each job submitted -/
  given : Nat → Option (Nat × Nat)
  /-- the invocations, each with the number of its job -/
  log : List (Nat × Call σ AsyncStatus)

namespace CoroSys

variable {N : Nat} {σ : Type}

/-- The `async_t`s that the job of slot `i` works on. -/
def lines (s : CoroSys N σ) (i : Fin N) : Lines :=
  Function.update (s.children i) slotCo (s.sys.sched.jobs i).co

/-- The invocations of one job. -/
def calls (s : CoroSys N σ) (n : Nat) : List (Call σ AsyncStatus) :=
  (s.log.filter fun e => e.1 = n).map Prod.snd

/-- `vibe_sched_init` has returned. -/
structure Initial (s : CoroSys N σ) : Prop where
  sys : s.sys.Initial
  given : ∀ n, s.given n = none
  log : s.log = []

/-- The steps, where `code fn ctx` is the body of the function at `fn` with its context at
`ctx`. -/
inductive Step (code : Nat → Nat → Body σ) : CoroSys N σ → CoroSys N σ → Prop
  /-- anyone else writes the memory -/
  | memory (s : CoroSys N σ) (m : σ) : Step code s { s with mem := m }
  | submit {s : CoroSys N σ} {fn ctx : Nat} {prio : UInt8} {sys' : JobSys N}
      (h : s.sys.step (.submit fn ctx prio) = some sys') :
      Step code s { s with
        sys := sys'
        given := if sys'.submits = s.sys.submits then s.given
          else Function.update s.given s.sys.submits (some (fn, ctx)) }
  /-- a job function does not cancel its own job -/
  | cancel {s : CoroSys N σ} {job : Option (Fin N)} {sys' : JobSys N}
      (h : s.sys.step (.cancel job) = some sys') (hown : ∀ i ∈ job, s.sys.pc.running ≠ some i) :
      Step code s { s with sys := sys' }
  | run {s : CoroSys N σ} {sys' : JobSys N} (h : s.sys.step .run = some sys') :
      Step code s { s with sys := sys' }
  | round {s : CoroSys N σ} {sys' : JobSys N} (h : s.sys.step .round = some sys') :
      Step code s { s with sys := sys' }
  /-- the coroutine in slot `i` returns -/
  | ret {s : CoroSys N σ} {i : Fin N} {n : Nat} {st : AsyncStatus} {ls' : Lines} {m' : σ}
      {sys' : JobSys N} (hi : s.sys.pc.running = some i) (hn : s.sys.current = some n)
      (hr : Returns slotCo (code (s.sys.sched.jobs i).fn (s.sys.sched.jobs i).ctx) (s.lines i)
        s.mem st ls' m')
      (h : s.sys.step (.ret st (ls' slotCo)) = some sys') :
      Step code s { s with
        sys := sys'
        mem := m'
        children := Function.update s.children i ls'
        log := s.log ++ [(n, ⟨s.mem, st, m'⟩)] }

/-- A step that moves the scheduler on, so a step of `vibe_sched_run`. -/
def Ticks (code : Nat → Nat → Body σ) (s s' : CoroSys N σ) : Prop :=
  Step code s s' ∧ s'.sys.pc ≠ s.sys.pc

/-- What a run of the system can lead to. -/
def Reachable (code : Nat → Nat → Body σ) (s₀ s : CoroSys N σ) : Prop :=
  Relation.ReflTransGen (Step code) s₀ s

end CoroSys

end VibeRtos.Async
