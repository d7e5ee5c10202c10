import VibeRtos.Kernel.Timer

/-!
# The timer module in use

Two machines over the same module. In the first the callbacks leave the timers alone,
so that a tick is one step and its outcome is the list of timers that fired. In the
second a callback may start, stop and restart any timer: the tick is taken apart into
its loop bodies, and whatever a callback does comes between two of them.
-/

namespace VibeRtos

open SList

/-! ## Callbacks that leave the timers alone -/

/-- The calls of the threads, and the ticks. -/
inductive TimerOp where
  | start (t : TimerId) (ms : UInt32)
  | stop (t : TimerId)
  | restart (t : TimerId)
  | tick
  deriving DecidableEq

/-- The timer a call is about; a tick is about all. -/
def TimerOp.Concerns (t : TimerId) : TimerOp → Prop
  | .start u _ | .stop u | .restart u => u = t
  | .tick => True

instance (t : TimerId) : (op : TimerOp) → Decidable (op.Concerns t)
  | .start u _ | .stop u | .restart u => inferInstanceAs (Decidable (u = t))
  | .tick => isTrue trivial

/-- One call or tick; a tick gives the list of the timers that fired. -/
def TimerOp.exec (cfg : Config) (m : Timers) : TimerOp → Timers × List (List TimerId)
  | .start t ms => ((timerStart cfg m t ms).2, [])
  | .stop t => ((timerStop m t).2, [])
  | .restart t => ((timerRestart cfg m t).2, [])
  | .tick =>
      let r := timerTick m
      (r.1, [r.2])

/-- A sequence of calls and ticks, with what fired on each tick. -/
def runTimers (cfg : Config) : Timers → List TimerOp → Timers × List (List TimerId)
  | m, [] => (m, [])
  | m, op :: ops =>
      let r := op.exec cfg m
      let r' := runTimers cfg r.1 ops
      (r'.1, r.2 ++ r'.2)

/-- Every timer is initialised and none is running. -/
structure Timers.Initial (m : Timers) : Prop where
  head : m.head = none
  timer : ∀ t, ∃ fn data mode, m.timer t = { timerDefine (some fn) mode with userData := data }

/-! ## Callbacks that do not -/

/-- Where `_vibe_timer_tick` is. -/
inductive TimerPc where
  /-- not running -/
  | idle
  /-- before the loop body for `t` -/
  | loop (t prev : Option TimerId)
  /-- inside a callback, with the loop's `next` and `prev` -/
  | callback (next prev : Option TimerId)
  deriving DecidableEq

/-- The timer that the loop goes on with after a callback. -/
def TimerPc.goesOn : TimerPc → Option TimerId
  | .callback next _ => next
  | _ => none

/-- The machine, and a record of the running or the last tick. -/
structure TimerSys where
  timers : Timers
  pc : TimerPc
  /-- the timers that were active when the tick began -/
  due : TimerId → Bool
  /-- the timers that callbacks of the tick have stopped, started or restarted -/
  touched : TimerId → Bool
  /-- how often the tick has counted each timer down -/
  counted : TimerId → Nat

namespace TimerSys

/-- The steps: a timer call, by a thread or by the callback that is running; the beginning of a
tick; one loop body; the return of a callback. -/
inductive Label where
  | start (t : TimerId) (ms : UInt32)
  | stop (t : TimerId)
  | restart (t : TimerId)
  | tick
  | visit
  | ret

/-- A timer call on `t` that returned `r`. -/
def call (s : TimerSys) (t : TimerId) (r : Err × Timers) : TimerSys :=
  { s with
    timers := r.2
    touched := match s.pc with
      | .callback .. => if r.1 = .ok then Function.update s.touched t true else s.touched
      | _ => s.touched }

/-- A loop body for `t`. -/
def visit (s : TimerSys) (t : TimerId) (prev : Option TimerId) : TimerSys :=
  let v := timerVisit s.timers t prev
  { s with
    timers := v.timers
    pc := if v.fired ∧ (v.timers.timer t).expiryFn ≠ none then .callback v.next v.prev
      else .loop v.next v.prev
    counted := if (s.timers.timer t).remaining > 0
      then Function.update s.counted t (s.counted t + 1) else s.counted }

/-- Timer calls are made by threads between two ticks, or by a callback. -/
def callable : TimerPc → Bool
  | .idle | .callback .. => true
  | .loop .. => false

/-- One step. -/
def step (cfg : Config) (s : TimerSys) : Label → Option TimerSys
  | .start t ms => if callable s.pc then some (s.call t (timerStart cfg s.timers t ms)) else none
  | .stop t => if callable s.pc then some (s.call t (timerStop s.timers t)) else none
  | .restart t => if callable s.pc then some (s.call t (timerRestart cfg s.timers t)) else none
  | .tick =>
      match s.pc with
      | .idle => some { s with
          pc := .loop s.timers.head none
          due := fun t => (s.timers.timer t).active
          touched := fun _ => false
          counted := fun _ => 0 }
      | _ => none
  | .visit =>
      match s.pc with
      | .loop (some t) prev => some (s.visit t prev)
      | .loop none _ => some { s with pc := .idle }
      | _ => none
  | .ret =>
      match s.pc with
      | .callback next prev => some { s with pc := .loop next prev }
      | _ => none

/-- Every timer is initialised, none is running, and there has been no tick. -/
structure Initial (s : TimerSys) : Prop where
  timers : s.timers.Initial
  pc : s.pc = .idle
  due : ∀ t, s.due t = false

/-- The list is finite and acyclic and holds the active timers once each; and when a tick is
over, it has counted every timer down once that was active and was left alone. -/
structure Law (s : TimerSys) : Prop where
  list : ∃ xs, Path s.timers.next s.timers.head xs none ∧ xs.Nodup
    ∧ ∀ t, t ∈ xs ↔ (s.timers.timer t).active
  counted : s.pc = .idle → ∀ t, s.due t → s.touched t = false → s.counted t = 1

/-- A loop body takes an expired one-shot out of the list only if the `prev` it has in hand still
points at it. -/
def Clean (s : TimerSys) : TimerPc → Prop
  | .loop (some t) prev => (s.timers.timer t).active → (s.timers.timer t).remaining ≤ 1 →
      (s.timers.timer t).mode = .oneShot → s.timers.link prev = some t
  | _ => True

instance (s : TimerSys) : (p : TimerPc) → Decidable (s.Clean p)
  | .loop (some _) _ => inferInstanceAs (Decidable (_ → _ → _ → _))
  | .idle | .loop none _ | .callback .. => isTrue trivial

/-- A callback keeps its hands off the timer that the loop goes on with, except that it may
stop it when no timer follows; and the loop bodies are clean. -/
def Safe (cfg : Config) (s : TimerSys) : Label → Prop
  | .start t ms => ms ≠ 0 → s.pc.goesOn ≠ some t
  | .restart t => ticksToMs cfg (s.timers.timer t).durationTicks ≠ 0 → s.pc.goesOn ≠ some t
  | .stop t => s.pc.goesOn = some t → s.timers.next t = none
  | .visit => s.Clean s.pc
  | .tick | .ret => True

instance (cfg : Config) (s : TimerSys) : (l : Label) → Decidable (s.Safe cfg l)
  | .start .. | .restart _ | .stop _ => inferInstanceAs (Decidable (_ → _))
  | .visit => inferInstanceAs (Decidable (s.Clean s.pc))
  | .tick | .ret => isTrue trivial

end TimerSys

end VibeRtos
