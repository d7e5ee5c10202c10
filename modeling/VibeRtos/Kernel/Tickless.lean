import VibeRtos.Kernel.SleepSystem
import VibeRtos.Kernel.Thread
import VibeRtos.Kernel.TimerSystem

/-!
# Tickless idle

With `CONFIG_TICKLESS_IDLE` three places tell the hardware when the next tick is needed: the idle
loop, `vibe_thread_sleep` and `vibe_timer_start`. None of them has the interrupts locked, so
between reading the next wakeup and `arch_set_next_tick` anything may happen.
-/

namespace VibeRtos

open Kernel PrioFifo

/-- What a caller has in hand of its call of `arch_set_next_tick`. -/
inductive Hand where
  | nothing
  /-- in front of `_vibe_sched_next_wakeup`, in `vibe_thread_sleep` or `vibe_timer_start` -/
  | toRead
  /-- in front of `arch_set_next_tick(next)` -/
  | absolute (next : UInt32)
  /-- in front of the test of the idle loop -/
  | toTest (next : UInt32)
  /-- in front of the idle loop's `arch_set_next_tick(next - vibe_tick_get())` -/
  | relative (next : UInt32)
  deriving DecidableEq

/-- The two stores of deadlines, and who is on the way to `arch_set_next_tick`. -/
structure Tickless where
  sleep : SleepSys
  timers : TimerSys
  /-- of each thread, and of the timer callbacks -/
  hand : Option Tid → Hand

namespace Tickless

/-- `vibe_tick_get` -/
def now (s : Tickless) : UInt32 := s.sleep.k.tickCount

/-- The threads in the sleep list. -/
def sleepers (s : Tickless) : List Tid := listNodes s.sleep.k.sleepNode s.sleep.k.sleepList

/-- When a thread is to wake up. -/
def expiry (s : Tickless) (t : Tid) : UInt32 := (s.sleep.k.thr t).timeout

/-- A timer. -/
def timer (s : Tickless) (x : TimerId) : Timer := s.timers.timers.timer x

def setHand (s : Tickless) (c : Option Tid) (h : Hand) : Tickless :=
  { s with hand := Function.update s.hand c h }

inductive Label where
  /-- the locked section of `vibe_thread_sleep` -/
  | threadSleep (t : Tid) (ms : UInt32)
  /-- the locked section of `vibe_timer_start`, called by a thread or by a timer callback -/
  | timerStart (c : Option Tid) (x : TimerId) (ms : UInt32)
  | timerRestart (c : Option Tid) (x : TimerId)
  | timerStop (x : TimerId)
  /-- the tick handler, up to `_vibe_timer_tick` -/
  | tick
  /-- a loop body of `_vibe_timer_tick`, and the return of a callback -/
  | visit
  | ret
  /-- `_vibe_sched_wake_expired` in the tick handler -/
  | wake
  /-- the idle loop reads the next wakeup -/
  | idle (t : Tid)
  /-- the way from the read to `arch_set_next_tick` -/
  | go (c : Option Tid)
  /-- `arch_set_next_tick` -/
  | program (c : Option Tid)
  /-- whatever else the kernel does that leaves the sleep list and the ticks alone -/
  | elsewhere (k : Kernel)

/-- A step of the timers. -/
def timerStep (cfg : Config) (s : Tickless) (l : TimerSys.Label) : Option Tickless :=
  (s.timers.step cfg l).map fun timers => { s with timers := timers }

/-- One step. -/
def step (cfg : Config) (s : Tickless) : Label → Option Tickless
  | .threadSleep t ms =>
      if t ∈ s.sleepers ∨ s.hand (some t) ≠ .nothing then none
      else
        let expiry := s.now + msToTicks cfg ms
        let sleep : SleepSys := ⟨threadSleep cfg s.sleep.k t ms, arrive s.sleep.log t expiry⟩
        some ({ s with sleep := sleep }.setHand (some t) .toRead)
  | .timerStart c x ms =>
      if s.hand c ≠ .nothing then none
      else (s.timerStep cfg (.start x ms)).map fun s' => if ms = 0 then s' else s'.setHand c .toRead
  | .timerRestart c x =>
      if s.hand c ≠ .nothing then none
      else (s.timerStep cfg (.restart x)).map fun s' =>
        if ticksToMs cfg (s.timer x).durationTicks = 0 then s' else s'.setHand c .toRead
  | .timerStop x => s.timerStep cfg (.stop x)
  | .tick =>
      let k := { s.sleep.k with tickCount := s.now + 1 }
      ({ s with sleep := { s.sleep with k := k } } : Tickless).timerStep cfg .tick
  | .visit => s.timerStep cfg .visit
  | .ret => s.timerStep cfg .ret
  | .wake =>
      let log := s.sleep.log.filter fun e => ¬ e.2 ≤ s.now
      some { s with sleep := ⟨s.sleep.k.schedWakeExpired s.now, log⟩ }
  | .idle t =>
      if s.sleep.k.idle ≠ some t ∨ s.hand (some t) ≠ .nothing then none
      else some (s.setHand (some t) (.toTest s.sleep.k.schedNextWakeup))
  | .go c =>
      match s.hand c with
      | .toRead =>
          let next := s.sleep.k.schedNextWakeup
          some (s.setHand c (if next ≠ waitForever then .absolute next else .nothing))
      | .toTest next =>
          some (s.setHand c
            (if next ≠ waitForever ∧ next > s.now then .relative next else .nothing))
      | _ => none
  | .program c =>
      match s.hand c with
      | .absolute _ | .relative _ => some (s.setHand c .nothing)
      | _ => none
  | .elsewhere k =>
      let k := { SleepSys.outside s.sleep.k k with tickCount := s.now }
      some { s with sleep := { s.sleep with k := k } }

/-- Nobody sleeps, no timer is running, and nobody is on the way to `arch_set_next_tick`. -/
structure Initial (s : Tickless) : Prop where
  sleep : s.sleep.k.sleepList = listInit
  log : s.sleep.log = []
  timers : s.timers.Initial
  hand : ∀ c, s.hand c = .nothing

/-- The value that `arch_set_next_tick` is given. -/
def value (s : Tickless) (c : Option Tid) : Option UInt32 :=
  match s.hand c with
  | .absolute next => some next
  | .relative next => some (next - s.now)
  | _ => none

/-- The value is at most the number of ticks to each deadline. -/
def OnTime (s : Tickless) : Label → Prop
  | .program c => ∀ v, s.value c = some v → (∀ t ∈ s.sleepers, v ≤ s.expiry t - s.now)
      ∧ ∀ x, (s.timer x).active → v ≤ (s.timer x).remaining
  | _ => True

/-- What was read is still the next wakeup, and the idle loop's test would still succeed. -/
def HandFresh (s : Tickless) : Hand → Prop
  | .absolute next => next = s.sleep.k.schedNextWakeup
  | .relative next => next = s.sleep.k.schedNextWakeup ∧ next > s.now
  | _ => True

def Fresh (s : Tickless) : Label → Prop
  | .program c => s.HandFresh (s.hand c)
  | _ => True

/-- The idle loop is right when no timer is due earlier. The others take the tick of the next wakeup
for a distance: the tick counter is still zero, or it is behind the next wakeup, which has wrapped,
and those that have not are that far away; and so are the timers. -/
def HandAgrees (s : Tickless) : Hand → Prop
  | .absolute next =>
      (s.now = 0
        ∨ next < s.now ∧ ∀ t ∈ s.sleepers, s.now ≤ s.expiry t → next ≤ s.expiry t - s.now)
        ∧ ∀ x, (s.timer x).active → next ≤ (s.timer x).remaining
  | .relative next => ∀ x, (s.timer x).active → next - s.now ≤ (s.timer x).remaining
  | _ => True

def UnitsAgree (s : Tickless) : Label → Prop
  | .program c => s.HandAgrees (s.hand c)
  | _ => True

end Tickless

end VibeRtos
