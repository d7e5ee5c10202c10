import VibeRtos.Kernel.Types
import VibeRtos.Lib.SList

/-!
# Software timers

`timer.c`: a singly linked list of the active timers, new ones first. The tick handler
walks it once; what it does with one timer, up to the callback, is `timerVisit`.
-/

namespace VibeRtos

open SList

/-- The address of a `vibe_timer_t`: 32 bits wide and not `NULL`. -/
abbrev TimerId := Fin 4294967295

/-- `vibe_timer_mode_t`. -/
inductive TimerMode where
  | oneShot | periodic
  deriving DecidableEq

/-- `vibe_timer_t`; functions and user data are addresses, `NULL` is `none`. -/
structure Timer where
  expiryFn : Option Nat
  userData : Option Nat
  durationTicks : UInt32
  remaining : UInt32
  mode : TimerMode
  active : Bool
  next : Option TimerId

/-- `VIBE_TIMER_DEFINE`. -/
def timerDefine (fn : Option Nat) (mode : TimerMode) : Timer where
  expiryFn := fn
  userData := none
  durationTicks := 0
  remaining := 0
  mode := mode
  active := false
  next := none

/-- `VIBE_TICKS_TO_MS`. -/
def ticksToMs (cfg : Config) (t : UInt32) : UInt32 :=
  UInt32.ofNat (t.toNat * 1000 / cfg.sysClockHz)

/-- Every timer, and `g_timer_list_head`. -/
structure Timers where
  timer : TimerId → Timer
  head : Option TimerId

namespace Timers

/-- Update one timer. -/
def mod (m : Timers) (t : TimerId) (f : Timer → Timer) : Timers :=
  { m with timer := Function.update m.timer t (f (m.timer t)) }

/-- Every timer's link. -/
def next (m : Timers) (t : TimerId) : Option TimerId := (m.timer t).next

/-- The link word of a timer, or `g_timer_list_head`. -/
def link (m : Timers) (pp : Option TimerId) : Option TimerId := word m.head m.next pp

/-- Store into it. -/
def setLink (m : Timers) (pp v : Option TimerId) : Timers :=
  match pp with
  | none => { m with head := v }
  | some p => m.mod p fun x => { x with next := v }

end Timers

/-- `vibe_timer_init`. -/
def timerInit (m : Timers) (t : TimerId) (expiryFn userData : Option Nat) (mode : TimerMode) :
    Err × Timers :=
  if expiryFn = none then (.einval, m)
  else (.ok, m.mod t fun _ => { timerDefine expiryFn mode with userData := userData })

/-- The loop of `vibe_timer_stop`: `pp` runs over the link words; a cyclic list uses up the
fuel, where the source would not terminate. -/
def unlinkLoop (timer : TimerId) : Nat → Timers → Option TimerId → Timers
  | 0, m, _ => m
  | fuel + 1, m, pp =>
      match m.link pp with
      | none => m
      | some u =>
          if u = timer then m.setLink pp (m.timer timer).next
          else unlinkLoop timer fuel m (some u)

/-- `vibe_timer_stop`. -/
def timerStop (m : Timers) (t : TimerId) : Err × Timers :=
  if ¬ (m.timer t).active then (.eagain, m)
  else
    let m := unlinkLoop t (2 ^ 32) m none
    (.ok, m.mod t fun x => { x with active := false, remaining := 0, next := none })

/-- The ticks a timer started with `ms` milliseconds runs for. -/
def startTicks (cfg : Config) (ms : UInt32) : UInt32 :=
  if msToTicks cfg ms = 0 then 1 else msToTicks cfg ms

/-- `vibe_timer_start`. -/
def timerStart (cfg : Config) (m : Timers) (t : TimerId) (ms : UInt32) : Err × Timers :=
  if ms = 0 then (.einval, m)
  else
    let m := if (m.timer t).active then (timerStop m t).2 else m
    let m := m.mod t fun x => { x with
      durationTicks := startTicks cfg ms
      remaining := startTicks cfg ms
      active := true
      next := m.head }
    (.ok, { m with head := some t })

/-- `vibe_timer_restart`. -/
def timerRestart (cfg : Config) (m : Timers) (t : TimerId) : Err × Timers :=
  timerStart cfg m t (ticksToMs cfg (m.timer t).durationTicks)

/-- What `_vibe_timer_tick` knows after the part of its loop body before the callback. -/
structure TimerVisit where
  timers : Timers
  /-- the timer has expired -/
  fired : Bool
  next : Option TimerId
  prev : Option TimerId

/-- The loop body of `_vibe_timer_tick` for timer `t`, up to the callback. -/
def timerVisit (m : Timers) (t : TimerId) (prev : Option TimerId) : TimerVisit :=
  let next := (m.timer t).next
  let m := m.mod t fun x =>
    if x.remaining > 0 then { x with remaining := x.remaining - 1 } else x
  if (m.timer t).remaining = 0 ∧ (m.timer t).active then
    if (m.timer t).mode = .periodic then
      ⟨m.mod t fun x => { x with remaining := x.durationTicks }, true, next, some t⟩
    else
      let m := m.setLink prev next
      ⟨m.mod t fun x => { x with active := false, next := none }, true, next, prev⟩
  else ⟨m, false, next, some t⟩

/-- The loop of `_vibe_timer_tick` when no callback touches a timer, and the timers whose
callbacks it calls; a cyclic list uses up the fuel. -/
def timerTickLoop : Nat → Timers → Option TimerId → Option TimerId → Timers × List TimerId
  | 0, m, _, _ => (m, [])
  | _ + 1, m, none, _ => (m, [])
  | fuel + 1, m, some t, prev =>
      let v := timerVisit m t prev
      let r := timerTickLoop fuel v.timers v.next v.prev
      (r.1, if v.fired ∧ (v.timers.timer t).expiryFn ≠ none then t :: r.2 else r.2)

/-- `_vibe_timer_tick`, under the same proviso. -/
def timerTick (m : Timers) : Timers × List TimerId := timerTickLoop (2 ^ 32) m m.head none

end VibeRtos
