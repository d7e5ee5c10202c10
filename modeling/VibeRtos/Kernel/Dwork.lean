import VibeRtos.Kernel.TimerSystem
import VibeRtos.Kernel.Workq

/-!
# Delayed work

The delayed items of `workq.c`: a work item, a one-shot timer whose callback submits it, and the
queue it goes to. Any number of threads submit and cancel them, the tick handler fires the timers,
and each queue has its worker. A label is a section that nothing else comes between; what a call
does outside of its sections is done in labels of its own.
-/

namespace VibeRtos

/-- `&dwork->timer`. The address of a `vibe_dwork_t` is that of its work item, behind which the
timer lies. -/
def dworkTimer (d : WorkId) : TimerId := d + 12

/-- Where the worker of a queue is. -/
inductive WorkerPc where
  /-- before `vibe_sem_take`, or blocked there -/
  | loop
  /-- behind `vibe_sem_take` -/
  | token
  /-- with what it has taken off the list -/
  | popped (w : Option WorkId)
  /-- inside a handler -/
  | handler
  deriving DecidableEq

/-- The items, the queues and the timers. -/
structure DworkSys where
  mem : WorkMem
  workq : Nat → Workq
  /-- how often the semaphore of a queue has been given and not been taken -/
  tokens : Nat → Nat
  worker : Nat → WorkerPc
  timers : Timers
  /-- `dwork->workq` -/
  target : WorkId → Option Nat
  /-- the queues whose semaphore a `vibe_work_submit` has still to give -/
  giving : List Nat
  /-- the items inside `vibe_dwork_submit`, before `vibe_timer_start` -/
  submitting : List WorkId
  /-- the items inside `vibe_dwork_cancel`, behind the test of `pending` -/
  cancelling : List WorkId
  /-- the last cancel has returned `VIBE_OK`, and the item has not been submitted since -/
  cancelled : WorkId → Bool

namespace DworkSys

inductive Label where
  /-- `dwork->workq = workq` of `vibe_dwork_submit` -/
  | dworkSubmit (d : WorkId) (i : Nat)
  /-- its `vibe_timer_start` -/
  | dworkStart (d : WorkId) (ms : UInt32)
  /-- the test of `vibe_dwork_cancel` -/
  | dworkCancel (d : WorkId)
  /-- its `vibe_timer_stop` -/
  | dworkStop (d : WorkId)
  /-- the tick handler -/
  | tick
  /-- the worker of a queue: `vibe_sem_take`, the section behind it, and the handler -/
  | take (i : Nat)
  | pop (i : Nat)
  | call (i : Nat)
  | ret (i : Nat)
  /-- `vibe_work_submit` of an item that is not delayed, up to the give -/
  | submit (i : Nat) (w : WorkId)
  | give (i : Nat)
  /-- a call on a timer that is not part of a delayed item -/
  | timer (op : TimerOp)

/-- `dwork` has been initialised: its timer has `_dwork_timer_cb`, at address `cb`. -/
def IsDwork (cb : Nat) (s : DworkSys) (d : WorkId) : Prop :=
  (s.timers.timer (dworkTimer d)).expiryFn = some cb

instance (cb : Nat) (s : DworkSys) (d : WorkId) : Decidable (s.IsDwork cb d) :=
  inferInstanceAs (Decidable (_ = _))

/-- What the test of `vibe_dwork_cancel` returns, if the call ends there. -/
def cancelTest (s : DworkSys) (d : WorkId) : Option Err :=
  if (s.mem d).pending then some .eagain else none

/-- The section of `vibe_work_submit` that links the item. -/
def link (s : DworkSys) (i : Nat) (w : WorkId) : Err × DworkSys :=
  let r := workSubmit s.mem (s.workq i) w
  (r.1, { s with mem := r.2.1, workq := Function.update s.workq i r.2.2 })

/-- The give of `vibe_work_submit`. -/
def give (s : DworkSys) (i : Nat) : DworkSys :=
  { s with tokens := Function.update s.tokens i (s.tokens i + 1) }

/-- `_dwork_timer_cb`, where `d` is the user data: it submits to the queue, if there is one. -/
def dworkTimerCb (s : DworkSys) (d : WorkId) : DworkSys :=
  match s.target d with
  | none => s
  | some i =>
      let r := s.link i d
      if r.1 = .ok then r.2.give i else r.2

/-- The callback of a timer that fires; one with another callback does not concern the items. -/
def fire (cb : Nat) (s : DworkSys) (t : TimerId) : DworkSys :=
  if (s.timers.timer t).expiryFn = some cb then
    match (s.timers.timer t).userData with
    | some a => if h : a < 4294967295 then s.dworkTimerCb ⟨a, h⟩ else s
    | none => s
  else s

/-- `_vibe_timer_tick`. The callbacks do not modify the timers, so that they may be called after
the loop. -/
def tick (cb : Nat) (s : DworkSys) : DworkSys :=
  let r := timerTick s.timers
  r.2.foldl (fire cb) { s with timers := r.1 }

/-- The timer of a call is not part of a delayed item. -/
def Foreign (cb : Nat) (s : DworkSys) : TimerOp → Prop
  | .start t _ | .stop t | .restart t => (s.timers.timer t).expiryFn ≠ some cb
  | .tick => False

instance (cb : Nat) (s : DworkSys) : (op : TimerOp) → Decidable (s.Foreign cb op)
  | .start .. | .stop _ | .restart _ => inferInstanceAs (Decidable (_ ≠ _))
  | .tick => isFalse id

/-- One step. An item is not submitted while it is being cancelled, nor the other way round. -/
def step (cfg : Config) (cb : Nat) (s : DworkSys) : Label → Option DworkSys
  | .dworkSubmit d i =>
      if s.IsDwork cb d ∧ d ∉ s.cancelling then
        some { s with
          target := Function.update s.target d (some i)
          submitting := d :: s.submitting }
      else none
  | .dworkStart d ms =>
      if d ∈ s.submitting then
        let r := timerStart cfg s.timers (dworkTimer d) ms
        some { s with
          timers := r.2
          submitting := s.submitting.erase d
          cancelled := if r.1 = .ok then Function.update s.cancelled d false else s.cancelled }
      else none
  | .dworkCancel d =>
      if s.IsDwork cb d ∧ d ∉ s.submitting then
        match s.cancelTest d with
        | some _ => some s
        | none => some { s with cancelling := d :: s.cancelling }
      else none
  | .dworkStop d =>
      if d ∈ s.cancelling then
        let r := timerStop s.timers (dworkTimer d)
        some { s with
          timers := r.2
          cancelling := s.cancelling.erase d
          cancelled := if r.1 = .ok then Function.update s.cancelled d true else s.cancelled }
      else none
  | .tick => some (s.tick cb)
  | .take i =>
      if s.worker i = .loop ∧ 0 < s.tokens i then
        some { s with
          tokens := Function.update s.tokens i (s.tokens i - 1)
          worker := Function.update s.worker i .token }
      else none
  | .pop i =>
      if s.worker i = .token then
        let r := workqPop s.mem (s.workq i)
        some { s with
          mem := r.2.1
          workq := Function.update s.workq i r.2.2
          worker := Function.update s.worker i (.popped r.1) }
      else none
  | .call i =>
      match s.worker i with
      | .popped (some w) => some { s with
          worker := Function.update s.worker i
            (if (s.mem w).handler ≠ none then .handler else .loop) }
      | .popped none => some { s with worker := Function.update s.worker i .loop }
      | _ => none
  | .ret i =>
      if s.worker i = .handler then some { s with worker := Function.update s.worker i .loop }
      else none
  | .submit i w =>
      if s.IsDwork cb w then none
      else
        let r := s.link i w
        some (if r.1 = .ok then { r.2 with giving := i :: s.giving } else r.2)
  | .give i => if i ∈ s.giving then some { s.give i with giving := s.giving.erase i } else none
  | .timer op =>
      if s.Foreign cb op then some { s with timers := (op.exec cfg s.timers).1 } else none

/-- The items and timers are initialised, nothing runs, and every queue is new. The timers with
`_dwork_timer_cb` are those of delayed items, as `vibe_dwork_init` leaves them. -/
structure Initial (cb : Nat) (s : DworkSys) : Prop where
  mem : ∀ w, ∃ fn, s.mem w = ⟨some fn, none, false⟩
  workq : ∀ i, (s.workq i).head = none ∧ (s.workq i).tail = none
  worker : ∀ i, s.worker i = .loop
  timers : s.timers.Initial
  dwork : ∀ t, (s.timers.timer t).expiryFn = some cb →
    ∃ d : WorkId, t = dworkTimer d ∧ (s.timers.timer t).userData = some d.val
      ∧ (s.timers.timer t).mode = .oneShot
  cancelling : s.cancelling = []
  submitting : s.submitting = []
  cancelled : ∀ d, s.cancelled d = false

/-! ## What a cancel promises -/

/-- The step starts the handler of the item. -/
def Starts (s : DworkSys) (d : WorkId) : Label → Prop
  | .call i => s.worker i = .popped (some d) ∧ (s.mem d).handler ≠ none
  | _ => False

instance (s : DworkSys) (d : WorkId) : (l : Label) → Decidable (s.Starts d l)
  | .call _ => inferInstanceAs (Decidable (_ ∧ _))
  | .dworkSubmit .. | .dworkStart .. | .dworkCancel _ | .dworkStop _ | .tick | .take _ | .pop _
  | .ret _ | .submit .. | .give _ | .timer _ => isFalse id

/-- The step submits the item. -/
def Submits (d : WorkId) : Label → Prop
  | .dworkStart e ms => e = d ∧ ms ≠ 0
  | _ => False

/-- No handler starts after a cancel that has returned `VIBE_OK`. -/
def Timely (d : WorkId) (s : DworkSys) (l : Label) : Prop := s.cancelled d = true → ¬ s.Starts d l

instance (d : WorkId) (s : DworkSys) (l : Label) : Decidable (Timely d s l) :=
  inferInstanceAs (Decidable (_ → ¬ _))

/-- A worker has taken the item off its queue and has not started the handler. -/
def InHand (s : DworkSys) (d : WorkId) : Prop := ∃ i, s.worker i = .popped (some d)

/-- A cancel stops the timer only when no worker has the item in hand. -/
def Free (d : WorkId) (s : DworkSys) (l : Label) : Prop :=
  l = .dworkStop d → (s.timers.timer (dworkTimer d)).active = true → ¬ s.InHand d

/-- The item is in a queue. -/
def Queued (s : DworkSys) (d : WorkId) : Prop :=
  ∃ i xs, SList.Path (fun w => (s.mem w).next) (s.workq i).head xs none ∧ d ∈ xs

end DworkSys

end VibeRtos
