import VibeRtos.Kernel.Wait

/-!
# Event groups

`event.c`. A waiter's context block is found through its `tls` pointer; the blocks
are kept by address.
-/

namespace VibeRtos

open Kernel

/-- `vibe_event_wait_mode_t`. -/
inductive EventWaitMode where
  | any | all
  deriving DecidableEq

/-- `_event_wait_ctx_t`. -/
structure EventWaitCtx where
  waitFlags : UInt32
  waitMode : EventWaitMode
  satisfied : Bool

/-- `vibe_event_t`. -/
structure Event where
  flags : UInt32
  waitList : VList Tid

/-- `vibe_event_init`. -/
def eventInit : Event := ⟨0, listInit⟩

/-- The context blocks, by address. -/
abbrev EventCtxMem := Nat → EventWaitCtx

/-- `_flags_satisfied`. -/
def flagsSatisfied (current requested : UInt32) (mode : EventWaitMode) : Bool :=
  match mode with
  | .all => current &&& requested = requested
  | .any => current &&& requested ≠ 0

/-- The loop of `vibe_event_post`; a cyclic list uses up the fuel. -/
def eventPostLoop (flags : UInt32) :
    Nat → Kernel → VList Tid → EventCtxMem → Option Tid → Kernel × VList Tid × EventCtxMem
  | 0, k, l, ctxs, _ => (k, l, ctxs)
  | _ + 1, k, l, ctxs, none => (k, l, ctxs)
  | fuel + 1, k, l, ctxs, some t =>
      let tmp := (k.waitNode t).next
      match (k.thr t).tls with
      | none => eventPostLoop flags fuel k l ctxs tmp
      | some ctx =>
          if flagsSatisfied flags (ctxs ctx).waitFlags (ctxs ctx).waitMode then
            let ctxs := Function.update ctxs ctx { ctxs ctx with satisfied := true }
            let r := k.waitRemove l t
            eventPostLoop flags fuel (r.1.schedEnqueue t) r.2 ctxs tmp
          else eventPostLoop flags fuel k l ctxs tmp

/-- `vibe_event_post`. -/
def eventPost (k : Kernel) (e : Event) (ctxs : EventCtxMem) (flags : UInt32) :
    Kernel × Event × EventCtxMem :=
  let e := { e with flags := e.flags ||| flags }
  let r := eventPostLoop e.flags walkBound k e.waitList ctxs e.waitList.head
  (r.1, { e with waitList := r.2.1 }, r.2.2)

/-- `vibe_event_clear`. -/
def eventClear (e : Event) (flags : UInt32) : Event := { e with flags := e.flags &&& ~~~flags }

/-- `vibe_event_wait`, up to the reschedule. -/
def eventWait (k : Kernel) (e : Event) (ctxs : EventCtxMem) (self : Tid) (flags : UInt32)
    (mode : EventWaitMode) (timeout : UInt32) : Kernel × Event × EventCtxMem × Flow Err :=
  if flags = 0 then (k, e, ctxs, .done .einval)
  else if flagsSatisfied e.flags flags mode then (k, e, ctxs, .done .ok)
  else if timeout = noWait then (k, e, ctxs, .done .eagain)
  else
    let ctxs := match (k.thr self).tls with
      | some ctx => Function.update ctxs ctx ⟨flags, mode, false⟩
      | none => ctxs
    let k := k.block self (k.deadline timeout)
    let r := k.waitAppend e.waitList self
    (r.1, { e with waitList := r.2 }, ctxs, .block)

/-- `vibe_event_wait` once the blocked caller runs again, with the context it saved. -/
def eventWaitWake (ctxs : EventCtxMem) (ctx : Option Nat) : Err :=
  match ctx with
  | some c => if (ctxs c).satisfied then .ok else .etimeout
  | none => .etimeout

end VibeRtos
