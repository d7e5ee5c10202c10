import VibeRtos.Kernel.Thread

/-!
# Blocking and waking

The steps every blocking primitive repeats: the caller leaves its run queue and
is linked on a wait list; a release takes the head of the list and enqueues it.
-/

namespace VibeRtos

open Links

/-- How the first IRQ-locked section of a call goes on. -/
inductive Flow (ρ : Type) where
  /-- return `r` -/
  | done (r : ρ)
  /-- `_vibe_sched_reschedule`, then return `r` -/
  | resched (r : ρ)
  /-- `_vibe_sched_reschedule`, then the section that runs after the wake-up -/
  | block
  deriving DecidableEq

namespace Kernel

/-- The absolute timeout stored by a blocking call. -/
def deadline (k : Kernel) (timeout : UInt32) : UInt32 :=
  if timeout = waitForever then waitForever else k.tickCount + timeout

/-- The caller leaves its run queue and waits. -/
def block (k : Kernel) (self : Tid) (timeout : UInt32) : Kernel :=
  (k.schedDequeue self).modThread self fun th => { th with state := .waiting, timeout := timeout }

/-- `vibe_list_append(list, &t->wait_node)`. -/
def waitAppend (k : Kernel) (l : VList Tid) (t : Tid) : Kernel × VList Tid :=
  let r := listAppend k.waitNode l t
  ({ k with waitNode := r.1 }, r.2)

/-- `vibe_list_insert_after(list, after, &t->wait_node)`. -/
def waitInsertAfter (k : Kernel) (l : VList Tid) (after t : Tid) : Kernel × VList Tid :=
  let r := listInsertAfter k.waitNode l after t
  ({ k with waitNode := r.1 }, r.2)

/-- `vibe_list_remove(list, &t->wait_node)`. -/
def waitRemove (k : Kernel) (l : VList Tid) (t : Tid) : Kernel × VList Tid :=
  let r := listRemove k.waitNode l t
  ({ k with waitNode := r.1 }, r.2)

/-- `vibe_list_get_head(list)`. -/
def waitGetHead (k : Kernel) (l : VList Tid) : Option Tid × Kernel × VList Tid :=
  match l.head with
  | some t => (some t, k.waitRemove l t)
  | none => (none, k, l)

/-- Take the head of a wait list, if any, and enqueue it. -/
def wakeHead (k : Kernel) (l : VList Tid) : Kernel × VList Tid :=
  match k.waitGetHead l with
  | (some t, k, l) => (k.schedEnqueue t, l)
  | (none, k, l) => (k, l)

/-- The loop that empties a wait list; a cyclic list uses up the fuel. -/
def wakeAll : Nat → Kernel → VList Tid → Kernel × VList Tid
  | 0, k, l => (k, l)
  | fuel + 1, k, l =>
      match k.waitGetHead l with
      | (some t, k, l) => wakeAll fuel (k.schedEnqueue t) l
      | (none, k, l) => (k, l)

end Kernel

end VibeRtos
