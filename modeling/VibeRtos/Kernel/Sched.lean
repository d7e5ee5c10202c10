import VibeRtos.Kernel.Types

/-!
# The scheduler

`sched.c`: per-priority FIFO run queues under a ready mask, the sleep list, the
time slice and the choice of the next thread. Each function below is one
IRQ-locked section of the source.
-/

namespace VibeRtos

open Links

/-- `BIT(n)`. -/
def bit (n : Nat) : BitVec 32 := 1#32 <<< n

namespace Kernel

/-- The scheduler as the C start-up code leaves it: empty queues and a clear mask. -/
def bss (cfg : Config) (thr : Tid → Thread) (idle : Option Tid) : Kernel where
  thr := thr
  schedNode := fun _ => listNodeInit
  waitNode := fun _ => listNodeInit
  sleepNode := fun _ => listNodeInit
  runQueues := fun _ => listInit
  readyMask := 0#32
  sleepList := listInit
  current := none
  idle := idle
  schedLockCount := 0
  tickCount := 0
  sliceLeft := msToTicks cfg cfg.timesliceMs
  nextThreadId := 1

/-- `_highest_ready_priority`, with `none` for `-1`. -/
def highestReadyPriority (k : Kernel) : Option Prio :=
  if k.readyMask = 0#32 then none
  else some ⟨31 - k.readyMask.clz.toNat, by omega⟩

/-- `_vibe_sched_enqueue`. -/
def schedEnqueue (k : Kernel) (t : Tid) : Kernel :=
  let k := k.modThread t fun th => { th with state := .ready }
  let prio := (k.thr t).priority
  let r := listAppend k.schedNode (k.runQueues prio) t
  { k with
    schedNode := r.1
    runQueues := Function.update k.runQueues prio r.2
    readyMask := k.readyMask ||| bit prio }

/-- `_vibe_sched_dequeue`. -/
def schedDequeue (k : Kernel) (t : Tid) : Kernel :=
  let prio := (k.thr t).priority
  let r := listRemove k.schedNode (k.runQueues prio) t
  { k with
    schedNode := r.1
    runQueues := Function.update k.runQueues prio r.2
    readyMask := if listIsEmpty r.2 then k.readyMask &&& ~~~ bit prio else k.readyMask }

/-- `_vibe_sched_next_thread`. -/
def schedNextThread (k : Kernel) : Option Tid :=
  match k.highestReadyPriority with
  | none => k.idle
  | some prio =>
      match listPeekHead (k.runQueues prio) with
      | none => k.idle
      | some t => some t

/-- The second half of `_vibe_sched_reschedule`, once another thread is chosen. -/
def switchTo (k : Kernel) (next : Tid) : Kernel :=
  let prev := k.current
  let k := { k with current := some next }
  let k := k.modThread next fun th => { th with state := .running }
  match prev with
  | none => k
  | some p =>
      if (k.thr p).state = .running then k.modThread p fun th => { th with state := .ready } else k

/-- `_vibe_sched_reschedule`. -/
def schedReschedule (k : Kernel) : Kernel :=
  if k.schedLockCount > 0 then k
  else
    match k.schedNextThread with
    | none => k
    | some next => if k.current = some next then k else k.switchTo next

/-- `_vibe_sched_timeslice_tick`. -/
def schedTimesliceTick (cfg : Config) (k : Kernel) : Kernel :=
  if cfg.timesliceMs = 0 then k
  else
    match k.current with
    | none => k
    | some cur =>
        if (k.thr cur).state ≠ .running then k
        else if k.sliceLeft > 1 then { k with sliceLeft := k.sliceLeft - 1 }
        else
          let k := { k with sliceLeft := msToTicks cfg cfg.timesliceMs }
          if listCount (k.runQueues (k.thr cur).priority) > 1 then
            (k.schedDequeue cur).schedEnqueue cur
          else k

/-- `_vibe_sched_sleep`: sorted insertion by expiry, first come first among equals. -/
def schedSleep (k : Kernel) (t : Tid) (expiry : UInt32) : Kernel :=
  let k := k.modThread t fun th => { th with timeout := expiry, state := .sleeping }
  let later := (listNodes k.sleepNode k.sleepList).find? fun u => expiry < (k.thr u).timeout
  let r := match later with
    | some u =>
        match (k.sleepNode u).prev with
        | some p => listInsertAfter k.sleepNode k.sleepList p t
        | none => listPrepend k.sleepNode k.sleepList t
    | none => listAppend k.sleepNode k.sleepList t
  { k with sleepNode := r.1, sleepList := r.2 }

/-- Take `t` off the sleep list. -/
def sleepRemove (k : Kernel) (t : Tid) : Kernel :=
  let r := listRemove k.sleepNode k.sleepList t
  { k with sleepNode := r.1, sleepList := r.2 }

/-- The loop of `_vibe_sched_wake_expired`; a cyclic list uses up the fuel, where the source
would not terminate. -/
def wakeLoop (now : UInt32) : Nat → Kernel → Option Tid → Kernel
  | 0, k, _ => k
  | _ + 1, k, none => k
  | fuel + 1, k, some t =>
      let tmp := (k.sleepNode t).next
      if (k.thr t).timeout ≤ now then
        wakeLoop now fuel ((k.sleepRemove t).schedEnqueue t) tmp
      else k

/-- `_vibe_sched_wake_expired`. -/
def schedWakeExpired (k : Kernel) (now : UInt32) : Kernel :=
  wakeLoop now walkBound k k.sleepList.head

/-- `_vibe_sched_next_wakeup`. -/
def schedNextWakeup (k : Kernel) : UInt32 :=
  match listPeekHead k.sleepList with
  | none => waitForever
  | some t => (k.thr t).timeout

/-- The IRQ-locked section of `vibe_sched_lock`. -/
def schedLock (k : Kernel) : Kernel := { k with schedLockCount := k.schedLockCount + 1 }

/-- The IRQ-locked section of `vibe_sched_unlock`; the source tests the count against 0. -/
def schedUnlock (k : Kernel) : Kernel :=
  if k.schedLockCount > 0 then { k with schedLockCount := k.schedLockCount - 1 } else k

/-- `vibe_sched_start`, up to the first context switch. -/
def schedStart (k : Kernel) : Kernel :=
  match k.schedNextThread with
  | none => k
  | some t => { k with current := some t }.modThread t fun th => { th with state := .running }

/-- `_vibe_sys_tick_handler` while no software timer is armed: `_vibe_timer_tick` then walks an
empty list. -/
def sysTickHandler (cfg : Config) (k : Kernel) : Kernel :=
  let k := { k with tickCount := k.tickCount + 1 }
  let k := k.schedWakeExpired k.tickCount
  (k.schedTimesliceTick cfg).schedReschedule

/-! ## What each section leaves alone -/

section Frames

variable (cfg : Config) (k : Kernel) (t : Tid)

@[simp] theorem schedEnqueue_thr : (k.schedEnqueue t).thr =
    Function.update k.thr t { k.thr t with state := .ready } := rfl
@[simp] theorem schedEnqueue_waitNode : (k.schedEnqueue t).waitNode = k.waitNode := rfl
@[simp] theorem schedEnqueue_sleepNode : (k.schedEnqueue t).sleepNode = k.sleepNode := rfl
@[simp] theorem schedEnqueue_sleepList : (k.schedEnqueue t).sleepList = k.sleepList := rfl
@[simp] theorem schedEnqueue_current : (k.schedEnqueue t).current = k.current := rfl
@[simp] theorem schedEnqueue_idle : (k.schedEnqueue t).idle = k.idle := rfl
@[simp] theorem schedEnqueue_schedLockCount :
    (k.schedEnqueue t).schedLockCount = k.schedLockCount := rfl
@[simp] theorem schedEnqueue_tickCount : (k.schedEnqueue t).tickCount = k.tickCount := rfl

theorem schedUnlock_current (k : Kernel) : k.schedUnlock.current = k.current := by
  unfold schedUnlock
  split <;> rfl

@[simp] theorem schedDequeue_thr : (k.schedDequeue t).thr = k.thr := rfl
@[simp] theorem schedDequeue_waitNode : (k.schedDequeue t).waitNode = k.waitNode := rfl
@[simp] theorem schedDequeue_sleepNode : (k.schedDequeue t).sleepNode = k.sleepNode := rfl
@[simp] theorem schedDequeue_sleepList : (k.schedDequeue t).sleepList = k.sleepList := rfl
@[simp] theorem schedDequeue_current : (k.schedDequeue t).current = k.current := rfl
@[simp] theorem schedDequeue_idle : (k.schedDequeue t).idle = k.idle := rfl
@[simp] theorem schedDequeue_schedLockCount :
    (k.schedDequeue t).schedLockCount = k.schedLockCount := rfl
@[simp] theorem schedDequeue_tickCount : (k.schedDequeue t).tickCount = k.tickCount := rfl

@[simp] theorem sleepRemove_thr : (k.sleepRemove t).thr = k.thr := rfl
@[simp] theorem sleepRemove_waitNode : (k.sleepRemove t).waitNode = k.waitNode := rfl
@[simp] theorem sleepRemove_schedNode : (k.sleepRemove t).schedNode = k.schedNode := rfl
@[simp] theorem sleepRemove_runQueues : (k.sleepRemove t).runQueues = k.runQueues := rfl
@[simp] theorem sleepRemove_readyMask : (k.sleepRemove t).readyMask = k.readyMask := rfl
@[simp] theorem sleepRemove_current : (k.sleepRemove t).current = k.current := rfl
@[simp] theorem sleepRemove_idle : (k.sleepRemove t).idle = k.idle := rfl
@[simp] theorem sleepRemove_schedLockCount :
    (k.sleepRemove t).schedLockCount = k.schedLockCount := rfl

/-- Switching makes `t` active and keeps everyone else active or not; only states change. -/
theorem switchTo_thr (u : Tid) : ∃ st, (k.switchTo t).thr u = { k.thr u with state := st } ∧
    ((u = t ∨ (k.thr u).state.Active) ∧ st.Active
      ∨ u ≠ t ∧ ¬ (k.thr u).state.Active ∧ st = (k.thr u).state) := by
  -- up to the last branch of the source, only `t` has changed
  have hnext : ∃ st, (Function.update k.thr t { k.thr t with state := .running }) u
      = { k.thr u with state := st } ∧ ((u = t ∨ (k.thr u).state.Active) ∧ st.Active
        ∨ u ≠ t ∧ ¬ (k.thr u).state.Active ∧ st = (k.thr u).state) := by
    by_cases hu : u = t
    · subst hu
      exact ⟨.running, by simp, Or.inl ⟨Or.inl rfl, Or.inr rfl⟩⟩
    · refine ⟨(k.thr u).state, by simp [hu], ?_⟩
      by_cases ha : (k.thr u).state.Active
      · exact Or.inl ⟨Or.inr ha, ha⟩
      · exact Or.inr ⟨hu, ha, rfl⟩
  unfold switchTo
  cases k.current with
  | none => exact hnext
  | some p =>
    dsimp only
    split
    · rename_i hrun
      by_cases hup : u = p
      · subst hup
        have hold : u = t ∨ (k.thr u).state.Active := by
          by_cases hut : u = t
          · exact Or.inl hut
          · rw [modThread_of_ne _ _ _ hut] at hrun
            exact Or.inr (Or.inr hrun)
        refine ⟨.ready, ?_, Or.inl ⟨hold, Or.inl rfl⟩⟩
        obtain ⟨st, hst, -⟩ := hnext
        rw [modThread_self]
        show { Function.update k.thr t { k.thr t with state := .running } u with
          state := ThreadState.ready } = _
        rw [hst]
      · rw [modThread_of_ne _ _ _ hup]
        exact hnext
    · exact hnext

theorem switchTo_frame : (k.switchTo t).schedNode = k.schedNode
    ∧ (k.switchTo t).runQueues = k.runQueues ∧ (k.switchTo t).readyMask = k.readyMask
    ∧ (k.switchTo t).sleepNode = k.sleepNode ∧ (k.switchTo t).sleepList = k.sleepList
    ∧ (k.switchTo t).waitNode = k.waitNode ∧ (k.switchTo t).idle = k.idle
    ∧ (k.switchTo t).schedLockCount = k.schedLockCount
    ∧ (k.switchTo t).tickCount = k.tickCount ∧ (k.switchTo t).current = some t := by
  unfold switchTo
  cases k.current with
  | none => exact ⟨rfl, rfl, rfl, rfl, rfl, rfl, rfl, rfl, rfl, rfl⟩
  | some p =>
    dsimp only
    split <;> exact ⟨rfl, rfl, rfl, rfl, rfl, rfl, rfl, rfl, rfl, rfl⟩

theorem switchTo_sleepList : (k.switchTo t).sleepList = k.sleepList := by
  obtain ⟨-, -, -, -, hlist, -⟩ := switchTo_frame k t
  exact hlist

theorem switchTo_waitNode : (k.switchTo t).waitNode = k.waitNode := by
  obtain ⟨-, -, -, -, -, hnode, -⟩ := switchTo_frame k t
  exact hnode

theorem switchTo_schedLockCount : (k.switchTo t).schedLockCount = k.schedLockCount := by
  obtain ⟨-, -, -, -, -, -, -, hlock, -⟩ := switchTo_frame k t
  exact hlock

theorem switchTo_current : (k.switchTo t).current = some t := by
  obtain ⟨-, -, -, -, -, -, -, -, -, hcur⟩ := switchTo_frame k t
  exact hcur

/-- A time slice that ends makes the running thread READY; nothing else changes but the queues. -/
theorem schedTimesliceTick_frame : (k.schedTimesliceTick cfg).waitNode = k.waitNode
    ∧ (k.schedTimesliceTick cfg).sleepNode = k.sleepNode
    ∧ (k.schedTimesliceTick cfg).sleepList = k.sleepList
    ∧ (k.schedTimesliceTick cfg).current = k.current
    ∧ (k.schedTimesliceTick cfg).idle = k.idle
    ∧ (k.schedTimesliceTick cfg).schedLockCount = k.schedLockCount
    ∧ (k.schedTimesliceTick cfg).tickCount = k.tickCount
    ∧ ((k.schedTimesliceTick cfg).thr = k.thr ∨ ∃ cur, k.current = some cur
      ∧ (k.thr cur).state = .running
      ∧ (k.schedTimesliceTick cfg).thr
        = Function.update k.thr cur { k.thr cur with state := .ready }) := by
  unfold schedTimesliceTick
  split
  · exact ⟨rfl, rfl, rfl, rfl, rfl, rfl, rfl, Or.inl rfl⟩
  · split
    · exact ⟨rfl, rfl, rfl, rfl, rfl, rfl, rfl, Or.inl rfl⟩
    · rename_i cur hcur
      split
      · exact ⟨rfl, rfl, rfl, rfl, rfl, rfl, rfl, Or.inl rfl⟩
      · rename_i hrun
        split
        · exact ⟨rfl, rfl, rfl, rfl, rfl, rfl, rfl, Or.inl rfl⟩
        · dsimp only
          split
          · exact ⟨rfl, rfl, rfl, rfl, rfl, rfl, rfl, Or.inr ⟨cur, hcur, not_not.mp hrun, rfl⟩⟩
          · exact ⟨rfl, rfl, rfl, rfl, rfl, rfl, rfl, Or.inl rfl⟩

end Frames

end Kernel

end VibeRtos
