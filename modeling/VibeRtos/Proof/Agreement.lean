import VibeRtos.Kernel.ObjectSystem
import VibeRtos.Proof.Lifecycle

/-!
# Agreement over whole runs

A lifecycle run creates, deletes, suspends, resumes, restarts and re-prioritises
threads, lets them sleep and yield, and takes ticks, in any order. `Sys.Keeps` is
the condition on each of its steps under which the run queues go on agreeing with
the thread states.
-/

namespace VibeRtos

open Links Kernel Runs

/-- The calls of a lifecycle run. -/
def Call.Lifecycle : Call → Prop
  | .threadCreate .. | .threadDelete _ | .threadSuspend _ | .threadResume _ | .threadSleep _
  | .threadYield | .threadRestart _ | .threadSetPriority .. | .schedLock | .schedUnlock => True
  | _ => False

/-- The steps of a lifecycle run. -/
def Sys.Label.Lifecycle : Sys.Label → Prop
  | .boot .. | .start | .cont | .tick => True
  | .call c => c.Lifecycle
  | .isrSemGive _ | .isrEventPost .. => False

/-- The program points a lifecycle run goes through. -/
def After.Lifecycle : After → Prop
  | .ret _ | .resumeCheck _ | .unlockCheck => True
  | _ => False

def Pc.Lifecycle : Pc → Prop
  | .user => True
  | .resched a | .at a => a.Lifecycle

/-- Before the first step: empty queues, no thread created, no thread in a kernel call. -/
structure Sys.Initial (cfg : Config) (s : Sys) : Prop where
  kernel : ∃ thr idle, s.k = Kernel.bss cfg thr idle ∧ ∀ t, (thr t).state = .suspended
  pc : ∀ t, s.pc t = .user

/-- When a call by `self` keeps the run queues in agreement with the thread states. -/
def Call.Keeps (k : Kernel) (self : Tid) : Call → Prop
  -- the control block is overwritten, links included
  | .threadCreate t entry _ attr stack heapStack =>
      CreateAccepted entry attr stack heapStack → Unlinked k t
  | .threadSleep _ =>
      (k.thr self).state.Active ∧ self ∉ listNodes k.sleepNode k.sleepList
  | .threadYield => (k.thr self).state.Active
  -- a running thread is enqueued again without being dequeued
  | .threadRestart t => (k.thr (t.getD self)).state ≠ .running
  -- a running thread is left in the queue of its old priority
  | .threadSetPriority t priority => priority ≤ prioMax →
      (k.thr (t.getD self)).state = .running →
      (k.thr (t.getD self)).priority.val = priority.toNat
  | _ => True

/-- When a step keeps the run queues in agreement with the thread states. -/
def Sys.Keeps (s : Sys) : Sys.Label → Prop
  | .boot t entry _ attr stack heapStack =>
      CreateAccepted entry attr stack heapStack → Unlinked s.k t
  | .start => s.k.readyMask ≠ 0#32 ∨ s.k.idle = none
  | .call c => ∀ self, s.k.current = some self → c.Keeps s.k self
  | .cont => ∀ self a, s.k.current = some self → s.pc self = .resched a → Reschedulable s.k
  | .tick =>
      let due := expiring s.k (s.k.tickCount + 1) (listNodes s.k.sleepNode s.k.sleepList)
      (∀ t ∈ due, ¬ (s.k.thr t).state.Active) ∧ (Reschedulable s.k ∨ due ≠ [])
  | _ => True

/-! ## The tick -/

theorem schedEnqueue_readyMask (k : Kernel) (t : Tid) : (k.schedEnqueue t).readyMask ≠ 0#32 := by
  intro h
  have hbit := getLsbD_set_bit k.readyMask (k.thr t).priority (k.thr t).priority
  have hmask : (k.schedEnqueue t).readyMask = k.readyMask ||| bit (k.thr t).priority := by
    simp [schedEnqueue]
  rw [← hmask, h] at hbit
  simp at hbit

/-- Who runs, who idles and the lock count are left alone, and no queue is emptied. -/
structure Settled (k k' : Kernel) : Prop where
  lock : k'.schedLockCount = k.schedLockCount
  idle : k'.idle = k.idle
  current : k'.current = k.current
  mask : k.readyMask ≠ 0#32 → k'.readyMask ≠ 0#32

theorem Settled.reschedulable {k k' : Kernel} (h : Settled k k') (hr : Reschedulable k) :
    Reschedulable k' := by
  unfold Reschedulable
  rw [h.lock, h.idle, h.current]
  rcases hr with hr | hr | hr
  · exact Or.inl hr
  · exact Or.inr (Or.inl (h.mask hr))
  · exact Or.inr (Or.inr hr)

theorem wakeLoop_settled (now : UInt32) :
    ∀ (fuel : Nat) (k : Kernel) (o : Option Tid), Settled k (wakeLoop now fuel k o)
  | 0, _, _ => ⟨rfl, rfl, rfl, id⟩
  | _ + 1, _, none => ⟨rfl, rfl, rfl, id⟩
  | fuel + 1, k, some t => by
      rw [wakeLoop]
      split
      · obtain ⟨h1, h2, h3, h4⟩ := wakeLoop_settled now fuel ((k.sleepRemove t).schedEnqueue t)
          (k.sleepNode t).next
        exact ⟨h1, h2, h3, fun _ => h4 (schedEnqueue_readyMask _ t)⟩
      · exact ⟨rfl, rfl, rfl, id⟩

theorem timeslice_settled (cfg : Config) (k : Kernel) : Settled k (k.schedTimesliceTick cfg) := by
  unfold schedTimesliceTick
  split
  · exact ⟨rfl, rfl, rfl, id⟩
  · split
    · exact ⟨rfl, rfl, rfl, id⟩
    · split
      · exact ⟨rfl, rfl, rfl, id⟩
      · split
        · exact ⟨rfl, rfl, rfl, id⟩
        · dsimp only
          split
          · exact ⟨rfl, rfl, rfl, fun _ => schedEnqueue_readyMask _ _⟩
          · exact ⟨rfl, rfl, rfl, id⟩

/-- One expired sleeper is enough to have somebody ready. -/
theorem wakeLoop_readyMask {now : UInt32} {fuel : Nat} {k : Kernel} {ys : List Tid}
    (h : expiring k now ys ≠ []) (hfuel : 0 < fuel) :
    (wakeLoop now fuel k ys.head?).readyMask ≠ 0#32 := by
  cases ys with
  | nil => exact absurd rfl h
  | cons t rest =>
    obtain ⟨fuel, rfl⟩ := Nat.exists_eq_succ_of_ne_zero (Nat.pos_iff_ne_zero.mp hfuel)
    have hdue : (k.thr t).timeout ≤ now := by
      by_contra hnot
      exact h (by simp [expiring, hnot])
    rw [List.head?_cons, wakeLoop]
    rw [if_pos hdue]
    exact (wakeLoop_settled now fuel _ _).mask (schedEnqueue_readyMask _ t)

/-- The tick handler, up to its choice of the next thread. -/
theorem Sound.tickSection {cfg : Config} {k : Kernel} (h : Sound k)
    (hdue : ∀ t ∈ expiring k (k.tickCount + 1) (listNodes k.sleepNode k.sleepList),
      ¬ (k.thr t).state.Active)
    (hready : Reschedulable k ∨
      expiring k (k.tickCount + 1) (listNodes k.sleepNode k.sleepList) ≠ []) :
    Sound (k.tickSection cfg) ∧ Reschedulable (k.tickSection cfg) := by
  obtain ⟨qs, ys, hp⟩ := h
  rw [hp.listNodes] at hdue hready
  have hp1 : Placed { k with tickCount := k.tickCount + 1 } qs ys :=
    hp.congr (fun _ => Iff.rfl) (fun _ => rfl) (fun _ hs => hs) rfl rfl rfl rfl rfl
  have hlen : ys.length < walkBound := by
    refine lt_of_le_of_lt hp.sleepers.nodup.length_le_card ?_
    rw [Fintype.card_fin]
    decide
  have hhead : k.sleepList.head = ys.head? := hp.sleepers.head
  obtain ⟨qs', hp2, -⟩ := hp1.wakeLoop hlen hdue
  unfold Kernel.tickSection schedWakeExpired
  dsimp only
  rw [hhead]
  refine ⟨Sound.timeslice ⟨qs', _, hp2⟩, (timeslice_settled cfg _).reschedulable ?_⟩
  rcases hready with hready | hready
  · exact (wakeLoop_settled _ _ _ _).reschedulable hready
  · have hready' : expiring { k with tickCount := k.tickCount + 1 } (k.tickCount + 1) ys ≠ [] :=
      hready
    exact Or.inr (Or.inl (wakeLoop_readyMask hready' (by decide)))

theorem Sound.tick {cfg : Config} {k : Kernel} (h : Sound k)
    (hdue : ∀ t ∈ expiring k (k.tickCount + 1) (listNodes k.sleepNode k.sleepList),
      ¬ (k.thr t).state.Active)
    (hready : Reschedulable k ∨
      expiring k (k.tickCount + 1) (listNodes k.sleepNode k.sleepList) ≠ []) :
    Sound (sysTickHandler cfg k) := by
  obtain ⟨hsound, hres⟩ : Sound (k.tickSection cfg) ∧ _ := h.tickSection hdue hready
  rw [sysTickHandler_eq]
  exact hsound.reschedule hres

/-! ## Steps and runs -/

/-- The invariant of a lifecycle run. -/
def Sys.Sane (s : Sys) : Prop := Sound s.k ∧ ∀ t, (s.pc t).Lifecycle

theorem Sys.Sane.kernel {s : Sys} {k : Kernel} (h : s.Sane) (hk : Sound k) :
    ({ s with k := k } : Sys).Sane := ⟨hk, h.2⟩

theorem Sys.Sane.setPc {s : Sys} (h : s.Sane) (t : Tid) {p : Pc} (hp : p.Lifecycle) :
    (s.setPc t p).Sane := by
  refine ⟨h.1, fun u => ?_⟩
  show (Function.update s.pc t p u).Lifecycle
  rw [Function.update_apply]
  split
  · exact hp
  · exact h.2 u

theorem lifecycle_user : Pc.user.Lifecycle := trivial

theorem lifecycle_ret (r : Ret) : (Pc.at (.ret r)).Lifecycle := trivial

theorem lifecycle_resched_ret (r : Ret) : (Pc.resched (.ret r)).Lifecycle := trivial

/-- One call. -/
theorem Sys.Sane.enter {cfg : Config} {s s' : Sys} {self : Tid} {c : Call} (h : s.Sane)
    (hc : c.Lifecycle) (hg : c.Keeps s.k self) (hs : s.enter cfg self c = some s') : s'.Sane := by
  cases c with
  | threadCreate t entry arg attr stack heapStack =>
      obtain rfl := Option.some.inj hs
      have hk : Sound (threadCreate cfg s.k t entry arg attr stack heapStack).2 := h.1.create hg
      split
      · exact ((h.kernel hk).setPc t lifecycle_user).setPc self (lifecycle_ret _)
      · exact (h.kernel hk).setPc self (lifecycle_ret _)
  | threadDelete t =>
      obtain rfl := Option.some.inj hs
      refine (h.kernel (h.1.delete _)).setPc self ?_
      split <;> trivial
  | threadSuspend t =>
      obtain rfl := Option.some.inj hs
      refine (h.kernel (h.1.suspend _)).setPc self ?_
      split <;> trivial
  | threadResume t =>
      cases t with
      | none =>
          obtain rfl := Option.some.inj hs
          exact h.setPc self (lifecycle_ret _)
      | some t =>
          obtain rfl := Option.some.inj hs
          refine (h.kernel (h.1.resume t)).setPc self ?_
          split <;> trivial
  | threadSleep ms =>
      obtain rfl := Option.some.inj hs
      exact (h.kernel (h.1.sleep hg.1 hg.2 ms)).setPc self (lifecycle_resched_ret _)
  | threadYield =>
      obtain rfl := Option.some.inj hs
      exact (h.kernel (h.1.yield hg)).setPc self (lifecycle_resched_ret _)
  | threadRestart t =>
      obtain rfl := Option.some.inj hs
      have hk := h.1.restart hg
      exact ((h.kernel hk).setPc (t.getD self) lifecycle_user).setPc self (lifecycle_ret _)
  | threadSetPriority t priority =>
      obtain rfl := Option.some.inj hs
      refine (h.kernel (h.1.setPriority hg)).setPc self ?_
      split <;> trivial
  | schedLock =>
      obtain rfl := Option.some.inj hs
      exact (h.kernel h.1.lock).setPc self (lifecycle_ret _)
  | schedUnlock =>
      obtain rfl := Option.some.inj hs
      exact (h.kernel h.1.unlock).setPc self trivial
  | _ => exact absurd hc (by simp [Call.Lifecycle])

/-- One stretch behind a reschedule. -/
theorem Sys.Sane.resume {s : Sys} {self : Tid} {a : After} (h : s.Sane) (ha : a.Lifecycle) :
    (s.resume self a).Sane := by
  cases a with
  | ret r =>
      have hret : ({ s with ret := Function.update s.ret self r } : Sys).Sane := h
      exact hret.setPc self lifecycle_user
  | resumeCheck t =>
      refine h.setPc self ?_
      split <;> trivial
  | unlockCheck =>
      refine h.setPc self ?_
      split <;> trivial
  | _ => exact absurd ha (by simp [After.Lifecycle])

theorem Sys.Sane.step {cfg : Config} {s s' : Sys} {l : Sys.Label} (h : s.Sane)
    (hl : l.Lifecycle) (hg : s.Keeps l) (hs : s.step cfg l = some s') : s'.Sane := by
  cases l with
  | boot t entry arg attr stack heapStack =>
      rw [Sys.step] at hs
      split at hs
      · exact absurd hs (by simp)
      · obtain rfl := Option.some.inj hs
        have hk : Sound (threadCreate cfg s.k t entry arg attr stack heapStack).2 := h.1.create hg
        split
        · exact (h.kernel hk).setPc t lifecycle_user
        · exact h.kernel hk
  | start =>
      rw [Sys.step] at hs
      split at hs
      · exact absurd hs (by simp)
      · obtain rfl := Option.some.inj hs
        exact ⟨h.1.start hg, h.2⟩
  | call c =>
      rw [Sys.step] at hs
      split at hs
      · exact absurd hs (by simp)
      · rename_i self hself
        split at hs
        · exact h.enter hl (hg self hself) hs
        · exact absurd hs (by simp)
  | cont =>
      rw [Sys.step] at hs
      split at hs
      · exact absurd hs (by simp)
      · rename_i self hself
        have hpc := h.2 self
        split at hs
        · exact absurd hs (by simp)
        · rename_i a ha
          obtain rfl := Option.some.inj hs
          rw [ha] at hpc
          exact (h.kernel (h.1.reschedule (hg self a hself ha))).setPc self hpc
        · rename_i a ha
          obtain rfl := Option.some.inj hs
          rw [ha] at hpc
          exact h.resume hpc
  | tick =>
      obtain rfl := Option.some.inj hs
      exact ⟨h.1.tick hg.1 hg.2, h.2⟩
  | isrSemGive i => exact absurd hl (by simp [Sys.Label.Lifecycle])
  | isrEventPost i flags => exact absurd hl (by simp [Sys.Label.Lifecycle])

theorem Sys.Initial.sane {cfg : Config} {s : Sys} (h : s.Initial cfg) : s.Sane := by
  obtain ⟨thr, idle, hk, hthr⟩ := h.kernel
  refine ⟨⟨fun _ => [], [], ?_⟩, fun t => by rw [h.pc t]; trivial⟩
  rw [hk]
  refine ⟨⟨fun _ => listRep_init _, ?_, ?_⟩, ?_, listRep_init _, ?_⟩
  · intro p q t ht
    simp at ht
  · intro p
    simp [Kernel.bss]
  · intro u p
    have hs : ((Kernel.bss cfg thr idle).thr u).state = .suspended := hthr u
    rw [hs]
    simp [not_active_suspended]
  · intro u hu
    have hs : ((Kernel.bss cfg thr idle).thr u).state = .suspended := hthr u
    rw [hs] at hu
    exact absurd hu (by simp)

/--
**Run queues and thread states agree along every run whose steps all keep them.**

Every READY or RUNNING thread is linked exactly once, in the queue of its current
priority; nobody else is in a queue; and the ready mask says which queues are not
empty, in every state the run goes through.
-/
theorem agree_along_run {cfg : Config} {s : Sys} {labels : List Sys.Label}
    (hinit : s.Initial cfg) (hl : ∀ l ∈ labels, l.Lifecycle)
    (hg : Along (Sys.step cfg) Sys.Keeps s labels) :
    Always (Sys.step cfg) (fun s => Agree s.k) s labels := by
  have hsane := hinit.sane
  clear hinit
  induction labels generalizing s with
  | nil => exact hsane.1.agree
  | cons l ls ih =>
      refine ⟨hsane.1.agree, fun s' hs => ?_⟩
      exact ih (fun l hl' => hl l (List.mem_cons_of_mem _ hl')) (hg.2 s' hs)
        (hsane.step (hl l List.mem_cons_self) hg.1 hs)

/-- Thread 1 is created, started, and yields. -/
theorem agree_along_run_yield :
    Always (Sys.step ⟨1000, 10, true⟩) (fun s => Agree s.k)
      (Sys.bss ⟨1000, 10, true⟩ (fun _ => threadDefine [] 512 0 0 0 5) none)
      [.boot 1 0x100 0 (some ⟨512, 5, none, true, -1⟩) (some 0x2000) none, .start,
        .call .threadYield] := by
  refine agree_along_run ⟨⟨_, _, rfl, fun _ => rfl⟩, fun _ => rfl⟩ ?_ ?_
  · intro l hl
    fin_cases hl <;> trivial
  · refine ⟨fun _ => ⟨by decide, by decide⟩, fun s hs => ?_⟩
    obtain rfl := Option.some.inj hs
    refine ⟨Or.inr rfl, fun s hs => ?_⟩
    obtain rfl := Option.some.inj hs
    refine ⟨fun self hself => ?_, fun _ _ => trivial⟩
    obtain rfl : 1 = self := Option.some.inj hself
    show ThreadState.Active _
    decide

/-- Thread 1 runs with priority 5 and sets its own priority to 7: it stays in queue 5. -/
theorem set_priority_breaks_agreement :
    ∃ s, run (Sys.step ⟨1000, 10, true⟩)
        (Sys.bss ⟨1000, 10, true⟩ (fun _ => threadDefine [] 512 0 0 0 5) (some 9))
        [.boot 9 0x200 0 (some ⟨256, 0, none, true, -1⟩) (some 0x1000) none,
          .boot 1 0x100 0 (some ⟨512, 5, none, true, -1⟩) (some 0x2000) none, .start,
          .call (.threadSetPriority none 7)] = some s
      ∧ (s.k.thr 1).state = .running ∧ (s.k.thr 1).priority = 7
      ∧ (s.k.runQueues 5).head = some 1 ∧ ¬ Agree s.k := by
  refine ⟨_, rfl, by decide, by decide, by decide, ?_⟩
  intro h
  obtain ⟨qs, hq, hagree⟩ := h
  have hmem : (1 : Tid) ∈ qs 7 := (hagree 1 7).mpr (by decide)
  have hhead := (hq.rep 7).head
  have hnone : qs 7 = [] := by
    refine (hq.rep 7).eq_nil_iff.mpr ?_
    decide
  rw [hnone] at hmem
  exact absurd hmem (by simp)

end VibeRtos
