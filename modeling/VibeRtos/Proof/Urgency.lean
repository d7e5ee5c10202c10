import VibeRtos.Kernel.SubmitSystem
import VibeRtos.Proof.OrderlyRuns

/-!
# The most urgent thread runs

While the scheduler is unlocked, a thread in its own code is one of the most urgent READY
or RUNNING ones. A reschedule makes it so, and the sections that are not followed by one
do not ready anybody, with two exceptions: `vibe_thread_create` and `vibe_thread_restart`
enqueue a thread and return.
-/

namespace VibeRtos

open Links Kernel Runs

/-- Every READY or RUNNING thread is at most as urgent as `self`, which is one of them. -/
def Kernel.Peak (k : Kernel) (self : Tid) : Prop :=
  ∀ u, (k.thr u).state.Active → (k.thr self).state.Active
    ∧ (k.thr u).priority ≤ (k.thr self).priority

/-- The same for every thread but `t`, or `t` is more urgent and can be told to be. -/
def Kernel.PeakBut (k : Kernel) (self t : Tid) : Prop :=
  ∀ u, (k.thr u).state.Active → u = t ∧ (k.thr self).priority < (k.thr t).priority
    ∨ (k.thr self).state.Active ∧ (u = t ∨ (k.thr u).priority ≤ (k.thr self).priority)

/-- What holds at each program point of the current thread. -/
def Pc.Peaks (k : Kernel) (self : Tid) : Pc → Prop
  | .resched _ | .at .unlockCheck => True
  | .at (.resumeCheck t) => k.PeakBut self t
  | _ => k.Peak self

/-- While the scheduler is unlocked, the current thread is one of the most urgent. -/
def Sys.Peaks (s : Sys) : Prop :=
  s.k.schedLockCount = 0 → ∀ self, s.k.current = some self → (s.pc self).Peaks s.k self

/-- When a call by `self` that does not reschedule leaves it one of the most urgent. -/
def Call.Defers (k : Kernel) (self : Tid) : Call → Prop
  | .threadCreate t entry _ attr stack heapStack => CreateAccepted entry attr stack heapStack →
      t = self ∨ (k.thr self).state.Active ∧ ∀ a ∈ attr, a.priority.toNat ≤ (k.thr self).priority
  | .threadRestart t =>
      if t.getD self = self then ∀ u, u ≠ self → (k.thr u).state.Active →
        (k.thr u).priority ≤ (k.thr self).basePriority
      else (k.thr self).state.Active
        ∧ (k.thr (t.getD self)).basePriority ≤ (k.thr self).priority
  -- a more urgent thread that is resumed is noticed
  | .threadResume t => ∀ u ∈ t, (k.thr u).state = .suspended →
      u = self ∨ (k.thr self).state.Active ∨ (k.thr self).priority < (k.thr u).priority
  | _ => True

/-- The same for the steps of the machine; under a locked scheduler nothing is asked. -/
def Sys.Defers (s : Sys) : Sys.Label → Prop
  | .call c => s.k.schedLockCount = 0 → ∀ self ∈ s.k.current, c.Defers s.k self
  | _ => True

instance (k : Kernel) (self : Tid) : (c : Call) → Decidable (c.Defers k self)
  | .threadCreate _ _ _ attr .. =>
      have := Option.decidableForallMem
        (p := fun a : ThreadAttr => a.priority.toNat ≤ (k.thr self).priority) attr
      inferInstanceAs (Decidable (CreateAccepted _ _ _ _ → _ ∨ _))
  | .threadRestart t => inferInstanceAs (Decidable
      (if t.getD self = self then ∀ u, u ≠ self → (k.thr u).state.Active →
        (k.thr u).priority ≤ (k.thr self).basePriority
      else (k.thr self).state.Active
        ∧ (k.thr (t.getD self)).basePriority ≤ (k.thr self).priority))
  | .threadResume t => Option.decidableForallMem (p := fun u => (k.thr u).state = .suspended →
      u = self ∨ (k.thr self).state.Active ∨ (k.thr self).priority < (k.thr u).priority) t
  | .threadDelete _ | .threadSuspend _ | .threadSleep _ | .threadYield | .threadSetPriority ..
  | .schedLock | .schedUnlock | .mutexLock .. | .mutexUnlock _ | .semTake .. | .semGive _
  | .semReset _ | .msgqPut .. | .msgqGet .. | .msgqPeek _ | .msgqPurge _ | .eventPost ..
  | .eventClear .. | .eventWait .. | .memPoolAlloc .. | .memPoolFree .. | .pipeWrite ..
  | .pipeRead .. => isTrue trivial

instance (s : Sys) : (l : Sys.Label) → Decidable (s.Defers l)
  | .call c =>
      have := Option.decidableForallMem (p := fun self => c.Defers s.k self) s.k.current
      inferInstanceAs (Decidable (_ → _))
  | .boot .. | .start | .cont | .tick | .isrSemGive _ | .isrEventPost .. => isTrue trivial

/-- The steps of the machine under which the most urgent thread runs. -/
def SubmitSys.Prompt (s : SubmitSys) : SubmitSys.Label → Prop
  | .sys l => s.sys.Orderly l ∧ s.sys.Defers l
  | .link .. => True

instance (s : SubmitSys) : (l : SubmitSys.Label) → Decidable (s.Prompt l)
  | .sys _ => inferInstanceAs (Decidable (_ ∧ _))
  | .link .. => isTrue trivial

variable {cfg : Config} {k k' : Kernel} {qs : Prio → List Tid} {ys : List Tid} {self t u : Tid}
  {s s' : Sys}

/-! ## Choosing the next thread -/

/-- The head of the highest queue is one of the most urgent. -/
theorem Placed.peak (h : Placed k qs ys) {p : Prio} {rest : List Tid} (hq : qs p = t :: rest)
    (habove : ∀ q, p < q → qs q = []) : k.Peak t := by
  intro u hu
  obtain ⟨hact, hprio⟩ := (h.agree t p).mp (by rw [hq]; exact List.mem_cons_self)
  refine ⟨hact, ?_⟩
  rw [hprio]
  by_contra hlt
  have hin : u ∈ qs (k.thr u).priority := (h.agree u _).mpr ⟨hu, rfl⟩
  rw [habove _ (not_le.mp hlt)] at hin
  exact absurd hin List.not_mem_nil

/-- **A reschedule picks one of the most urgent threads.** -/
theorem Sound.peak_reschedule (h : Sound k) (hg : Reschedulable k) (hlock : k.schedLockCount = 0)
    (hcur : k.schedReschedule.current = some self) : k.schedReschedule.Peak self := by
  obtain ⟨qs, ys, hp⟩ := h
  have hp' := hp.reschedule hg
  rcases hp.queues.next with ⟨hempty, -⟩ | ⟨p, t, rest, hq, habove, hnext⟩
  · -- nobody is ready before or after
    intro u hu
    have hin : u ∈ qs (k.schedReschedule.thr u).priority := (hp'.agree u _).mpr ⟨hu, rfl⟩
    rw [hempty] at hin
    exact absurd hin List.not_mem_nil
  · obtain rfl : t = self := by
      have hpick : k.schedReschedule.current = some t := by
        unfold schedReschedule
        rw [if_neg (by omega), hnext]
        dsimp only
        split
        · assumption
        · exact switchTo_current k t
      exact Option.some.inj (hpick.symm.trans hcur)
    exact hp'.peak hq habove

/-- So does the start of the scheduler. -/
theorem Sound.peak_start (h : Sound k) (hg : k.readyMask ≠ 0#32 ∨ k.idle = none)
    (hnone : k.current = none) (hcur : k.schedStart.current = some self) :
    k.schedStart.Peak self := by
  obtain ⟨qs, ys, hp⟩ := h
  rcases hp.queues.next with ⟨hempty, hnext⟩ | ⟨p, t, rest, hq, habove, hnext⟩
  · rcases hg with hg | hg
    · obtain ⟨p, hne⟩ := hp.queues.exists_ready hg
      exact absurd (hempty p) hne
    · unfold schedStart at hcur
      rw [hnext, hg] at hcur
      exact absurd (hnone.symm.trans hcur) (by simp)
  · have hact : (k.thr t).state.Active :=
      ((hp.agree t p).mp (by rw [hq]; exact List.mem_cons_self)).1
    have hstart : k.schedStart = ({ k with current := none } : Kernel).switchTo t := by
      unfold schedStart
      rw [hnext]
      rfl
    obtain rfl : t = self := by
      rw [hstart, switchTo_current] at hcur
      exact Option.some.inj hcur
    have hstopped : Placed { k with current := none } qs ys :=
      hp.congr (fun _ => Iff.rfl) (fun _ => rfl) (fun _ hs => hs) rfl rfl rfl rfl rfl
    rw [hstart]
    exact (hstopped.switchTo hact).peak hq habove

/-- At any program point it will do. -/
theorem Kernel.Peak.peaks (h : k.Peak self) (p : Pc) : p.Peaks k self := by
  have hbut : ∀ t, k.PeakBut self t := fun t u hu => Or.inr ⟨(h u hu).1, Or.inr (h u hu).2⟩
  cases p with
  | user => exact h
  | resched a => trivial
  | «at» a =>
      cases a with
      | unlockCheck => trivial
      | resumeCheck t => exact hbut t
      | _ => exact h

/-! ## Sections that do not reschedule -/

/-- Whoever is READY or RUNNING was so with the same priority, or is not more urgent than before. -/
theorem Kernel.Peak.spread (h : k.Peak self)
    (hself : (k.thr self).state.Active → (k'.thr self).state.Active
      ∧ (k.thr self).priority ≤ (k'.thr self).priority)
    (hnew : ∀ u, (k'.thr u).state.Active → (k.thr u).state.Active
        ∧ (k'.thr u).priority = (k.thr u).priority
      ∨ (k.thr self).state.Active ∧ (k'.thr u).priority ≤ (k'.thr self).priority) :
    k'.Peak self := by
  intro u hu
  rcases hnew u hu with ⟨hact, hprio⟩ | ⟨hact, hle⟩
  · obtain ⟨hact', hle⟩ := h u hact
    obtain ⟨hkeep, hup⟩ := hself hact'
    exact ⟨hkeep, by rw [hprio]; exact hle.trans hup⟩
  · exact ⟨(hself hact).1, hle⟩

/-- A creation fails, or enqueues a thread with the priority asked for. -/
theorem threadCreate_cases (cfg : Config) (k : Kernel) (t : Tid) (entry arg : Nat)
    (attr : Option ThreadAttr) (stack heapStack : Option Nat) :
    (threadCreate cfg k t entry arg attr stack heapStack).2 = k
      ∨ CreateAccepted entry attr stack heapStack ∧ ∃ (a : ThreadAttr) (k₁ : Kernel), attr = some a
        ∧ (k₁.thr t).priority.val = a.priority.toNat ∧ (∀ u, u ≠ t → k₁.thr u = k.thr u)
        ∧ (threadCreate cfg k t entry arg attr stack heapStack).2 = k₁.schedEnqueue t := by
  unfold threadCreate
  cases attr with
  | none => exact Or.inl rfl
  | some a =>
    dsimp only
    split
    · exact Or.inl rfl
    · rename_i hentry
      split
      · exact Or.inl rfl
      · rename_i hprio
        cases hst : stack.or heapStack with
        | none => exact Or.inl rfl
        | some buf =>
          refine Or.inr ⟨⟨hentry, ⟨a, rfl, by simpa using hprio⟩, by simp [hst]⟩, a, _, rfl, ?_, ?_,
            rfl⟩
          · dsimp only
            rw [Function.update_self]
            rfl
          · exact fun u hu => Function.update_of_ne hu _ _

/-- A new thread that is not more urgent than its creator. -/
theorem Kernel.Peak.create (h : k.Peak self) {entry arg : Nat} {attr : Option ThreadAttr}
    {stack heapStack : Option Nat}
    (hout : CreateAccepted entry attr stack heapStack → Unlinked k t)
    (hg : CreateAccepted entry attr stack heapStack → t = self
      ∨ (k.thr self).state.Active ∧ ∀ a ∈ attr, a.priority.toNat ≤ (k.thr self).priority) :
    (threadCreate cfg k t entry arg attr stack heapStack).2.Peak self := by
  rcases threadCreate_cases cfg k t entry arg attr stack heapStack with
    heq | ⟨hacc, a, k₁, rfl, hprio, hother, heq⟩
  · rw [heq]
    exact h
  · rw [heq]
    rcases hg hacc with rfl | ⟨hact, hle⟩
    · -- the caller was in no run queue, so nobody was
      intro u hu
      by_cases hut : u = t
      · subst hut
        exact ⟨hu, le_refl _⟩
      · rw [schedEnqueue_thr, Function.update_of_ne hut, hother u hut] at hu
        exact absurd (h u hu).1 (hout hacc).1
    have hself : self ≠ t := fun he => (hout hacc).1 (he ▸ hact)
    have hsame : (k₁.schedEnqueue t).thr self = k.thr self := by
      rw [schedEnqueue_thr, Function.update_of_ne hself, hother self hself]
    refine h.spread (fun hact => ?_) fun u hu => ?_
    · rw [hsame]
      exact ⟨hact, le_refl _⟩
    · rw [hsame]
      rw [schedEnqueue_thr] at hu ⊢
      by_cases hut : u = t
      · subst hut
        rw [Function.update_self]
        refine Or.inr ⟨hact, Fin.le_def.mpr ?_⟩
        show (k₁.thr u).priority.val ≤ _
        rw [hprio]
        exact hle a rfl
      · rw [Function.update_of_ne hut, hother u hut] at hu ⊢
        exact Or.inl ⟨hu, rfl⟩

/-- Another thread stops being READY. -/
theorem Kernel.Peak.stop (h : k.Peak self) (hself : self ≠ t) (f : Thread → Thread)
    (hf : ∀ th, ¬ (f th).state.Active) (p : Prop) [Decidable p] :
    ((if p then k.schedDequeue t else k).modThread t f).Peak self := by
  have hthr : (if p then k.schedDequeue t else k).thr = k.thr := by
    split <;> rfl
  refine h.spread (fun hact => ?_) fun u hu => ?_
  · rw [modThread_of_ne _ _ _ hself, hthr]
    exact ⟨hact, le_refl _⟩
  · by_cases hut : u = t
    · subst hut
      rw [modThread_self] at hu
      exact absurd hu (hf _)
    · rw [modThread_of_ne _ _ _ hut, hthr] at hu ⊢
      exact Or.inl ⟨hu, rfl⟩

theorem Kernel.Peak.delete (h : k.Peak self) (hself : self ≠ t) : (threadDelete k t).Peak self := by
  unfold threadDelete
  exact h.stop hself (fun th =>
    { th with state := .dead, stackBase := if th.isStatic then th.stackBase else none })
    (fun _ => not_active_dead) _

theorem Kernel.Peak.suspend (h : k.Peak self) (hself : self ≠ t) :
    (threadSuspend k t).2.Peak self := by
  unfold threadSuspend
  split
  · exact h
  · dsimp only
    exact h.stop hself (fun th => { th with state := .suspended }) (fun _ => not_active_suspended) _

/-- A thread that is resumed may be more urgent; the check that follows is about it. -/
theorem Kernel.Peak.resume (h : k.Peak self) (hg : (k.thr t).state = .suspended →
    t = self ∨ (k.thr self).state.Active ∨ (k.thr self).priority < (k.thr t).priority) :
    (threadResume k t).2.PeakBut self t := by
  unfold threadResume
  split
  · exact fun u hu => Or.inr ⟨(h u hu).1, Or.inr (h u hu).2⟩
  · rename_i hs
    have hna : ¬ (k.thr t).state.Active := by
      rw [not_not.mp hs]
      exact not_active_suspended
    have hprio : ∀ u, ((k.schedEnqueue t).thr u).priority = (k.thr u).priority := by
      intro u
      rw [schedEnqueue_thr]
      by_cases hut : u = t
      · subst hut
        rw [Function.update_self]
      · rw [Function.update_of_ne hut]
    have hact : ∀ u, (k.thr u).state.Active → ((k.schedEnqueue t).thr u).state.Active := by
      intro u hu
      have hut : u ≠ t := fun he => hna (he ▸ hu)
      rw [schedEnqueue_thr, Function.update_of_ne hut]
      exact hu
    intro u hu
    rw [hprio, hprio, hprio]
    by_cases hut : u = t
    · rcases hg (not_not.mp hs) with rfl | hself | hup
      · exact Or.inr ⟨hut ▸ hu, Or.inl hut⟩
      · exact Or.inr ⟨hact self hself, Or.inl hut⟩
      · exact Or.inl ⟨hut, hup⟩
    · rw [schedEnqueue_thr, Function.update_of_ne hut] at hu
      exact Or.inr ⟨hact self (h u hu).1, Or.inr (h u hu).2⟩

/-- A restarted thread that is not more urgent than the caller. -/
theorem Kernel.Peak.restart (h : k.Peak self) (hg : if t = self then
      ∀ u, u ≠ self → (k.thr u).state.Active → (k.thr u).priority ≤ (k.thr self).basePriority
    else (k.thr self).state.Active ∧ (k.thr t).basePriority ≤ (k.thr self).priority) :
    (threadRestart k t).Peak self := by
  have hthr : ∃ k₁ : Kernel, k₁.thr = k.thr ∧ threadRestart k t = (k₁.modThread t fun th =>
      { th with priority := th.basePriority, state := .suspended, timeout := 0 }).schedEnqueue
        t := by
    refine ⟨_, ?_, rfl⟩
    split
    · rfl
    · split <;> rfl
  obtain ⟨k₁, hk₁, heq⟩ := hthr
  have hat : (threadRestart k t).thr t = { k.thr t with
      priority := (k.thr t).basePriority, state := .ready, timeout := 0 } := by
    rw [heq, schedEnqueue_thr, Function.update_self, modThread_self, hk₁]
  have hother : ∀ u, u ≠ t → (threadRestart k t).thr u = k.thr u := by
    intro u hu
    rw [heq, schedEnqueue_thr, Function.update_of_ne hu, modThread_of_ne _ _ _ hu, hk₁]
  by_cases hts : t = self
  · subst hts
    rw [if_pos rfl] at hg
    intro u hu
    by_cases hut : u = t
    · subst hut
      exact ⟨hu, le_refl _⟩
    · rw [hother u hut] at hu ⊢
      rw [hat]
      exact ⟨Or.inl rfl, hg u hut hu⟩
  · rw [if_neg hts] at hg
    obtain ⟨hact, hle⟩ := hg
    refine h.spread (fun hself => ?_) fun u hu => ?_
    · rw [hother self (Ne.symm hts)]
      exact ⟨hself, le_refl _⟩
    · by_cases hu' : u = t
      · subst hu'
        rw [hat, hother self (Ne.symm hts)]
        exact Or.inr ⟨hact, hle⟩
      · rw [hother u hu'] at hu ⊢
        exact Or.inl ⟨hu, rfl⟩

/-! ## Steps -/

namespace Sys.Peaks

/-- Only the current thread's program point matters. -/
theorem of_current (hcur : s.k.current = some self)
    (h : s.k.schedLockCount = 0 → (s.pc self).Peaks s.k self) : s.Peaks := by
  intro hlock t ht
  obtain rfl : self = t := Option.some.inj (hcur.symm.trans ht)
  exact h hlock

/-- A section that goes on to a reschedule, or does nothing to the scheduler. -/
theorem heeded (hcur : s.k.current = some self) (hpk : s.k.schedLockCount = 0 → s.k.Peak self)
    (hh : Heeded s s' self) : s'.Peaks := by
  refine of_current (hh.served.steady.current.trans hcur) fun hlock => ?_
  rw [hh.served.steady.lock] at hlock
  rcases hh.outcome with ⟨a, hpc⟩ | hk
  · rw [hpc]
    trivial
  · rw [hk]
    exact (hpk hlock).peaks _

/-- A call about threads. -/
theorem enterThread {c : Call} (hcur : s.k.current = some self)
    (hpk : s.k.schedLockCount = 0 → s.k.Peak self) (hc : c.Lifecycle) (hkeep : c.Keeps s.k self)
    (hd : s.k.schedLockCount = 0 → c.Defers s.k self) (hs : s.enter cfg self c = some s') :
    s'.Peaks := by
  -- where the caller is and what the kernel has become settles it
  have hset : ∀ {k : Kernel} {pc : Tid → Pc} {p : Pc} {s₁ : Sys}, Steady s.k k → s₁.k = k →
      s₁.pc = Function.update pc self p → (s.k.schedLockCount = 0 → p.Peaks k self) → s₁.Peaks := by
    intro k pc p s₁ hk hs₁ hpc hp
    refine of_current (by rw [hs₁, hk.current, hcur]) fun hlock => ?_
    rw [hs₁, hk.lock] at hlock
    rw [hpc, Function.update_self, hs₁]
    exact hp hlock
  cases c with
  | threadCreate t entry arg attr stack heapStack =>
      obtain rfl := Option.some.inj hs
      have hsteady := threadCreate_steady cfg s.k t entry arg attr stack heapStack
      refine hset hsteady ?_ rfl fun hlock => ((hpk hlock).create hkeep (hd hlock)).peaks _
      dsimp only [Sys.setPc]
      split
      · rfl
      · rfl
  | threadDelete t =>
      obtain rfl := Option.some.inj hs
      refine hset (threadDelete_steady _ _) rfl rfl fun hlock => ?_
      split
      · trivial
      · rename_i hne
        exact ((hpk hlock).delete (Ne.symm hne)).peaks _
  | threadSuspend t =>
      obtain rfl := Option.some.inj hs
      refine hset (threadSuspend_steady _ _) rfl rfl fun hlock => ?_
      split
      · trivial
      · rename_i hne
        by_cases hts : t.getD self = self
        · -- the caller is DEAD, and nothing happens
          have hdead : (s.k.thr (t.getD self)).state = .dead := by
            by_contra hlive
            refine hne ⟨?_, hts⟩
            unfold threadSuspend
            rw [if_neg hlive]
          have hsame : (threadSuspend s.k (t.getD self)).2 = s.k := by
            unfold threadSuspend
            rw [if_pos hdead]
          rw [hsame]
          exact (hpk hlock).peaks _
        · exact ((hpk hlock).suspend (Ne.symm hts)).peaks _
  | threadResume t =>
      cases t with
      | none =>
          obtain rfl := Option.some.inj hs
          exact hset (.refl _) rfl rfl fun hlock => (hpk hlock).peaks _
      | some t =>
          obtain rfl := Option.some.inj hs
          refine hset (threadResume_steady _ _) rfl rfl fun hlock => ?_
          split
          · exact (hpk hlock).resume (hd hlock t rfl)
          · rename_i herr
            have hsame : (threadResume s.k t).2 = s.k := by
              unfold threadResume at herr ⊢
              split
              · rfl
              · rename_i hsus
                rw [if_neg hsus] at herr
                exact absurd rfl herr
            rw [hsame]
            exact (hpk hlock).peaks _
  | threadSleep ms =>
      obtain rfl := Option.some.inj hs
      have hsteady : Steady s.k (threadSleep cfg s.k self ms) := ⟨rfl, rfl, rfl⟩
      exact hset hsteady rfl rfl fun _ => trivial
  | threadYield =>
      obtain rfl := Option.some.inj hs
      have hsteady : Steady s.k (threadYield s.k self) := ⟨rfl, rfl, rfl⟩
      exact hset hsteady rfl rfl fun _ => trivial
  | threadRestart t =>
      obtain rfl := Option.some.inj hs
      exact hset (threadRestart_steady _ _) rfl rfl fun hlock =>
        ((hpk hlock).restart (hd hlock)).peaks _
  | threadSetPriority t priority =>
      obtain rfl := Option.some.inj hs
      refine hset (threadSetPriority_steady _ _ _) rfl rfl fun hlock => ?_
      split
      · trivial
      · rename_i herr
        have hsame : (threadSetPriority s.k (t.getD self) priority).2 = s.k := by
          unfold threadSetPriority at herr ⊢
          split
          · rfl
          · rename_i hvalid
            rw [dif_neg hvalid] at herr
            exact absurd rfl herr
        rw [hsame]
        exact (hpk hlock).peaks _
  | schedLock =>
      obtain rfl := Option.some.inj hs
      exact of_current hcur fun hlock => absurd hlock (Nat.succ_ne_zero _)
  | schedUnlock =>
      obtain rfl := Option.some.inj hs
      refine of_current ((schedUnlock_current s.k).trans hcur) fun _ => ?_
      dsimp only [Sys.setPc]
      rw [Function.update_self]
      trivial
  | _ => exact absurd hc id

/-- Going on behind a reschedule. -/
theorem resume (h : s.Ordered cfg) {a : After} (hcur : s.k.current = some self)
    (hpk : s.k.schedLockCount = 0 → (Pc.at a).Peaks s.k self)
    (hobj : a.KeepsObject s self) : (s.resume self a).Peaks := by
  have hother : (s.k.schedLockCount = 0 → s.k.Peak self) → (s.resume self a).Peaks :=
    fun hp => heeded hcur hp (h.resume hobj)
  cases a with
  | resumeCheck t =>
      refine of_current hcur fun hlock => ?_
      dsimp only [Sys.resume, Sys.setPc]
      rw [Function.update_self]
      have hbut : s.k.PeakBut self t := hpk hlock
      split
      · trivial
      · -- the thread just resumed is not more urgent either
        rename_i hle
        have hpeak : s.k.Peak self := by
          intro u hu
          obtain ⟨hact, hu'⟩ := (hbut u hu).resolve_left fun hup => hle hup.2
          refine ⟨hact, ?_⟩
          rcases hu' with rfl | hu'
          · exact not_lt.mp hle
          · exact hu'
        exact hpeak.peaks _
  | unlockCheck =>
      refine of_current hcur fun hlock => ?_
      have hfree : s.k.schedLockCount = 0 := hlock
      dsimp only [Sys.resume, Sys.setPc]
      rw [Function.update_self, if_pos hfree]
      trivial
  | ret r => exact hother hpk
  | mutexLockWake m => exact hother hpk
  | semTakeWake => exact hother hpk
  | msgqPutRetry q data => exact hother hpk
  | msgqGetRetry q => exact hother hpk
  | eventWaitWake ctx => exact hother hpk
  | memPoolAllocRetry p => exact hother hpk
  | memPoolClear p blk => exact hother hpk
  | pipeWrite p src written timeout stopAt => exact hother hpk
  | pipeRead p len dst readCnt timeout stopAt => exact hother hpk

/-- A reschedule, whoever makes it. -/
theorem reschedule (hs : Sound k) (hg : Reschedulable k) (hk : s.k = k.schedReschedule)
    (hlock : k.schedReschedule.schedLockCount = k.schedLockCount) : s.Peaks := by
  intro hfree self hcur
  rw [hk] at hfree hcur ⊢
  rw [hlock] at hfree
  exact (hs.peak_reschedule hg hfree hcur).peaks _

end Sys.Peaks

theorem schedReschedule_lock (k : Kernel) :
    k.schedReschedule.schedLockCount = k.schedLockCount := by
  unfold schedReschedule
  split
  · rfl
  · split
    · rfl
    · split
      · rfl
      · exact switchTo_schedLockCount k _

/-- A give does not block. -/
theorem semGive_flow (k : Kernel) (sem : Sem) : (VibeRtos.semGive k sem).2.2 ≠ .block := by
  unfold VibeRtos.semGive
  split
  · simp
  · split <;> simp

/-- **Every orderly step that defers leaves the current thread one of the most urgent.** -/
theorem Sys.Peaks.step (hp : s.Peaks) (h : s.Ordered cfg) {l : Sys.Label} (hg : s.Orderly l)
    (hd : s.Defers l) (hs : s.step cfg l = some s') : s'.Peaks := by
  obtain ⟨hkeep, hobj⟩ := hg
  cases l with
  | boot t entry arg attr stack heapStack =>
      rw [Sys.step] at hs
      split at hs
      · exact absurd hs (by simp)
      · rename_i hnone
        obtain rfl := Option.some.inj hs
        -- nobody runs yet
        have hcur := (threadCreate_steady cfg s.k t entry arg attr stack heapStack).current
        intro _ self hself
        have hself' : (threadCreate cfg s.k t entry arg attr stack heapStack).2.current
            = some self := by
          split at hself
          · exact hself
          · exact hself
        rw [hcur, hnone] at hself'
        exact absurd hself' (by simp)
  | start =>
      rw [Sys.step] at hs
      split at hs
      · exact absurd hs (by simp)
      · rename_i hnone
        obtain rfl := Option.some.inj hs
        exact fun _ self hself => (h.sound.peak_start hkeep hnone hself).peaks _
  | call c =>
      rw [Sys.step] at hs
      split at hs
      · exact absurd hs (by simp)
      · rename_i self hself
        split at hs
        · rename_i huser
          have hpk : s.k.schedLockCount = 0 → s.k.Peak self := by
            intro hlock
            have hpc := hp hlock self hself
            rw [huser] at hpc
            exact hpc
          by_cases hc : c.Lifecycle
          · exact .enterThread hself hpk hc (hkeep self hself) (fun hlock => hd hlock self hself) hs
          · exact .heeded hself hpk (h.enter hc (hobj self hself) hs)
        · exact absurd hs (by simp)
  | cont =>
      rw [Sys.step] at hs
      split at hs
      · exact absurd hs (by simp)
      · rename_i self hself
        split at hs
        · exact absurd hs (by simp)
        · rename_i a ha
          obtain rfl := Option.some.inj hs
          exact .reschedule h.sound (hkeep self a hself ha) rfl (schedReschedule_lock _)
        · rename_i a ha
          obtain rfl := Option.some.inj hs
          refine .resume h hself (fun hlock => ?_) (hobj self a hself ha)
          have hpc := hp hlock self hself
          rw [ha] at hpc
          exact hpc
  | tick =>
      obtain rfl := Option.some.inj hs
      obtain ⟨hsound, hres⟩ : Sound (s.k.tickSection cfg) ∧ _ :=
        h.sound.tickSection hkeep.1 hkeep.2
      exact .reschedule hsound hres rfl (schedReschedule_lock _)
  | isrSemGive i =>
      obtain rfl := Option.some.inj hs
      have hgive := h.sound.semGive hobj
      dsimp only
      split
      · rename_i e he
        exact .reschedule hgive.sound (semGive_reschedulable he) rfl (schedReschedule_lock _)
      · rename_i hne
        have hk : (VibeRtos.semGive s.k (s.sem i)).1 = s.k := by
          refine hgive.quiet ?_
          cases hf : (VibeRtos.semGive s.k (s.sem i)).2.2 with
          | done r => trivial
          | resched r => exact absurd hf (hne r)
          | block => exact absurd hf (semGive_flow _ _)
        intro hlock self hself
        dsimp only at hlock hself ⊢
        rw [hk] at hlock hself ⊢
        exact hp hlock self hself
  | isrEventPost i flags =>
      obtain rfl := Option.some.inj hs
      have hpost := h.sound.eventPost hobj.1
      exact .reschedule hpost.sound hobj.2 rfl (schedReschedule_lock _)

/-! ## Runs -/

/-- Linking an item is none of the scheduler's business. -/
theorem SubmitSys.step_sys {s s' : SubmitSys} {l : SubmitSys.Label} (hs : s.step cfg l = some s') :
    (∃ l', l = .sys l' ∧ s.sys.step cfg l' = some s'.sys) ∨ s'.sys = s.sys := by
  cases l with
  | sys l =>
      rw [SubmitSys.step] at hs
      split at hs
      · obtain ⟨sys, hsys, rfl⟩ := Option.map_eq_some_iff.mp hs
        exact Or.inl ⟨l, rfl, hsys⟩
      · exact absurd hs (by simp)
  | link i w =>
      rw [SubmitSys.step] at hs
      split at hs
      · exact absurd hs (by simp)
      · split at hs
        · obtain rfl := Option.some.inj hs
          exact Or.inr rfl
        · exact absurd hs (by simp)

/--
**Strict priority, in a run whose calls defer.**

Let every step be orderly, and let no thread, while the scheduler is unlocked, create or
restart a thread that is more urgent than itself. Then whenever the scheduler is unlocked
and the current thread is in its own code or about to return from a call, every READY or
RUNNING thread is at most as urgent as the current one.
-/
theorem strict_priority_along_run {cfg : Config} {s s' : SubmitSys} {labels : List SubmitSys.Label}
    {self : Tid} (h : s.sys.Initial cfg)
    (hg : Along (SubmitSys.step cfg) SubmitSys.Prompt s labels)
    (hr : run (SubmitSys.step cfg) s labels = some s') (hlock : s'.sys.k.schedLockCount = 0)
    (hcur : s'.sys.k.current = some self)
    (hpc : s'.sys.pc self = .user ∨ ∃ r, s'.sys.pc self = .at (.ret r)) :
    s'.sys.k.Peak self := by
  have hinit : s.sys.Peaks := by
    obtain ⟨thr, idle, hk, -⟩ := h.kernel
    intro _ t ht
    rw [hk] at ht
    exact absurd ht (by simp [Kernel.bss])
  have hinv : s'.sys.Ordered cfg ∧ s'.sys.Peaks := by
    refine run_guarded (P := fun s : SubmitSys => s.sys.Ordered cfg ∧ s.sys.Peaks) ?_
      ⟨h.ordered, hinit⟩ hg hr
    intro s l s' hboth hl hs
    rcases hboth with ⟨hord, hpk⟩
    rcases SubmitSys.step_sys hs with ⟨l', rfl, hsys⟩ | hsame
    · exact ⟨hord.step hl.1 hsys, hpk.step hord hl.1 hl.2 hsys⟩
    · rw [hsame]
      exact ⟨hord, hpk⟩
  have hpeak := hinv.2 hlock self hcur
  rcases hpc with hpc | ⟨r, hpc⟩
  · rw [hpc] at hpeak
    exact hpeak
  · rw [hpc] at hpeak
    exact hpeak

/-- Every thread suspended, thread 9 to idle, and empty work queues. -/
def submitBss (cfg : Config) : SubmitSys where
  sys := Sys.bss cfg (fun _ => threadDefine [] 512 0 0 0 5) (some 9)
  mem := fun _ => ⟨none, none, false⟩
  workq := fun _ => ⟨none, none, ⟨0, 0, listInit⟩⟩
  giving := fun _ => none

/-- Thread 1 waits for work, and thread 2 submits some. -/
theorem strict_priority_along_run_submit : ∃ s', run (SubmitSys.step ⟨1000, 10, true⟩)
      (submitBss ⟨1000, 10, true⟩)
      [.sys (.boot 9 0x200 0 (some ⟨256, 0, none, true, -1⟩) (some 0x1000) none),
        .sys (.boot 1 0x100 0 (some ⟨512, 5, none, true, -1⟩) (some 0x2000) none), .sys .start,
        .sys (.call (.threadCreate 2 0x100 0 (some ⟨512, 3, none, true, -1⟩) (some 0x3000) none)),
        .sys .cont, .sys (.call (.semTake 0 waitForever)), .sys .cont, .link 0 7,
        .sys (.call (.semGive 0)), .sys .cont, .sys .cont, .sys .cont] = some s'
    ∧ s'.sys.k.current = some 1 ∧ s'.sys.k.Peak 1 := by
  obtain ⟨s', hrun, hfacts⟩ : ∃ s', run (SubmitSys.step ⟨1000, 10, true⟩)
      (submitBss ⟨1000, 10, true⟩)
      [.sys (.boot 9 0x200 0 (some ⟨256, 0, none, true, -1⟩) (some 0x1000) none),
        .sys (.boot 1 0x100 0 (some ⟨512, 5, none, true, -1⟩) (some 0x2000) none), .sys .start,
        .sys (.call (.threadCreate 2 0x100 0 (some ⟨512, 3, none, true, -1⟩) (some 0x3000) none)),
        .sys .cont, .sys (.call (.semTake 0 waitForever)), .sys .cont, .link 0 7,
        .sys (.call (.semGive 0)), .sys .cont, .sys .cont, .sys .cont] = some s'
      ∧ (s'.sys.k.schedLockCount, s'.sys.k.current, (s'.sys.pc 1).ahead.isNone,
          (s'.sys.pc 1).here.isNone) = (0, some 1, true, true) :=
    Option.map_eq_some_iff.mp (by decide +kernel)
  simp only [Prod.mk.injEq] at hfacts
  obtain ⟨hlock, hcur, hahead, hhere⟩ := hfacts
  have hpc : s'.sys.pc 1 = .user := by
    cases hpc : s'.sys.pc 1 with
    | user => rfl
    | resched a =>
        rw [hpc] at hahead
        exact absurd hahead (by simp [Pc.ahead])
    | «at» a =>
        rw [hpc] at hhere
        exact absurd hhere (by simp [Pc.here])
  exact ⟨s', hrun, hcur, strict_priority_along_run (initial_bss _)
    (by decide +kernel) hrun hlock hcur (Or.inl hpc)⟩

/-- Thread 1 creates a thread that is more urgent, and goes on with its own code. -/
theorem create_leaves_urgent_thread : ∃ s', run (SubmitSys.step ⟨1000, 10, true⟩)
      (submitBss ⟨1000, 10, true⟩)
      [.sys (.boot 9 0x200 0 (some ⟨256, 0, none, true, -1⟩) (some 0x1000) none),
        .sys (.boot 1 0x100 0 (some ⟨512, 5, none, true, -1⟩) (some 0x2000) none), .sys .start,
        .sys (.call (.threadCreate 2 0x100 0 (some ⟨512, 10, none, true, -1⟩) (some 0x3000) none)),
        .sys .cont] = some s'
    ∧ s'.sys.k.schedLockCount = 0 ∧ s'.sys.k.current = some 1 ∧ s'.sys.ret 1 = .err .ok
    ∧ (s'.sys.k.thr 2).state = .ready ∧ (s'.sys.k.thr 1).priority < (s'.sys.k.thr 2).priority
    ∧ ¬ s'.sys.k.Peak 1 := by
  obtain ⟨s', hrun, hfacts⟩ : ∃ s', run (SubmitSys.step ⟨1000, 10, true⟩)
      (submitBss ⟨1000, 10, true⟩)
      [.sys (.boot 9 0x200 0 (some ⟨256, 0, none, true, -1⟩) (some 0x1000) none),
        .sys (.boot 1 0x100 0 (some ⟨512, 5, none, true, -1⟩) (some 0x2000) none), .sys .start,
        .sys (.call (.threadCreate 2 0x100 0 (some ⟨512, 10, none, true, -1⟩) (some 0x3000) none)),
        .sys .cont] = some s'
      ∧ decide (s'.sys.k.schedLockCount = 0 ∧ s'.sys.k.current = some 1 ∧ s'.sys.ret 1 = .err .ok
        ∧ (s'.sys.k.thr 2).state = .ready
        ∧ (s'.sys.k.thr 1).priority < (s'.sys.k.thr 2).priority) = true :=
    Option.map_eq_some_iff.mp (by decide +kernel)
  obtain ⟨hlock, hcur, hret, hready, hlt⟩ := of_decide_eq_true hfacts
  refine ⟨s', hrun, hlock, hcur, hret, hready, hlt, fun hpeak => ?_⟩
  exact absurd (hpeak 2 (Or.inl hready)).2 (not_le.mpr hlt)

end VibeRtos
