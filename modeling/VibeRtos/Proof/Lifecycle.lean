import VibeRtos.Kernel.System
import VibeRtos.Lib.Runs
import VibeRtos.Proof.Placement

/-!
# Thread states and run queues agree

Every lifecycle operation takes a placed kernel to a placed kernel, unless it is used
in one of a few ways that link a thread twice or leave it in the wrong queue.
`Sys.Keeps` lists these ways; a run that avoids them agrees in every state.
-/

namespace VibeRtos

open Links Kernel Runs

/-- The run queues hold exactly the READY and RUNNING threads, once each, in the queue of their
priority, and the ready mask says which queues are not empty. -/
def Agree (k : Kernel) : Prop :=
  ∃ qs, QueuesRep k qs ∧ ∀ t p, t ∈ qs p ↔ (k.thr t).state.Active ∧ (k.thr t).priority = p

/-- Placed, for some queues and some sleep list. -/
def Sound (k : Kernel) : Prop := ∃ qs ys, Placed k qs ys

theorem Sound.agree {k : Kernel} (h : Sound k) : Agree k := by
  obtain ⟨qs, ys, hp⟩ := h
  exact ⟨qs, hp.queues, hp.agree⟩

/-- A thread in no run queue and not in the sleep list. -/
def Unlinked (k : Kernel) (t : Tid) : Prop :=
  ¬ (k.thr t).state.Active ∧ t ∉ listNodes k.sleepNode k.sleepList

theorem Placed.listNodes {k : Kernel} {qs : Prio → List Tid} {ys : List Tid}
    (h : Placed k qs ys) : listNodes k.sleepNode k.sleepList = ys :=
  h.sleepers.nodes (length_le_walkBound h.sleepers.nodup)

variable {cfg : Config} {k : Kernel}

/-! ## Each operation -/

/-- The arguments `vibe_thread_create` accepts. -/
def CreateAccepted (entry : Nat) (attr : Option ThreadAttr) (stack heapStack : Option Nat) : Prop :=
  entry ≠ 0 ∧ (∃ a, attr = some a ∧ a.priority ≤ prioMax) ∧ stack.or heapStack ≠ none

theorem Sound.create (h : Sound k) {t : Tid} {entry arg : Nat} {attr : Option ThreadAttr}
    {stack heapStack : Option Nat}
    (hg : CreateAccepted entry attr stack heapStack → Unlinked k t) :
    Sound (threadCreate cfg k t entry arg attr stack heapStack).2 := by
  unfold threadCreate
  cases attr with
  | none => exact h
  | some a =>
    dsimp only
    split
    · exact h
    · rename_i hentry
      split
      · exact h
      · rename_i hprio
        cases hst : stack.or heapStack with
        | none => exact h
        | some buf =>
          have hun := hg ⟨hentry, ⟨a, rfl, by simpa using hprio⟩, by simp [hst]⟩
          obtain ⟨qs, ys, hp⟩ := h
          have haway := hp.away hun.1
          have hys : t ∉ ys := by
            rw [← hp.listNodes]
            exact hun.2
          -- the new nodes of `t` are in nobody's list
          have hclear : Away { k with
              nextThreadId := k.nextThreadId + 1
              thr := Function.update k.thr t (newThread cfg k.nextThreadId entry arg a
                ⟨a.priority.toNat, by
                  have := UInt8.le_iff_toNat_le.mp (UInt8.not_lt.mp hprio)
                  simp [prioMax] at this; omega⟩ buf
                (if a.stackSize > 0 then a.stackSize else 512))
              schedNode := Function.update k.schedNode t listNodeInit
              waitNode := Function.update k.waitNode t listNodeInit
              sleepNode := Function.update k.sleepNode t listNodeInit } qs ys t := by
            refine ⟨⟨fun p => ?_, haway.queues.disjoint, haway.queues.mask⟩, haway.out, ?_, ?_, ?_⟩
            · refine (haway.queues.rep p).congr fun x hx => Function.update_of_ne ?_ _ _
              intro he
              exact haway.out p (he ▸ hx)
            · intro u hu p
              dsimp only
              rw [Function.update_of_ne hu]
              exact haway.agree u hu p
            · refine haway.sleepers.congr fun x hx => Function.update_of_ne ?_ _ _
              intro he
              exact hys (he ▸ hx)
            · intro u hu hs
              dsimp only at hs
              rw [Function.update_of_ne hu] at hs
              exact haway.asleep u hu hs
          obtain ⟨qs', hp'⟩ := hclear.enqueue
          exact ⟨qs', ys, hp'⟩

theorem Sound.delete (h : Sound k) (t : Tid) : Sound (threadDelete k t) := by
  obtain ⟨qs, ys, hp⟩ := h
  obtain ⟨qs', haway⟩ := hp.dequeue_if t
  unfold threadDelete
  refine ⟨qs', ys, (haway.modThread _).placed ?_ ?_⟩
  · rw [modThread_self]
    exact not_active_dead
  · rw [modThread_self]
    intro hs
    exact absurd hs (by simp)

theorem Sound.suspend (h : Sound k) (t : Tid) : Sound (threadSuspend k t).2 := by
  unfold threadSuspend
  split
  · exact h
  · obtain ⟨qs, ys, hp⟩ := h
    obtain ⟨qs', haway⟩ := hp.dequeue_if t
    dsimp only
    refine ⟨qs', ys, (haway.modThread _).placed ?_ ?_⟩
    · rw [modThread_self]
      exact not_active_suspended
    · rw [modThread_self]
      intro hs
      exact absurd hs (by simp)

theorem Sound.resume (h : Sound k) (t : Tid) : Sound (threadResume k t).2 := by
  unfold threadResume
  split
  · exact h
  · rename_i hs
    obtain ⟨qs, ys, hp⟩ := h
    have hna : ¬ (k.thr t).state.Active := by
      rw [not_not.mp hs]
      exact not_active_suspended
    obtain ⟨qs', hp'⟩ := (hp.away hna).enqueue
    exact ⟨qs', ys, hp'⟩

theorem Sound.sleep (h : Sound k) {self : Tid} (hact : (k.thr self).state.Active)
    (hun : self ∉ listNodes k.sleepNode k.sleepList) (ms : UInt32) :
    Sound (threadSleep cfg k self ms) := by
  obtain ⟨qs, ys, hp⟩ := h
  rw [hp.listNodes] at hun
  obtain ⟨qs', haway⟩ := hp.dequeue hact
  obtain ⟨ys', hp'⟩ := haway.sleep hun (k.tickCount + msToTicks cfg ms)
  exact ⟨qs', ys', hp'⟩

theorem Sound.yield (h : Sound k) {self : Tid} (hact : (k.thr self).state.Active) :
    Sound (threadYield k self) := by
  obtain ⟨qs, ys, hp⟩ := h
  obtain ⟨_, haway⟩ := hp.dequeue hact
  obtain ⟨qs', hp'⟩ := haway.enqueue
  exact ⟨qs', ys, hp'⟩

theorem Sound.restart (h : Sound k) {t : Tid} (hrun : (k.thr t).state ≠ .running) :
    Sound (threadRestart k t) := by
  obtain ⟨qs, ys, hp⟩ := h
  unfold threadRestart
  by_cases hready : (k.thr t).state = .ready
  · obtain ⟨_, haway⟩ := hp.dequeue (Or.inl hready)
    obtain ⟨qs', hp'⟩ := (haway.modThread _).enqueue
    simp only [hready, if_true]
    exact ⟨qs', ys, hp'⟩
  · have hna : ¬ (k.thr t).state.Active := by
      intro ha
      rcases ha with ha | ha
      · exact hready ha
      · exact hrun ha
    simp only [hready, if_false]
    split
    · rename_i hasleep
      have haway := (hp.away hna).sleepRemove (hp.asleep t hasleep)
      obtain ⟨qs', hp'⟩ := (haway.modThread _).enqueue
      exact ⟨qs', _, hp'⟩
    · obtain ⟨qs', hp'⟩ := ((hp.away hna).modThread _).enqueue
      exact ⟨qs', ys, hp'⟩

theorem Sound.setPriority (h : Sound k) {t : Tid} {priority : UInt8}
    (hg : priority ≤ prioMax → (k.thr t).state = .running →
      (k.thr t).priority.val = priority.toNat) :
    Sound (threadSetPriority k t priority).2 := by
  unfold threadSetPriority
  split
  · exact h
  · rename_i hvalid
    obtain ⟨qs, ys, hp⟩ := h
    by_cases hready : (k.thr t).state = .ready
    · obtain ⟨_, haway⟩ := hp.dequeue (Or.inl hready)
      obtain ⟨qs', hp'⟩ := (haway.modThread _).enqueue
      simp only [hready, if_true]
      exact ⟨qs', ys, hp'⟩
    · simp only [hready, if_false]
      by_cases hrun : (k.thr t).state = .running
      · -- the queue a running thread is in must remain the right one
        have hsame := hg (by simpa using hvalid) hrun
        refine ⟨qs, ys, hp.congr ?_ ?_ ?_ rfl rfl rfl rfl rfl⟩
        · intro u
          by_cases hu : u = t
          · subst hu; simp
          · rw [modThread_of_ne _ _ _ hu]
        · intro u
          by_cases hu : u = t
          · subst hu
            rw [modThread_self]
            exact Fin.ext hsame.symm
          · rw [modThread_of_ne _ _ _ hu]
        · intro u hs
          by_cases hu : u = t
          · subst hu
            rw [modThread_self] at hs
            exact hs
          · rwa [modThread_of_ne _ _ _ hu] at hs
      · have hna : ¬ (k.thr t).state.Active := by
          intro ha
          rcases ha with ha | ha
          · exact hready ha
          · exact hrun ha
        refine ⟨qs, ys, ((hp.away hna).modThread _).placed ?_ ?_⟩
        · rw [modThread_self]
          exact hna
        · rw [modThread_self]
          exact hp.asleep t

theorem Sound.lock (h : Sound k) : Sound k.schedLock := by
  obtain ⟨qs, ys, hp⟩ := h
  exact ⟨qs, ys, hp.congr (fun _ => Iff.rfl) (fun _ => rfl) (fun _ hs => hs) rfl rfl rfl rfl rfl⟩

theorem Sound.unlock (h : Sound k) : Sound k.schedUnlock := by
  obtain ⟨qs, ys, hp⟩ := h
  unfold schedUnlock
  split
  · exact ⟨qs, ys, hp.congr (fun _ => Iff.rfl) (fun _ => rfl) (fun _ hs => hs) rfl rfl rfl rfl rfl⟩
  · exact ⟨qs, ys, hp⟩

theorem Sound.reschedule (h : Sound k) (hg : Reschedulable k) : Sound k.schedReschedule := by
  obtain ⟨qs, ys, hp⟩ := h
  exact ⟨qs, ys, hp.reschedule hg⟩

theorem Sound.start (h : Sound k) (hg : k.readyMask ≠ 0#32 ∨ k.idle = none) :
    Sound k.schedStart := by
  obtain ⟨qs, ys, hp⟩ := h
  refine ⟨qs, ys, ?_⟩
  unfold schedStart
  have hcurrent : ∀ t, (k.thr t).state.Active →
      Placed ({ k with current := some t }.modThread t fun th => { th with state := .running })
        qs ys := by
    intro t ht
    have hstopped : Placed { k with current := none } qs ys :=
      hp.congr (fun _ => Iff.rfl) (fun _ => rfl) (fun _ hs => hs) rfl rfl rfl rfl rfl
    exact hstopped.switchTo ht
  rcases hp.queues.next with ⟨hempty, hnext⟩ | ⟨p, t, rest, hq, -, hnext⟩
  · rcases hg with hg | hg
    · obtain ⟨p, hne⟩ := hp.queues.exists_ready hg
      exact absurd (hempty p) hne
    · rw [hnext, hg]
      exact hp
  · rw [hnext]
    have hmem : t ∈ qs p := by rw [hq]; exact List.mem_cons_self
    exact hcurrent t ((hp.agree t p).mp hmem).1

theorem Sound.timeslice (h : Sound k) : Sound (k.schedTimesliceTick cfg) := by
  unfold schedTimesliceTick
  split
  · exact h
  · split
    · exact h
    · rename_i cur _
      split
      · exact h
      · rename_i hrun
        have hact : (k.thr cur).state.Active := Or.inr (not_not.mp hrun)
        obtain ⟨qs, ys, hp⟩ := h
        have hslice : ∀ n, Placed { k with sliceLeft := n } qs ys := fun n =>
          hp.congr (fun _ => Iff.rfl) (fun _ => rfl) (fun _ hs => hs) rfl rfl rfl rfl rfl
        split
        · exact ⟨qs, ys, hslice _⟩
        · dsimp only
          split
          · have hsound : Sound { k with sliceLeft := msToTicks cfg cfg.timesliceMs } :=
              ⟨qs, ys, hslice _⟩
            exact hsound.yield hact
          · exact ⟨qs, ys, hslice _⟩

end VibeRtos
