import VibeRtos.Kernel.System

/-!
# Sections that cannot reach a thread

A thread that no list points at stays that way: every section of the kernel follows
the pointers it finds, and the ones it stores come from there or from the thread it
acts for. `Apart t k` says that nothing in the kernel's lists points at `t`; each
section that acts for another thread keeps it and leaves `t`'s state alone.
-/

namespace VibeRtos

open Links Kernel

/-! ## Lists -/

/-- No other node points at `t`. -/
def NodesAvoid (mem : Tid → Link Tid) (t : Tid) : Prop :=
  ∀ u, u ≠ t → (mem u).prev ≠ some t ∧ (mem u).next ≠ some t

/-- The anchor does not point at `t`. -/
def ListAvoid (l : VList Tid) (t : Tid) : Prop := l.head ≠ some t ∧ l.tail ≠ some t

variable {mem : Tid → Link Tid} {l : VList Tid} {t u : Tid}

theorem some_ne (h : u ≠ t) : some u ≠ some t := fun he => h (Option.some.inj he)

theorem listAvoid_init : ListAvoid listInit t := ⟨by simp [listInit], by simp [listInit]⟩

theorem NodesAvoid.update (h : NodesAvoid mem t) {v : Link Tid} (hp : v.prev ≠ some t)
    (hn : v.next ≠ some t) : NodesAvoid (Function.update mem u v) t := by
  intro x hx
  rw [Function.update_apply]
  split
  · exact ⟨hp, hn⟩
  · exact h x hx

theorem NodesAvoid.setNext (h : NodesAvoid mem t) (hu : u ≠ t) {v : Option Tid}
    (hv : v ≠ some t) : NodesAvoid (setNext mem u v) t := h.update (h u hu).1 hv

theorem NodesAvoid.setPrev (h : NodesAvoid mem t) (hu : u ≠ t) {v : Option Tid}
    (hv : v ≠ some t) : NodesAvoid (setPrev mem u v) t := h.update hv (h u hu).2

theorem avoid_append (hm : NodesAvoid mem t) (hl : ListAvoid l t) (hu : u ≠ t) :
    NodesAvoid (listAppend mem l u).1 t ∧ ListAvoid (listAppend mem l u).2 t := by
  have hnode : NodesAvoid (Function.update mem u ⟨l.tail, none⟩) t := hm.update hl.2 (by simp)
  unfold listAppend
  cases htail : l.tail with
  | none =>
      rw [htail] at hnode
      exact ⟨hnode, some_ne hu, some_ne hu⟩
  | some x =>
      rw [htail] at hnode
      have hx : x ≠ t := by
        intro he
        exact hl.2 (by rw [htail, he])
      exact ⟨hnode.setNext hx (some_ne hu), hl.1, some_ne hu⟩

theorem avoid_prepend (hm : NodesAvoid mem t) (hl : ListAvoid l t) (hu : u ≠ t) :
    NodesAvoid (listPrepend mem l u).1 t ∧ ListAvoid (listPrepend mem l u).2 t := by
  have hnode : NodesAvoid (Function.update mem u ⟨none, l.head⟩) t := hm.update (by simp) hl.1
  unfold listPrepend
  cases hhead : l.head with
  | none =>
      rw [hhead] at hnode
      exact ⟨hnode, some_ne hu, some_ne hu⟩
  | some x =>
      rw [hhead] at hnode
      have hx : x ≠ t := by
        intro he
        exact hl.1 (by rw [hhead, he])
      exact ⟨hnode.setPrev hx (some_ne hu), some_ne hu, hl.2⟩

theorem avoid_insertAfter (hm : NodesAvoid mem t) (hl : ListAvoid l t) (hu : u ≠ t) {a : Tid}
    (ha : a ≠ t) :
    NodesAvoid (listInsertAfter mem l a u).1 t ∧ ListAvoid (listInsertAfter mem l a u).2 t := by
  have hnode : NodesAvoid (Function.update mem u ⟨some a, (mem a).next⟩) t :=
    hm.update (some_ne ha) (hm a ha).2
  unfold listInsertAfter
  dsimp only
  cases hnext : (Function.update mem u ⟨some a, (mem a).next⟩ a).next with
  | none => exact ⟨hnode.setNext ha (some_ne hu), hl.1, some_ne hu⟩
  | some x =>
      have hx : x ≠ t := by
        intro he
        exact (hnode a ha).2 (by rw [hnext, he])
      exact ⟨(hnode.setPrev hx (some_ne hu)).setNext ha (some_ne hu), hl.1, hl.2⟩

theorem avoid_remove (hm : NodesAvoid mem t) (hl : ListAvoid l t) (hu : u ≠ t) :
    NodesAvoid (listRemove mem l u).1 t ∧ ListAvoid (listRemove mem l u).2 t := by
  -- the node's successor takes over its predecessor, in whatever the first half left
  have hsucc : ∀ {m : Tid → Link Tid} {q : Tid}, NodesAvoid m t → (m u).next = some q →
      NodesAvoid (Function.update (setPrev m q (m u).prev) u ⟨none, none⟩) t := by
    intro m q hm hnext
    have hq : q ≠ t := by
      intro he
      exact (hm u hu).2 (by rw [hnext, he])
    exact (hm.setPrev hq (hm u hu).1).update (by simp) (by simp)
  unfold listRemove
  cases hprev : (mem u).prev with
  | none =>
      dsimp only
      cases hnext : (mem u).next with
      | none => exact ⟨hm.update (by simp) (by simp), by simp, (hm u hu).1⟩
      | some q => exact ⟨hsucc hm hnext, fun he => (hm u hu).2 (hnext.trans he), hl.2⟩
  | some p =>
      have hp : p ≠ t := by
        intro he
        exact (hm u hu).1 (by rw [hprev, he])
      have hm₁ := hm.setNext hp (hm u hu).2
      dsimp only
      cases hnext : (setNext mem p (mem u).next u).next with
      | none => exact ⟨hm₁.update (by simp) (by simp), hl.1, (hm₁ u hu).1⟩
      | some q => exact ⟨hsucc hm₁ hnext, hl⟩

theorem avoid_walk (hm : NodesAvoid mem t) :
    ∀ (fuel : Nat) (o : Option Tid), o ≠ some t → t ∉ walk mem fuel o
  | 0, _, _ => by simp [walk]
  | _ + 1, none, _ => by simp [walk]
  | fuel + 1, some x, hx => by
      have hxt : x ≠ t := fun he => hx (by rw [he])
      rw [walk, List.mem_cons, not_or]
      exact ⟨hxt.symm, avoid_walk hm fuel _ (hm x hxt).2⟩

/-- A traversal never meets `t`. -/
theorem avoid_nodes (hm : NodesAvoid mem t) (hl : ListAvoid l t) : t ∉ listNodes mem l :=
  avoid_walk hm _ _ hl.1

/-! ## The kernel -/

/-- Nothing in the lists of the kernel points at `t`. -/
structure Apart (t : Tid) (k : Kernel) : Prop where
  sched : NodesAvoid k.schedNode t
  queues : ∀ p, ListAvoid (k.runQueues p) t
  sleep : NodesAvoid k.sleepNode t
  sleepers : ListAvoid k.sleepList t
  wait : NodesAvoid k.waitNode t

/-- From `k` to `k'`, `t` keeps its state, and the CPU, the idle thread and the scheduler lock
stay as they are. -/
structure Same (t : Tid) (k k' : Kernel) : Prop where
  state : (k'.thr t).state = (k.thr t).state
  idle : k'.idle = k.idle
  current : k'.current = k.current
  lock : k'.schedLockCount = k.schedLockCount

/-- A section that does not reach `t`. -/
def Spares (t : Tid) (k k' : Kernel) : Prop := Apart t k' ∧ Same t k k'

variable {k k' k'' : Kernel}

theorem Apart.refl (h : Apart t k) : Spares t k k := ⟨h, rfl, rfl, rfl, rfl⟩

theorem Spares.trans (h : Spares t k k') (h' : Spares t k' k'') : Spares t k k'' :=
  ⟨h'.1, h'.2.state.trans h.2.state, h'.2.idle.trans h.2.idle, h'.2.current.trans h.2.current,
    h'.2.lock.trans h.2.lock⟩

theorem Apart.modThread (h : Apart t k) (f : Thread → Thread)
    (hf : u = t → (f (k.thr t)).state = (k.thr t).state) : Spares t k (k.modThread u f) := by
  refine ⟨⟨h.sched, h.queues, h.sleep, h.sleepers, h.wait⟩, ?_, rfl, rfl, rfl⟩
  by_cases hu : u = t
  · subst hu
    rw [modThread_self]
    exact hf rfl
  · rw [modThread_of_ne _ _ _ (Ne.symm hu)]

theorem Apart.enqueue (h : Apart t k) (hu : u ≠ t) : Spares t k (k.schedEnqueue u) := by
  have hstep := avoid_append (h.sched) (h.queues (k.thr u).priority) hu
  refine ⟨⟨?_, ?_, h.sleep, h.sleepers, h.wait⟩, ?_, rfl, rfl, rfl⟩
  · simpa [schedEnqueue] using hstep.1
  · intro p
    simp only [schedEnqueue, modThread_self, modThread_schedNode, modThread_runQueues]
    rw [Function.update_apply]
    split
    · exact hstep.2
    · exact h.queues p
  · rw [schedEnqueue_thr, Function.update_of_ne hu.symm]

theorem Apart.dequeue (h : Apart t k) (hu : u ≠ t) : Spares t k (k.schedDequeue u) := by
  have hstep := avoid_remove (h.sched) (h.queues (k.thr u).priority) hu
  refine ⟨⟨hstep.1, ?_, h.sleep, h.sleepers, h.wait⟩, rfl, rfl, rfl, rfl⟩
  intro p
  simp only [schedDequeue]
  rw [Function.update_apply]
  split
  · exact hstep.2
  · exact h.queues p

theorem Apart.requeue (h : Apart t k) (hu : u ≠ t) :
    Spares t k ((k.schedDequeue u).schedEnqueue u) :=
  (h.dequeue hu).trans ((h.dequeue hu).1.enqueue hu)

theorem Apart.sleepRemove (h : Apart t k) (hu : u ≠ t) : Spares t k (k.sleepRemove u) := by
  have hstep := avoid_remove h.sleep h.sleepers hu
  exact ⟨⟨h.sched, h.queues, hstep.1, hstep.2, h.wait⟩, rfl, rfl, rfl, rfl⟩

theorem Apart.schedSleep (h : Apart t k) (hu : u ≠ t) (expiry : UInt32) :
    Spares t k (k.schedSleep u expiry) := by
  have hmod := h.modThread (u := u)
    (fun th => { th with timeout := expiry, state := .sleeping }) (fun he => absurd he hu)
  have hsame : Same t k (k.schedSleep u expiry) := ⟨hmod.2.state, rfl, rfl, rfl⟩
  suffices hstep : NodesAvoid (k.schedSleep u expiry).sleepNode t
      ∧ ListAvoid (k.schedSleep u expiry).sleepList t from
    ⟨⟨h.sched, h.queues, hstep.1, hstep.2, h.wait⟩, hsame⟩
  unfold Kernel.schedSleep
  simp only [modThread_sleepNode, modThread_sleepList]
  split
  · rename_i x hfind
    have hx : x ≠ t := by
      intro he
      exact avoid_nodes h.sleep h.sleepers (he ▸ List.mem_of_find?_eq_some hfind)
    split
    · rename_i p hp
      have hpt : p ≠ t := by
        intro he
        exact (h.sleep x hx).1 (by rw [hp, he])
      exact avoid_insertAfter h.sleep h.sleepers hu hpt
    · exact avoid_prepend h.sleep h.sleepers hu
  · exact avoid_append h.sleep h.sleepers hu

theorem Apart.wakeLoop (now : UInt32) : ∀ (fuel : Nat) {k : Kernel} {o : Option Tid},
    Apart t k → o ≠ some t → Spares t k (Kernel.wakeLoop now fuel k o)
  | 0, _, _, h, _ => h.refl
  | _ + 1, _, none, h, _ => h.refl
  | fuel + 1, k, some x, h, hx => by
      have hxt : x ≠ t := fun he => hx (by rw [he])
      rw [Kernel.wakeLoop]
      split
      · have hone := (h.sleepRemove hxt).trans ((h.sleepRemove hxt).1.enqueue hxt)
        exact hone.trans (Apart.wakeLoop now fuel hone.1 (h.sleep x hxt).2)
      · exact h.refl

/-- The time slice rotates the running thread only. -/
theorem Apart.timeslice (h : Apart t k) (cfg : Config) (hrun : (k.thr t).state ≠ .running) :
    Spares t k (k.schedTimesliceTick cfg) := by
  unfold schedTimesliceTick
  split
  · exact h.refl
  · split
    · exact h.refl
    · rename_i cur _
      split
      · exact h.refl
      · rename_i hcur
        have hct : cur ≠ t := by
          intro he
          rw [he] at hcur
          exact hcur hrun
        have hslice : ∀ n, Spares t k { k with sliceLeft := n } := fun n =>
          ⟨⟨h.sched, h.queues, h.sleep, h.sleepers, h.wait⟩, rfl, rfl, rfl, rfl⟩
        split
        · exact hslice _
        · dsimp only
          split
          · exact (hslice _).trans ((hslice _).1.requeue hct)
          · exact hslice _

/-- The scheduler does not choose `t`. -/
theorem Apart.next (h : Apart t k) (hidle : k.idle ≠ some t) : k.schedNextThread ≠ some t := by
  unfold schedNextThread
  split
  · exact hidle
  · rename_i p _
    split
    · exact hidle
    · rename_i x hx
      intro he
      exact (h.queues p).1 (hx.trans he)

/-- Rescheduling takes the CPU away from `t`, unless the scheduler is locked. -/
theorem Apart.reschedule (h : Apart t k) (hidle : k.idle ≠ some t) (hsome : k.idle ≠ none)
    (hna : ¬ (k.thr t).state.Active) :
    Apart t k.schedReschedule ∧ (k.schedReschedule.thr t).state = (k.thr t).state
      ∧ k.schedReschedule.idle = k.idle
      ∧ k.schedReschedule.schedLockCount = k.schedLockCount
      ∧ (k.schedReschedule.current = some t → k.current = some t ∧ k.schedLockCount ≠ 0) := by
  unfold schedReschedule
  split
  · rename_i hlock
    exact ⟨h, rfl, rfl, rfl, fun hc => ⟨hc, by omega⟩⟩
  · have hnext := h.next hidle
    split
    · -- with an idle thread registered there is always a next thread
      rename_i hnone
      exfalso
      unfold schedNextThread at hnone
      split at hnone
      · exact hsome hnone
      · split at hnone
        · exact hsome hnone
        · exact absurd hnone (by simp)
    · rename_i x hx
      have hxt : x ≠ t := by
        intro he
        exact hnext (hx.trans (by rw [he]))
      split
      · rename_i hcur
        refine ⟨h, rfl, rfl, rfl, fun hc => ?_⟩
        exact absurd (Option.some.inj (hcur.symm.trans hc)) hxt
      · obtain ⟨h1, h2, -, h4, h5, h6, h7, h8, -, h10⟩ := switchTo_frame k x
        refine ⟨⟨by rw [h1]; exact h.sched, by rw [h2]; exact h.queues, by rw [h4]; exact h.sleep,
          by rw [h5]; exact h.sleepers, by rw [h6]; exact h.wait⟩, ?_, h7, h8, ?_⟩
        · -- `t` is not the next thread, and was not running
          obtain ⟨st, hst, hcase⟩ := switchTo_thr k x t
          rw [hst]
          rcases hcase with ⟨hold, -⟩ | ⟨-, -, heq⟩
          · rcases hold with hxt' | hact
            · exact absurd hxt'.symm hxt
            · exact absurd hact hna
          · exact heq
        · intro hc
          rw [h10] at hc
          exact absurd (Option.some.inj hc) hxt

/-! ## Blocking and waking -/

theorem Apart.block (h : Apart t k) (hu : u ≠ t) (timeout : UInt32) :
    Spares t k (k.block u timeout) :=
  (h.dequeue hu).trans ((h.dequeue hu).1.modThread _ fun he => absurd he hu)

theorem Apart.waitAppend (h : Apart t k) (hl : ListAvoid l t) (hu : u ≠ t) :
    Spares t k (k.waitAppend l u).1 ∧ ListAvoid (k.waitAppend l u).2 t := by
  have hstep := avoid_append h.wait hl hu
  exact ⟨⟨⟨h.sched, h.queues, h.sleep, h.sleepers, hstep.1⟩, rfl, rfl, rfl, rfl⟩, hstep.2⟩

/-- The caller blocks at the end of a wait list. -/
theorem Apart.blockOn (h : Apart t k) (hl : ListAvoid l t) (hu : u ≠ t) (timeout : UInt32) :
    Spares t k ((k.block u timeout).waitAppend l u).1
      ∧ ListAvoid ((k.block u timeout).waitAppend l u).2 t := by
  have hb := h.block hu timeout
  have hw := hb.1.waitAppend hl hu
  exact ⟨hb.trans hw.1, hw.2⟩

theorem Apart.waitRemove (h : Apart t k) (hl : ListAvoid l t) (hu : u ≠ t) :
    Spares t k (k.waitRemove l u).1 ∧ ListAvoid (k.waitRemove l u).2 t := by
  have hstep := avoid_remove h.wait hl hu
  exact ⟨⟨⟨h.sched, h.queues, h.sleep, h.sleepers, hstep.1⟩, rfl, rfl, rfl, rfl⟩, hstep.2⟩

theorem Apart.wakeOne (h : Apart t k) (hl : ListAvoid l t) (hu : u ≠ t) :
    Spares t k ((k.waitRemove l u).1.schedEnqueue u) ∧ ListAvoid (k.waitRemove l u).2 t := by
  have hw := h.waitRemove hl hu
  exact ⟨hw.1.trans (hw.1.1.enqueue hu), hw.2⟩

theorem Apart.wakeHead (h : Apart t k) (hl : ListAvoid l t) :
    Spares t k (k.wakeHead l).1 ∧ ListAvoid (k.wakeHead l).2 t := by
  unfold Kernel.wakeHead Kernel.waitGetHead
  cases hhead : l.head with
  | none => exact ⟨h.refl, hl⟩
  | some x =>
      have hx : x ≠ t := by
        intro he
        exact hl.1 (by rw [hhead, he])
      exact h.wakeOne hl hx

theorem Apart.wakeAll : ∀ (fuel : Nat) {k : Kernel} {l : VList Tid}, Apart t k → ListAvoid l t →
    Spares t k (Kernel.wakeAll fuel k l).1 ∧ ListAvoid (Kernel.wakeAll fuel k l).2 t
  | 0, _, _, h, hl => ⟨h.refl, hl⟩
  | fuel + 1, k, l, h, hl => by
      rw [Kernel.wakeAll]
      unfold Kernel.waitGetHead
      cases hhead : l.head with
      | none => exact ⟨h.refl, hl⟩
      | some x =>
          have hx : x ≠ t := by
            intro he
            exact hl.1 (by rw [hhead, he])
          have hone := h.wakeOne hl hx
          have hrest := Apart.wakeAll fuel hone.1.1 hone.2
          exact ⟨hone.1.trans hrest.1, hrest.2⟩

end VibeRtos
