import VibeRtos.Kernel.MutexSystem

/-!
# What the sections of a mutex do

One lemma each for locking and unlocking, with everything a section can do: the
branch it takes, the control blocks it changes, and the wait list it leaves.
-/

namespace VibeRtos

open Links Kernel

variable {k k' : Kernel} {m m' : Mutex} {self : Tid} {xs : List Tid}

/-! ## Priorities -/

theorem Thread.eta_state (th : Thread) {st : ThreadState} (h : th.state = st) :
    { th with state := st } = th := by
  subst h
  rfl

/-- Boosting changes the owner's priority, upwards, and nothing else in any control block. -/
theorem mutexBoost_thr (k : Kernel) (self owner : Tid) : (mutexBoost k self owner).thr =
    Function.update k.thr owner { k.thr owner with
      priority := max (k.thr owner).priority (k.thr self).priority } := by
  unfold mutexBoost
  split
  · rename_i hlt
    rw [max_eq_right (le_of_lt hlt)]
    dsimp only
    split
    · rename_i hready
      rw [schedEnqueue_thr, schedDequeue_thr, Thread.eta_state _ hready, Function.update_eq_self]
      rfl
    · rfl
  · rename_i hnot
    rw [max_eq_left (not_lt.mp hnot)]
    exact (Function.update_eq_self owner k.thr).symm

theorem mutexBoost_frame (k : Kernel) (self owner : Tid) :
    (mutexBoost k self owner).waitNode = k.waitNode
      ∧ (mutexBoost k self owner).current = k.current := by
  unfold mutexBoost
  split
  · dsimp only
    split <;> exact ⟨rfl, rfl⟩
  · exact ⟨rfl, rfl⟩

theorem mutexRestore_thr (k : Kernel) (self : Tid) (prio : Prio) :
    (mutexRestore k self prio).thr
      = Function.update k.thr self { k.thr self with priority := prio } := by
  unfold mutexRestore
  dsimp only
  split
  · rename_i hready
    rw [schedEnqueue_thr, schedDequeue_thr, Thread.eta_state _ hready, Function.update_eq_self]
    rfl
  · rfl

theorem mutexRestore_frame (k : Kernel) (self : Tid) (prio : Prio) :
    (mutexRestore k self prio).waitNode = k.waitNode
      ∧ (mutexRestore k self prio).current = k.current := by
  unfold mutexRestore
  dsimp only
  split <;> exact ⟨rfl, rfl⟩

/-! ## The wait list -/

/-- The caller is linked somewhere in the list, and only the list's own nodes change. -/
theorem mutexQueue_rep {l l' : VList Tid} (h : mutexQueue k l self = some (k', l'))
    (hrep : ListRep k.waitNode l xs) (hself : self ∉ xs) :
    k'.thr = k.thr ∧ k'.current = k.current
      ∧ (∃ pre post, xs = pre ++ post ∧ ListRep k'.waitNode l' (pre ++ self :: post))
      ∧ ∀ x, x ∉ xs → x ≠ self → k'.waitNode x = k.waitNode x := by
  have hnodes : listNodes k.waitNode l = xs := hrep.nodes (length_le_walkBound hrep.nodup)
  unfold mutexQueue at h
  rw [hnodes] at h
  split at h
  · rename_i t hfind
    obtain ⟨-, pre, post, hxs, -⟩ := List.find?_eq_some_iff_append.mp hfind
    subst hxs
    have hat : k.waitNode t = ⟨pre.getLast?, post.head?⟩ := by simpa using hrep.chain.at
    rw [hat] at h
    cases hlast : pre.getLast? with
    | none =>
        -- the anchor before the head is `NULL`
        rw [hlast] at h
        exact absurd h (by simp)
    | some p =>
        rw [hlast] at h
        obtain ⟨init, rfl⟩ := List.getLast?_eq_some_iff.mp hlast
        have hrep' : ListRep k.waitNode l (init ++ p :: t :: post) := by simpa using hrep
        have hself' : self ∉ init ++ p :: t :: post := by simpa using hself
        obtain ⟨rfl, rfl⟩ := Prod.mk.inj (Option.some.inj h)
        refine ⟨rfl, rfl, ⟨init ++ [p], t :: post, rfl, ?_⟩, ?_⟩
        · have hins := hrep'.insertAfter hself'
          simpa using hins
        · intro x hx hxs
          exact hrep'.insertAfter_frame hself' (by simpa using hx) hxs
  · obtain ⟨rfl, rfl⟩ := Prod.mk.inj (Option.some.inj h)
    refine ⟨rfl, rfl, ⟨xs, [], by simp, hrep.append hself⟩, ?_⟩
    intro x hx hxs
    exact hrep.append_frame hx hxs

/-! ## Locking -/

/-- The control blocks once `self` is blocked behind `owner`. -/
def blockedThr (k : Kernel) (self owner : Tid) (timeout : UInt32) : Tid → Thread :=
  Function.update
    (Function.update k.thr owner { k.thr owner with
      priority := max (k.thr owner).priority (k.thr self).priority })
    self { k.thr self with state := .waiting, timeout := timeout }

/-- The four ways a locking section goes. -/
theorem mutexLock_cases {timeout : UInt32} {f : Flow Err} (hrep : ListRep k.waitNode m.waitList xs)
    (hself : self ∉ xs) (h : mutexLock k m self timeout = some (k', m', f)) :
    (m.owner = some self ∧ k' = k ∧ m' = { m with lockCount := m.lockCount + 1 } ∧ f = .done .ok)
    ∨ (m.owner = none ∧ k' = k ∧ m' = { m with
          owner := some self, lockCount := 1, ownerOrigPrio := (k.thr self).priority }
        ∧ f = .done .ok)
    ∨ (∃ owner, m.owner = some owner ∧ owner ≠ self ∧ timeout = noWait ∧ k' = k ∧ m' = m
        ∧ f = .done .ebusy)
    ∨ (∃ owner, m.owner = some owner ∧ owner ≠ self ∧ timeout ≠ noWait ∧ f = .block
        ∧ (∃ stop, k'.thr = blockedThr k self owner stop) ∧ k'.current = k.current
        ∧ (∃ l pre post, m' = { m with waitList := l } ∧ xs = pre ++ post
            ∧ ListRep k'.waitNode l (pre ++ self :: post))
        ∧ ∀ x, x ∉ xs → x ≠ self → k'.waitNode x = k.waitNode x) := by
  unfold mutexLock at h
  split at h
  · rename_i hown
    obtain ⟨rfl, rfl, rfl⟩ := by simpa using h
    exact Or.inl ⟨hown, rfl, rfl, rfl⟩
  · rename_i hown
    split at h
    · rename_i hnone
      obtain ⟨rfl, rfl, rfl⟩ := by simpa using h
      exact Or.inr (Or.inl ⟨hnone, rfl, rfl, rfl⟩)
    · rename_i owner howner
      have hne : owner ≠ self := by
        intro he
        exact hown (he ▸ howner)
      split at h
      · rename_i hnowait
        obtain ⟨rfl, rfl, rfl⟩ := by simpa using h
        exact Or.inr (Or.inr (Or.inl ⟨owner, howner, hne, hnowait, rfl, rfl, rfl⟩))
      · rename_i hwait
        obtain ⟨⟨k₁, l⟩, hq, heq⟩ := Option.map_eq_some_iff.mp h
        obtain ⟨rfl, rfl, rfl⟩ := by simpa using heq
        obtain ⟨hbn, hbc⟩ := mutexBoost_frame k self owner
        have hrep' : ListRep ((mutexBoost k self owner).block self
            ((mutexBoost k self owner).deadline timeout)).waitNode m.waitList xs := by
          show ListRep (mutexBoost k self owner).waitNode m.waitList xs
          rw [hbn]
          exact hrep
        obtain ⟨hthr, hcur, ⟨pre, post, hxs, hnew⟩, hframe⟩ := mutexQueue_rep hq hrep' hself
        refine Or.inr (Or.inr (Or.inr ⟨owner, howner, hne, hwait, rfl,
          ⟨(mutexBoost k self owner).deadline timeout, ?_⟩, ?_,
            ⟨l, pre, post, rfl, hxs, hnew⟩, ?_⟩))
        · rw [hthr]
          have hthr' : (mutexBoost k self owner).thr self = k.thr self := by
            rw [mutexBoost_thr, Function.update_of_ne hne.symm]
          simp only [Kernel.block, Kernel.modThread, schedDequeue_thr, hthr', mutexBoost_thr]
          rfl
        · rw [hcur]
          exact hbc
        · intro x hx hxs'
          rw [hframe x hx hxs']
          show (mutexBoost k self owner).waitNode x = _
          rw [hbn]

/-! ## Unlocking -/

/-- The four ways of unlocking. -/
theorem mutexUnlock_cases (hrep : ListRep k.waitNode m.waitList xs) :
    (m.owner ≠ some self ∧ mutexUnlock k m self = (k, m, .done .eperm))
    ∨ (m.owner = some self ∧ m.lockCount - 1 > 0
        ∧ mutexUnlock k m self = (k, { m with lockCount := m.lockCount - 1 }, .done .ok))
    ∨ (m.owner = some self ∧ m.lockCount - 1 = 0 ∧ xs = []
        ∧ ∃ k', mutexUnlock k m self = (k', { m with owner := none, lockCount := 0 }, .resched .ok)
          ∧ k'.thr = Function.update k.thr self { k.thr self with priority := m.ownerOrigPrio }
          ∧ k'.current = k.current ∧ k'.waitNode = k.waitNode)
    ∨ (m.owner = some self ∧ m.lockCount - 1 = 0 ∧ ∃ next rest, xs = next :: rest
        ∧ ∃ k' l th, mutexUnlock k m self = (k', { m with
              owner := some next, lockCount := 1, ownerOrigPrio := (th next).basePriority,
              waitList := l }, .resched .ok)
          ∧ th = Function.update k.thr self { k.thr self with priority := m.ownerOrigPrio }
          ∧ k'.thr = Function.update th next { th next with state := .ready }
          ∧ k'.current = k.current ∧ ListRep k'.waitNode l rest
          ∧ ∀ x, x ∉ xs → k'.waitNode x = k.waitNode x) := by
  unfold mutexUnlock
  split
  · rename_i hown
    exact Or.inl ⟨hown, rfl⟩
  · rename_i hown
    have howner : m.owner = some self := not_not.mp hown
    dsimp only
    split
    · rename_i hmore
      exact Or.inr (Or.inl ⟨howner, hmore, rfl⟩)
    · rename_i hlast
      have hzero : m.lockCount - 1 = 0 := by
        by_contra hne
        exact hlast (UInt32.pos_iff_ne_zero.mpr hne)
      obtain ⟨hn, hc⟩ := mutexRestore_frame k self m.ownerOrigPrio
      have hthr := mutexRestore_thr k self m.ownerOrigPrio
      cases xs with
      | nil =>
          have hhead : m.waitList.head = none := hrep.head
          refine Or.inr (Or.inr (Or.inl ⟨howner, hzero, rfl, ?_⟩))
          refine ⟨mutexRestore k self m.ownerOrigPrio, ?_, hthr, hc, hn⟩
          simp [Kernel.waitGetHead, hhead]
      | cons next rest =>
          have hhead : m.waitList.head = some next := hrep.head
          have hrep' : ListRep (mutexRestore k self m.ownerOrigPrio).waitNode m.waitList
              ([] ++ next :: rest) := by
            rw [hn]
            exact hrep
          refine Or.inr (Or.inr (Or.inr ⟨howner, hzero, next, rest, rfl, ?_⟩))
          refine ⟨((mutexRestore k self m.ownerOrigPrio).waitRemove m.waitList next).1.schedEnqueue
            next, (listRemove (mutexRestore k self m.ownerOrigPrio).waitNode m.waitList next).2,
            _, ?_, hthr, ?_, hc, hrep'.remove, ?_⟩
          · simp [Kernel.waitGetHead, hhead, Kernel.waitRemove]
          · rfl
          · intro x hx
            have hfr := hrep'.remove_frame (n := next) (by simp) (x := x) (by simpa using hx)
            rw [← hn]
            exact hfr

end VibeRtos
