import VibeRtos.Lib.Runs
import VibeRtos.Proof.MutexWaits

/-!
# Mutexes are owned by one thread at a time

The count of a mutex is what its owner has locked and not yet unlocked. Ownership
passes from the unlocker to the first waiter while that waiter is still inside its
lock, so the count starts at the hand-off.
-/

namespace VibeRtos

open Links Kernel MutexSys Runs

/-- Owners and counts agree. -/
structure Counted (s : MutexSys) : Prop where
  count : ∀ m, (s.mutex m).lockCount = 0 ↔ (s.mutex m).owner = none
  balance : ∀ t m, s.locks t m
    = s.unlocks t m + if (s.mutex m).owner = some t then (s.mutex m).lockCount.toNat else 0

theorem bump_self (f : Tid → Nat → Nat) (t : Tid) (m : Nat) : bump f t m t m = f t m + 1 := by
  simp [bump]

theorem bump_of_ne {f : Tid → Nat → Nat} {t u : Tid} {m n : Nat} (h : u ≠ t ∨ n ≠ m) :
    bump f t m u n = f u n := by
  unfold bump
  rw [if_neg]
  intro hboth
  exact h.elim (fun hne => hne hboth.1) (fun hne => hne hboth.2)

variable {s s' : MutexSys} {w w' : Nat → List Tid}

/-- The counts only have to be checked at the mutex that changes. -/
theorem Counted.update (h : Counted s) {m : Nat} {mx : Mutex}
    (hmutex : s'.mutex = Function.update s.mutex m mx)
    (hcount : mx.lockCount = 0 ↔ mx.owner = none)
    (hothers : ∀ t n, n ≠ m → s'.locks t n = s.locks t n ∧ s'.unlocks t n = s.unlocks t n)
    (hbalance : ∀ t, s'.locks t m
      = s'.unlocks t m + if mx.owner = some t then mx.lockCount.toNat else 0) : Counted s' where
  count n := by
    rw [hmutex, Function.update_apply]
    split
    · exact hcount
    · exact h.count n
  balance t n := by
    rw [hmutex, Function.update_apply]
    split
    · rename_i hn
      rw [hn]
      exact hbalance t
    · rename_i hn
      obtain ⟨hl, hu⟩ := hothers t n hn
      rw [hl, hu]
      exact h.balance t n

theorem Counted.step (h : Counted s) {l : Label} (hc : Change s w l s' w') (hd : s.Shallow l) :
    Counted s' := by
  cases hc with
  | still hmutex hlocks hunlocks _ _ _ =>
      exact ⟨by rw [hmutex]; exact h.count, by rw [hmutex, hlocks, hunlocks]; exact h.balance⟩
  | relock self m timeout hlabel hself howner hmutex hlocks hunlocks _ =>
      have hdepth : (s.mutex m).lockCount.toNat + 1 < 2 ^ 32 := by
        rcases hlabel with rfl | rfl <;> exact hd (howner.trans hself.symm)
      have hsucc : ((s.mutex m).lockCount + 1).toNat = (s.mutex m).lockCount.toNat + 1 := by
        rw [UInt32.toNat_add, UInt32.toNat_one, Nat.mod_eq_of_lt hdepth]
      refine h.update hmutex ?_ ?_ ?_
      · refine ⟨fun hz => ?_, fun hnone => ?_⟩
        · have hz' := congrArg UInt32.toNat hz
          dsimp only at hz'
          rw [hsucc] at hz'
          exact absurd hz' (by simp)
        · dsimp only at hnone
          rw [howner] at hnone
          exact absurd hnone (by simp)
      · intro t n hn
        rw [hlocks, hunlocks, bump_of_ne (Or.inr hn)]
        exact ⟨rfl, rfl⟩
      · intro t
        dsimp only
        have hb := h.balance t m
        rw [hlocks, hunlocks, howner] at *
        by_cases ht : t = self
        · subst ht
          rw [if_pos rfl] at hb ⊢
          rw [bump_self, hsucc]
          omega
        · rw [bump_of_ne (Or.inl ht), hb, if_neg (fun he => ht (Option.some.inj he).symm),
            if_neg (fun he => ht (Option.some.inj he).symm)]
  | acquire self m timeout _ _ howner hmutex hlocks hunlocks _ =>
      refine h.update hmutex (by simp) ?_ ?_
      · intro t n hn
        rw [hlocks, hunlocks, bump_of_ne (Or.inr hn)]
        exact ⟨rfl, rfl⟩
      · intro t
        have hb := h.balance t m
        rw [howner] at hb
        rw [hlocks, hunlocks]
        by_cases ht : t = self
        · subst ht
          rw [bump_self, if_pos rfl]
          simpa using hb
        · rw [bump_of_ne (Or.inl ht), if_neg (fun he => ht (Option.some.inj he).symm)]
          simpa using hb
  | block self owner m timeout pre post _ _ howner _ _ _ hmutex hlocks hunlocks _ =>
      obtain ⟨list, hmutex⟩ := hmutex
      refine h.update hmutex (h.count m) ?_ ?_
      · intro t n _
        rw [hlocks, hunlocks]
        exact ⟨rfl, rfl⟩
      · intro t
        rw [hlocks, hunlocks]
        exact h.balance t m
  | release self m _ howner hmore hmutex hlocks hunlocks _ =>
      have hpos : 1 ≤ (s.mutex m).lockCount.toNat := by
        refine Nat.one_le_iff_ne_zero.mpr fun hz => ?_
        have hz' : (s.mutex m).lockCount = 0 := UInt32.toNat_inj.mp hz
        rw [h.count m, howner] at hz'
        exact absurd hz' (by simp)
      have hle : (1 : UInt32) ≤ (s.mutex m).lockCount := UInt32.le_iff_toNat_le.mpr hpos
      have hpred : ((s.mutex m).lockCount - 1).toNat = (s.mutex m).lockCount.toNat - 1 := by
        rw [UInt32.toNat_sub_of_le _ _ hle, UInt32.toNat_one]
      refine h.update hmutex ?_ ?_ ?_
      · refine ⟨fun hz => ?_, fun hnone => ?_⟩
        · exact absurd hz (UInt32.pos_iff_ne_zero.mp hmore)
        · dsimp only at hnone
          rw [howner] at hnone
          exact absurd hnone (by simp)
      · intro t n hn
        rw [hlocks, hunlocks, bump_of_ne (Or.inr hn)]
        exact ⟨rfl, rfl⟩
      · intro t
        dsimp only
        have hb := h.balance t m
        rw [hlocks, hunlocks, howner] at *
        by_cases ht : t = self
        · subst ht
          rw [if_pos rfl] at hb ⊢
          rw [bump_self, hpred]
          omega
        · rw [bump_of_ne (Or.inl ht), hb, if_neg (fun he => ht (Option.some.inj he).symm),
            if_neg (fun he => ht (Option.some.inj he).symm)]
  | free self m _ _ howner hlast _ hmutex hlocks hunlocks _ =>
      refine h.update hmutex (by simp) ?_ ?_
      · intro t n hn
        rw [hlocks, hunlocks, bump_of_ne (Or.inr hn)]
        exact ⟨rfl, rfl⟩
      · intro t
        have hb := h.balance t m
        have hone : (s.mutex m).lockCount = 1 := by
          have hadd := congrArg (· + 1) hlast
          simpa using hadd
        rw [howner, hone] at hb
        rw [hlocks, hunlocks]
        by_cases ht : t = self
        · subst ht
          rw [bump_self, hb]
          simp
        · rw [bump_of_ne (Or.inl ht), hb, if_neg (fun he => ht (Option.some.inj he).symm)]
          simp
  | handOff self next rest m hself hfar howner hlast hw hmutex hlocks hunlocks _ =>
      obtain ⟨list, hmutex⟩ := hmutex
      have hns : next ≠ self := by
        intro he
        refine hfar m ?_
        rw [hw, he]
        exact List.mem_cons_self
      refine h.update hmutex (by simp) ?_ ?_
      · intro t n hn
        rw [hlocks, hunlocks, bump_of_ne (Or.inr hn), bump_of_ne (Or.inr hn)]
        exact ⟨rfl, rfl⟩
      · intro t
        have hb := h.balance t m
        have hone : (s.mutex m).lockCount = 1 := by
          have hadd := congrArg (· + 1) hlast
          simpa using hadd
        rw [howner, hone] at hb
        rw [hlocks, hunlocks]
        by_cases ht : t = self
        · subst ht
          rw [bump_self, bump_of_ne (Or.inl hns.symm), hb,
            if_neg (fun he => hns (Option.some.inj he))]
          simp
        · rw [bump_of_ne (f := s.unlocks) (Or.inl ht)]
          rw [if_neg (fun he => ht (Option.some.inj he).symm)] at hb
          by_cases htn : t = next
          · subst htn
            rw [bump_self, hb, if_pos rfl]
            simp
          · rw [bump_of_ne (Or.inl htn), hb, if_neg (fun he => htn (Option.some.inj he).symm)]

theorem Counted.initial (h : s.Initial) : Counted s where
  count m := by
    rw [h.mutex m]
    simp [mutexInit]
  balance t m := by
    rw [h.locks, h.unlocks, h.mutex m]
    simp [mutexInit]

/-- Wait lists and counts hold together along every run. -/
theorem counted_run {labels : List Label} (h0 : s.Initial)
    (hd : Along MutexSys.step Shallow s labels) (hr : run MutexSys.step s labels = some s') :
    (∃ w, Waits s' w) ∧ Counted s' := by
  have hstep : ∀ (s : MutexSys) (l : Label) (s' : MutexSys),
      (∃ w, Waits s w) ∧ Counted s → s.Shallow l → s.step l = some s' →
        (∃ w, Waits s' w) ∧ Counted s' := by
    intro s l s' h hd hs
    obtain ⟨⟨w, hw⟩, hc⟩ := h
    obtain ⟨w', hw', hchange⟩ := hw.step hs
    exact ⟨⟨w', hw'⟩, hc.step hchange hd⟩
  exact run_guarded hstep ⟨⟨_, Waits.initial h0⟩, Counted.initial h0⟩ hd hr

/-- A lock that returns at once with `VIBE_OK` makes the caller the owner. -/
theorem mutexLock_ok {k k' : Kernel} {m m' : Mutex} {self : Tid} {timeout : UInt32}
    (h : mutexLock k m self timeout = some (k', m', .done .ok)) : m'.owner = some self := by
  unfold mutexLock at h
  split at h
  · rename_i hown
    obtain ⟨-, rfl⟩ := by simpa using h
    exact hown
  · split at h
    · obtain ⟨-, rfl⟩ := by simpa using h
      rfl
    · split at h
      · exact absurd h (by simp)
      · obtain ⟨r, -, hr⟩ := Option.map_eq_some_iff.mp h
        exact absurd hr (by simp)

/--
**A mutex is owned by one thread at a time.**

In every state of every run: the count is zero exactly when nobody owns the mutex,
and is what the owner has locked and not unlocked; a lock says `VIBE_OK` only to the
owner, at once or after blocking, and a blocked caller that gets to run again is the
owner; only the owner can unlock; and the wait list holds, once each, threads that
are WAITING for this mutex alone and do not own it, and is empty while it is free.
-/
theorem mutex_ownership {labels : List Label} (h0 : s.Initial)
    (hd : Along MutexSys.step Shallow s labels) (hr : run MutexSys.step s labels = some s')
    (m : Nat) :
    let mx := s'.mutex m
    (mx.lockCount = 0 ↔ mx.owner = none)
      ∧ (∀ t, mx.owner = some t → s'.locks t m = s'.unlocks t m + mx.lockCount.toNat)
      ∧ (∀ t, mx.owner ≠ some t → s'.locks t m = s'.unlocks t m)
      ∧ (∀ t timeout k' mx', mutexLock s'.k mx t timeout = some (k', mx', .done .ok) →
          mx'.owner = some t)
      ∧ (∀ k' mx' t, mutexTrylock s'.k mx t = some (k', mx', .done .ok) → mx'.owner = some t)
      ∧ (∀ t, mutexLockWake s'.k mx t = .ok → mx.owner = some t)
      ∧ (∀ t, s'.pc t = .waiting m → (s'.k.thr t).state.Active → mx.owner = some t)
      ∧ (∀ t, mx.owner ≠ some t → mutexUnlock s'.k mx t = (s'.k, mx, .done .eperm))
      ∧ ListRep s'.k.waitNode mx.waitList (s'.waiters m)
      ∧ (s'.waiters m ≠ [] → mx.owner ≠ none)
      ∧ ∀ t ∈ s'.waiters m, (s'.k.thr t).state = .waiting ∧ mx.owner ≠ some t
          ∧ ∀ n, t ∈ s'.waiters n → n = m := by
  obtain ⟨⟨w, hw⟩, hc⟩ := counted_run h0 hd hr
  have hwaiters := hw.waiters
  refine ⟨hc.count m, ?_, ?_, ?_, ?_, ?_, ?_, ?_, ?_, ?_, ?_⟩
  · intro t ht
    rw [hc.balance t m, if_pos ht]
  · intro t ht
    rw [hc.balance t m, if_neg ht]
    rfl
  · intro t timeout k' mx' hlock
    exact mutexLock_ok hlock
  · intro k' mx' t hlock
    exact mutexLock_ok hlock
  · intro t hwake
    unfold mutexLockWake at hwake
    split at hwake
    · rename_i hboth
      exact hboth.2
    · exact absurd hwake (by simp)
  · intro t ht hact
    rcases hw.handed ht with hin | hown
    · exact absurd hin (hw.not_mem hact m)
    · exact hown
  · intro t ht
    unfold mutexUnlock
    rw [if_pos ht]
  · rw [hwaiters m]
    exact hw.rep m
  · intro hne hnone
    rw [hwaiters m] at hne
    exact hne (hw.free hnone)
  · intro t ht
    rw [hwaiters m] at ht
    refine ⟨(hw.waiting ht).1, hw.notOwner ht, fun n hn => ?_⟩
    rw [hwaiters n] at hn
    exact hw.once hn ht

/-- Threads 1 and 2 contend for mutex 0: thread 2 is given it while it is blocked. -/
theorem mutex_ownership_handoff :
    let k := ((Kernel.bss ⟨1000, 10, true⟩ (fun _ => threadDefine [] 512 0 0 0 5) none).schedEnqueue
      1).schedEnqueue 2
    let s : MutexSys := ⟨k, fun _ => mutexInit, fun _ => .run, fun _ _ => 0, fun _ _ => 0⟩
    ∃ s', run MutexSys.step s [.dispatch 1, .lock 0 waitForever, .dispatch 2, .lock 0 waitForever,
        .dispatch 1, .unlock 0] = some s'
      ∧ (s'.mutex 0).owner = some 2
      ∧ s'.locks 2 0 = s'.unlocks 2 0 + (s'.mutex 0).lockCount.toNat := by
  intro k s
  obtain ⟨s', hrun⟩ : ∃ s', run MutexSys.step s [.dispatch 1, .lock 0 waitForever, .dispatch 2,
      .lock 0 waitForever, .dispatch 1, .unlock 0] = some s' :=
    Option.isSome_iff_exists.mp (by decide +kernel)
  have howner : (s'.mutex 0).owner = some 2 := by
    have hmap : (run MutexSys.step s [.dispatch 1, .lock 0 waitForever, .dispatch 2,
        .lock 0 waitForever, .dispatch 1, .unlock 0]).map (fun s => (s.mutex 0).owner)
        = some (some 2) := by decide +kernel
    rw [hrun] at hmap
    exact Option.some.inj hmap
  refine ⟨s', hrun, howner, ?_⟩
  have hinit : s.Initial := ⟨fun _ => rfl, fun _ => rfl, fun _ _ => rfl, fun _ _ => rfl⟩
  have hshallow : Along MutexSys.step Shallow s [.dispatch 1, .lock 0 waitForever, .dispatch 2,
      .lock 0 waitForever, .dispatch 1, .unlock 0] := by decide +kernel
  exact (mutex_ownership hinit hshallow hrun 0).2.1 2 howner

end VibeRtos
