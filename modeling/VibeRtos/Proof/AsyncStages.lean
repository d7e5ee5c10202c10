import VibeRtos.Lib.CoroutineTriples
import VibeRtos.Proof.AsyncJobs
import VibeRtos.Proof.JobTick

/-!
# Coroutines that take turns

The jobs in the first `n` slots, the more urgent ones first, each of which always returns
`ASYNC_BLOCKED`. In the first tick phase 1 calls them by priority and phase 2 by slot, from then on
phase 2 alone does: in any case one after the other, in the same order. So a stage may rely on what
the one before guarantees, and the last one hands over to the first.
-/

namespace VibeRtos

open Coroutine Async JobSched

/-- The first of the slots that are left is called next. -/
theorem JobSched.scan_first {N : Nat} {s : JobSched N} {ran : BitVec 64} {i j : Fin N}
    (h : s.scan ran = some i) (hran : ran.getLsbD j = false) (hj : (s.jobs j).state = .ready)
    (hprio : j < i → (s.jobs i).prio < (s.jobs j).prio) : i ≤ j := by
  by_contra hlt
  have hlt := not_le.mp hlt
  have hp := UInt8.lt_iff_toNat_lt.mp (hprio hlt)
  rcases scan_ahead h hran hj with rfl | hgt | ⟨heq, -⟩
  · exact lt_irrefl _ hlt
  · have := UInt8.lt_iff_toNat_lt.mp hgt
    omega
  · rw [heq] at hp
    omega

namespace Async.CoroSys

variable {N : Nat} {σ : Type} {code : Nat → Nat → Body σ} {s s' : CoroSys N σ} {n k : Nat}
  {M : Nat → σ → Prop} {ran : BitVec 64}

/-- What stage `i` guarantees when it returns. -/
def Passes (M : Nat → σ → Prop) (i : Nat) (r : Report) (m : σ) : Prop :=
  r = .waiting ∧ M (i + 1) m

/-- The job in slot `i`, between two calls of it. -/
def Stage (code : Nat → Nat → Body σ) (M : Nat → σ → Prop) (s : CoroSys N σ) (i : Fin N) : Prop :=
  let body := code (s.sys.sched.jobs i).fn (s.sys.sched.jobs i).ctx
  WellFormed slotCo body ∧ ∃ rest, Saved slotCo body rest (s.lines i) ∧ Kept (M i) (Passes M i) rest

/-- The stages before `k` have been called and those from `k` on have not. -/
def Progress (n : Nat) (s : CoroSys N σ) (ran : BitVec 64) (k : Nat) : Prop :=
  ∀ i : Fin N, i < n → (i < k → (s.sys.sched.jobs i).state = .blocked)
    ∧ (k ≤ i → (s.sys.sched.jobs i).state = .ready ∧ ran.getLsbD i = false)

/-- Whose turn it is. -/
def Turn (n : Nat) (M : Nat → σ → Prop) (s : CoroSys N σ) : Prop :=
  match s.sys.pc with
  | .idle => ∃ k, (k = 0 ∨ k = n) ∧ Progress n s 0#64 k ∧ M 0 s.mem
  | .ready ran _ => ∃ k ≤ n, Progress n s ran k ∧ M k s.mem
  | .inReady ran _ i => i < n ∧ M i s.mem
      ∧ ∀ j : Fin N, j < n → (j < i → (s.sys.sched.jobs j).state = .blocked)
        ∧ (i < j → (s.sys.sched.jobs j).state = .ready ∧ ran.getLsbD j = false)
  | .blocked i _ => Progress n s 0#64 n ∧ M (min i n) s.mem
  | .inBlocked _ i => i < n ∧ Progress n s 0#64 n ∧ M i s.mem

/-- The invariant. -/
structure Staged (code : Nat → Nat → Body σ) (n : Nat) (M : Nat → σ → Prop) (s : CoroSys N σ) :
    Prop where
  stage : ∀ i : Fin N, i < n → Stage code M s i
  free : ∀ i : Fin N, n ≤ i → (s.sys.sched.jobs i).state = .idle
  prio : ∀ i j : Fin N, i < j → j < n → (s.sys.sched.jobs j).prio < (s.sys.sched.jobs i).prio
  turn : Turn n M s

/-- A step that leaves the slots alone. -/
theorem Staged.congr (h : Staged code n M s) (hsched : s'.sys.sched.jobs = s.sys.sched.jobs)
    (hch : s'.children = s.children) (ht : Turn n M s') : Staged code n M s' := by
  refine ⟨fun i hi => ?_, hsched ▸ h.free, hsched ▸ h.prio, ht⟩
  have := h.stage i hi
  simpa only [Stage, lines, hsched, hch] using this

theorem Staged.run {sys' : JobSys N} (h : Staged code n M s) (hM : M n = M 0)
    (hs : s.sys.step .run = some sys') : Staged code n M { s with sys := sys' } := by
  obtain ⟨hpc, hs⟩ := Option.ite_none_right_eq_some.mp hs
  obtain rfl := Option.some.inj hs
  refine h.congr rfl rfl ?_
  have ht := h.turn
  simp only [Turn, hpc] at ht
  obtain ⟨k, rfl | rfl, hp, hm⟩ := ht
  · exact ⟨0, Nat.zero_le _, hp, hm⟩
  · exact ⟨k, le_rfl, hp, hM ▸ hm⟩

/-- Phase 1 calls the next one. -/
theorem Staged.scan (h : Staged code n M s) (hN : N ≤ 64) {i : Fin N}
    (hp : Progress n s ran k) (hk : k ≤ n) (hscan : s.sys.sched.scan ran = some i) :
    i.val = k ∧ i < n ∧ ∀ j : Fin N, j < n → (j < i → (s.sys.sched.jobs j).state = .blocked)
      ∧ (i < j → (s.sys.sched.jobs j).state = .ready
        ∧ (ran ||| 1#64 <<< i.val).getLsbD j = false) := by
  obtain ⟨-, hready⟩ := scan_some hscan
  have hin : i.val < n := by
    by_contra hge
    simp [h.free i (not_lt.mp hge)] at hready
  have hki : k ≤ i := by
    by_contra hlt
    simp [(hp i hin).1 (not_le.mp hlt)] at hready
  have hik : i.val = k := by
    -- slot `k` is left, and no slot behind it is as urgent
    have hkN : k < N := by omega
    obtain ⟨hst, hbit⟩ := (hp ⟨k, hkN⟩ (by simp only; omega)).2 le_rfl
    have := scan_first hscan hbit hst fun hlt => h.prio _ _ hlt hin
    have hle : i.val ≤ k := this
    omega
  refine ⟨hik, hin, fun j hj => ⟨fun hji => (hp j hj).1 (by omega), fun hij => ?_⟩⟩
  obtain ⟨hst, hbit⟩ := (hp j hj).2 (by omega)
  refine ⟨hst, ?_⟩
  rw [← Bool.not_eq_true, ran_set hN, hbit]
  simp [Fin.ext_iff]
  omega

theorem Staged.round {sys' : JobSys N} (h : Staged code n M s) (hN : N ≤ 64) (hn : n ≤ N)
    (hM : M n = M 0) (hs : s.sys.step .round = some sys') :
    Staged code n M { s with sys := sys' } := by
  have ht := h.turn
  change s.sys.round s.sys.pc = some sys' at hs
  cases hpc : s.sys.pc with
  | idle => simp [hpc, JobSys.round] at hs
  | inReady ran c i => simp [hpc, JobSys.round] at hs
  | inBlocked c i => simp [hpc, JobSys.round] at hs
  | ready ran c =>
      rw [hpc] at hs
      simp only [Turn, hpc] at ht
      obtain ⟨k, hk, hp, hm⟩ := ht
      cases hscan : s.sys.sched.scan ran with
      | some i =>
          simp only [JobSys.round, hscan, Option.some.injEq] at hs
          subst hs
          obtain ⟨rfl, hin, hrest⟩ := h.scan hN hp hk hscan
          exact h.congr rfl rfl ⟨hin, hm, hrest⟩
      | none =>
          simp only [JobSys.round, hscan, Option.some.injEq] at hs
          subst hs
          have hkn : k = n := by
            by_contra hne
            have hkN : k < N := by omega
            obtain ⟨hst, hbit⟩ := (hp ⟨k, hkN⟩ (by simp only; omega)).2 le_rfl
            rcases JobSched.scan_none hscan ⟨k, hkN⟩ with hpass | hpass
            · simp [hbit] at hpass
            · exact hpass hst
          subst hkn
          refine h.congr rfl rfl ⟨fun i hi => ⟨(hp i hi).1, fun hle => by omega⟩, ?_⟩
          rwa [Nat.zero_min, ← hM]
  | blocked i c =>
      rw [hpc] at hs
      simp only [Turn, hpc] at ht
      obtain ⟨hp, hm⟩ := ht
      simp only [JobSys.round] at hs
      split at hs
      · rename_i hi
        split at hs
        · rename_i hst
          obtain rfl := Option.some.inj hs
          have hni : n ≤ i := by
            by_contra hlt
            exact hst ((hp ⟨i, hi⟩ (not_le.mp hlt)).1 (not_le.mp hlt))
          refine h.congr rfl rfl ⟨hp, ?_⟩
          rwa [Nat.min_eq_right (by omega : n ≤ i + 1), ← Nat.min_eq_right hni]
        · rename_i hst
          obtain rfl := Option.some.inj hs
          have hin : i < n := by
            by_contra hge
            simp [h.free ⟨i, hi⟩ (not_lt.mp hge)] at hst
          rw [Nat.min_eq_left hin.le] at hm
          exact h.congr rfl rfl ⟨hin, hp, hm⟩
      · rename_i hi
        obtain rfl := Option.some.inj hs
        refine h.congr rfl rfl ⟨n, Or.inr rfl, hp, ?_⟩
        rwa [← hM, ← Nat.min_eq_right (by omega : n ≤ i)]

theorem report_eq_waiting {st : AsyncStatus} (h : report st = .waiting) : st = .blocked := by
  cases st with
  | blocked => rfl
  | done => cases h
  | running => cases h

/-- The stage that returns hands over to the next one. -/
theorem Stage.returns {i : Fin N} {st : AsyncStatus} {ls' : Lines} {m' : σ}
    (h : Stage code M s i) (hm : M i s.mem)
    (hr : Returns slotCo (code (s.sys.sched.jobs i).fn (s.sys.sched.jobs i).ctx) (s.lines i)
      s.mem st ls' m') :
    st = .blocked ∧ M (i + 1) m' ∧ ∃ rest,
      Saved slotCo (code (s.sys.sched.jobs i).fn (s.sys.sched.jobs i).ctx) rest ls'
        ∧ Kept (M i) (Passes M i) rest := by
  obtain ⟨hw, rest, hsaved, hkept⟩ := h
  obtain ⟨rest', hsaved', -, hres⟩ := invoke_of_returns hw hsaved hr
  obtain ⟨⟨hwait, hm'⟩, hkept'⟩ := hkept.invoke hm hres
  refine ⟨report_eq_waiting hwait, hm', rest', hsaved', hkept'.resolve_left ?_⟩
  simp [hwait]

theorem Turn.ret {sys' : JobSys N} {i : Fin N} {m' : σ} (ht : Turn n M s)
    (hi : s.sys.pc.running = some i) (hm : M (i + 1) m') (hpc : sys'.pc = JobSys.behind s.sys.pc)
    (hst : ∀ j, (sys'.sched.jobs j).state
      = if j = i then .blocked else (s.sys.sched.jobs j).state)
    (hs' : s'.sys = sys') (hmem : s'.mem = m') : Turn n M s' := by
  subst hs' hmem
  cases hpc' : s.sys.pc with
  | idle => simp [hpc', JobPc.running] at hi
  | ready ran c => simp [hpc', JobPc.running] at hi
  | blocked j c => simp [hpc', JobPc.running] at hi
  | inReady ran c k =>
      obtain rfl : k = i := by simpa [hpc', JobPc.running] using hi
      simp only [Turn, hpc'] at ht
      obtain ⟨hin, -, hrest⟩ := ht
      simp only [Turn, hpc, hpc', JobSys.behind]
      refine ⟨k + 1, hin, fun j hj => ⟨fun hjk => ?_, fun hkj => ?_⟩, hm⟩
      · rw [hst]
        split
        · rfl
        · rename_i hne
          have hlt : j.val < k := by
            have := Fin.val_ne_of_ne hne
            omega
          exact (hrest j hj).1 hlt
      · have hne : j ≠ k := by
          rintro rfl
          omega
        rw [hst, if_neg hne]
        exact (hrest j hj).2 (by omega)
  | inBlocked c k =>
      obtain rfl : k = i := by simpa [hpc', JobPc.running] using hi
      simp only [Turn, hpc'] at ht
      obtain ⟨hin, hp, -⟩ := ht
      simp only [Turn, hpc, hpc', JobSys.behind, Nat.min_eq_left hin]
      refine ⟨fun j hj => ⟨fun _ => ?_, fun hle => by omega⟩, hm⟩
      rw [hst]
      split
      · rfl
      · exact (hp j hj).1 hj

/-- Its own memory is where its turn is. -/
theorem Turn.mem {i : Fin N} (ht : Turn n M s) (hi : s.sys.pc.running = some i) :
    i < n ∧ M i s.mem := by
  cases hpc : s.sys.pc with
  | idle => simp [hpc, JobPc.running] at hi
  | ready ran c => simp [hpc, JobPc.running] at hi
  | blocked j c => simp [hpc, JobPc.running] at hi
  | inReady ran c k =>
      obtain rfl : k = i := by simpa [hpc, JobPc.running] using hi
      simp only [Turn, hpc] at ht
      exact ⟨ht.1, ht.2.1⟩
  | inBlocked c k =>
      obtain rfl : k = i := by simpa [hpc, JobPc.running] using hi
      simp only [Turn, hpc] at ht
      exact ⟨ht.1, ht.2.2⟩

theorem Staged.ret {sys' : JobSys N} {i : Fin N} {c : Nat} {st : AsyncStatus} {ls' : Lines}
    {m' : σ} (h : Staged code n M s) (hi : s.sys.pc.running = some i)
    (hr : Returns slotCo (code (s.sys.sched.jobs i).fn (s.sys.sched.jobs i).ctx) (s.lines i)
      s.mem st ls' m')
    (hs : s.sys.step (.ret st (ls' slotCo)) = some sys') :
    Staged code n M { s with
      sys := sys'
      mem := m'
      children := Function.update s.children i ls'
      log := s.log ++ [(c, ⟨s.mem, st, m'⟩)] } := by
  obtain ⟨hin, hm⟩ := h.turn.mem hi
  obtain ⟨rfl, hm', hrest⟩ := (h.stage i hin).returns hm hr
  obtain ⟨_, hs', hpc, hstate, hprio, hsched⟩ := JobSys.step_ret hi .blocked (ls' slotCo)
  obtain rfl := Option.some.inj (hs.symm.trans hs')
  obtain ⟨j', hfn, hctx, hco, -, hjobs⟩ := JobSched.execReturn_slot s.sys.sched i
    { s.sys.sched.jobs i with co := ls' slotCo } .blocked
  rw [← hsched] at hjobs
  refine ⟨fun j hj => ?_, fun j hj => ?_, fun a b hab hb => ?_, ?_⟩
  · by_cases hji : j = i
    · subst hji
      have hw := (h.stage j hj).1
      simpa [Stage, lines, hjobs, hfn, hctx, hco, hw] using hrest
    · simpa [Stage, lines, hjobs, hji] using h.stage j hj
  · have hji : j ≠ i := by
      rintro rfl
      omega
    show (sys'.sched.jobs j).state = .idle
    rw [hstate, if_neg hji]
    exact h.free j hj
  · show (sys'.sched.jobs b).prio < (sys'.sched.jobs a).prio
    rw [hprio, hprio]
    exact h.prio a b hab hb
  · exact h.turn.ret hi hm' hpc hstate rfl rfl

/-- **The stages take turns.** -/
theorem Staged.step (h : Staged code n M s) (hN : N ≤ 64) (hn : n ≤ N) (hM : M n = M 0)
    (hs : Ticks code s s') : Staged code n M s' := by
  obtain ⟨hs, hpc⟩ := hs
  cases hs with
  | memory m => exact absurd rfl hpc
  | submit hs =>
      rcases JobSys.submit_slot hs with rfl | ⟨i, -, -, -, -, hsame, -⟩
      · exact absurd rfl hpc
      · exact absurd hsame hpc
  | cancel hs hown =>
      rcases JobSys.cancel_slot hs with rfl | ⟨i, -, -, -, -, -, hsame, -⟩
      · exact absurd rfl hpc
      · exact absurd hsame hpc
  | run hs => exact h.run hM hs
  | round hs => exact h.round hN hn hM hs
  | ret hi _ hr hs => exact h.ret hi hr hs

theorem Staged.ticks (h : Staged code n M s) (hN : N ≤ 64) (hn : n ≤ N) (hM : M n = M 0)
    (hs : Relation.ReflTransGen (Ticks code) s s') : Staged code n M s' := by
  induction hs with
  | refl => exact h
  | tail _ ht ih => exact ih.step hN hn hM ht

end Async.CoroSys

end VibeRtos
