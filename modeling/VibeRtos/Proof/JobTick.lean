import VibeRtos.Job.Tick
import VibeRtos.Proof.JobAccounts

/-!
# Who is resumed in a tick

The bitmask keeps phase 1 from calling a job twice, and phase 2 calls whoever it finds
BLOCKED. So a job is called twice in a tick exactly when phase 1 called it and it returned
`ASYNC_BLOCKED`.
-/

namespace VibeRtos

/-! ## Calls by slot -/

section Calls

variable {N : Nat} {log : List (JobCall N)} {i : Fin N} {c : JobCall N}

theorem filter_slot_of_not_mem (h : i ∉ log.map JobCall.slot) :
    log.filter (fun c => c.slot = i) = [] := by
  refine List.filter_eq_nil_iff.mpr fun c hc => ?_
  have hne : c.slot ≠ i := fun he => h (List.mem_map.mpr ⟨c, hc, he⟩)
  simpa using hne

/-- If no slot is called twice, the calls of a slot are one call. -/
theorem filter_slot_of_nodup (hnd : (log.map JobCall.slot).Nodup) (hc : c ∈ log) :
    log.filter (fun d => d.slot = c.slot) = [c] := by
  induction log with
  | nil => simp at hc
  | cons d log ih =>
      obtain ⟨hd, hnd'⟩ := List.nodup_cons.mp hnd
      rcases List.mem_cons.mp hc with rfl | hc
      · rw [List.filter_cons_of_pos (by simp), filter_slot_of_not_mem hd]
      · have hne : d.slot ≠ c.slot := fun he => hd (he ▸ List.mem_map_of_mem hc)
        rw [List.filter_cons_of_neg (by simpa using hne)]
        exact ih hnd' hc

theorem filter_phase_other {phase phase' : JobPhase} (h : ∀ c ∈ log, c.phase = phase)
    (hne : phase ≠ phase') : log.filter (fun c => c.phase = phase') = [] := by
  refine List.filter_eq_nil_iff.mpr fun c hc => ?_
  rw [h c hc]
  simpa using hne

theorem nodup_slots_call (hnd : (log.map JobCall.slot).Nodup)
    (hc : c.slot ∉ log.map JobCall.slot) : ((log ++ [c]).map JobCall.slot).Nodup := by
  rw [List.map_append, List.nodup_append]
  refine ⟨hnd, List.nodup_singleton _, fun j hj k hk he => ?_⟩
  obtain rfl : k = c.slot := List.mem_singleton.mp hk
  exact hc (he ▸ hj)

theorem mem_slots_call (log : List (JobCall N)) (c : JobCall N) (j : Fin N) :
    j ∈ (log ++ [c]).map JobCall.slot ↔ j ∈ log.map JobCall.slot ∨ j = c.slot := by
  rw [List.map_append, List.mem_append]
  exact or_congr_right List.mem_singleton

end Calls

namespace JobSched

variable {N : Nat} {s : JobSched N} {ran : BitVec 64} {i : Fin N}

/-- The bit of a slot that has run. -/
theorem ran_set (hN : N ≤ 64) (ran : BitVec 64) (i j : Fin N) :
    (ran ||| 1#64 <<< i.val).getLsbD j = true ↔ ran.getLsbD j = true ∨ j = i := by
  have hi : i.val < 64 := by omega
  have hj : j.val < 64 := by omega
  rw [BitVec.getLsbD_or, BitVec.getLsbD_shiftLeft, Bool.or_eq_true, Fin.ext_iff]
  refine or_congr_right ?_
  by_cases heq : j.val = i.val
  · simp [heq, hi]
  · by_cases hlt : j.val < i.val
    · simp [heq, hlt]
    · have hne : j.val - i.val ≠ 0 := by omega
      simp [heq, hlt, hj, BitVec.getLsbD_one, hne]

theorem execReturn_state (s : JobSched N) (i : Fin N) (st : AsyncStatus) (j : Fin N) :
    ((s.execReturn i st).jobs j).state = if j = i then st.state else (s.jobs j).state := by
  have hset : ∀ v : Job, (Function.update s.jobs i v j).state
      = if j = i then v.state else (s.jobs j).state := by
    intro v
    rw [Function.update_apply]
    split <;> rfl
  cases st <;> exact hset _

theorem execReturn_prio (s : JobSched N) (i : Fin N) (st : AsyncStatus) (j : Fin N) :
    ((s.execReturn i st).jobs j).prio = (s.jobs j).prio := by
  have hset : ∀ v : Job, v.prio = (s.jobs i).prio →
      (Function.update s.jobs i v j).prio = (s.jobs j).prio := by
    intro v hv
    rw [Function.update_apply]
    split
    · rename_i hj
      rw [hj, hv]
    · rfl
  cases st <;> exact hset _ rfl

theorem Ahead.trans {i j k : Fin N} (h : s.Ahead i j) (h' : s.Ahead j k) : s.Ahead i k := by
  rcases h with hlt | ⟨heq, hlt⟩
  · rcases h' with hlt' | ⟨heq', -⟩
    · exact Or.inl (UInt8.lt_trans hlt' hlt)
    · exact Or.inl (heq' ▸ hlt)
  · rcases h' with hlt' | ⟨heq', hlt'⟩
    · exact Or.inl (heq ▸ hlt')
    · exact Or.inr ⟨heq.trans heq', hlt.trans hlt'⟩

theorem Ahead.congr {s' : JobSched N} (h : s.Ahead i j)
    (hprio : ∀ k, (s'.jobs k).prio = (s.jobs k).prio) : s'.Ahead i j := by
  unfold Ahead
  rw [hprio, hprio]
  exact h

theorem scanStep_passed (hi : s.Passed ran i) (best : Option (Fin N)) :
    s.scanStep ran best i = best := by
  unfold scanStep
  by_cases hran : ran.getLsbD i = true
  · rw [if_pos hran]
  · rw [if_neg hran, if_pos (hi.resolve_left hran)]

theorem scanStep_none (hi : ¬ s.Passed ran i) : s.scanStep ran none i = some i := by
  obtain ⟨hran, hstate⟩ := not_or.mp hi
  simp only [scanStep, if_neg hran, if_neg hstate]

theorem scanStep_some (hi : ¬ s.Passed ran i) (b : Fin N) : s.scanStep ran (some b) i
    = if (s.jobs i).prio > (s.jobs b).prio then some i else some b := by
  obtain ⟨hran, hstate⟩ := not_or.mp hi
  simp only [scanStep, if_neg hran, if_neg hstate]

/-- Of the slots it does not pass over, the scan finds the first one. The slots are scanned in
their order, so that the best of those before `i` stays the best when it is as urgent. -/
theorem foldl_scanStep_ahead (s : JobSched N) (ran : BitVec 64) (xs : List (Fin N))
    (hxs : xs.Pairwise (· < ·)) : ∀ b ∈ xs.foldl (s.scanStep ran) none,
    b ∈ xs ∧ ∀ j ∈ xs, ¬ s.Passed ran j → j = b ∨ s.Ahead b j := by
  induction xs using List.reverseRecOn with
  | nil => simp
  | append_singleton xs i ih =>
      obtain ⟨hfront, -, hlast⟩ := List.pairwise_append.mp hxs
      have hbefore : ∀ j ∈ xs, j < i := fun j hj => hlast j hj i (List.mem_singleton_self i)
      have hnone := (foldl_scanStep s ran xs none (by simp)).2
      intro b hb
      rw [List.foldl_append, List.foldl_cons, List.foldl_nil] at hb
      by_cases hi : s.Passed ran i
      · rw [scanStep_passed hi] at hb
        obtain ⟨hmem, hahead⟩ := ih hfront b hb
        refine ⟨List.mem_append_left _ hmem, fun j hj hnot => ?_⟩
        rcases List.mem_append.mp hj with hj | hj
        · exact hahead j hj hnot
        · obtain rfl := List.mem_singleton.mp hj
          exact absurd hi hnot
      · cases hbest : xs.foldl (s.scanStep ran) none with
        | none =>
            rw [hbest, scanStep_none hi] at hb
            obtain rfl : i = b := Option.some.inj hb
            refine ⟨by simp, fun j hj hnot => ?_⟩
            rcases List.mem_append.mp hj with hj | hj
            · exact absurd ((hnone hbest).2 j hj) hnot
            · exact Or.inl (List.mem_singleton.mp hj)
        | some c =>
            obtain ⟨hmem, hahead⟩ := ih hfront c hbest
            rw [hbest, scanStep_some hi] at hb
            by_cases hprio : (s.jobs i).prio > (s.jobs c).prio
            · -- the slot is more urgent than all before it
              obtain rfl : i = b := by simpa [hprio] using hb
              have hic : s.Ahead i c := Or.inl hprio
              refine ⟨by simp, fun j hj hnot => ?_⟩
              rcases List.mem_append.mp hj with hj | hj
              · rcases hahead j hj hnot with rfl | hcj
                · exact Or.inr hic
                · exact Or.inr (hic.trans hcj)
              · exact Or.inl (List.mem_singleton.mp hj)
            · obtain rfl : c = b := by simpa [hprio] using hb
              refine ⟨List.mem_append_left _ hmem, fun j hj hnot => ?_⟩
              rcases List.mem_append.mp hj with hj | hj
              · exact hahead j hj hnot
              · obtain rfl := List.mem_singleton.mp hj
                rcases UInt8.lt_or_eq_of_le (UInt8.not_lt.mp hprio) with hlt | heq
                · exact Or.inr (Or.inl hlt)
                · exact Or.inr (Or.inr ⟨heq.symm, hbefore c hmem⟩)

/-- The scan finds the first of the READY slots that have not run. -/
theorem scan_ahead (h : s.scan ran = some i) {j : Fin N} (hran : ran.getLsbD j = false)
    (hj : (s.jobs j).state = .ready) : j = i ∨ s.Ahead i j := by
  refine (foldl_scanStep_ahead s ran (List.finRange N) (List.pairwise_lt_finRange N) i h).2 j
    (List.mem_finRange j) (not_or.mpr ⟨?_, not_not.mpr hj⟩)
  rw [hran]
  decide

end JobSched

namespace JobSys

open JobSched

variable {N : Nat} {rets : Nat → AsyncStatus × Int} {s s' s₀ s₁ : JobSys N} {ran : BitVec 64}
  {n fuel : Nat} {i : Fin N} {log log₁ log₂ : List (JobCall N)}

/-! ## Rounds -/

/-- The return of a job function. -/
theorem step_ret (hrun : s.pc.running = some i) (st : AsyncStatus) (co : Int) :
    ∃ s', s.step (.ret st co) = some s' ∧ s'.pc = behind s.pc
      ∧ (∀ j, (s'.sched.jobs j).state = if j = i then st.state else (s.sched.jobs j).state)
      ∧ (∀ j, (s'.sched.jobs j).prio = (s.sched.jobs j).prio)
      ∧ s'.sched = (s.sched.setJob i { s.sched.jobs i with co := co }).execReturn i st := by
  refine ⟨_, by simp only [step, hrun]; rfl, rfl, fun j => ?_, fun j => ?_, rfl⟩
  · show (((s.sched.setJob i { s.sched.jobs i with co := co }).execReturn i st).jobs j).state = _
    rw [execReturn_state]
    split
    · rfl
    · rename_i hj
      rw [setJob_of_ne hj]
  · show (((s.sched.setJob i { s.sched.jobs i with co := co }).execReturn i st).jobs j).prio = _
    rw [execReturn_prio]
    by_cases hj : j = i
    · rw [hj, setJob_self]
    · rw [setJob_of_ne hj]

/-- A round that calls a job function, and the return of the function. -/
theorem drive_call (rets : Nat → AsyncStatus × Int) (fuel : Nat) (log : List (JobCall N))
    {pc : JobPc N} (hpc : (∃ ran n, s.pc = .ready ran n) ∨ ∃ i n, s.pc = .blocked i n)
    (hround : s.step .round = some (s.call i pc)) (hrun : pc.running = some i) :
    ∃ s', drive rets (fuel + 2) s log
        = drive rets fuel s' (log ++ ending pc (rets log.length).1)
      ∧ s'.pc = behind pc
      ∧ (∀ j, (s'.sched.jobs j).state
        = if j = i then (rets log.length).1.state else (s.sched.jobs j).state)
      ∧ (∀ j, (s'.sched.jobs j).prio = (s.sched.jobs j).prio)
      ∧ s'.sched = (s.sched.setJob i { s.sched.jobs i with co := (rets log.length).2 }).execReturn i
        (rets log.length).1 := by
  have hfirst : drive rets (fuel + 2) s log = drive rets (fuel + 1) (s.call i pc) log := by
    rcases hpc with ⟨ran, n, hpc⟩ | ⟨i, n, hpc⟩
    · simp only [drive, hpc, hround, Option.bind_some]
    · simp only [drive, hpc, hround, Option.bind_some]
  have hcall : (s.call i pc).pc = pc := rfl
  obtain ⟨s', hs', hpc', hrest⟩ := step_ret (s := s.call i pc) hrun (rets log.length).1
    (rets log.length).2
  refine ⟨s', ?_, hpc', hrest⟩
  rw [hfirst]
  cases pc with
  | inReady ran n j => simp only [drive, hcall, hs', Option.bind_some]
  | inBlocked n j => simp only [drive, hcall, hs', Option.bind_some]
  | idle => exact absurd hrun (by simp [JobPc.running])
  | ready ran n => exact absurd hrun (by simp [JobPc.running])
  | blocked j n => exact absurd hrun (by simp [JobPc.running])

/-! ## Phase 1 -/

/-- Before a round of phase 1. -/
structure Readied (rets : Nat → AsyncStatus × Int) (s₀ s : JobSys N) (ran : BitVec 64)
    (log : List (JobCall N)) : Prop where
  slots : (log.map JobCall.slot).Nodup
  calls : ∀ c ∈ log, c.phase = .ready ∧ (s₀.sched.jobs c.slot).state = .ready
    ∧ (s.sched.jobs c.slot).state = c.st.state
  ran : ∀ i : Fin N, ran.getLsbD i = true ↔ i ∈ log.map JobCall.slot
  others : ∀ i, i ∉ log.map JobCall.slot → (s.sched.jobs i).state = (s₀.sched.jobs i).state
  /-- the `k`-th call returned what it was to return -/
  rets : ∀ k c, log[k]? = some c → c.st = (rets k).1

/-- A slot that has been called was READY. -/
theorem Readied.was_ready (h : Readied rets s₀ s ran log) (hi : i ∈ log.map JobCall.slot) :
    (s₀.sched.jobs i).state = .ready := by
  obtain ⟨c, hc, rfl⟩ := List.mem_map.mp hi
  exact (h.calls c hc).2.1

theorem Readied.length_le (h : Readied rets s₀ s ran log) : log.length ≤ s₀.readySlots.length := by
  have hsub : log.map JobCall.slot ⊆ s₀.readySlots := by
    intro i hi
    exact List.mem_filter.mpr ⟨List.mem_finRange _, decide_eq_true (h.was_ready hi)⟩
  have hle := (h.slots.subperm hsub).length_le
  rwa [List.length_map] at hle

/-- The slot that the scan finds has not been called. -/
theorem Readied.not_called (h : Readied rets s₀ s ran log) (hscan : s.sched.scan ran = some i) :
    i ∉ log.map JobCall.slot := by
  rw [← h.ran i, (scan_some hscan).1]
  exact Bool.false_ne_true

/-- One more job is called. -/
theorem Readied.call (h : Readied rets s₀ s ran log) (hN : N ≤ 64)
    (hscan : s.sched.scan ran = some i)
    (hstate : ∀ j, (s'.sched.jobs j).state
      = if j = i then (rets log.length).1.state else (s.sched.jobs j).state) :
    Readied rets s₀ s' (ran ||| 1#64 <<< i.val)
      (log ++ [⟨.ready, i, (rets log.length).1⟩]) := by
  have hi := h.not_called hscan
  have hready := (scan_some hscan).2
  refine ⟨nodup_slots_call h.slots hi, fun c hc => ?_, fun j => ?_, fun j hj => ?_,
    fun k c hk => ?_⟩
  · rcases List.mem_append.mp hc with hc | hc
    · obtain ⟨hphase, hfrom, hnow⟩ := h.calls c hc
      have hne : c.slot ≠ i := fun he => hi (he ▸ List.mem_map_of_mem hc)
      exact ⟨hphase, hfrom, by rw [hstate, if_neg hne]; exact hnow⟩
    · obtain rfl := List.mem_singleton.mp hc
      exact ⟨rfl, by rw [← h.others i hi]; exact hready, by rw [hstate, if_pos rfl]⟩
  · rw [ran_set hN, h.ran, mem_slots_call]
  · rw [mem_slots_call, not_or] at hj
    rw [hstate, if_neg hj.2]
    exact h.others j hj.1
  · rcases Nat.lt_or_ge k log.length with hlt | hge
    · rw [List.getElem?_append_left hlt] at hk
      exact h.rets k c hk
    · rw [List.getElem?_append_right hge] at hk
      obtain ⟨rfl, hkz⟩ : c = ⟨.ready, i, (rets log.length).1⟩ ∧ k - log.length = 0 := by
        cases hz : k - log.length with
        | zero => rw [hz] at hk; exact ⟨(by simpa using hk : _ = c).symm, rfl⟩
        | succ m => rw [hz] at hk; simp at hk
      have hkl : k = log.length := by omega
      rw [hkl]

/-- The calls of phase 1 are in order, and in front of those that are still to come. -/
structure Ordered (s₀ s : JobSys N) (log : List (JobCall N)) : Prop where
  prio : ∀ i, (s.sched.jobs i).prio = (s₀.sched.jobs i).prio
  sorted : (log.map JobCall.slot).Pairwise s₀.sched.Ahead
  ahead : ∀ i ∈ log.map JobCall.slot, ∀ j, j ∉ log.map JobCall.slot →
    (s₀.sched.jobs j).state = .ready → s₀.sched.Ahead i j

theorem Ordered.call (ho : Ordered s₀ s log) (h : Readied rets s₀ s ran log)
    (hscan : s.sched.scan ran = some i)
    (hprio : ∀ j, (s'.sched.jobs j).prio = (s.sched.jobs j).prio) (st : AsyncStatus) :
    Ordered s₀ s' (log ++ [⟨.ready, i, st⟩]) := by
  have hi := h.not_called hscan
  have hi₀ : (s₀.sched.jobs i).state = .ready := by
    rw [← h.others i hi]
    exact (scan_some hscan).2
  refine ⟨fun j => (hprio j).trans (ho.prio j), ?_, fun k hk j hj hj₀ => ?_⟩
  · rw [List.map_append, List.pairwise_append]
    refine ⟨ho.sorted, List.pairwise_singleton .., fun k hk j hj => ?_⟩
    obtain rfl : j = i := by simpa using hj
    exact ho.ahead k hk j hi hi₀
  · rw [mem_slots_call, not_or] at hj
    rcases (mem_slots_call log _ k).mp hk with hk | rfl
    · exact ho.ahead k hk j hj.1 hj₀
    · -- the slot that comes next is ahead of all that are left
      have hran : ran.getLsbD j = false := by
        rw [← Bool.not_eq_true, h.ran]
        exact hj.1
      rcases scan_ahead hscan hran (by rw [h.others j hj.1]; exact hj₀) with hjk | hahead
      · exact absurd hjk hj.2
      · exact hahead.congr fun i => (ho.prio i).symm

/-- The scan finds nobody any more. -/
theorem Readied.finish (h : Readied rets s₀ s ran log) (hpc : s.pc = .ready ran n)
    (hscan : s.sched.scan ran = none) :
    drive rets (fuel + 1) s log = drive rets fuel { s with pc := .blocked 0 n } log
      ∧ Readied rets s₀ { s with pc := .blocked 0 n } ran log
      ∧ ∀ i, (s₀.sched.jobs i).state = .ready → i ∈ log.map JobCall.slot := by
  have hround : s.step .round = some { s with pc := .blocked 0 n } := by
    simp only [step, round, hpc, hscan]
  refine ⟨?_, ⟨h.slots, h.calls, h.ran, h.others, h.rets⟩, fun i hi => ?_⟩
  · simp only [drive, hpc, hround, Option.bind_some]
  · rcases scan_none hscan i with hran | hstate
    · exact (h.ran i).mp hran
    · by_contra hnot
      exact hstate (by rw [h.others i hnot]; exact hi)

/-- **Phase 1 calls the jobs that were READY, each once.** -/
theorem phase_ready (hN : N ≤ 64) (fuel : Nat) : ∀ (m : Nat) {s : JobSys N} {ran : BitVec 64}
    {log : List (JobCall N)}, Readied rets s₀ s ran log → Ordered s₀ s log →
    s.pc = .ready ran log.length → s₀.readySlots.length ≤ log.length + m →
    ∃ fuel' s' ran' log', fuel ≤ fuel' ∧ drive rets (fuel + (2 * m + 1)) s log
        = drive rets fuel' s' log'
      ∧ s'.pc = .blocked 0 log'.length ∧ Readied rets s₀ s' ran' log' ∧ Ordered s₀ s' log'
      ∧ ∀ i, (s₀.sched.jobs i).state = .ready → i ∈ log'.map JobCall.slot := by
  intro m
  induction m with
  | zero =>
      intro s ran log h ho hpc hm
      cases hscan : s.sched.scan ran with
      | none =>
          obtain ⟨hdrive, hend, hall⟩ := h.finish hpc hscan
          exact ⟨fuel, _, ran, log, le_refl _, hdrive, rfl, hend,
            ⟨ho.prio, ho.sorted, ho.ahead⟩, hall⟩
      | some i =>
          -- every job that was READY has been called
          obtain ⟨s', -, -, hstate, -⟩ := step_ret (s := s.call i (.inReady ran log.length i)) rfl
            (rets log.length).1 0
          have hmore := (h.call hN hscan hstate).length_le
          rw [List.length_append, List.length_singleton] at hmore
          omega
  | succ m ih =>
      intro s ran log h ho hpc hm
      cases hscan : s.sched.scan ran with
      | none =>
          obtain ⟨hdrive, hend, hall⟩ := h.finish hpc hscan
          exact ⟨fuel + 2 * (m + 1), _, ran, log, by omega, hdrive, rfl, hend,
            ⟨ho.prio, ho.sorted, ho.ahead⟩, hall⟩
      | some i =>
          have hround : s.step .round
              = some (s.call i (.inReady (ran ||| 1#64 <<< i.val) log.length i)) := by
            simp only [step, round, hpc, hscan]
          obtain ⟨s₁, hdrive, hpc₁, hstate, hprio, -⟩ := drive_call rets (fuel + (2 * m + 1)) log
            (Or.inl ⟨_, _, hpc⟩) hround rfl
          obtain ⟨fuel', s', ran', log', hle, heq, hend⟩ := ih (h.call hN hscan hstate)
            (ho.call h hscan hprio _)
            (by rw [hpc₁, List.length_append]; rfl)
            (by rw [List.length_append, List.length_singleton]; omega)
          exact ⟨fuel', s', ran', log', hle, hdrive.trans heq, hend⟩

/-! ## Phase 2 -/

/-- Before the round of phase 2 for slot `i`; `s₁` and `log₁` are from the end of phase 1. -/
structure Probed (s₁ s : JobSys N) (i : Nat) (log₂ : List (JobCall N)) : Prop where
  slots : (log₂.map JobCall.slot).Nodup
  calls : ∀ c ∈ log₂, c.phase = .blocked ∧ (s.sched.jobs c.slot).state = c.st.state
  mem : ∀ j, j ∈ log₂.map JobCall.slot ↔ j.val < i ∧ (s₁.sched.jobs j).state = .blocked
  others : ∀ j, j ∉ log₂.map JobCall.slot → (s.sched.jobs j).state = (s₁.sched.jobs j).state

/-- The slot is passed over. -/
theorem Probed.skip (h : Probed s₁ s i log₂) (hi : (s.sched.jobs i).state ≠ .blocked)
    (pc : JobPc N) :
    Probed s₁ { s with pc := pc } (i + 1) log₂ := by
  refine ⟨h.slots, h.calls, fun j => ?_, h.others⟩
  rw [h.mem]
  constructor
  · exact fun ⟨hlt, hj⟩ => ⟨by omega, hj⟩
  · rintro ⟨hlt, hj⟩
    refine ⟨?_, hj⟩
    by_contra hge
    obtain rfl : j = i := Fin.ext (by omega)
    have hout : j ∉ log₂.map JobCall.slot := fun hin => hge ((h.mem j).mp hin).1
    exact hi (by rw [h.others j hout]; exact hj)

/-- The job of the slot is called. -/
theorem Probed.call (h : Probed s₁ s i log₂) (hi : (s.sched.jobs i).state = .blocked)
    {st : AsyncStatus}
    (hstate : ∀ j, (s'.sched.jobs j).state = if j = i then st.state else (s.sched.jobs j).state) :
    Probed s₁ s' (i + 1) (log₂ ++ [⟨.blocked, i, st⟩]) := by
  have hout : i ∉ log₂.map JobCall.slot := fun hin => absurd ((h.mem i).mp hin).1 (lt_irrefl _)
  refine ⟨nodup_slots_call h.slots hout, fun c hc => ?_, fun j => ?_, fun j hj => ?_⟩
  · rcases List.mem_append.mp hc with hc | hc
    · obtain ⟨hphase, hnow⟩ := h.calls c hc
      have hne : c.slot ≠ i := fun he => hout (he ▸ List.mem_map_of_mem hc)
      exact ⟨hphase, by rw [hstate, if_neg hne]; exact hnow⟩
    · obtain rfl := List.mem_singleton.mp hc
      exact ⟨rfl, by rw [hstate, if_pos rfl]⟩
  · rw [mem_slots_call, h.mem]
    constructor
    · rintro (⟨hlt, hj⟩ | rfl)
      · exact ⟨by omega, hj⟩
      · exact ⟨by omega, by rw [← h.others j hout]; exact hi⟩
    · rintro ⟨hlt, hj⟩
      by_cases hji : j = i
      · exact Or.inr hji
      · have hne : j.val ≠ i.val := fun he => hji (Fin.ext he)
        exact Or.inl ⟨by omega, hj⟩
  · rw [mem_slots_call, not_or] at hj
    rw [hstate, if_neg hj.2]
    exact h.others j hj.1

/-- Behind the last slot `vibe_sched_run` returns. -/
theorem Probed.finish {i : Nat} (h : Probed s₁ s i log₂) (hpc : s.pc = .blocked i n) (hi : N ≤ i)
    (log : List (JobCall N)) :
    drive rets (fuel + 2) s log = some ({ s with pc := .idle, ran := n }, log)
      ∧ Probed s₁ { s with pc := .idle, ran := n } N log₂ := by
  have hround : s.step .round = some { s with pc := .idle, ran := n } := by
    simp only [step, round, hpc, dif_neg (show ¬ i < N by omega)]
  refine ⟨?_, h.slots, h.calls, fun j => ?_, h.others⟩
  · simp only [drive, hpc, hround, Option.bind_some]
  · rw [h.mem]
    exact and_congr_left' ⟨fun _ => j.isLt, fun hj => by omega⟩

/-- **Phase 2 calls the jobs that are BLOCKED when it begins, each once.** -/
theorem phase_blocked (rets : Nat → AsyncStatus × Int) (log₁ : List (JobCall N)) :
    ∀ (m fuel i : Nat) {s : JobSys N} {log₂ : List (JobCall N)},
    Probed s₁ s i log₂ → s.pc = .blocked i (log₁ ++ log₂).length → N ≤ i + m →
    ∃ s' log', drive rets (fuel + (2 * m + 2)) s (log₁ ++ log₂) = some (s', log₁ ++ log')
      ∧ s'.ran = (log₁ ++ log').length ∧ Probed s₁ s' N log' := by
  intro m
  induction m with
  | zero =>
      intro fuel i s log₂ h hpc hm
      obtain ⟨hdrive, hend⟩ := h.finish hpc (by omega) (log₁ ++ log₂)
      exact ⟨_, log₂, hdrive, rfl, hend⟩
  | succ m ih =>
      intro fuel i s log₂ h hpc hm
      by_cases hi : i < N
      · by_cases hstate : (s.sched.jobs ⟨i, hi⟩).state = .blocked
        · have hround : s.step .round
              = some (s.call ⟨i, hi⟩ (.inBlocked (log₁ ++ log₂).length ⟨i, hi⟩)) := by
            simp only [step, round, hpc, dif_pos hi, hstate, ne_eq, not_true, if_false]
          obtain ⟨s', hdrive, hpc', hstate', -⟩ := drive_call rets (fuel + (2 * m + 2))
            (log₁ ++ log₂) (Or.inr ⟨_, _, hpc⟩) hround rfl
          have hnext : Probed s₁ s' (i + 1) _ := Probed.call (i := ⟨i, hi⟩) h hstate hstate'
          obtain ⟨s'', log', heq, hend⟩ := ih fuel (i + 1) hnext
            (by rw [hpc']; simp [behind, Nat.add_assoc]) (by omega)
          refine ⟨s'', log', ?_, hend⟩
          rw [← heq, ← List.append_assoc]
          exact hdrive
        · have hround : s.step .round
              = some { s with pc := .blocked (i + 1) (log₁ ++ log₂).length } := by
            simp only [step, round, hpc, dif_pos hi, hstate, ne_eq, not_false_eq_true, if_true]
          have hnext := Probed.skip (i := ⟨i, hi⟩) h hstate
            (.blocked (i + 1) (log₁ ++ log₂).length)
          obtain ⟨s'', log', heq, hend⟩ := ih (fuel + 1) (i + 1) hnext rfl (by omega)
          refine ⟨s'', log', ?_, hend⟩
          rw [← heq, show fuel + (2 * (m + 1) + 2) = fuel + 1 + (2 * m + 2) + 1 by omega]
          simp only [drive, hpc, hround, Option.bind_some]
      · obtain ⟨hdrive, hend⟩ := h.finish hpc (by omega) (log₁ ++ log₂)
        exact ⟨_, log₂, hdrive, rfl, hend⟩

/-! ## The tick -/

/-- What a tick does: phase 1 calls who was READY, and phase 2 who is BLOCKED after it. -/
theorem tick_spec (hN : N ≤ 64) (hpc : s.pc = .idle) (rets : Nat → AsyncStatus × Int) :
    ∃ s₁ ran s' log₁ log₂, s.tick rets = some (s', log₁ ++ log₂)
      ∧ s'.ran = (log₁ ++ log₂).length ∧ Readied rets s s₁ ran log₁ ∧ Ordered s s₁ log₁
      ∧ (∀ i, (s.sched.jobs i).state = .ready → i ∈ log₁.map JobCall.slot)
      ∧ Probed s₁ s' N log₂ := by
  have hrun : s.step .run = some { s with sched := s.sched.runStart, pc := .ready 0#64 0 } := by
    simp only [step, hpc, if_true]
  have hstart : Readied rets s { s with sched := s.sched.runStart, pc := .ready 0#64 0 } 0#64 [] :=
    ⟨by simp, by simp, by simp, fun _ _ => rfl, by simp⟩
  have hfirst : Ordered s { s with sched := s.sched.runStart, pc := .ready 0#64 0 } [] :=
    ⟨fun _ => rfl, List.Pairwise.nil, by simp⟩
  have hlen : s.readySlots.length ≤ N := by
    have hle := List.length_filter_le (fun i => decide ((s.sched.jobs i).state = .ready))
      (List.finRange N)
    rwa [List.length_finRange] at hle
  obtain ⟨fuel', s₁, ran, log₁, hfuel, hdrive, hpc₁, hready, hordered, hall⟩ :=
    phase_ready hN (2 * N + 2) N hstart hfirst rfl (by simpa using hlen)
  have hprobe : Probed s₁ s₁ 0 [] := ⟨by simp, by simp, by simp, fun _ _ => rfl⟩
  obtain ⟨s', log₂, hdrive₂, hran, hend⟩ := phase_blocked rets log₁ N
    (fuel' - (2 * N + 2)) 0 hprobe (by simpa using hpc₁) (by omega)
  refine ⟨s₁, ran, s', log₁, log₂, ?_, hran, hready, hordered, hall, hend⟩
  rw [List.append_nil, Nat.sub_add_cancel hfuel] at hdrive₂
  rw [tick, hrun, Option.bind_some, ← hdrive₂, ← hdrive]
  congr 1
  omega

/-- The slots of phase 1 are the READY ones. -/
theorem Readied.length_eq (h : Readied rets s₀ s ran log)
    (hall : ∀ i, (s₀.sched.jobs i).state = .ready → i ∈ log.map JobCall.slot) :
    log.length = s₀.readySlots.length := by
  refine le_antisymm h.length_le ?_
  have hsub : s₀.readySlots ⊆ log.map JobCall.slot := fun i hi =>
    hall i (of_decide_eq_true (List.mem_filter.mp hi).2)
  have hnd : s₀.readySlots.Nodup := (List.nodup_finRange N).filter _
  have hle := (hnd.subperm hsub).length_le
  rwa [List.length_map] at hle

/--
**When every job is resumed once in a tick.**

Whatever the state of the slots, and whatever the jobs return as long as they leave the
scheduler alone, `vibe_sched_run` returns; and it resumes each job once, in its phase, and
counts them, if and only if no job that was READY at its call returns `ASYNC_BLOCKED`.
-/
theorem once_each_iff {N : Nat} (s : JobSys N) (rets : Nat → AsyncStatus × Int) (hN : N ≤ 64)
    (hpc : s.pc = .idle) : (∃ s' log, s.tick rets = some (s', log) ∧ s.OnceEach s' log)
      ↔ ∀ k < s.readySlots.length, (rets k).1 ≠ .blocked := by
  obtain ⟨s₁, ran, s', log₁, log₂, htick, hran, hready, -, hall, hprobe⟩ := tick_spec hN hpc rets
  have hlen := hready.length_eq hall
  constructor
  · rintro ⟨s'', log, htick', honce⟩ k hk hblocked
    obtain ⟨rfl, rfl⟩ : s'' = s' ∧ log = log₁ ++ log₂ := by
      rw [htick] at htick'
      have heq := Option.some.inj htick'
      exact ⟨(congrArg Prod.fst heq).symm, (congrArg Prod.snd heq).symm⟩
    -- the job that returned BLOCKED from phase 1 is called again
    rw [← hlen] at hk
    have hin : log₁[k] ∈ log₁ := List.getElem_mem hk
    obtain ⟨hphase, hentry, hstate⟩ := hready.calls _ hin
    rw [hready.rets k _ (List.getElem?_eq_getElem hk), hblocked] at hstate
    have hagain := (hprobe.mem log₁[k].slot).mpr ⟨Fin.isLt _, hstate⟩
    obtain ⟨c, hc, hslot⟩ := List.mem_map.mp hagain
    obtain ⟨st, hone⟩ := honce.ready _ hentry
    have hmem : c ∈ (log₁ ++ log₂).filter fun c => c.slot = log₁[k].slot :=
      List.mem_filter.mpr ⟨List.mem_append_right _ hc, by simpa using hslot⟩
    rw [hone] at hmem
    have hphase₂ := (hprobe.calls c hc).1
    rw [List.mem_singleton.mp hmem] at hphase₂
    exact absurd hphase₂ (by simp)
  · intro hrets
    have hnot : ∀ c ∈ log₁, c.st ≠ .blocked := by
      intro c hc
      obtain ⟨k, hk, rfl⟩ := List.mem_iff_getElem.mp hc
      rw [hready.rets k _ (List.getElem?_eq_getElem hk)]
      exact hrets k (by omega)
    have hapart : ∀ i ∈ log₁.map JobCall.slot, i ∉ log₂.map JobCall.slot := by
      intro i hi hi₂
      obtain ⟨c, hc, rfl⟩ := List.mem_map.mp hi
      have hstate := (hready.calls c hc).2.2
      rw [((hprobe.mem _).mp hi₂).2] at hstate
      refine hnot c hc ?_
      cases hst : c.st with
      | blocked => rfl
      | done => rw [hst] at hstate; exact absurd hstate (by decide)
      | running => rw [hst] at hstate; exact absurd hstate (by decide)
    have hnd : ((log₁ ++ log₂).map JobCall.slot).Nodup := by
      rw [List.map_append, List.nodup_append]
      refine ⟨hready.slots, hprobe.slots, fun a ha b hb he => ?_⟩
      exact hapart a ha (he ▸ hb)
    -- a slot that phase 1 left alone is as it was
    have hsame : ∀ i, (s.sched.jobs i).state ≠ .ready →
        (s₁.sched.jobs i).state = (s.sched.jobs i).state := by
      intro i hi
      exact hready.others i fun hin => hi (hready.was_ready hin)
    refine ⟨s', _, htick, fun i hi => ?_, fun i hi => ?_, fun i hi => ?_, fun c hc => ?_, ?_⟩
    · obtain ⟨c, hc, rfl⟩ := List.mem_map.mp (hall i hi)
      refine ⟨c.st, ?_⟩
      rw [filter_slot_of_nodup hnd (List.mem_append_left _ hc), ← (hready.calls c hc).1]
    · have hin := (hprobe.mem i).mpr ⟨i.isLt, by rw [hsame i (by simp [hi])]; exact hi⟩
      obtain ⟨c, hc, rfl⟩ := List.mem_map.mp hin
      refine ⟨c.st, ?_⟩
      rw [filter_slot_of_nodup hnd (List.mem_append_right _ hc), ← (hprobe.calls c hc).1]
    · refine filter_slot_of_not_mem ?_
      rw [List.map_append, List.mem_append, not_or]
      constructor
      · intro hin
        rw [hready.was_ready hin] at hi
        exact absurd hi (by decide)
      · intro hin
        have hstate := ((hprobe.mem i).mp hin).2
        rw [hsame i (by simp [hi]), hi] at hstate
        exact absurd hstate (by decide)
    · rcases List.mem_append.mp hc with hc | hc
      · rw [hprobe.others _ (hapart _ (List.mem_map_of_mem hc))]
        exact (hready.calls c hc).2.2
      · exact (hprobe.calls c hc).2
    · rw [hran, hnd.dedup, List.length_map]

/-- Two jobs: one is READY and returns `ASYNC_RUNNING`, the other is BLOCKED. -/
def readyAndBlocked : JobSys 2 where
  sched := {
    jobs := fun i => ⟨0x100, 0, 0, if i = 0 then .ready else .blocked, 0, 0⟩
    stats := ⟨2, 0, 2, 0⟩ }
  pc := .idle
  ran := 0
  job := fun i => some i.val
  current := none
  submits := 2
  cancels := 0
  strays := 0

theorem once_each_iff_two : ∃ s' log, readyAndBlocked.tick (fun _ => (.running, 0)) = some (s', log)
    ∧ readyAndBlocked.OnceEach s' log :=
  (once_each_iff readyAndBlocked _ (by decide) rfl).mpr (by simp)

/-- A READY job that returns `ASYNC_BLOCKED` is resumed a second time in the same tick. -/
theorem blocked_job_resumed_twice : ∃ s', readyAndBlocked.tick
      (fun k => (if k = 0 then .blocked else .running, 0))
        = some (s', [⟨.ready, 0, .blocked⟩, ⟨.blocked, 0, .running⟩, ⟨.blocked, 1, .running⟩])
    ∧ s'.ran = 3
    ∧ ¬ ∃ s' log, readyAndBlocked.tick (fun k => (if k = 0 then .blocked else .running, 0))
        = some (s', log) ∧ readyAndBlocked.OnceEach s' log := by
  refine ⟨_, rfl, rfl, fun ⟨s', log, htick, honce⟩ => ?_⟩
  have hlog : log = [⟨.ready, 0, .blocked⟩, ⟨.blocked, 0, .running⟩, ⟨.blocked, 1, .running⟩] :=
    (congrArg Prod.snd (Option.some.inj htick)).symm
  -- slot 0 has a call in each phase
  obtain ⟨st, hone⟩ := honce.ready 0 rfl
  rw [hlog] at hone
  exact absurd (congrArg List.length hone) (by simp)

end JobSys

end VibeRtos
