import VibeRtos.Job.Bodies
import VibeRtos.Proof.JobTick

/-!
# A tick ends

Whatever the jobs do to the slots, a slot whose bit is set in the bitmask is not found again.
So the bitmask decides when phase 1 ends: every call sets a bit that was clear.
-/

namespace VibeRtos

namespace JobSched

variable {N : Nat} {bodies : JobBodies N} {s : JobSched N} {ran : BitVec 64}
  {log : List (JobCall N)} {i : Fin N}

/-- The slots of the calls so far are the bits of the mask. -/
structure Marked (ran : BitVec 64) (log : List (JobCall N)) : Prop where
  nodup : (log.map JobCall.slot).Nodup
  phase : ∀ c ∈ log, c.phase = .ready
  bit : ∀ i : Fin N, ran.getLsbD i = true ↔ i ∈ log.map JobCall.slot

theorem Marked.length_le (h : Marked ran log) : log.length ≤ N := by
  have hle := h.nodup.length_le_card
  rwa [List.length_map, Fintype.card_fin] at hle

/-- One more call sets one more bit. -/
theorem Marked.call (h : Marked ran log) (hN : N ≤ 64) (hscan : s.scan ran = some i)
    (st : AsyncStatus) : Marked (ran ||| 1#64 <<< i.val) (log ++ [⟨.ready, i, st⟩]) := by
  have hi : i ∉ log.map JobCall.slot := by
    rw [← h.bit i, (scan_some hscan).1]
    exact Bool.false_ne_true
  refine ⟨nodup_slots_call h.nodup hi, fun c hc => ?_, fun j => ?_⟩
  · rcases List.mem_append.mp hc with hc | hc
    · exact h.phase c hc
    · rw [List.mem_singleton.mp hc]
  · rw [ran_set hN, h.bit, mem_slots_call]

/-- When as many functions were called as there are slots, the scan finds nobody. -/
theorem Marked.scan_none (h : Marked ran log) (hN : N ≤ 64) (hlen : N ≤ log.length) :
    s.scan ran = none := by
  cases hscan : s.scan ran with
  | none => rfl
  | some i =>
      have hmore := (h.call hN hscan .done).length_le
      rw [List.length_append, List.length_singleton] at hmore
      omega

/-- **Phase 1 ends.** After as many calls as there are slots, no bit is left to set. -/
theorem readyLoop_ends (hN : N ≤ 64) (bodies : JobBodies N) : ∀ (m : Nat) (s : JobSched N)
    (ran : BitVec 64) (log : List (JobCall N)), Marked ran log → N ≤ log.length + m →
    ∃ s' ran' log', Marked ran' log'
      ∧ ∀ fuel, m < fuel → readyLoop bodies fuel s ran log = some (s', log') := by
  intro m
  induction m with
  | zero =>
      intro s ran log h hm
      have hnone : s.scan ran = none := h.scan_none hN (by omega)
      refine ⟨s, ran, log, h, fun fuel hfuel => ?_⟩
      obtain ⟨fuel, rfl⟩ := Nat.exists_eq_succ_of_ne_zero (Nat.ne_of_gt hfuel)
      simp only [readyLoop, hnone]
  | succ m ih =>
      intro s ran log h hm
      cases hscan : s.scan ran with
      | none =>
          refine ⟨s, ran, log, h, fun fuel hfuel => ?_⟩
          obtain ⟨fuel, rfl⟩ := Nat.exists_eq_succ_of_ne_zero (n := fuel) (by omega)
          simp only [readyLoop, hscan]
      | some i =>
          obtain ⟨s', ran', log', hend, hloop⟩ := ih (s.exec bodies i log).1 _ _
            (h.call hN hscan (s.exec bodies i log).2)
            (by rw [List.length_append, List.length_singleton]; omega)
          refine ⟨s', ran', log', hend, fun fuel hfuel => ?_⟩
          obtain ⟨fuel, rfl⟩ := Nat.exists_eq_succ_of_ne_zero (n := fuel) (by omega)
          simp only [readyLoop, hscan]
          exact hloop fuel (by omega)

/-- Phase 2 calls at most one function for each slot. -/
theorem foldl_blockedStep (bodies : JobBodies N) : ∀ (xs : List (Fin N))
    (r : JobSched N × List (JobCall N)), ∃ calls, (xs.foldl (blockedStep bodies) r).2 = r.2 ++ calls
      ∧ calls.length ≤ xs.length ∧ ∀ c ∈ calls, c.phase = .blocked := by
  intro xs
  induction xs with
  | nil => exact fun r => ⟨[], (List.append_nil _).symm, le_refl _, by simp⟩
  | cons i xs ih =>
      intro r
      obtain ⟨calls, heq, hlen, hphase⟩ := ih (blockedStep bodies r i)
      rw [List.foldl_cons, heq]
      by_cases hi : (r.1.jobs i).state ≠ .blocked
      · refine ⟨calls, by rw [blockedStep, if_pos hi], ?_, hphase⟩
        rw [List.length_cons]
        omega
      · refine ⟨⟨.blocked, i, (r.1.exec bodies i r.2).2⟩ :: calls, ?_, ?_, fun c hc => ?_⟩
        · rw [blockedStep, if_neg hi, List.append_assoc]
          rfl
        · rw [List.length_cons, List.length_cons]
          omega
        · rcases List.mem_cons.mp hc with rfl | hc
          · rfl
          · exact hphase c hc

end JobSched

/-! ## Jobs that leave the scheduler alone -/

namespace JobSys

open JobSched

variable {N : Nat} {s : JobSys N} {ran : BitVec 64} {log : List (JobCall N)}

theorem drive_scan_none (rets : Nat → AsyncStatus × Int) (fuel : Nat) {n : Nat}
    (hpc : s.pc = .ready ran n) (hscan : s.sched.scan ran = none) :
    drive rets (fuel + 1) s log = drive rets fuel { s with pc := .blocked 0 n } log := by
  have hround : s.step .round = some { s with pc := .blocked 0 n } := by
    simp only [step, round, hpc, hscan]
  simp only [drive, hpc, hround, Option.bind_some]

/-- The rounds of phase 1 are the rounds of the loop. -/
theorem drive_readyLoop (hN : N ≤ 64) (rets : Nat → AsyncStatus × Int) (fuel : Nat) :
    ∀ (m : Nat) {s : JobSys N} {ran : BitVec 64} {log : List (JobCall N)}, Marked ran log →
    s.pc = .ready ran log.length → N ≤ log.length + m →
    ∃ fuel' s' log', fuel ≤ fuel' ∧ drive rets (fuel + (2 * m + 1)) s log = drive rets fuel' s' log'
      ∧ s'.pc = .blocked 0 log'.length
      ∧ readyLoop (JobBodies.ofRets rets) (m + 1) s.sched ran log = some (s'.sched, log') := by
  intro m
  induction m with
  | zero =>
      intro s ran log h hpc hm
      have hscan : s.sched.scan ran = none := h.scan_none hN (by omega)
      exact ⟨fuel, _, log, le_refl _, drive_scan_none rets fuel hpc hscan, rfl,
        by simp only [readyLoop, hscan]⟩
  | succ m ih =>
      intro s ran log h hpc hm
      cases hscan : s.sched.scan ran with
      | none =>
          exact ⟨fuel + 2 * (m + 1), _, log, by omega,
            drive_scan_none rets (fuel + 2 * (m + 1)) hpc hscan, rfl,
            by simp only [readyLoop, hscan]⟩
      | some i =>
          have hround : s.step .round
              = some (s.call i (.inReady (ran ||| 1#64 <<< i.val) log.length i)) := by
            simp only [step, round, hpc, hscan]
          obtain ⟨s₁, hdrive, hpc₁, -, -, hsched⟩ := drive_call rets (fuel + (2 * m + 1)) log
            (Or.inl ⟨_, _, hpc⟩) hround rfl
          obtain ⟨fuel', s', log', hle, heq, hpc', hloop⟩ := ih (h.call hN hscan _)
            (by rw [hpc₁, List.length_append]; rfl)
            (by rw [List.length_append, List.length_singleton]; omega)
          refine ⟨fuel', s', log', hle, hdrive.trans heq, hpc', ?_⟩
          rw [hsched] at hloop
          rw [readyLoop, hscan]
          exact hloop

theorem drop_finRange {i : Nat} (hi : i < N) :
    (List.finRange N).drop i = ⟨i, hi⟩ :: (List.finRange N).drop (i + 1) := by
  rw [List.drop_eq_getElem_cons (by rw [List.length_finRange]; exact hi), List.getElem_finRange]
  rfl

/-- The rounds of phase 2 are the rounds of its loop. -/
theorem drive_blockedStep (rets : Nat → AsyncStatus × Int) : ∀ (m i fuel : Nat) {s : JobSys N}
    (log : List (JobCall N)), s.pc = .blocked i log.length → i + m = N →
    ∃ s' log', drive rets (fuel + (2 * m + 2)) s log = some (s', log')
      ∧ ((List.finRange N).drop i).foldl (blockedStep (JobBodies.ofRets rets)) (s.sched, log)
        = (s'.sched, log') := by
  intro m
  induction m with
  | zero =>
      intro i fuel s log hpc hm
      have hround : s.step .round = some { s with pc := .idle, ran := log.length } := by
        simp only [step, round, hpc, dif_neg (show ¬ i < N by omega)]
      refine ⟨{ s with pc := .idle, ran := log.length }, log, ?_, ?_⟩
      · simp only [drive, hpc, hround, Option.bind_some]
      · rw [List.drop_eq_nil_of_le (by rw [List.length_finRange]; omega)]
        rfl
  | succ m ih =>
      intro i fuel s log hpc hm
      have hi : i < N := by omega
      rw [drop_finRange hi, List.foldl_cons]
      by_cases hstate : (s.sched.jobs ⟨i, hi⟩).state = .blocked
      · have hround : s.step .round
            = some (s.call ⟨i, hi⟩ (.inBlocked log.length ⟨i, hi⟩)) := by
          simp only [step, round, hpc, dif_pos hi, hstate, ne_eq, not_true, if_false]
        obtain ⟨s₁, hdrive, hpc₁, -, -, hsched⟩ := drive_call rets (fuel + (2 * m + 2)) log
          (Or.inr ⟨_, _, hpc⟩) hround rfl
        obtain ⟨s', log', heq, hfold⟩ := ih (i + 1) fuel (s := s₁)
          (log ++ [⟨.blocked, ⟨i, hi⟩, (rets log.length).1⟩])
          (by rw [hpc₁, List.length_append]; rfl) (by omega)
        refine ⟨s', log', hdrive.trans heq, ?_⟩
        rw [hsched] at hfold
        rw [blockedStep, if_neg (not_not.mpr hstate)]
        exact hfold
      · have hround : s.step .round = some { s with pc := .blocked (i + 1) log.length } := by
          simp only [step, round, hpc, dif_pos hi, hstate, ne_eq, not_false_eq_true, if_true]
        obtain ⟨s', log', heq, hfold⟩ := ih (i + 1) (fuel + 1)
          (s := { s with pc := .blocked (i + 1) log.length }) log rfl (by omega)
        refine ⟨s', log', ?_, ?_⟩
        · rw [← heq, show fuel + (2 * (m + 1) + 2) = fuel + 1 + (2 * m + 2) + 1 by omega]
          simp only [drive, hpc, hround, Option.bind_some]
        · rw [blockedStep, if_pos hstate]
          exact hfold

/-- A tick with jobs that leave the scheduler alone is a run with such functions. -/
theorem tick_eq_run (hN : N ≤ 64) (hpc : s.pc = .idle) (rets : Nat → AsyncStatus × Int) :
    ∃ s' log, s.tick rets = some (s', log)
      ∧ s.sched.run (JobBodies.ofRets rets) (N + 1) = some (s'.sched, log) := by
  have hrun : s.step .run = some { s with sched := s.sched.runStart, pc := .ready 0#64 0 } := by
    simp only [step, hpc, if_true]
  have hstart : Marked 0#64 ([] : List (JobCall N)) := ⟨by simp, by simp, by simp⟩
  obtain ⟨fuel', s₁, log₁, hfuel, hdrive, hpc₁, hloop⟩ := drive_readyLoop hN rets (2 * N + 2) N
    (s := { s with sched := s.sched.runStart, pc := .ready 0#64 0 }) hstart rfl (by simp)
  obtain ⟨s', log, hend, hfold⟩ :=
    drive_blockedStep rets N 0 (fuel' - (2 * N + 2)) log₁ hpc₁ (Nat.zero_add N)
  refine ⟨s', log, ?_, ?_⟩
  · rw [Nat.sub_add_cancel hfuel] at hend
    rw [tick, hrun, Option.bind_some, ← hend, ← hdrive]
    congr 1
    omega
  · rw [run, hloop, Option.map_some]
    exact congrArg some hfold

end JobSys

namespace JobSched

/--
**A tick of the scheduler ends.**

Whatever the state of the slots, and whatever the job functions do to the scheduler before they
return, `vibe_sched_run` returns, having called at most as many functions as there are slots in
phase 1, and at most as many in phase 2.
-/
theorem sched_run_ends {N : Nat} (hN : N ≤ 64) (bodies : JobBodies N) (s : JobSched N) :
    ∃ s' log, (∀ fuel, N < fuel → s.run bodies fuel = some (s', log))
      ∧ (log.filter fun c => c.phase = .ready).length ≤ N
      ∧ (log.filter fun c => c.phase = .blocked).length ≤ N := by
  have hstart : Marked 0#64 ([] : List (JobCall N)) := ⟨by simp, by simp, by simp⟩
  obtain ⟨s₁, ran, log₁, hmarked, hloop⟩ :=
    readyLoop_ends hN bodies N s.runStart 0#64 [] hstart (by simp)
  obtain ⟨log₂, hlog, hlen, hphase⟩ := foldl_blockedStep bodies (List.finRange N) (s₁, log₁)
  rw [List.length_finRange] at hlen
  refine ⟨((List.finRange N).foldl (blockedStep bodies) (s₁, log₁)).1, log₁ ++ log₂,
    fun fuel hfuel => ?_, ?_, ?_⟩
  · rw [run, hloop fuel hfuel, Option.map_some]
    exact congrArg some (Prod.ext rfl hlog)
  · rw [List.filter_append, filter_phase_other hphase (by decide), List.append_nil]
    exact (List.length_filter_le _ _).trans hmarked.length_le
  · rw [List.filter_append, filter_phase_other hmarked.phase (by decide), List.nil_append]
    exact (List.length_filter_le _ _).trans hlen

/-- Each function gives its own slot up and submits another job, which lands in the same slot. -/
def respawn : JobBodies 2 := fun _ i s =>
  (((s.request (.cancel (some i))).request (.submit 0x200 0 9)), .running)

theorem sched_run_ends_two : ∃ s' log, (∀ fuel, 2 < fuel →
      (((JobSched.init 2).request (.submit 0x100 0 3)).request (.submit 0x100 0 7)).run respawn fuel
        = some (s', log))
    ∧ (log.filter fun c => c.phase = .ready).length ≤ 2
    ∧ (log.filter fun c => c.phase = .blocked).length ≤ 2 :=
  sched_run_ends (by decide) respawn _

end JobSched

end VibeRtos
