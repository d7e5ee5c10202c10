import VibeRtos.Proof.JobTick

/-!
# The order of a tick

Phase 1 is a selection sort of the READY slots: each scan finds the slot that is in front of
all that are left. What the slots are left in is what their last calls returned.
-/

namespace VibeRtos

open JobSched

section LastStatus

variable {N : Nat} {log₁ log₂ : List (JobCall N)} {i : Fin N} {c : JobCall N}

/-- The last call of a slot that is called again. -/
theorem lastStatus_again (hnd : (log₂.map JobCall.slot).Nodup) (hc : c ∈ log₂) :
    lastStatus (log₁ ++ log₂) c.slot = some c.st := by
  rw [lastStatus, List.filter_append, filter_slot_of_nodup hnd hc, List.getLast?_concat]
  rfl

theorem lastStatus_append (hi : i ∉ log₂.map JobCall.slot) :
    lastStatus (log₁ ++ log₂) i = lastStatus log₁ i := by
  rw [lastStatus, lastStatus, List.filter_append, filter_slot_of_not_mem hi, List.append_nil]

theorem lastStatus_of_mem (hnd : (log₁.map JobCall.slot).Nodup) (hc : c ∈ log₁) :
    lastStatus log₁ c.slot = some c.st := by
  rw [lastStatus, filter_slot_of_nodup hnd hc]
  rfl

theorem lastStatus_of_not_mem (hi : i ∉ log₁.map JobCall.slot) : lastStatus log₁ i = none := by
  rw [lastStatus, filter_slot_of_not_mem hi]
  rfl

end LastStatus

theorem AsyncStatus.state_idle {st : AsyncStatus} : st.state = .idle ↔ st = .done := by
  cases st <;> simp [AsyncStatus.state]

theorem AsyncStatus.state_blocked {st : AsyncStatus} : st.state = .blocked ↔ st = .blocked := by
  cases st <;> simp [AsyncStatus.state]

namespace JobSys

variable {N : Nat} {rets : Nat → AsyncStatus × Int} {s s₁ s' : JobSys N} {ran : BitVec 64}
  {log₁ log₂ : List (JobCall N)} {i : Fin N}

/-- A slot is left in the state that its last call returned; only IDLE slots are not called. -/
theorem state_lastStatus (hready : Readied rets s s₁ ran log₁)
    (hall : ∀ i, (s.sched.jobs i).state = .ready → i ∈ log₁.map JobCall.slot)
    (hprobe : Probed s₁ s' N log₂) (i : Fin N) :
    (∃ st, lastStatus (log₁ ++ log₂) i = some st ∧ (s'.sched.jobs i).state = st.state
        ∧ (s.sched.jobs i).state ≠ .idle)
      ∨ lastStatus (log₁ ++ log₂) i = none ∧ (s'.sched.jobs i).state = .idle
        ∧ (s.sched.jobs i).state = .idle := by
  by_cases h₁ : i ∈ log₁.map JobCall.slot
  · obtain ⟨c, hc, rfl⟩ := List.mem_map.mp h₁
    obtain ⟨-, hfrom, hnow⟩ := hready.calls c hc
    have hne : (s.sched.jobs c.slot).state ≠ .idle := by
      rw [hfrom]
      decide
    by_cases h₂ : c.slot ∈ log₂.map JobCall.slot
    · obtain ⟨d, hd, hslot⟩ := List.mem_map.mp h₂
      rw [← hslot] at hne ⊢
      exact Or.inl ⟨d.st, lastStatus_again hprobe.slots hd, (hprobe.calls d hd).2, hne⟩
    · refine Or.inl ⟨c.st, ?_, ?_, hne⟩
      · rw [lastStatus_append h₂]
        exact lastStatus_of_mem hready.slots hc
      · rw [hprobe.others _ h₂]
        exact hnow
  · by_cases h₂ : i ∈ log₂.map JobCall.slot
    · have hblocked := ((hprobe.mem i).mp h₂).2
      obtain ⟨d, hd, rfl⟩ := List.mem_map.mp h₂
      refine Or.inl ⟨d.st, lastStatus_again hprobe.slots hd, (hprobe.calls d hd).2, ?_⟩
      rw [← hready.others _ h₁, hblocked]
      decide
    · -- a slot that is neither READY nor BLOCKED
      have hidle : (s.sched.jobs i).state = .idle := by
        cases hs : (s.sched.jobs i).state with
        | idle => rfl
        | ready => exact absurd (hall i hs) h₁
        | blocked =>
            refine absurd ((hprobe.mem i).mpr ⟨i.isLt, ?_⟩) h₂
            rw [hready.others i h₁, hs]
      refine Or.inr ⟨?_, ?_, hidle⟩
      · rw [lastStatus_append h₂, lastStatus_of_not_mem h₁]
      · rw [hprobe.others i h₂, hready.others i h₁, hidle]

theorem filter_phase (hready : Readied rets s s₁ ran log₁) (hprobe : Probed s₁ s' N log₂) :
    (log₁ ++ log₂).filter (fun c => c.phase = .ready) = log₁ := by
  have h₁ : log₁.filter (fun c => c.phase = .ready) = log₁ :=
    List.filter_eq_self.mpr fun c hc => decide_eq_true (hready.calls c hc).1
  have h₂ : log₂.filter (fun c => c.phase = .ready) = [] :=
    filter_phase_other (fun c hc => (hprobe.calls c hc).1) (by decide)
  rw [List.filter_append, h₁, h₂, List.append_nil]

/--
**The priority order of a tick.**

Whatever the state of the slots and whatever the jobs return, as long as they leave the
scheduler alone, `vibe_sched_run` returns. Phase 1 calls the slots that were READY, each once:
the more urgent ones first, and of those as urgent the first slot first. Afterwards a slot is
IDLE if it was, or if its last call returned `ASYNC_DONE`, and BLOCKED if its last call returned
`ASYNC_BLOCKED`.
-/
theorem job_priority_order {N : Nat} (s : JobSys N) (rets : Nat → AsyncStatus × Int) (hN : N ≤ 64)
    (hpc : s.pc = .idle) : ∃ s' log, s.tick rets = some (s', log)
      ∧ ((log.filter fun c => c.phase = .ready).map JobCall.slot).Pairwise s.sched.Ahead
      ∧ (∀ i, i ∈ (log.filter fun c => c.phase = .ready).map JobCall.slot
        ↔ (s.sched.jobs i).state = .ready)
      ∧ ∀ i, ((s'.sched.jobs i).state = .idle
          ↔ (s.sched.jobs i).state = .idle ∨ lastStatus log i = some .done)
        ∧ ((s'.sched.jobs i).state = .blocked ↔ lastStatus log i = some .blocked) := by
  obtain ⟨s₁, ran, s', log₁, log₂, htick, -, hready, hordered, hall, hprobe⟩ :=
    tick_spec hN hpc rets
  refine ⟨s', _, htick, ?_, fun i => ?_, fun i => ?_⟩
  · rw [filter_phase hready hprobe]
    exact hordered.sorted
  · rw [filter_phase hready hprobe]
    exact ⟨hready.was_ready, hall i⟩
  · rcases state_lastStatus hready hall hprobe i with ⟨st, hlast, hstate, hne⟩
      | ⟨hlast, hstate, hidle⟩
    · rw [hlast, hstate, AsyncStatus.state_idle, AsyncStatus.state_blocked, Option.some_inj,
        Option.some_inj]
      exact ⟨(or_iff_right hne).symm, Iff.rfl⟩
    · rw [hlast, hstate, hidle]
      simp

/-- Two READY jobs, the second more urgent. -/
def secondFirst : JobSys 2 :=
  { readyAndBlocked with sched := { readyAndBlocked.sched with
      jobs := fun i => ⟨0x100, 0, 0, .ready, if i.val = 0 then 3 else 7, 0⟩ } }

theorem job_priority_order_two : ∃ s' log,
    secondFirst.tick (fun _ => (.running, 0)) = some (s', log)
    ∧ ((log.filter fun c => c.phase = .ready).map JobCall.slot).Pairwise secondFirst.sched.Ahead
    ∧ 0 ∈ (log.filter fun c => c.phase = .ready).map JobCall.slot
    ∧ 1 ∈ (log.filter fun c => c.phase = .ready).map JobCall.slot := by
  obtain ⟨s', log, htick, hsorted, hmem, -⟩ :=
    job_priority_order secondFirst (fun _ => (.running, 0)) (by decide) rfl
  exact ⟨s', log, htick, hsorted, (hmem 0).mpr rfl, (hmem 1).mpr rfl⟩

end JobSys

end VibeRtos
