import VibeRtos.Kernel.TraceStats

/-!
# Runtime statistics are exact

`total_runtime` lags behind the ticks that a thread has run by those of the slice it is in
(`Exact`). A switch closes the slice of the previous thread and opens an empty one for the next, so
the sum stays; a tick counts for the open slice and for nobody else.
-/

namespace VibeRtos

open Kernel Runs

section Switch

variable {now : UInt32} {prev : Option Tid} {next t : Tid} {st : Tid → TraceStats}

/-- The slice of the next thread is empty. -/
theorem traceSwitch_next (h : prev ≠ some next) : traceSwitch now prev next st next
    = { st next with switchInCount := (st next).switchInCount + 1, lastSwitchIn := now } := by
  cases prev with
  | none => simp [traceSwitch]
  | some p =>
      have hp : next ≠ p := fun e => h (congrArg some e.symm)
      simp [traceSwitch, hp]

/-- The slice of the previous thread is closed. -/
theorem traceSwitch_prev (h : t ≠ next) : traceSwitch now (some t) next st t
    = { st t with totalRuntime := (st t).totalRuntime + (now - (st t).lastSwitchIn) } := by
  simp [traceSwitch, h]

theorem traceSwitch_other (h : t ≠ next) (hp : prev ≠ some t) :
    traceSwitch now prev next st t = st t := by
  cases prev with
  | none => simp [traceSwitch, h]
  | some p =>
      have hp : t ≠ p := fun e => hp (congrArg some e.symm)
      simp [traceSwitch, h, hp]

end Switch

/-- With `CONFIG_TRACE` the scheduler chooses as it does without. -/
theorem schedRescheduleTraced_spec (k : Kernel) (st : Tid → TraceStats) :
    (schedRescheduleTraced k st).1 = k.schedReschedule ∧
      (schedRescheduleTraced k st = (k, st) ∨ ∃ next, k.current ≠ some next ∧
        schedRescheduleTraced k st
          = (k.switchTo next, traceSwitch k.tickCount k.current next st)) := by
  unfold schedRescheduleTraced schedReschedule
  split
  · exact ⟨rfl, Or.inl rfl⟩
  · cases k.schedNextThread with
    | none => exact ⟨rfl, Or.inl rfl⟩
    | some next =>
        dsimp only
        split
        · exact ⟨rfl, Or.inl rfl⟩
        · rename_i hne
          exact ⟨rfl, Or.inr ⟨next, hne, rfl⟩⟩

theorem schedStartTraced_spec (k : Kernel) (st : Tid → TraceStats) :
    (schedStartTraced k st).1 = k.schedStart ∧
      (schedStartTraced k st = (k, st) ∨ ∃ next, k.schedStart.current = some next ∧
        k.schedStart.tickCount = k.tickCount ∧
        schedStartTraced k st = (k.schedStart, traceSwitch k.tickCount none next st)) := by
  unfold schedStartTraced schedStart
  cases k.schedNextThread with
  | none => exact ⟨rfl, Or.inl rfl⟩
  | some next => exact ⟨rfl, Or.inr ⟨next, rfl, rfl, rfl⟩⟩

namespace TraceSys

variable {s s' : TraceSys} {l : Label}

/-- The counters say what they are to count. -/
structure Exact (s : TraceSys) : Prop where
  runtime : ∀ t, (s.stats t).totalRuntime + s.running t = UInt32.ofNat (s.ran t)
  switches : ∀ t, (s.stats t).switchInCount = UInt32.ofNat (s.chosen t)

theorem Initial.exact (h : s.Initial) : Exact s where
  runtime t := by simp [running, h.current, h.stats, h.ran, TraceStats.zero]
  switches t := by simp [h.stats, h.chosen, TraceStats.zero]

theorem ofNat_succ (n : Nat) : UInt32.ofNat (n + 1) = UInt32.ofNat n + 1 := by
  simp [UInt32.ofNat_add]

/-- A call of the scheduler that changes nothing. -/
theorem choose_self (s : TraceSys) : s.choose (s.k, s.stats) = s := by
  cases hc : s.k.current with
  | none => simp [choose, hc]
  | some t => simp [choose, hc]

/-- A call of the scheduler that makes `next` the current thread. -/
theorem Exact.choose (h : Exact s) {k : Kernel} {next : Tid} (hne : s.k.current ≠ some next)
    (hcur : k.current = some next) (htick : k.tickCount = s.k.tickCount) :
    Exact (s.choose (k, traceSwitch s.k.tickCount s.k.current next s.stats)) := by
  refine ⟨fun t => ?_, fun t => ?_⟩
  · have ht := h.runtime t
    simp only [running, TraceSys.choose, hcur, htick] at ht ⊢
    by_cases hn : t = next
    · -- its new slice is empty
      subst hn
      rw [traceSwitch_next hne, if_pos rfl]
      simpa [hne] using ht
    · rw [if_neg (fun e => hn (Option.some.inj e).symm)]
      by_cases hp : s.k.current = some t
      · -- its slice goes into the total
        rw [hp, traceSwitch_prev hn]
        simpa [hp] using ht
      · rw [traceSwitch_other hn hp]
        simpa [hp] using ht
  · have ht := h.switches t
    simp only [TraceSys.choose, hcur, if_neg hne]
    by_cases hn : t = next
    · subst hn
      rw [traceSwitch_next hne, Function.update_self, ofNat_succ, ht]
    · rw [Function.update_of_ne hn, ← ht]
      by_cases hp : s.k.current = some t
      · rw [hp, traceSwitch_prev hn]
      · rw [traceSwitch_other hn hp]

/-- A tick counts for the current thread. -/
theorem Exact.tick (h : Exact s) (hs : s.step .tick = some s') : Exact s' := by
  obtain rfl := Option.some.inj hs
  refine ⟨fun t => ?_, h.switches⟩
  have ht := h.runtime t
  simp only [running] at ht ⊢
  cases hc : s.k.current with
  | none => simpa [hc] using ht
  | some c =>
      by_cases hct : c = t
      · subst hct
        simp only [hc, if_true, Function.update_self, ofNat_succ] at ht ⊢
        rw [← ht]
        grind
      · simpa [hc, hct, Function.update_of_ne (Ne.symm hct)] using ht

theorem Exact.create (h : Exact s) {t : Tid} (hne : s.k.current ≠ some t)
    (hs : s.step (.create t) = some s') : Exact s' := by
  obtain rfl := Option.some.inj hs
  refine ⟨fun u => ?_, fun u => ?_⟩
  · have hu := h.runtime u
    simp only [running] at hu ⊢
    by_cases ht : u = t
    · subst ht
      simp [hne, TraceStats.zero]
    · simpa [ht] using hu
  · by_cases ht : u = t
    · subst ht
      simp [TraceStats.zero]
    · simpa [ht] using h.switches u

theorem Exact.step (h : Exact s) (hsp : s.Spares l) (hs : s.step l = some s') : Exact s' := by
  cases l with
  | start =>
      cases hc : s.k.current with
      | some c => simp [TraceSys.step, hc] at hs
      | none =>
          simp only [TraceSys.step, hc] at hs
          obtain rfl := Option.some.inj hs
          obtain ⟨-, hsame | ⟨next, hcur, htick, hnew⟩⟩ := schedStartTraced_spec s.k s.stats
          · rwa [hsame, choose_self]
          · rw [hnew, ← hc]
            exact h.choose (by simp [hc]) hcur htick
  | reschedule =>
      obtain rfl := Option.some.inj hs
      obtain ⟨-, hsame | ⟨next, hne, hnew⟩⟩ := schedRescheduleTraced_spec s.k s.stats
      · rwa [hsame, choose_self]
      · rw [hnew]
        obtain ⟨-, -, -, -, -, -, -, -, htick, hcur⟩ := switchTo_frame s.k next
        exact h.choose hne hcur htick
  | tick => exact h.tick hs
  | create t => exact h.create hsp hs
  | other k =>
      obtain ⟨⟨hcur, htick⟩, hs⟩ := Option.ite_none_right_eq_some.mp hs
      obtain rfl := Option.some.inj hs
      refine ⟨fun t => ?_, h.switches⟩
      have ht := h.runtime t
      simpa only [running, hcur, htick] using ht

/-! ## Every tick is charged once -/

/-- The ticks of all threads. -/
def Shared (s : TraceSys) : Prop := ∑ t, s.ran t = s.elapsed

@[simp] theorem choose_ran (s : TraceSys) (r : Kernel × (Tid → TraceStats)) :
    (s.choose r).ran = s.ran := rfl

@[simp] theorem choose_elapsed (s : TraceSys) (r : Kernel × (Tid → TraceStats)) :
    (s.choose r).elapsed = s.elapsed := rfl

theorem Shared.step (h : Shared s) (hk : s.Keeps l) (hs : s.step l = some s') : Shared s' := by
  cases l with
  | start =>
      cases hc : s.k.current with
      | some c => simp [TraceSys.step, hc] at hs
      | none =>
          simp only [TraceSys.step, hc] at hs
          obtain rfl := Option.some.inj hs
          exact h
  | reschedule =>
      obtain rfl := Option.some.inj hs
      exact h
  | tick =>
      obtain rfl := Option.some.inj hs
      unfold Shared at h ⊢
      cases hc : s.k.current with
      | none => simpa using h
      | some c =>
          have hsum := Finset.sum_update_of_mem (Finset.mem_univ c) s.ran (s.ran c + 1)
          have hrest := Finset.sum_sdiff (Finset.subset_univ {c}) (f := s.ran)
          rw [Finset.sum_singleton] at hrest
          simp only [hsum, reduceCtorEq, if_false]
          omega
  | create t => exact absurd hk (by simp [Keeps])
  | other k =>
      obtain ⟨-, hs⟩ := Option.ite_none_right_eq_some.mp hs
      obtain rfl := Option.some.inj hs
      exact h

end TraceSys

/-- Boot, with thread 9 as the idle thread. -/
def statsBoot : TraceSys where
  k := Kernel.bss ⟨1000, 10, true⟩ (fun _ => threadDefine [] 512 0 0 0 5) (some 9)
  stats _ := .zero
  ran _ := 0
  chosen _ := 0
  elapsed := 0

theorem statsBoot_initial : statsBoot.Initial where
  current := rfl
  stats _ := rfl
  ran _ := rfl
  chosen _ := rfl
  elapsed := rfl

/-- The kernel when thread 1 becomes ready, two ticks later. -/
def statsWoken : Kernel :=
  { statsBoot.k with current := some 9, tickCount := 2 }.schedEnqueue 1

end VibeRtos
