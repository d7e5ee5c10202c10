import VibeRtos.Proof.TimerReentry

/-!
# What a restart makes of the duration

`vibe_timer_restart` has no milliseconds at hand: it converts the ticks of the timer back and
starts it again. Both conversions round down, so that the way back ends at the same number of
ticks only if none of the two has rounded, or if one tick is lost altogether and the start makes
up for it.
-/

namespace VibeRtos

open SList Runs TimerSys

/-! ## The conversions -/

/-- `d` ticks are a whole number of milliseconds, or a single tick of at least one. -/
def Lossless (cfg : Config) (d : UInt32) : Prop :=
  cfg.sysClockHz ∣ d.toNat * 1000 ∨ d = 1 ∧ cfg.sysClockHz ≤ 1000

variable {cfg : Config} {d ms : UInt32} {t u : TimerId}

/-- A whole number comes back; one that has been rounded is smaller. -/
theorem round_trip_iff {h d : Nat} : d * 1000 / h * h / 1000 = d ↔ h ∣ d * 1000 := by
  have hdown : d * 1000 / h * h ≤ d * 1000 := Nat.div_mul_le_self _ _
  constructor
  · intro heq
    have hup : d * 1000 ≤ d * 1000 / h * h :=
      (Nat.le_div_iff_mul_le (by decide)).mp (le_of_eq heq.symm)
    exact Nat.dvd_of_mod_eq_zero (by
      have hsplit := Nat.div_add_mod (d * 1000) h
      rw [Nat.mul_comm] at hsplit
      omega)
  · intro hdvd
    rw [Nat.div_mul_cancel hdvd]
    omega

theorem msToTicks_toNat (h : ms.toNat * cfg.sysClockHz / 1000 < 2 ^ 32) :
    (msToTicks cfg ms).toNat = ms.toNat * cfg.sysClockHz / 1000 := by
  rw [msToTicks, UInt32.toNat_ofNat']
  exact Nat.mod_eq_of_lt h

theorem ticksToMs_toNat (h : d.toNat * 1000 / cfg.sysClockHz < 2 ^ 32) :
    (ticksToMs cfg d).toNat = d.toNat * 1000 / cfg.sysClockHz := by
  rw [ticksToMs, UInt32.toNat_ofNat']
  exact Nat.mod_eq_of_lt h

/-- The ticks of a started timer are no more milliseconds than fit in 32 bits. -/
theorem startTicks_ms_lt (hmin : 0 < cfg.sysClockHz) (ms : UInt32) :
    (startTicks cfg ms).toNat * 1000 / cfg.sysClockHz < 2 ^ 32 := by
  have hd : (startTicks cfg ms).toNat < 2 ^ 32 := (startTicks cfg ms).toNat_lt
  have hms : ms.toNat < 2 ^ 32 := ms.toNat_lt
  rw [Nat.div_lt_iff_lt_mul hmin]
  by_cases hrate : 1000 ≤ cfg.sysClockHz
  · -- with a fast clock a tick is a millisecond at most
    calc (startTicks cfg ms).toNat * 1000 < 2 ^ 32 * 1000 := by omega
      _ ≤ 2 ^ 32 * cfg.sysClockHz := Nat.mul_le_mul_left _ hrate
  · -- with a slow clock nothing overflows on the way there
    have hle : ms.toNat * cfg.sysClockHz ≤ ms.toNat * 1000 := Nat.mul_le_mul_left _ (by omega)
    have hback : ms.toNat * cfg.sysClockHz / 1000 * 1000 ≤ ms.toNat * cfg.sysClockHz :=
      Nat.div_mul_le_self _ _
    have hup : ms.toNat * cfg.sysClockHz < 2 ^ 32 * cfg.sysClockHz :=
      Nat.mul_lt_mul_of_pos_right hms hmin
    rw [Timer.startTicks_toNat, msToTicks_toNat (by omega)]
    omega

/-- **The way back.** The milliseconds of `d` ticks start a timer of `d` ticks. -/
theorem startTicks_ticksToMs_iff (hmin : 0 < cfg.sysClockHz) (hd : d ≠ 0)
    (hfit : d.toNat * 1000 / cfg.sysClockHz < 2 ^ 32) :
    ticksToMs cfg d ≠ 0 ∧ startTicks cfg (ticksToMs cfg d) = d ↔ Lossless cfg d := by
  have hd0 : d.toNat ≠ 0 := fun he => hd (UInt32.toNat_inj.mp he)
  have hlt : d.toNat < 2 ^ 32 := d.toNat_lt
  have hms := ticksToMs_toNat hfit
  have hback : d.toNat * 1000 / cfg.sysClockHz * cfg.sysClockHz ≤ d.toNat * 1000 :=
    Nat.div_mul_le_self _ _
  have hticks : (msToTicks cfg (ticksToMs cfg d)).toNat = _ :=
    msToTicks_toNat (by rw [hms]; omega)
  rw [hms] at hticks
  have hone : (d = 1) = (d.toNat = 1) := propext UInt32.toNat_inj.symm
  have hzero : (ticksToMs cfg d ≠ 0) = (d.toNat * 1000 / cfg.sysClockHz ≠ 0) := by
    rw [← hms]
    exact propext (not_congr UInt32.toNat_inj.symm)
  rw [hzero, ← UInt32.toNat_inj, Timer.startTicks_toNat, hticks, Lossless, hone, ← round_trip_iff]
  constructor
  · rintro ⟨hpos, hmax⟩
    by_cases hlost : d.toNat * 1000 / cfg.sysClockHz * cfg.sysClockHz / 1000 = 0
    · -- the start makes one tick of nothing
      have hle : cfg.sysClockHz ≤ d.toNat * 1000 := (Nat.div_ne_zero_iff.mp hpos).2
      exact Or.inr (by omega)
    · -- the start takes the ticks as they are
      exact Or.inl (by omega)
  · rintro (hkept | ⟨hd1, hrate⟩)
    · refine ⟨fun hnone => ?_, by omega⟩
      rw [hnone, Nat.zero_mul] at hkept
      exact hd0 hkept.symm
    · exact ⟨Nat.div_ne_zero_iff.mpr ⟨by omega, by omega⟩, by omega⟩

/-! ## Who writes the duration -/

theorem durationTicks_of_core {x y : Timer} (h : x.core = y.core) :
    x.durationTicks = y.durationTicks := by
  have hduration := congrArg Timer.durationTicks h
  exact hduration

theorem mod_duration (m : Timers) {f : Timer → Timer}
    (hf : ∀ x, (f x).durationTicks = x.durationTicks) :
    ((m.mod t f).timer u).durationTicks = (m.timer u).durationTicks := by
  by_cases hu : u = t
  · subst hu
    rw [Timers.mod_self, hf]
  · rw [Timers.mod_of_ne hu]

theorem setLink_duration (m : Timers) (pp v : Option TimerId) :
    ((m.setLink pp v).timer u).durationTicks = (m.timer u).durationTicks :=
  durationTicks_of_core (Timers.setLink_core pp v u)

theorem unlinkLoop_duration : ∀ (fuel : Nat) (m : Timers) (pp : Option TimerId),
    ((unlinkLoop t fuel m pp).timer u).durationTicks = (m.timer u).durationTicks
  | 0, _, _ => rfl
  | fuel + 1, m, pp => by
      rw [unlinkLoop]
      split
      · rfl
      · split
        · exact setLink_duration m pp _
        · exact unlinkLoop_duration fuel m _

/-- Stopping a timer changes no duration. -/
theorem timerStop_duration (m : Timers) :
    ((timerStop m t).2.timer u).durationTicks = (m.timer u).durationTicks := by
  unfold timerStop
  split
  · rfl
  · dsimp only
    rw [mod_duration, unlinkLoop_duration]
    exact fun _ => rfl

/-- Starting one changes its own. -/
theorem timerStart_duration (m : Timers) (hu : u ≠ t) :
    ((timerStart cfg m t ms).2.timer u).durationTicks = (m.timer u).durationTicks := by
  unfold timerStart
  split
  · rfl
  · dsimp only
    rw [Timers.mod_of_ne hu]
    split
    · exact timerStop_duration m
    · rfl

theorem timerStart_self (m : Timers) (hms : ms ≠ 0) : (timerStart cfg m t ms).1 = .ok
    ∧ ((timerStart cfg m t ms).2.timer t).durationTicks = startTicks cfg ms
    ∧ ((timerStart cfg m t ms).2.timer t).remaining = startTicks cfg ms
    ∧ ((timerStart cfg m t ms).2.timer t).active := by
  unfold timerStart
  rw [if_neg hms]
  dsimp only
  rw [Timers.mod_self]
  exact ⟨rfl, rfl, rfl, rfl⟩

/-- One loop body of the tick changes none. -/
theorem timerVisit_duration (m : Timers) (prev : Option TimerId) :
    ((timerVisit m t prev).timers.timer u).durationTicks = (m.timer u).durationTicks := by
  have hcount : ∀ m : Timers, ((m.mod t fun x => if x.remaining > 0 then
      { x with remaining := x.remaining - 1 } else x).timer u).durationTicks
      = (m.timer u).durationTicks := fun m => mod_duration m fun x => by split <;> rfl
  unfold timerVisit
  dsimp only
  split
  · split
    · dsimp only
      rw [mod_duration, hcount]
      exact fun _ => rfl
    · dsimp only
      rw [mod_duration, setLink_duration, hcount]
      exact fun _ => rfl
  · exact hcount m

/-! ## Restarting -/

namespace TimerSys

variable {s s' : TimerSys} {l : Label}

/-- A restart of `t` puts it back to its `d` ticks; the walk to the end of the list ends. -/
def Restarts (cfg : Config) (t : TimerId) (d : UInt32) (s : TimerSys) : Label → Prop
  | .restart u => u = t → (∃ xs, Path s.timers.next s.timers.head xs none)
      ∧ (timerRestart cfg s.timers t).1 = .ok
      ∧ ((timerRestart cfg s.timers t).2.timer t).durationTicks = d
      ∧ ((timerRestart cfg s.timers t).2.timer t).remaining = d
      ∧ ((timerRestart cfg s.timers t).2.timer t).active
  | _ => True

theorem restart_iff (hlist : ∃ xs, Path s.timers.next s.timers.head xs none)
    (hd : (s.timers.timer t).durationTicks = d) :
    s.Restarts cfg t d (.restart t)
      ↔ ticksToMs cfg d ≠ 0 ∧ startTicks cfg (ticksToMs cfg d) = d := by
  unfold Restarts timerRestart
  rw [hd]
  by_cases hms : ticksToMs cfg d = 0
  · refine iff_of_false (fun h => ?_) fun h => h.1 hms
    have hok := (h rfl).2.1
    rw [timerStart, if_pos hms] at hok
    exact absurd hok (by simp)
  · obtain ⟨hok, hduration, hremaining, hactive⟩ := timerStart_self (t := t) s.timers hms
    rw [hduration, hremaining]
    exact ⟨fun h => ⟨hms, (h rfl).2.2.1⟩, fun h _ => ⟨hlist, hok, h.2, h.2, hactive⟩⟩

/-- Nothing but a start of `t` changes its duration, if a restart does not. -/
theorem step_duration (hlossless : startTicks cfg (ticksToMs cfg d) = d)
    (hd : (s.timers.timer t).durationTicks = d) (hl : ∀ ms, l ≠ .start t ms)
    (hs : s.step cfg l = some s') : (s'.timers.timer t).durationTicks = d := by
  cases l with
  | start u ms =>
      obtain ⟨-, heq⟩ := Option.ite_none_right_eq_some.mp hs
      obtain rfl := Option.some.inj heq
      have hu : t ≠ u := fun he => hl ms (he ▸ rfl)
      exact (timerStart_duration s.timers hu).trans hd
  | stop u =>
      obtain ⟨-, heq⟩ := Option.ite_none_right_eq_some.mp hs
      obtain rfl := Option.some.inj heq
      show ((timerStop s.timers u).2.timer t).durationTicks = d
      rw [timerStop_duration, hd]
  | restart u =>
      obtain ⟨-, heq⟩ := Option.ite_none_right_eq_some.mp hs
      obtain rfl := Option.some.inj heq
      show ((timerRestart cfg s.timers u).2.timer t).durationTicks = d
      -- a restart that is rejected writes nothing
      by_cases hu : t = u
      · subst hu
        by_cases hms : ticksToMs cfg d = 0
        · rw [timerRestart, hd, timerStart, if_pos hms, hd]
        · rw [timerRestart, hd, (timerStart_self s.timers hms).2.1, hlossless]
      · exact (timerStart_duration s.timers hu).trans hd
  | tick =>
      rw [TimerSys.step] at hs
      split at hs
      · obtain rfl := Option.some.inj hs
        exact hd
      · exact absurd hs (by simp)
  | visit =>
      rw [TimerSys.step] at hs
      -- at the end of the list nothing is counted down
      split at hs
      · obtain rfl := Option.some.inj hs
        exact (timerVisit_duration s.timers _).trans hd
      · obtain rfl := Option.some.inj hs
        exact hd
      · exact absurd hs (by simp)
  | ret =>
      rw [TimerSys.step] at hs
      split at hs
      · obtain rfl := Option.some.inj hs
        exact hd
      · exact absurd hs (by simp)

theorem Inv.finite (h : s.Inv) : ∃ xs, Path s.timers.next s.timers.head xs none := by
  obtain ⟨xs, hx⟩ := h.ready.list
  exact ⟨xs, hx.path⟩

/-- Every restart on the way is right. -/
theorem Inv.restarts (h : s.Inv) (hd : (s.timers.timer t).durationTicks = d)
    (hback : ticksToMs cfg d ≠ 0 ∧ startTicks cfg (ticksToMs cfg d) = d) :
    ∀ {labels : List Label}, (∀ ms, .start t ms ∉ labels) →
      Along (TimerSys.step cfg) (Safe cfg) s labels →
      Along (TimerSys.step cfg) (Restarts cfg t d) s labels := by
  intro labels hno hsafe
  induction labels generalizing s with
  | nil => trivial
  | cons l labels ih =>
      -- the restarts of `t`; the duration is what it was for the rest of the run
      refine ⟨?_, fun s' hs => ?_⟩
      · cases l with
        | restart u =>
            by_cases hu : u = t
            · subst hu
              exact (restart_iff h.finite hd).mpr hback
            · exact fun he => absurd he hu
        | _ => trivial
      · have hl : ∀ ms, l ≠ .start t ms := fun ms he => hno ms (he ▸ List.mem_cons_self)
        exact ih (h.step hsafe.1 hs) (step_duration hback.2 hd hl hs)
          (fun ms hin => hno ms (List.mem_cons_of_mem _ hin)) (hsafe.2 s' hs)

/--
**When a restart keeps the duration.**

A timer has been started with some duration. However often it is restarted after that, and
whatever happens in between but another start, every restart returns `VIBE_OK` and puts it back to
the ticks of the start exactly when these ticks survive the way through milliseconds.
-/
theorem restart_keeps_duration_iff (hmin : 100 ≤ cfg.sysClockHz) (hmax : cfg.sysClockHz ≤ 10000)
    {s₀ s₁ : TimerSys} {before : List Label} (hinit : s₀.Initial)
    (hsafe : Along (TimerSys.step cfg) (Safe cfg) s₀ before)
    (hrun : run (TimerSys.step cfg) s₀ before = some s) (hms : ms ≠ 0)
    (hstart : s.step cfg (.start t ms) = some s₁) (hstartSafe : s.Safe cfg (.start t ms)) :
    (∀ labels, (∀ ms', .start t ms' ∉ labels) → Along (TimerSys.step cfg) (Safe cfg) s₁ labels →
        Along (TimerSys.step cfg) (Restarts cfg t (startTicks cfg ms)) s₁ labels)
      ↔ Lossless cfg (startTicks cfg ms) := by
  have hinv : s.Inv :=
    run_guarded (fun _ _ _ hinv hl hs => Inv.step hinv hl hs) hinit.inv hsafe hrun
  have hinv₁ : s₁.Inv := hinv.step hstartSafe hstart
  obtain ⟨-, heq⟩ := Option.ite_none_right_eq_some.mp hstart
  obtain rfl := Option.some.inj heq
  have hd : ((timerStart cfg s.timers t ms).2.timer t).durationTicks = _ :=
    (timerStart_self s.timers hms).2.1
  have hd0 : startTicks cfg ms ≠ 0 := fun h0 => by
    have hpos := Timer.startTicks_pos cfg ms
    rw [h0] at hpos
    exact absurd hpos (by decide)
  rw [← startTicks_ticksToMs_iff (by omega) hd0 (startTicks_ms_lt (by omega) ms)]
  constructor
  · intro h
    -- one restart right after the start is enough to see it
    have hone := h [.restart t] (by simp) ⟨fun _ => hstartSafe hms, fun _ _ => trivial⟩
    exact (restart_iff hinv₁.finite hd).mp hone.1
  · exact fun hback labels hno hsafe' => hinv₁.restarts hd hback hno hsafe'

/-- At 250 Hz a tick is four milliseconds, and 10 ms are two of them. -/
theorem restart_keeps_duration_iff_quarter : ∃ s₁,
    timerSysReady.step ⟨250, 10, true⟩ (.start 1 10) = some s₁
      ∧ Along (TimerSys.step ⟨250, 10, true⟩) (Restarts ⟨250, 10, true⟩ 1 2) s₁
        [.restart 1, .tick, .restart 1] := by
  obtain ⟨s₁, hstart, hsafe⟩ : ∃ s₁, timerSysReady.step ⟨250, 10, true⟩ (.start 1 10) = some s₁
      ∧ Along (TimerSys.step ⟨250, 10, true⟩) (Safe ⟨250, 10, true⟩) s₁
        [.restart 1, .tick, .restart 1] := ⟨_, rfl, by decide +kernel⟩
  have hticks : startTicks ⟨250, 10, true⟩ 10 = 2 := by decide
  have hbefore : Along (TimerSys.step ⟨250, 10, true⟩) (Safe ⟨250, 10, true⟩) timerSysReady [] :=
    trivial
  have h := restart_keeps_duration_iff (by decide) (by decide) timerSysReady_initial hbefore
    (run_nil _) (by decide) hstart (by decide)
  rw [hticks] at h
  exact ⟨s₁, hstart, h.mpr (Or.inl (by decide)) _ (by simp) hsafe⟩

/-- **The duration drifts.** At 1024 Hz, 10 ms are ten ticks, which are 9 ms and then nine ticks;
and a timer of one tick cannot be restarted. -/
theorem restart_drifts :
    (∃ s₁ s₂, timerSysReady.step ⟨1024, 10, true⟩ (.start 1 10) = some s₁
      ∧ (s₁.timers.timer 1).durationTicks = 10
      ∧ s₁.step ⟨1024, 10, true⟩ (.restart 1) = some s₂ ∧ (s₂.timers.timer 1).durationTicks = 9)
    ∧ ∃ s₁, timerSysReady.step ⟨1024, 10, true⟩ (.start 1 1) = some s₁
      ∧ (timerRestart ⟨1024, 10, true⟩ s₁.timers 1).1 = .einval :=
  ⟨⟨_, _, rfl, by decide +kernel, rfl, by decide +kernel⟩, _, rfl, by decide +kernel⟩

end TimerSys

end VibeRtos
