import VibeRtos.Kernel.Tickless
import VibeRtos.Proof.SleepOrder
import VibeRtos.Proof.TimerReentry

/-!
# When the hardware is told to wake up

The sleep list is in order, so the next wakeup is the earliest expiry. The idle loop gives its
distance, and forgets the timers; the other two places give the expiry itself, which is a distance
only as long as the tick counter is zero or the expiry has wrapped.
-/

namespace VibeRtos

open Kernel Runs

/-- A next wakeup that is on its way to `arch_set_next_tick` is one. -/
def Hand.Sane : Hand → Prop
  | .absolute next | .relative next => next ≠ waitForever
  | _ => True

namespace Tickless

/-- The sleep list is in order, and what the callers have in hand is a next wakeup. -/
structure Inv (s : Tickless) : Prop where
  order : ∃ ys, s.sleep.InOrder ys
  hand : ∀ c, (s.hand c).Sane

variable {cfg : Config} {s s' : Tickless} {l : Label} {c : Option Tid} {next now e : UInt32}

/-! ## Steps -/

theorem Inv.setHand (h : s.Inv) (c : Option Tid) {w : Hand} (hw : w.Sane) :
    (s.setHand c w).Inv := by
  refine ⟨h.order, fun c' => ?_⟩
  show (Function.update s.hand c w c').Sane
  rw [Function.update_apply]
  split
  · exact hw
  · exact h.hand c'

theorem Inv.timerStep (h : s.Inv) {tl : TimerSys.Label} (hs : s.timerStep cfg tl = some s') :
    s'.Inv := by
  obtain ⟨timers, -, rfl⟩ := Option.map_eq_some_iff.mp hs
  exact ⟨h.order, h.hand⟩

/-- A call that starts a timer goes on to `_vibe_sched_next_wakeup`, unless it is rejected. -/
theorem Inv.timerCall (h : s.Inv) {tl : TimerSys.Label} {rejected : Prop} [Decidable rejected]
    (hs : ((s.timerStep cfg tl).map fun s' => if rejected then s' else s'.setHand c .toRead)
      = some s') : s'.Inv := by
  obtain ⟨s₁, hs₁, rfl⟩ := Option.map_eq_some_iff.mp hs
  have h₁ := h.timerStep hs₁
  split
  · exact h₁
  · exact h₁.setHand c trivial

theorem Inv.step (h : s.Inv) (hs : s.step cfg l = some s') : s'.Inv := by
  obtain ⟨ys, hord⟩ := h.order
  have hnodes : s.sleepers = ys := hord.rep.nodes (length_le_walkBound hord.rep.nodup)
  cases l with
  | threadSleep t ms =>
      rw [Tickless.step] at hs
      split at hs
      · exact absurd hs (by simp)
      · rename_i hok
        obtain rfl := Option.some.inj hs
        have ht : t ∉ ys := fun hin => hok (Or.inl (hnodes ▸ hin))
        -- leaving the run queue does not touch the sleep list
        have hdeq : SleepSys.InOrder ⟨s.sleep.k.schedDequeue t, s.sleep.log⟩ ys :=
          hord.congr rfl (fun _ _ => rfl) (fun _ _ => rfl) rfl
        have hnew : Inv { s with sleep := _ } :=
          ⟨hdeq.sleep ht (s.now + msToTicks cfg ms), h.hand⟩
        exact hnew.setHand _ trivial
  | timerStart c x ms =>
      rw [Tickless.step] at hs
      split at hs
      · exact absurd hs (by simp)
      · exact h.timerCall hs
  | timerRestart c x =>
      rw [Tickless.step] at hs
      split at hs
      · exact absurd hs (by simp)
      · exact h.timerCall hs
  | timerStop x => exact h.timerStep hs
  | tick =>
      have hk : Inv
        { s with sleep := { s.sleep with k := { s.sleep.k with tickCount := s.now + 1 } } } :=
        ⟨⟨ys, hord.congr rfl (fun _ _ => rfl) (fun _ _ => rfl) rfl⟩, h.hand⟩
      exact hk.timerStep hs
  | visit => exact h.timerStep hs
  | ret => exact h.timerStep hs
  | wake =>
      obtain rfl := Option.some.inj hs
      exact ⟨⟨_, hord.wake s.now⟩, h.hand⟩
  | idle t =>
      rw [Tickless.step] at hs
      split at hs
      · exact absurd hs (by simp)
      · obtain rfl := Option.some.inj hs
        exact h.setHand _ trivial
  | go c =>
      rw [Tickless.step] at hs
      split at hs
      · obtain rfl := Option.some.inj hs
        -- `VIBE_WAIT_FOREVER` is not passed on
        refine h.setHand c ?_
        split
        · assumption
        · trivial
      · obtain rfl := Option.some.inj hs
        refine h.setHand c ?_
        split
        · rename_i hok
          exact hok.1
        · trivial
      · exact absurd hs (by simp)
  | program c =>
      rw [Tickless.step] at hs
      split at hs
      · obtain rfl := Option.some.inj hs
        exact h.setHand c trivial
      · obtain rfl := Option.some.inj hs
        exact h.setHand c trivial
      · exact absurd hs (by simp)
  | elsewhere k =>
      obtain rfl := Option.some.inj hs
      obtain ⟨ys', hord'⟩ := hord.step (l := .elsewhere k) rfl
      exact ⟨⟨ys', hord'.congr rfl (fun _ _ => rfl) (fun _ _ => rfl) rfl⟩, h.hand⟩

theorem Initial.inv (h : s.Initial) : s.Inv := by
  refine ⟨⟨[], ?_, List.Pairwise.nil, fun e => ?_⟩, fun c => ?_⟩
  · rw [h.sleep]
    exact listRep_init _
  · rw [h.log]
    rfl
  · rw [h.hand c]
    trivial

/-! ## What is programmed -/

/-- The next wakeup is the earliest expiry of a sleeper. -/
theorem Inv.earliest (h : s.Inv) (hne : s.sleep.k.schedNextWakeup ≠ waitForever) :
    (∃ t ∈ s.sleepers, s.expiry t = s.sleep.k.schedNextWakeup)
      ∧ ∀ t ∈ s.sleepers, s.sleep.k.schedNextWakeup ≤ s.expiry t := by
  obtain ⟨ys, hord⟩ := h.order
  have hnodes : s.sleepers = ys := hord.rep.nodes (length_le_walkBound hord.rep.nodup)
  have hlog : s.sleep.log ≠ [] := fun h0 => hne (hord.earliest.none h0)
  obtain ⟨⟨t, ht⟩, hmin⟩ := hord.earliest.some hlog
  rw [hnodes]
  obtain ⟨hin, hexpiry⟩ := hord.mem_log.mp ht
  refine ⟨⟨t, hin, hexpiry⟩, fun u hu => ?_⟩
  exact hmin (u, s.expiry u) (hord.mem_log.mpr ⟨hu, rfl⟩)

/-- Distances of expiries that have not wrapped. -/
theorem sub_le_sub (hnow : now < next) (hle : next ≤ e) : next - now ≤ e - now := by
  have hnow' := UInt32.lt_iff_toNat_lt.mp hnow
  have hle' := UInt32.le_iff_toNat_le.mp hle
  rw [UInt32.le_iff_toNat_le, UInt32.toNat_sub_of_le _ _ (UInt32.le_of_lt hnow),
    UInt32.toNat_sub_of_le _ _ (UInt32.le_trans (UInt32.le_of_lt hnow) hle)]
  omega

/-- A distance that wraps is longer than the expiry. -/
theorem le_sub_of_lt (h : e < now) : e ≤ e - now := by
  have h' := UInt32.lt_iff_toNat_lt.mp h
  have hnow := now.toNat_lt
  rw [UInt32.le_iff_toNat_le, UInt32.toNat_sub]
  omega

/-- An expiry that has not wrapped is nearer. -/
theorem not_le_sub (hzero : now ≠ 0) (hle : now ≤ next) : ¬ next ≤ next - now := by
  have hpos : now.toNat ≠ 0 := fun h0 => hzero (UInt32.toNat_inj.mp h0)
  have hle' := UInt32.le_iff_toNat_le.mp hle
  rw [UInt32.le_iff_toNat_le, UInt32.toNat_sub_of_le _ _ hle]
  omega

/-- With a fresh read, the value is right exactly when the units agree. -/
theorem Inv.onTime_iff (h : s.Inv) (hfresh : s.Fresh l) : s.OnTime l ↔ s.UnitsAgree l := by
  cases l with
  | program c =>
      have hsane := h.hand c
      simp only [Fresh] at hfresh
      simp only [OnTime, UnitsAgree, value]
      cases hhand : s.hand c with
      | absolute next =>
          rw [hhand] at hsane hfresh
          simp only [HandFresh, HandAgrees] at hfresh ⊢
          subst hfresh
          obtain ⟨⟨t, ht, hfirst⟩, hmin⟩ := h.earliest hsane
          generalize s.sleep.k.schedNextWakeup = next at *
          simp only [Option.some.injEq, forall_eq']
          refine and_congr_left fun _ => ⟨fun hall => ?_, fun hunits u hu => ?_⟩
          · -- the first sleeper is `next - now` away, which is less than `next`
            by_cases hzero : s.now = 0
            · exact Or.inl hzero
            · refine Or.inr ⟨?_, fun u hu _ => hall u hu⟩
              have hfits := hall t ht
              rw [hfirst] at hfits
              by_contra hbehind
              exact not_le_sub hzero (UInt32.not_lt.mp hbehind) hfits
          · rcases hunits with hzero | ⟨hwrapped, hfar⟩
            · rw [hzero, UInt32.sub_zero]
              exact hmin u hu
            · by_cases hbehind : s.now ≤ s.expiry u
              · exact hfar u hu hbehind
              · exact UInt32.le_trans (hmin u hu) (le_sub_of_lt (UInt32.not_le.mp hbehind))
      | relative next =>
          rw [hhand] at hsane hfresh
          simp only [HandFresh, HandAgrees] at hfresh ⊢
          obtain ⟨rfl, hlater⟩ := hfresh
          -- the distance to the first sleeper is the least
          obtain ⟨-, hmin⟩ := h.earliest hsane
          simp only [Option.some.injEq, forall_eq']
          exact ⟨fun hall => hall.2, fun htimers =>
            ⟨fun u hu => sub_le_sub hlater (hmin u hu), htimers⟩⟩
      | _ => simp [HandAgrees]
  | _ => exact Iff.rfl

/-! ## Evaluating the guards -/

/-- What a step asks of the timer module. -/
def Label.timerLabel : Label → Option TimerSys.Label
  | .timerStart _ x ms => some (.start x ms)
  | .timerRestart _ x => some (.restart x)
  | .timerStop x => some (.stop x)
  | .tick => some .tick
  | .visit => some .visit
  | .ret => some .ret
  | _ => none

/-- What callbacks do to the timers is safe. -/
def TimersSafe (cfg : Config) (s : Tickless) (l : Label) : Prop :=
  ∀ tl ∈ l.timerLabel, s.timers.Safe cfg tl

instance : Decidable (s.TimersSafe cfg l) := Option.decidableForallMem _

theorem timerStep_timers {tl : TimerSys.Label} (hs : s.timerStep cfg tl = some s') :
    s.timers.step cfg tl = some s'.timers := by
  obtain ⟨timers, hstep, rfl⟩ := Option.map_eq_some_iff.mp hs
  exact hstep

theorem timerCall_timers {tl : TimerSys.Label} {rejected : Prop} [Decidable rejected]
    (hs : ((s.timerStep cfg tl).map fun s' => if rejected then s' else s'.setHand c .toRead)
      = some s') : s.timers.step cfg tl = some s'.timers := by
  obtain ⟨s₁, hs₁, rfl⟩ := Option.map_eq_some_iff.mp hs
  rw [timerStep_timers hs₁]
  split <;> rfl

/-- The timers of a step are those of a step of the timer module, or as before. -/
theorem step_timers (hs : s.step cfg l = some s') :
    (∀ tl ∈ l.timerLabel, s.timers.step cfg tl = some s'.timers)
      ∧ (l.timerLabel = none → s'.timers = s.timers) := by
  cases l with
  | threadSleep t ms =>
      rw [Tickless.step] at hs
      split at hs
      · exact absurd hs (by simp)
      · obtain rfl := Option.some.inj hs
        exact ⟨by simp [Label.timerLabel], fun _ => rfl⟩
  | timerStart c x ms =>
      rw [Tickless.step] at hs
      split at hs
      · exact absurd hs (by simp)
      · refine ⟨?_, by simp [Label.timerLabel]⟩
        rintro _ ⟨⟩
        exact timerCall_timers hs
  | timerRestart c x =>
      rw [Tickless.step] at hs
      split at hs
      · exact absurd hs (by simp)
      · refine ⟨?_, by simp [Label.timerLabel]⟩
        rintro _ ⟨⟩
        exact timerCall_timers hs
  | timerStop x | visit | ret =>
      refine ⟨?_, by simp [Label.timerLabel]⟩
      rintro _ ⟨⟩
      exact timerStep_timers hs
  | tick =>
      refine ⟨?_, by simp [Label.timerLabel]⟩
      rintro _ ⟨⟩
      exact timerStep_timers (s := { s with
        sleep := { s.sleep with k := { s.sleep.k with tickCount := s.now + 1 } } }) hs
  | wake =>
      obtain rfl := Option.some.inj hs
      exact ⟨by simp [Label.timerLabel], fun _ => rfl⟩
  | elsewhere k =>
      obtain rfl := Option.some.inj hs
      exact ⟨by simp [Label.timerLabel], fun _ => rfl⟩
  | idle t =>
      obtain ⟨-, heq⟩ := Option.ite_none_left_eq_some.mp hs
      obtain rfl := Option.some.inj heq
      exact ⟨by simp [Label.timerLabel], fun _ => rfl⟩
  | go c | program c =>
      refine ⟨by simp [Label.timerLabel], fun _ => ?_⟩
      rw [Tickless.step] at hs
      split at hs
      all_goals first
        | exact (congrArg Tickless.timers (Option.some.inj hs)).symm
        | exact absurd hs (by simp)

theorem step_timersInv (h : s.timers.Inv) (hsafe : s.TimersSafe cfg l)
    (hs : s.step cfg l = some s') : s'.timers.Inv := by
  obtain ⟨hcall, hkeep⟩ := step_timers hs
  cases hl : l.timerLabel with
  | none =>
      rw [hkeep hl]
      exact h
  | some tl => exact h.step (hsafe tl hl) (hcall tl hl)

/-- The timers in the list. -/
def runningTimers (s : Tickless) : List TimerId :=
  SList.nodesFrom s.timers.timers.next (2 ^ 32) s.timers.timers.head

theorem mem_runningTimers (h : s.timers.Inv) (x : TimerId) :
    x ∈ s.runningTimers ↔ (s.timer x).active := by
  obtain ⟨xs, hx⟩ := h.ready.list
  rw [runningTimers, hx.path.nodesFrom_eq hx.fits.le]
  exact hx.active x

/-- `HandAgrees`, for the timers in the list. -/
def HandAgreesListed (s : Tickless) : Hand → Prop
  | .absolute next =>
      (s.now = 0
        ∨ next < s.now ∧ ∀ t ∈ s.sleepers, s.now ≤ s.expiry t → next ≤ s.expiry t - s.now)
        ∧ ∀ x ∈ s.runningTimers, next ≤ (s.timer x).remaining
  | .relative next => ∀ x ∈ s.runningTimers, next - s.now ≤ (s.timer x).remaining
  | _ => True

def UnitsAgreeListed (s : Tickless) : Label → Prop
  | .program c => s.HandAgreesListed (s.hand c)
  | _ => True

-- through `List.all`, so that the timers tested are those of the list, not all addresses
instance (s : Tickless) : (w : Hand) → Decidable (s.HandAgreesListed w)
  | .absolute next => decidable_of_iff ((s.now = 0 ∨ next < s.now
      ∧ s.sleepers.all fun t => s.now ≤ s.expiry t → next ≤ s.expiry t - s.now)
      ∧ s.runningTimers.all fun x => next ≤ (s.timer x).remaining)
      (by simp only [List.all_eq_true, decide_eq_true_eq, HandAgreesListed])
  | .relative next => decidable_of_iff
      (s.runningTimers.all fun x => next - s.now ≤ (s.timer x).remaining)
      (by simp only [List.all_eq_true, decide_eq_true_eq, HandAgreesListed])
  | .nothing | .toRead | .toTest _ => isTrue trivial

instance (s : Tickless) (l : Label) : Decidable (s.UnitsAgreeListed l) := by
  unfold UnitsAgreeListed
  split <;> infer_instance

/-- Where the timer list is in order, the units agree for all timers if they do for those in it. -/
theorem unitsAgree_iff_listed (h : s.timers.Inv) : s.UnitsAgree l ↔ s.UnitsAgreeListed l := by
  cases l with
  | program c =>
      simp only [UnitsAgree, UnitsAgreeListed]
      cases s.hand c with
      | absolute next | relative next =>
          simp only [HandAgrees, HandAgreesListed, mem_runningTimers h]
      | _ => exact Iff.rfl
  | _ => exact Iff.rfl

instance (s : Tickless) : (h : Hand) → Decidable (s.HandFresh h)
  | .absolute next => inferInstanceAs (Decidable (next = _))
  | .relative next => inferInstanceAs (Decidable (next = _ ∧ next > _))
  | .nothing | .toRead | .toTest _ => isTrue trivial

instance (s : Tickless) (l : Label) : Decidable (s.Fresh l) := by
  unfold Fresh
  split <;> infer_instance

/-- Thread 9 is the idle thread, nobody sleeps, and no timer is running. -/
def ticklessReady : Tickless where
  sleep := ⟨bss ⟨1000, 10, true⟩ (fun _ => threadDefine [] 256 1 0 0 0) (some 9), []⟩
  timers := timerSysReady
  hand := fun _ => .nothing

theorem ticklessReady_initial : ticklessReady.Initial :=
  ⟨rfl, rfl, timerSysReady_initial, fun _ => rfl⟩

/-- Timer 1 runs for 60 ticks, threads 1 and 2 sleep for 20 and 40; at tick 5 the idle loop has read
the next wakeup. -/
def idleAtFive : List Label :=
  [.timerStart (some 1) 1 60, .go (some 1), .threadSleep 1 20, .go (some 1), .program (some 1),
    .threadSleep 2 40, .go (some 2), .program (some 2)]
  ++ (List.replicate 5 [.tick, .visit, .visit, .wake]).flatten ++ [.idle 9, .go (some 9)]

/-- One run of the tick handler when no timer is running. -/
def quietTick : List Label := [.tick, .visit, .wake]

end Tickless

end VibeRtos
