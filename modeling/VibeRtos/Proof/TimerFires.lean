import VibeRtos.Kernel.TimerSystem
import VibeRtos.Proof.TimerList

/-!
# When a timer fires

When no callback touches the timers, a tick does to each timer what `Timer.visited` does
to a timer that is alone, and the list they are kept in shows nowhere: `Timer.alone` runs
one timer through the calls that concern it, and `runTimers_alone` says that it fires
there on the ticks on which it fires among all the others. Counting the ticks of a
single timer is then arithmetic.
-/

namespace VibeRtos

open SList

/-! ## A timer alone -/

namespace Timer

/-- The callback of the timer is called in this tick. -/
def Fires (x : Timer) : Prop := x.Expires ∧ x.expiryFn ≠ none

instance (x : Timer) : Decidable x.Fires := inferInstanceAs (Decidable (_ ∧ _))

/-- What an active timer and an inactive one look like. -/
def Fit (x : Timer) : Prop :=
  if x.active then 0 < x.remaining.toNat ∧ 0 < x.durationTicks.toNat else x.remaining = 0

/-- The timer after a call or tick, and whether it fires. -/
def alone (cfg : Config) (t : TimerId) (x : Timer) : TimerOp → Timer × List Bool
  | .start u ms => (if u = t ∧ ms ≠ 0 then { x with
      durationTicks := startTicks cfg ms, remaining := startTicks cfg ms, active :=
        true } else x, [])
  | .stop u => (if u = t ∧ x.active then { x with active := false, remaining := 0 } else x, [])
  | .restart u => (if u = t ∧ ticksToMs cfg x.durationTicks ≠ 0 then { x with
      durationTicks := startTicks cfg (ticksToMs cfg x.durationTicks)
      remaining := startTicks cfg (ticksToMs cfg x.durationTicks)
      active := true } else x, [])
  | .tick => (x.visited, [decide x.Fires])

/-- A sequence of calls and ticks. -/
def runAlone (cfg : Config) (t : TimerId) : Timer → List TimerOp → Timer × List Bool
  | x, [] => (x, [])
  | x, op :: ops =>
      let r := x.alone cfg t op
      let r' := runAlone cfg t r.1 ops
      (r'.1, r.2 ++ r'.2)

/-- Nothing looks at the link. -/
theorem ticked_core (x : Timer) : x.core.ticked = x.ticked.core := by
  unfold ticked
  show (if x.remaining > 0 then _ else _) = _
  split <;> rfl

theorem expires_core (x : Timer) : x.core.Expires ↔ x.Expires := by
  unfold Expires
  rw [ticked_core]
  rfl

theorem visited_core (x : Timer) : x.core.visited = x.visited.core := by
  unfold visited
  rw [ticked_core]
  by_cases he : x.Expires
  · rw [if_pos he, if_pos ((expires_core x).mpr he)]
    show (if x.mode = .periodic then _ else _) = _
    split <;> rfl
  · rw [if_neg he, if_neg fun hc => he ((expires_core x).mp hc)]

theorem fires_core (x : Timer) : x.core.Fires ↔ x.Fires := and_congr (expires_core x) Iff.rfl

/-- The two kinds of timers, in a tick. -/
theorem visited_inactive {x : Timer} (h : x.Fit) (hoff : x.active = false) :
    x.visited = x ∧ ¬ x.Expires := by
  have hzero : x.remaining = 0 := by simpa [Fit, hoff] using h
  have hnot : ¬ x.Expires := by
    rintro ⟨-, hon⟩
    rw [hoff] at hon
    exact absurd hon (by simp)
  refine ⟨?_, hnot⟩
  rw [visited, if_neg hnot, ticked, if_neg]
  rw [hzero]
  exact UInt32.lt_irrefl 0

theorem expires_iff {x : Timer} (h : x.Fit) (hon : x.active) :
    x.Expires ↔ x.remaining.toNat = 1 := by
  have hpos : 0 < x.remaining.toNat := by
    rw [Fit, if_pos hon] at h
    exact h.1
  have htick := ticked_of_pos hpos
  constructor
  · rintro ⟨hzero, -⟩
    rw [hzero] at htick
    have h0 : (0 : UInt32).toNat = 0 := rfl
    omega
  · intro hone
    refine ⟨UInt32.toNat_inj.mp ?_, hon⟩
    rw [htick, hone]
    rfl

/-- A tick keeps the shape. -/
theorem Fit.visited {x : Timer} (h : x.Fit) : x.visited.Fit := by
  cases hon : x.active with
  | false =>
      rw [(visited_inactive h hon).1]
      exact h
  | true =>
      have hexp := expires_iff h hon
      rw [Fit, if_pos hon] at h
      have htick := ticked_of_pos h.1
      unfold Timer.visited
      split
      · rename_i he
        split
        · exact (if_pos (show x.ticked.active = true by rw [ticked_active, hon])).mpr
            ⟨h.2, by rw [ticked_durationTicks]; exact h.2⟩
        · exact he.1
      · rename_i he
        refine (if_pos (show x.ticked.active = true by rw [ticked_active, hon])).mpr ⟨?_, ?_⟩
        · have hne : x.remaining.toNat ≠ 1 := fun h1 => he (hexp.mpr h1)
          omega
        · rw [ticked_durationTicks]
          exact h.2

theorem startTicks_pos (cfg : Config) (ms : UInt32) : 0 < (startTicks cfg ms).toNat := by
  unfold startTicks
  split
  · exact Nat.one_pos
  · rename_i hne
    exact Nat.pos_of_ne_zero fun h0 => hne (UInt32.toNat_inj.mp h0)

theorem startTicks_toNat (cfg : Config) (ms : UInt32) :
    (startTicks cfg ms).toNat = max 1 (msToTicks cfg ms).toNat := by
  unfold startTicks
  split
  · rename_i hzero
    rw [hzero]
    rfl
  · rename_i hne
    have hpos : 0 < (msToTicks cfg ms).toNat :=
      Nat.pos_of_ne_zero fun h0 => hne (UInt32.toNat_inj.mp h0)
    omega

/-! ## Counting ticks -/

/-- The timer after `n` ticks. -/
def after (x : Timer) (n : Nat) : Timer := visited^[n] x

/-- **A one-shot expires once**, when its count is through. -/
theorem oneShot_expires (n : Nat) : ∀ {x : Timer}, x.Fit → x.active → x.mode = .oneShot →
    ((x.after n).Expires ↔ n + 1 = x.remaining.toNat) := by
  induction n with
  | zero =>
    intro x h hon _
    exact (expires_iff h hon).trans eq_comm
  | succ n ih =>
    intro x h hon hmode
    have hexp := expires_iff h hon
    have hpos : 0 < x.remaining.toNat := by
      have hfit := h
      rw [Fit, if_pos hon] at hfit
      exact hfit.1
    show (x.visited.after n).Expires ↔ _
    by_cases he : x.Expires
    · -- it is off after this tick, and stays off
      have hoff : x.visited.active = false := by
        rw [Timer.visited, if_pos he, if_neg (by simp [hmode])]
      have hstay : x.visited.after n = x.visited :=
        Function.iterate_fixed (visited_inactive h.visited hoff).1 n
      rw [hstay]
      have hone := hexp.mp he
      exact ⟨fun hagain => absurd hagain (visited_inactive h.visited hoff).2, by omega⟩
    · have hstep : x.visited = x.ticked := by rw [Timer.visited, if_neg he]
      have hon' : x.visited.active := by rw [hstep, ticked_active]; exact hon
      have hmode' : x.visited.mode = .oneShot := by rw [hstep, ticked_mode]; exact hmode
      have htick := ticked_of_pos hpos
      rw [ih h.visited hon' hmode', hstep, htick]
      have hne : x.remaining.toNat ≠ 1 := fun h1 => he (hexp.mpr h1)
      omega

/-- **A periodic timer expires again and again**, a period apart. -/
theorem periodic_expires (n : Nat) : ∀ {x : Timer}, x.Fit → x.active → x.mode = .periodic →
    ((x.after n).Expires
      ↔ x.remaining.toNat ≤ n + 1 ∧ x.durationTicks.toNat ∣ n + 1 - x.remaining.toNat) := by
  induction n with
  | zero =>
    intro x h hon _
    have hpos : 0 < x.remaining.toNat := by
      have hfit := h
      rw [Fit, if_pos hon] at hfit
      exact hfit.1
    refine (expires_iff h hon).trans ⟨fun hone => by simp [hone], fun hle => ?_⟩
    omega
  | succ n ih =>
    intro x h hon hmode
    have hexp := expires_iff h hon
    obtain ⟨hpos, hdur⟩ : 0 < x.remaining.toNat ∧ 0 < x.durationTicks.toNat := by
      have hfit := h
      rw [Fit, if_pos hon] at hfit
      exact hfit
    show (x.visited.after n).Expires ↔ _
    by_cases he : x.Expires
    · -- the count starts again
      have hstep : x.visited = { x.ticked with remaining := x.durationTicks } := by
        rw [Timer.visited, if_pos he, if_pos hmode]
      have hon' : x.visited.active := by
        rw [hstep]
        show x.ticked.active = true
        rw [ticked_active, hon]
      have hmode' : x.visited.mode = .periodic := by
        rw [hstep]
        show x.ticked.mode = _
        rw [ticked_mode, hmode]
      have hone := hexp.mp he
      have hdur' : x.ticked.durationTicks = x.durationTicks := ticked_durationTicks x
      rw [ih h.visited hon' hmode', hstep, hone]
      dsimp only
      rw [hdur', Nat.add_sub_cancel]
      constructor
      · rintro ⟨hle, hdvd⟩
        refine ⟨by omega, ?_⟩
        have hsum := (Nat.dvd_add_self_right).mpr hdvd
        rwa [Nat.sub_add_cancel hle] at hsum
      · rintro ⟨-, hdvd⟩
        have hle := Nat.le_of_dvd (Nat.succ_pos n) hdvd
        exact ⟨hle, Nat.dvd_sub hdvd (dvd_refl _)⟩
    · have hstep : x.visited = x.ticked := by rw [Timer.visited, if_neg he]
      have hon' : x.visited.active := by rw [hstep, ticked_active]; exact hon
      have hmode' : x.visited.mode = .periodic := by rw [hstep, ticked_mode]; exact hmode
      have htick := ticked_of_pos hpos
      have hne : x.remaining.toNat ≠ 1 := fun h1 => he (hexp.mpr h1)
      rw [ih h.visited hon' hmode', hstep, htick, ticked_durationTicks]
      have hsub : n + 1 + 1 - x.remaining.toNat = n + 1 - (x.remaining.toNat - 1) := by omega
      rw [hsub]
      constructor
      · rintro ⟨hle, hdvd⟩
        exact ⟨by omega, hdvd⟩
      · rintro ⟨hle, hdvd⟩
        exact ⟨by omega, hdvd⟩

end Timer

/-! ## A tick among others -/

namespace Timers

variable {m : Timers} {xs : List TimerId} {t u : TimerId}

theorem visited_expiryFn (x : Timer) : x.visited.expiryFn = x.expiryFn := by
  have htick : x.ticked.expiryFn = x.expiryFn := by
    unfold Timer.ticked
    split <;> rfl
  unfold Timer.visited
  split
  · split <;> exact htick
  · exact htick

/-- What the rest of the loop does to the rest of the list. -/
theorem tickLoop_spec (bs : List TimerId) : ∀ (fuel : Nat) (m : Timers) (as : List TimerId),
    m.Holds (as ++ bs) → bs.length < fuel →
    let r := timerTickLoop fuel m bs.head? as.getLast?
    (∃ xs, r.1.Holds xs) ∧ (∀ u ∈ bs, (r.1.timer u).core = (m.timer u).visited.core)
      ∧ (∀ u, u ∉ bs → (r.1.timer u).core = (m.timer u).core)
      ∧ r.2 = bs.filter fun u => (m.timer u).Fires := by
  induction bs with
  | nil =>
    intro fuel m as h hfuel
    obtain ⟨fuel, rfl⟩ := Nat.exists_eq_add_one_of_ne_zero (Nat.pos_iff_ne_zero.mp hfuel)
    exact ⟨⟨_, h⟩, by simp, fun _ _ => rfl, rfl⟩
  | cons t bs ih =>
    intro fuel m as h hfuel
    obtain ⟨fuel, rfl⟩ := Nat.exists_eq_add_one_of_ne_zero (Nat.pos_iff_ne_zero.mp
      (Nat.lt_of_le_of_lt (Nat.zero_le _) hfuel))
    have hlen : bs.length < fuel := Nat.lt_of_succ_lt_succ hfuel
    have htb : t ∉ bs := (List.nodup_cons.mp (List.nodup_append.mp h.nodup).2.1).1
    obtain ⟨hnext, hfired, hself, hother, hlist⟩ := h.visit fun _ _ => rfl
    generalize hv : timerVisit m t as.getLast? = v at hnext hfired hself hother hlist
    have hfn : (v.timers.timer t).expiryFn = (m.timer t).expiryFn := by
      have hcore := congrArg Timer.expiryFn hself
      exact hcore.trans (visited_expiryFn _)
    -- the tick goes on behind `t`, or behind its predecessor if `t` has left the list
    obtain ⟨as', hholds, hprev⟩ : ∃ as', v.timers.Holds (as' ++ bs) ∧ v.prev = as'.getLast? := by
      split at hlist
      · exact ⟨as, hlist⟩
      · refine ⟨as ++ [t], ?_, ?_⟩
        · rw [List.append_assoc]
          exact hlist.1
        · rw [hlist.2]
          simp
    have hrest := ih fuel v.timers as' hholds hlen
    have hloop : timerTickLoop (fuel + 1) m (t :: bs).head? as.getLast?
        = ((timerTickLoop fuel v.timers bs.head? as'.getLast?).1,
          if (m.timer t).Fires then t :: (timerTickLoop fuel v.timers bs.head? as'.getLast?).2
          else (timerTickLoop fuel v.timers bs.head? as'.getLast?).2) := by
      rw [List.head?_cons, timerTickLoop, hv, hnext, hprev, hfn]
      refine congrArg _ (if_congr ?_ rfl rfl)
      exact and_congr hfired Iff.rfl
    dsimp only
    rw [hloop]
    obtain ⟨hsome, hin, hout, hlast⟩ := hrest
    have hsame : ∀ u ∈ bs, (v.timers.timer u).core = (m.timer u).core := by
      intro u hu
      refine hother u ?_
      rintro rfl
      exact htb hu
    refine ⟨hsome, fun u hu => ?_, fun u hu => ?_, ?_⟩
    · by_cases hut : u = t
      · subst hut
        rw [hout u htb, hself]
      · have hub : u ∈ bs := (List.mem_cons.mp hu).resolve_left hut
        rw [hin u hub, ← Timer.visited_core, hsame u hub, Timer.visited_core]
    · have hut : u ≠ t := fun he => hu (he ▸ List.mem_cons_self)
      rw [hout u fun hin => hu (List.mem_cons_of_mem _ hin), hother u hut]
    · have hfilter : bs.filter (fun u => (v.timers.timer u).Fires)
          = bs.filter fun u => (m.timer u).Fires := by
        refine List.filter_congr fun u hu => ?_
        rw [decide_eq_decide, ← Timer.fires_core, hsame u hu, Timer.fires_core]
      dsimp only
      rw [hlast, hfilter, List.filter_cons]
      simp only [decide_eq_true_eq]

/-- The list is in order, and so is every timer. -/
structure Ready (m : Timers) : Prop where
  list : ∃ xs, m.Holds xs
  fit : ∀ t, (m.timer t).Fit

/-- **A tick treats every timer as if it were alone.** -/
theorem Ready.tick (h : m.Ready) : (timerTick m).1.Ready ∧ (timerTick m).2.Nodup
    ∧ ∀ u, ((timerTick m).1.timer u).core = (m.timer u).core.visited
      ∧ (u ∈ (timerTick m).2 ↔ (m.timer u).Fires) := by
  obtain ⟨xs, hx⟩ := h.list
  obtain ⟨hsome, hin, hout, hfired⟩ := tickLoop_spec xs (2 ^ 32) m [] hx hx.fits
  have htick : timerTickLoop (2 ^ 32) m xs.head? [].getLast? = timerTick m := by
    rw [timerTick, hx.path.head]
    rfl
  rw [htick] at hsome hin hout hfired
  have hoff : ∀ u, u ∉ xs → (m.timer u).active = false := fun u hu => by
    rw [← Bool.not_eq_true, ← hx.active u]
    exact hu
  have hcore : ∀ u, ((timerTick m).1.timer u).core = (m.timer u).core.visited := by
    intro u
    rw [Timer.visited_core]
    by_cases hu : u ∈ xs
    · exact hin u hu
    · rw [hout u hu, (Timer.visited_inactive (h.fit u) (hoff u hu)).1]
  refine ⟨⟨hsome, fun u => ?_⟩, ?_, fun u => ⟨hcore u, ?_⟩⟩
  · have hfit : (m.timer u).core.Fit := h.fit u
    have hfit' := hfit.visited
    rw [← hcore u] at hfit'
    exact hfit'
  · rw [hfired]
    exact hx.nodup.filter _
  · rw [hfired, List.mem_filter, decide_eq_true_eq]
    refine ⟨fun hand => hand.2, fun hf => ⟨?_, hf⟩⟩
    by_contra hu
    exact (Timer.visited_inactive (h.fit u) (hoff u hu)).2 hf.1

/-- So does a start. -/
theorem Ready.start (cfg : Config) (h : m.Ready) (ms : UInt32) (t : TimerId) :
    (timerStart cfg m t ms).2.Ready
    ∧ ∀ u, ((timerStart cfg m t ms).2.timer u).core = if t = u ∧ ms ≠ 0 then
      { (m.timer u).core with
        durationTicks := startTicks cfg ms, remaining := startTicks cfg ms, active := true }
      else (m.timer u).core := by
  by_cases hms : ms = 0
  · have hsame : timerStart cfg m t ms = (.einval, m) := if_pos hms
    rw [hsame]
    refine ⟨h, fun u => ?_⟩
    rw [if_neg fun hand => hand.2 hms]
  · obtain ⟨xs, hx⟩ := h.list
    obtain ⟨-, hlist, hself, hother⟩ := hx.start cfg hms t
    have hcore : ∀ u, ((timerStart cfg m t ms).2.timer u).core = if t = u ∧ ms ≠ 0 then
        { (m.timer u).core with
          durationTicks := startTicks cfg ms, remaining := startTicks cfg ms, active := true }
        else (m.timer u).core := by
      intro u
      by_cases hu : t = u
      · subst hu
        rw [if_pos ⟨rfl, hms⟩, hself]
      · rw [if_neg fun hand => hu hand.1, hother u (Ne.symm hu)]
    refine ⟨⟨⟨_, hlist⟩, fun u => ?_⟩, hcore⟩
    have hfit : ((timerStart cfg m t ms).2.timer u).core.Fit := by
      rw [hcore u]
      split
      · exact (if_pos rfl).mpr ⟨Timer.startTicks_pos cfg ms, Timer.startTicks_pos cfg ms⟩
      · exact h.fit u
    exact hfit

/-- And a stop. -/
theorem Ready.stop (h : m.Ready) (t : TimerId) : (timerStop m t).2.Ready
    ∧ ∀ u, ((timerStop m t).2.timer u).core = if t = u ∧ (m.timer u).active then
      { (m.timer u).core with active := false, remaining := 0 } else (m.timer u).core := by
  by_cases hon : (m.timer t).active
  · obtain ⟨xs, hx⟩ := h.list
    obtain ⟨as, bs, rfl⟩ := List.append_of_mem ((hx.active t).mpr hon)
    obtain ⟨-, hlist, hself, hother⟩ := hx.stop
    have hcore : ∀ u, ((timerStop m t).2.timer u).core = if t = u ∧ (m.timer u).active then
        { (m.timer u).core with active := false, remaining := 0 } else (m.timer u).core := by
      intro u
      by_cases hu : t = u
      · subst hu
        rw [if_pos ⟨rfl, hon⟩, hself]
      · rw [if_neg fun hand => hu hand.1, hother u (Ne.symm hu)]
    refine ⟨⟨⟨_, hlist⟩, fun u => ?_⟩, hcore⟩
    have hfit : ((timerStop m t).2.timer u).core.Fit := by
      rw [hcore u]
      split
      · rfl
      · exact h.fit u
    exact hfit
  · rw [stop_inactive hon]
    refine ⟨h, fun u => ?_⟩
    rw [if_neg]
    rintro ⟨rfl, hact⟩
    exact hon hact

/-! ## Runs -/

/-- One call or tick. -/
theorem Ready.exec (cfg : Config) (h : m.Ready) (op : TimerOp) (t : TimerId) :
    (op.exec cfg m).1.Ready
      ∧ ((op.exec cfg m).1.timer t).core = ((m.timer t).core.alone cfg t op).1
      ∧ (op.exec cfg m).2.map (fun fired => decide (t ∈ fired))
        = ((m.timer t).core.alone cfg t op).2
      ∧ ∀ fired ∈ (op.exec cfg m).2, fired.Nodup := by
  cases op with
  | start u ms =>
      obtain ⟨hready, hcore⟩ := h.start cfg ms u
      exact ⟨hready, hcore t, rfl, by simp [TimerOp.exec]⟩
  | stop u =>
      obtain ⟨hready, hcore⟩ := h.stop u
      exact ⟨hready, hcore t, rfl, by simp [TimerOp.exec]⟩
  | restart u =>
      obtain ⟨hready, hcore⟩ := h.start cfg
        (ticksToMs cfg (m.timer u).durationTicks) u
      refine ⟨hready, (hcore t).trans ?_, rfl, by simp [TimerOp.exec]⟩
      by_cases hu : u = t
      · subst hu
        rfl
      · rw [if_neg fun hand => hu hand.1]
        exact (if_neg fun hand => hu hand.1).symm
  | tick =>
      obtain ⟨hready, hnodup, hall⟩ := h.tick
      refine ⟨hready, (hall t).1, ?_, ?_⟩
      · show [decide (t ∈ (timerTick m).2)] = [decide (m.timer t).core.Fires]
        rw [List.cons.injEq, decide_eq_decide]
        exact ⟨(hall t).2.trans (Timer.fires_core _).symm, rfl⟩
      · intro fired hf
        obtain rfl := List.mem_singleton.mp hf
        exact hnodup

/-- **A timer fires among others when it fires alone.** -/
theorem runTimers_alone (cfg : Config) (ops : List TimerOp) (t : TimerId) :
    ∀ {m : Timers}, m.Ready →
    (runTimers cfg m ops).1.Ready
      ∧ ((runTimers cfg m ops).1.timer t).core = ((m.timer t).core.runAlone cfg t ops).1
      ∧ (runTimers cfg m ops).2.map (fun fired => decide (t ∈ fired))
        = ((m.timer t).core.runAlone cfg t ops).2
      ∧ ∀ fired ∈ (runTimers cfg m ops).2, fired.Nodup := by
  induction ops with
  | nil => exact fun h => ⟨h, rfl, rfl, by simp [runTimers]⟩
  | cons op ops ih =>
    intro m h
    obtain ⟨hready, hcore, hfired, hnodup⟩ := h.exec cfg op t
    obtain ⟨hready', hcore', hfired', hnodup'⟩ := ih hready
    rw [hcore] at hcore' hfired'
    refine ⟨hready', hcore', ?_, fun fired hf => ?_⟩
    · rw [runTimers, Timer.runAlone]
      dsimp only
      rw [List.map_append, hfired, hfired']
    · rcases List.mem_append.mp hf with hf | hf
      · exact hnodup fired hf
      · exact hnodup' fired hf

theorem Initial.ready (h : m.Initial) : m.Ready := by
  have hoff : ∀ t, (m.timer t).active = false ∧ (m.timer t).next = none
      ∧ (m.timer t).remaining = 0 := by
    intro t
    obtain ⟨fn, data, mode, ht⟩ := h.timer t
    rw [ht]
    exact ⟨rfl, rfl, rfl⟩
  refine ⟨⟨[], ?_, List.nodup_nil, fun t => ?_, fun t _ => (hoff t).2.1⟩, fun t => ?_⟩
  · exact h.head
  · simp [(hoff t).1]
  · simp [Timer.Fit, (hoff t).1, (hoff t).2.2]

end Timers

/-- The call starts timer `t`. -/
def TimerOp.Starts (t : TimerId) : TimerOp → Prop
  | .start u _ | .restart u => u = t
  | .stop _ | .tick => False

namespace Timer

variable {cfg : Config} {t : TimerId}

/-- A call on another timer. -/
theorem alone_of_not_concerns (x : Timer) {op : TimerOp} (h : ¬ op.Concerns t) :
    x.alone cfg t op = (x, []) := by
  cases op with
  | start u ms => exact congrArg (·, []) (if_neg fun hand => h hand.1)
  | stop u => exact congrArg (·, []) (if_neg fun hand => h hand.1)
  | restart u => exact congrArg (·, []) (if_neg fun hand => h hand.1)
  | tick => exact absurd trivial h

/-- Only the calls on the timer matter. -/
theorem runAlone_filter (ops : List TimerOp) : ∀ x : Timer,
    x.runAlone cfg t ops = x.runAlone cfg t (ops.filter fun op => op.Concerns t) := by
  induction ops with
  | nil => exact fun _ => rfl
  | cons op ops ih =>
    intro x
    by_cases h : op.Concerns t
    · rw [List.filter_cons_of_pos (by simpa using h), runAlone, runAlone, ih]
    · rw [List.filter_cons_of_neg (by simpa using h), runAlone, alone_of_not_concerns x h]
      exact ih x

/-- With nothing but ticks, the timer counts. -/
theorem runAlone_ticks (ops : List TimerOp) : ∀ x : Timer,
    (∀ op ∈ ops, op.Concerns t → op = .tick) → (x.runAlone cfg t ops).2
      = (List.range (ops.count .tick)).map fun i => decide (x.after i).Fires := by
  induction ops with
  | nil => exact fun _ _ => rfl
  | cons op ops ih =>
    intro x h
    have hrest : ∀ op ∈ ops, op.Concerns t → op = .tick := fun op' hop =>
      h op' (List.mem_cons_of_mem _ hop)
    by_cases hc : op.Concerns t
    · obtain rfl := h op List.mem_cons_self hc
      rw [runAlone]
      dsimp only [alone]
      rw [ih x.visited hrest, List.count_cons_self, List.range_succ_eq_map, List.map_cons,
        List.map_map]
      rfl
    · have hne : op ≠ .tick := by
        rintro rfl
        exact hc trivial
      rw [runAlone, alone_of_not_concerns x hc, List.count_cons_of_ne hne]
      exact ih x hrest

/-- A timer that is off does not fire before it is started. -/
theorem runAlone_off (ops : List TimerOp) : ∀ {x : Timer}, x.Fit → x.active = false →
    (∀ op ∈ ops, ¬ op.Starts t) → ∀ b ∈ (x.runAlone cfg t ops).2, b = false := by
  induction ops with
  | nil => exact fun _ _ _ _ hb => absurd hb (by simp [runAlone])
  | cons op ops ih =>
    intro x hfit hoff h b hb
    obtain ⟨hvis, hexp⟩ := visited_inactive hfit hoff
    have hop := h op List.mem_cons_self
    -- the timer stays as it is
    have hsame : (x.alone cfg t op).1 = x ∧ ∀ b ∈ (x.alone cfg t op).2, b = false := by
      cases op with
      | start u ms => exact ⟨if_neg fun hand => hop hand.1, by simp [alone]⟩
      | restart u => exact ⟨if_neg fun hand => hop hand.1, by simp [alone]⟩
      | stop u => exact ⟨if_neg fun hand => by simp [hoff] at hand, by simp [alone]⟩
      | tick =>
          refine ⟨hvis, fun b hb => ?_⟩
          rw [List.mem_singleton.mp hb, decide_eq_false_iff_not]
          exact fun hf => hexp hf.1
    rcases List.mem_append.mp hb with hb | hb
    · exact hsame.2 b hb
    · rw [hsame.1] at hb
      exact ih hfit hoff (fun op' hop' => h op' (List.mem_cons_of_mem _ hop')) b hb

theorem alone_expiryFn (x : Timer) (op : TimerOp) :
    (x.alone cfg t op).1.expiryFn = x.expiryFn := by
  cases op with
  | tick => exact Timers.visited_expiryFn x
  | _ => simp only [alone]; split <;> rfl

theorem runAlone_expiryFn (ops : List TimerOp) : ∀ x : Timer,
    (x.runAlone cfg t ops).1.expiryFn = x.expiryFn := by
  induction ops with
  | nil => exact fun _ => rfl
  | cons op ops ih => exact fun x => (ih _).trans (alone_expiryFn x op)

theorem after_expiryFn (n : Nat) : ∀ x : Timer, (x.after n).expiryFn = x.expiryFn := by
  induction n with
  | zero => exact fun _ => rfl
  | succ n ih => exact fun x => (ih x.visited).trans (Timers.visited_expiryFn x)

/-- A started timer with a callback: when it fires. -/
theorem started_fires {x : Timer} {d : UInt32} (hd : 0 < d.toNat) (hfn : x.expiryFn ≠ none)
    (i : Nat) :
    (({ x with durationTicks := d, remaining := d, active := true } : Timer).after i).Fires
      ↔ match x.mode with
        | .oneShot => i + 1 = d.toNat
        | .periodic => d.toNat ∣ i + 1 := by
  obtain ⟨y, hy⟩ : ∃ y : Timer,
    { x with durationTicks := d, remaining := d, active := true } = y := ⟨_, rfl⟩
  have hfit : y.Fit := by
    rw [← hy]
    exact (if_pos rfl).mpr ⟨hd, hd⟩
  have hon : y.active := by rw [← hy]
  have hmode : y.mode = x.mode := by rw [← hy]
  have hrem : y.remaining = d ∧ y.durationTicks = d := by rw [← hy]; exact ⟨rfl, rfl⟩
  have hfires : (y.after i).Fires ↔ (y.after i).Expires := by
    refine and_iff_left ?_
    rw [after_expiryFn, ← hy]
    exact hfn
  rw [hy, hfires]
  cases hx : x.mode with
  | oneShot =>
      rw [oneShot_expires i hfit hon (hmode.trans hx), hrem.1]
  | periodic =>
      rw [periodic_expires i hfit hon (hmode.trans hx), hrem.1, hrem.2]
      dsimp only
      constructor
      · rintro ⟨hle, hdvd⟩
        have hsum := (Nat.dvd_add_self_right).mpr hdvd
        rwa [Nat.sub_add_cancel hle] at hsum
      · intro hdvd
        exact ⟨Nat.le_of_dvd (Nat.succ_pos i) hdvd, Nat.dvd_sub hdvd (dvd_refl _)⟩

end Timer

/--
**Timers are exact.**

Whatever calls and ticks came before, and whatever happens to the other timers: a
one-shot started with `d = max 1 (VIBE_MS_TO_TICKS ms)` ticks, and left alone since,
fires on the `d`-th tick that follows and on no other; a periodic one fires on exactly
the ticks that `d` divides; a timer that was stopped does not fire before it is started
again. No timer fires twice in a tick. And on which ticks a timer fires depends on the
calls on that timer only.
-/
theorem timer_exactness {cfg : Config} {m : Timers} (h : m.Initial) (before : List TimerOp)
    (t : TimerId) :
    let m₁ := (runTimers cfg m before).1
    (∀ ms ops, ms ≠ 0 → (∀ op ∈ ops, op.Concerns t → op = .tick) →
      let d := max 1 (msToTicks cfg ms).toNat
      let fired := (runTimers cfg m₁ (.start t ms :: ops)).2
      fired.length = ops.count .tick ∧ ∀ i (hi : i < fired.length), t ∈ fired[i] ↔
        match (m₁.timer t).mode with
        | .oneShot => i + 1 = d
        | .periodic => d ∣ i + 1)
    ∧ (∀ ops, (∀ op ∈ ops, ¬ op.Starts t) →
      ∀ fired ∈ (runTimers cfg m₁ (.stop t :: ops)).2, t ∉ fired)
    ∧ (∀ fired ∈ (runTimers cfg m before).2, fired.Nodup)
    ∧ ∀ (m' : Timers) (before' : List TimerOp), m'.Initial → m'.timer t = m.timer t →
      before'.filter (fun op => op.Concerns t) = before.filter (fun op => op.Concerns t) →
      (runTimers cfg m' before').2.map (fun fired => decide (t ∈ fired))
        = (runTimers cfg m before).2.map fun fired => decide (t ∈ fired) := by
  intro m₁
  obtain ⟨hready, hcore, hpattern, hnodup⟩ := Timers.runTimers_alone cfg before t h.ready
  have hfn : (m₁.timer t).core.expiryFn ≠ none := by
    obtain ⟨fn, data, mode, ht⟩ := h.timer t
    rw [hcore, Timer.runAlone_expiryFn, ht]
    simp [Timer.core, timerDefine]
  refine ⟨fun ms ops hms hops => ?_, fun ops hops fired hf => ?_, hnodup, ?_⟩
  · intro d fired
    obtain ⟨-, -, hfired, -⟩ := Timers.runTimers_alone cfg (.start t ms :: ops) t hready
    rw [Timer.runAlone] at hfired
    dsimp only [Timer.alone] at hfired
    rw [if_pos ⟨rfl, hms⟩, Timer.runAlone_ticks ops _ hops, List.nil_append] at hfired
    change fired.map _ = _ at hfired
    clear_value fired
    have hlen : fired.length = ops.count .tick := by
      have hl := congrArg List.length hfired
      simpa using hl
    refine ⟨hlen, fun i hi => ?_⟩
    have hi' := congrArg (fun l => l[i]?) hfired
    simp only [List.getElem?_map, List.getElem?_eq_getElem hi, Option.map_some,
      List.getElem?_range (hlen ▸ hi), Option.some.injEq, decide_eq_decide] at hi'
    rw [hi', Timer.started_fires (Timer.startTicks_pos cfg ms) hfn, Timer.startTicks_toNat]
    rfl
  · obtain ⟨-, -, hfired, -⟩ := Timers.runTimers_alone cfg (.stop t :: ops) t hready
    rw [Timer.runAlone] at hfired
    dsimp only [Timer.alone] at hfired
    rw [List.nil_append] at hfired
    have hfit : (m₁.timer t).core.Fit := hready.fit t
    have hoff : ∀ b ∈ (Timer.runAlone cfg t (if t = t ∧ (m₁.timer t).core.active then
        { (m₁.timer t).core with active := false, remaining := 0 } else (m₁.timer t).core)
        ops).2, b = false := by
      by_cases hon : (m₁.timer t).core.active
      · rw [if_pos ⟨rfl, hon⟩]
        exact Timer.runAlone_off ops rfl rfl hops
      · rw [if_neg fun hand => hon hand.2]
        exact Timer.runAlone_off ops hfit (by simpa using hon) hops
    have hin : decide (t ∈ fired) ∈ (runTimers cfg m₁ (.stop t :: ops)).2.map
        fun fired => decide (t ∈ fired) := List.mem_map_of_mem hf
    rw [hfired] at hin
    exact of_decide_eq_false (hoff _ hin)
  · intro m' before' h' ht hops
    obtain ⟨-, -, hpattern', -⟩ := Timers.runTimers_alone cfg before' t h'.ready
    rw [hpattern', hpattern, ht, Timer.runAlone_filter before', hops, ← Timer.runAlone_filter]

/-- Initialised one-shot timers. -/
def timersReady : Timers where
  timer := fun _ => timerDefine (some 0x100) .oneShot
  head := none

theorem timersReady_initial : timersReady.Initial :=
  ⟨rfl, fun _ => ⟨_, _, _, rfl⟩⟩

/-- Started with three milliseconds at 1000 Hz, timer 5 fires on the third tick, whatever the
timers around it do. -/
theorem timer_exactness_three :
    let fired := (runTimers ⟨1000, 10, true⟩ timersReady
      [.start 5 3, .tick, .start 6 1, .tick, .stop 7, .tick, .tick]).2
    fired.length = 4 ∧ ∃ third, fired[2]? = some third ∧ 5 ∈ third := by
  obtain ⟨hlen, hall⟩ := (@timer_exactness ⟨1000, 10, true⟩ _ timersReady_initial [] 5).1 3
    [.tick, .start 6 1, .tick, .stop 7, .tick, .tick] (by decide) (by decide)
  intro fired
  have hthird : 2 < fired.length := by
    rw [show fired.length = 4 from hlen]
    decide
  refine ⟨hlen, fired[2], List.getElem?_eq_getElem hthird, (hall 2 hthird).mpr ?_⟩
  show 2 + 1 = max 1 (msToTicks ⟨1000, 10, true⟩ 3).toNat
  decide

end VibeRtos
