import VibeRtos.Proof.TimerFires
import VibeRtos.Lib.Runs

/-!
# Callbacks that change the timer list

While the loop of the tick is in front of a timer, the list falls into two parts: what
the tick has counted down, with what callbacks have put in front, and what it has still
to reach. `Loop` says so, and every step keeps it whose label is `Safe`: a callback may
take timers out of both parts and put them in front, as long as the timer that the loop
goes on with stays where it is.
-/

namespace VibeRtos

open SList Runs

namespace TimerSys

/-- The loop is in front of `cur`, and `bs` is what it has still to reach. -/
structure Ahead (s : TimerSys) (cur : Option TimerId) (as bs : List TimerId) : Prop where
  list : s.timers.Holds (as ++ bs)
  /-- `cur` is the first of `bs`, or a callback has stopped it and nothing is left -/
  cursor : cur = bs.head? ∨ bs = [] ∧ ∃ n, cur = some n ∧ (s.timers.timer n).active = false
  ahead : ∀ t ∈ bs, s.due t ∧ s.touched t = false ∧ s.counted t = 0
  behind : ∀ t, s.due t → s.touched t = false → t ∉ bs → s.counted t = 1

/-- The loop is in front of `cur`. -/
def Loop (s : TimerSys) (cur : Option TimerId) : Prop := ∃ as bs, s.Ahead cur as bs

/-- Where the tick is. -/
def At (s : TimerSys) : TimerPc → Prop
  | .idle => (∃ xs, s.timers.Holds xs) ∧ ∀ t, s.due t → s.touched t = false → s.counted t = 1
  | .loop cur _ | .callback cur _ => s.Loop cur

/-- The invariant of the machine. -/
structure Inv (s : TimerSys) : Prop where
  fit : ∀ t, (s.timers.timer t).Fit
  place : s.At s.pc

variable {s s' : TimerSys} {cfg : Config} {l : Label} {t : TimerId} {cur prev : Option TimerId}
  {as bs : List TimerId}

theorem Inv.ready (h : s.Inv) : s.timers.Ready := by
  refine ⟨?_, h.fit⟩
  have hplace := h.place
  cases hpc : s.pc with
  | idle =>
      rw [hpc] at hplace
      exact hplace.1
  | loop cur prev =>
      rw [hpc] at hplace
      obtain ⟨as, bs, ha⟩ := hplace
      exact ⟨_, ha.list⟩
  | callback cur prev =>
      rw [hpc] at hplace
      obtain ⟨as, bs, ha⟩ := hplace
      exact ⟨_, ha.list⟩

theorem Inv.law (h : s.Inv) : s.Law := by
  obtain ⟨xs, hx⟩ := h.ready.list
  refine ⟨⟨xs, hx.path, hx.nodup, hx.active⟩, fun hpc => ?_⟩
  have hplace := h.place
  rw [hpc] at hplace
  exact hplace.2

/-! ## Timer calls -/

theorem erase_append_of_nodup {xs ys : List TimerId} (h : (xs ++ ys).Nodup) (t : TimerId) :
    (xs ++ ys).erase t = xs.erase t ++ ys.erase t := by
  by_cases ht : t ∈ xs
  · have hnot : t ∉ ys := fun hy => (List.nodup_append.mp h).2.2 t ht t hy rfl
    rw [List.erase_append_left _ ht, List.erase_of_not_mem hnot]
  · rw [List.erase_append_right _ ht, List.erase_of_not_mem ht]

/-- A callback changes timer `t`: whatever is still to reach stays so, `t` apart. -/
theorem Ahead.touch {r : Timers} {front : List TimerId} (h : s.Ahead cur as bs)
    (hlist : r.Holds (front ++ bs.erase t)) (hother : ∀ u, u ≠ t → (r.timer u).core
      = (s.timers.timer u).core)
    (hcur : cur = some t → bs.erase t = [] ∧ (r.timer t).active = false) :
    Ahead { s with timers := r, touched := Function.update s.touched t true }
      cur front (bs.erase t) := by
  have hnd : bs.Nodup := (List.nodup_append.mp h.list.nodup).2.1
  have hact : ∀ u, u ≠ t → (r.timer u).active = (s.timers.timer u).active := fun u hu =>
    Timer.active_of_core (hother u hu)
  constructor
  case list => exact hlist
  case cursor =>
      by_cases hc : cur = some t
      · obtain ⟨hnil, hoff⟩ := hcur hc
        exact Or.inr ⟨hnil, t, hc, hoff⟩
      · rcases h.cursor with hhead | ⟨hnil, n, hn, hoff⟩
        · refine Or.inl ?_
          cases bs with
          | nil => exact hhead
          | cons b bs =>
              have hbt : b ≠ t := by
                rintro rfl
                exact hc hhead
              rw [List.erase_cons_tail (by simpa using hbt)]
              exact hhead
        · have hnt : n ≠ t := by
            rintro rfl
            exact hc hn
          refine Or.inr ⟨by rw [hnil]; rfl, n, hn, ?_⟩
          dsimp only
          rw [hact n hnt, hoff]
  case ahead =>
      intro u hu
      have hut : u ≠ t := by
        rintro rfl
        exact hnd.not_mem_erase hu
      dsimp only
      rw [Function.update_of_ne hut]
      exact h.ahead u (List.mem_of_mem_erase hu)
  case behind =>
      intro u hdue htouch hu
      dsimp only at htouch
      have hut : u ≠ t := by
        rintro rfl
        rw [Function.update_self] at htouch
        exact absurd htouch (by simp)
      rw [Function.update_of_ne hut] at htouch
      exact h.behind u hdue htouch fun hin => hu ((List.mem_erase_of_ne hut).mpr hin)

/-- Starting a timer other than the one the loop goes on with. -/
theorem Loop.start (cfg : Config) {ms : UInt32} (h : s.Loop cur) (hms : ms ≠ 0)
    (hcur : cur ≠ some t) :
    Loop { s with
      timers := (timerStart cfg s.timers t ms).2
      touched := Function.update s.touched t true } cur := by
  obtain ⟨as, bs, ha⟩ := h
  obtain ⟨-, hlist, -, hother⟩ := ha.list.start cfg hms t
  rw [erase_append_of_nodup ha.list.nodup] at hlist
  exact ⟨t :: as.erase t, bs.erase t, ha.touch hlist hother fun hc => absurd hc hcur⟩

/-- Stopping an active timer; the one the loop goes on with only if it is the last. -/
theorem Loop.stop (h : s.Loop cur) (hon : (s.timers.timer t).active)
    (hcur : cur = some t → s.timers.next t = none) :
    Loop { s with
      timers := (timerStop s.timers t).2
      touched := Function.update s.touched t true } cur := by
  obtain ⟨as, bs, ha⟩ := h
  have hin := (ha.list.active t).mpr hon
  obtain ⟨us, vs, huv⟩ := List.append_of_mem hin
  have hlist := ha.list
  rw [huv] at hlist
  have hut : t ∉ us := fun hin =>
    (List.nodup_append.mp hlist.nodup).2.2 t hin t List.mem_cons_self rfl
  obtain ⟨-, hrest, hself, hother⟩ := hlist.stop
  have herase : us ++ vs = as.erase t ++ bs.erase t := by
    rw [← erase_append_of_nodup ha.list.nodup, huv, List.erase_append_right _ hut,
      List.erase_cons_head]
  rw [herase] at hrest
  refine ⟨as.erase t, bs.erase t, ha.touch hrest hother fun hc => ⟨?_, ?_⟩⟩
  · rcases ha.cursor with hhead | ⟨hnil, n, hn, hoff⟩
    · -- `t` is the first of `bs` and points nowhere
      cases bs with
      | nil => rfl
      | cons b bs =>
          obtain rfl : t = b := Option.some.inj (hc.symm.trans hhead)
          have hnext : s.timers.next t = bs.head? := ha.list.path.next_eq
          rw [hcur hc] at hnext
          rw [List.erase_cons_head, List.head?_eq_none_iff.mp hnext.symm]
    · obtain rfl : t = n := Option.some.inj (hc.symm.trans hn)
      rw [hon] at hoff
      exact absurd hoff (by simp)
  · have hoff := congrArg Timer.active hself
    exact hoff

/-- A timer call by a thread. -/
theorem Inv.call_idle (h : s.Inv) (hpc : s.pc = .idle) {r : Err × Timers} (hr : r.2.Ready) :
    Inv (s.call t r) := by
  have hplace := h.place
  rw [hpc] at hplace
  have hcall : s.call t r = { s with timers := r.2 } := by
    rw [call, hpc]
  rw [hcall]
  refine ⟨hr.fit, ?_⟩
  dsimp only
  rw [hpc]
  exact ⟨hr.list, hplace.2⟩

/-- A start or a restart. -/
theorem Inv.start (h : s.Inv) (hcall : callable s.pc = true) (ms : UInt32)
    (hsafe : ms ≠ 0 → s.pc.goesOn ≠ some t) :
    Inv (s.call t (timerStart cfg s.timers t ms)) := by
  have hready := (h.ready.start cfg ms t).1
  cases hpc : s.pc with
  | idle => exact h.call_idle hpc hready
  | loop cur prev =>
      rw [hpc] at hcall
      exact absurd hcall (by simp [callable])
  | callback next prev =>
      by_cases hms : ms = 0
      · have hsame : timerStart cfg s.timers t ms = (.einval, s.timers) := if_pos hms
        have hcall' : s.call t (.einval, s.timers) = s := by
          simp only [call, hpc, reduceCtorEq, if_false]
          rw [← hpc]
        rw [hsame, hcall']
        exact h
      · have hplace := h.place
        have hsafe' := hsafe hms
        rw [hpc] at hplace hsafe'
        obtain ⟨xs, hx⟩ := h.ready.list
        have hok := (hx.start cfg hms t).1
        have hcall' : s.call t (timerStart cfg s.timers t ms) = { s with
            timers := (timerStart cfg s.timers t ms).2
            touched := Function.update s.touched t true } := by
          simp [call, hpc, hok]
        have hloop := Loop.start cfg hplace hms hsafe'
        rw [hcall']
        refine ⟨hready.fit, ?_⟩
        dsimp only
        rw [hpc] at hloop ⊢
        exact hloop

theorem Inv.stop (h : s.Inv) (hcall : callable s.pc = true)
    (hsafe : s.pc.goesOn = some t → s.timers.next t = none) :
    Inv (s.call t (timerStop s.timers t)) := by
  have hready := (h.ready.stop t).1
  cases hpc : s.pc with
  | idle => exact h.call_idle hpc hready
  | loop cur prev =>
      rw [hpc] at hcall
      exact absurd hcall (by simp [callable])
  | callback next prev =>
      by_cases hon : (s.timers.timer t).active
      · have hplace := h.place
        rw [hpc] at hplace hsafe
        have hok : (timerStop s.timers t).1 = .ok := by
          rw [timerStop, if_neg (not_not.mpr hon)]
        have hcall' : s.call t (timerStop s.timers t) = { s with
            timers := (timerStop s.timers t).2
            touched := Function.update s.touched t true } := by
          simp [call, hpc, hok]
        have hloop := Loop.stop hplace hon hsafe
        rw [hcall']
        refine ⟨hready.fit, ?_⟩
        dsimp only
        rw [hpc] at hloop ⊢
        exact hloop
      · have hcall' : s.call t (.eagain, s.timers) = s := by
          simp only [call, hpc, reduceCtorEq, if_false]
          rw [← hpc]
        rw [Timers.stop_inactive hon, hcall']
        exact h

/-! ## The loop -/

/-- The loop body for a timer that was stopped does nothing. -/
theorem visit_inactive {m : Timers} (hfit : (m.timer t).Fit) (hoff : (m.timer t).active = false)
    (prev : Option TimerId) : timerVisit m t prev = ⟨m, false, (m.timer t).next, some t⟩ := by
  have hzero : (m.timer t).remaining = 0 := by simpa [Timer.Fit, hoff] using hfit
  have hsame : m.mod t (fun x => if x.remaining > 0 then
      { x with remaining := x.remaining - 1 } else x) = m := by
    rw [Timers.mod, if_neg (by rw [hzero]; exact UInt32.lt_irrefl 0), Function.update_eq_self]
  unfold timerVisit
  dsimp only
  rw [hsame, if_neg]
  rintro ⟨-, hon⟩
  rw [hoff] at hon
  exact absurd hon (by simp)

/-- The word that the loop has in hand is the one in front of `t`. -/
theorem Ahead.prev_eq (h : s.Ahead cur as (t :: bs)) (hlink : s.timers.link prev = some t) :
    prev = as.getLast? := by
  refine h.list.path.word_inj h.list.nodup (fun p hp => ?_) hlink
  -- only timers in the list point at anything
  rw [h.list.active p]
  by_contra hoff
  have hnone := h.list.cut p hoff
  rw [hp] at hlink
  have hsome : s.timers.next p = some t := hlink
  rw [hnone] at hsome
  exact absurd hsome (by simp)

theorem Inv.visit (h : s.Inv) (hpc : s.pc = .loop (some t) prev)
    (hsafe : (s.timers.timer t).active → (s.timers.timer t).remaining ≤ 1 →
      (s.timers.timer t).mode = .oneShot → s.timers.link prev = some t) :
    Inv (s.visit t prev) := by
  have hplace := h.place
  rw [hpc] at hplace
  obtain ⟨as, bs, ha⟩ := hplace
  have hfit := h.fit t
  rcases ha.cursor with hhead | ⟨rfl, n, hn, hoff⟩
  · -- the first timer still to reach
    obtain ⟨bs, rfl⟩ : ∃ bs', bs = t :: bs' := by
      cases bs with
      | nil => exact absurd hhead (by simp)
      | cons b bs => exact ⟨bs, by rw [Option.some.inj hhead]⟩
    have hon : (s.timers.timer t).active := (ha.list.active t).mp (by simp)
    have hexp := Timer.expires_iff hfit hon
    have hpos : (s.timers.timer t).remaining > 0 := by
      rw [Timer.Fit, if_pos hon] at hfit
      exact UInt32.lt_iff_toNat_lt.mpr hfit.1
    have hprev : (s.timers.timer t).Expires → (s.timers.timer t).mode = .oneShot →
        prev = as.getLast? := by
      intro he hmode
      refine ha.prev_eq (hsafe hon ?_ hmode)
      rw [UInt32.le_iff_toNat_le, hexp.mp he]
      exact Nat.le_refl 1
    obtain ⟨hnext, -, hself, hother, hlist⟩ := ha.list.visit hprev
    have htb : t ∉ bs := (List.nodup_cons.mp (List.nodup_append.mp ha.list.nodup).2.1).1
    obtain ⟨as', hholds⟩ : ∃ as', (timerVisit s.timers t prev).timers.Holds (as' ++ bs) := by
      split at hlist
      · exact ⟨as, hlist.1⟩
      · refine ⟨as ++ [t], ?_⟩
        rw [List.append_assoc]
        exact hlist.1
    have hcounted : (s.visit t prev).counted = Function.update s.counted t (s.counted t + 1) :=
      if_pos hpos
    have hzero : s.counted t = 0 := (ha.ahead t List.mem_cons_self).2.2
    have hloop : Ahead (s.visit t prev) bs.head? as' bs := by
      constructor
      case list => exact hholds
      case cursor => exact Or.inl rfl
      case ahead =>
          intro u hu
          have hut : u ≠ t := by
            rintro rfl
            exact htb hu
          rw [hcounted, Function.update_of_ne hut]
          exact ha.ahead u (List.mem_cons_of_mem _ hu)
      case behind =>
          intro u hdue htouch hu
          rw [hcounted]
          by_cases hut : u = t
          · subst hut
            rw [Function.update_self, hzero]
          · rw [Function.update_of_ne hut]
            exact ha.behind u hdue htouch fun hin =>
              hu ((List.mem_cons.mp hin).resolve_left hut)
    refine ⟨fun u => ?_, ?_⟩
    · by_cases hut : u = t
      · subst hut
        have hfit' : (s.timers.timer u).visited.core.Fit := (h.fit u).visited
        rw [← hself] at hfit'
        exact hfit'
      · have hfit' : (s.timers.timer u).core.Fit := h.fit u
        rw [← hother u hut] at hfit'
        exact hfit'
    · have hpc' : (s.visit t prev).pc = .callback bs.head? (timerVisit s.timers t prev).prev
          ∨ (s.visit t prev).pc = .loop bs.head? (timerVisit s.timers t prev).prev := by
        rw [← hnext, TimerSys.visit]
        dsimp only
        split
        · exact Or.inl rfl
        · exact Or.inr rfl
      rcases hpc' with hpc' | hpc'
      · rw [hpc']
        exact ⟨as', bs, hloop⟩
      · rw [hpc']
        exact ⟨as', bs, hloop⟩
  · -- a timer that a callback has stopped, and nothing behind it
    obtain rfl : t = n := Option.some.inj hn
    have hvis := visit_inactive hfit hoff prev
    have hnone : (s.timers.timer t).next = none := ha.list.cut t (by simp [hoff])
    have hzero : (s.timers.timer t).remaining = 0 := by simpa [Timer.Fit, hoff] using hfit
    have hv : s.visit t prev = { s with pc := .loop none (some t) } := by
      rw [TimerSys.visit, hvis, hnone]
      dsimp only
      rw [if_neg (by simp), if_neg (by rw [hzero]; exact UInt32.lt_irrefl 0)]
    rw [hv]
    exact ⟨h.fit, as, [], ha.list, Or.inl rfl, ha.ahead, ha.behind⟩

/-! ## Steps and runs -/

theorem Inv.step (h : s.Inv) (hsafe : s.Safe cfg l) (hs : s.step cfg l = some s') : s'.Inv := by
  cases l with
  | start t ms =>
      obtain ⟨hcall, heq⟩ := Option.ite_none_right_eq_some.mp hs
      obtain rfl := Option.some.inj heq
      exact h.start hcall ms hsafe
  | restart t =>
      obtain ⟨hcall, heq⟩ := Option.ite_none_right_eq_some.mp hs
      obtain rfl := Option.some.inj heq
      exact h.start hcall _ hsafe
  | stop t =>
      obtain ⟨hcall, heq⟩ := Option.ite_none_right_eq_some.mp hs
      obtain rfl := Option.some.inj heq
      exact h.stop hcall hsafe
  | tick =>
      cases hpc : s.pc with
      | idle =>
          rw [TimerSys.step, hpc] at hs
          obtain rfl := Option.some.inj hs
          obtain ⟨xs, hx⟩ := h.ready.list
          refine ⟨h.fit, [], xs, hx, Or.inl hx.path.head, fun t ht => ?_, fun t hdue _ hnot => ?_⟩
          · exact ⟨(hx.active t).mp ht, rfl, rfl⟩
          · exact absurd ((hx.active t).mpr hdue) hnot
      | _ =>
          rw [TimerSys.step, hpc] at hs
          exact absurd hs (by simp)
  | visit =>
      cases hpc : s.pc with
      | loop cur prev =>
          rw [TimerSys.step, hpc] at hs
          cases cur with
          | some t =>
              obtain rfl := Option.some.inj hs
              have hclean : s.Clean s.pc := hsafe
              rw [hpc] at hclean
              exact h.visit hpc hclean
          | none =>
              obtain rfl := Option.some.inj hs
              have hplace := h.place
              rw [hpc] at hplace
              obtain ⟨as, bs, ha⟩ := hplace
              have hnil : bs = [] := by
                rcases ha.cursor with hhead | ⟨hnil, -⟩
                · exact List.head?_eq_none_iff.mp hhead.symm
                · exact hnil
              subst hnil
              exact ⟨h.fit, ⟨_, ha.list⟩, fun t hdue htouch =>
                ha.behind t hdue htouch List.not_mem_nil⟩
      | _ =>
          rw [TimerSys.step, hpc] at hs
          exact absurd hs (by simp)
  | ret =>
      cases hpc : s.pc with
      | callback next prev =>
          rw [TimerSys.step, hpc] at hs
          obtain rfl := Option.some.inj hs
          have hplace := h.place
          rw [hpc] at hplace
          obtain ⟨as, bs, ha⟩ := hplace
          exact ⟨h.fit, as, bs, ha.list, ha.cursor, ha.ahead, ha.behind⟩
      | _ =>
          rw [TimerSys.step, hpc] at hs
          exact absurd hs (by simp)

theorem Initial.inv (h : s.Initial) : s.Inv := by
  have hready := h.timers.ready
  refine ⟨hready.fit, ?_⟩
  rw [h.pc]
  refine ⟨hready.list, fun t hdue => ?_⟩
  rw [h.due t] at hdue
  exact absurd hdue (by simp)

end TimerSys

/--
**When the timer list survives its callbacks.**

Whatever timer calls threads and callbacks make, as long as no callback restarts the
timer that the loop goes on with, or stops it with others behind it, and as long as the
`prev` in the loop's hand points at each one-shot that it takes out: the list is finite
and acyclic and holds the active timers once each after every call, and a tick counts
each timer down exactly once that was active before it and is left alone.
-/
theorem timer_list_along_run {cfg : Config} {s s' : TimerSys} {labels : List TimerSys.Label}
    (h : s.Initial) (hsafe : Along (TimerSys.step cfg) (TimerSys.Safe cfg) s labels)
    (hr : run (TimerSys.step cfg) s labels = some s') : s'.Law :=
  (run_guarded (fun _ _ _ hinv hl hs => TimerSys.Inv.step hinv hl hs) h.inv hsafe hr).law

/-- Initialised one-shot timers, and no tick so far. -/
def timerSysReady : TimerSys := ⟨timersReady, .idle, fun _ => false, fun _ => false, fun _ => 0⟩

theorem timerSysReady_initial : timerSysReady.Initial :=
  ⟨timersReady_initial, rfl, fun _ => rfl⟩

/-- A one-shot starts itself again from its callback, and no other timer runs. -/
theorem timer_list_along_run_rearm :
    ∃ s', run (TimerSys.step ⟨1000, 10, true⟩) timerSysReady
        [.start 1 1, .tick, .visit, .start 1 1, .ret, .visit] = some s' ∧ s'.Law := by
  obtain ⟨s', hrun⟩ : ∃ s', run (TimerSys.step ⟨1000, 10, true⟩) timerSysReady
      [.start 1 1, .tick, .visit, .start 1 1, .ret, .visit] = some s' :=
    Option.isSome_iff_exists.mp (by decide +kernel)
  refine ⟨s', hrun, timer_list_along_run timerSysReady_initial ?_ hrun⟩
  decide +kernel

/-- Two one-shots expire in one tick, and the first starts itself again from its callback: the
loop takes the second out through the head of the list, and the first with it. -/
theorem timer_rearm_lost :
    timerSysReady.Initial ∧ ∃ s', run (TimerSys.step ⟨1000, 10, true⟩) timerSysReady
        [.start 2 1, .start 1 1, .tick, .visit, .start 1 1, .ret, .visit, .ret, .visit] = some s'
      ∧ s'.pc = .idle ∧ s'.timers.head = none ∧ (s'.timers.timer 1).active ∧ ¬ s'.Law := by
  obtain ⟨s', hrun, hfacts⟩ : ∃ s', run (TimerSys.step ⟨1000, 10, true⟩) timerSysReady
      [.start 2 1, .start 1 1, .tick, .visit, .start 1 1, .ret, .visit, .ret, .visit] = some s'
      ∧ (s'.pc, s'.timers.head, (s'.timers.timer 1).active) = (.idle, none, true) :=
    Option.map_eq_some_iff.mp (by decide +kernel)
  simp only [Prod.mk.injEq] at hfacts
  obtain ⟨hpc, hhead, hactive⟩ := hfacts
  refine ⟨timerSysReady_initial, s', hrun, hpc, hhead, hactive, fun hlaw => ?_⟩
  obtain ⟨xs, hpath, -, hmem⟩ := hlaw.list
  have hin := (hmem 1).mpr hactive
  rw [hhead] at hpath
  rw [List.head?_eq_none_iff.mp hpath.head.symm] at hin
  exact absurd hin (by simp)

end VibeRtos
