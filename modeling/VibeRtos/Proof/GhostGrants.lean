import VibeRtos.Lib.Runs
import VibeRtos.Proof.WaitCalls

/-!
# Nobody is granted what it no longer waits for

As long as no step makes a WAITING thread run, or throws it out of the call it is
blocked in, the wait lists hold exactly threads blocked in the calls that put them
there. So every release finds its thread still waiting, and every call that goes on
behind its reschedule has been released. The steps that break this are listed by
`Sys.Respects`: nothing in the kernel takes a thread off a wait list except a release.
-/

namespace VibeRtos

open Links Kernel Runs

variable {cfg : Config} {s s' : Sys} {xs ys : WaitList → List Tid} {self t : Tid} {l : Sys.Label}

/-! ## The scheduler -/

theorem wakeLoop_current {now : UInt32} : ∀ {fuel : Nat} {k : Kernel} {o : Option Tid},
    (wakeLoop now fuel k o).current = k.current
  | 0, _, _ => rfl
  | _ + 1, _, none => rfl
  | fuel + 1, k, some t => by
      rw [wakeLoop]
      split
      · exact wakeLoop_current
      · rfl

theorem timeslice_current (cfg : Config) (k : Kernel) :
    (k.schedTimesliceTick cfg).current = k.current := by
  unfold schedTimesliceTick
  split
  · rfl
  · split
    · rfl
    · split
      · rfl
      · split
        · rfl
        · dsimp only
          split <;> rfl

theorem leaves_current {k : Kernel} (h : k.Leaves self) :
    k.schedReschedule.current ≠ some self := by
  obtain ⟨hlock, hsome, hother⟩ := h
  unfold schedReschedule
  rw [if_neg (by omega)]
  cases hnext : k.schedNextThread with
  | none => exact absurd hnext hsome
  | some u =>
      have hne : some u ≠ some self := fun he => hother (hnext.trans he)
      dsimp only
      split
      · rename_i hcur
        rwa [hcur]
      · rw [switchTo_current]
        exact hne

namespace Waiters

/-- A reschedule that hands the CPU to no WAITING thread. -/
theorem reschedule (h : Waiters s xs) (hsafe : s.k.SwitchSafe) :
    Waiters { s with k := s.k.schedReschedule } xs := by
  unfold schedReschedule
  split
  · exact h
  · rename_i hlock
    have hsafe' := hsafe (by omega)
    cases hnext : s.k.schedNextThread with
    | none => exact h
    | some u =>
        dsimp only
        split
        · exact h
        · rename_i hcur
          have hu : (s.k.thr u).state ≠ .waiting := (hsafe' u hnext).resolve_left hcur
          have hk := sparesWaiting_switchTo hu
          refine ⟨fun L => ?_, h.once, h.inCall, fun {L t} ht hin => ?_⟩
          · have hw := (h.parked L).waiting
            exact ⟨(h.parked L).rep.congr fun t ht => (hk t (hw t ht)).1,
              fun t ht => (hk t (hw t ht)).2⟩
          · have hcur' := switchTo_current s.k u
            obtain rfl : u = t := Option.some.inj (hcur'.symm.trans ht)
            exact absurd hin (h.not_mem hu L)

/-- The current thread reaches a reschedule; blocked, it gives the CPU away there. -/
theorem cont (h : Waiters s xs) {a : After} (hcur : s.k.current = some self)
    (hat : s.pc self = .resched a) (hr : s.ContRespects self (.resched a)) :
    Waiters ({ s with k := s.k.schedReschedule }.setPc self (.at a)) xs := by
  have hs := h.reschedule hr.1
  refine ⟨hs.parked, hs.once, fun {L t} ht => ?_, fun {L t} hc ht => ?_⟩
  · by_cases hts : t = self
    · subst hts
      obtain ⟨b, hb, hpc⟩ := h.inCall ht
      rw [hat] at hpc
      obtain rfl : a = b := by
        rcases hpc with hpc | hpc
        · exact Pc.resched.inj hpc
        · exact absurd hpc (by simp)
      exact ⟨a, hb, Or.inr (Function.update_self _ _ _)⟩
    · show L.Holds (Function.update s.pc self (.at a) t)
      rw [Function.update_of_ne hts]
      exact h.inCall ht
  · have hts : t ≠ self := by
      rintro rfl
      exact leaves_current (hr.2 ((h.parked L).waiting t ht)) hc
    obtain ⟨b, hb⟩ := hs.running hc ht
    exact ⟨b, (Function.update_of_ne hts _ _).trans hb⟩

/-! ## Steps -/

theorem tick (h : Waiters s xs) (hr : s.Respects cfg .tick) :
    Waiters { s with k := sysTickHandler cfg s.k } xs := by
  have hk : SparesWaiting s.k (s.k.tickSection cfg) := by
    refine SparesWaiting.trans (.trans ?_ (sparesWaiting_wakeLoop hr.1))
      (sparesWaiting_timeslice cfg _)
    exact .of_thr rfl fun _ => id
  have hcur : (s.k.tickSection cfg).current = s.k.current :=
    (timeslice_current cfg _).trans wakeLoop_current
  have htick : Waiters { s with k := s.k.tickSection cfg } xs :=
    h.same hk.linked hcur (fun _ => rfl) fun _ _ _ => rfl
  rw [sysTickHandler_eq]
  exact htick.reschedule hr.2

theorem start (h : Waiters s xs) (hr : s.Respects cfg .start) :
    Waiters { s with k := schedStart s.k } xs := by
  unfold schedStart
  cases hnext : s.k.schedNextThread with
  | none => exact h
  | some u =>
      have hu : (s.k.thr u).state ≠ .waiting := hr u hnext
      have hk : SparesWaiting s.k ({ s.k with current := some u }.modThread u fun th =>
          { th with state := .running }) := by
        refine .of_thr rfl fun t ht => ?_
        have hne : t ≠ u := fun he => hu (he ▸ ht)
        rw [modThread_of_ne _ _ _ hne]
        exact ht
      refine ⟨fun L => ?_, h.once, h.inCall, fun {L t} ht hin => ?_⟩
      · have hw := (h.parked L).waiting
        exact ⟨(h.parked L).rep.congr fun t ht => (hk t (hw t ht)).1,
          fun t ht => (hk t (hw t ht)).2⟩
      · obtain rfl : u = t := Option.some.inj ht
        exact absurd hin (h.not_mem hu L)

/-- A give reschedules only to return `VIBE_OK`. -/
theorem semGive_resched {k : Kernel} {sem : Sem} {e : Err}
    (h : (VibeRtos.semGive k sem).2.2 = .resched e) : e = .ok := by
  unfold VibeRtos.semGive at h
  split at h
  · exact (Flow.resched.inj h).symm
  · split at h <;> exact absurd h (by simp)

theorem isrSemGive (h : Waiters s xs) {i : Nat} (hr : s.Respects cfg (.isrSemGive i))
    (hs : s.step cfg (.isrSemGive i) = some s') :
    ∃ ys, Waiters s' ys ∧ Fair s (.isrSemGive i) s' xs ys := by
  rw [Sys.step] at hs
  obtain rfl := Option.some.inj hs
  have hl : WaitList.ReleasedBy s (.sem i) (.isrSemGive i) := rfl
  let s₁ : Sys := { s with
    k := (VibeRtos.semGive s.k (s.sem i)).1
    sem := Function.update s.sem i (VibeRtos.semGive s.k (s.sem i)).2.1 }
  have hobj : Objects s s₁ (.sem i) := .sem i _ rfl rfl rfl rfl rfl rfl
  obtain ⟨ys, hw, hf⟩ := h.semGiving rfl rfl hobj (anchor_update_sem rfl) rfl hl (.refl rfl)
  refine ⟨ys, ?_⟩
  dsimp only
  split
  · rename_i e he
    have hsafe : s₁.k.SwitchSafe := hr (by rw [he, semGive_resched he])
    exact ⟨hw.reschedule hsafe, hf.left, hf.owner, hf.took⟩
  · exact ⟨hw, hf⟩

theorem isrEventPost (h : Waiters s xs) {i : Nat} {flags : UInt32}
    (hr : s.Respects cfg (.isrEventPost i flags))
    (hs : s.step cfg (.isrEventPost i flags) = some s') :
    ∃ ys, Waiters s' ys ∧ Fair s (.isrEventPost i flags) s' xs ys := by
  rw [Sys.step] at hs
  obtain rfl := Option.some.inj hs
  have hl : WaitList.ReleasedBy s (.event i) (.isrEventPost i flags) := rfl
  let s₁ : Sys := { s with
    k := (VibeRtos.eventPost s.k (s.event i) s.eventCtx flags).1
    event := Function.update s.event i (VibeRtos.eventPost s.k (s.event i) s.eventCtx flags).2.1
    eventCtx := (VibeRtos.eventPost s.k (s.event i) s.eventCtx flags).2.2 }
  have hobj : Objects s s₁ (.event i) := .event i _ rfl rfl rfl rfl rfl rfl
  obtain ⟨ys, hw, hf⟩ := h.eventPosting rfl rfl hobj (Function.update_self _ _ _) rfl hl (.refl rfl)
  exact ⟨ys, hw.reschedule hr, hf.left, hf.owner, hf.took⟩

/-- Before the scheduler runs, threads are created. -/
theorem boot (h : Waiters s xs) {entry arg : Nat} {attr : Option ThreadAttr}
    {stack heapStack : Option Nat} (hr : (s.k.thr t).state ≠ .waiting)
    (hs : s.step cfg (.boot t entry arg attr stack heapStack) = some s') :
    ∃ ys, Waiters s' ys ∧ Fair s (.boot t entry arg attr stack heapStack) s' xs ys := by
  rw [Sys.step] at hs
  split at hs
  · exact absurd hs (by simp)
  · obtain rfl := Option.some.inj hs
    have hk : SparesLinked xs s.k _ :=
      (sparesWaiting_create hr cfg entry arg attr stack heapStack).linked
    have hcur := threadCreate_current cfg s.k t entry arg attr stack heapStack
    split
    · exact h.stays hk hcur (fun M => by cases M <;> rfl) Or.inl
        (.move (h.not_mem hr) rfl not_inTake_user)
    · exact h.stays hk hcur (fun M => by cases M <;> rfl) Or.inl (.refl rfl)

theorem step (h : Waiters s xs) (hr : s.Respects cfg l) (hs : s.step cfg l = some s') :
    ∃ ys, Waiters s' ys ∧ Fair s l s' xs ys := by
  have hstill : ∀ {s'}, s'.mutex = s.mutex → s'.pc = s.pc → Fair s l s' xs xs :=
    fun hm hp => ⟨fun hin hout => absurd hin hout, fun ho => Or.inl (by rwa [hm] at ho),
      fun ht => Or.inl (by rwa [hp] at ht)⟩
  cases l with
  | boot t entry arg attr stack heapStack => exact h.boot hr hs
  | start =>
      rw [Sys.step] at hs
      split at hs
      · exact absurd hs (by simp)
      · obtain rfl := Option.some.inj hs
        exact ⟨xs, h.start hr, hstill rfl rfl⟩
  | call c =>
      rw [Sys.step] at hs
      split at hs
      · exact absurd hs (by simp)
      · rename_i self hcur
        split at hs
        · rename_i huser
          exact h.enter hcur huser (hr self hcur) hs
        · exact absurd hs (by simp)
  | cont =>
      rw [Sys.step] at hs
      split at hs
      · exact absurd hs (by simp)
      · rename_i self hcur
        have hc := hr self hcur
        split at hs
        · exact absurd hs (by simp)
        · rename_i a hat
          obtain rfl := Option.some.inj hs
          rw [hat] at hc
          refine ⟨xs, h.cont hcur hat hc, fun hin hout => absurd hin hout, Or.inl, fun {t} ht => ?_⟩
          -- a take stays a take
          have ht' : (Function.update s.pc self (.at a) t).InTake := ht
          by_cases hts : t = self
          · subst hts
            rw [Function.update_self] at ht'
            rcases ht' with ht' | ht'
            · exact absurd ht' (by simp)
            · exact Or.inl (Or.inl (by rw [hat, Pc.at.inj ht']))
          · rw [Function.update_of_ne hts] at ht'
            exact Or.inl ht'
        · rename_i a hat
          obtain rfl := Option.some.inj hs
          exact h.resume hcur hat
  | tick =>
      obtain rfl := Option.some.inj hs
      exact ⟨xs, h.tick hr, hstill rfl rfl⟩
  | isrSemGive i => exact h.isrSemGive hr hs
  | isrEventPost i flags => exact h.isrEventPost hr hs

end Waiters

/-- Waiters before and after a fair step are no ghosts. -/
theorem Fair.noGhosts (hf : Fair s l s' xs ys) (h : Waiters s xs) (h' : Waiters s' ys) :
    s.NoGhosts l s' := by
  refine ⟨fun L t hin hout => ?_, fun t a hl hcur hat L => ?_, fun m t ho => ?_⟩
  · rw [h.nodes] at hin
    rw [h'.nodes] at hout
    exact ⟨h.blockedOn hin, hf.left hin hout⟩
  · rw [h.nodes]
    exact h.not_mem_user hcur (by rw [hat]; simp) L
  · rcases hf.owner ho with hold | hlock | hin
    · exact Or.inl hold
    · exact Or.inr (Or.inl hlock)
    · exact Or.inr (Or.inr ⟨by rw [h.nodes]; exact hin, h.blockedOn hin⟩)

/-! ## The account -/

/-- A thread returns from a take that had blocked, or it does not. -/
theorem takes_cases (s : Sys) (l : Sys.Label) (t : Tid) : (s.takes l).count t = 0
    ∨ (s.takes l).count t = 1 ∧ l = .cont ∧ s.k.current = some t ∧ s.pc t = .at .semTakeWake := by
  unfold Sys.takes
  split
  · rename_i self hcur
    split
    · rename_i hat
      by_cases ht : self = t
      · subst ht
        exact Or.inr ⟨by simp, rfl, hcur, hat⟩
      · exact Or.inl (by simp [ht])
    · exact Or.inl rfl
  · exact Or.inl rfl

/-- Who returns is in the take no longer. -/
theorem taken_not_inTake (hcur : s.k.current = some t) (hat : s.pc t = .at .semTakeWake)
    (hs : s.step cfg .cont = some s') : ¬ (s'.pc t).InTake := by
  simp only [Sys.step, hcur, hat] at hs
  obtain rfl := Option.some.inj hs
  show ¬ (Function.update s.pc t _ t).InTake
  rw [Function.update_self]
  exact not_inTake_ret _

/-- Who leaves the list of a semaphore is granted a token. -/
theorem grants_pos {i : Nat} (hl : WaitList.ReleasedBy s (.sem i) l)
    (hin : t ∈ WaitList.nodes s (.sem i)) (hout : t ∉ WaitList.nodes s' (.sem i)) :
    1 ≤ (s.grants l s').count t := by
  have hgives : l.gives = some i := by
    cases l with
    | isrSemGive n => exact congrArg some hl
    | call c =>
        cases c with
        | semGive n => exact congrArg some hl
        | _ => exact absurd hl (by simp [WaitList.ReleasedBy])
    | _ => exact absurd hl (by simp [WaitList.ReleasedBy])
  rw [Sys.grants, hgives, List.one_le_count_iff]
  exact List.mem_filter.mpr ⟨hin, decide_eq_true hout⟩

namespace GrantSys

/-- The lists, and a grant for every take that has left them. -/
structure Inv (s : GrantSys) (xs : WaitList → List Tid) : Prop where
  waiters : Waiters s.sys xs
  account : ∀ t, s.returned t ≤ s.granted t
  owed : ∀ t, (s.sys.pc t).InTake → (∃ i, t ∈ xs (.sem i)) ∨ s.returned t + 1 ≤ s.granted t

variable {s s' : GrantSys}

theorem Inv.step (h : s.Inv xs) (hr : s.Respects cfg l) (hs : s.step cfg l = some s') :
    ∃ ys, s'.Inv ys ∧ s.sys.NoGhosts l s'.sys := by
  obtain ⟨sys', hsys, rfl⟩ := Option.map_eq_some_iff.mp hs
  obtain ⟨ys, hw, hf⟩ := h.waiters.step hr hsys
  refine ⟨ys, ⟨hw, fun t => ?_, fun t ht => ?_⟩, hf.noGhosts h.waiters hw⟩
  · have hold := h.account t
    dsimp only
    rcases takes_cases s.sys l t with hzero | ⟨hone, -, hcur, hat⟩
    · omega
    · -- a take that goes on is off every list, so it was granted
      have hout := h.waiters.not_mem_user hcur (by rw [hat]; simp)
      rcases h.owed t (Or.inr hat) with ⟨i, hin⟩ | hpaid
      · exact absurd hin (hout _)
      · omega
  · have hzero : (s.sys.takes l).count t = 0 := by
      rcases takes_cases s.sys l t with hzero | ⟨-, rfl, hcur, hat⟩
      · exact hzero
      · exact absurd ht (taken_not_inTake hcur hat hsys)
    dsimp only at ht ⊢
    rw [hzero]
    rcases hf.took ht with hold | hlist
    · rcases h.owed t hold with ⟨i, hin⟩ | hpaid
      · by_cases hstill : t ∈ ys (.sem i)
        · exact Or.inl ⟨i, hstill⟩
        · have hacc := h.account t
          have hpos : 1 ≤ (s.sys.grants l sys').count t := by
            refine grants_pos (hf.left hin hstill) ?_ ?_
            · rw [h.waiters.nodes]
              exact hin
            · rw [hw.nodes]
              exact hstill
          exact Or.inr (by omega)
      · exact Or.inr (by omega)
    · exact Or.inl hlist

theorem Initial.inv (h : s.Initial cfg) : s.Inv fun _ => [] := by
  refine ⟨⟨fun L => ?_, by simp, by simp, by simp⟩, fun t => ?_, fun t ht => ?_⟩
  · rw [h.lists]
    exact parked_init _
  · rw [h.returned, h.granted]
  · rw [h.pc] at ht
    exact absurd ht not_inTake_user

end GrantSys

/--
**No ghost grants, in a run that leaves the WAITING threads alone.**

Let no step delete, suspend, restart or re-create a WAITING thread, wake one out of the
sleep list or hand it the CPU, and let a caller that has blocked give the CPU away at its
reschedule. Then whoever is on a wait list is blocked in the call that put it there;
each further such step takes it off only to release it, makes a thread the owner of
a mutex only while it locks it, and lets no call go on whose thread is on a list; and
blocked takes return at most as often as gives took their threads off a list.
-/
theorem no_ghosts_along_run {cfg : Config} {s s' : GrantSys} {labels : List Sys.Label}
    (h : s.Initial cfg) (hg : Along (GrantSys.step cfg) (GrantSys.Respects cfg) s labels)
    (hr : run (GrantSys.step cfg) s labels = some s') :
    (∀ (L : WaitList) t, t ∈ L.nodes s'.sys → s'.sys.BlockedOn t L)
      ∧ (∀ l s'', s'.Respects cfg l → s'.step cfg l = some s'' → s'.sys.NoGhosts l s''.sys)
      ∧ ∀ t, s'.returned t ≤ s'.granted t := by
  have hinv : ∃ xs, s'.Inv xs := run_guarded (P := fun s => ∃ xs, GrantSys.Inv s xs)
    (fun _ _ _ ⟨_, hi⟩ hl hs => let ⟨ys, hy, _⟩ := hi.step hl hs; ⟨ys, hy⟩) ⟨_, h.inv⟩ hg hr
  obtain ⟨xs, hxs⟩ := hinv
  refine ⟨fun L t ht => ?_, fun l s'' hl hs => ?_, hxs.account⟩
  · rw [hxs.waiters.nodes] at ht
    exact hxs.waiters.blockedOn ht
  · obtain ⟨-, -, hno⟩ := hxs.step hl hs
    exact hno

/-- The machine before the first step, with nothing counted. -/
def grantBss (cfg : Config) : GrantSys where
  sys := Sys.bss cfg (fun _ => threadDefine [] 512 0 0 0 0) none
  granted := fun _ => 0
  returned := fun _ => 0

/-- A thread that takes a semaphore and one that locks a mutex wait their turn. -/
theorem no_ghosts_along_run_two :
    ∃ s', run (GrantSys.step ⟨1000, 10, true⟩) (grantBss ⟨1000, 10, true⟩)
        [.boot 1 1 0 (some ⟨512, 10, none, true, -1⟩) (some 4096) none,
          .boot 2 1 0 (some ⟨512, 5, none, true, -1⟩) (some 8192) none, .start,
          .call (.mutexLock 0 waitForever), .cont, .call (.semTake 0 waitForever), .cont, .tick,
          .call (.mutexLock 1 waitForever), .cont, .isrSemGive 0, .cont, .cont,
          .call (.mutexLock 1 waitForever), .cont, .call (.mutexUnlock 1), .cont] = some s'
      ∧ (∀ (L : WaitList) t, t ∈ L.nodes s'.sys → s'.sys.BlockedOn t L)
      ∧ (∀ l s'', s'.Respects ⟨1000, 10, true⟩ l → s'.step ⟨1000, 10, true⟩ l = some s'' →
          s'.sys.NoGhosts l s''.sys)
      ∧ ∀ t, s'.returned t ≤ s'.granted t := by
  obtain ⟨s', hrun⟩ : ∃ s', run (GrantSys.step ⟨1000, 10, true⟩) (grantBss ⟨1000, 10, true⟩)
      [.boot 1 1 0 (some ⟨512, 10, none, true, -1⟩) (some 4096) none,
        .boot 2 1 0 (some ⟨512, 5, none, true, -1⟩) (some 8192) none, .start,
        .call (.mutexLock 0 waitForever), .cont, .call (.semTake 0 waitForever), .cont, .tick,
        .call (.mutexLock 1 waitForever), .cont, .isrSemGive 0, .cont, .cont,
        .call (.mutexLock 1 waitForever), .cont, .call (.mutexUnlock 1), .cont] = some s' :=
    Option.isSome_iff_exists.mp (by decide +kernel)
  refine ⟨s', hrun, no_ghosts_along_run ⟨⟨_, _, rfl, fun _ => rfl⟩, fun _ => rfl, fun L => ?_,
    rfl, rfl⟩ (by decide +kernel) hrun⟩
  cases L <;> rfl

/-- Thread 1 blocks in a take; thread 2 suspends and resumes it; the take returns. -/
def suspendedTake : List Sys.Label :=
  [.boot 1 1 0 (some ⟨512, 10, none, true, -1⟩) (some 4096) none,
    .boot 2 1 0 (some ⟨512, 5, none, true, -1⟩) (some 8192) none, .start,
    .call (.semTake 0 waitForever), .cont, .call (.threadSuspend (some 1)), .cont,
    .call (.threadResume (some 1)), .cont, .cont, .cont, .cont]

/-- The take returns `VIBE_OK` without a token, its thread stays on the wait list, and the next
give is spent on it in its own code. -/
theorem sem_take_ghost :
    ∃ s s', run (GrantSys.step ⟨1000, 10, true⟩) (grantBss ⟨1000, 10, true⟩) suspendedTake = some s
      ∧ s.step ⟨1000, 10, true⟩ (.call (.semGive 0)) = some s'
      ∧ (s.sys.ret 1 = .err .ok ∧ s.returned 1 = 1 ∧ s.granted 1 = 0)
      ∧ ¬ s.sys.NoGhosts (.call (.semGive 0)) s'.sys := by
  obtain ⟨s, hrun, hfacts⟩ : ∃ s, run (GrantSys.step ⟨1000, 10, true⟩) (grantBss ⟨1000, 10, true⟩)
      suspendedTake = some s ∧ (s.sys.ret 1, s.returned 1, s.granted 1, (s.sys.k.thr 1).state)
        = (.err .ok, 1, 0, .running) :=
    Option.map_eq_some_iff.mp (by decide +kernel)
  have hlists : (run (GrantSys.step ⟨1000, 10, true⟩) (grantBss ⟨1000, 10, true⟩)
      suspendedTake).map (fun s => (WaitList.nodes s.sys (.sem 0),
        (s.step ⟨1000, 10, true⟩ (.call (.semGive 0))).map fun s' =>
          WaitList.nodes s'.sys (.sem 0))) = some ([1], some []) := by decide +kernel
  simp only [Prod.mk.injEq] at hfacts
  obtain ⟨hret, hreturned, hgranted, hstate⟩ := hfacts
  rw [hrun, Option.map_some, Option.some.injEq, Prod.mk.injEq] at hlists
  obtain ⟨hin, hstep⟩ := hlists
  obtain ⟨s', hs', hout⟩ := Option.map_eq_some_iff.mp hstep
  refine ⟨s, s', hrun, hs', ⟨hret, hreturned, hgranted⟩, fun hno => ?_⟩
  obtain ⟨⟨hwait, -⟩, -⟩ := hno.removed (.sem 0) 1 (by rw [hin]; simp) (by rw [hout]; simp)
  rw [hstate] at hwait
  exact absurd hwait (by decide)

end VibeRtos
