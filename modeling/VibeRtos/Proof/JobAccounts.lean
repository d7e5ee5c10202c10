import VibeRtos.Lib.Runs
import VibeRtos.Job.Scheduler

/-!
# The accounts of the job scheduler

Each operation writes one slot, so what it does to the number of slots in use depends on
that slot alone. The one operation that can go wrong is the return of a job function: it
writes a slot whose job may have been cancelled, and replaced, since the function was
called.
-/

namespace VibeRtos

open Runs

/-! ## Counting slots -/

/-- Only the slots in the list matter. -/
theorem countP_congr_mem {α : Type} {p q : α → Bool} {xs : List α} (h : ∀ x ∈ xs, p x = q x) :
    xs.countP p = xs.countP q :=
  List.countP_congr fun x hx => by rw [h x hx]

/-- A predicate that changes at one point, from false to true. -/
theorem countP_gain {α : Type} [DecidableEq α] {p q : α → Bool} {xs : List α} {a : α}
    (hnd : xs.Nodup) (ha : a ∈ xs) (hp : p a = false) (hq : q a = true)
    (hother : ∀ x, x ≠ a → q x = p x) : xs.countP q = xs.countP p + 1 := by
  induction xs with
  | nil => simp at ha
  | cons x xs ih =>
      obtain ⟨hx, hnd'⟩ := List.nodup_cons.mp hnd
      by_cases hxa : x = a
      · subst hxa
        have hrest : xs.countP q = xs.countP p := countP_congr_mem fun y hy =>
          hother y fun he => hx (he ▸ hy)
        rw [List.countP_cons_of_pos hq, List.countP_cons_of_neg (by simp [hp]), hrest]
      · have hrest := ih hnd' (List.mem_of_ne_of_mem (Ne.symm hxa) ha)
        rw [List.countP_cons, List.countP_cons, hrest, hother x hxa]
        omega

namespace JobSched

variable {N : Nat} {s : JobSched N} {i : Fin N} {j : Job}

@[simp] theorem setJob_self : (s.setJob i j).jobs i = j := Function.update_self _ _ _

theorem setJob_of_ne {k : Fin N} (h : k ≠ i) : (s.setJob i j).jobs k = s.jobs k :=
  Function.update_of_ne h _ _

@[simp] theorem setJob_stats : (s.setJob i j).stats = s.stats := rfl

/-- Filling a slot. -/
theorem activeCount_fill (h : (s.jobs i).state = .idle) (hj : j.state ≠ .idle) :
    (s.setJob i j).activeCount = s.activeCount + 1 := by
  refine countP_gain (List.nodup_finRange N) (List.mem_finRange i) ?_ ?_ fun k hk => ?_
  · simp [h]
  · simp [hj]
  · rw [setJob_of_ne hk]

/-- Emptying a slot. -/
theorem activeCount_empty (h : (s.jobs i).state ≠ .idle) (hj : j.state = .idle) :
    s.activeCount = (s.setJob i j).activeCount + 1 := by
  refine countP_gain (List.nodup_finRange N) (List.mem_finRange i) ?_ ?_ fun k hk => ?_
  · simp [hj]
  · simp [h]
  · rw [setJob_of_ne hk]

/-- Writing a slot without filling or emptying it. -/
theorem activeCount_keep (h : j.state = .idle ↔ (s.jobs i).state = .idle) :
    (s.setJob i j).activeCount = s.activeCount := by
  refine countP_congr_mem fun k _ => ?_
  by_cases hk : k = i
  · subst hk
    simp [h]
  · rw [setJob_of_ne hk]

/-- What submitting does. -/
theorem submit_cases (s : JobSched N) (fn ctx : Nat) (prio : UInt8) :
    s.submit fn ctx prio = (s, none)
      ∨ ∃ i, (s.jobs i).state = .idle ∧ s.submit fn ctx prio
        = ({ s.setJob i ⟨fn, ctx, 0, .ready, prio, 0⟩ with stats := { s.stats with
            submitted := s.stats.submitted + 1
            active := s.stats.active + 1 } }, some i) := by
  unfold submit
  cases hfind : (List.finRange N).find? fun i => (s.jobs i).state = .idle with
  | none => exact Or.inl rfl
  | some i => exact Or.inr ⟨i, by simpa using List.find?_some hfind, rfl⟩

/-- What is in a slot whose job function has returned. -/
theorem execReturn_cases (s : JobSched N) (i : Fin N) (st : AsyncStatus) :
    ∃ j, (s.execReturn i st).jobs = (s.setJob i j).jobs ∧ (j.state = .idle ↔ st = .done)
      ∧ (s.execReturn i st).stats = if st = .done then
          { s.stats with
            completed := s.stats.completed + 1
            active := s.stats.active - 1 }
        else s.stats := by
  cases st with
  | done => exact ⟨_, rfl, by simp, rfl⟩
  | blocked => exact ⟨_, rfl, by simp, rfl⟩
  | running => exact ⟨_, rfl, by simp, rfl⟩

/-- A slot that the scan passes over. -/
def Passed (s : JobSched N) (ran : BitVec 64) (i : Fin N) : Prop :=
  ran.getLsbD i = true ∨ (s.jobs i).state ≠ .ready

theorem scanStep_cases (s : JobSched N) (ran : BitVec 64) (best : Option (Fin N)) (i : Fin N) :
    s.scanStep ran best i = best ∧ (s.Passed ran i ∨ best ≠ none)
      ∨ s.scanStep ran best i = some i ∧ ¬ s.Passed ran i := by
  unfold scanStep Passed
  split
  · rename_i hran
    exact Or.inl ⟨rfl, Or.inl (Or.inl hran)⟩
  · rename_i hran
    split
    · rename_i hstate
      exact Or.inl ⟨rfl, Or.inl (Or.inr hstate)⟩
    · rename_i hstate
      have hnew : ¬ (ran.getLsbD i = true ∨ (s.jobs i).state ≠ .ready) := not_or.mpr ⟨hran, hstate⟩
      cases best with
      | none => exact Or.inr ⟨rfl, hnew⟩
      | some b =>
          dsimp only
          split
          · exact Or.inr ⟨rfl, hnew⟩
          · exact Or.inl ⟨rfl, Or.inr (Option.some_ne_none b)⟩

/-- What the scan finds over a list of slots. -/
theorem foldl_scanStep (s : JobSched N) (ran : BitVec 64) : ∀ (xs : List (Fin N))
    (best : Option (Fin N)), (∀ b ∈ best, ¬ s.Passed ran b) →
    (∀ b ∈ xs.foldl (s.scanStep ran) best, ¬ s.Passed ran b)
      ∧ (xs.foldl (s.scanStep ran) best = none → best = none ∧ ∀ x ∈ xs, s.Passed ran x) := by
  intro xs
  induction xs with
  | nil => exact fun best hb => ⟨hb, fun h => ⟨h, by simp⟩⟩
  | cons x xs ih =>
      intro best hb
      rw [List.foldl_cons]
      rcases scanStep_cases s ran best x with ⟨heq, hx⟩ | ⟨heq, hx⟩
      · rw [heq]
        obtain ⟨hsome, hnone⟩ := ih best hb
        refine ⟨hsome, fun h => ?_⟩
        obtain ⟨hbest, hall⟩ := hnone h
        refine ⟨hbest, fun y hy => ?_⟩
        rcases List.mem_cons.mp hy with rfl | hy
        · exact hx.resolve_right (not_not.mpr hbest)
        · exact hall y hy
      · rw [heq]
        obtain ⟨hsome, hnone⟩ := ih (some x) fun b hb => by
          obtain rfl : x = b := Option.some.inj hb
          exact hx
        exact ⟨hsome, fun h => absurd (hnone h).1 (Option.some_ne_none x)⟩

theorem scan_some (h : s.scan ran = some i) :
    ran.getLsbD i = false ∧ (s.jobs i).state = .ready := by
  have hnot := (foldl_scanStep s ran (List.finRange N) none (by simp)).1 i h
  obtain ⟨hran, hstate⟩ := not_or.mp hnot
  exact ⟨by simpa using hran, not_not.mp hstate⟩

theorem scan_none (h : s.scan ran = none) (i : Fin N) : s.Passed ran i :=
  ((foldl_scanStep s ran (List.finRange N) none (by simp)).2 h).2 i (List.mem_finRange i)

end JobSched

namespace JobSys

open JobSched

variable {N : Nat} {s s' : JobSys N} {l : Label N} {i : Fin N}

theorem Initial.law (h : s.Initial) : s.Law := by
  have hidle : ∀ i, (s.sched.jobs i).state = .idle := fun i => by rw [h.sched]; rfl
  have hcount : s.sched.activeCount = 0 := by
    refine List.countP_eq_zero.mpr fun i _ => ?_
    simp [hidle i]
  refine ⟨?_, ?_, fun i => ?_, h.strays⟩
  · rw [hcount, h.sched]
    rfl
  · rw [h.cancels, h.sched]
    rfl
  · simp [hidle i, h.job i]

/-- Calling the function of a slot in use. -/
theorem Law.call (h : s.Law) (hi : (s.sched.jobs i).state ≠ .idle) (pc : JobPc N) :
    (s.call i pc).Law := by
  refine ⟨h.active, h.sum, h.held, ?_⟩
  show (if s.job i = none then s.strays + 1 else s.strays) = 0
  rw [if_neg ((h.held i).mp hi)]
  exact h.strays

theorem Law.submit (h : s.Law) {fn ctx : Nat} {prio : UInt8}
    (hs : s.step (.submit fn ctx prio) = some s') : s'.Law := by
  obtain ⟨-, hs⟩ := Option.ite_none_right_eq_some.mp hs
  obtain rfl := Option.some.inj hs
  rcases submit_cases s.sched fn ctx prio with hnone | ⟨i, hi, hsome⟩
  · rw [hnone]
    exact ⟨h.active, h.sum, h.held, h.strays⟩
  · rw [hsome]
    refine ⟨?_, ?_, fun k => ?_, h.strays⟩
    · show s.sched.stats.active + 1 = UInt32.ofNat (s.sched.setJob i _).activeCount
      rw [activeCount_fill hi (by simp), UInt32.ofNat_add, h.active]
      rfl
    · show s.sched.stats.submitted + 1
        = s.sched.stats.completed + UInt32.ofNat s.cancels + (s.sched.stats.active + 1)
      rw [h.sum, UInt32.add_assoc]
    · by_cases hk : k = i
      · subst hk
        simp
      · show ((s.sched.setJob i _).jobs k).state ≠ .idle ↔ Function.update s.job i _ k ≠ none
        rw [setJob_of_ne hk, Function.update_of_ne hk]
        exact h.held k

theorem Law.cancel (h : s.Law) {job : Option (Fin N)} (hs : s.step (.cancel job) = some s') :
    s'.Law := by
  obtain ⟨-, hs⟩ := Option.ite_none_right_eq_some.mp hs
  obtain rfl := Option.some.inj hs
  cases job with
  | none => exact ⟨h.active, h.sum, h.held, h.strays⟩
  | some i =>
      dsimp only
      split
      · rename_i hi
        have hsame : s.sched.cancel (some i) = s.sched := if_pos hi
        rw [hsame]
        exact ⟨h.active, h.sum, h.held, h.strays⟩
      · rename_i hi
        have hcancel : s.sched.cancel (some i)
            = { s.sched.setJob i { s.sched.jobs i with state := .idle } with
              stats := { s.sched.stats with active := s.sched.stats.active - 1 } } := if_neg hi
        have hcount := activeCount_empty (j := { s.sched.jobs i with state := .idle }) hi rfl
        rw [hcancel]
        refine ⟨?_, ?_, fun k => ?_, h.strays⟩
        · show s.sched.stats.active - 1 = UInt32.ofNat (s.sched.setJob i _).activeCount
          rw [h.active, hcount, UInt32.ofNat_add]
          exact UInt32.add_sub_cancel _ _
        · show s.sched.stats.submitted = s.sched.stats.completed
            + UInt32.ofNat (s.cancels + 1) + (s.sched.stats.active - 1)
          rw [h.sum, UInt32.ofNat_add]
          have hone : UInt32.ofNat 1 = 1 := rfl
          rw [hone]
          grind
        · by_cases hk : k = i
          · subst hk
            simp
          · show ((s.sched.setJob i _).jobs k).state ≠ .idle ↔ Function.update s.job i _ k ≠ none
            rw [setJob_of_ne hk, Function.update_of_ne hk]
            exact h.held k

theorem Law.round (h : s.Law) (hs : s.step .round = some s') : s'.Law := by
  change s.round s.pc = some s' at hs
  unfold JobSys.round at hs
  split at hs
  · split at hs
    · rename_i i hscan
      obtain rfl := Option.some.inj hs
      exact h.call (by rw [(scan_some hscan).2]; decide) _
    · obtain rfl := Option.some.inj hs
      exact ⟨h.active, h.sum, h.held, h.strays⟩
  · split at hs
    · split at hs
      · obtain rfl := Option.some.inj hs
        exact ⟨h.active, h.sum, h.held, h.strays⟩
      · rename_i hblocked
        obtain rfl := Option.some.inj hs
        exact h.call (by rw [not_not.mp hblocked]; decide) _
    · obtain rfl := Option.some.inj hs
      exact ⟨h.active, h.sum, h.held, h.strays⟩
  · exact absurd hs (by simp)

/-- What the return of a job function does to its slot and to the accounts. -/
theorem ret_cases {st : AsyncStatus} {co : Int} (hs : s.step (.ret st co) = some s') :
    ∃ i j, s.pc.running = some i ∧ (j.state = .idle ↔ st = .done)
      ∧ s'.sched.jobs = (s.sched.setJob i j).jobs
      ∧ s'.sched.stats = (if st = .done then { s.sched.stats with
          completed := s.sched.stats.completed + 1
          active := s.sched.stats.active - 1 } else s.sched.stats)
      ∧ s'.job = (if st = .done ∧ s.job i = s.current then Function.update s.job i none
          else s.job)
      ∧ s'.cancels = s.cancels ∧ s'.strays = s.strays := by
  rw [JobSys.step] at hs
  cases hi : s.pc.running with
  | none =>
      rw [hi] at hs
      exact absurd hs (by simp)
  | some i =>
      rw [hi] at hs
      obtain rfl := Option.some.inj hs
      obtain ⟨j, hjobs, hidle, hstats⟩ :=
        execReturn_cases (s.sched.setJob i { s.sched.jobs i with co := co }) i st
      refine ⟨i, j, rfl, hidle, hjobs.trans ?_, hstats, rfl, rfl, rfl⟩
      simp [setJob]

/-- The function that runs was called for a job. -/
def Known (s : JobSys N) : Prop := s.pc.running ≠ none → s.strays = 0 → s.current ≠ none

/-- **The return of a job function** keeps the accounts exactly when its slot is still its own,
or another job's and it does not return `ASYNC_DONE`. -/
theorem Law.ret (h : s.Law) (hq : s.Known) {st : AsyncStatus} {co : Int}
    (hs : s.step (.ret st co) = some s') :
    s'.Law ↔ s.Leaves (.ret st co) := by
  obtain ⟨i, j, hi, hidle, hjobs, hstats, hjob, hcancels, hstrays⟩ := ret_cases hs
  have hleaves : s.Leaves (.ret st co)
      ↔ (s.job i ≠ s.current → s.job i ≠ none ∧ st ≠ .done) := by
    simp [Leaves, hi]
  have hcount : s'.sched.activeCount = (s.sched.setJob i j).activeCount := by
    simp only [activeCount, hjobs]
  rw [hleaves]
  constructor
  · -- a return that writes a slot of somebody else shows in the accounts
    intro hlaw hne
    have hheld := hlaw.held i
    rw [hjobs, setJob_self, hjob, if_neg fun hd => hne hd.2] at hheld
    have hjobi : s.job i ≠ none := by
      intro hnone
      have hst : st = .done := by
        by_contra hst
        exact hheld.mp (fun hj => hst (hidle.mp hj)) hnone
      have hempty : (s.sched.jobs i).state = .idle := by
        by_contra hbusy
        exact (h.held i).mp hbusy hnone
      have hkeep := activeCount_keep (s := s.sched) (i := i) (j := j)
        ⟨fun _ => hempty, fun _ => hidle.mpr hst⟩
      have hactive := hlaw.active
      rw [hcount, hkeep, ← h.active, hstats, if_pos hst] at hactive
      have hone : s.sched.stats.active - 1 = s.sched.stats.active := hactive
      grind
    exact ⟨hjobi, fun hdone => hheld.mpr hjobi (hidle.mpr hdone)⟩
  · intro hown
    by_cases hst : st = .done
    · -- the job is done: it was in the slot all along
      have hsame : s.job i = s.current := by
        by_contra hne
        exact (hown hne).2 hst
      rw [if_pos hst] at hstats
      rw [if_pos ⟨hst, hsame⟩] at hjob
      have hbusy : (s.sched.jobs i).state ≠ .idle := by
        refine (h.held i).mpr ?_
        rw [hsame]
        exact hq (by simp [hi]) h.strays
      have hempty := activeCount_empty (j := j) hbusy (hidle.mpr hst)
      refine ⟨?_, ?_, fun k => ?_, hstrays.trans h.strays⟩
      · rw [hcount, hstats]
        show s.sched.stats.active - 1 = _
        rw [h.active, hempty, UInt32.ofNat_add]
        exact UInt32.add_sub_cancel _ _
      · rw [hstats, hcancels]
        show s.sched.stats.submitted = s.sched.stats.completed + 1 + UInt32.ofNat s.cancels
          + (s.sched.stats.active - 1)
        rw [h.sum]
        grind
      · rw [hjobs, hjob]
        by_cases hk : k = i
        · subst hk
          simp [hidle.mpr hst]
        · rw [setJob_of_ne hk, Function.update_of_ne hk]
          exact h.held k
    · rw [if_neg hst] at hstats
      rw [if_neg fun hd => hst hd.1] at hjob
      have hjobi : s.job i ≠ none := by
        by_cases hsame : s.job i = s.current
        · rw [hsame]
          exact hq (by simp [hi]) h.strays
        · exact (hown hsame).1
      have hbusy := (h.held i).mpr hjobi
      have hj : j.state ≠ .idle := fun hj => hst (hidle.mp hj)
      have hkeep := activeCount_keep (s := s.sched) (i := i) (j := j)
        ⟨fun hj' => absurd hj' hj, fun hb => absurd hb hbusy⟩
      refine ⟨?_, ?_, fun k => ?_, hstrays.trans h.strays⟩
      · rw [hcount, hkeep, hstats]
        exact h.active
      · rw [hstats, hcancels]
        exact h.sum
      · rw [hjobs, hjob]
        by_cases hk : k = i
        · subst hk
          simp [hj, hjobi]
        · rw [setJob_of_ne hk]
          exact h.held k

/-! ## Runs -/

theorem Known.call (i : Fin N) (pc : JobPc N) : (s.call i pc).Known := by
  intro _ hstrays hnone
  have hgone : s.job i = none := hnone
  have hone : (if s.job i = none then s.strays + 1 else s.strays) = 0 := hstrays
  rw [if_pos hgone] at hone
  omega

theorem Known.step (h : s.Known) (hs : s.step l = some s') : s'.Known := by
  cases l with
  | submit fn ctx prio =>
      obtain ⟨-, hs⟩ := Option.ite_none_right_eq_some.mp hs
      obtain rfl := Option.some.inj hs
      split <;> exact h
  | cancel job =>
      obtain ⟨-, hs⟩ := Option.ite_none_right_eq_some.mp hs
      obtain rfl := Option.some.inj hs
      cases job with
      | none => exact h
      | some i =>
          dsimp only
          split <;> exact h
  | run =>
      obtain ⟨-, hs⟩ := Option.ite_none_right_eq_some.mp hs
      obtain rfl := Option.some.inj hs
      exact fun hrun => absurd rfl hrun
  | round =>
      change s.round s.pc = some s' at hs
      unfold JobSys.round at hs
      split at hs
      · split at hs
        · obtain rfl := Option.some.inj hs
          exact .call _ _
        · obtain rfl := Option.some.inj hs
          exact fun hrun => absurd rfl hrun
      · split at hs
        · split at hs
          · obtain rfl := Option.some.inj hs
            exact fun hrun => absurd rfl hrun
          · obtain rfl := Option.some.inj hs
            exact .call _ _
        · obtain rfl := Option.some.inj hs
          exact fun hrun => absurd rfl hrun
      · exact absurd hs (by simp)
  | ret st co =>
      rw [JobSys.step] at hs
      split at hs
      · exact absurd hs (by simp)
      · obtain rfl := Option.some.inj hs
        intro hrun
        have hbehind : (behind s.pc).running ≠ none := hrun
        cases hpc : s.pc <;> rw [hpc] at hbehind <;> exact absurd rfl hbehind

/-- One step keeps the accounts exactly when it meets the condition. -/
theorem Law.step (h : s.Law) (hq : s.Known) (hs : s.step l = some s') :
    s'.Law ↔ s.Leaves l := by
  cases l with
  | submit fn ctx prio => exact iff_of_true (h.submit hs) trivial
  | cancel job => exact iff_of_true (h.cancel hs) trivial
  | run =>
      obtain ⟨-, hs⟩ := Option.ite_none_right_eq_some.mp hs
      obtain rfl := Option.some.inj hs
      exact iff_of_true ⟨h.active, h.sum, h.held, h.strays⟩ trivial
  | round => exact iff_of_true (h.round hs) trivial
  | ret st co => exact h.ret hq hs

end JobSys

/--
**The accounts of the job scheduler.**

In every run of submits, cancels and ticks, with job functions that submit and cancel any
jobs and return any status: the statistics count the slots in use, a slot is in use
exactly while the job last submitted to it is neither done nor cancelled, and no function
is called whose job is gone, if and only if every job function that cancels its own job
submits another one into the slot and does not return `ASYNC_DONE`.
-/
theorem job_accounts_along_run {N : Nat} {s s' : JobSys N} {labels : List (JobSys.Label N)}
    (h : s.Initial) (hr : run JobSys.step s labels = some s') :
    Always JobSys.step JobSys.Law s labels ↔ Along JobSys.step JobSys.Leaves s labels := by
  have hknown : s.Known := by
    intro hrun
    rw [h.pc] at hrun
    exact absurd rfl hrun
  exact always_iff_along (fun _ _ _ hq hs => hq.step hs) (fun _ _ _ hq hp hs => hp.step hq hs)
    hknown h.law hr

/-- A scheduler with two slots. -/
def twoSlots : JobSys 2 := ⟨JobSched.init 2, .idle, 0, fun _ => none, none, 0, 0, 0⟩

theorem twoSlots_initial : twoSlots.Initial := ⟨rfl, rfl, fun _ => rfl, rfl, rfl, rfl⟩

/-- A job cancels its neighbour, and in a later tick replaces itself. -/
theorem job_accounts_along_run_two : Always JobSys.step JobSys.Law twoSlots
    [.submit 0x100 0 1, .submit 0x200 0 2, .run, .round, .cancel (some 0), .ret .blocked 7,
      .round, .round, .round, .cancel (some 1), .submit 0x300 0 0, .submit 0x400 0 0,
      .ret .running 8, .round] := by
  obtain ⟨s', hrun⟩ : ∃ s', run JobSys.step twoSlots
      [.submit 0x100 0 1, .submit 0x200 0 2, .run, .round, .cancel (some 0), .ret .blocked 7,
        .round, .round, .round, .cancel (some 1), .submit 0x300 0 0, .submit 0x400 0 0,
        .ret .running 8, .round] = some s' :=
    Option.isSome_iff_exists.mp (by decide +kernel)
  exact (job_accounts_along_run twoSlots_initial hrun).mpr (by decide +kernel)

/-- A job cancels itself and yields: its function is called again in the next tick. -/
theorem cancelled_job_runs : twoSlots.Initial ∧ ∃ s', run JobSys.step twoSlots
      [.submit 0x100 0 1, .run, .round, .cancel (some 0), .ret .running 5, .round, .round, .round,
        .round, .run, .round] = some s'
    ∧ s'.strays = 1 ∧ s'.pc.running = some 0 ∧ s'.sched.stats.active = 0
    ∧ s'.sched.activeCount = 1 ∧ ¬ s'.Law := by
  obtain ⟨s', hrun, hfacts⟩ : ∃ s', run JobSys.step twoSlots
      [.submit 0x100 0 1, .run, .round, .cancel (some 0), .ret .running 5, .round, .round, .round,
        .round, .run, .round] = some s'
      ∧ (s'.strays, s'.pc.running, s'.sched.stats.active, s'.sched.activeCount)
        = (1, some 0, 0, 1) := Option.map_eq_some_iff.mp (by decide +kernel)
  simp only [Prod.mk.injEq] at hfacts
  obtain ⟨hstrays, hrunning, hactive, hcount⟩ := hfacts
  refine ⟨twoSlots_initial, s', hrun, hstrays, hrunning, hactive, hcount, fun hlaw => ?_⟩
  have hzero := hlaw.strays
  omega

end VibeRtos
