import VibeRtos.Async.Jobs
import VibeRtos.Proof.AsyncResume
import VibeRtos.Proof.JobAccounts

/-!
# Each job is a thread of control of its own

A job keeps its line in the slot it was given, and a slot is given away again only when its job
is done or cancelled. So between two invocations of a job nobody writes its line, whatever the
other jobs do to the scheduler, and what its function does next is what it had left to do
(`invoke_of_returns`). The invariant says, for each job in a slot, which rest of its body the
line in the slot stands for.
-/

namespace VibeRtos

open Coroutine Async

/-! ## What the steps of the scheduler do to a slot -/

theorem JobSched.execReturn_slot {N : Nat} (s : JobSched N) (i : Fin N) (j : Job)
    (st : AsyncStatus) : ∃ j' : Job, j'.fn = j.fn ∧ j'.ctx = j.ctx ∧ j'.co = j.co
      ∧ (j'.state = .idle ↔ st = .done)
      ∧ ((s.setJob i j).execReturn i st).jobs = Function.update s.jobs i j' := by
  cases st with
  | done =>
      refine ⟨{ j with state := .idle, runCount := j.runCount + 1 }, rfl, rfl, rfl, by simp, ?_⟩
      simp [execReturn, setJob]
  | running =>
      refine ⟨{ j with state := .ready, runCount := j.runCount + 1 }, rfl, rfl, rfl, by simp, ?_⟩
      simp [execReturn, setJob]
  | blocked =>
      refine ⟨{ j with state := .blocked, runCount := j.runCount + 1 }, rfl, rfl, rfl, by simp, ?_⟩
      simp [execReturn, setJob]

namespace JobSys

variable {N : Nat} {s s' : JobSys N}

theorem submit_slot {fn ctx : Nat} {prio : UInt8}
    (hs : s.step (.submit fn ctx prio) = some s') :
    s' = s ∨ ∃ i, (s.sched.jobs i).state = .idle
      ∧ s'.sched.jobs = Function.update s.sched.jobs i ⟨fn, ctx, 0, .ready, prio, 0⟩
      ∧ s'.job = Function.update s.job i (some s.submits) ∧ s'.submits = s.submits + 1
      ∧ s'.pc = s.pc ∧ s'.current = s.current := by
  obtain ⟨-, hs⟩ := Option.ite_none_right_eq_some.mp hs
  obtain rfl := Option.some.inj hs
  rcases JobSched.submit_cases s.sched fn ctx prio with hnone | ⟨i, hi, hsome⟩
  · rw [hnone]
    exact Or.inl rfl
  · rw [hsome]
    exact Or.inr ⟨i, hi, rfl, rfl, rfl, rfl, rfl⟩

theorem cancel_slot {job : Option (Fin N)} (hs : s.step (.cancel job) = some s') :
    s' = s ∨ ∃ i ∈ job, (s.sched.jobs i).state ≠ .idle
      ∧ s'.sched.jobs = Function.update s.sched.jobs i { s.sched.jobs i with state := .idle }
      ∧ s'.job = Function.update s.job i none ∧ s'.submits = s.submits
      ∧ s'.pc = s.pc ∧ s'.current = s.current := by
  obtain ⟨-, hs⟩ := Option.ite_none_right_eq_some.mp hs
  obtain rfl := Option.some.inj hs
  cases job with
  | none => exact Or.inl rfl
  | some i =>
      by_cases hi : (s.sched.jobs i).state = .idle
      · refine Or.inl ?_
        have hsame : s.sched.cancel (some i) = s.sched := if_pos hi
        simp only [hsame, if_pos hi]
      · refine Or.inr ⟨i, rfl, hi, ?_⟩
        have hcancel : s.sched.cancel (some i)
            = { s.sched.setJob i { s.sched.jobs i with state := .idle } with
              stats := { s.sched.stats with active := s.sched.stats.active - 1 } } := if_neg hi
        simp only [hcancel, if_neg hi]
        exact ⟨rfl, trivial, trivial, trivial, trivial⟩

/-- A round leaves the slots alone, and calls only functions of slots in use. -/
theorem round_slot (hs : s.step .round = some s') :
    s'.sched = s.sched ∧ s'.job = s.job ∧ s'.submits = s.submits
      ∧ ∀ i ∈ s'.pc.running, (s.sched.jobs i).state ≠ .idle ∧ s'.current = s.job i := by
  change s.round s.pc = some s' at hs
  unfold JobSys.round at hs
  split at hs
  · split at hs
    · rename_i i hscan
      obtain rfl := Option.some.inj hs
      refine ⟨rfl, rfl, rfl, fun k hk => ?_⟩
      obtain rfl : i = k := Option.some.inj hk
      exact ⟨by simp [(JobSched.scan_some hscan).2], rfl⟩
    · obtain rfl := Option.some.inj hs
      exact ⟨rfl, rfl, rfl, by simp [JobPc.running]⟩
  · split at hs
    · split at hs
      · obtain rfl := Option.some.inj hs
        exact ⟨rfl, rfl, rfl, by simp [JobPc.running]⟩
      · rename_i hblocked
        obtain rfl := Option.some.inj hs
        refine ⟨rfl, rfl, rfl, fun k hk => ?_⟩
        obtain rfl : _ = k := Option.some.inj hk
        exact ⟨by simp [not_not.mp hblocked], rfl⟩
    · obtain rfl := Option.some.inj hs
      exact ⟨rfl, rfl, rfl, by simp [JobPc.running]⟩
  · exact absurd hs (by simp)

/-- A job function that returns leaves its resume point in its slot. -/
theorem ret_slot {i : Fin N} {st : AsyncStatus} {co : Int} (hi : s.pc.running = some i)
    (hown : s.job i = s.current) (hs : s.step (.ret st co) = some s') :
    ∃ j : Job, j.fn = (s.sched.jobs i).fn ∧ j.ctx = (s.sched.jobs i).ctx ∧ j.co = co
      ∧ (j.state = .idle ↔ st = .done) ∧ s'.sched.jobs = Function.update s.sched.jobs i j
      ∧ s'.job = (if st = .done then Function.update s.job i none else s.job)
      ∧ s'.submits = s.submits ∧ s'.pc.running = none := by
  have hbehind : (behind s.pc).running = none := by
    cases s.pc <;> rfl
  simp only [JobSys.step, hi, hown, and_true, Option.some.injEq] at hs
  subst hs
  obtain ⟨j, hfn, hctx, hco, hidle, hjobs⟩ :=
    JobSched.execReturn_slot s.sched i { s.sched.jobs i with co := co } st
  exact ⟨j, hfn, hctx, hco, hidle, hjobs, rfl, rfl, hbehind⟩

end JobSys

namespace Async.CoroSys

variable {N : Nat} {σ : Type} {code : Nat → Nat → Body σ} {s s' : CoroSys N σ}

/-! ## The invariant -/

/-- The slots and the jobs in them. -/
structure Slots (s : CoroSys N σ) : Prop where
  held : ∀ i, (s.sys.sched.jobs i).state ≠ .idle ↔ s.sys.job i ≠ none
  running : ∀ i ∈ s.sys.pc.running, s.sys.job i ≠ none ∧ s.sys.current = s.sys.job i
  inj : ∀ i j n, s.sys.job i = some n → s.sys.job j = some n → i = j
  fresh : ∀ i n, s.sys.job i = some n → n < s.sys.submits
  given : ∀ n, s.given n ≠ none → n < s.sys.submits
  logged : ∀ e ∈ s.log, e.1 < s.sys.submits
  slot : ∀ i n, s.sys.job i = some n →
    s.given n = some ((s.sys.sched.jobs i).fn, (s.sys.sched.jobs i).ctx)

/-- The invocations of job `n` are a session of its body, and only the last one may have
reported `ASYNC_DONE`. While the job is in a slot none has, and the line there stands for what
is left. -/
def Follows (code : Nat → Nat → Body σ) (s : CoroSys N σ) (n fn ctx : Nat) : Prop :=
  ∃ rest, Session Resumes (some (code fn ctx, .stop)) (s.calls n) rest
    ∧ (∀ e ∈ (s.calls n).dropLast, e.report ≠ .done)
    ∧ ∀ i, s.sys.job i = some n → Saved slotCo (code fn ctx) rest (s.lines i)
      ∧ ∀ e ∈ s.calls n, e.report ≠ .done

structure Invariant (code : Nat → Nat → Body σ) (s : CoroSys N σ) : Prop extends Slots s where
  follows : ∀ n fn ctx, s.given n = some (fn, ctx) → WellFormed slotCo (code fn ctx) →
    Follows code s n fn ctx

theorem Initial.invariant (h : s.Initial) : Invariant code s := by
  refine ⟨⟨fun i => ?_, ?_, ?_, ?_, ?_, ?_, ?_⟩, ?_⟩
  · simp [h.sys.job i, h.sys.sched, JobSched.init]
  · simp [h.sys.pc, JobPc.running]
  · simp [h.sys.job]
  · simp [h.sys.job]
  · simp [h.given]
  · simp [h.log]
  · simp [h.sys.job]
  · simp [h.given]

/-- Only the slots, the lines in them and the log matter. -/
theorem Invariant.congr (h : Invariant code s) (hjobs : s'.sys.sched = s.sys.sched)
    (hjob : s'.sys.job = s.sys.job) (hsub : s'.sys.submits = s.sys.submits)
    (hrun : ∀ i ∈ s'.sys.pc.running, s.sys.job i ≠ none ∧ s'.sys.current = s.sys.job i)
    (hch : s'.children = s.children) (hgiven : s'.given = s.given) (hlog : s'.log = s.log) :
    Invariant code s' := by
  obtain ⟨⟨held, running, inj, fresh, given, logged, hcode⟩, follows⟩ := h
  refine ⟨⟨?_, ?_, ?_, ?_, ?_, ?_, ?_⟩, ?_⟩
  · rwa [hjobs, hjob]
  · rwa [hjob]
  · rwa [hjob]
  · rwa [hjob, hsub]
  · rwa [hgiven, hsub]
  · rwa [hlog, hsub]
  · rwa [hjobs, hjob, hgiven]
  · rw [hgiven]
    simpa only [Follows, calls, lines, hlog, hjob, hjobs, hch] using follows

theorem Slots.submit (h : Slots s) {fn ctx : Nat} {prio : UInt8} {i : Fin N}
    (hi : s.sys.job i = none)
    (hjobs : s'.sys.sched.jobs
      = Function.update s.sys.sched.jobs i ⟨fn, ctx, 0, .ready, prio, 0⟩)
    (hjob : s'.sys.job = Function.update s.sys.job i (some s.sys.submits))
    (hsub : s'.sys.submits = s.sys.submits + 1) (hpc : s'.sys.pc = s.sys.pc)
    (hcur : s'.sys.current = s.sys.current)
    (hgiven : s'.given = Function.update s.given s.sys.submits (some (fn, ctx)))
    (hlog : s'.log = s.log) : Slots s' := by
  have hnew : ∀ k, s.sys.job k ≠ some s.sys.submits := fun k hk =>
    absurd (h.fresh k _ hk) (lt_irrefl _)
  refine ⟨fun k => ?_, fun k hk => ?_, fun a b n ha hb => ?_, fun k n hk => ?_, fun n hn => ?_,
    fun e he => ?_, fun k n hk => ?_⟩
  · rw [hjobs, hjob]
    by_cases hk : k = i
    · subst hk
      simp
    · simpa [Function.update_of_ne hk] using h.held k
  · rw [hpc] at hk
    have hne : k ≠ i := by
      rintro rfl
      exact (h.running k hk).1 hi
    rw [hjob, hcur, Function.update_of_ne hne]
    exact h.running k hk
  · rw [hjob] at ha hb
    by_cases hai : a = i <;> by_cases hbi : b = i
    · rw [hai, hbi]
    · subst hai
      rw [Function.update_self] at ha
      rw [Function.update_of_ne hbi, ← ha] at hb
      exact absurd hb (hnew b)
    · subst hbi
      rw [Function.update_self] at hb
      rw [Function.update_of_ne hai, ← hb] at ha
      exact absurd ha (hnew a)
    · rw [Function.update_of_ne hai] at ha
      rw [Function.update_of_ne hbi] at hb
      exact h.inj a b n ha hb
  · rw [hjob] at hk
    rw [hsub]
    by_cases hki : k = i
    · subst hki
      rw [Function.update_self] at hk
      have := Option.some.inj hk
      omega
    · rw [Function.update_of_ne hki] at hk
      exact Nat.lt_succ_of_lt (h.fresh k n hk)
  · rw [hgiven] at hn
    rw [hsub]
    by_cases hns : n = s.sys.submits
    · omega
    · rw [Function.update_of_ne hns] at hn
      exact Nat.lt_succ_of_lt (h.given n hn)
  · rw [hlog] at he
    rw [hsub]
    exact Nat.lt_succ_of_lt (h.logged e he)
  · rw [hjob] at hk
    rw [hjobs, hgiven]
    by_cases hki : k = i
    · subst hki
      rw [Function.update_self] at hk
      rw [← Option.some.inj hk]
      simp
    · rw [Function.update_of_ne hki] at hk
      have hns : n ≠ s.sys.submits := (h.fresh k n hk).ne
      rw [Function.update_of_ne hki, Function.update_of_ne hns]
      exact h.slot k n hk

theorem Invariant.submit (h : Invariant code s) {fn ctx : Nat} {prio : UInt8} {sys' : JobSys N}
    (hs : s.sys.step (.submit fn ctx prio) = some sys') :
    Invariant code { s with
      sys := sys'
      given := if sys'.submits = s.sys.submits then s.given
        else Function.update s.given s.sys.submits (some (fn, ctx)) } := by
  rcases JobSys.submit_slot hs with rfl | ⟨i, hi, hjobs, hjob, hsub, hpc, hcur⟩
  · exact h.congr rfl rfl rfl h.running rfl (if_pos rfl) rfl
  · have hfree : s.sys.job i = none := by
      by_contra hne
      exact (h.held i).mpr hne hi
    rw [if_neg (by omega)]
    refine ⟨h.toSlots.submit hfree hjobs hjob hsub hpc hcur rfl rfl, fun n f c hn hw => ?_⟩
    by_cases hns : n = s.sys.submits
    · -- the job is new, and has not run
      subst hns
      obtain ⟨rfl, rfl⟩ : fn = f ∧ ctx = c := by simpa using hn
      have hcalls : s.calls s.sys.submits = [] := by
        simp only [calls, List.map_eq_nil_iff, List.filter_eq_nil_iff]
        intro e he
        simpa using (h.logged e he).ne
      refine ⟨some (code fn ctx, .stop), ?_, ?_, fun k hk => ⟨.start ?_, ?_⟩⟩
      · exact hcalls ▸ .nil _
      · exact hcalls ▸ by simp
      · have hki : k = i := by
          by_contra hki
          have hk' : s.sys.job k = some s.sys.submits := by simpa [hjob, hki] using hk
          exact absurd (h.fresh k _ hk') (lt_irrefl _)
        simp [lines, hjobs, hki]
      · exact hcalls ▸ by simp
    · have hn' : s.given n = some (f, c) := by simpa [hns] using hn
      obtain ⟨rest, hses, hlast, hslot⟩ := h.follows n f c hn' hw
      refine ⟨rest, hses, hlast, fun k hk => ?_⟩
      have hki : k ≠ i := by
        rintro rfl
        have hk' : s.sys.submits = n := by simpa [hjob] using hk
        exact hns hk'.symm
      have hk' : s.sys.job k = some n := by simpa [hjob, hki] using hk
      simpa [lines, calls, hjobs, hki] using hslot k hk'

/-- Emptying a slot whose function is not running. -/
theorem Slots.release (h : Slots s) {j : Job} {i : Fin N} (hj : j.state = .idle)
    (hjobs : s'.sys.sched.jobs = Function.update s.sys.sched.jobs i j)
    (hjob : s'.sys.job = Function.update s.sys.job i none)
    (hsub : s'.sys.submits = s.sys.submits)
    (hrun : ∀ k ∈ s'.sys.pc.running, k ∈ s.sys.pc.running ∧ k ≠ i
      ∧ s'.sys.current = s.sys.current)
    (hgiven : s'.given = s.given) (hlog : ∀ e ∈ s'.log, e.1 < s.sys.submits) : Slots s' := by
  have hold : ∀ k n, s'.sys.job k = some n → k ≠ i ∧ s.sys.job k = some n := by
    intro k n hk
    rw [hjob] at hk
    by_cases hki : k = i
    · subst hki
      simp at hk
    · rw [Function.update_of_ne hki] at hk
      exact ⟨hki, hk⟩
  refine ⟨fun k => ?_, fun k hk => ?_, fun a b n ha hb => ?_, fun k n hk => ?_, fun n hn => ?_,
    fun e he => ?_, fun k n hk => ?_⟩
  · rw [hjobs, hjob]
    by_cases hk : k = i
    · subst hk
      simp [hj]
    · simpa [Function.update_of_ne hk] using h.held k
  · obtain ⟨hk', hki, hcur⟩ := hrun k hk
    rw [hjob, hcur, Function.update_of_ne hki]
    exact h.running k hk'
  · exact h.inj a b n (hold a n ha).2 (hold b n hb).2
  · exact hsub ▸ h.fresh k n (hold k n hk).2
  · exact hsub ▸ h.given n (hgiven ▸ hn)
  · exact hsub ▸ hlog e he
  · obtain ⟨hki, hk'⟩ := hold k n hk
    rw [hjobs, hgiven, Function.update_of_ne hki]
    exact h.slot k n hk'

theorem Invariant.cancel (h : Invariant code s) {job : Option (Fin N)} {sys' : JobSys N}
    (hs : s.sys.step (.cancel job) = some sys') (hown : ∀ i ∈ job, s.sys.pc.running ≠ some i) :
    Invariant code { s with sys := sys' } := by
  rcases JobSys.cancel_slot hs with rfl | ⟨i, hi, -, hjobs, hjob, hsub, hpc, hcur⟩
  · exact h
  · have hrun : ∀ k ∈ sys'.pc.running, k ∈ s.sys.pc.running ∧ k ≠ i
        ∧ sys'.current = s.sys.current := by
      intro k hk
      rw [hpc] at hk
      refine ⟨hk, ?_, hcur⟩
      rintro rfl
      exact hown k hi hk
    refine ⟨h.toSlots.release rfl hjobs hjob hsub hrun rfl h.logged, fun n f c hn hw => ?_⟩
    obtain ⟨rest, hses, hlast, hslot⟩ := h.follows n f c hn hw
    refine ⟨rest, hses, hlast, fun k hk => ?_⟩
    have hki : k ≠ i := by
      rintro rfl
      simp [hjob] at hk
    have hk' : s.sys.job k = some n := by simpa [hjob, hki] using hk
    simpa [lines, calls, hjobs, hki] using hslot k hk'

/-- A slot that keeps its job. -/
theorem Slots.keep (h : Slots s) {j : Job} {i : Fin N} (hj : j.state ≠ .idle)
    (hfn : j.fn = (s.sys.sched.jobs i).fn) (hctx : j.ctx = (s.sys.sched.jobs i).ctx)
    (hi : s.sys.job i ≠ none) (hjobs : s'.sys.sched.jobs = Function.update s.sys.sched.jobs i j)
    (hjob : s'.sys.job = s.sys.job) (hsub : s'.sys.submits = s.sys.submits)
    (hrun : s'.sys.pc.running = none) (hgiven : s'.given = s.given)
    (hlog : ∀ e ∈ s'.log, e.1 < s.sys.submits) : Slots s' := by
  refine ⟨fun k => ?_, by simp [hrun], hjob ▸ h.inj, hjob ▸ hsub ▸ h.fresh,
    hgiven ▸ hsub ▸ h.given, hsub ▸ hlog, fun k n hk => ?_⟩
  · rw [hjobs, hjob]
    by_cases hk : k = i
    · subst hk
      simp [hj, hi]
    · simpa [Function.update_of_ne hk] using h.held k
  · rw [hjob] at hk
    rw [hjobs, hgiven, h.slot k n hk]
    by_cases hki : k = i
    · subst hki
      simp [hfn, hctx]
    · rw [Function.update_of_ne hki]

theorem Invariant.ret (h : Invariant code s) {i : Fin N} {n : Nat} {st : AsyncStatus}
    {ls' : Lines} {m' : σ} {sys' : JobSys N} (hi : s.sys.pc.running = some i)
    (hn : s.sys.current = some n)
    (hr : Returns slotCo (code (s.sys.sched.jobs i).fn (s.sys.sched.jobs i).ctx) (s.lines i)
      s.mem st ls' m')
    (hs : s.sys.step (.ret st (ls' slotCo)) = some sys') :
    Invariant code { s with
      sys := sys'
      mem := m'
      children := Function.update s.children i ls'
      log := s.log ++ [(n, ⟨s.mem, st, m'⟩)] } := by
  obtain ⟨hbusy, hcur⟩ := h.running i hi
  have hjobi : s.sys.job i = some n := hcur.symm.trans hn
  obtain ⟨j, hfn, hctx, hco, hidle, hjobs, hjob, hsub, hpc⟩ := JobSys.ret_slot hi hcur.symm hs
  have hlogged : ∀ e ∈ s.log ++ [(n, ⟨s.mem, st, m'⟩)], e.1 < s.sys.submits := by
    intro e he
    rcases List.mem_append.mp he with he | he
    · exact h.logged e he
    · obtain rfl := List.mem_singleton.mp he
      exact h.fresh i n hjobi
  refine ⟨?_, fun k f c hk hw => ?_⟩
  · by_cases hst : st = .done
    · exact h.toSlots.release (hidle.mpr hst) hjobs (hjob.trans (if_pos hst)) hsub
        (by simp [hpc]) rfl hlogged
    · exact h.toSlots.keep (fun hj => hst (hidle.mp hj)) hfn hctx hbusy hjobs
        (hjob.trans (if_neg hst)) hsub hpc rfl hlogged
  · have hsame : ∀ l, sys'.job l = some k →
        s.sys.job l = some k ∧ (k = n → l = i ∧ st ≠ .done) := by
      intro l hl
      rw [hjob] at hl
      split at hl
      · by_cases hli : l = i
        · subst hli
          simp at hl
        · rw [Function.update_of_ne hli] at hl
          exact ⟨hl, fun hkn => absurd (h.inj l i n (hkn ▸ hl) hjobi) hli⟩
      · rename_i hst
        exact ⟨hl, fun hkn => ⟨h.inj l i n (hkn ▸ hl) hjobi, hst⟩⟩
    obtain ⟨rest, hses, hlast, hslot⟩ := h.follows k f c hk hw
    by_cases hkn : k = n
    · -- the job that has run
      subst hkn
      obtain ⟨rfl, rfl⟩ : (s.sys.sched.jobs i).fn = f ∧ (s.sys.sched.jobs i).ctx = c := by
        simpa using (h.slot i k hjobi).symm.trans hk
      obtain ⟨hsaved, hnone⟩ := hslot i hjobi
      obtain ⟨rest', hsaved', -, hres⟩ := invoke_of_returns hw hsaved hr
      have hcalls : (CoroSys.mk sys' m' (Function.update s.children i ls') s.given
          (s.log ++ [(k, ⟨s.mem, st, m'⟩)])).calls k = s.calls k ++ [⟨s.mem, st, m'⟩] := by
        simp [calls]
      refine ⟨rest', ?_, ?_, fun l hl => ?_⟩
      · rw [hcalls]
        exact hses.append (.cons hres (.nil _))
      · rw [hcalls, List.dropLast_concat]
        exact hnone
      · obtain ⟨rfl, hst⟩ := (hsame l hl).2 rfl
        refine ⟨?_, ?_⟩
        · simpa [lines, hjobs, hco] using hsaved'
        · rw [hcalls]
          intro e he
          rcases List.mem_append.mp he with he | he
          · exact hnone e he
          · obtain rfl := List.mem_singleton.mp he
            exact hst
    · have hcalls : (CoroSys.mk sys' m' (Function.update s.children i ls') s.given
          (s.log ++ [(n, ⟨s.mem, st, m'⟩)])).calls k = s.calls k := by
        simp [calls, Ne.symm hkn]
      refine ⟨rest, hcalls ▸ hses, hcalls ▸ hlast, fun l hl => ?_⟩
      have hl' := (hsame l hl).1
      have hli : l ≠ i := by
        rintro rfl
        exact hkn (Option.some.inj (hl'.symm.trans hjobi))
      rw [hcalls]
      simpa [lines, hjobs, hli] using hslot l hl'

theorem Invariant.step (h : Invariant code s) (hs : Step code s s') : Invariant code s' := by
  cases hs with
  | memory m => exact h.congr rfl rfl rfl h.running rfl rfl rfl
  | submit hs => exact h.submit hs
  | cancel hs hown => exact h.cancel hs hown
  | run hs =>
      obtain ⟨-, hs⟩ := Option.ite_none_right_eq_some.mp hs
      obtain rfl := Option.some.inj hs
      have hrun : ∀ i ∈ (JobPc.ready (N := N) 0#64 0).running,
          s.sys.job i ≠ none ∧ s.sys.current = s.sys.job i := by simp [JobPc.running]
      obtain ⟨⟨held, -, inj, fresh, given, logged, slot⟩, follows⟩ := h
      exact ⟨⟨held, hrun, inj, fresh, given, logged, slot⟩, follows⟩
  | round hs =>
      obtain ⟨hsched, hjob, hsub, hrun⟩ := JobSys.round_slot hs
      exact h.congr hsched hjob hsub (fun i hi => ⟨(h.held i).mp (hrun i hi).1, (hrun i hi).2⟩)
        rfl rfl rfl
  | ret hi hn hr hs => exact h.ret hi hn hr hs

theorem invariant_of_reachable (h : Reachable code s s') (hs : Invariant code s) :
    Invariant code s' := by
  induction h with
  | refl => exact hs
  | tail _ ht ih => exact ih.step ht

end Async.CoroSys

/--
**Each job is a thread of control of its own.** However submits, cancels, ticks and the
invocations of jobs follow one another, and whatever is written into the memory in between: the
invocations of each job are those of the body of its coroutine, taken up each time where the one
before left it, and once the coroutine is done it is not invoked again.
-/
theorem jobs_resume {N : Nat} {σ : Type} (code : Nat → Nat → Async.Body σ)
    {s₀ s : Async.CoroSys N σ} (h₀ : s₀.Initial) (h : Async.CoroSys.Reachable code s₀ s)
    (n fn ctx : Nat) (hn : s.given n = some (fn, ctx))
    (hw : Async.WellFormed Async.slotCo (code fn ctx)) :
    (∃ rest, Session Async.Resumes (some (code fn ctx, .stop)) (s.calls n) rest) ∧
      ∀ e ∈ (s.calls n).dropLast, e.report ≠ .done := by
  have hinv := Async.CoroSys.invariant_of_reachable h h₀.invariant
  obtain ⟨rest, hses, hlast, -⟩ := hinv.follows n fn ctx hn hw
  exact ⟨⟨rest, hses⟩, hlast⟩

/-- A coroutine that counts to ten, once each tick. -/
def counter : Async.Body Nat :=
  .seq (.act fun _ => 0) (.loop (fun i => (i, i < 10)) (.seq (.pause 18) (.act (· + 1))))

theorem counter_wellFormed : Async.WellFormed Async.slotCo counter :=
  ⟨by simp [counter, Async.lines], by simp [counter, Async.children],
    by simp [counter, Async.Nested]⟩

/-- What `counter` has left to do behind its pause. -/
def counterRest : Resumption Nat Nat (Nat × Nat) :=
  some (.skip, .seq (.act (· + 1)) (.loop (fun i => (i, i < 10))
    (.seq (.pause 18) (.act (· + 1))) .stop))

/-- Its first invocation. -/
theorem counter_starts (ls : Async.Lines) (h : ls Async.slotCo = 0) (m : Nat) :
    ∃ ls', Async.Saved Async.slotCo counter counterRest ls'
      ∧ Async.Returns Async.slotCo counter ls m .running ls' 0 := by
  have hinv : Async.Resumes (some (counter, .stop)) m .running counterRest 0 := by
    refine StateTransition.mem_eval.mpr ⟨?_, rfl⟩
    exact .head rfl (.head rfl (.head rfl (.head rfl (.head rfl (.head rfl .refl)))))
  exact Async.returns_of_invoke counter_wellFormed (.start h) hinv

/-- Resumed at nine it counts to ten and is done. -/
theorem counter_ends {ls : Async.Lines} (h : Async.Saved Async.slotCo counter counterRest ls) :
    ∃ ls', Async.Returns Async.slotCo counter ls 9 .done ls' 10 := by
  have hinv : Async.Resumes counterRest 9 .done none 10 := by
    refine StateTransition.mem_eval.mpr ⟨?_, rfl⟩
    exact .head rfl (.head rfl (.head rfl (.head rfl (.head rfl .refl))))
  obtain ⟨ls', -, hret⟩ := Async.returns_of_invoke counter_wellFormed h hinv
  exact ⟨ls', hret⟩

/-- One slot, and nothing submitted. -/
def oneSlot : Async.CoroSys 1 Nat where
  sys := ⟨JobSched.init 1, .idle, 0, fun _ => none, none, 0, 0, 0⟩
  mem := 5
  children := fun _ _ => 0
  given := fun _ => none
  log := []

theorem oneSlot_initial : oneSlot.Initial :=
  ⟨⟨rfl, rfl, fun _ => rfl, rfl, rfl, rfl⟩, fun _ => rfl, rfl⟩

/-- Two ticks of one job, and a first tick of the next one in its slot. -/
theorem reused_slot : ∃ s : Async.CoroSys 1 Nat,
    Async.CoroSys.Reachable (fun _ _ => counter) oneSlot s
      ∧ s.given 0 = some (8, 0) ∧ s.given 1 = some (8, 0)
      ∧ s.calls 0 = [⟨5, .running, 0⟩, ⟨9, .done, 10⟩] ∧ s.calls 1 = [⟨10, .running, 0⟩] := by
  -- the first tick
  obtain ⟨ls₁, hsaved, hret₁⟩ :=
    counter_starts (Function.update (fun _ => 0) Async.slotCo 0) rfl 5
  have hfirst := (Relation.ReflTransGen.refl (r := Async.CoroSys.Step fun _ _ => counter)
      (a := oneSlot)).tail (.submit (show JobSys.step _ (.submit 8 0 3) = some _ from rfl))
    |>.tail (.run rfl) |>.tail (.round rfl) |>.tail (.ret (i := 0) (n := 0) rfl rfl hret₁ rfl)
    |>.tail (.round rfl) |>.tail (.round rfl) |>.tail (.round rfl)
  -- somebody else writes nine, and the second tick resumes the job, which ends
  have hline : Function.update ls₁ Async.slotCo (ls₁ Async.slotCo) = ls₁ :=
    Function.update_eq_self _ _
  obtain ⟨ls₂, hret₂⟩ := counter_ends (hline ▸ hsaved)
  have hsecond := hfirst.tail (.memory _ 9) |>.tail (.run rfl) |>.tail (.round rfl)
    |>.tail (.ret (i := 0) (n := 0) rfl rfl hret₂ rfl)
    |>.tail (.round rfl) |>.tail (.round rfl) |>.tail (.round rfl)
  -- the slot is given to the next job, which starts from the top
  obtain ⟨ls₃, -, hret₃⟩ :=
    counter_starts (Function.update ls₂ Async.slotCo 0) (Function.update_self ..) 10
  have hthird := hsecond.tail (.submit (show JobSys.step _ (.submit 8 0 3) = some _ from rfl))
    |>.tail (.run rfl) |>.tail (.round rfl) |>.tail (.ret (i := 0) (n := 1) rfl rfl hret₃ rfl)
  exact ⟨_, hthird, rfl, rfl, rfl, rfl⟩

/-- Job 0 is resumed and done, and job 1 starts from the top in the slot of job 0. -/
theorem jobs_resume_reused : ∃ s : Async.CoroSys 1 Nat,
    s.calls 0 = [⟨5, .running, 0⟩, ⟨9, .done, 10⟩] ∧ s.calls 1 = [⟨10, .running, 0⟩]
      ∧ ((∃ rest, Session Async.Resumes (some (counter, .stop)) (s.calls 0) rest)
        ∧ ∀ e ∈ (s.calls 0).dropLast, e.report ≠ .done)
      ∧ (∃ rest, Session Async.Resumes (some (counter, .stop)) (s.calls 1) rest)
        ∧ ∀ e ∈ (s.calls 1).dropLast, e.report ≠ .done := by
  obtain ⟨s, hreach, hgiven, hgiven', hcalls, hcalls'⟩ := reused_slot
  exact ⟨s, hcalls, hcalls',
    jobs_resume (fun _ _ => counter) oneSlot_initial hreach 0 8 0 hgiven counter_wellFormed,
    jobs_resume (fun _ _ => counter) oneSlot_initial hreach 1 8 0 hgiven' counter_wellFormed⟩

end VibeRtos
