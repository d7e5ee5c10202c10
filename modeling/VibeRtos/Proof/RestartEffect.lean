import VibeRtos.Arch.RestartSystem
import VibeRtos.Proof.SwitchContexts

/-!
# When a restart takes effect

Setting up the stack of a thread that is off the CPU replaces its saved context by its
first one. The context of the thread on the CPU is in the registers, and the next
activation of PendSV saves it over whatever a restart has put there.
-/

namespace VibeRtos

open ByteMem Runs

variable {canary : Bool} {b : Board} {t : Tid}

/-- Setting up a thread's stack saves its first context, and changes nothing else. -/
theorem threadStackSetup_saved (hb : b.Sound) (ht : t ∈ b.threads) (m : Mem) :
    Saved b (threadStackSetup canary b m t) t (b.initial t)
      ∧ ∀ a, ¬ b.InStack t a → ¬ InWord (b.spLoc t) a → threadStackSetup canary b m t a = m a := by
  obtain ⟨hsize, hend⟩ := hb.size t ht
  obtain ⟨hsaved, hframe⟩ := init_saved hb ht
    (if canary then str m (UInt32.ofNat (b.base t)) stackCanaryValue else m)
  refine ⟨hsaved, fun a ha hloc => (hframe a ha hloc).trans ?_⟩
  cases canary with
  | false => rfl
  | true =>
      -- the canary is in the lowest word of the stack
      have hbase : (UInt32.ofNat (b.base t)).toNat = b.base t := by
        rw [UInt32.toNat_ofNat']
        omega
      unfold Board.InStack at ha
      exact str_frame (by rw [hbase]; omega)

namespace SwitchSys

variable {s : SwitchSys}

/-- **A restart** keeps the contexts in order, unless it hits the thread that PendSV is about to
save or has just restored. -/
theorem Inv.restart (h : s.Inv b) (hb : b.Sound) (ht : t ∈ b.threads)
    (hok : s.mode = .thread ∨ s.onCpu ≠ some t) : Inv b (s.restart canary b t) := by
  obtain ⟨hsaved, hframe⟩ : Saved b (threadStackSetup canary b s.cpu.mem t) t (b.initial t) ∧ _ :=
    threadStackSetup_saved hb ht s.cpu.mem
  have hword : ∀ w : Word, Separate w.toNat 4 (b.base t) (b.size t) →
      Separate w.toNat 4 (b.spLoc t).toNat 4 →
      ldr (threadStackSetup canary b s.cpu.mem t) w = ldr s.cpu.mem w := by
    intro w hstack hloc
    unfold Separate at hstack hloc
    refine ldr_congr fun i hi => hframe _ ?_ ?_
    · unfold Board.InStack
      omega
    · unfold InWord
      omega
  have hregion : ∀ u ∈ b.threads, u ≠ t → ∀ a, b.InStack u a →
      threadStackSetup canary b s.cpu.mem t a = s.cpu.mem a := by
    intro u hu hut a ha
    have hr := hb.regions u hu t ht hut
    have hl := hb.spLocStack t ht u hu
    unfold Separate at hr hl
    unfold Board.InStack at ha
    refine hframe a ?_ ?_
    · unfold Board.InStack
      omega
    · unfold InWord
      omega
  have hother : ∀ u, u ≠ t → (s.restart canary b t).resumesWith b u = s.resumesWith b u := by
    intro u hut
    show (Function.update s.left t none u).getD _ = _
    rw [Function.update_of_ne hut]
    rfl
  constructor
  case running => exact (hword _ (hb.running t ht).2 (hb.running t ht).1).trans h.running
  case next =>
      intro u hu
      exact ⟨(h.next u hu).1, (hword _ (hb.next t ht).2 (hb.next t ht).1).trans (h.next u hu).2⟩
  case requested => exact h.requested
  case settled => exact h.settled
  case known => exact h.known
  case saved =>
      intro u hu hoff
      by_cases hut : u = t
      · subst hut
        have hstart : (s.restart canary b u).resumesWith b u = b.initial u := by
          show (Function.update s.left u none u).getD _ = _
          rw [Function.update_self]
          rfl
        rw [hstart]
        exact hsaved
      · rw [hother u hut]
        exact (h.saved u hu hoff).congr hb hu
          (hword _ (hb.spLocStack u hu t ht) (hb.spLocs u hu t ht hut)) (hregion u hu hut)
  case held =>
      intro hmode u hu
      have hut : u ≠ t := by
        rintro rfl
        exact (hok.resolve_left hmode) hu
      obtain ⟨hctx, hroom⟩ := h.held hmode u hu
      have hknown := h.known u hu
      have hsame : (s.restart canary b t).cpu.context = s.cpu.context :=
        context_congr hb hknown hroom rfl rfl (hregion u hknown hut)
      exact ⟨(hsame.trans hctx).trans (hother u hut).symm, hroom⟩

end SwitchSys

namespace RestartSys

variable {r r' : RestartSys} {l : Label}

/-- The contexts are in order, and a restarted thread is off the CPU with nothing to resume. -/
structure Inv (b : Board) (r : RestartSys) : Prop where
  contexts : r.s.Inv b
  fresh : ∀ t, r.restarted t = true → r.s.onCpu ≠ some t ∧ r.s.left t = none

/-- The thread that PendSV is about to save or has just restored is not restarted. -/
def Calm (r : RestartSys) : Label → Prop
  | .restart t => r.s.mode = .thread ∨ r.s.onCpu ≠ some t
  | .switch _ => True

instance (r : RestartSys) : (l : Label) → Decidable (r.Calm l)
  | .restart t => inferInstanceAs (Decidable (r.s.mode = .thread ∨ r.s.onCpu ≠ some t))
  | .switch _ => isTrue trivial

theorem contexts_step (h : r.s.Inv b) (hb : b.Sound) (hg : r.Calm l)
    (hs : r.step canary b l = some r') : r'.s.Inv b := by
  cases l with
  | switch l =>
      obtain ⟨s', hs', rfl⟩ := Option.map_eq_some_iff.mp hs
      exact h.step hb hs'
  | restart t =>
      obtain ⟨ht, hs⟩ := Option.ite_none_right_eq_some.mp hs
      obtain rfl := Option.some.inj hs
      exact h.restart hb ht hg

/-- What the steps of the context switch do to the record of who is on the CPU and who has left. -/
theorem switch_record {s s' : SwitchSys} {l : SwitchSys.Label} (hs : s.step b l = some s')
    (hoff : s.onCpu ≠ some t) :
    s'.left t = s.left t ∧ (l ≠ .handle → s'.onCpu = s.onCpu) := by
  cases l with
  | switchTo prev v =>
      obtain ⟨-, hs⟩ := Option.ite_none_right_eq_some.mp hs
      obtain rfl := Option.some.inj hs
      exact ⟨rfl, fun _ => rfl⟩
  | execute c =>
      obtain ⟨-, hs⟩ := Option.ite_none_right_eq_some.mp hs
      obtain rfl := Option.some.inj hs
      exact ⟨rfl, fun _ => rfl⟩
  | enter fp frame =>
      obtain ⟨-, hs⟩ := Option.ite_none_right_eq_some.mp hs
      split at hs
      · obtain rfl := Option.some.inj hs
        exact ⟨rfl, fun _ => rfl⟩
      · -- only the thread on the CPU leaves
        rename_i u hu
        obtain ⟨-, hs⟩ := Option.ite_none_right_eq_some.mp hs
        obtain rfl := Option.some.inj hs
        have htu : t ≠ u := fun he => hoff (he ▸ hu)
        exact ⟨Function.update_of_ne htu _ _, fun _ => rfl⟩
  | handle =>
      obtain ⟨-, hs⟩ := Option.ite_none_right_eq_some.mp hs
      obtain rfl := Option.some.inj hs
      exact ⟨rfl, fun hne => absurd rfl hne⟩
  | leave =>
      obtain ⟨-, hs⟩ := Option.ite_none_right_eq_some.mp hs
      obtain rfl := Option.some.inj hs
      split <;> exact ⟨rfl, fun _ => rfl⟩

/-- **A restart of a thread off the CPU keeps the invariant**, and so does every other step. -/
theorem Inv.step (h : r.Inv b) (hb : b.Sound) (hg : r.OffCpu l)
    (hs : r.step canary b l = some r') : r'.Inv b := by
  have hcalm : r.Calm l := by
    cases l with
    | switch l => trivial
    | restart t => exact Or.inr hg
  refine ⟨contexts_step h.contexts hb hcalm hs, fun t ht => ?_⟩
  cases l with
  | switch l =>
      obtain ⟨s', hs', rfl⟩ := Option.map_eq_some_iff.mp hs
      have hold : r.restarted t = true := by
        cases l with
        | handle => exact (Bool.and_eq_true_iff.mp ht).1
        | _ => exact ht
      obtain ⟨hoff, hnone⟩ := h.fresh t hold
      obtain ⟨hleft, hcpu⟩ := switch_record hs' hoff
      refine ⟨?_, hleft.trans hnone⟩
      by_cases hl : l = .handle
      · -- had the handler dispatched it, it would be off the record
        subst hl
        have hnot := (Bool.and_eq_true_iff.mp ht).2
        simpa using hnot
      · show s'.onCpu ≠ some t
        rw [hcpu hl]
        exact hoff
  | restart u =>
      obtain ⟨-, hs⟩ := Option.ite_none_right_eq_some.mp hs
      obtain rfl := Option.some.inj hs
      by_cases htu : t = u
      · subst htu
        exact ⟨hg, Function.update_self _ _ _⟩
      · have hold : r.restarted t = true := by
          have hin : Function.update r.restarted u true t = true := ht
          rwa [Function.update_of_ne htu] at hin
        obtain ⟨hoff, hnone⟩ := h.fresh t hold
        refine ⟨hoff, ?_⟩
        show Function.update r.s.left u none t = none
        rw [Function.update_of_ne htu]
        exact hnone

/-- The handler restores the first context of a restarted thread. -/
theorem Inv.begins (h : r.Inv b) (hb : b.Sound)
    (hs : r.step canary b (.switch .handle) = some r') : r.Begins b r' := by
  obtain ⟨s', hs', rfl⟩ := Option.map_eq_some_iff.mp hs
  obtain ⟨hmode, hs'⟩ := Option.ite_none_right_eq_some.mp hs'
  obtain rfl := Option.some.inj hs'
  intro t ht hrestarted
  obtain ⟨-, u, -, hu, -, hctx⟩ := (h.contexts.handle hb hmode).2.latest
  obtain rfl : u = t := Option.some.inj (hu.symm.trans ht)
  have hstart : r.s.resumesWith b u = b.initial u := by
    rw [SwitchSys.resumesWith, (h.fresh u hrestarted).2]
    rfl
  rw [hstart] at hctx
  rw [hctx]
  exact ⟨rfl, rfl, rfl⟩

end RestartSys

/--
**When a restart takes effect.**

In every run in which each restart is of a thread that is not physically on the CPU, the
first activation of PendSV that restores a restarted thread resumes it at its entry, with
its argument in R0 and `_vibe_thread_exit` in LR.
-/
theorem restart_takes_effect_along_run {canary : Bool} {b : Board} (hb : b.Sound)
    {r r' : RestartSys} {labels : List RestartSys.Label} (h : r.Initial b)
    (hr : run (RestartSys.step canary b) r labels = some r')
    (hg : Along (RestartSys.step canary b) RestartSys.OffCpu r labels) :
    ∀ r'', r'.step canary b (.switch .handle) = some r'' → r'.Begins b r'' := by
  have hinit : r.Inv b := by
    refine ⟨h.s.inv hb, fun t ht => ?_⟩
    rw [h.restarted] at ht
    exact absurd ht (by simp)
  have hinv : r'.Inv b := run_guarded (P := fun r => RestartSys.Inv b r)
    (fun _ _ _ hi hg hs => hi.step hb hg hs) hinit hg hr
  exact fun r'' hs => hinv.begins hb hs

/-- Nobody has been restarted. -/
def duoFresh : RestartSys := ⟨duoStart, fun _ => false⟩

theorem duoFresh_initial : duoFresh.Initial duoBoard :=
  ⟨⟨⟨fun _ => 0, rfl, by decide, by decide⟩, rfl, rfl, rfl, rfl, rfl⟩, rfl⟩

/-- Thread 2 has run and been preempted when thread 1 restarts it. -/
def restartOther : List RestartSys.Label :=
  [.switch (.switchTo none 2), .switch (.enter 0 ⟨0, 0, 0, 0, 0, 0, 0, 0⟩), .switch .handle,
    .switch .leave, .switch (.switchTo (some 2) 1),
    .switch (.enter 0x2000_2060 ⟨1, 2, 3, 4, 5, 6, 7, 8⟩), .switch .handle, .switch .leave,
    .restart 2, .switch (.switchTo (some 1) 2),
    .switch (.enter 0x2000_1060 ⟨1, 2, 3, 4, 5, 6, 7, 8⟩)]

theorem restart_takes_effect_along_run_other : ∃ r' r'',
    run (RestartSys.step true duoBoard) duoFresh restartOther = some r'
      ∧ r'.step true duoBoard (.switch .handle) = some r'' ∧ r'.restarted 2 = true
      ∧ r''.s.onCpu = some 2 ∧ r''.s.cpu.context.frame.pc = 0x0800_0300 := by
  obtain ⟨r', hr, hval⟩ : ∃ r', run (RestartSys.step true duoBoard) duoFresh restartOther = some r'
      ∧ (r'.s.mode, r'.s.latest, r'.restarted 2) = (.entered, some 2, true) :=
    Option.map_eq_some_iff.mp (by decide +kernel)
  obtain ⟨hmode, hlatest, hrestarted⟩ : _ ∧ _ ∧ _ := by simpa only [Prod.mk.injEq] using hval
  have hs' : r'.step true duoBoard (.switch .handle) = some _ :=
    Option.map_eq_some_iff.mpr ⟨_, SwitchSys.step_handle duoBoard hmode, rfl⟩
  have hbegins := restart_takes_effect_along_run duoBoard_sound duoFresh_initial hr
    (by decide +kernel) _ hs'
  exact ⟨r', _, hr, hs', hrestarted, hlatest, (hbegins 2 hlatest hrestarted).1⟩

/-- Thread 1 restarts itself and is preempted before it returns to its caller. -/
def restartSelf : List RestartSys.Label :=
  [.switch (.switchTo none 1), .switch (.enter 0 ⟨0, 0, 0, 0, 0, 0, 0, 0⟩), .switch .handle,
    .switch .leave, .restart 1, .switch (.switchTo (some 1) 2),
    .switch (.enter 0x2000_1060 ⟨1, 2, 3, 4, 5, 6, 0x0800_0210, 8⟩), .switch .handle,
    .switch .leave, .switch (.switchTo (some 2) 1),
    .switch (.enter 0x2000_2060 ⟨1, 2, 3, 4, 5, 6, 7, 8⟩)]

/-- It goes on where it was, as if it had not been restarted. -/
theorem self_restart_is_lost : duoBoard.Sound ∧ duoFresh.Initial duoBoard ∧ ∃ r' r'',
    run (RestartSys.step true duoBoard) duoFresh restartSelf = some r'
      ∧ r'.step true duoBoard (.switch .handle) = some r'' ∧ r'.restarted 1 = true
      ∧ r''.s.onCpu = some 1 ∧ r''.s.cpu.context.frame.pc = 0x0800_0210
      ∧ ¬ r'.Begins duoBoard r'' := by
  obtain ⟨r', hr, hval⟩ : ∃ r', run (RestartSys.step true duoBoard) duoFresh restartSelf = some r'
      ∧ (r'.s.mode, r'.s.latest, r'.restarted 1, r'.s.left 1) = (.entered, some 1, true,
        some ⟨⟨0, 0, 0, 0, 0, 0, 0, 0⟩, 0x2000_1060, ⟨1, 2, 3, 4, 5, 6, 0x0800_0210, 8⟩⟩) :=
    Option.map_eq_some_iff.mp (by decide +kernel)
  obtain ⟨hmode, hlatest, hrestarted, hleft⟩ : _ ∧ _ ∧ _ ∧ _ := by
    simpa only [Prod.mk.injEq] using hval
  have hs' : r'.step true duoBoard (.switch .handle) = some _ :=
    Option.map_eq_some_iff.mpr ⟨_, SwitchSys.step_handle duoBoard hmode, rfl⟩
  -- every restart of the run is made in thread mode, so the contexts are in order
  have hinv : r'.s.Inv duoBoard := run_guarded (P := fun r : RestartSys => r.s.Inv duoBoard)
    (fun _ _ _ hi hg hs => RestartSys.contexts_step hi duoBoard_sound hg hs)
    (duoFresh_initial.s.inv duoBoard_sound)
    (show Along (RestartSys.step true duoBoard) RestartSys.Calm duoFresh restartSelf by
      decide +kernel) hr
  obtain ⟨-, u, -, hu, -, hctx⟩ := (hinv.handle duoBoard_sound hmode).2.latest
  obtain rfl : u = 1 := Option.some.inj (hu.symm.trans hlatest)
  have hpc : ({ r'.s with cpu := r'.s.cpu.pendSvHandler duoBoard, mode := .done
                          onCpu := r'.s.latest } : SwitchSys).cpu.context.frame.pc
                            = 0x0800_0210 := by
    rw [hctx, SwitchSys.resumesWith, hleft]
    rfl
  refine ⟨duoBoard_sound, duoFresh_initial, r', _, hr, hs', hrestarted, hlatest, hpc, ?_⟩
  intro hbegins
  have hentry := (hbegins 1 hlatest hrestarted).1
  exact absurd (hpc.symm.trans hentry) (by decide)

end VibeRtos
