import VibeRtos.Lib.Runs
import VibeRtos.Proof.PendSv

/-!
# Every thread resumes with what it had

A thread off the CPU has its context saved: its stack pointer tells where R4-R11 are,
and the hardware's frame is above them. Asking for a switch, running and stacking a
frame touch no saved context, and the handler saves the one on the CPU before it loads
another, or the same again.
-/

namespace VibeRtos

open ByteMem Runs

variable {b : Board} {m m' : Mem} {t u : Tid} {x : Context}

/-! ## Saved contexts -/

/-- The context `x` of `t` is saved in its stack. -/
structure Saved (b : Board) (m : Mem) (t : Tid) (x : Context) : Prop where
  psp : (ldr m (b.spLoc t)).toNat + 32 = x.psp.toNat
  callee : Callee.load m (ldr m (b.spLoc t)) = x.callee
  frame : Frame.load m x.psp = x.frame
  low : b.base t ≤ (ldr m (b.spLoc t)).toNat
  high : x.psp.toNat + 32 ≤ b.base t + b.size t

theorem Saved.congr (h : Saved b m t x) (hb : b.Sound) (ht : t ∈ b.threads)
    (hsp : ldr m' (b.spLoc t) = ldr m (b.spLoc t)) (hmem : ∀ a, b.InStack t a → m' a = m a) :
    Saved b m' t x := by
  have hsize := (hb.size t ht).2
  have hpsp := h.psp
  have hlow := h.low
  have hhigh := h.high
  refine ⟨by rw [hsp]; exact hpsp, ?_, ?_, by rw [hsp]; exact hlow, hhigh⟩
  · rw [hsp, Callee.load_congr (by omega) fun a ha ha' => hmem a ⟨by omega, by omega⟩]
    exact h.callee
  · rw [Frame.load_congr (by omega) fun a ha ha' => hmem a ⟨by omega, by omega⟩]
    exact h.frame

/-! ## The first contexts -/

theorem and_mask (x : BitVec 32) : x &&& 0xFFFFFFF8#32 = (x >>> 3) <<< 3 := by
  ext i hi
  interval_cases i <;> simp

theorem top_toNat (h : b.base t + b.size t < 2 ^ 32) :
    (b.top t).toNat = (b.base t + b.size t) / 8 * 8 := by
  have hsum : (UInt32.ofNat (b.base t) + UInt32.ofNat (b.size t)).toBitVec.toNat
      = b.base t + b.size t := by
    rw [UInt32.toNat_toBitVec, UInt32.toNat_add, UInt32.toNat_ofNat', UInt32.toNat_ofNat']
    omega
  have hmask : (0xFFFFFFF8 : UInt32).toBitVec = 0xFFFFFFF8#32 := rfl
  rw [← UInt32.toNat_toBitVec, Board.top, UInt32.toBitVec_and, hmask, and_mask,
    BitVec.toNat_shiftLeft, BitVec.toNat_ushiftRight, hsum, Nat.shiftRight_eq_div_pow,
    Nat.shiftLeft_eq]
  omega

/-- The zeroes below the first frame. -/
theorem zeroes_eq (m : Mem) (a : Word) :
    (List.range 8).foldl (fun m i => str m (a + 4 * UInt32.ofNat i) 0) m
      = Frame.store ⟨0, 0, 0, 0, 0, 0, 0, 0⟩ m a := by
  have hzero : a + 4 * UInt32.ofNat 0 = a := UInt32.add_zero a
  show str (str (str (str (str (str (str (str m (a + 4 * UInt32.ofNat 0) 0) (a + 4) 0) (a + 8) 0)
    (a + 12) 0) (a + 16) 0) (a + 20) 0) (a + 24) 0) (a + 28) 0 = _
  rw [hzero]
  rfl

theorem load_zeroes {a : Word} (ha : a.toNat + 32 ≤ 2 ^ 32) :
    Callee.load (Frame.store ⟨0, 0, 0, 0, 0, 0, 0, 0⟩ m a) a = ⟨0, 0, 0, 0, 0, 0, 0, 0⟩ := by
  have hload := Frame.load_store (m := m) ⟨0, 0, 0, 0, 0, 0, 0, 0⟩ ha
  simp only [Frame.load, Frame.mk.injEq] at hload
  obtain ⟨h0, h4, h8, h12, h16, h20, h24, h28⟩ := hload
  have h20' : a + 16 + 4 = a + 20 := by rw [UInt32.add_assoc]; rfl
  have h24' : a + 16 + 8 = a + 24 := by rw [UInt32.add_assoc]; rfl
  have h28' : a + 16 + 12 = a + 28 := by rw [UInt32.add_assoc]; rfl
  rw [Callee.load, h20', h24', h28', h0, h4, h8, h12, h16, h20, h24, h28]

/-- Initialising a thread's stack saves its first context, and changes nothing else. -/
theorem init_saved (hb : b.Sound) (ht : t ∈ b.threads) (m : Mem) :
    Saved b (archThreadStackInit b m t) t (b.initial t)
      ∧ ∀ a, ¬ b.InStack t a → ¬ InWord (b.spLoc t) a → archThreadStackInit b m t a = m a := by
  obtain ⟨hsize, hend⟩ := hb.size t ht
  have htop := top_toNat hend
  have hfp : (b.top t - 32).toNat = (b.top t).toNat - 32 :=
    UInt32.toNat_sub_of_le _ _ (UInt32.le_iff_toNat_le.mpr (by simp; omega))
  have hsw : (b.top t - 32 - 32).toNat = (b.top t).toNat - 64 := by
    rw [UInt32.toNat_sub_of_le _ _ (UInt32.le_iff_toNat_le.mpr (by simp; omega)), hfp]
    simp
    omega
  have happ := hb.spLocStack t ht t ht
  have hinit : archThreadStackInit b m t = str (Frame.store ⟨0, 0, 0, 0, 0, 0, 0, 0⟩
      ((b.initial t).frame.store m (b.top t - 32)) (b.top t - 32 - 32))
      (b.spLoc t) (b.top t - 32 - 32) := by
    rw [← zeroes_eq]
    rfl
  have hpsp : (b.initial t).psp = b.top t - 32 := rfl
  have hlt : (b.top t).toNat < 2 ^ 32 := (b.top t).toNat_lt
  rw [hinit]
  unfold Separate at happ
  constructor
  · have hload : ldr (str (Frame.store ⟨0, 0, 0, 0, 0, 0, 0, 0⟩
        ((b.initial t).frame.store m (b.top t - 32)) (b.top t - 32 - 32))
        (b.spLoc t) (b.top t - 32 - 32)) (b.spLoc t) = b.top t - 32 - 32 := ldr_str_same _ _ _
    refine ⟨?_, ?_, ?_, ?_, ?_⟩
    · rw [hload, hpsp]
      omega
    · rw [hload, Callee.load_congr (by omega) fun a ha ha' => str_frame (by omega)]
      exact load_zeroes (by omega)
    · rw [hpsp, Frame.load_congr (by omega) fun a ha ha' => by
        rw [str_frame (by omega), Frame.store_frame _ (by omega) (by omega)]]
      exact Frame.load_store _ (by omega)
    · rw [hload]
      omega
    · rw [hpsp]
      omega
  · intro a ha ha'
    unfold Board.InStack at ha
    unfold InWord at ha'
    rw [str_frame (by omega), Frame.store_frame _ (by omega) (by omega),
      Frame.store_frame _ (by omega) (by omega)]

/-- Initialising several threads saves all their first contexts. -/
theorem foldl_init_saved (hb : b.Sound) : ∀ {ts : List Tid} (m : Mem),
    (∀ t ∈ ts, t ∈ b.threads) → ts.Nodup →
    (∀ t ∈ ts, Saved b (ts.foldl (archThreadStackInit b) m) t (b.initial t))
      ∧ ∀ a, (∀ t ∈ ts, ¬ b.InStack t a ∧ ¬ InWord (b.spLoc t) a) →
        ts.foldl (archThreadStackInit b) m a = m a
  | [], m, _, _ => ⟨by simp, fun _ _ => rfl⟩
  | t :: ts, m, hsub, hnd => by
      obtain ⟨hout, hnd'⟩ := List.nodup_cons.mp hnd
      have ht := hsub t List.mem_cons_self
      have hsub' : ∀ u ∈ ts, u ∈ b.threads := fun u hu => hsub u (List.mem_cons_of_mem _ hu)
      obtain ⟨hone, hframe⟩ := init_saved hb ht m
      obtain ⟨hrest, hframes⟩ := foldl_init_saved hb (archThreadStackInit b m t) hsub' hnd'
      refine ⟨fun u hu => ?_, fun a ha => ?_⟩
      · rcases List.mem_cons.mp hu with rfl | hu
        · -- the stacks of the others are elsewhere
          have hne : ∀ v ∈ ts, u ≠ v := fun v hv he => hout (he ▸ hv)
          refine hone.congr hb ht (ldr_congr fun i hi => hframes _ fun v hv => ?_)
            fun a ha => hframes a fun v hv => ?_
          · have h1 := hb.spLocStack u ht v (hsub' v hv)
            have h2 := hb.spLocs u ht v (hsub' v hv) (hne v hv)
            unfold Separate at h1 h2
            exact ⟨by unfold Board.InStack; omega, by unfold InWord; omega⟩
          · have h1 := hb.regions u ht v (hsub' v hv) (hne v hv)
            have h2 := hb.spLocStack v (hsub' v hv) u ht
            unfold Separate at h1 h2
            unfold Board.InStack at ha ⊢
            exact ⟨by omega, by unfold InWord; omega⟩
        · exact hrest u hu
      · have hhere := ha t List.mem_cons_self
        have hlater : ∀ u ∈ ts, ¬ b.InStack u a ∧ ¬ InWord (b.spLoc u) a :=
          fun u hu => ha u (List.mem_cons_of_mem _ hu)
        rw [List.foldl_cons, hframes a hlater, hframe a hhere.1 hhere.2]

/-! ## The invariant -/

namespace SwitchSys

/-- Whoever is off the CPU is saved; whoever PendSV has interrupted or dispatched is held in the
registers. -/
structure Inv (b : Board) (s : SwitchSys) : Prop where
  running : ldr s.cpu.mem b.runningSpLoc = (s.onCpu.map b.spLoc).getD 0
  next : ∀ t, s.latest = some t → t ∈ b.threads ∧ ldr s.cpu.mem b.nextSpLoc = b.spLoc t
  requested : s.pending = true ∨ s.mode = .entered → s.latest ≠ none
  settled : s.pending = false → s.mode ≠ .entered → s.onCpu = s.latest
  known : ∀ t, s.onCpu = some t → t ∈ b.threads
  saved : ∀ t ∈ b.threads, s.onCpu ≠ some t → Saved b s.cpu.mem t (s.resumesWith b t)
  held : s.mode ≠ .thread → ∀ t, s.onCpu = some t →
    s.cpu.context = s.resumesWith b t ∧ Room b t s.cpu.psp

variable {s s' : SwitchSys} {l : Label}

theorem Inv.law (h : s.Inv b) : s.Law b :=
  ⟨fun hdone t ht => (h.held (by rw [hdone]; decide) t ht).1, h.running, h.settled⟩

/-- The context on the CPU does not change with bytes outside its stack. -/
theorem context_congr {c c' : Cpu} (hb : b.Sound) (ht : t ∈ b.threads) (hroom : Room b t c.psp)
    (hcallee : c'.callee = c.callee) (hpsp : c'.psp = c.psp)
    (hmem : ∀ a, b.InStack t a → c'.mem a = c.mem a) : c'.context = c.context := by
  have hsize := (hb.size t ht).2
  obtain ⟨hlow, hhigh⟩ := hroom
  rw [Cpu.context, Cpu.context, hcallee, hpsp,
    Frame.load_congr (by omega) fun a ha ha' => hmem a ⟨by omega, by omega⟩]

/-- A switch is asked for. -/
theorem Inv.switchTo (h : s.Inv b) (hb : b.Sound) {prev : Option Tid} {v : Tid}
    (hv : v ∈ b.threads) : Inv b { s with
      cpu := { s.cpu with mem := archSwitchTo b s.cpu.mem prev v }
      pending := true
      latest := some v } := by
  have hstack : ∀ t ∈ b.threads, ∀ a, b.InStack t a →
      archSwitchTo b s.cpu.mem prev v a = s.cpu.mem a := by
    intro t ht a ha
    have hn := (hb.next t ht).2
    unfold Separate at hn
    unfold Board.InStack at ha
    exact str_frame (by omega)
  constructor
  case running =>
      have hp := hb.pointers
      unfold Separate at hp
      exact (ldr_str_ne (by omega)).trans h.running
  case next =>
      rintro t ht
      obtain rfl : v = t := Option.some.inj ht
      exact ⟨hv, ldr_str_same _ _ _⟩
  case requested => exact fun _ => by simp
  case settled => exact fun hp => absurd hp (by simp)
  case known => exact h.known
  case saved =>
      intro t ht hoff
      refine (h.saved t ht hoff).congr hb ht ?_ (hstack t ht)
      have hn := (hb.next t ht).1
      unfold Separate at hn
      exact ldr_str_ne (by omega)
  case held =>
      intro hmode t ht
      obtain ⟨hctx, hroom⟩ := h.held hmode t ht
      have hknown := h.known t ht
      have hsame : Cpu.context { s.cpu with mem := archSwitchTo b s.cpu.mem prev v }
          = s.cpu.context := context_congr hb hknown hroom rfl rfl (hstack t hknown)
      exact ⟨hsame.trans hctx, hroom⟩

/-- What is on the CPU executes. -/
theorem Inv.execute (h : s.Inv b) (hb : b.Sound) (hmode : s.mode = .thread) (c : Cpu) :
    Inv b { s with cpu := { c with
      mem := fun a => if b.Protected s.onCpu a then s.cpu.mem a else c.mem a } } := by
  have hkeep : ∀ a, b.Protected s.onCpu a →
      (if b.Protected s.onCpu a then s.cpu.mem a else c.mem a)
        = s.cpu.mem a := fun a ha => if_pos ha
  have hword : ∀ w : Word, (∀ a, InWord w a → b.Protected s.onCpu a) →
      ldr (fun a => if b.Protected s.onCpu a then s.cpu.mem a else c.mem a) w
        = ldr s.cpu.mem w := by
    intro w hw
    exact ldr_congr fun i hi => hkeep _ (hw _ ⟨by omega, by omega⟩)
  constructor
  case running => exact (hword _ fun a ha => Or.inl ha).trans h.running
  case next =>
      intro t ht
      exact ⟨(h.next t ht).1, (hword _ fun a ha => Or.inr (Or.inl ha)).trans (h.next t ht).2⟩
  case requested => exact h.requested
  case settled => exact h.settled
  case known => exact h.known
  case saved =>
      intro t ht hoff
      exact (h.saved t ht hoff).congr hb ht
        (hword _ fun a ha => Or.inr (Or.inr ⟨t, ht, Or.inl ha⟩))
        fun a ha => hkeep a (Or.inr (Or.inr ⟨t, ht, Or.inr ⟨hoff, ha⟩⟩))
  case held => exact fun hne => absurd hmode hne

/-- PendSV is entered from `t`: the frame goes to its stack. -/
theorem Inv.enter (h : s.Inv b) (hb : b.Sound) (hp : s.pending = true) {fp : Word} {frame : Frame}
    (hcpu : s.onCpu = some t) (hroom : Room b t fp) : Inv b { s with
      cpu := { s.cpu with psp := fp, mem := frame.store s.cpu.mem fp }
      pending := false
      mode := .entered
      left := Function.update s.left t (some ⟨s.cpu.callee, fp, frame⟩) } := by
  have ht := h.known t hcpu
  have hsize := (hb.size t ht).2
  have hroom' := hroom
  unfold Room at hroom'
  -- the frame is stored inside the stack of `t`
  have hmem : ∀ a, ¬ b.InStack t a → frame.store s.cpu.mem fp a = s.cpu.mem a := by
    intro a ha
    unfold Board.InStack at ha
    exact Frame.store_frame _ (by omega) (by omega)
  have hword : ∀ w : Word, Separate w.toNat 4 (b.base t) (b.size t) →
      ldr (frame.store s.cpu.mem fp) w = ldr s.cpu.mem w := by
    intro w hw
    unfold Separate at hw
    exact ldr_congr fun i hi => hmem _ (by unfold Board.InStack; omega)
  constructor
  case running => exact (hword _ (hb.running t ht).2).trans h.running
  case next =>
      intro u hu
      exact ⟨(h.next u hu).1, (hword _ (hb.next t ht).2).trans (h.next u hu).2⟩
  case requested => exact fun _ => h.requested (Or.inl hp)
  case settled => exact fun _ hne => absurd rfl hne
  case known => exact h.known
  case saved =>
      intro u hu hoff
      have hne : u ≠ t := fun he => hoff (he ▸ hcpu)
      have hctx : resumesWith b { s with
          cpu := { s.cpu with psp := fp, mem := frame.store s.cpu.mem fp }
          pending := false
          mode := .entered
          left := Function.update s.left t (some ⟨s.cpu.callee, fp, frame⟩) } u
          = s.resumesWith b u := by
        rw [resumesWith, resumesWith]
        dsimp only
        rw [Function.update_of_ne hne]
      rw [hctx]
      refine (h.saved u hu hoff).congr hb hu (hword _ (hb.spLocStack u hu t ht)) fun a ha => ?_
      have hr := hb.regions u hu t ht hne
      unfold Separate at hr
      unfold Board.InStack at ha
      exact hmem a (by unfold Board.InStack; omega)
  case held =>
      intro _ u hu
      obtain rfl : t = u := Option.some.inj (hcpu.symm.trans hu)
      refine ⟨?_, hroom⟩
      rw [resumesWith]
      dsimp only
      rw [Function.update_self, Option.getD_some, Cpu.context]
      dsimp only
      rw [Frame.load_store _ (by omega)]
      rfl

/-! ## The handler -/

/-- Behind the save every thread's context is saved. -/
structure AllSaved (b : Board) (s : SwitchSys) (m : Mem) : Prop where
  saved : ∀ t ∈ b.threads, Saved b m t (s.resumesWith b t)
  next : ldr m b.nextSpLoc = ldr s.cpu.mem b.nextSpLoc
  stackPtr : ∀ t ∈ b.threads, s.onCpu ≠ some t → ldr m (b.spLoc t) = ldr s.cpu.mem (b.spLoc t)
  stack : ∀ t ∈ b.threads, s.onCpu ≠ some t → ∀ a, b.InStack t a → m a = s.cpu.mem a

/-- Saving the thread on the CPU: it writes below the frame and the stack pointer of `t`. -/
theorem Inv.saves (h : s.Inv b) (hb : b.Sound) (hmode : s.mode = .entered)
    (hcpu : s.onCpu = some t) {c : Cpu} (hr1 : c.r1 = b.spLoc t) (hpsp : c.psp = s.cpu.psp)
    (hcallee : c.callee = s.cpu.callee) (hmem : c.mem = s.cpu.mem) :
    AllSaved b s c.pendSvSave.mem := by
  have ht := h.known t hcpu
  have hsize := (hb.size t ht).2
  obtain ⟨hctx, hroom⟩ := h.held (by rw [hmode]; decide) t hcpu
  rw [← hpsp] at hroom
  unfold Room at hroom
  have happ := hb.spLocStack t ht t ht
  unfold Separate at happ
  have hspec := pendSvSave_spec c (by omega) (by rw [hr1]; omega)
  have hout : ∀ a, ¬ b.InStack t a → ¬ InWord (b.spLoc t) a →
      c.pendSvSave.mem a = s.cpu.mem a := by
    intro a ha ha'
    unfold Board.InStack at ha
    unfold InWord at ha'
    rw [← hmem]
    exact hspec.frame a (by omega) (by rw [hr1]; omega)
  have hword : ∀ w : Word, Separate w.toNat 4 (b.base t) (b.size t) →
      Separate w.toNat 4 (b.spLoc t).toNat 4 → ldr c.pendSvSave.mem w = ldr s.cpu.mem w := by
    intro w hstack hloc
    unfold Separate at hstack hloc
    refine ldr_congr fun i hi => hout _ ?_ ?_
    · unfold Board.InStack
      omega
    · unfold InWord
      omega
  have hregion : ∀ u ∈ b.threads, u ≠ t → ∀ a, b.InStack u a →
      c.pendSvSave.mem a = s.cpu.mem a := by
    intro u hu hut a ha
    have hr := hb.regions u hu t ht hut
    have hl := hb.spLocStack t ht u hu
    unfold Separate at hr hl
    unfold Board.InStack at ha
    refine hout a ?_ ?_
    · unfold Board.InStack
      omega
    · unfold InWord
      omega
  have hother : ∀ u ∈ b.threads,
    u ≠ t → ldr c.pendSvSave.mem (b.spLoc u) = ldr s.cpu.mem (b.spLoc u) :=
    fun u hu hut => hword _ (hb.spLocStack u hu t ht) (hb.spLocs u hu t ht hut)
  have hself : Saved b c.pendSvSave.mem t s.cpu.context := by
    have hlo : (c.psp - 32).toNat = c.psp.toNat - 32 :=
      UInt32.toNat_sub_of_le _ _ (UInt32.le_iff_toNat_le.mpr (by simp; omega))
    have hsp := hspec.stackPtr
    rw [hr1] at hsp
    refine ⟨?_, ?_, ?_, ?_, ?_⟩
    · rw [hsp, hlo]
      show _ = s.cpu.psp.toNat
      rw [← hpsp]
      omega
    · rw [hsp, hspec.callee, hcallee]
      rfl
    · show Frame.load _ s.cpu.psp = Frame.load s.cpu.mem s.cpu.psp
      rw [← hpsp, ← hmem]
      exact Frame.load_congr (by omega) fun a ha ha' =>
        hspec.frame a (by omega) (by rw [hr1]; omega)
    · rw [hsp, hlo]
      omega
    · show s.cpu.psp.toNat + 32 ≤ _
      rw [← hpsp]
      exact hroom.2
  have hne : ∀ u, s.onCpu ≠ some u → u ≠ t := fun u hoff he => hoff (he ▸ hcpu)
  constructor
  case saved =>
      intro u hu
      by_cases hut : u = t
      · subst hut
        exact hctx ▸ hself
      · have hoff : s.onCpu ≠ some u := by
          rw [hcpu]
          exact fun he => hut (Option.some.inj he).symm
        exact (h.saved u hu hoff).congr hb hu (hother u hu hut) (hregion u hu hut)
  case next => exact hword _ (hb.next t ht).2 (hb.next t ht).1
  case stackPtr => exact fun u hu hoff => hother u hu (hne u hoff)
  case stack => exact fun u hu hoff => hregion u hu (hne u hoff)

theorem Inv.save (h : s.Inv b) (hb : b.Sound) (hmode : s.mode = .entered) :
    ∃ c : Cpu, s.cpu.pendSvHandler b = c.pendSvRestore b ∧ AllSaved b s c.mem := by
  have hrun := h.running
  cases hcpu : s.onCpu with
  | none =>
      -- the first switch saves nothing
      rw [hcpu] at hrun
      have hzero : ldr s.cpu.mem b.runningSpLoc = 0 := hrun
      refine ⟨_, rfl, ?_⟩
      dsimp only
      rw [if_pos hzero]
      exact ⟨fun t ht => h.saved t ht (by rw [hcpu]; simp), rfl, fun _ _ _ => rfl,
        fun _ _ _ _ _ => rfl⟩
  | some t =>
      rw [hcpu] at hrun
      have hloc : ldr s.cpu.mem b.runningSpLoc = b.spLoc t := hrun
      have hne : ldr s.cpu.mem b.runningSpLoc ≠ 0 := by
        rw [hloc]
        exact hb.spLoc t (h.known t hcpu)
      refine ⟨_, rfl, ?_⟩
      dsimp only
      rw [if_neg hne]
      exact h.saves hb hmode hcpu hloc rfl rfl rfl

theorem step_handle (b : Board) (hmode : s.mode = .entered) : s.step b .handle
    = some { s with cpu := s.cpu.pendSvHandler b, mode := .done, onCpu := s.latest } :=
  if_pos hmode

/-- The masked part of an activation saves the thread on the CPU and dispatches the latest. -/
theorem Inv.handle (h : s.Inv b) (hb : b.Sound) (hmode : s.mode = .entered) :
    Inv b { s with cpu := s.cpu.pendSvHandler b, mode := .done, onCpu := s.latest }
      ∧ Activation b s
        { s with cpu := s.cpu.pendSvHandler b, mode := .done, onCpu := s.latest } := by
  obtain ⟨v, hv⟩ := Option.ne_none_iff_exists'.mp (h.requested (Or.inr hmode))
  obtain ⟨hvin, hnext⟩ := h.next v hv
  obtain ⟨c, heq, hall⟩ := h.save hb hmode
  have hsaved := hall.saved v hvin
  obtain ⟨hcallee, hpsp, hmem⟩ := pendSvRestore_spec b c
  rw [hall.next, hnext] at hcallee hpsp hmem
  rw [← heq] at hcallee hpsp hmem
  -- the restore writes the pointer to the running thread's stack pointer, and no other word
  have hword : ∀ w : Word, Separate b.runningSpLoc.toNat 4 w.toNat 4 →
      ldr (s.cpu.pendSvHandler b).mem w = ldr c.mem w := by
    intro w hw
    unfold Separate at hw
    rw [hmem]
    exact ldr_str_ne (by omega)
  have hstack : ∀ t ∈ b.threads, ∀ a, b.InStack t a →
      (s.cpu.pendSvHandler b).mem a = c.mem a := by
    intro t ht a ha
    have hr := (hb.running t ht).2
    unfold Separate at hr
    unfold Board.InStack at ha
    rw [hmem]
    exact str_frame (by omega)
  have hrunning : ldr (s.cpu.pendSvHandler b).mem b.runningSpLoc = b.spLoc v := by
    rw [hmem]
    exact ldr_str_same _ _ _
  have hpsp' : (s.cpu.pendSvHandler b).psp = (s.resumesWith b v).psp := by
    have hsize := (hb.size v hvin).2
    have hhigh := hsaved.high
    have hup := hsaved.psp
    rw [hpsp]
    refine UInt32.toNat_inj.mp ?_
    rw [toNat_up (by simp; omega)]
    simpa using hup
  have hroom : Room b v (s.cpu.pendSvHandler b).psp := by
    have hlow := hsaved.low
    have hhigh := hsaved.high
    have hup := hsaved.psp
    rw [hpsp']
    exact ⟨by omega, hhigh⟩
  have hcontext : (s.cpu.pendSvHandler b).context = s.resumesWith b v := by
    have hframe := (hsaved.congr hb hvin (hword _ (hb.running v hvin).1) (hstack v hvin)).frame
    rw [Cpu.context, hpsp', hframe, hcallee, hsaved.callee]
  refine ⟨?_, ⟨rfl, v, hvin, hv, hrunning, hcontext⟩, fun t ht hoff => ?_, fun t ht hoff a ha => ?_⟩
  · constructor
    case running =>
        dsimp only
        rw [hrunning, hv]
        rfl
    case next =>
        intro t ht
        exact ⟨(h.next t ht).1, (hword _ hb.pointers).trans (hall.next.trans (h.next t ht).2)⟩
    case requested => exact fun _ => h.requested (Or.inr hmode)
    case settled => exact fun _ _ => rfl
    case known => exact fun t ht => (h.next t ht).1
    case saved =>
        intro t ht _
        exact (hall.saved t ht).congr hb ht (hword _ (hb.running t ht).1) (hstack t ht)
    case held =>
        intro _ t ht
        obtain rfl : v = t := Option.some.inj (hv.symm.trans ht)
        exact ⟨hcontext, hroom⟩
  · exact (hword _ (hb.running t ht).1).trans (hall.stackPtr t ht hoff)
  · exact (hstack t ht a ha).trans (hall.stack t ht hoff a ha)

/-! ## Steps and runs -/

theorem Inv.step (h : s.Inv b) (hb : b.Sound) (hs : s.step b l = some s') : s'.Inv b := by
  cases l with
  | switchTo prev v =>
      obtain ⟨hv, hs⟩ := Option.ite_none_right_eq_some.mp hs
      obtain rfl := Option.some.inj hs
      exact h.switchTo hb hv
  | execute c =>
      obtain ⟨hmode, hs⟩ := Option.ite_none_right_eq_some.mp hs
      obtain rfl := Option.some.inj hs
      exact h.execute hb hmode c
  | enter fp frame =>
      obtain ⟨⟨hmode, hp⟩, hs⟩ := Option.ite_none_right_eq_some.mp hs
      split at hs
      · -- before the first switch no context is at stake
        rename_i hcpu
        obtain rfl := Option.some.inj hs
        refine ⟨h.running, h.next, fun _ => h.requested (Or.inl hp), fun _ hne => absurd rfl hne,
          h.known, h.saved, fun _ t ht => ?_⟩
        rw [hcpu] at ht
        exact absurd ht (by simp)
      · rename_i t hcpu
        obtain ⟨hroom, hs⟩ := Option.ite_none_right_eq_some.mp hs
        obtain rfl := Option.some.inj hs
        exact h.enter hb hp hcpu hroom
  | handle =>
      obtain ⟨hmode, hs⟩ := Option.ite_none_right_eq_some.mp hs
      obtain rfl := Option.some.inj hs
      exact (h.handle hb hmode).1
  | leave =>
      obtain ⟨hmode, hs⟩ := Option.ite_none_right_eq_some.mp hs
      obtain rfl := Option.some.inj hs
      have hheld := h.held (by rw [hmode]; decide)
      split
      · rename_i hp
        exact ⟨h.running, h.next, fun _ => h.requested (Or.inl hp), fun _ hne => absurd rfl hne,
          h.known, h.saved, fun _ => hheld⟩
      · rename_i hp
        have hp' : s.pending = false := by simpa using hp
        refine ⟨h.running, h.next, fun hr => ?_, fun _ _ => h.settled hp' (by rw [hmode]; decide),
          h.known, h.saved, fun hne => absurd rfl hne⟩
        rcases hr with hr | hr
        · exact absurd hr hp
        · exact absurd hr (by simp)

theorem Initial.inv (hb : b.Sound) (h : s.Initial b) : s.Inv b := by
  obtain ⟨m, hm, hrun, -⟩ := h.mem
  obtain ⟨hall, hframe⟩ := foldl_init_saved hb m (fun _ ht => ht) hb.nodup
  constructor
  case running =>
      rw [h.onCpu, hm]
      refine (ldr_congr fun i hi => hframe _ fun t ht => ?_).trans hrun
      have h1 := (hb.running t ht).1
      have h2 := (hb.running t ht).2
      unfold Separate at h1 h2
      exact ⟨by unfold Board.InStack; omega, by unfold InWord; omega⟩
  case next =>
      intro t ht
      rw [h.latest] at ht
      exact absurd ht (by simp)
  case requested =>
      intro hr
      rw [h.pending, h.mode] at hr
      exact absurd hr (by simp)
  case settled => exact fun _ _ => by rw [h.onCpu, h.latest]
  case known =>
      intro t ht
      rw [h.onCpu] at ht
      exact absurd ht (by simp)
  case saved =>
      intro t ht _
      rw [hm, resumesWith, h.left]
      exact hall t ht
  case held => exact fun hne => absurd h.mode hne

end SwitchSys

/--
**Every thread resumes with what it had.**

Whatever the order of switch requests, executions, and entries, activations and returns
of PendSV: a dispatched thread has the R4-R11, the stack pointer and the hardware frame
with which it left the CPU, or its start; an activation runs the thread asked for last
and writes no stack and no saved stack pointer but those of the thread it takes off.
-/
theorem context_switch_correct {b : Board} (hb : b.Sound) {s s' : SwitchSys}
    {labels : List SwitchSys.Label} (h : s.Initial b)
    (hr : run (SwitchSys.step b) s labels = some s') :
    s'.Law b ∧ ∀ s'', s'.step b .handle = some s'' → SwitchSys.Activation b s' s'' := by
  have hinv : s'.Inv b :=
    run_invariant (P := fun s => SwitchSys.Inv b s) (fun _ _ _ hi hs => hi.step hb hs)
      (h.inv hb) hr
  refine ⟨hinv.law, fun s'' hs => ?_⟩
  obtain ⟨hmode, hs⟩ := Option.ite_none_right_eq_some.mp hs
  obtain rfl := Option.some.inj hs
  exact (hinv.handle hb hmode).2

/-- Two threads, with 256 bytes of stack each. -/
def duoBoard : Board where
  runningSpLoc := 0x2000_0000
  nextSpLoc := 0x2000_0004
  stackTop := 0x2001_0000
  threadExit := 0x0800_0100
  spLoc := fun t => if t = 1 then 0x2000_0010 else 0x2000_0020
  thr := fun t =>
    if t = 1 then threadDefine [] 256 0x0800_0200 5 0x2000_1000 2
    else threadDefine [] 256 0x0800_0300 6 0x2000_2000 3
  threads := [1, 2]

theorem duoBoard_sound : duoBoard.Sound := by
  constructor <;> simp [duoBoard, Board.base, Board.size, threadDefine, Separate]

/-- The start-up code on the CPU, with both threads initialised. -/
def duoStart : SwitchSys where
  cpu := ⟨0, 0, 0, 0, 0, 0, 0, 0, 0, 0, 0, 0, 0,
    duoBoard.threads.foldl (archThreadStackInit duoBoard) fun _ => 0⟩
  pending := false
  mode := .thread
  latest := none
  onCpu := none
  left := fun _ => none

/-- Thread 1 starts and is at work; a switch to 2 is overtaken by one back to 1 and one to 2, and
one back to 1 is asked for before PendSV returns. -/
def duoLabels : List SwitchSys.Label :=
  [.switchTo none 1, .enter 0 ⟨0, 0, 0, 0, 0, 0, 0, 0⟩, .handle, .leave,
    .execute ⟨0, 0, 0, 14, 15, 16, 17, 18, 19, 20, 21, 0x2000_1080, 0, fun _ => 0⟩,
    .switchTo (some 1) 2, .switchTo (some 2) 1, .switchTo (some 1) 2,
    .enter 0x2000_1060 ⟨1, 2, 3, 4, 5, 6, 7, 8⟩, .handle, .switchTo (some 2) 1, .leave]

theorem context_switch_correct_duo : ∃ s s',
    run (SwitchSys.step duoBoard) duoStart duoLabels = some s ∧ s.Law duoBoard
      ∧ s.step duoBoard .handle = some s' ∧ SwitchSys.Activation duoBoard s s'
      ∧ s'.onCpu = some 1 ∧ s'.cpu.context
        = ⟨⟨14, 15, 16, 17, 18, 19, 20, 21⟩, 0x2000_1060, ⟨1, 2, 3, 4, 5, 6, 7, 8⟩⟩ := by
  have h : duoStart.Initial duoBoard :=
    ⟨⟨fun _ => 0, rfl, by decide, by decide⟩, rfl, rfl, rfl, rfl, rfl⟩
  obtain ⟨s, hs, hval⟩ : ∃ s, run (SwitchSys.step duoBoard) duoStart duoLabels = some s
      ∧ (s.mode, s.latest, s.left 1) = (.entered, some 1,
        some ⟨⟨14, 15, 16, 17, 18, 19, 20, 21⟩, 0x2000_1060, ⟨1, 2, 3, 4, 5, 6, 7, 8⟩⟩) :=
    Option.map_eq_some_iff.mp (by decide +kernel)
  obtain ⟨hmode, hlatest, hleft⟩ : _ ∧ _ ∧ _ := by simpa only [Prod.mk.injEq] using hval
  obtain ⟨hlaw, hact⟩ := context_switch_correct duoBoard_sound h hs
  have hs' := SwitchSys.step_handle duoBoard hmode
  -- what comes back is what the record has for thread 1
  obtain ⟨-, t, -, ht, -, hctx⟩ := (hact _ hs').latest
  obtain rfl : 1 = t := Option.some.inj (hlatest.symm.trans ht)
  refine ⟨s, _, hs, hlaw, hs', hact _ hs', hlatest, hctx.trans ?_⟩
  rw [SwitchSys.resumesWith, hleft]
  rfl

end VibeRtos
