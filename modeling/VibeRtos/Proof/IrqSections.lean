import VibeRtos.Arch.IrqLock

/-!
# Locked sections are atomic

PRIMASK is set exactly while the running context has a section open (`Law`). A handler can come
between the `mrs` and the `cpsid` of a lock, and PendSV too: both leave PRIMASK as they found it, so
the key that was read is still the right one. All other contexts were left with PRIMASK clear, so
none of them has a section open or a spin flag taken.

Over that, an instruction is no step of the atomic machine, or one statement of the running
context (`Advances`), and a section is closed by the `msr` that gives back its outermost key.
-/

namespace VibeRtos.Irq

open Runs CriticalSections

variable {L σ : Type} {p : Program L σ} {b : Board L σ}

/-! ## Keys -/

/-- The key that a lock returns with the sections `ss` open. -/
def keyOf (ss : List (Word × Option Spin)) : Word := if ss.isEmpty then 0 else 1

/-- Each key says whether it is the outermost one. -/
def Keys : List (Word × Option Spin) → Prop
  | [] => True
  | s :: ss => s.1 = keyOf ss ∧ Keys ss

theorem inside_eq_false {l : L} : p.inside l = false ↔ p.sections l = [] := by
  simp [Program.inside]

theorem inside_of_cons {l : L} {s : Word × Option Spin} {ss : List (Word × Option Spin)}
    (h : p.sections l = s :: ss) : p.inside l = true := by
  simp [Program.inside, h]

theorem keyOf_inside (l : L) : (if p.inside l then (1 : Word) else 0) = keyOf (p.sections l) := by
  cases h : p.sections l with
  | nil => simp [Program.inside, keyOf, h]
  | cons s ss => simp [Program.inside, keyOf, h]

/-- `msr PRIMASK, key` masks exactly if a section stays open. -/
theorem testBit_keyOf (l : L) : (keyOf (p.sections l)).toNat.testBit 0 = p.inside l := by
  cases h : p.sections l with
  | nil => simp [Program.inside, keyOf, h]
  | cons s ss => simp [Program.inside, keyOf, h]

/-! ## Contexts -/

/-- A lock function that was called stands at one of its own instructions, with the key that it has
read or that it was given. -/
def Ctx.Ok (p : Program L σ) : Ctx L → Prop
  | .run l => Keys (p.sections l)
  | .call l key todo => Keys (p.sections l) ∧
      match p.code l with
      | .lock lk _ => todo <:+ lockCode lk ∧ (.mrs ∉ todo → key = keyOf (p.sections l))
      | .unlock lk key' _ => todo <:+ unlockCode lk ∧ key = key'
      | _ => False

/-- The suffixes of the lock functions. -/
theorem suffix_lockCode {lk : Option Spin} {todo : List Instr} (h : todo <:+ lockCode lk) :
    todo = lockCode lk ∨ todo = .cpsid :: (lockCode lk).drop 2 ∨ todo = [] ∨
      ∃ x, lk = some x ∧ todo = [.testAndSet x] := by
  cases lk with
  | none =>
      simp only [lockCode, archIrqLock, List.suffix_cons_iff, List.suffix_nil] at h ⊢
      rcases h with rfl | rfl | rfl <;> simp
  | some x =>
      simp only [lockCode, vibeSpinlockLockIrqsave, vibeSpinlockLock, archIrqLock,
        List.cons_append, List.nil_append, List.suffix_cons_iff, List.suffix_nil] at h ⊢
      rcases h with rfl | rfl | rfl | rfl <;> simp

theorem suffix_unlockCode {lk : Option Spin} {todo : List Instr} (h : todo <:+ unlockCode lk) :
    todo = [.msr] ∨ todo = [] ∨ ∃ x, lk = some x ∧ todo = [.clear x, .msr] := by
  cases lk with
  | none =>
      simp only [unlockCode, archIrqUnlock, List.suffix_cons_iff, List.suffix_nil] at h ⊢
      rcases h with rfl | rfl <;> simp
  | some x =>
      simp only [unlockCode, vibeSpinlockUnlockIrqrestore, vibeSpinlockUnlock, archIrqUnlock,
        List.cons_append, List.nil_append, List.suffix_cons_iff, List.suffix_nil] at h ⊢
      rcases h with rfl | rfl | rfl <;> simp

/-- The state of the running context: PRIMASK and the flags say which sections it has open. -/
structure Good (p : Program L σ) (c : Ctx L) (m : Shared σ) : Prop where
  ok : c.Ok p
  mask : m.primask = p.inside (c.point p)
  flag : ∀ lk, m.flag lk = true ↔ lk ∈ c.holds p
  nodup : (c.holds p).Nodup

/-- What an instruction is for the atomic machine: nothing, or a statement. -/
def Advances (p : Program L σ) (c c' : Ctx L) (m m' : σ) : Prop :=
  (c'.point p = c.point p ∧ m' = m) ∨ p.stmt (c.point p) m = some (c'.point p, m')

theorem mrs_mem_lockCode (lk : Option Spin) : Instr.mrs ∈ lockCode lk := by
  cases lk <;> simp [lockCode, archIrqLock, vibeSpinlockLockIrqsave]

theorem lockCode_eq (lk : Option Spin) :
    lockCode lk = .mrs :: .cpsid :: (lockCode lk).drop 2 := by
  cases lk <;> rfl

/-- What is left of a function that locks, once interrupts are disabled. -/
theorem drop_lockCode (lk : Option Spin) :
    (lockCode lk).drop 2 = lk.toList.map Instr.testAndSet := by
  cases lk <;> rfl

theorem cpsid_mem_lockCode (lk : Option Spin) : Instr.cpsid ∈ lockCode lk := by
  cases lk <;> simp [lockCode, archIrqLock, vibeSpinlockLockIrqsave]

theorem msr_mem_unlockCode (lk : Option Spin) : Instr.msr ∈ unlockCode lk := by
  cases lk <;> simp [unlockCode, archIrqUnlock, vibeSpinlockUnlockIrqrestore]

section Calls

variable {l : L} {key' : Word} {todo : List Instr} {lk : Option Spin}

/-- A lock function that has not taken its spinlock. -/
theorem holds_locking {k : Word → L} (hc : p.code l = .lock lk k) (key : Word)
    (h : todo ≠ [] ∨ lk = none) : (Ctx.call l key todo).holds p = spins (p.sections l) := by
  rcases h with h | rfl
  · simp [Ctx.holds, hc, h]
  · simp [Ctx.holds, hc]

theorem holds_locked {k : Word → L} (hc : p.code l = .lock lk k) (key : Word) :
    (Ctx.call l key []).holds p = lk.toList ++ spins (p.sections l) := by
  simp [Ctx.holds, hc]

theorem spins_cons (key : Word) (lk : Option Spin) (ss : List (Word × Option Spin)) :
    spins ((key, lk) :: ss) = lk.toList ++ spins ss := by
  cases lk <;> simp [spins]

/-- A function that unlocks and has not cleared the flag. -/
theorem holds_unlocking {k : L} (hc : p.code l = .unlock lk key' k) (key : Word)
    (h : ∀ x, lk = some x → Instr.clear x ∈ todo) :
    (Ctx.call l key todo).holds p = spins (p.sections l) := by
  rw [p.unlock hc, spins_cons]
  cases lk with
  | none => simp [Ctx.holds, hc]
  | some x => simp [Ctx.holds, hc, h x rfl, Option.filter_some]

theorem holds_unlocked {k : L} (hc : p.code l = .unlock lk key' k) (key : Word)
    (h : ∀ x, lk = some x → Instr.clear x ∉ todo) :
    (Ctx.call l key todo).holds p = spins (p.sections k) := by
  cases lk with
  | none => simp [Ctx.holds, hc]
  | some x => simp [Ctx.holds, hc, h x rfl, Option.filter_some]

/-- The section opens with the `cpsid`, and closes with the `msr`. -/
theorem point_before (p : Program L σ) (l : L) (key : Word)
    (h : Instr.cpsid ∈ todo ∨ Instr.msr ∈ todo) :
    (Ctx.call l key todo).point p = l := if_pos h

theorem point_after (p : Program L σ) (l : L) (key : Word) (h : Instr.cpsid ∉ todo)
    (h' : Instr.msr ∉ todo) : (Ctx.call l key todo).point p = p.after l key :=
  if_neg (by simp [h, h'])

end Calls

/-! ### One instruction -/

section Instruction

variable {c c' : Ctx L} {m m' : Shared σ} {l : L} {key : Word} {todo : List Instr}
  {lk : Option Spin}

/-- At a point of the code. -/
theorem good_run (h : Good p (.run l) m) (hs : (Ctx.run l).step p m = some (c', m')) :
    Good p c' m' ∧ Advances p (.run l) c' m.mem m'.mem := by
  obtain ⟨hok, hmask, hflag, hnodup⟩ := h
  simp only [Ctx.Ok, Ctx.point, Ctx.holds] at hok hmask hflag hnodup
  simp only [Ctx.step] at hs
  cases hc : p.code l with
  | exec f =>
      rw [hc] at hs
      obtain ⟨rfl, rfl⟩ := Prod.mk.inj (Option.some.inj hs)
      have hsec := p.exec hc m.mem
      refine ⟨⟨?_, ?_, ?_, ?_⟩, Or.inr ?_⟩
      · simpa only [Ctx.Ok, hsec] using hok
      · simpa only [Ctx.point, Program.inside, hsec] using hmask
      · simpa only [Ctx.holds, hsec] using hflag
      · simpa only [Ctx.holds, hsec] using hnodup
      · simp [Ctx.point, Program.stmt, hc]
  | lock lk k =>
      rw [hc] at hs
      obtain ⟨rfl, rfl⟩ := Prod.mk.inj (Option.some.inj hs)
      have hmrs := mrs_mem_lockCode lk
      have hpoint := point_before p l 0 (Or.inl (cpsid_mem_lockCode lk))
      have hholds := holds_locking hc 0 (Or.inl (List.ne_nil_of_mem hmrs))
      refine ⟨⟨⟨hok, ?_⟩, by rw [hpoint, hmask], ?_, ?_⟩, Or.inl ⟨hpoint, rfl⟩⟩
      · rw [hc]
        exact ⟨List.suffix_rfl, fun h => absurd hmrs h⟩
      · rwa [hholds]
      · rwa [hholds]
  | unlock lk key k =>
      rw [hc] at hs
      obtain ⟨rfl, rfl⟩ := Prod.mk.inj (Option.some.inj hs)
      have hpoint := point_before p l key (Or.inr (msr_mem_unlockCode lk))
      have hclear : ∀ x, lk = some x → Instr.clear x ∈ unlockCode lk := by
        rintro x rfl
        simp [unlockCode, vibeSpinlockUnlockIrqrestore, vibeSpinlockUnlock]
      have hholds := holds_unlocking hc key hclear
      refine ⟨⟨⟨hok, ?_⟩, by rw [hpoint, hmask], ?_, ?_⟩, Or.inl ⟨hpoint, rfl⟩⟩
      · rw [hc]
        exact ⟨List.suffix_rfl, rfl⟩
      · rwa [hholds]
      · rwa [hholds]
  | ret =>
      rw [hc] at hs
      exact absurd hs (by simp)

/-- In a function that locks. -/
theorem good_lock {k : Word → L} (hc : p.code l = .lock lk k) (h : Good p (.call l key todo) m)
    (hs : (Ctx.call l key todo).step p m = some (c', m')) :
    Good p c' m' ∧ Advances p (.call l key todo) c' m.mem m'.mem := by
  obtain ⟨⟨hkeys, hok⟩, hmask, hflag, hnodup⟩ := h
  rw [hc] at hok
  obtain ⟨hsuf, hkey⟩ := hok
  have hafter : ∀ key, p.after l key = k key := fun key => by simp [Program.after, hc]
  have hcpsid : Instr.cpsid ∉ lk.toList.map Instr.testAndSet := by simp
  have hmsr : Instr.msr ∉ lk.toList.map Instr.testAndSet := by simp
  rcases suffix_lockCode hsuf with rfl | rfl | rfl | ⟨x, rfl, rfl⟩
  · -- `mrs`: PRIMASK says whether a section is open
    rw [point_before p l key (Or.inl (cpsid_mem_lockCode lk))] at hmask
    rw [holds_locking hc key (Or.inl (List.ne_nil_of_mem (mrs_mem_lockCode lk)))] at hflag hnodup
    rw [lockCode_eq] at hs
    obtain ⟨rfl, rfl⟩ := Prod.mk.inj (Option.some.inj hs)
    have hne : Instr.cpsid :: (lockCode lk).drop 2 ≠ [] := by simp
    have hholds := holds_locking hc (if m.primask then 1 else 0) (Or.inl hne)
    refine ⟨⟨⟨hkeys, ?_⟩, ?_, ?_, ?_⟩, Or.inl ⟨?_, rfl⟩⟩
    · rw [hc, hmask]
      exact ⟨⟨[.mrs], (lockCode_eq lk).symm⟩, fun _ => keyOf_inside l⟩
    · rw [point_before p l _ (Or.inl (by simp)), hmask]
    · rwa [hholds]
    · rwa [hholds]
    · rw [point_before p l _ (Or.inl (by simp)),
        point_before p l key (Or.inl (cpsid_mem_lockCode lk))]
  · -- `cpsid i`: the section opens
    rw [drop_lockCode] at hsuf hkey hmask hflag hnodup hs ⊢
    rw [holds_locking hc key (Or.inl (by simp))] at hflag hnodup
    obtain rfl := hkey (by simp)
    obtain ⟨rfl, rfl⟩ := Prod.mk.inj (Option.some.inj hs)
    have hpoint := point_after p l (keyOf (p.sections l)) hcpsid hmsr
    have hne : lk.toList.map Instr.testAndSet ≠ [] ∨ lk = none := by cases lk <;> simp
    have hholds := holds_locking hc (keyOf (p.sections l)) hne
    refine ⟨⟨⟨hkeys, ?_⟩, ?_, ?_, ?_⟩, Or.inr ?_⟩
    · rw [hc]
      exact ⟨(List.suffix_cons _ _).trans hsuf, fun _ => rfl⟩
    · rw [hpoint, hafter]
      exact (inside_of_cons (p.lock hc _)).symm
    · rwa [hholds]
    · rwa [hholds]
    · rw [point_before p l _ (Or.inl (by simp)), hpoint, hafter]
      simp [Program.stmt, hc, keyOf_inside]
  · -- the return
    obtain rfl := hkey (by simp)
    obtain ⟨rfl, rfl⟩ := Prod.mk.inj (Option.some.inj hs)
    have hpoint : (Ctx.call l (keyOf (p.sections l)) []).point p = p.after l _ :=
      point_after p l _ (by simp) (by simp)
    have hsec := p.lock hc (keyOf (p.sections l))
    rw [holds_locked hc _] at hflag hnodup
    rw [hafter]
    refine ⟨⟨?_, ?_, ?_, ?_⟩, Or.inl ⟨by rw [hpoint, hafter]; rfl, rfl⟩⟩
    · rw [Ctx.Ok, hsec]
      exact ⟨rfl, hkeys⟩
    · rw [hmask, hpoint, hafter]
      rfl
    · rwa [Ctx.holds, hsec, spins_cons]
    · rwa [Ctx.holds, hsec, spins_cons]
  · -- the test and set
    obtain rfl := hkey (by simp)
    have hpoint : (Ctx.call l (keyOf (p.sections l)) [.testAndSet x]).point p = p.after l _ :=
      point_after p l _ (by simp) (by simp)
    have hpoint' : (Ctx.call l (keyOf (p.sections l)) []).point p = p.after l _ :=
      point_after p l _ (by simp) (by simp)
    simp only [Ctx.step] at hs
    by_cases hx : m.flag x = true
    · rw [if_pos hx] at hs
      obtain ⟨rfl, rfl⟩ := Prod.mk.inj (Option.some.inj hs)
      exact ⟨⟨⟨hkeys, by rw [hc]; exact ⟨hsuf, hkey⟩⟩, hmask, hflag, hnodup⟩, Or.inl ⟨rfl, rfl⟩⟩
    · rw [if_neg hx] at hs
      obtain ⟨rfl, rfl⟩ := Prod.mk.inj (Option.some.inj hs)
      rw [holds_locking hc _ (Or.inl (by simp))] at hflag hnodup
      have hholds := holds_locked hc (keyOf (p.sections l))
      refine ⟨⟨⟨hkeys, ?_⟩, ?_, ?_, ?_⟩, Or.inl ⟨by rw [hpoint, hpoint'], rfl⟩⟩
      · rw [hc]
        exact ⟨List.nil_suffix, fun _ => rfl⟩
      · rw [hmask, hpoint, hpoint']
      · intro y
        rw [hholds]
        by_cases hy : y = x
        · simp [hy]
        · simp [hflag y, hy]
      · rw [hholds]
        exact List.nodup_cons.mpr ⟨fun hmem => hx ((hflag x).mpr hmem), hnodup⟩

/-- In a function that unlocks. -/
theorem good_unlock {key' : Word} {k : L} (hc : p.code l = .unlock lk key' k)
    (h : Good p (.call l key todo) m) (hs : (Ctx.call l key todo).step p m = some (c', m')) :
    Good p c' m' ∧ Advances p (.call l key todo) c' m.mem m'.mem := by
  obtain ⟨⟨hkeys, hok⟩, hmask, hflag, hnodup⟩ := h
  rw [hc] at hok
  obtain ⟨hsuf, rfl⟩ := hok
  have hafter : p.after l key = k := by simp [Program.after, hc]
  have hpoint : (Ctx.call l key []).point p = k :=
    (point_after p l key (by simp) (by simp)).trans hafter
  have hkeys' := hkeys
  rw [p.unlock hc] at hkeys'
  obtain ⟨rfl, hkeys'⟩ := hkeys'
  rcases suffix_unlockCode hsuf with rfl | rfl | ⟨x, rfl, rfl⟩
  · -- `msr`: the section closes
    obtain ⟨rfl, rfl⟩ := Prod.mk.inj (Option.some.inj hs)
    rw [holds_unlocked hc _ (by simp)] at hflag hnodup
    have hholds : (Ctx.call l (keyOf (p.sections k)) []).holds p = spins (p.sections k) :=
      holds_unlocked hc _ (by simp)
    refine ⟨⟨⟨hkeys, ?_⟩, ?_, ?_, ?_⟩, Or.inr ?_⟩
    · rw [hc]
      exact ⟨List.nil_suffix, rfl⟩
    · rw [hpoint]
      exact testBit_keyOf k
    · rwa [hholds]
    · rwa [hholds]
    · rw [point_before p l _ (Or.inr (by simp)), hpoint]
      simp [Program.stmt, hc]
  · -- the return
    obtain ⟨rfl, rfl⟩ := Prod.mk.inj (Option.some.inj hs)
    rw [holds_unlocked hc _ (by simp)] at hflag hnodup
    rw [hpoint] at hmask
    rw [hafter]
    exact ⟨⟨hkeys', hmask, hflag, hnodup⟩, Or.inl ⟨hpoint.symm, rfl⟩⟩
  · -- the flag is cleared, and the section is still open
    obtain ⟨rfl, rfl⟩ := Prod.mk.inj (Option.some.inj hs)
    rw [holds_unlocking hc _ (by simp), p.unlock hc, spins_cons] at hflag hnodup
    have hholds : (Ctx.call l (keyOf (p.sections k)) [.msr]).holds p = spins (p.sections k) :=
      holds_unlocked hc _ (by simp)
    have hx : x ∉ spins (p.sections k) ∧ (spins (p.sections k)).Nodup :=
      List.nodup_cons.mp hnodup
    refine ⟨⟨⟨hkeys, ?_⟩, ?_, ?_, ?_⟩, Or.inl ⟨?_, rfl⟩⟩
    · rw [hc]
      exact ⟨(List.suffix_cons _ _).trans hsuf, rfl⟩
    · rw [point_before p l _ (Or.inr (by simp)), hmask, point_before p l _ (Or.inr (by simp))]
    · intro y
      rw [hholds]
      by_cases hy : y = x
      · simp [hy, hx.1]
      · simp [hflag y, hy]
    · rw [hholds]
      exact hx.2
    · rw [point_before p l _ (Or.inr (by simp)), point_before p l _ (Or.inr (by simp))]

/-- One instruction of the running context. -/
theorem good_step (h : Good p c m) (hs : c.step p m = some (c', m')) :
    Good p c' m' ∧ Advances p c c' m.mem m'.mem := by
  cases c with
  | run l => exact good_run h hs
  | call l key todo =>
      have hok := h.ok.2
      cases hc : p.code l with
      | lock lk k => exact good_lock hc h hs
      | unlock lk key' k => exact good_unlock hc h hs
      | exec f => simp [hc] at hok
      | ret => simp [hc] at hok

end Instruction

/-! ## The processor -/

/-- A context that can be left: it has no section open. -/
structure Suspended (p : Program L σ) (c : Ctx L) : Prop where
  ok : c.Ok p
  outside : p.inside (c.point p) = false

theorem Suspended.holds {c : Ctx L} (h : Suspended p c) : c.holds p = [] := by
  obtain ⟨hok, hout⟩ := h
  cases c with
  | run l =>
      have hl : p.sections l = [] := inside_eq_false.mp hout
      simp [Ctx.holds, hl, spins]
  | call l key todo =>
      have hok' := hok.2
      cases hc : p.code l with
      | lock lk k =>
          rw [hc] at hok'
          have hafter : p.after l key = k key := by simp [Program.after, hc]
          have hin : Instr.cpsid ∈ todo ∨ Instr.msr ∈ todo := by
            by_contra hno
            rw [Ctx.point, if_neg hno, hafter, inside_of_cons (p.lock hc key)] at hout
            exact absurd hout (by simp)
          rw [point_before p l key hin] at hout
          have hne : todo ≠ [] := by rintro rfl; simp at hin
          simp [holds_locking hc key (Or.inl hne), inside_eq_false.mp hout, spins]
      | unlock lk key' k =>
          rw [hc] at hok'
          have hafter : p.after l key = k := by simp [Program.after, hc]
          rcases suffix_unlockCode hok'.1 with rfl | rfl | ⟨x, rfl, rfl⟩
          · rw [point_before p l key (by simp), inside_of_cons (p.unlock hc)] at hout
            exact absurd hout (by simp)
          · rw [point_after p l key (by simp) (by simp), hafter] at hout
            simp [holds_unlocked hc, inside_eq_false.mp hout, spins]
          · rw [point_before p l key (by simp), inside_of_cons (p.unlock hc)] at hout
            exact absurd hout (by simp)
      | exec f => simp [hc] at hok'
      | ret => simp [hc] at hok'

/-- Interrupts are enabled, and nobody is in a section. -/
structure Quiet (p : Program L σ) (s : Cpu L σ) : Prop where
  primask : s.primask = false
  flag : ∀ lk, s.flag lk = false
  thread : ∀ t, Suspended p (s.thread t)
  nest : ∀ c ∈ s.nest, Suspended p c.2

/-- Only the running context may have sections open, and PRIMASK and the flags are theirs. -/
structure Law (p : Program L σ) (s : Cpu L σ) : Prop where
  good : Good p s.running s.toShared
  thread : ∀ t, t ≠ s.current ∨ s.nest ≠ [] → Suspended p (s.thread t)
  nest : ∀ c ∈ s.nest.tail, Suspended p c.2

theorem Quiet.running {s : Cpu L σ} (h : Quiet p s) : Suspended p s.running := by
  cases hn : s.nest with
  | nil => simpa [Cpu.running, hn] using h.thread s.current
  | cons c rest => simpa [Cpu.running, hn] using h.nest c (by simp [hn])

theorem Quiet.law {s : Cpu L σ} (h : Quiet p s) : Law p s where
  good :=
    { ok := h.running.ok
      mask := h.primask.trans h.running.outside.symm
      flag := fun lk => by simp [h.flag lk, h.running.holds]
      nodup := by simp [h.running.holds] }
  thread t _ := h.thread t
  nest c hc := h.nest c (List.mem_of_mem_tail hc)

theorem Law.quiet {s : Cpu L σ} (h : Law p s) (hp : s.primask = false) : Quiet p s := by
  have hrun : Suspended p s.running := ⟨h.good.ok, h.good.mask.symm.trans hp⟩
  refine ⟨hp, fun lk => ?_, fun t => ?_, fun c hc => ?_⟩
  · have hflag := h.good.flag lk
    rw [hrun.holds] at hflag
    simpa using hflag
  · by_cases ht : t ≠ s.current ∨ s.nest ≠ []
    · exact h.thread t ht
    · obtain ⟨rfl, hn⟩ := (not_or.mp ht).imp not_not.mp not_not.mp
      simpa [Cpu.running, hn] using hrun
  · cases hn : s.nest with
    | nil => simp [hn] at hc
    | cons d rest =>
        rw [hn] at hc
        rcases List.mem_cons.mp hc with rfl | hc
        · simpa [Cpu.running, hn] using hrun
        · exact h.nest c (by simp [hn, hc])

/-! ### The running context -/

section Running

variable (s : Cpu L σ) (c : Ctx L) (m : Shared σ)

@[simp] theorem running_setRunning : (s.setRunning c m).running = c := by
  cases hn : s.nest with
  | nil => simp [Cpu.setRunning, Cpu.running, hn]
  | cons d rest => simp [Cpu.setRunning, Cpu.running, hn]

@[simp] theorem shared_setRunning : (s.setRunning c m).toShared = m := by
  cases hn : s.nest with
  | nil => simp [Cpu.setRunning, hn]
  | cons d rest => simp [Cpu.setRunning, hn]

@[simp] theorem running_view : (s.view p).running = s.running.point p := by
  cases hn : s.nest with
  | nil => simp [Cpu.view, Atomic.running, Cpu.running, hn]
  | cons d rest => simp [Cpu.view, Atomic.running, Cpu.running, hn]

theorem view_setRunning :
    (s.setRunning c m).view p = (s.view p).setRunning (c.point p) m.mem := by
  cases hn : s.nest with
  | nil =>
      simp only [Cpu.view, Cpu.setRunning, Atomic.setRunning, hn, List.map_nil]
      congr 1
      funext t
      simp only [Function.update_apply]
      split
      · rfl
      · rfl
  | cons d rest => simp [Cpu.view, Cpu.setRunning, Atomic.setRunning, hn]

theorem setRunning_view : (s.view p).setRunning (s.running.point p) s.mem = s.view p := by
  cases hn : s.nest with
  | nil => simp [Cpu.view, Atomic.setRunning, Cpu.running, hn]
  | cons d rest => simp [Cpu.view, Atomic.setRunning, Cpu.running, hn]

end Running

section Step

variable {s s' : Cpu L σ}

theorem Law.setRunning {c : Ctx L} {m : Shared σ} (h : Law p s) (hgood : Good p c m) :
    Law p (s.setRunning c m) := by
  refine ⟨by simpa using hgood, ?_, ?_⟩
  · intro t ht
    cases hn : s.nest with
    | nil =>
        simp only [Cpu.setRunning, hn] at ht ⊢
        have hne : t ≠ s.current := ht.resolve_right (by simp)
        rw [Function.update_of_ne hne]
        exact h.thread t (Or.inl hne)
    | cons d rest =>
        simp only [Cpu.setRunning, hn] at ht ⊢
        exact h.thread t (Or.inr (by simp [hn]))
  · intro d hd
    cases hn : s.nest with
    | nil => simp [Cpu.setRunning, hn] at hd
    | cons e rest =>
        simp only [Cpu.setRunning, hn, List.tail_cons] at hd
        exact h.nest d (by simpa [hn] using hd)

/-- An instruction is nothing to the atomic machine, or a statement. -/
theorem exec_spec (h : Law p s) (hs : s.step b .exec = some s') (hp : b.prog = p) :
    Law p s' ∧ (s'.view p = s.view p ∧ s'.primask = s.primask ∨
      Atomic.stmt p (s.view p) = some (s'.view p)) := by
  subst hp
  obtain ⟨⟨c', m'⟩, hc, rfl⟩ := Option.map_eq_some_iff.mp hs
  obtain ⟨hgood, hadv⟩ := good_step h.good hc
  refine ⟨h.setRunning hgood, ?_⟩
  rw [view_setRunning]
  rcases hadv with ⟨hpoint, hmem⟩ | hstmt
  · refine Or.inl ⟨by rw [hpoint, hmem, setRunning_view], ?_⟩
    rw [shared_setRunning, hgood.mask, h.good.mask, hpoint]
  · refine Or.inr ?_
    rw [Atomic.stmt, running_view]
    exact Option.map_eq_some_iff.mpr ⟨_, hstmt, rfl⟩

theorem law_init (h : s.Boot p) : Law p s := by
  refine Quiet.law ⟨h.primask, h.flag, fun t => ?_, by simp [h.nest]⟩
  obtain ⟨l, hl, hsec⟩ := h.thread t
  rw [hl]
  exact ⟨by simp [Ctx.Ok, hsec, Keys], inside_eq_false.mpr hsec⟩

/-- A handler starts outside all sections. -/
theorem interrupt_spec {i : Nat} (h : Law b.prog s) (hs : s.step b (.interrupt i) = some s') :
    s.primask = false ∧ Quiet b.prog s' ∧
      (s.view b.prog).step b (.interrupt i) = some (s'.view b.prog) := by
  simp only [Cpu.step] at hs
  obtain ⟨⟨hp, hpre⟩, hs⟩ := Option.ite_none_right_eq_some.mp hs
  obtain rfl := Option.some.inj hs
  have hq := h.quiet hp
  refine ⟨hp, ⟨hp, hq.flag, hq.thread, ?_⟩, ?_⟩
  · intro c hc
    rcases List.mem_cons.mp hc with rfl | hc
    · exact ⟨by simp [Ctx.Ok, b.closed, Keys], inside_eq_false.mpr (b.closed i)⟩
    · exact hq.nest c hc
  · have hmap : (s.view b.prog).nest.map Prod.fst = s.nest.map Prod.fst := by
      simp [Cpu.view, Function.comp_def]
    simp only [Atomic.step, hmap]
    exact if_pos hpre

/-- A handler returns outside all sections. -/
theorem ret_spec (h : Law b.prog s) (hs : s.step b .ret = some s') :
    s.primask = false ∧ Quiet b.prog s' ∧ (s.view b.prog).step b .ret = some (s'.view b.prog) := by
  obtain ⟨⟨pm, flag, mem⟩, thread, current, nest⟩ := s
  cases nest with
  | nil => simp [Cpu.step] at hs
  | cons d rest =>
      obtain ⟨i, c⟩ := d
      cases c with
      | call l key todo => simp [Cpu.step] at hs
      | run l =>
          cases hc : b.prog.code l with
          | ret =>
              simp only [Cpu.step, hc] at hs
              obtain rfl := Option.some.inj hs
              have hp : pm = false :=
                h.good.mask.trans (inside_eq_false.mpr (b.prog.ret hc))
              have hq := h.quiet hp
              refine ⟨hp, ⟨hp, hq.flag, hq.thread, fun c hc => hq.nest c (by simp [hc])⟩, ?_⟩
              simp [Atomic.step, Cpu.view, Ctx.point, hc]
          | exec f => simp [Cpu.step, hc] at hs
          | lock lk k => simp [Cpu.step, hc] at hs
          | unlock lk key k => simp [Cpu.step, hc] at hs

/-- PendSV switches between contexts that are outside all sections. -/
theorem switch_spec {t : Tid} (h : Law b.prog s) (hs : s.step b (.switch t) = some s') :
    s.primask = false ∧ Quiet b.prog s' ∧
      (s.view b.prog).step b (.switch t) = some (s'.view b.prog) := by
  simp only [Cpu.step] at hs
  obtain ⟨⟨hp, hn⟩, hs⟩ := Option.ite_none_right_eq_some.mp hs
  obtain rfl := Option.some.inj hs
  have hq := h.quiet hp
  refine ⟨hp, ⟨rfl, hq.flag, hq.thread, hq.nest⟩, ?_⟩
  simp [Atomic.step, Cpu.view, hn]

/-! ## Runs -/

/-- The atomic machine is at `a`, and the running context has made some statements of the section
that it has open. -/
structure Within (b : Board L σ) (s : Cpu L σ) (a : Atomic L σ) : Prop where
  law : Law b.prog s
  advance : ∃ n, advance (Atomic.stmt b.prog) (Atomic.inside b.prog) n a = some (s.view b.prog) ∧
    (s.primask = false → n = 0)

theorem Quiet.within (h : Quiet b.prog s) : Within b s (s.view b.prog) :=
  ⟨h.law, 0, rfl, fun _ => rfl⟩

theorem Within.quiet {a : Atomic L σ} (h : Within b s a) (hp : s.primask = false) :
    a = s.view b.prog := by
  obtain ⟨n, hn, h0⟩ := h.advance
  rw [h0 hp] at hn
  exact Option.some.inj hn

theorem Law.inside (h : Law p s) : (s.view p).inside p = s.primask := by
  rw [Atomic.inside, running_view, h.good.mask]

theorem exec_within {a : Atomic L σ} (h : Within b s a) (hs : s.step b .exec = some s') :
    ∃ as a', run (Atomic.step b) a as = some a' ∧ Within b s' a' ∧
      as.filterMap Atomic.Label.event = [] := by
  obtain ⟨n, hn, h0⟩ := h.advance
  obtain ⟨hlaw, hexec⟩ := exec_spec h.law hs rfl
  rcases hexec with ⟨hview, hmask⟩ | hstmt
  · exact ⟨[], a, rfl, ⟨hlaw, n, by rw [hview, hn], by rwa [hmask]⟩, rfl⟩
  · cases hp : s'.primask with
    | true =>
        -- the section stays open
        have hin := hlaw.inside.trans hp
        exact ⟨[], a, rfl, ⟨hlaw, n + 1, advance_snoc hn hstmt hin, by simp [hp]⟩, rfl⟩
    | false =>
        -- the last `msr` of the section, or a statement outside all sections
        have hout := hlaw.inside.trans hp
        refine ⟨[.act n], s'.view b.prog, ?_, ⟨hlaw, 0, rfl, fun _ => rfl⟩, rfl⟩
        exact run_cons.mpr ⟨_, block_of_advance hn hstmt hout, rfl⟩

theorem step_within {l : Label} {a : Atomic L σ} (h : Within b s a)
    (hs : s.step b l = some s') : ∃ as a', run (Atomic.step b) a as = some a' ∧
      Within b s' a' ∧ as.filterMap Atomic.Label.event = [l].filterMap Label.event := by
  cases l with
  | exec => exact exec_within h hs
  | interrupt i =>
      obtain ⟨hp, hq, hstep⟩ := interrupt_spec h.law hs
      obtain rfl := h.quiet hp
      exact ⟨[.interrupt i], _, run_cons.mpr ⟨_, hstep, rfl⟩, hq.within, rfl⟩
  | ret =>
      obtain ⟨hp, hq, hstep⟩ := ret_spec h.law hs
      obtain rfl := h.quiet hp
      exact ⟨[.ret], _, run_cons.mpr ⟨_, hstep, rfl⟩, hq.within, rfl⟩
  | switch t =>
      obtain ⟨hp, hq, hstep⟩ := switch_spec h.law hs
      obtain rfl := h.quiet hp
      exact ⟨[.switch t], _, run_cons.mpr ⟨_, hstep, rfl⟩, hq.within, rfl⟩

theorem law_step {l : Label} (h : Law b.prog s) (hs : s.step b l = some s') : Law b.prog s' := by
  cases l with
  | exec => exact (exec_spec h hs rfl).1
  | interrupt i => exact (interrupt_spec h hs).2.1.law
  | ret => exact (ret_spec h hs).2.1.law
  | switch t => exact (switch_spec h hs).2.1.law

/-- Every state that is reached obeys the law. -/
theorem law_of_run {s₀ : Cpu L σ} {ls : List Label} (h₀ : s₀.Boot b.prog)
    (h : run (Cpu.step b) s₀ ls = some s) : Law b.prog s :=
  run_invariant (fun _ _ _ => law_step) (law_init h₀) h

end Step

/-! ### `vibe_sched_lock`, in a thread and in a handler -/

/-- `key = arch_irq_lock(); g_sched_lock_count++; arch_irq_unlock(key);` with the load and the store
of the counter apart. -/
inductive SchedLock where
  | start
  | locked (key : Word)
  | loaded (key : Word) (count : Nat)
  | stored (key : Word)
  | done

def schedLockCode : SchedLock → Stmt SchedLock Nat
  | .start => .lock none .locked
  | .locked key => .exec fun count => (.loaded key count, count)
  | .loaded key count => .exec fun _ => (.stored key, count + 1)
  | .stored key => .unlock none key .done
  | .done => .ret

def schedLockSections : SchedLock → List (Word × Option Spin)
  | .locked key => [(key, none)]
  | .loaded key _ => [(key, none)]
  | .stored key => [(key, none)]
  | _ => []

theorem schedLock_exec {l : SchedLock} {f : Nat → SchedLock × Nat}
    (h : schedLockCode l = .exec f) (m : Nat) :
    schedLockSections (f m).1 = schedLockSections l := by
  cases l <;> simp only [schedLockCode, reduceCtorEq, Stmt.exec.injEq] at h <;> subst h <;> rfl

theorem schedLock_lock {l : SchedLock} {lk : Option Spin} {k : Word → SchedLock}
    (h : schedLockCode l = .lock lk k) (key : Word) :
    schedLockSections (k key) = (key, lk) :: schedLockSections l := by
  cases l <;> simp only [schedLockCode, reduceCtorEq, Stmt.lock.injEq] at h
  obtain ⟨rfl, rfl⟩ := h
  rfl

theorem schedLock_unlock {l k : SchedLock} {lk : Option Spin} {key : Word}
    (h : schedLockCode l = .unlock lk key k) :
    schedLockSections l = (key, lk) :: schedLockSections k := by
  cases l <;> simp only [schedLockCode, reduceCtorEq, Stmt.unlock.injEq] at h
  obtain ⟨rfl, rfl, rfl⟩ := h
  rfl

theorem schedLock_ret {l : SchedLock} (h : schedLockCode l = .ret) :
    schedLockSections l = [] := by
  cases l <;> simp [schedLockCode, schedLockSections] at h ⊢

theorem schedLock_closed (_ : Nat) : schedLockSections .start = [] := rfl

def schedLockBoard : Board SchedLock Nat where
  prog :=
    { code := schedLockCode
      sections := schedLockSections
      exec := schedLock_exec
      lock := schedLock_lock
      unlock := schedLock_unlock
      ret := schedLock_ret }
  handler _ := .start
  prio i := i
  closed := schedLock_closed

def schedLockBoot : Cpu SchedLock Nat where
  primask := false
  flag _ := false
  mem := 0
  thread _ := .run .start
  current := 0
  nest := []

theorem schedLockBoot_boot : schedLockBoot.Boot schedLockBoard.prog where
  primask := rfl
  flag _ := rfl
  thread _ := ⟨.start, rfl, rfl⟩
  nest := rfl

/--
**Locked sections are atomic.** Whatever the code of the threads and the handlers is, as long as it
pairs its locks and unlocks: in every run of instructions, interrupts, handler returns and PendSV
switches, the processor is where a run with the same events gets to in which each outermost section
is one step, except for the statements that the running context has made in the section it has
open; with interrupts enabled there is no such section.
-/
theorem irq_sections_atomic (b : Board L σ) {s₀ s : Cpu L σ} {ls : List Label}
    (h₀ : s₀.Boot b.prog) (h : run (Cpu.step b) s₀ ls = some s) :
    ∃ as a n, run (Atomic.step b) (s₀.view b.prog) as = some a ∧
      as.filterMap Atomic.Label.event = ls.filterMap Label.event ∧
      advance (Atomic.stmt b.prog) (Atomic.inside b.prog) n a = some (s.view b.prog) ∧
      (s.primask = false → n = 0) := by
  have hboot : Within b s₀ (s₀.view b.prog) := ⟨law_init h₀, 0, rfl, fun _ => rfl⟩
  obtain ⟨as, a, has, hwithin, hev⟩ :=
    run_refines (fun s l s' a hR hs => step_within hR hs) hboot h
  obtain ⟨n, hn, h0⟩ := hwithin.advance
  exact ⟨as, a, n, has, hev, hn, h0⟩

/-- The handler comes between the `mrs` and the `cpsid` of the thread, and no count is lost. -/
theorem irq_sections_atomic_schedLock : ∃ s as a n, s.mem = 2 ∧
    run (Atomic.step schedLockBoard) (schedLockBoot.view schedLockBoard.prog) as = some a
      ∧ as.filterMap Atomic.Label.event = [.interrupt 3, .ret]
      ∧ advance (Atomic.stmt schedLockBoard.prog) (Atomic.inside schedLockBoard.prog) n a
        = some (Cpu.view schedLockBoard.prog s) ∧ (s.primask = false → n = 0) := by
  obtain ⟨s, hs, hmem⟩ : ∃ s, run (Cpu.step schedLockBoard) schedLockBoot
      (List.replicate 2 .exec ++ .interrupt 3 :: List.replicate 9 .exec ++ .ret ::
        List.replicate 7 .exec) = some s ∧ s.mem = 2 := ⟨_, rfl, rfl⟩
  obtain ⟨as, a, n, has, hev, hn, h0⟩ :=
    irq_sections_atomic schedLockBoard schedLockBoot_boot hs
  exact ⟨s, as, a, n, hmem, has, hev, hn, h0⟩

/--
**One context at a time.** In every state that is reached PRIMASK is set exactly if the running
context has a section open, no other context has one, and a spin flag is set exactly if the running
context holds the lock. So `vibe_spinlock_lock_irqsave` spins only on a lock that its own caller
already holds.
-/
theorem irq_sections_exclusive (b : Board L σ) {s₀ s : Cpu L σ} {ls : List Label}
    (h₀ : s₀.Boot b.prog) (h : run (Cpu.step b) s₀ ls = some s) :
    s.primask = b.prog.inside (s.running.point b.prog) ∧
      (∀ t, t ≠ s.current ∨ s.nest ≠ [] → b.prog.inside ((s.thread t).point b.prog) = false ∧
        (s.thread t).holds b.prog = []) ∧
      (∀ c ∈ s.nest.tail, b.prog.inside (c.2.point b.prog) = false ∧ c.2.holds b.prog = []) ∧
      (∀ lk, s.flag lk = true ↔ lk ∈ s.running.holds b.prog) ∧
      ∀ l key lk todo, s.running = .call l key (.testAndSet lk :: todo) →
        (s.flag lk = true ↔ lk ∈ spins (b.prog.sections l)) := by
  have hlaw := law_of_run h₀ h
  refine ⟨hlaw.good.mask, fun t ht => ?_, fun c hc => ?_, hlaw.good.flag, ?_⟩
  · exact ⟨(hlaw.thread t ht).outside, (hlaw.thread t ht).holds⟩
  · exact ⟨(hlaw.nest c hc).outside, (hlaw.nest c hc).holds⟩
  · intro l key lk todo hrun
    have hok := hlaw.good.ok
    rw [hlaw.good.flag, hrun]
    rw [hrun] at hok
    have hok' := hok.2
    cases hc : b.prog.code l with
    | lock lk' k => rw [holds_locking hc key (Or.inl (by simp))]
    | unlock lk' key' k =>
        rw [hc] at hok'
        rcases suffix_unlockCode hok'.1 with h | h | ⟨x, -, h⟩
        · simp at h
        · simp at h
        · simp at h
    | exec f => simp [hc] at hok'
    | ret => simp [hc] at hok'

theorem irq_sections_exclusive_schedLock : ∃ s : Cpu SchedLock Nat,
    s.primask = true ∧ s.nest = [(3, .run (.locked 0))] ∧
      schedLockBoard.prog.inside ((s.thread 0).point schedLockBoard.prog) = false := by
  obtain ⟨s, hs, hmask, hnest⟩ : ∃ s, run (Cpu.step schedLockBoard) schedLockBoot
      (List.replicate 2 .exec ++ .interrupt 3 :: List.replicate 4 .exec) = some s ∧
        s.primask = true ∧ s.nest = [(3, .run (.locked 0))] := ⟨_, rfl, rfl, rfl⟩
  obtain ⟨-, hthreads, -, -, -⟩ := irq_sections_exclusive schedLockBoard schedLockBoot_boot hs
  exact ⟨s, hmask, hnest, (hthreads 0 (Or.inr (by simp [hnest]))).1⟩

end VibeRtos.Irq
