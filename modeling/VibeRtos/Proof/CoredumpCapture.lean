import VibeRtos.Proof.CoredumpCrc

/-!
# What a capture leaves in the record

Every assignment of a capture has its value from the arguments and from the machine, so what
matters is which bytes of the record are assigned at all.
-/

namespace VibeRtos

open ByteMem Stores

namespace Coredump

variable {cfg : CoredumpConfig} {env : Env} {cd cd' : Mem} {x : Nat}
  {excFrame : Option (Nat → UInt32)} {psp msp rsn : UInt32}

/-! ## Assigned bytes -/

theorem covered_threadStores : Covered (threadStores env) x
    ↔ (16 ≤ x ∧ x < 47) ∨ (env.Named ∧ x = 47) ∨ (48 ≤ x ∧ x < 52) := by
  have hnone : Covered [strncpy threadName noThread 31, word threadId 0] x
      ↔ (16 ≤ x ∧ x < 47) ∨ (48 ≤ x ∧ x < 52) := by
    simp [strncpy, word, threadName, threadId]
  rcases hself : env.self with _ | ⟨t, name⟩
  · have hnamed : ¬ env.Named := by simp [Env.Named, hself]
    rw [threadStores, hself, hnone]
    simp only [hnamed, false_and, false_or]
  · by_cases hname : name.headD 0 ≠ 0
    · have hnamed : env.Named := ⟨(t, name), hself, hname⟩
      simp only [threadStores, hself, if_pos hname, hnamed, covered_cons, covered_nil, strncpy, nul,
        word, threadName, threadId, or_false, true_and]
      omega
    · have hnamed : ¬ env.Named := by simpa [Env.Named, hself] using hname
      simp only [threadStores, hself, if_neg hname, hnamed, hnone, false_and, false_or]

theorem covered_frameStores : Covered (frameStores excFrame) x
    ↔ excFrame ≠ none ∧ 52 ≤ x ∧ x < 84 := by
  cases excFrame with
  | none => simp [frameStores]
  | some frame =>
      simp only [frameStores, covered_cons, covered_nil, word, regsR0, regsR1, regsR2, regsR3,
        regsR12, regsLr, regsPc, regsXpsr, ne_eq, reduceCtorEq, not_false_eq_true, true_and,
        or_false]
      omega

theorem covered_bodyStores : Covered (bodyStores cfg env excFrame psp msp rsn) x
    ↔ (8 ≤ x ∧ x < 47) ∨ (env.Named ∧ x = 47) ∨ (48 ≤ x ∧ x < 52)
      ∨ (excFrame ≠ none ∧ 52 ≤ x ∧ x < 84) ∨ (116 ≤ x ∧ x < stackData + cfg.stackSize) := by
  simp only [bodyStores, covered_append, covered_threadStores, covered_frameStores]
  generalize env.Named = named
  generalize (excFrame ≠ none) = framed
  simp only [covered_cons, covered_nil, word, reason, timestamp, regsPsp, regsMsp, regsPrimask,
    regsControl, faultCfsr, faultHfsr, faultDfsr, faultMmfar, faultBfar, faultAfsr, stackSp,
    stackCaptured, stackData, or_false]
  by_cases hn : named <;> by_cases hf : framed <;>
    simp only [hn, hf, true_and, false_and, false_or, or_false] <;> omega

theorem covered_captureStores : Covered (captureStores cfg env excFrame psp msp rsn) x
    ↔ x < 8 ∨ Covered (bodyStores cfg env excFrame psp msp rsn) x := by
  simp only [captureStores, covered_append, covered_cons, covered_nil, word, magic, version,
    or_false]
  generalize Covered (bodyStores cfg env excFrame psp msp rsn) x = body
  by_cases hb : body
  · simp only [hb, or_true, true_or]
  · simp only [hb, or_false]
    omega

theorem covered_assertStores {file expr : Option (List UInt8)} {line : Int32} :
    Covered (assertStores cfg file line expr) x
      ↔ x < 4 ∨ (8 ≤ x ∧ x < 12) ∨ (assertFile cfg ≤ x ∧ x < crc32 cfg) := by
  simp only [assertStores, covered_cons, covered_nil, word, strncpy, nul, magic, reason, assertLine,
    assertExpr, crc32, or_false]
  omega

/-! ## The seal -/

theorem word_run (m : Mem) (off : Nat) (v : UInt32) :
    (word off v).run m = write32 m off v.toNat := by
  funext y
  show blit m off (fun i => UInt8.ofNat (v.toNat / 256 ^ i)) 4 y = _
  unfold blit write32
  by_cases h : off ≤ y ∧ y < off + 4
  · rw [if_pos h]
    obtain rfl | rfl | rfl | rfl : y = off ∨ y = off + 1 ∨ y = off + 2 ∨ y = off + 3 := by omega
    all_goals simp
  · rw [if_neg h, if_neg (by omega), if_neg (by omega), if_neg (by omega), if_neg (by omega)]

theorem sealRecord_frame (h : x < crc32 cfg) : sealRecord cfg cd x = cd x :=
  write32_frame (Or.inl h)

theorem crc32_ge (cfg : CoredumpConfig) : 328 ≤ crc32 cfg := by
  have hrange := cfg.range
  unfold crc32 assertFile stackData
  omega

/-- A record with the right magic and version is sealed by its checksum. -/
theorem sealRecord_sealed (hmagic : read32 cd magic = MAGIC.toNat)
    (hversion : read32 cd version = VERSION.toNat) : Sealed cfg (sealRecord cfg cd) := by
  have hge := crc32_ge cfg
  refine ⟨?_, ?_, ?_⟩
  · rw [sealRecord, read32_write32_ne (Or.inl (by unfold magic; omega)), hmagic]
  · rw [sealRecord, read32_write32_ne (Or.inl (by unfold version; omega)), hversion]
  · have hcrc : coredumpCrc cfg (sealRecord cfg cd) = coredumpCrc cfg cd :=
      coredumpCrc_congr fun y hy => sealRecord_frame hy
    rw [hcrc, sealRecord, read32_write32_eq (UInt32.toNat_lt _)]

/-- **A capture leaves a sealed record**, whatever was there before. -/
theorem capture_sealed (cfg : CoredumpConfig) (env : Env) (excFrame : Option (Nat → UInt32))
    (psp msp rsn : UInt32) (cd : Mem) :
    Sealed cfg (capture cfg env excFrame psp msp rsn cd) := by
  refine sealRecord_sealed ?_ ?_
  · rw [captureStores, runAll_append]
    show read32 ((word magic MAGIC).run _) magic = _
    rw [word_run, read32_write32_eq (UInt32.toNat_lt _)]
  · rw [captureStores, runAll_append, runAll_append]
    have hkeep : ∀ i < 4, runAll (runAll (runAll cd [word magic 0, word version VERSION])
        (bodyStores cfg env excFrame psp msp rsn)) [word magic MAGIC] (version + i)
          = runAll cd [word magic 0, word version VERSION] (version + i) := by
      intro i hi
      rw [runAll_frame, runAll_frame]
      · rw [covered_bodyStores]
        unfold version stackData
        omega
      · simp only [covered_cons, covered_nil, word, magic, version, or_false]
        omega
    rw [read32_congr hkeep]
    show read32 ((word version VERSION).run _) version = _
    rw [word_run, read32_write32_eq (UInt32.toNat_lt _)]

/--
**The checksum detects corruption.**

What a capture leaves is sealed, and a sealed record is valid. After a change of bits that lie
within 32 consecutive ones before the checksum, or of bits of the checksum alone, it is not. A
checksum may be computed piece by piece.
-/
theorem coredump_checksum (cfg : CoredumpConfig) :
    (∀ env excFrame psp msp rsn cd, Sealed cfg (capture cfg env excFrame psp msp rsn cd))
    ∧ (∀ cd, Sealed cfg cd → isValid cfg cd = true)
    ∧ (∀ cd cd', Sealed cfg cd → Burst cfg cd cd' ∨ CrcOnly cfg cd cd' → isValid cfg cd' = false)
    ∧ ∀ a b, crc32Update (crc32Update 0 a) b = crc32Update 0 (a ++ b) := by
  refine ⟨capture_sealed cfg, fun cd hs => isValid_iff.mpr hs, ?_, crc32Update_append 0⟩
  intro cd cd' hs hchange
  rcases hchange with hburst | hcrc
  · exact hburst.isValid_eq_false hs
  · exact hcrc.isValid_eq_false hs

/-- A capture without an exception frame and without a thread. -/
def earlyEnv : Env := ⟨0, none, 0, 0, 0, 0, 0, 0, 0, 0, fun _ => 0⟩

/-- The default of `Kconfig`. -/
def defaultCfg : CoredumpConfig := ⟨128, by decide⟩

/-- The record after a memory fault in `vibe_init`. -/
def faultRecord : Mem := capture defaultCfg earlyEnv none 0 0x20001000 2 fun _ => 0

/-- The record with the lowest bit of `reason` flipped. -/
def flippedRecord : Mem := Function.update faultRecord reason (faultRecord reason ^^^ 1)

theorem flippedRecord_burst : Burst defaultCfg faultRecord flippedRecord := by
  have hother : ∀ j, j / 8 ≠ reason → bitOf flippedRecord j = bitOf faultRecord j :=
    fun j hj => bitOf_congr (Function.update_of_ne hj _ _)
  refine ⟨⟨64, by decide, by decide⟩, 64, fun j _ hne => ?_⟩
  have hj : j / 8 = reason := by
    by_contra h
    exact hne (hother j h)
  unfold reason at hj
  have hge := crc32_ge defaultCfg
  exact ⟨by omega, by omega, by omega⟩

/-- The flipped bit is found. -/
theorem coredump_checksum_flipped :
    isValid defaultCfg faultRecord = true ∧ isValid defaultCfg flippedRecord = false := by
  obtain ⟨hsealed, hvalid, hdetect, -⟩ := coredump_checksum defaultCfg
  have hs : Sealed defaultCfg faultRecord := hsealed earlyEnv none 0 0x20001000 2 fun _ => 0
  exact ⟨hvalid _ hs, hdetect _ _ hs (Or.inl flippedRecord_burst)⟩

/-! ## What stays of an earlier boot -/

/-- The calls that leave a record. -/
inductive Call where
  | capture (excFrame : Option (Nat → UInt32)) (psp msp reason : UInt32)
  | captureAssert (file : Option (List UInt8)) (line : Int32) (expr : Option (List UInt8))

/-- The record that a call leaves. -/
def Call.record (cfg : CoredumpConfig) (env : Env) (cd : Mem) : Call → Mem
  | .capture excFrame psp msp reason => Coredump.capture cfg env excFrame psp msp reason cd
  | .captureAssert file line expr => Coredump.captureAssert cfg env file line expr cd

/-- Two earlier contents lead to the same record. -/
def NoStale (cfg : CoredumpConfig) (env : Env) (call : Call) (cd cd' : Mem) : Prop :=
  ∀ x < size cfg, call.record cfg env cd x = call.record cfg env cd' x

/-- The call passes an exception frame. -/
def Call.Framed : Call → Prop
  | .capture excFrame _ _ _ => excFrame ≠ none
  | .captureAssert _ _ _ => False

/-- The call is for an assert. -/
def Call.IsAssert : Call → Prop
  | .capture _ _ _ _ => False
  | .captureAssert _ _ _ => True

/-- The bytes that a call does not assign. -/
inductive Stale (cfg : CoredumpConfig) (env : Env) (call : Call) : Nat → Prop where
  /-- `regs.r4` to `regs.r11` -/
  | callee {x : Nat} : regsR4 ≤ x → x < regsPsp → Stale cfg env call x
  /-- the registers of the exception frame, when there is none -/
  | frame {x : Nat} : ¬ call.Framed → regsR0 ≤ x → x < regsR4 → Stale cfg env call x
  /-- the last byte of `thread_name`, when there is no thread with a name -/
  | name : ¬ env.Named → Stale cfg env call (threadName + 31)
  /-- `assert_info`, when the call is not for an assert -/
  | assertInfo {x : Nat} : ¬ call.IsAssert → assertFile cfg ≤ x → x < crc32 cfg →
      Stale cfg env call x
  /-- the padding behind `stack.data` -/
  | padding {x : Nat} : stackData + cfg.stackSize ≤ x → x < assertFile cfg → Stale cfg env call x

/-- The assignments of a call. -/
def Call.stores (cfg : CoredumpConfig) (env : Env) : Call → List Store
  | .capture excFrame psp msp reason => captureStores cfg env excFrame psp msp reason
  | .captureAssert file line expr =>
      assertStores cfg file line expr ++ captureStores cfg env none 0 0 reasonAssert

theorem Call.record_eq (env : Env) (call : Call) (cd : Mem) :
    call.record cfg env cd = sealRecord cfg (runAll cd (call.stores cfg env)) := by
  cases call with
  | capture excFrame psp msp reason => rfl
  | captureAssert file line expr =>
      rw [stores, runAll_append]
      rfl

theorem covered_stores (call : Call) : Covered (call.stores cfg env) x
    ↔ x < 47 ∨ (env.Named ∧ x = 47) ∨ (48 ≤ x ∧ x < 52) ∨ (call.Framed ∧ 52 ≤ x ∧ x < 84)
      ∨ (116 ≤ x ∧ x < stackData + cfg.stackSize)
      ∨ (call.IsAssert ∧ assertFile cfg ≤ x ∧ x < crc32 cfg) := by
  cases call with
  | capture excFrame psp msp rsn =>
      simp only [Call.stores, covered_captureStores, covered_bodyStores, Call.Framed, Call.IsAssert,
        false_and, or_false]
      rw [← or_assoc]
      exact or_congr_left (by omega)
  | captureAssert file line expr =>
      simp only [Call.stores, covered_append, covered_assertStores, covered_captureStores,
        covered_bodyStores, Call.Framed, Call.IsAssert, ne_eq, not_true_eq_false, false_and,
        false_or, true_and]
      generalize env.Named = named
      by_cases hn : named <;> simp only [hn, true_and, false_and, false_or] <;> omega

/-- **What a call does not assign.** -/
theorem stale_iff {call : Call} (hx : x < crc32 cfg) :
    Stale cfg env call x ↔ ¬ Covered (call.stores cfg env) x := by
  have hrange := cfg.range
  have hcrc : crc32 cfg = assertFile cfg + 132 := rfl
  have hfile : assertFile cfg = stackData + (cfg.stackSize + 3) / 4 * 4 := rfl
  have hdata : stackData = 164 := rfl
  rw [covered_stores]
  constructor
  · intro h
    cases h with
    | callee h₁ h₂ =>
        unfold regsR4 at h₁
        unfold regsPsp at h₂
        omega
    | frame hf h₁ h₂ =>
        unfold regsR0 at h₁
        unfold regsR4 at h₂
        simp only [hf, false_and, false_or]
        omega
    | name hn =>
        simp only [hn, threadName, false_and, false_or]
        omega
    | assertInfo ha h₁ h₂ =>
        simp only [ha, false_and, or_false]
        omega
    | padding h₁ h₂ => omega
  · intro h
    simp only [not_or, not_and] at h
    obtain ⟨hlow, hname, hid, hframe, hstack, hassert⟩ := h
    by_cases hcallee : regsR4 ≤ x ∧ x < regsPsp
    · exact .callee hcallee.1 hcallee.2
    by_cases hregs : regsR0 ≤ x ∧ x < regsR4
    · exact .frame (fun hf => hframe hf hregs.1 hregs.2) hregs.1 hregs.2
    by_cases hlast : x = threadName + 31
    · subst hlast
      exact .name fun hn => hname hn rfl
    by_cases hinfo : assertFile cfg ≤ x
    · exact .assertInfo (fun ha => hassert ha hinfo hx) hinfo hx
    · unfold regsR4 regsPsp at hcallee
      unfold regsR0 regsR4 at hregs
      unfold threadName at hlast
      exact .padding (by omega) (by omega)

theorem Stale.lt_crc32 {call : Call} (h : Stale cfg env call x) : x < crc32 cfg := by
  have hge := crc32_ge cfg
  have hcrc : crc32 cfg = assertFile cfg + 132 := rfl
  cases h with
  | callee _ h₂ => exact Nat.lt_of_lt_of_le h₂ (Nat.le_trans (by decide) hge)
  | frame _ _ h₂ => exact Nat.lt_of_lt_of_le h₂ (Nat.le_trans (by decide) hge)
  | name _ => exact Nat.lt_of_lt_of_le (by decide : threadName + 31 < 328) hge
  | assertInfo _ _ h₂ => exact h₂
  | padding _ h₂ => omega

/-- A record is equal to another when the bytes before the checksum are. -/
theorem sealRecord_eq_iff : (∀ x < size cfg, sealRecord cfg cd x = sealRecord cfg cd' x)
    ↔ ∀ x < crc32 cfg, cd x = cd' x := by
  constructor
  · intro h x hx
    have hbyte := h x (by unfold size; omega)
    rwa [sealRecord_frame hx, sealRecord_frame hx] at hbyte
  · intro h x hx
    have hcrc : coredumpCrc cfg cd = coredumpCrc cfg cd' := coredumpCrc_congr h
    unfold size at hx
    by_cases hlt : x < crc32 cfg
    · rw [sealRecord_frame hlt, sealRecord_frame hlt, h x hlt]
    · unfold sealRecord write32
      rw [hcrc]
      split_ifs
      all_goals first | rfl | omega

/--
**When a record shows nothing of an earlier boot.**

Two earlier contents lead to the same record if and only if they agree on the bytes that the call
does not assign.
-/
theorem no_stale_iff (cfg : CoredumpConfig) (env : Env) (call : Call) (cd cd' : Mem) :
    NoStale cfg env call cd cd' ↔ ∀ x, Stale cfg env call x → cd x = cd' x := by
  simp only [NoStale, Call.record_eq]
  rw [sealRecord_eq_iff]
  constructor
  · intro h x hx
    exact runAll_eq_iff.mp (h x hx.lt_crc32) ((stale_iff hx.lt_crc32).mp hx)
  · intro h x hx
    exact runAll_eq_iff.mpr fun hfree => h x ((stale_iff hx).mpr hfree)

/-- What an earlier boot left in `regs.r4` is part of the new record. -/
theorem no_stale_fails : ¬ NoStale defaultCfg earlyEnv (.capture none 0 0x20001000 1)
    (fun _ => 0) (fun _ => 0xFF) := by
  intro h
  have hr4 := h regsR4 (by decide)
  exact absurd hr4 (by decide)

end Coredump

end VibeRtos
