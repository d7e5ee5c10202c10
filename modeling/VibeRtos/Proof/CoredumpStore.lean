import VibeRtos.Sys.CoredumpStore
import VibeRtos.Proof.CoredumpCapture
import VibeRtos.Proof.ResetHandler

/-!
# A coredump is kept whole or not at all

The first byte that a capture stores is the lowest of the magic number, and the last bytes are
those of the checksum, with the magic number right before them. In between some byte of the magic
number is zero, and no byte of `VIBE_COREDUMP_MAGIC` is. So a record that was cut short is
invalid until nothing but the checksum is missing; and then it is valid only when the checksum is
complete too, whether it was stored or was there by chance (`torn_writes`).
-/

namespace VibeRtos

open ByteMem Stores StateTransition

namespace Coredump

variable {cfg : CoredumpConfig} {env : Env} {cd cd' : Mem} {x n : Nat}

/-! ## The stores of a call -/

/-- All assignments together make the record. -/
theorem runAll_writes (cfg : CoredumpConfig) (env : Env) (cd : Mem) (c : Capture) :
    runAll cd (c.writes cfg env cd) = c.record cfg env cd := by
  have hseal : ∀ ss : List Store,
      runAll cd (ss ++ [word (crc32 cfg) (coredumpCrc cfg (runAll cd ss))])
        = sealRecord cfg (runAll cd ss) := by
    intro ss
    rw [runAll_append]
    exact word_run _ _ _
  rw [Capture.writes, hseal]
  cases c with
  | fault excFrame psp msp reason => rfl
  | assert file line expr =>
      rw [Capture.stores, runAll_append]
      rfl
  | stackOverflow name =>
      simp only [Capture.stores, runAll_append]
      cases name <;> rfl

theorem runAll_clearStores : runAll cd (clearStores cfg) = clear cfg cd := by
  show (word (crc32 cfg) 0).run ((word magic 0).run cd) = _
  rw [word_run, word_run]
  rfl

/-- The stores invalidate the magic number first, and write it last. -/
structure Bracketed (ss mid : List Store) : Prop where
  eq : ss = word magic 0 :: mid ++ [word magic MAGIC]
  /-- in between nothing but zeros goes there -/
  zero : ∀ x < 4, ∀ s ∈ mid, s.Covers x → s.data (x - s.off) = 0

theorem zero_of_not_covered {ss : List Store} (h : ∀ x < 4, ¬ Covered ss x) :
    ∀ x < 4, ∀ s ∈ ss, s.Covers x → s.data (x - s.off) = 0 :=
  fun x hx s hs hc => absurd ⟨s, hs, hc⟩ (h x hx)

/-- The stores of `_vibe_coredump_capture` behind the first one. -/
def captureMid (cfg : CoredumpConfig) (env : Env) (excFrame : Option (Nat → UInt32))
    (psp msp reason : UInt32) : List Store :=
  word version VERSION :: bodyStores cfg env excFrame psp msp reason

theorem captureMid_zero {excFrame : Option (Nat → UInt32)} {psp msp rsn : UInt32} :
    ∀ x < 4, ∀ s ∈ captureMid cfg env excFrame psp msp rsn, s.Covers x →
      s.data (x - s.off) = 0 := by
  refine zero_of_not_covered fun x hx => ?_
  rw [captureMid, covered_cons, covered_bodyStores]
  simp only [word, version]
  have := cfg.range
  simp only [stackData]
  omega

/-- A second bracket inside of the first one. -/
theorem bracketed_nested (first : List Store) (hfirst : ∀ x < 4, ¬ Covered first x)
    {excFrame : Option (Nat → UInt32)} {psp msp rsn : UInt32} :
    Bracketed ((word magic 0 :: first) ++ captureStores cfg env excFrame psp msp rsn)
      (first ++ word magic 0 :: captureMid cfg env excFrame psp msp rsn) := by
  refine ⟨by simp [captureStores, captureMid], fun x hx s hs hc => ?_⟩
  rcases List.mem_append.mp hs with hs | hs
  · exact zero_of_not_covered hfirst x hx s hs hc
  · rcases List.mem_cons.mp hs with rfl | hs
    · simp [word]
    · exact captureMid_zero x hx s hs hc

theorem bracketed_stores (cfg : CoredumpConfig) (env : Env) (c : Capture) :
    ∃ mid, Bracketed (c.stores cfg env) mid := by
  cases c with
  | fault excFrame psp msp reason =>
      exact ⟨captureMid cfg env excFrame psp msp reason, rfl, captureMid_zero⟩
  | assert file line expr =>
      refine ⟨_, bracketed_nested (assertStores cfg file line expr).tail fun x hx => ?_⟩
      have := cfg.range
      simp only [assertStores, List.tail_cons, covered_cons, covered_nil, word, strncpy, nul,
        reason, assertLine, assertExpr, assertFile, stackData, or_false]
      omega
  | stackOverflow name =>
      refine ⟨_, bracketed_nested _ fun x hx => ?_⟩
      cases name with
      | none => simp
      | some s =>
          simp only [covered_cons, covered_nil, strncpy, nul, threadName, or_false]
          omega

/-! ## Cuts -/

theorem byte_of_magic (h : read32 cd magic = MAGIC.toNat) : cd 0 ≠ 0 ∧ cd 3 ≠ 0 := by
  have h0 := (cd 0).toNat_lt
  have h1 := (cd 1).toNat_lt
  have h2 := (cd 2).toNat_lt
  have h3 := (cd 3).toNat_lt
  have hmagic : MAGIC.toNat = 3735929054 := rfl
  simp only [read32, magic, Nat.zero_add, hmagic] at h
  refine ⟨fun hz => ?_, fun hz => ?_⟩
  · rw [hz, UInt8.toNat_zero] at h
    omega
  · rw [hz, UInt8.toNat_zero] at h
    omega

/-- A record whose magic number has been begun is invalid. -/
theorem get_eq_none (h : cd 0 = 0 ∨ cd 3 = 0) : get cfg cd = none := by
  rw [get, if_neg]
  rw [Bool.not_eq_true, ← Bool.not_eq_true, isValid_iff]
  intro hs
  obtain ⟨h0, h3⟩ := byte_of_magic hs.magic
  exact h.elim h0 h3

/-- From the first byte on the magic number is wrong. -/
theorem torn_first {mid : List Store}
    (hzero : ∀ x < 4, ∀ s ∈ mid, s.Covers x → s.data (x - s.off) = 0) (hn : 0 < n) :
    torn cd (word magic 0 :: mid) n 0 = 0 :=
  torn_head (s := word magic 0) (by simp [word]) hn (by simp [word]) (hzero 0 (by omega))

theorem runAll_first {mid : List Store}
    (hzero : ∀ x < 4, ∀ s ∈ mid, s.Covers x → s.data (x - s.off) = 0) (hx : x < 4) :
    runAll cd (word magic 0 :: mid) x = 0 := by
  have hbyte : (word magic 0).run cd x = 0 := by
    show blit cd magic (fun i => UInt8.ofNat ((0 : UInt32).toNat / 256 ^ i)) 4 x = 0
    unfold blit magic
    rw [if_pos (by omega)]
    simp
  show runAll ((word magic 0).run cd) mid x = 0
  rw [← torn_of_le (le_refl _)]
  exact torn_const hbyte (hzero x hx)

/-- Once the magic number is there, only the checksum can be missing. -/
theorem torn_checksum (full : Mem) (n : Nat)
    (hfull : full = runAll cd [word (crc32 cfg) (coredumpCrc cfg cd)]) :
    get cfg (torn cd [word (crc32 cfg) (coredumpCrc cfg cd)] n) = none
      ∨ torn cd [word (crc32 cfg) (coredumpCrc cfg cd)] n = full := by
  set part := torn cd [word (crc32 cfg) (coredumpCrc cfg cd)] n with hpart
  have hother : ∀ y, y < crc32 cfg ∨ crc32 cfg + 4 ≤ y → part y = cd y ∧ full y = cd y := by
    intro y hy
    have hcov : ¬ Covered [word (crc32 cfg) (coredumpCrc cfg cd)] y := by
      simp only [covered_cons, covered_nil, word, or_false]
      omega
    exact ⟨torn_frame hcov, hfull ▸ runAll_frame hcov⟩
  by_cases hvalid : isValid cfg part = true
  · right
    have hsealed := isValid_iff.mp hvalid
    have hcrc : coredumpCrc cfg part = coredumpCrc cfg cd :=
      coredumpCrc_congr fun y hy => (hother y (Or.inl hy)).1
    have hread : read32 full (crc32 cfg) = (coredumpCrc cfg cd).toNat := by
      rw [hfull]
      show read32 ((word (crc32 cfg) (coredumpCrc cfg cd)).run cd) (crc32 cfg) = _
      rw [word_run, read32_write32_eq (UInt32.toNat_lt _)]
    have hbytes := read32_inj (hsealed.crc32.trans ((congrArg UInt32.toNat hcrc).trans hread.symm))
    funext y
    by_cases hy : y < crc32 cfg ∨ crc32 cfg + 4 ≤ y
    · rw [(hother y hy).1, (hother y hy).2]
    · have := hbytes (y - crc32 cfg) (by omega)
      rwa [show crc32 cfg + (y - crc32 cfg) = y by omega] at this
  · left
    rw [get, if_neg hvalid]

/-- **A capture that is cut short** leaves the record as it was, an invalid one, or the one it
was to leave. -/
theorem torn_writes (env : Env) (c : Capture) (n : Nat) :
    torn cd (c.writes cfg env cd) n = cd ∨ get cfg (torn cd (c.writes cfg env cd) n) = none
      ∨ torn cd (c.writes cfg env cd) n = c.record cfg env cd := by
  obtain ⟨mid, hss, hzero⟩ := bracketed_stores cfg env c
  have hrecord := runAll_writes cfg env cd c
  rw [Capture.writes, hss, List.append_assoc, runAll_append, runAll_append] at hrecord
  rw [Capture.writes, hss, List.append_assoc, torn_append]
  split
  · rcases Nat.eq_zero_or_pos n with rfl | hn
    · exact Or.inl rfl
    · exact Or.inr (Or.inl (get_eq_none (Or.inl (torn_first hzero hn))))
  · right
    set k := n - byteCount (word magic 0 :: mid)
    have hcount : byteCount [word magic MAGIC] = 4 := rfl
    rw [torn_append, hcount, runAll_append]
    rw [runAll_append] at hrecord
    split
    · rename_i hk
      rcases Nat.lt_or_eq_of_le hk with hk | hk
      · -- the magic number is cut short
        refine Or.inl (get_eq_none (Or.inr ?_))
        exact (torn_behind (s := word magic MAGIC) (i := 3) (by omega)).trans
          (runAll_first hzero (by simp [word, magic]))
      · rw [torn_of_le (by omega)]
        have hwhole := torn_checksum _ 0 hrecord.symm
        rwa [torn_zero] at hwhole
    · exact torn_checksum _ _ hrecord.symm

theorem clear_zero : ∀ x < 4, ∀ s ∈ [word (crc32 cfg) 0], s.Covers x → s.data (x - s.off) = 0 := by
  refine zero_of_not_covered fun x hx => ?_
  have := crc32_ge cfg
  simp only [covered_cons, covered_nil, word, or_false]
  omega

/-- A clear that is cut short leaves the record as it was or an invalid one. -/
theorem torn_clear (n : Nat) : torn cd (clearStores cfg) n = cd
    ∨ get cfg (torn cd (clearStores cfg) n) = none := by
  rcases Nat.eq_zero_or_pos n with rfl | hn
  · exact Or.inl rfl
  · exact Or.inr (get_eq_none (Or.inl (torn_first clear_zero hn)))

/-! ## Events -/

theorem get_congr (h : ∀ i < size cfg, cd' i = cd i) : get cfg cd' = get cfg cd := by
  have hcrc : coredumpCrc cfg cd' = coredumpCrc cfg cd :=
    coredumpCrc_congr fun y hy => h y (Nat.lt_of_lt_of_le hy (Nat.le_add_right _ 4))
  have hge := crc32_ge cfg
  have hword : ∀ off, off + 4 ≤ size cfg → read32 cd' off = read32 cd off :=
    fun off hoff => read32_congr fun i hi => h _ (by omega)
  have hvalid : isValid cfg cd' = isValid cfg cd := by
    simp only [isValid, hcrc, hword (crc32 cfg) (le_refl _),
      hword magic (by unfold magic size; omega), hword version (by unfold version size; omega)]
  have hslice : slice cd' 0 (size cfg) = slice cd 0 (size cfg) :=
    slice_congr fun i hi => h _ (by omega)
  rw [get, get, hvalid, hslice]

/-- A record that was completed is found. -/
theorem get_record (cfg : CoredumpConfig) (env : Env) (c : Capture) (cd : Mem) :
    get cfg (c.record cfg env cd) = some (slice (c.record cfg env cd) 0 (size cfg)) := by
  have hsealed : Sealed cfg (c.record cfg env cd) := by
    cases c with
    | fault excFrame psp msp reason => exact capture_sealed ..
    | assert file line expr => exact capture_sealed ..
    | stackOverflow name => exact capture_sealed ..
  rw [get, if_pos (isValid_iff.mpr hsealed)]

theorem get_clear (cfg : CoredumpConfig) (cd : Mem) : get cfg (clear cfg cd) = none := by
  rw [← runAll_clearStores]
  exact get_eq_none (Or.inl (runAll_first clear_zero (by omega)))

section Run

variable {p : Placement cfg} {m m' m₀ : Mem} {e : Event} {es : List Event}

theorem view_put {i : Nat} (hi : i < size cfg) : p.view (p.put m cd) i = cd i := by
  show (if p.record ≤ p.record + i ∧ p.record + i < p.record + size cfg
    then cd (p.record + i - p.record) else m (p.record + i)) = cd i
  rw [if_pos (by omega), Nat.add_sub_cancel_left]

theorem get_put (p : Placement cfg) (m cd : Mem) :
    get cfg (p.view (p.put m cd)) = get cfg cd := get_congr fun _ hi => view_put hi

/-- What `vibe_coredump_get` may return after an event. -/
def Event.Allows (p : Placement cfg) (m : Mem) : Event → Option (List UInt8) → Prop
  | .capture env c none, r => r = some (slice (c.record cfg env (p.view m)) 0 (size cfg))
  | .capture env c (some _), r => r = get cfg (p.view m) ∨ r = none
      ∨ r = some (slice (c.record cfg env (p.view m)) 0 (size cfg))
  | .clear none, r => r = none
  | .clear (some _), r => r = get cfg (p.view m) ∨ r = none
  | .reset, r => r = get cfg (p.view m)
  | .other, r => r = get cfg (p.view m)

/-- The reset handler leaves the record alone. -/
theorem reset_record {s s' : Reset.State} (hpc : s.pc = 0)
    (h : s' ∈ eval (Reset.State.step p.layout) s) {i : Nat} (hi : i < size cfg) :
    s'.mem (p.record + i) = s.mem (p.record + i) := by
  obtain ⟨t, ht, -, hm⟩ := Reset.reaches_ready p.linked s hpc
  have hdata := p.data
  have hbss := p.bss
  have hd := p.linked.data.1
  have hb := p.linked.bss.1
  rw [Part.mem_unique h ht, hm, Reset.ready, fill_frame (by omega), copy_frame (by omega)]

theorem Step.allows (hs : Step p m e m') : e.Allows p m (get cfg (p.view m')) := by
  cases hs with
  | capture _ env c => exact (get_put p m _).trans (get_record cfg env c _)
  | captureCut _ env c n =>
      rw [get_put]
      rcases torn_writes env c n with h | h | h
      · exact Or.inl (congrArg _ h)
      · exact Or.inr (Or.inl h)
      · rw [h]
        exact Or.inr (Or.inr (get_record cfg env c _))
  | clear => exact (get_put p m _).trans (get_clear cfg _)
  | clearCut _ n =>
      rw [get_put]
      exact (torn_clear n).imp_left (congrArg _)
  | reset hpc h => exact get_congr fun _ hi => reset_record hpc h hi
  | other h => exact get_congr h

/-! ## Histories -/

/-- Where the record comes from: it was there before, or a capture has left it, and nothing was
completed since. -/
def From (p : Placement cfg) (m₀ : Mem) (es : List Event) (bytes : List UInt8) : Prop :=
  (get cfg (p.view m₀) = some bytes ∧ ∀ e ∈ es, ¬ e.Completes) ∨
    ∃ pre env c cut post m₁, es = pre ++ .capture env c cut :: post ∧ History p m₀ pre m₁
      ∧ bytes = slice (c.record cfg env (p.view m₁)) 0 (size cfg) ∧ ∀ e ∈ post, ¬ e.Completes

/-- An event that leaves the record, and completes nothing. -/
theorem From.snoc {bytes : List UInt8} (h : From p m₀ es bytes) (he : ¬ e.Completes) :
    From p m₀ (es ++ [e]) bytes := by
  have hmem : ∀ {l : List Event}, (∀ e ∈ l, ¬ e.Completes) →
      ∀ e' ∈ l ++ [e], ¬ e'.Completes := by
    intro l hl e' he'
    rcases List.mem_append.mp he' with h' | h'
    · exact hl e' h'
    · exact List.mem_singleton.mp h' ▸ he
  rcases h with ⟨hget, hes⟩ | ⟨pre, env, c, cut, post, m₁, rfl, hpre, hbytes, hpost⟩
  · exact Or.inl ⟨hget, hmem hes⟩
  · exact Or.inr ⟨pre, env, c, cut, post ++ [e], m₁, by simp, hpre, hbytes, hmem hpost⟩

theorem from_of_history (h : History p m₀ es m) : ∀ {bytes : List UInt8},
    get cfg (p.view m) = some bytes → From p m₀ es bytes := by
  induction h with
  | nil => exact fun hget => Or.inl ⟨hget, by simp⟩
  | @snoc m m' es e h hs ih =>
      intro bytes hget
      have hallow := hs.allows
      rw [hget] at hallow
      cases e with
      | capture env c cut =>
          have hnew : ∀ r, some bytes = some r →
              r = slice (c.record cfg env (p.view m)) 0 (size cfg) →
                From p m₀ (es ++ [.capture env c cut]) bytes := by
            intro r hr hrec
            obtain rfl := Option.some.inj hr
            exact Or.inr ⟨es, env, c, cut, [], m, rfl, h, hrec, by simp⟩
          cases cut with
          | none => exact hnew _ hallow rfl
          | some n =>
              rcases hallow with hold | hnone | hrec
              · exact (ih hold.symm).snoc (by simp [Event.Completes])
              · exact absurd hnone (by simp)
              · exact hnew _ hrec rfl
      | clear cut =>
          cases cut with
          | none => exact absurd hallow (by simp [Event.Allows])
          | some n =>
              rcases hallow with hold | hnone
              · exact (ih hold.symm).snoc (by simp [Event.Completes])
              · exact absurd hnone (by simp)
      | reset => exact (ih hallow.symm).snoc (by simp [Event.Completes])
      | other => exact (ih hallow.symm).snoc (by simp [Event.Completes])

/-- A record that was completed stays over resets. -/
theorem kept_of_history {env : Env} {c : Capture} : ∀ {post pre : List Event} {m : Mem},
    History p m₀ (pre ++ .capture env c none :: post) m →
    (∀ e ∈ post, e = .reset ∨ e = .other) → ∃ m₁, History p m₀ pre m₁ ∧
      get cfg (p.view m) = some (slice (c.record cfg env (p.view m₁)) 0 (size cfg)) := by
  intro post
  induction post using List.reverseRecOn with
  | nil =>
      intro pre m h hpost
      generalize hes : pre ++ [Event.capture env c none] = es at h
      cases h with
      | nil => simp at hes
      | snoc h hs =>
          obtain ⟨rfl, he⟩ := List.append_inj' hes rfl
          obtain rfl := List.singleton_injective he
          exact ⟨_, h, hs.allows⟩
  | append_singleton post e ih =>
      intro pre m h hpost
      rw [← List.cons_append, ← List.append_assoc] at h
      generalize hes : (pre ++ Event.capture env c none :: post) ++ [e] = es at h
      cases h with
      | nil => simp at hes
      | snoc h hs =>
          obtain ⟨rfl, he⟩ := List.append_inj' hes rfl
          obtain rfl := List.singleton_injective he
          obtain ⟨m₁, hpre, hget⟩ := ih h fun e' he' => hpost e' (List.mem_append_left _ he')
          have hallow := hs.allows
          refine ⟨m₁, hpre, ?_⟩
          rcases hpost e (by simp) with rfl | rfl
          · exact hallow.trans hget
          · exact hallow.trans hget

end Run

/--
**A coredump is kept whole or not at all.** In any history of captures, clears and resets, of
which a reset may cut each one short after any byte, with the reset handler run each time and RAM
written elsewhere in between: when `vibe_coredump_get` returns a record, it is the complete record
of some capture, or the one that was there at first, and no capture or clear has been completed
since. A record that was completed is returned after any number of resets.
-/
theorem coredump_store {cfg : CoredumpConfig} (p : Placement cfg) {m₀ m : Mem}
    {es : List Event} (h : History p m₀ es m) :
    (∀ bytes, get cfg (p.view m) = some bytes → From p m₀ es bytes) ∧
      ∀ pre env c post, es = pre ++ .capture env c none :: post →
        (∀ e ∈ post, e = .reset ∨ e = .other) → ∃ m₁, History p m₀ pre m₁ ∧
          get cfg (p.view m) = some (slice (c.record cfg env (p.view m₁)) 0 (size cfg)) := by
  refine ⟨fun bytes hget => from_of_history h hget, fun pre env c post hes hpost => ?_⟩
  subst hes
  exact kept_of_history h hpost

theorem smallPlacement_data : 0x20000018 + size defaultCfg ≤ Reset.smallImage.sdata.toNat
    ∨ Reset.smallImage.edata.toNat ≤ 0x20000018 := Or.inr (by decide)

theorem smallPlacement_bss : 0x20000018 + size defaultCfg ≤ Reset.smallImage.sbss.toNat
    ∨ Reset.smallImage.ebss.toNat ≤ 0x20000018 := Or.inr (by decide)

/-- The record behind a small image. -/
def smallPlacement : Placement defaultCfg where
  layout := Reset.smallImage
  linked := Reset.smallImage_linked
  record := 0x20000018
  data := smallPlacement_data
  bss := smallPlacement_bss

/-- A fault, with no thread running. -/
def earlyFault : Capture := .fault none 0 0x20001000 1

/-- The RAM of a first boot. -/
def blankRam : Mem := fun _ => 0

theorem coredump_store_small : ∃ m bytes, get defaultCfg (smallPlacement.view m) = some bytes
    ∧ From smallPlacement blankRam ([] ++ [.capture earlyEnv earlyFault none] ++ [.reset])
      bytes := by
  obtain ⟨m₁, h₁⟩ : ∃ m₁, History smallPlacement blankRam
      ([] ++ [.capture earlyEnv earlyFault none]) m₁ := ⟨_, .snoc (.nil _) (.capture _ _ _)⟩
  obtain ⟨s', hs', -, -⟩ :=
    Reset.reaches_ready Reset.smallImage_linked ⟨fun _ => 0, false, 0, m₁⟩ rfl
  have hstep : Step smallPlacement m₁ .reset s'.mem :=
    .reset (s := ⟨fun _ => 0, false, 0, m₁⟩) rfl hs'
  have h₂ := h₁.snoc hstep
  obtain ⟨hfrom, hkept⟩ := coredump_store smallPlacement h₂
  obtain ⟨m, hm, hget⟩ := hkept [] earlyEnv earlyFault [.reset] rfl (by simp)
  generalize slice (earlyFault.record defaultCfg earlyEnv (smallPlacement.view m)) 0
    (size defaultCfg) = bytes at hget
  exact ⟨s'.mem, bytes, hget, hfrom bytes hget⟩

end Coredump

end VibeRtos
