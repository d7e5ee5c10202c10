import VibeRtos.Kernel.Patience
import VibeRtos.Proof.MsgqWakeups
import VibeRtos.Proof.PoolWakeups

/-!
# When waiting forever is forever

A woken thread looks once more and then gives up, whatever its timeout. As long as
everybody else leaves a message, a slot or a block for each woken thread that waits
forever (`Chan.Granted`), such a thread finds what it was woken for.
-/

namespace VibeRtos

open Kernel Runs

namespace PatientSys

/-- The queue with its waiting threads, each on the side it should be, and what is kept. -/
structure Inv (p : PatientSys) : Prop where
  queue : p.s.Inv
  readers : ∀ t ∈ p.s.readers, p.s.pc t = .getting
  writers : ∀ t ∈ p.s.writers, ∃ data, p.s.pc t = .putting data
  granted : p.s.chan.Granted p.WantsMessage p.WantsRoom
  expired : p.expired = 0

variable {cfg : Config} {p p' : PatientSys} {l : MsgqLabel} {self t : Tid} {a : MsgqAct}

/-- A thread's wish depends on its own place and timeout. -/
theorem wants_congr (hpc : p'.s.pc t = p.s.pc t) (ht : p'.timeout t = p.timeout t) :
    (p'.WantsMessage t ↔ p.WantsMessage t) ∧ (p'.WantsRoom t ↔ p.WantsRoom t) := by
  unfold WantsMessage WantsRoom
  rw [hpc, ht]
  exact ⟨Iff.rfl, Iff.rfl⟩

/-- A thread in its own code wants nothing, so nothing is kept for the caller. -/
theorem erase_countP {q : Tid → Prop} [DecidablePred q] {woken : List Tid} (h : ¬ q self) :
    (woken.erase self).countP q = woken.countP q := by
  have hnot : ¬ (self ∈ woken ∧ decide (q self) = true) := fun hq => h (of_decide_eq_true hq.2)
  rw [List.countP_erase, if_neg hnot, Nat.sub_zero]

/-- **A considerate section spares what is kept.** -/
theorem Inv.spares (h : p.Inv) (hin : p.s.pc self = .idle ∨ self ∈ p.s.chan.woken)
    (hg : p.Considerate self (p.s.pc self) a) :
    p.s.chan.Spares p.WantsMessage p.WantsRoom (p.s.opOf self (p.s.pc self) a) := by
  cases hpc : p.s.pc self with
  | idle =>
      have hroom : ¬ p.WantsRoom self := by simp [WantsRoom, hpc]
      have hmsg : ¬ p.WantsMessage self := by simp [WantsMessage, hpc]
      rw [hpc] at hg
      cases a with
      | put data timeout =>
          by_cases hu : p.s.obj.q.used < p.s.obj.q.maxMsgs
          · have hleaves : p.LeavesRoom := hg hu
            rw [MsgqSys.opOf, if_pos hu]
            show (p.s.obj.woken.erase self).countP p.WantsRoom + _ ≤ _
            rw [erase_countP hroom]
            exact hleaves
          · rw [MsgqSys.opOf, if_neg hu]
            split <;> trivial
      | get timeout =>
          by_cases hu : p.s.obj.q.used > 0
          · have hleaves : p.LeavesMessage := hg hu
            rw [MsgqSys.opOf, if_pos hu]
            show (p.s.obj.woken.erase self).countP p.WantsMessage + _ ≤ _
            rw [erase_countP hmsg]
            exact hleaves
          · rw [MsgqSys.opOf, if_neg hu]
            split <;> trivial
      | retry => trivial
  | putting data =>
      have hwoken : self ∈ p.s.chan.woken := hin.resolve_left (by simp [hpc])
      rw [hpc] at hg
      cases a with
      | retry =>
          by_cases hu : p.s.obj.q.used < p.s.obj.q.maxMsgs
          · rw [MsgqSys.opOf, if_pos hu]
            by_cases ht : p.timeout self = waitForever
            · have hself : p.WantsRoom self := by simp [WantsRoom, hpc, ht]
              exact h.granted.spares_put hwoken hself false
            · have hself : ¬ p.WantsRoom self := by simp [WantsRoom, hpc, ht]
              have hleaves : p.LeavesRoom := hg ht hu
              show (p.s.obj.woken.erase self).countP p.WantsRoom + _ ≤ _
              rw [erase_countP hself]
              exact hleaves
          · rw [MsgqSys.opOf, if_neg hu]
            trivial
      | _ => trivial
  | getting =>
      have hwoken : self ∈ p.s.chan.woken := hin.resolve_left (by simp [hpc])
      rw [hpc] at hg
      cases a with
      | retry =>
          by_cases hu : p.s.obj.q.used > 0
          · rw [MsgqSys.opOf, if_pos hu]
            by_cases ht : p.timeout self = waitForever
            · have hself : p.WantsMessage self := by simp [WantsMessage, hpc, ht]
              exact h.granted.spares_take hwoken hself false
            · have hself : ¬ p.WantsMessage self := by simp [WantsMessage, hpc, ht]
              have hleaves : p.LeavesMessage := hg ht hu
              show (p.s.obj.woken.erase self).countP p.WantsMessage + _ ≤ _
              rw [erase_countP hself]
              exact hleaves
          · rw [MsgqSys.opOf, if_neg hu]
            trivial
      | _ => trivial

/-- **A woken thread that waits forever finds what it was woken for.** -/
theorem Inv.on_time (h : p.Inv) (hwoken : self ∈ p.s.obj.woken)
    (hforever : p.timeout self = waitForever) : retryErr p.s.obj.q (p.s.pc self) = .ok := by
  cases hpc : p.s.pc self with
  | idle => rfl
  | putting data =>
      have hwants : p.WantsRoom self := by simp [WantsRoom, hpc, hforever]
      have hpos : 0 < p.s.obj.woken.countP p.WantsRoom :=
        List.countP_pos_iff.mpr ⟨self, hwoken, decide_eq_true hwants⟩
      have hroom : p.s.obj.woken.countP p.WantsRoom + p.s.obj.q.used.toNat
        ≤ p.s.obj.q.maxMsgs.toNat := h.granted.room
      have hlt : p.s.obj.q.used < p.s.obj.q.maxMsgs := UInt32.lt_iff_toNat_lt.mpr (by omega)
      rw [retryErr, msgqPutRetry, if_pos hlt]
  | getting =>
      have hwants : p.WantsMessage self := by simp [WantsMessage, hpc, hforever]
      have hpos : 0 < p.s.obj.woken.countP p.WantsMessage :=
        List.countP_pos_iff.mpr ⟨self, hwoken, decide_eq_true hwants⟩
      have hthere : p.s.obj.woken.countP p.WantsMessage ≤ p.s.obj.q.used.toNat := h.granted.there
      have hlt : p.s.obj.q.used > 0 := UInt32.lt_iff_toNat_lt.mpr (hpos.trans_le hthere)
      rw [retryErr, msgqGetRetry, if_pos hlt]

/-- Where a section that blocks leaves the thread. -/
theorem parked_pc {s : MsgqSys} {r : Kernel × MsgqObj × MsgqPc}
    (hr : msgqThread s.k s.obj self (s.pc self) a = some r) :
    (s.opOf self (s.pc self) a = .waitRead self → r.2.2 = .getting)
      ∧ (s.opOf self (s.pc self) a = .waitWrite self → ∃ data, r.2.2 = .putting data) := by
  cases hpc : s.pc self with
  | idle =>
      rw [hpc] at hr
      cases a with
      | put data timeout =>
          obtain rfl := Option.some.inj hr
          unfold MsgqSys.opOf
          dsimp only
          split
          · simp
          · rename_i hu
            split
            · simp
            · rename_i ht
              simp [msgqPut, hu, ht]
      | get timeout =>
          obtain rfl := Option.some.inj hr
          unfold MsgqSys.opOf
          dsimp only
          split
          · simp
          · rename_i hu
            split
            · simp
            · rename_i ht
              simp only [msgqGet, hu, ht, if_false]
              simp
      | retry => exact absurd hr (by simp [msgqThread])
  | putting data | getting =>
      cases a with
      | retry =>
          unfold MsgqSys.opOf
          dsimp only
          split <;> simp
      | _ => simp [MsgqSys.opOf]

/-- The record changes for the caller only, and grows by late retries only. -/
theorem note_frame (p : PatientSys) (self : Tid) (s' : MsgqSys) (a : MsgqAct) :
    (p.note self s' a).s = s' ∧ (∀ t, t ≠ self → (p.note self s' a).timeout t = p.timeout t)
      ∧ ((p.note self s' a).expired = p.expired ∨ a = .retry ∧ p.timeout self = waitForever
        ∧ retryErr p.s.obj.q (p.s.pc self) = .etimeout) := by
  cases a with
  | put data timeout | get timeout =>
      exact ⟨rfl, fun t ht => Function.update_of_ne ht _ _, Or.inl rfl⟩
  | retry =>
      refine ⟨rfl, fun _ _ => rfl, ?_⟩
      by_cases hlate : p.timeout self = waitForever
          ∧ retryErr p.s.obj.q (p.s.pc self) = .etimeout
      · exact Or.inr ⟨rfl, hlate⟩
      · exact Or.inl (if_neg hlate)

/-- **A considerate section of the current thread keeps the invariant.** -/
theorem Inv.act {r : Kernel × MsgqObj × MsgqPc} (h : p.Inv) (hself : p.s.k.current = some self)
    (hact : (p.s.k.thr self).state.Active)
    (hr : msgqThread p.s.k p.s.obj self (p.s.pc self) a = some r)
    (hg : p.Considerate self (p.s.pc self) a) : (p.note self (p.s.after self r) a).Inv := by
  have hread : self ∉ p.s.readers := h.queue.readers.not_mem hact
  have hwrite : self ∉ p.s.writers := h.queue.writers.not_mem hact
  obtain ⟨hperf, -⟩ := h.queue.act hself hact hr
  obtain ⟨hs', htimeout, hexpired⟩ := note_frame p self (p.s.after self r) a
  have hpc : ∀ t, t ≠ self → (p.note self (p.s.after self r) a).s.pc t = p.s.pc t := fun t ht => by
    rw [hs', ObjectSys.after_pc_of_ne _ _ ht]
  -- a thread inside a call that runs was woken
  have hin : p.s.pc self = .idle ∨ self ∈ p.s.chan.woken := by
    by_cases hidle : p.s.pc self = .idle
    · exact Or.inl hidle
    · exact Or.inr ((h.queue.account.woken self).mpr ⟨hidle, hread, hwrite⟩)
  obtain ⟨hgetting, hputting⟩ := parked_pc hr
  have hchan : MsgqSys.chan (p.note self (p.s.after self r) a).s
      = p.s.chan.exec (p.s.opOf self (p.s.pc self) a) := by
    rw [hs']
    exact hperf.chan
  refine ⟨?_, fun t ht => ?_, fun t ht => ?_, ?_, ?_⟩
  · rw [hs']
    exact hperf.inv
  · have ht' : t ∈ (p.s.chan.exec (p.s.opOf self (p.s.pc self) a)).readers := hchan ▸ ht
    rcases Chan.mem_readers_exec ht' with hold | hop
    · have hne : t ≠ self := fun he => hread (he ▸ hold)
      rw [hpc t hne]
      exact h.readers t hold
    · have hts : t = self := by
        have hwho := p.s.opOf_self self (p.s.pc self) a
        rw [hop] at hwho
        exact hwho
      subst hts
      rw [hs', ObjectSys.after_pc_self]
      exact hgetting hop
  · have ht' : t ∈ (p.s.chan.exec (p.s.opOf self (p.s.pc self) a)).writers := hchan ▸ ht
    rcases Chan.mem_writers_exec ht' with hold | hop
    · have hne : t ≠ self := fun he => hwrite (he ▸ hold)
      rw [hpc t hne]
      exact h.writers t hold
    · have hts : t = self := by
        have hwho := p.s.opOf_self self (p.s.pc self) a
        rw [hop] at hwho
        exact hwho
      subst hts
      rw [hs', ObjectSys.after_pc_self]
      exact hputting hop
  · rw [hchan]
    refine h.granted.exec (p.s.opOf_self self _ a) hperf.allowed (h.spares hin hg)
      h.queue.account.once hread hwrite (fun t ht => ?_) (fun t ht => ?_)
      (fun t ht => (wants_congr (hpc t ht) (htimeout t ht)).1)
      (fun t ht => (wants_congr (hpc t ht) (htimeout t ht)).2)
    · simp [WantsRoom, h.readers t ht]
    · obtain ⟨data, hdata⟩ := h.writers t ht
      simp [WantsMessage, hdata]
  · rcases hexpired with hsame | ⟨rfl, hforever, hlate⟩
    · rw [hsame, h.expired]
    · -- nobody who waits forever is late
      have hbusy : p.s.pc self ≠ .idle := by
        intro hidle
        rw [hidle] at hr
        exact absurd hr (by simp [msgqThread])
      rw [h.on_time (hin.resolve_left hbusy) hforever] at hlate
      exact absurd hlate (by decide)

theorem Inv.outside (h : p.Inv) {s' : MsgqSys} (hl : ∀ a, l ≠ .act a)
    (hs : p.s.step cfg l = some s') : PatientSys.Inv { p with s := s' } := by
  obtain ⟨hinv, hc, hpc⟩ := h.queue.outside hl hs
  have hr : s'.readers = p.s.readers := congrArg Chan.readers hc
  have hw : s'.writers = p.s.writers := congrArg Chan.writers hc
  refine ⟨hinv, fun t ht => ?_, fun t ht => ?_, ?_, h.expired⟩
  · show s'.pc t = _
    rw [hpc]
    exact h.readers t (hr ▸ ht)
  · show ∃ data, s'.pc t = _
    rw [hpc]
    exact h.writers t (hw ▸ ht)
  · have hwants := fun t => @wants_congr p { p with s := s' } t (congrFun hpc t) rfl
    have hg := h.granted
    constructor
    · show List.countP _ s'.chan.woken ≤ s'.chan.used
      rw [hc]
      refine le_trans (le_of_eq (List.countP_congr fun t _ => ?_)) hg.there
      simpa using (hwants t).1
    · show List.countP _ s'.chan.woken + s'.chan.used ≤ s'.chan.cap
      rw [hc]
      refine le_trans (le_of_eq (congrArg (· + _) (List.countP_congr fun t _ => ?_))) hg.room
      simpa using (hwants t).2

/-- **A considerate step keeps the invariant.** -/
theorem Inv.step (h : p.Inv) (hg : p.Leaves l) (hs : p.step cfg l = some p') : p'.Inv := by
  obtain ⟨s', hs', rfl⟩ := Option.map_eq_some_iff.mp hs
  cases l with
  | act a =>
      obtain ⟨self, r, hself, hact, hr, rfl⟩ := ObjectSys.act_eq_some hs'
      simp only [hself]
      exact h.act hself hact hr (hg self hself)
  | dispatch t => exact h.outside (by simp) hs'
  | tick => exact h.outside (by simp) hs'
  | isr i => exact i.elim

theorem Initial.inv (h : p.Initial) : p.Inv := by
  obtain ⟨hinv, -⟩ := MsgqSys.Inv.initial h.queue
  have hnone : p.s.chan.woken = [] := h.queue.woken
  have hidle := h.queue.pc
  refine ⟨hinv, fun t ht => absurd (hidle t) (hinv.account.reading t ht),
    fun t ht => absurd (hidle t) (hinv.account.writing t ht), ?_, h.expired⟩
  constructor
  · rw [hnone]
    exact Nat.zero_le _
  · rw [hnone]
    simpa using hinv.sound.used

end PatientSys

namespace PoolSys

/-- The pool, and what is kept. -/
structure Patient (buffer : Nat) (blockSize numBlocks : UInt32) (s : PoolSys) : Prop where
  inv : s.Inv buffer blockSize numBlocks
  granted : s.obj.woken.countP s.WantsBlock ≤ s.obj.pool.freeCount.toNat
  nulls : s.obj.nulls = 0

variable {cfg : Config} {buffer : Nat} {bs n : UInt32} {s s' : PoolSys} {l : PoolLabel}
  {self : Tid} {a : PoolAct} {r : Kernel × PoolObj × PoolPc}

/-- There are at most as many free blocks as blocks. -/
theorem Inv.used_le (h : s.Inv buffer bs n) : s.chan.used ≤ s.chan.cap := by
  obtain ⟨free, hb⟩ := h.partition.blocks
  have hlen := hb.length
  have hcount := hb.count
  show s.obj.pool.freeCount.toNat ≤ s.obj.pool.numBlocks.toNat
  omega

/-- What is kept in a pool, as what is kept in a channel where nobody waits for room. -/
theorem Patient.granted' (h : s.Patient buffer bs n) :
    s.chan.Granted s.WantsBlock (fun _ => False) := by
  refine ⟨h.granted, ?_⟩
  simpa using h.inv.used_le

/-- The operation is possible, and if the section is considerate it spares what is kept. -/
theorem Patient.spares (h : s.Patient buffer bs n)
    (hin : ∀ timeout, s.pc self = .waiting timeout → self ∈ s.obj.woken)
    (hr : poolThread s.k s.obj self (s.pc self) a = some r)
    (hg : s.Considerate (s.pc self) a) :
    s.chan.Allowed (s.opOf self (s.pc self) a)
      ∧ s.chan.Spares s.WantsBlock (fun _ => False) (s.opOf self (s.pc self) a) := by
  have hzero := h.inv.freeList_eq_zero
  have hempty : ¬ s.obj.pool.freeList ≠ 0 → s.chan.used = 0 := fun hne => by
    show s.obj.pool.freeCount.toNat = 0
    rw [hzero.mp (not_not.mp hne)]
    rfl
  have hthere : s.obj.pool.freeList ≠ 0 → 1 ≤ s.chan.used := fun hne => by
    have hpos : s.obj.pool.freeCount > 0 :=
      UInt32.pos_iff_ne_zero.mpr fun h0 => hne (hzero.mpr h0)
    exact UInt32.lt_iff_toNat_lt.mp hpos
  cases hpc : s.pc self with
  | idle =>
      have hself : ¬ s.WantsBlock self := by simp [WantsBlock, hpc]
      rw [hpc] at hg hr
      cases a with
      | alloc timeout =>
          by_cases hne : s.obj.pool.freeList ≠ 0
          · have hleaves : s.LeavesBlock := hg hne
            rw [opOf, if_pos hne]
            refine ⟨⟨Nat.one_pos, hthere hne⟩, ?_⟩
            show (s.obj.woken.erase self).countP s.WantsBlock + 1 ≤ _
            rw [PatientSys.erase_countP hself]
            exact hleaves
          · rw [opOf, if_neg hne]
            split
            · exact ⟨trivial, trivial⟩
            · exact ⟨hempty hne, trivial⟩
      | free ptr =>
          by_cases hbad : (memPoolFree s.k s.obj.mem s.obj.pool ptr).2.2.2 = .done .einval
          · rw [opOf, if_pos hbad]
            exact ⟨trivial, trivial⟩
          · change (if (memPoolFree s.k s.obj.mem s.obj.pool ptr).2.2.2 = .done .einval then _
              else _) = some r at hr
            rw [if_neg hbad] at hr
            obtain ⟨hin, -⟩ := Option.ite_none_right_eq_some.mp hr
            have hroom := UInt32.lt_iff_toNat_lt.mp
              (h.inv.partition.room (List.mem_append_right _ hin))
            rw [opOf, if_neg hbad]
            refine ⟨⟨Nat.one_pos, hroom⟩, ?_⟩
            show List.countP (fun _ => decide False) (s.obj.woken.erase self) + _ ≤ _
            rw [List.countP_eq_zero.mpr (by simp), Nat.zero_add]
            exact hroom
      | _ => exact ⟨trivial, trivial⟩
  | waiting timeout =>
      have hwoken := hin timeout hpc
      rw [hpc] at hg
      cases a with
      | retry =>
          by_cases hne : s.obj.pool.freeList ≠ 0
          · rw [opOf, if_pos hne]
            refine ⟨⟨Nat.one_pos, hthere hne⟩, ?_⟩
            by_cases ht : timeout = waitForever
            · have hself : s.WantsBlock self := by rw [WantsBlock, hpc, ht]
              exact h.granted'.spares_take hwoken hself false
            · have hself : ¬ s.WantsBlock self := by simp [WantsBlock, hpc, ht]
              have hleaves : s.LeavesBlock := hg ht hne
              show (s.obj.woken.erase self).countP s.WantsBlock + 1 ≤ _
              rw [PatientSys.erase_countP hself]
              exact hleaves
          · rw [opOf, if_neg hne]
            exact ⟨trivial, trivial⟩
      | _ => exact ⟨trivial, trivial⟩
  | clearing blk => exact ⟨by simp [opOf, Chan.Allowed], by simp [opOf, Chan.Spares]⟩

/-- The count of refused allocs grows by retries that find nothing only. -/
theorem nulls_frame (hr : poolThread s.k s.obj self (s.pc self) a = some r) :
    r.2.1.nulls = s.obj.nulls
      ∨ a = .retry ∧ s.pc self = .waiting waitForever ∧ s.obj.pool.freeList = 0 := by
  have htake : ∀ (o : PoolObj) (p : MemPool) (blk : Nat), (o.take p blk).1.nulls = o.nulls := by
    intro o p blk
    unfold PoolObj.take
    split <;> rfl
  cases hpc : s.pc self with
  | idle =>
      rw [hpc] at hr
      cases a with
      | alloc timeout =>
          obtain rfl := Option.some.inj hr
          left
          dsimp only
          split
          · exact htake _ _ _
          · rfl
          · rfl
      | free ptr =>
          change (if (memPoolFree s.k s.obj.mem s.obj.pool ptr).2.2.2 = .done .einval then _
            else _) = some r at hr
          split at hr
          · obtain rfl := Option.some.inj hr
            exact Or.inl rfl
          · obtain ⟨-, hr⟩ := Option.ite_none_right_eq_some.mp hr
            obtain rfl := Option.some.inj hr
            exact Or.inl rfl
      | store x v =>
          obtain ⟨-, hr⟩ := Option.ite_none_right_eq_some.mp hr
          obtain rfl := Option.some.inj hr
          exact Or.inl rfl
      | retry | clear => exact absurd hr (by simp [poolThread])
  | waiting timeout =>
      rw [hpc] at hr
      cases a with
      | retry =>
          obtain rfl := Option.some.inj hr
          by_cases hlate : (memPoolAllocRetry s.obj.mem s.obj.pool).2 = 0 ∧ timeout = waitForever
          · right
            obtain ⟨hnull, rfl⟩ := hlate
            refine ⟨rfl, rfl, ?_⟩
            unfold memPoolAllocRetry at hnull
            split at hnull
            · exact hnull
            · rename_i hne
              exact not_not.mp hne
          · left
            rw [htake]
            exact if_neg hlate
      | _ => exact absurd hr (by simp [poolThread])
  | clearing blk =>
      rw [hpc] at hr
      cases a with
      | clear =>
          obtain rfl := Option.some.inj hr
          exact Or.inl rfl
      | _ => exact absurd hr (by simp [poolThread])

/-- **A considerate section of the current thread keeps what is kept.** -/
theorem Patient.act (h : s.Patient buffer bs n) (hinv : PoolSys.Inv buffer bs n (s.after self r))
    (hact : (s.k.thr self).state.Active)
    (hr : poolThread s.k s.obj self (s.pc self) a = some r)
    (hg : s.Considerate (s.pc self) a) : PoolSys.Patient buffer bs n (s.after self r) := by
  have hnot : self ∉ s.waiters := h.inv.queue.waiters.not_mem hact
  have hin : ∀ timeout, s.pc self = .waiting timeout → self ∈ s.obj.woken := fun timeout hpc =>
    (h.inv.queue.account.woken self).mpr ⟨⟨timeout, hpc⟩, hnot, List.not_mem_nil⟩
  obtain ⟨hallowed, hspares⟩ := h.spares hin hr hg
  obtain ⟨-, hchan⟩ := h.inv.act hact hr
  have hself : (s.opOf self (s.pc self) a).self = self := by
    unfold opOf
    split <;> repeat' split
    all_goals rfl
  have hgranted : (s.chan.exec (s.opOf self (s.pc self) a)).Granted
      (PoolSys.WantsBlock (s.after self r)) (fun _ => False) :=
    h.granted'.exec hself hallowed hspares h.inv.queue.account.once hnot List.not_mem_nil
      (fun _ _ => id) (fun _ ht => absurd ht List.not_mem_nil)
      (fun t ht => by rw [WantsBlock, WantsBlock, ObjectSys.after_pc_of_ne _ _ ht])
      (fun _ _ => Iff.rfl)
  rw [← hchan] at hgranted
  refine ⟨hinv, hgranted.there, ?_⟩
  rcases nulls_frame hr with hsame | ⟨rfl, hpc, hnone⟩
  · exact hsame.trans h.nulls
  · -- there is a block for each woken alloc that waits forever, so there is one for this
    have hpos : 0 < s.obj.woken.countP s.WantsBlock :=
      List.countP_pos_iff.mpr ⟨self, hin _ hpc, decide_eq_true hpc⟩
    have hsome := hpos.trans_le h.granted
    rw [h.inv.freeList_eq_zero.mp hnone] at hsome
    exact absurd hsome (by decide)

/-- **A considerate step keeps what is kept.** -/
theorem Patient.step (h : s.Patient buffer bs n) (hg : s.Leaves l)
    (hs : s.step cfg l = some s') : s'.Patient buffer bs n := by
  have hinv := h.inv.step hs
  have hout : (∀ a, l ≠ .act a) → s'.Patient buffer bs n := by
    intro hl
    obtain ⟨-, -, hpc, hobj⟩ := h.inv.queue.outside hl hs
    refine ⟨hinv, ?_, by rw [hobj]; exact h.nulls⟩
    rw [hobj]
    refine le_trans (le_of_eq (List.countP_congr fun t _ => ?_)) h.granted
    have hwants : s'.WantsBlock t ↔ s.WantsBlock t := by rw [WantsBlock, WantsBlock, hpc]
    simpa using hwants
  cases l with
  | act a =>
      obtain ⟨self, r, hself, hact, hr, rfl⟩ := ObjectSys.act_eq_some hs
      exact h.act hinv hact hr (hg self hself)
  | dispatch t => exact hout (by simp)
  | tick => exact hout (by simp)
  | isr i => exact i.elim

theorem Initial.patient (h : s.Initial buffer bs n) : ∃ bs', s.Patient buffer bs' n := by
  obtain ⟨bs', hinv⟩ := h.inv
  refine ⟨bs', hinv, ?_, h.nulls⟩
  rw [h.woken]
  exact Nat.zero_le _

end PoolSys

/--
**When waiting forever is forever.**

From a new queue or a new pool on, under any interleaving of calls by any threads: if
whoever takes a slot, a message or a block, other than a woken thread that waits forever,
leaves one for each of those, then no put or get with `VIBE_WAIT_FOREVER` returns
`VIBE_ETIMEOUT`, and no alloc with it returns `NULL`.
-/
theorem wait_forever_along_run {cfg : Config} :
    (∀ (p p' : PatientSys) (labels : List MsgqLabel), p.Initial →
        run (PatientSys.step cfg) p labels = some p' →
        Along (PatientSys.step cfg) PatientSys.Leaves p labels → p'.expired = 0)
      ∧ ∀ (buffer : Nat) (bs n : UInt32) (s s' : PoolSys) (labels : List PoolLabel),
        s.Initial buffer bs n → run (PoolSys.step cfg) s labels = some s' →
        Along (PoolSys.step cfg) PoolSys.Leaves s labels → s'.obj.nulls = 0 := by
  constructor
  · intro p p' labels hinit hr hall
    exact (run_guarded (P := PatientSys.Inv) (fun _ _ _ hi hg hs => hi.step hg hs) hinit.inv hall
      hr).expired
  · intro buffer bs n s s' labels hinit hr hall
    obtain ⟨bs', hpatient⟩ := hinit.patient
    exact (run_guarded (P := fun s => PoolSys.Patient buffer bs' n s)
      (fun _ _ _ hi hg hs => hi.step hg hs) hpatient hall hr).nulls

/-- Nobody has called anything. -/
def patientReady (cfg : Config) : PatientSys := ⟨msgqReady cfg, fun _ => 0, 0⟩

/-- A get and an alloc that wait forever, and a thread that leaves them the message and the block
it provides. -/
theorem wait_forever_along_run_left :
    (∃ p', run (PatientSys.step ⟨1000, 10, true⟩) (patientReady ⟨1000, 10, true⟩)
        [.dispatch 1, .act (.get waitForever), .dispatch 2, .act (.put (fun _ => 7) waitForever),
          .dispatch 1, .act .retry, .act (.get noWait)] = some p' ∧ p'.expired = 0)
      ∧ ∃ s', run (PoolSys.step ⟨1000, 10, true⟩) (poolReady ⟨1000, 10, true⟩)
        [.dispatch 1, .act (.alloc noWait), .act .clear, .dispatch 2, .act (.alloc noWait),
          .act .clear, .dispatch 3, .act (.alloc waitForever), .dispatch 2, .act (.free 0x2008),
          .dispatch 3, .act .retry] = some s' ∧ s'.obj.nulls = 0 := by
  constructor
  · obtain ⟨p', hrun⟩ := Option.isSome_iff_exists.mp (show (run (PatientSys.step ⟨1000, 10, true⟩)
        (patientReady ⟨1000, 10, true⟩) [.dispatch 1, .act (.get waitForever), .dispatch 2,
          .act (.put (fun _ => 7) waitForever), .dispatch 1, .act .retry,
          .act (.get noWait)]).isSome by decide +kernel)
    exact ⟨p', hrun, wait_forever_along_run.1 _ _ _ ⟨msgqReady_initial _, rfl⟩ hrun
      (by decide +kernel)⟩
  · obtain ⟨s', hrun⟩ := Option.isSome_iff_exists.mp (show (run (PoolSys.step ⟨1000, 10, true⟩)
        (poolReady ⟨1000, 10, true⟩) [.dispatch 1, .act (.alloc noWait), .act .clear, .dispatch 2,
          .act (.alloc noWait), .act .clear, .dispatch 3, .act (.alloc waitForever), .dispatch 2,
          .act (.free 0x2008), .dispatch 3, .act .retry]).isSome by decide +kernel)
    exact ⟨s', hrun, wait_forever_along_run.2 _ _ _ _ _ _ (poolReady_initial _) hrun
      (by decide +kernel)⟩

/-- Thread 2 wakes a waiting get, a waiting put and a waiting alloc, and takes what it woke them
for before they run. -/
theorem forever_calls_expire :
    ((patientReady ⟨1000, 10, true⟩).Initial
      ∧ (∃ p', run (PatientSys.step ⟨1000, 10, true⟩) (patientReady ⟨1000, 10, true⟩)
        [.dispatch 1, .act (.get waitForever), .dispatch 2, .act (.put (fun _ => 7) noWait),
          .act (.get noWait), .dispatch 1, .act .retry] = some p' ∧ p'.expired = 1)
      ∧ ∃ p', run (PatientSys.step ⟨1000, 10, true⟩) (patientReady ⟨1000, 10, true⟩)
        [.dispatch 1, .act (.put (fun _ => 7) noWait), .act (.put (fun _ => 8) waitForever),
          .dispatch 2, .act (.get noWait), .act (.put (fun _ => 9) noWait), .dispatch 1,
          .act .retry] = some p' ∧ p'.expired = 1)
      ∧ (poolReady ⟨1000, 10, true⟩).Initial 0x2000 8 2
      ∧ ∃ s', run (PoolSys.step ⟨1000, 10, true⟩) (poolReady ⟨1000, 10, true⟩)
        [.dispatch 1, .act (.alloc noWait), .act .clear, .dispatch 2, .act (.alloc noWait),
          .act .clear, .dispatch 3, .act (.alloc waitForever), .dispatch 2, .act (.free 0x2008),
          .act (.alloc noWait), .act .clear, .dispatch 3, .act .retry] = some s'
        ∧ s'.obj.nulls = 1 := by
  refine ⟨⟨⟨msgqReady_initial _, rfl⟩, ?_, ?_⟩, poolReady_initial _, ?_⟩
  · exact Option.map_eq_some_iff.mp (by decide +kernel)
  · exact Option.map_eq_some_iff.mp (by decide +kernel)
  · exact Option.map_eq_some_iff.mp (by decide +kernel)

end VibeRtos
