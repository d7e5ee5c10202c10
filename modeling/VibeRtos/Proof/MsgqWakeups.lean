import VibeRtos.Kernel.MsgqSystem
import VibeRtos.Proof.Parked
import VibeRtos.Proof.MsgqFifo
import VibeRtos.Lib.Chan

/-!
# Lost wake-ups at a message queue

The queue with its two wait lists is a channel of `Chan`: a put moves one unit in and
wakes a reader, a get moves one out and wakes a writer. The retry sections move a unit
too but wake nobody, so the retry of the last woken thread can leave somebody asleep
next to a message, or next to room for one.
-/

namespace VibeRtos

open Links Kernel Runs

namespace MsgqSys

/-- The queue as a channel of messages. -/
def chan (s : MsgqSys) : Chan Tid where
  cap := s.obj.q.maxMsgs.toNat
  used := s.obj.q.used.toNat
  readers := s.readers
  writers := s.writers
  woken := s.obj.woken

/-- The wait lists of the queue, and where the threads are. -/
structure Inv (s : MsgqSys) : Prop where
  readers : Parked s.k s.obj.q.readWait s.readers
  writers : Parked s.k s.obj.q.writeWait s.writers
  /-- a thread inside a call is on one of the wait lists, or woken -/
  account : s.chan.Accounted fun t => s.pc t ≠ .idle
  sound : s.chan.Sound
  sleep : s.k.sleepList.head = none

variable {s s' : MsgqSys} {l : MsgqLabel} {cfg : Config} {self : Tid}

/-- The law of the queue is that of the channel. -/
theorem noLostWakeup_iff (s : MsgqSys) : s.NoLostWakeup ↔ s.chan.Quiet := by
  unfold NoLostWakeup Chan.Quiet
  rw [← UInt32.toNat_inj, ← UInt32.toNat_inj]
  rfl

/-- What a section of a thread is to the channel. -/
def opOf (s : MsgqSys) (self : Tid) : MsgqPc → MsgqAct → Chan.Op Tid
  | .idle, .put _ timeout =>
      if s.obj.q.used < s.obj.q.maxMsgs then .put self 1 true
      else if timeout = noWait then .leave self else .waitWrite self
  | .idle, .get timeout =>
      if s.obj.q.used > 0 then .take self 1 true
      else if timeout = noWait then .leave self else .waitRead self
  | .putting _, .retry =>
      if s.obj.q.used < s.obj.q.maxMsgs then .put self 1 false else .leave self
  | .getting, .retry => if s.obj.q.used > 0 then .take self 1 false else .leave self
  | _, _ => .leave self

theorem opOf_self (s : MsgqSys) (self : Tid) (p : MsgqPc) (a : MsgqAct) :
    (s.opOf self p a).self = self := by
  unfold opOf
  split <;> repeat' split
  all_goals rfl

/-- A thread in its own code wakes the other side with each transfer. -/
theorem opOf_wakes (s : MsgqSys) (self : Tid) (a : MsgqAct) :
    (s.opOf self .idle a).Wakes := by
  cases a with
  | put data timeout =>
      unfold opOf
      dsimp only
      repeat' split
      all_goals first | rfl | trivial
  | get timeout =>
      unfold opOf
      dsimp only
      repeat' split
      all_goals first | rfl | trivial
  | retry => trivial

/-- What a step is to the channel: nothing, an operation of a thread that was not woken and
that wakes the other side, or the retry of a woken thread. -/
inductive Move (s : MsgqSys) (l : MsgqLabel) (s' : MsgqSys) : Prop where
  | still (hl : l ≠ .act .retry) (hs : s'.chan = s.chan)
  | fresh (op : Chan.Op Tid) (hl : l ≠ .act .retry) (hs : s'.chan = s.chan.exec op)
      (ha : s.chan.Allowed op) (hfresh : op.self ∉ s.chan.woken) (hwakes : op.Wakes)
  | retry (op : Chan.Op Tid) (hs : s'.chan = s.chan.exec op) (ha : s.chan.Allowed op)
      (hexact : s.Settles l ↔ s.chan.Settles op)

theorem settles_of_ne_retry (hl : l ≠ .act .retry) : s.Settles l := by
  cases l with
  | act a =>
      cases a with
      | retry => exact absurd rfl hl
      | _ => trivial
  | _ => trivial

/-- From a quiet state, exactly the settling steps lead to a quiet state. -/
theorem Move.exact (hm : Move s l s') (hsound : s.chan.Sound) (hq : s.NoLostWakeup) :
    s'.NoLostWakeup ↔ s.Settles l := by
  rw [noLostWakeup_iff] at hq ⊢
  cases hm with
  | still hl hs =>
      rw [hs]
      exact ⟨fun _ => settles_of_ne_retry hl, fun _ => hq⟩
  | fresh op hl hs ha hfresh hwakes =>
      rw [hs, Chan.quiet_exec_iff hsound ha]
      exact ⟨fun _ => settles_of_ne_retry hl,
        fun _ => Chan.settles_of_fresh hsound ha hq hfresh hwakes⟩
  | retry op hs ha hexact =>
      rw [hs, Chan.quiet_exec_iff hsound ha]
      exact hexact.symm

/-- The kernel's own steps leave the queue alone. -/
theorem Inv.kernel {k' : Kernel} (h : s.Inv) (hr : Parked k' s.obj.q.readWait s.readers)
    (hw : Parked k' s.obj.q.writeWait s.writers) (hsleep : k'.sleepList.head = none) :
    Inv { s with k := k' } ∧ MsgqSys.chan { s with k := k' } = s.chan := by
  have hr' : MsgqSys.readers { s with k := k' } = s.readers := hr.nodes
  have hw' : MsgqSys.writers { s with k := k' } = s.writers := hw.nodes
  have hc : MsgqSys.chan { s with k := k' } = s.chan := by rw [chan, hr', hw', chan]
  refine ⟨⟨?_, ?_, ?_, ?_, hsleep⟩, hc⟩
  · rw [hr']
    exact hr
  · rw [hw']
    exact hw
  · rw [hc]
    exact h.account
  · rw [hc]
    exact h.sound

/-- A section of the current thread, as an operation on the channel. -/
theorem Inv.exec {r : Kernel × MsgqObj × MsgqPc} {op : Chan.Op Tid} (h : s.Inv)
    (hact : (s.k.thr self).state.Active) (hop : op.self = self) (ha : s.chan.Allowed op)
    (hr : Parked r.1 r.2.1.q.readWait (s.chan.exec op).readers)
    (hw : Parked r.1 r.2.1.q.writeWait (s.chan.exec op).writers)
    (hwoken : r.2.1.woken = (s.chan.exec op).woken)
    (hused : r.2.1.q.used.toNat = (s.chan.exec op).used)
    (hmax : r.2.1.q.maxMsgs = s.obj.q.maxMsgs) (hpc : r.2.2 ≠ .idle ↔ op.Parks)
    (hsleep : r.1.sleepList = s.k.sleepList) :
    MsgqSys.Inv (s.after self r) ∧ MsgqSys.chan (s.after self r) = s.chan.exec op := by
  have hc : MsgqSys.chan (s.after self r) = s.chan.exec op := by
    have hcap : (s.chan.exec op).cap = s.chan.cap := by cases op <;> rfl
    unfold ObjectSys.after
    rw [chan, MsgqSys.readers, MsgqSys.writers, hr.nodes, hw.nodes, hwoken, hused, hmax]
    show (⟨s.chan.cap, _, _, _, _⟩ : Chan Tid) = _
    rw [← hcap]
  refine ⟨⟨?_, ?_, ?_, ?_, by rw [← h.sleep, ← hsleep]; rfl⟩, hc⟩
  · rw [MsgqSys.readers, ObjectSys.after, hr.nodes]
    exact hr
  · rw [MsgqSys.writers, ObjectSys.after, hw.nodes]
    exact hw
  · rw [hc]
    refine h.account.exec hop (h.readers.not_mem hact) (h.writers.not_mem hact) ?_ ?_
    · intro t ht
      rw [ObjectSys.after_pc_of_ne _ _ ht]
    · rw [ObjectSys.after_pc_self]
      exact hpc
  · rw [hc]
    exact h.sound.exec ha

/-! ## The sections -/

/-- A section keeps the invariant and is the operation it should be. -/
structure Performs (s : MsgqSys) (u : Tid) (a : MsgqAct) (r : Kernel × MsgqObj × MsgqPc) :
    Prop where
  inv : MsgqSys.Inv (s.after u r)
  chan : MsgqSys.chan (s.after u r) = s.chan.exec (s.opOf u (s.pc u) a)
  allowed : s.chan.Allowed (s.opOf u (s.pc u) a)

theorem Inv.performs {r : Kernel × MsgqObj × MsgqPc} {a : MsgqAct} (op : Chan.Op Tid) (h : s.Inv)
    (hact : (s.k.thr self).state.Active) (hop : s.opOf self (s.pc self) a = op)
    (ha : s.chan.Allowed op) (hr : Parked r.1 r.2.1.q.readWait (s.chan.exec op).readers)
    (hw : Parked r.1 r.2.1.q.writeWait (s.chan.exec op).writers)
    (hwoken : r.2.1.woken = (s.chan.exec op).woken)
    (hused : r.2.1.q.used.toNat = (s.chan.exec op).used)
    (hmax : r.2.1.q.maxMsgs = s.obj.q.maxMsgs) (hpc : r.2.2 ≠ .idle ↔ op.Parks)
    (hsleep : r.1.sleepList = s.k.sleepList) : s.Performs self a r := by
  have hself : op.self = self := by
    rw [← hop]
    exact s.opOf_self self (s.pc self) a
  obtain ⟨hinv, hc⟩ := h.exec hact hself ha hr hw hwoken hused hmax hpc hsleep
  refine ⟨hinv, ?_, ?_⟩
  · rw [hop]
    exact hc
  · rw [hop]
    exact ha

theorem Inv.put {data : Nat → UInt8} {timeout : UInt32} {r : Kernel × MsgqObj × MsgqPc}
    (h : s.Inv) (hact : (s.k.thr self).state.Active) (hpc : s.pc self = .idle)
    (hs : msgqThread s.k s.obj self .idle (.put data timeout) = some r) :
    s.Performs self (.put data timeout) r := by
  have hnot : self ∉ s.obj.woken := fun hw => ((h.account.woken self).mp hw).1 hpc
  have hself := h.writers.not_mem hact
  by_cases hu : s.obj.q.used < s.obj.q.maxMsgs
  · -- room: one message in, and the first reader is woken
    have hlt := UInt32.lt_iff_toNat_lt.mp hu
    have hres : msgqThread s.k s.obj self .idle (.put data timeout)
        = some ((s.k.wakeHead s.obj.q.readWait).1,
          ⟨{ s.obj.q.push data with readWait := (s.k.wakeHead s.obj.q.readWait).2 },
            s.obj.woken ++ s.obj.q.readWait.head.toList⟩, .idle) := by
      rw [msgqThread, msgqPut, if_pos hu]
      rfl
    obtain rfl := Option.some.inj (hres.symm.trans hs)
    have ha : s.chan.Allowed (.put self 1 true) := ⟨Nat.one_pos, hlt⟩
    refine h.performs _ hact (by simp [opOf, hpc, hu]) ha (h.readers.wakeHead).1
      (h.writers.wakeHead_other h.readers fun x hx hr => h.account.apart x hr hx) ?_
      (toNat_succ hu) rfl ⟨fun hne => absurd rfl hne, False.elim⟩ (h.readers.wakeHead).2.2.2
    show s.obj.woken ++ s.obj.q.readWait.head.toList = s.obj.woken.erase self ++ _
    rw [List.erase_of_not_mem hnot, h.readers.rep.head]
    rfl
  · have hfull : s.obj.q.used.toNat = s.obj.q.maxMsgs.toNat :=
      Nat.le_antisymm h.sound.used (UInt32.le_iff_toNat_le.mp (UInt32.not_lt.mp hu))
    by_cases ht : timeout = noWait
    · have hres : msgqThread s.k s.obj self .idle (.put data timeout)
        = some (s.k, s.obj, .idle) := by
        rw [msgqThread, msgqPut, if_neg hu, if_pos ht]
      obtain rfl := Option.some.inj (hres.symm.trans hs)
      exact h.performs (.leave self) hact (by simp [opOf, hpc, hu, ht]) trivial h.readers h.writers
        (List.erase_of_not_mem hnot).symm rfl rfl ⟨fun hne => absurd rfl hne, False.elim⟩ rfl
    · have hres : msgqThread s.k s.obj self .idle (.put data timeout)
          = some (((s.k.block self (s.k.deadline timeout)).waitAppend s.obj.q.writeWait self).1,
            ⟨{ s.obj.q with writeWait :=
                ((s.k.block self (s.k.deadline timeout)).waitAppend s.obj.q.writeWait self).2 },
              s.obj.woken⟩, .putting data) := by
        rw [msgqThread, msgqPut, if_neg hu, if_neg ht]
      obtain rfl := Option.some.inj (hres.symm.trans hs)
      exact h.performs (.waitWrite self) hact (by simp [opOf, hpc, hu, ht]) hfull
        (h.readers.park_other h.writers.rep (h.readers.not_mem hact) h.account.apart _)
        (h.writers.park hself _) (List.erase_of_not_mem hnot).symm rfl rfl
        ⟨fun _ => trivial, fun _ => by simp⟩ rfl

theorem Inv.get {timeout : UInt32} {r : Kernel × MsgqObj × MsgqPc}
    (h : s.Inv) (hact : (s.k.thr self).state.Active) (hpc : s.pc self = .idle)
    (hs : msgqThread s.k s.obj self .idle (.get timeout) = some r) :
    s.Performs self (.get timeout) r := by
  have hnot : self ∉ s.obj.woken := fun hw => ((h.account.woken self).mp hw).1 hpc
  have hself := h.readers.not_mem hact
  by_cases hu : s.obj.q.used > 0
  · -- one message out, and the first writer is woken
    have hpos := UInt32.lt_iff_toNat_lt.mp hu
    have hres : msgqThread s.k s.obj self .idle (.get timeout)
        = some ((s.k.wakeHead s.obj.q.writeWait).1,
          ⟨{ s.obj.q.pop with writeWait := (s.k.wakeHead s.obj.q.writeWait).2 },
            s.obj.woken ++ s.obj.q.writeWait.head.toList⟩, .idle) := by
      rw [msgqThread, msgqGet, if_pos hu]
      rfl
    obtain rfl := Option.some.inj (hres.symm.trans hs)
    have ha : s.chan.Allowed (.take self 1 true) := ⟨Nat.one_pos, hpos⟩
    refine h.performs _ hact (by simp only [opOf, hpc, hu, if_true]) ha
      (h.readers.wakeHead_other h.writers h.account.apart) (h.writers.wakeHead).1 ?_
      (toNat_pred hu) rfl ⟨fun hne => absurd rfl hne, False.elim⟩
      (h.writers.wakeHead).2.2.2
    show s.obj.woken ++ s.obj.q.writeWait.head.toList = s.obj.woken.erase self ++ _
    rw [List.erase_of_not_mem hnot, h.writers.rep.head]
    rfl
  · have hempty : s.obj.q.used.toNat = 0 :=
      Nat.le_zero.mp (UInt32.le_iff_toNat_le.mp (UInt32.not_lt.mp hu))
    by_cases ht : timeout = noWait
    · have hres : msgqThread s.k s.obj self .idle (.get timeout) = some (s.k, s.obj, .idle) := by
        rw [msgqThread, msgqGet, if_neg hu, if_pos ht]
      obtain rfl := Option.some.inj (hres.symm.trans hs)
      exact h.performs (.leave self) hact (by simp [opOf, hpc, hu, ht]) trivial h.readers h.writers
        (List.erase_of_not_mem hnot).symm rfl rfl ⟨fun hne => absurd rfl hne, False.elim⟩ rfl
    · have hres : msgqThread s.k s.obj self .idle (.get timeout)
          = some (((s.k.block self (s.k.deadline timeout)).waitAppend s.obj.q.readWait self).1,
            ⟨{ s.obj.q with readWait :=
                ((s.k.block self (s.k.deadline timeout)).waitAppend s.obj.q.readWait self).2 },
              s.obj.woken⟩, .getting) := by
        rw [msgqThread, msgqGet, if_neg hu, if_neg ht]
      obtain rfl := Option.some.inj (hres.symm.trans hs)
      exact h.performs (.waitRead self) hact (by simp [opOf, hpc, hu, ht]) hempty
        (h.readers.park hself _)
        (h.writers.park_other h.readers.rep (h.writers.not_mem hact)
          (fun x hx hr => h.account.apart x hr hx) _)
        (List.erase_of_not_mem hnot).symm rfl rfl ⟨fun _ => trivial, fun _ => by simp⟩ rfl

/-- The retry section of a put moves one message in if it can, and wakes nobody. -/
theorem Inv.putRetry {data : Nat → UInt8} {q' : Msgq} (h : s.Inv)
    (hself : s.k.current = some self) (hact : (s.k.thr self).state.Active)
    (hpc : s.pc self = .putting data) (hq : (msgqPutRetry s.obj.q data).1 = q') :
    s.Performs self .retry (s.k, ⟨q', s.obj.woken.erase self⟩, .idle)
      ∧ (s.Settles (.act .retry) ↔ s.chan.Settles (s.opOf self (s.pc self) .retry)) := by
  have hused := h.sound.used
  have hcap : ¬ s.obj.q.maxMsgs.toNat = 0 := Nat.pos_iff_ne_zero.mp h.sound.cap
  have hsettles : s.Settles (.act .retry) ↔ (s.obj.woken.erase self = [] → s.readers = []
      ∧ (s.writers = [] ∨ s.obj.q.maxMsgs.toNat ≤ s.obj.q.used.toNat + 1)) := by
    simp [Settles, hself, hpc, RetrySettles]
  by_cases hu : s.obj.q.used < s.obj.q.maxMsgs
  · have hlt := UInt32.lt_iff_toNat_lt.mp hu
    have hfits : s.obj.q.maxMsgs.toNat ≤ s.obj.q.used.toNat + 1
        ↔ s.obj.q.used.toNat + 1 = s.obj.q.maxMsgs.toNat := by omega
    rw [msgqPutRetry, if_pos hu] at hq
    subst hq
    have hop : s.opOf self (s.pc self) .retry = .put self 1 false := by simp [opOf, hpc, hu]
    refine ⟨h.performs _ hact hop ⟨Nat.one_pos, hlt⟩ h.readers h.writers
      (List.append_nil _).symm (toNat_succ hu) rfl ⟨fun hne => absurd rfl hne, False.elim⟩ rfl, ?_⟩
    rw [hsettles, hfits, hop]
    simp [Chan.Settles, Chan.Op.self, chan]
  · have hfull : s.obj.q.used.toNat = s.obj.q.maxMsgs.toNat :=
      Nat.le_antisymm hused (UInt32.le_iff_toNat_le.mp (UInt32.not_lt.mp hu))
    rw [msgqPutRetry, if_neg hu] at hq
    subst hq
    have hop : s.opOf self (s.pc self) .retry = .leave self := by
      simp only [opOf, hpc, hu, if_false]
    refine ⟨h.performs _ hact hop trivial h.readers h.writers rfl rfl rfl
      ⟨fun hne => absurd rfl hne, False.elim⟩ rfl, ?_⟩
    rw [hsettles, hop]
    simp [Chan.Settles, Chan.Op.self, chan, hfull, hcap]

/-- The retry section of a get moves one message out if it can, and wakes nobody. -/
theorem Inv.getRetry {q' : Msgq} (h : s.Inv) (hself : s.k.current = some self)
    (hact : (s.k.thr self).state.Active) (hpc : s.pc self = .getting)
    (hq : (msgqGetRetry s.obj.q).1 = q') :
    s.Performs self .retry (s.k, ⟨q', s.obj.woken.erase self⟩, .idle)
      ∧ (s.Settles (.act .retry) ↔ s.chan.Settles (s.opOf self (s.pc self) .retry)) := by
  have hcap : ¬ 0 = s.obj.q.maxMsgs.toNat := h.sound.cap.ne
  have hsettles : s.Settles (.act .retry) ↔ (s.obj.woken.erase self = [] → s.writers = []
      ∧ (s.readers = [] ∨ s.obj.q.used.toNat ≤ 1)) := by
    simp [Settles, hself, hpc, RetrySettles]
  by_cases hu : s.obj.q.used > 0
  · have hpos : 0 < s.obj.q.used.toNat := UInt32.lt_iff_toNat_lt.mp hu
    have hlast : s.obj.q.used.toNat ≤ 1 ↔ s.obj.q.used.toNat = 1 := by omega
    rw [msgqGetRetry, if_pos hu] at hq
    subst hq
    have hop : s.opOf self (s.pc self) .retry = .take self 1 false := by
      simp only [opOf, hpc, hu, if_true]
    refine ⟨h.performs _ hact hop ⟨Nat.one_pos, hpos⟩ h.readers h.writers
      (List.append_nil _).symm (toNat_pred hu) rfl
      ⟨fun hne => absurd rfl hne, False.elim⟩ rfl, ?_⟩
    rw [hsettles, hlast, hop]
    simp [Chan.Settles, Chan.Op.self, chan]
  · have hempty : s.obj.q.used.toNat = 0 :=
      Nat.le_zero.mp (UInt32.le_iff_toNat_le.mp (UInt32.not_lt.mp hu))
    rw [msgqGetRetry, if_neg hu] at hq
    subst hq
    have hop : s.opOf self (s.pc self) .retry = .leave self := by
      simp only [opOf, hpc, hu, if_false]
    refine ⟨h.performs _ hact hop trivial h.readers h.writers rfl rfl rfl
      ⟨fun hne => absurd rfl hne, False.elim⟩ rfl, ?_⟩
    rw [hsettles, hop]
    simp [Chan.Settles, Chan.Op.self, chan, hempty, hcap]

/-! ## Steps and runs -/

/-- A section of a thread in its own code, as a move. -/
theorem Performs.move {r : Kernel × MsgqObj × MsgqPc} {a : MsgqAct} (hp : s.Performs self a r)
    (h : s.Inv) (hpc : s.pc self = .idle) (ha : a ≠ .retry) : s.Move (.act a) (s.after self r) := by
  refine .fresh _ ?_ hp.chan hp.allowed ?_ ?_
  · exact fun he => ha (ObjectSys.Label.act.inj he)
  · rw [opOf_self]
    exact fun hw => ((h.account.woken self).mp hw).1 hpc
  · rw [hpc]
    exact s.opOf_wakes self a

/-- **A section of the current thread is the operation it should be**, and settles what it has
to if and only if the operation does. -/
theorem Inv.act {r : Kernel × MsgqObj × MsgqPc} {a : MsgqAct} (h : s.Inv)
    (hself : s.k.current = some self) (hact : (s.k.thr self).state.Active)
    (hr : msgqThread s.k s.obj self (s.pc self) a = some r) :
    s.Performs self a r ∧ s.Move (.act a) (s.after self r) := by
  cases hpc : s.pc self with
  | idle =>
      rw [hpc] at hr
      cases a with
      | put data timeout =>
          have hp := h.put hact hpc hr
          exact ⟨hp, hp.move h hpc (by simp)⟩
      | get timeout =>
          have hp := h.get hact hpc hr
          exact ⟨hp, hp.move h hpc (by simp)⟩
      | retry => exact absurd hr (by simp [msgqThread])
  | putting data =>
      rw [hpc] at hr
      cases a with
      | retry =>
          obtain rfl := Option.some.inj hr
          obtain ⟨hp, hexact⟩ := h.putRetry hself hact hpc rfl
          exact ⟨hp, .retry _ hp.chan hp.allowed hexact⟩
      | _ => exact absurd hr (by simp [msgqThread])
  | getting =>
      rw [hpc] at hr
      cases a with
      | retry =>
          obtain rfl := Option.some.inj hr
          obtain ⟨hp, hexact⟩ := h.getRetry hself hact hpc rfl
          exact ⟨hp, .retry _ hp.chan hp.allowed hexact⟩
      | _ => exact absurd hr (by simp [msgqThread])

/-- The steps that are no thread's leave the queue alone. -/
theorem Inv.outside (h : s.Inv) (hl : ∀ a, l ≠ .act a) (hs : s.step cfg l = some s') :
    s'.Inv ∧ s'.chan = s.chan ∧ s'.pc = s.pc := by
  cases l with
  | dispatch t =>
      obtain ⟨hready, rfl⟩ := ObjectSys.dispatch_eq_some hs
      have hsleep := switchTo_asleep t h.sleep
      obtain ⟨hinv, hc⟩ := h.kernel (h.readers.switchTo hready) (h.writers.switchTo hready) hsleep
      exact ⟨hinv, hc, rfl⟩
  | tick =>
      obtain rfl := Option.some.inj hs
      have hsleep := tickSection_asleep cfg h.sleep
      obtain ⟨hinv, hc⟩ := h.kernel (h.readers.tickSection cfg h.sleep)
        (h.writers.tickSection cfg h.sleep) hsleep
      exact ⟨hinv, hc, rfl⟩
  | isr i => exact i.elim
  | act a => exact absurd rfl (hl a)

/-- **Every step of the machine is a `Move` and keeps the invariant.** -/
theorem Inv.step (h : s.Inv) (hs : s.step cfg l = some s') : s'.Inv ∧ s.Move l s' := by
  cases l with
  | act a =>
      obtain ⟨self, r, hself, hact, hr, rfl⟩ := ObjectSys.act_eq_some hs
      obtain ⟨hp, hmove⟩ := h.act hself hact hr
      exact ⟨hp.inv, hmove⟩
  | dispatch t =>
      obtain ⟨hinv, hc, -⟩ := h.outside (by simp) hs
      exact ⟨hinv, .still (by simp) hc⟩
  | tick =>
      obtain ⟨hinv, hc, -⟩ := h.outside (by simp) hs
      exact ⟨hinv, .still (by simp) hc⟩
  | isr i => exact i.elim

theorem Inv.initial (h : s.Initial) : s.Inv ∧ s.NoLostWakeup := by
  obtain ⟨buffer, msgSize, maxMsgs, hinit⟩ := h.queue
  unfold msgqInit at hinit
  split at hinit
  · exact absurd hinit (by simp)
  · rename_i hz
    have hq := (Option.some.inj hinit).symm
    have hreadWait : s.obj.q.readWait = listInit := by rw [hq]
    have hwriteWait : s.obj.q.writeWait = listInit := by rw [hq]
    have hread := parked_init s.k
    have hr : s.readers = [] := by rw [MsgqSys.readers, hreadWait, hread.nodes]
    have hw : s.writers = [] := by rw [MsgqSys.writers, hwriteWait, hread.nodes]
    have hmax : 0 < s.obj.q.maxMsgs.toNat := by
      refine Nat.pos_of_ne_zero fun h0 => hz (Or.inr ?_)
      rw [hq] at h0
      exact UInt32.toNat_inj.mp h0
    have hused : s.obj.q.used = 0 := by rw [hq]
    refine ⟨⟨?_, ?_, ?_, ⟨hmax, ?_⟩, h.sleep⟩, ?_⟩
    · rw [hr, hreadWait]
      exact hread
    · rw [hw, hwriteWait]
      exact hread
    · constructor <;> simp [chan, hr, hw, h.woken, h.pc]
    · show s.obj.q.used.toNat ≤ _
      rw [hused]
      exact Nat.zero_le _
    · intro _
      rw [hr, hw]
      exact ⟨fun hne => absurd rfl hne, fun hne => absurd rfl hne⟩

end MsgqSys

/--
**When no wake-up at a message queue is lost.**

From a new queue on, whatever any threads put and get with whatever timeouts: in every
state without a woken thread that has still to retry, readers wait for an empty queue
only and writers for a full one, if and only if each retry of the last woken thread
concerns nobody else.
-/
theorem msgq_wakeups_along_run {cfg : Config} {s s' : MsgqSys} {labels : List MsgqLabel}
    (h : s.Initial) (hr : run (MsgqSys.step cfg) s labels = some s') :
    Always (MsgqSys.step cfg) MsgqSys.NoLostWakeup s labels
      ↔ Along (MsgqSys.step cfg) MsgqSys.Settles s labels := by
  obtain ⟨hinv, hq⟩ := MsgqSys.Inv.initial h
  refine always_iff_along (Q := MsgqSys.Inv) ?_ ?_ hinv hq hr
  · intro s l s' h hs
    exact (h.step hs).1
  · intro s l s' h hq hs
    exact (h.step hs).2.exact h.sound hq

/-- READY threads and a new queue of one byte. -/
def msgqReady (cfg : Config) : MsgqSys where
  k := Kernel.bss cfg (fun _ => { threadDefine [] 512 0 0 0 5 with state := .ready }) none
  obj := ⟨⟨fun _ => 0, 1, 1, 0, 0, 0, listInit, listInit⟩, []⟩
  pc := fun _ => .idle

theorem msgqReady_initial (cfg : Config) : (msgqReady cfg).Initial :=
  ⟨⟨_, 1, 1, rfl⟩, rfl, fun _ => rfl, rfl⟩

/-- Thread 1 fills the queue and blocks; thread 2 takes a message, and thread 1 retries. -/
theorem msgq_wakeups_along_run_retry :
    Always (MsgqSys.step ⟨1000, 10, true⟩) MsgqSys.NoLostWakeup (msgqReady ⟨1000, 10, true⟩)
      [.dispatch 1, .act (.put (fun _ => 7) waitForever), .act (.put (fun _ => 8) waitForever),
        .dispatch 2, .act (.get waitForever), .dispatch 1, .act .retry] := by
  obtain ⟨s', hrun⟩ : ∃ s', run (MsgqSys.step ⟨1000, 10, true⟩) (msgqReady ⟨1000, 10, true⟩)
      [.dispatch 1, .act (.put (fun _ => 7) waitForever), .act (.put (fun _ => 8) waitForever),
        .dispatch 2, .act (.get waitForever), .dispatch 1, .act .retry] = some s' :=
    Option.isSome_iff_exists.mp (by decide +kernel)
  exact (msgq_wakeups_along_run (msgqReady_initial _) hrun).mpr (by decide +kernel)

/-- Thread 2 takes a message and blocks in its next get before thread 1 retries its put: the
message thread 1 then stores wakes nobody. -/
theorem msgq_retry_wakes_nobody :
    (msgqReady ⟨1000, 10, true⟩).Initial
      ∧ ∃ s', run (MsgqSys.step ⟨1000, 10, true⟩) (msgqReady ⟨1000, 10, true⟩)
        [.dispatch 1, .act (.put (fun _ => 7) waitForever), .act (.put (fun _ => 8) waitForever),
          .dispatch 2, .act (.get waitForever), .act (.get waitForever), .dispatch 1,
          .act .retry] = some s'
      ∧ s'.obj.woken = [] ∧ s'.readers = [2] ∧ s'.obj.q.used = 1 ∧ ¬ s'.NoLostWakeup := by
  obtain ⟨s', hrun, hfacts⟩ : ∃ s', run (MsgqSys.step ⟨1000, 10, true⟩)
      (msgqReady ⟨1000, 10, true⟩)
        [.dispatch 1, .act (.put (fun _ => 7) waitForever), .act (.put (fun _ => 8) waitForever),
          .dispatch 2, .act (.get waitForever), .act (.get waitForever), .dispatch 1,
          .act .retry] = some s'
      ∧ (s'.obj.woken, s'.readers, s'.obj.q.used) = ([], [2], 1) :=
    Option.map_eq_some_iff.mp (by decide +kernel)
  simp only [Prod.mk.injEq] at hfacts
  obtain ⟨hwoken, hreaders, hused⟩ := hfacts
  refine ⟨msgqReady_initial _, s', hrun, hwoken, hreaders, hused, fun hlaw => ?_⟩
  have hzero := (hlaw hwoken).1 (by rw [hreaders]; simp)
  rw [hused] at hzero
  exact absurd hzero (by decide)

end VibeRtos
