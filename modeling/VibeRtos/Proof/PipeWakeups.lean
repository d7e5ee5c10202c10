import VibeRtos.Proof.PipeStream
import VibeRtos.Proof.Parked
import VibeRtos.Lib.Chan

/-!
# Lost wake-ups at a pipe

The pipe with its two wait lists is a channel of `Chan`, and every transfer wakes one
thread of the other side, whatever amount it moves. So the last woken thread to run
again can leave bytes, or room, that somebody else sleeps next to: when it moves only
part of what there is, wakes nobody, and is not the only one on its side.
-/

namespace VibeRtos

open Links Kernel ByteMem Runs

/-- Inside `vibe_pipe_read`. -/
def PipePc.reads : PipePc → Bool
  | .reading .. => true
  | _ => false

/-- A blocked write has something left to write, a blocked read something left to read. -/
def PipePc.Unfinished : PipePc → Prop
  | .writing src written _ _ asleep => asleep = true → written < src.length
  | .reading len _ readCnt _ _ asleep => asleep = true → readCnt < len
  | _ => True

namespace PipeSys

/-- The pipe as a channel of bytes. -/
def chan (s : PipeSys) : Chan Tid where
  cap := s.obj.p.size.toNat
  used := s.obj.p.used.toNat
  readers := s.readers
  writers := s.writers
  woken := s.obj.woken

/-- The wait lists of the pipe, and where the threads are. -/
structure Inv (s : PipeSys) : Prop where
  ring : s.obj.p.Ring
  readers : Parked s.k s.obj.p.readWait s.readers
  writers : Parked s.k s.obj.p.writeWait s.writers
  /-- a blocked thread is on one of the wait lists, or woken -/
  account : s.chan.Accounted fun t => (s.pc t).asleep
  /-- who waits for what is there can count on a woken thread of its own kind -/
  served : s.chan.Served fun t => (s.pc t).reads
  unfinished : ∀ t, (s.pc t).Unfinished
  sleep : s.k.sleepList.head = none

variable {s s' : PipeSys} {l : PipeLabel} {cfg : Config} {self : Tid}

theorem Inv.sound (h : s.Inv) : s.chan.Sound := ⟨h.ring.pos, h.ring.used⟩

/-- The law of the pipe is that of the channel. -/
theorem noLostWakeup_iff (s : PipeSys) : s.NoLostWakeup ↔ s.chan.Quiet := by
  unfold NoLostWakeup Chan.Quiet
  rw [← UInt32.toNat_inj, ← UInt32.toNat_inj]
  rfl

/-- The kernel's own steps leave the pipe alone. -/
theorem Inv.kernel {k' : Kernel} (h : s.Inv) (hr : Parked k' s.obj.p.readWait s.readers)
    (hw : Parked k' s.obj.p.writeWait s.writers) (hsleep : k'.sleepList.head = none) :
    Inv { s with k := k' } ∧ PipeSys.chan { s with k := k' } = s.chan := by
  have hr' : PipeSys.readers { s with k := k' } = s.readers := hr.nodes
  have hw' : PipeSys.writers { s with k := k' } = s.writers := hw.nodes
  have hc : PipeSys.chan { s with k := k' } = s.chan := by rw [chan, hr', hw', chan]
  refine ⟨⟨h.ring, ?_, ?_, ?_, ?_, h.unfinished, hsleep⟩, hc⟩
  · rw [hr']
    exact hr
  · rw [hw']
    exact hw
  · rw [hc]
    exact h.account
  · rw [hc]
    exact h.served

/-- A section of the current thread, as an operation on the channel. -/
theorem Inv.exec {r : Kernel × PipeObj × PipePc} {op : Chan.Op Tid} (h : s.Inv)
    (hact : (s.k.thr self).state.Active) (hop : op.self = self) (ha : s.chan.Allowed op)
    (hf : s.chan.Fair (fun t => (s.pc t).reads) op) (hring : r.2.1.p.Ring)
    (hr : Parked r.1 r.2.1.p.readWait (s.chan.exec op).readers)
    (hw : Parked r.1 r.2.1.p.writeWait (s.chan.exec op).writers)
    (hwoken : r.2.1.woken = (s.chan.exec op).woken)
    (hused : r.2.1.p.used.toNat = (s.chan.exec op).used) (hsize : r.2.1.p.size = s.obj.p.size)
    (hpc : r.2.2.asleep ↔ op.Parks) (hkind : op.Parks → (r.2.2.reads ↔ (s.pc self).reads))
    (hun : r.2.2.Unfinished) (hsleep : r.1.sleepList = s.k.sleepList) :
    PipeSys.Inv (s.after self r) ∧ PipeSys.chan (s.after self r) = s.chan.exec op := by
  have hc : PipeSys.chan (s.after self r) = s.chan.exec op := by
    have hcap : (s.chan.exec op).cap = s.chan.cap := by cases op <;> rfl
    unfold ObjectSys.after
    rw [chan, PipeSys.readers, PipeSys.writers, hr.nodes, hw.nodes, hwoken, hused, hsize]
    show (⟨s.chan.cap, _, _, _, _⟩ : Chan Tid) = _
    rw [← hcap]
  have haccount : (s.chan.exec op).Accounted fun t => ((s.after self r).pc t).asleep := by
    refine h.account.exec hop (h.readers.not_mem hact) (h.writers.not_mem hact) ?_ ?_
    · intro t ht
      rw [ObjectSys.after_pc_of_ne _ _ ht]
    · rw [ObjectSys.after_pc_self]
      exact hpc
  -- on the lists after the section, nobody has changed its kind
  have hsame : ∀ t, ((s.after self r).pc t).asleep →
      (((s.after self r).pc t).reads ↔ (s.pc t).reads) := by
    intro t hbusy
    by_cases ht : t = self
    · subst ht
      rw [ObjectSys.after_pc_self] at hbusy ⊢
      exact hkind (hpc.mp hbusy)
    · rw [ObjectSys.after_pc_of_ne _ _ ht]
  refine ⟨⟨hring, ?_, ?_, ?_, ?_, ?_, by rw [← h.sleep, ← hsleep]; rfl⟩, hc⟩
  · rw [PipeSys.readers, ObjectSys.after, hr.nodes]
    exact hr
  · rw [PipeSys.writers, ObjectSys.after, hw.nodes]
    exact hw
  · rw [hc]
    exact haccount
  · rw [hc]
    refine (h.served.exec h.sound ha hf).congr ?_ ?_ ?_
    · exact fun t ht => hsame t (haccount.reading t ht)
    · exact fun t ht => hsame t (haccount.writing t ht)
    · exact fun t ht => hsame t ((haccount.woken t).mp ht).1
  · intro t
    by_cases ht : t = self
    · subst ht
      rw [ObjectSys.after_pc_self]
      exact hun
    · rw [ObjectSys.after_pc_of_ne _ _ ht]
      exact h.unfinished t

/-! ## The rounds -/

/-- What a round is to the channel; for a woken thread, when it settles matters. -/
def Turn (s : PipeSys) (self : Tid) (s' : PipeSys) : Prop :=
  ∃ op : Chan.Op Tid, op.self = self ∧ s'.chan = s.chan.exec op ∧ s.chan.Allowed op ∧ op.Wakes
    ∧ (self ∈ s.obj.woken →
      (s.chan.Settles op ↔ (s.obj.woken.erase self = [] → s.RoundSettles (s.pc self))))

/-- A section that is an operation of the channel is a turn. -/
theorem Inv.turn {r : Kernel × PipeObj × PipePc} (op : Chan.Op Tid) (h : s.Inv)
    (hact : (s.k.thr self).state.Active) (hop : op.self = self) (ha : s.chan.Allowed op)
    (hf : s.chan.Fair (fun t => (s.pc t).reads) op) (hring : r.2.1.p.Ring)
    (hr : Parked r.1 r.2.1.p.readWait (s.chan.exec op).readers)
    (hw : Parked r.1 r.2.1.p.writeWait (s.chan.exec op).writers)
    (hwoken : r.2.1.woken = (s.chan.exec op).woken)
    (hused : r.2.1.p.used.toNat = (s.chan.exec op).used) (hsize : r.2.1.p.size = s.obj.p.size)
    (hpc : r.2.2.asleep ↔ op.Parks) (hkind : op.Parks → (r.2.2.reads ↔ (s.pc self).reads))
    (hun : r.2.2.Unfinished) (hsleep : r.1.sleepList = s.k.sleepList) (hwakes : op.Wakes)
    (hexact : self ∈ s.obj.woken →
      (s.chan.Settles op ↔ (s.obj.woken.erase self = [] → s.RoundSettles (s.pc self)))) :
    Inv (s.after self r) ∧ s.Turn self (s.after self r) := by
  obtain ⟨hinv, hc⟩ := h.exec hact hop ha hf hring hr hw hwoken hused hsize hpc hkind hun hsleep
  exact ⟨hinv, op, hop, hc, ha, hwakes, hexact⟩

/-- A round that leaves its caller waiting, or ends the call of a woken one, settles. -/
theorem Inv.settles_of_stay {op : Chan.Op Tid} (h : s.Inv) (ha : s.chan.Allowed op)
    (hf : s.chan.Fair (fun t => (s.pc t).reads) op)
    (hstay : (∃ u, op = .waitRead u) ∨ (∃ u, op = .waitWrite u)
      ∨ ∃ u, op = .leave u ∧ u ∈ s.chan.woken)
    (hround : s.RoundSettles (s.pc self)) :
    s.chan.Settles op ↔ (s.obj.woken.erase self = [] → s.RoundSettles (s.pc self)) :=
  ⟨fun _ _ => hround, fun _ => h.served.settles h.sound ha hf hstay⟩

theorem Inv.writing {src : List UInt8} {written : Nat} {timeout stopAt : UInt32} {asleep : Bool}
    {r : Kernel × PipeObj × PipePc} (h : s.Inv) (hact : (s.k.thr self).state.Active)
    (hpc : s.pc self = .writing src written timeout stopAt asleep)
    (hr : pipeWriting s.k s.obj self src written timeout stopAt = r) :
    Inv (s.after self r) ∧ s.Turn self (s.after self r) := by
  have hkind : ¬ (s.pc self).reads := by rw [hpc]; simp [PipePc.reads]
  have hself := h.writers.not_mem hact
  have hle := h.ring.used
  -- a woken writer has something left to write
  have hwoken : self ∈ s.obj.woken → written < src.length := by
    intro hw
    have hasleep := ((h.account.woken self).mp hw).1
    have hun := h.unfinished self
    rw [hpc] at hasleep hun
    exact hun hasleep
  have hcases := pipeWriting_cases h.ring s.k self src written timeout stopAt
  dsimp only at hcases
  rw [hr] at hcases
  rcases hcases with ⟨hgo, rfl⟩ | ⟨hgo, hfull, rfl⟩ | ⟨hgo, n, q, hn, hmin, happ, hqr, hqw, rfl⟩
  · -- the call returns: a woken writer only when it finds no room
    have hfull : self ∈ s.obj.woken → s.obj.p.used = s.obj.p.size := by
      intro hw
      have hmore := hwoken hw
      rcases hgo with hdone | ⟨hfull, -⟩
      · omega
      · exact hfull
    have hf : s.chan.Fair (fun t => (s.pc t).reads) (.leave self) :=
      fun hw => Or.inr ⟨hkind, congrArg UInt32.toNat (hfull hw)⟩
    refine h.turn (.leave self) hact rfl trivial hf h.ring h.readers h.writers rfl rfl rfl
      ⟨fun hne => absurd hne (by simp [PipePc.asleep]), False.elim⟩ False.elim trivial rfl trivial
      fun hw => h.settles_of_stay trivial hf (Or.inr (Or.inr ⟨self, rfl, hw⟩)) ?_
    rw [hpc]
    refine Or.inr (Or.inr ?_)
    rw [hfull hw]
    omega
  · -- the caller blocks
    have hchan : s.chan.used = s.chan.cap := congrArg UInt32.toNat hfull
    refine h.turn (.waitWrite self) hact rfl hchan
      hkind ⟨h.ring.pos, h.ring.used, h.ring.head, h.ring.tail⟩
      (h.readers.park_other h.writers.rep (h.readers.not_mem hact) h.account.apart stopAt)
      (h.writers.park hself stopAt) rfl rfl rfl ⟨fun _ => trivial, fun _ => rfl⟩
      (fun _ => by rw [hpc]; rfl) (fun _ => ?_) rfl trivial
      fun _ => h.settles_of_stay hchan hkind (Or.inr (Or.inl ⟨self, rfl⟩)) ?_
    · by_contra hdone
      exact hgo (Or.inl (Nat.not_lt.mp hdone))
    · rw [hpc]
      refine Or.inr (Or.inr ?_)
      rw [hfull]
      omega
  · -- some bytes go in, and the first reader is woken
    have hlen : ((src.drop written).take n).length = n := by
      rw [List.length_take, List.length_drop]
      omega
    have hused : q.used.toNat = s.obj.p.used.toNat + n := by rw [happ.used, hlen]
    have ha : s.chan.Allowed (.put self n true) :=
      ⟨hn, show s.obj.p.used.toNat + n ≤ s.obj.p.size.toNat by omega⟩
    refine h.turn (.put self n true) hact rfl ha ⟨hkind, rfl⟩ happ.ring ?_ ?_ ?_ hused happ.size
      ⟨fun hne => absurd hne (by simp [PipePc.asleep]), False.elim⟩ False.elim
      (fun hne => absurd hne (by simp)) (h.readers.wakeHead).2.2.2 rfl fun _ => ?_
    · dsimp only
      rw [hqr]
      exact (h.readers.wakeHead).1
    · dsimp only
      rw [hqw]
      exact h.writers.wakeHead_other h.readers fun x hx hr => h.account.apart x hr hx
    · show _ ++ s.obj.p.readWait.head.toList = _ ++ s.readers.head?.toList
      rw [h.readers.rep.head]
      rfl
    · rw [hpc]
      have hfits : s.obj.p.size.toNat ≤ s.obj.p.used.toNat + (src.length - written)
          ↔ s.obj.p.used.toNat + n = s.obj.p.size.toNat := by omega
      show (s.obj.woken.erase self = [] → (true = true ∧ s.readers ≠ []) ∨ (s.readers = []
          ∧ (s.writers = [] ∨ s.obj.p.used.toNat + n = s.obj.p.size.toNat)))
        ↔ (s.obj.woken.erase self = [] → s.readers ≠ [] ∨ s.writers = []
          ∨ s.obj.p.size.toNat ≤ s.obj.p.used.toNat + (src.length - written))
      rw [hfits]
      by_cases hnil : s.readers = []
      · simp [hnil]
      · simp [hnil]

theorem Inv.reading {len : Nat} {dst : Mem} {readCnt : Nat} {timeout stopAt : UInt32}
    {asleep : Bool} {r : Kernel × PipeObj × PipePc} (h : s.Inv)
    (hact : (s.k.thr self).state.Active)
    (hpc : s.pc self = .reading len dst readCnt timeout stopAt asleep)
    (hr : pipeReading s.k s.obj self len dst readCnt timeout stopAt = r) :
    Inv (s.after self r) ∧ s.Turn self (s.after self r) := by
  have hkind : (s.pc self).reads := by rw [hpc]; rfl
  have hself := h.readers.not_mem hact
  -- a woken reader has something left to read
  have hwoken : self ∈ s.obj.woken → readCnt < len := by
    intro hw
    have hasleep := ((h.account.woken self).mp hw).1
    have hun := h.unfinished self
    rw [hpc] at hasleep hun
    exact hun hasleep
  have hcases := pipeReading_cases h.ring s.k self len dst readCnt timeout stopAt
  dsimp only at hcases
  rw [hr] at hcases
  rcases hcases with ⟨hgo, rfl⟩ | ⟨hgo, hempty, rfl⟩ |
    ⟨hgo, n, q, dst', hn, hmin, hdrop, -, -, hqr, hqw, rfl⟩
  · -- the call returns: a woken reader only when it finds no byte
    have hempty : self ∈ s.obj.woken → s.obj.p.used = 0 := by
      intro hw
      have hmore := hwoken hw
      rcases hgo with hdone | ⟨hempty, -⟩
      · omega
      · exact hempty
    have hf : s.chan.Fair (fun t => (s.pc t).reads) (.leave self) :=
      fun hw => Or.inl ⟨hkind, congrArg UInt32.toNat (hempty hw)⟩
    refine h.turn (.leave self) hact rfl trivial hf h.ring h.readers h.writers rfl rfl rfl
      ⟨fun hne => absurd hne (by simp [PipePc.asleep]), False.elim⟩ False.elim trivial rfl trivial
      fun hw => h.settles_of_stay trivial hf (Or.inr (Or.inr ⟨self, rfl, hw⟩)) ?_
    rw [hpc]
    refine Or.inr (Or.inr ?_)
    rw [hempty hw]
    exact Nat.zero_le _
  · -- the caller blocks
    have hchan : s.chan.used = 0 := congrArg UInt32.toNat hempty
    refine h.turn (.waitRead self) hact rfl hchan
      hkind ⟨h.ring.pos, h.ring.used, h.ring.head, h.ring.tail⟩ (h.readers.park hself stopAt)
      (h.writers.park_other h.readers.rep (h.writers.not_mem hact)
        (fun x hx hr => h.account.apart x hr hx) stopAt)
      rfl rfl rfl ⟨fun _ => trivial, fun _ => rfl⟩ (fun _ => by rw [hpc]; rfl) (fun _ => ?_) rfl
      trivial fun _ => h.settles_of_stay hchan hkind (Or.inl ⟨self, rfl⟩) ?_
    · by_contra hdone
      exact hgo (Or.inl (Nat.not_lt.mp hdone))
    · rw [hpc]
      refine Or.inr (Or.inr ?_)
      rw [hempty]
      exact Nat.zero_le _
  · -- some bytes come out, and the first writer is woken
    have ha : s.chan.Allowed (.take self n true) :=
      ⟨hn, show n ≤ s.obj.p.used.toNat by omega⟩
    refine h.turn (.take self n true) hact rfl ha ⟨hkind, rfl⟩ hdrop.ring ?_ ?_ ?_ hdrop.used
      hdrop.size ⟨fun hne => absurd hne (by simp [PipePc.asleep]), False.elim⟩ False.elim
      (fun hne => absurd hne (by simp)) (h.writers.wakeHead).2.2.2 rfl fun _ => ?_
    · dsimp only
      rw [hqr]
      exact h.readers.wakeHead_other h.writers h.account.apart
    · dsimp only
      rw [hqw]
      exact (h.writers.wakeHead).1
    · show _ ++ s.obj.p.writeWait.head.toList = _ ++ s.writers.head?.toList
      rw [h.writers.rep.head]
      rfl
    · rw [hpc]
      have hall : s.obj.p.used.toNat ≤ len - readCnt ↔ s.obj.p.used.toNat = n := by omega
      show (s.obj.woken.erase self = [] → (true = true ∧ s.writers ≠ []) ∨ (s.writers = []
          ∧ (s.readers = [] ∨ s.obj.p.used.toNat = n)))
        ↔ (s.obj.woken.erase self = [] → s.writers ≠ [] ∨ s.readers = []
          ∨ s.obj.p.used.toNat ≤ len - readCnt)
      rw [hall]
      by_cases hnil : s.writers = []
      · simp [hnil]
      · simp [hnil]

/-- A thread outside the calls is not woken. -/
theorem Inv.not_woken (h : s.Inv) (hfree : (s.pc self).free) : self ∉ s.obj.woken := by
  intro hin
  have hasleep := ((h.account.woken self).mp hin).1
  cases hpc : s.pc self <;> rw [hpc] at hfree hasleep <;> cases hfree <;> cases hasleep

/-- Beginning a call changes nothing. -/
theorem Inv.begin {o' : PipeObj} {pc' : PipePc} (h : s.Inv)
    (hact : (s.k.thr self).state.Active) (hfree : (s.pc self).free) (hp : o'.p = s.obj.p)
    (hw : o'.woken = s.obj.woken) (hpc : pc'.asleep = false) (hun : pc'.Unfinished) :
    Inv (s.after self (s.k, o', pc')) ∧ s.Turn self (s.after self (s.k, o', pc')) := by
  have hnot := h.not_woken hfree
  refine h.turn (.leave self) hact rfl trivial (fun hin => absurd hin hnot) ?_ ?_ ?_ ?_ ?_ ?_ ?_
    False.elim hun rfl trivial fun hin => absurd hin hnot
  · dsimp only
    rw [hp]
    exact h.ring
  · dsimp only
    rw [hp]
    exact h.readers
  · dsimp only
    rw [hp]
    exact h.writers
  · show o'.woken = s.obj.woken.erase self
    rw [hw, List.erase_of_not_mem hnot]
  · show o'.p.used.toNat = s.obj.p.used.toNat
    rw [hp]
  · dsimp only
    rw [hp]
  · dsimp only
    rw [hpc]
    exact ⟨fun hne => absurd hne (by simp), False.elim⟩

/-- From a quiet state, exactly the rounds that settle lead to a quiet state. -/
theorem Turn.exact (ht : s.Turn self s') (h : s.Inv) (hq : s.NoLostWakeup) :
    s'.NoLostWakeup ↔ (self ∈ s.obj.woken → s.obj.woken.erase self = [] →
      s.RoundSettles (s.pc self)) := by
  obtain ⟨op, hop, hc, ha, hwakes, hexact⟩ := ht
  rw [noLostWakeup_iff] at hq
  rw [noLostWakeup_iff, hc, Chan.quiet_exec_iff h.sound ha]
  by_cases hw : self ∈ s.obj.woken
  · rw [hexact hw]
    exact ⟨fun hs _ => hs, fun hs => hs hw⟩
  · refine ⟨fun _ hin => absurd hin hw, fun _ => ?_⟩
    refine Chan.settles_of_fresh h.sound ha hq ?_ hwakes
    rw [hop]
    exact hw

/-! ## Steps and runs -/

/-- **One step keeps the invariant, and the law exactly if it settles.** -/
theorem Inv.step (h : s.Inv) (hs : s.step cfg l = some s') :
    s'.Inv ∧ (s.NoLostWakeup → (s'.NoLostWakeup ↔ s.Settles l)) := by
  cases l with
  | dispatch t =>
      obtain ⟨hready, rfl⟩ := ObjectSys.dispatch_eq_some hs
      have hsleep := switchTo_asleep t h.sleep
      obtain ⟨hinv, hc⟩ := h.kernel (h.readers.switchTo hready) (h.writers.switchTo hready) hsleep
      refine ⟨hinv, fun hq => ⟨fun _ => trivial, fun _ => ?_⟩⟩
      rwa [noLostWakeup_iff, hc, ← noLostWakeup_iff]
  | tick =>
      obtain rfl := Option.some.inj hs
      have hsleep := tickSection_asleep cfg h.sleep
      obtain ⟨hinv, hc⟩ := h.kernel (h.readers.tickSection cfg h.sleep)
        (h.writers.tickSection cfg h.sleep) hsleep
      refine ⟨hinv, fun hq => ⟨fun _ => trivial, fun _ => ?_⟩⟩
      rwa [noLostWakeup_iff, hc, ← noLostWakeup_iff]
  | isr i => exact i.elim
  | act a =>
      obtain ⟨self, r, hself, hact, hr, rfl⟩ := ObjectSys.act_eq_some hs
      -- every section is a turn; the guard speaks of rounds only
      have hcall : a ≠ .round → self ∉ s.obj.woken →
          Inv (s.after self r) ∧ s.Turn self (s.after self r) →
          Inv (s.after self r)
            ∧ (s.NoLostWakeup → (NoLostWakeup (s.after self r) ↔ s.Settles (.act a))) := by
        rintro ha hw ⟨hinv, ht⟩
        refine ⟨hinv, fun hq => ⟨fun _ => ?_, fun _ => (ht.exact h hq).mpr fun hin => ?_⟩⟩
        · cases a with
          | round => exact absurd rfl ha
          | _ => trivial
        · exact absurd hin hw
      have hround : Inv (s.after self r) ∧ s.Turn self (s.after self r) →
          Inv (s.after self r)
            ∧ (s.NoLostWakeup → (NoLostWakeup (s.after self r) ↔ s.Settles (.act .round))) := by
        rintro ⟨hinv, ht⟩
        refine ⟨hinv, fun hq => (ht.exact h hq).trans ?_⟩
        simp [Settles, hself]
      cases a with
      | write src timeout =>
          obtain ⟨hf, heq⟩ := Option.ite_none_right_eq_some.mp hr
          obtain rfl := Option.some.inj heq
          exact hcall (by simp) (h.not_woken hf)
            (h.begin hact hf rfl rfl rfl (by simp [PipePc.Unfinished]))
      | read len dst timeout =>
          obtain ⟨hf, heq⟩ := Option.ite_none_right_eq_some.mp hr
          obtain rfl := Option.some.inj heq
          exact hcall (by simp) (h.not_woken hf)
            (h.begin hact hf rfl rfl rfl (by simp [PipePc.Unfinished]))
      | round =>
          cases hpc : s.pc self with
          | writing src written timeout stopAt asleep =>
              rw [hpc] at hr
              exact hround (h.writing hact hpc (Option.some.inj hr))
          | reading len dst readCnt timeout stopAt asleep =>
              rw [hpc] at hr
              exact hround (h.reading hact hpc (Option.some.inj hr))
          | _ =>
              rw [hpc] at hr
              exact absurd hr (by simp [pipeSections, pipeThread])

theorem Inv.initial (h : s.Initial) : s.Inv ∧ s.NoLostWakeup := by
  obtain ⟨buf, size, hinit⟩ := h.pipe
  unfold pipeInit at hinit
  split at hinit
  · exact absurd hinit (by simp)
  · rename_i hz
    have hp := (Option.some.inj hinit).symm
    have hreadWait : s.obj.p.readWait = listInit := by rw [hp]
    have hwriteWait : s.obj.p.writeWait = listInit := by rw [hp]
    have hread := parked_init s.k
    have hr : s.readers = [] := by rw [PipeSys.readers, hreadWait, hread.nodes]
    have hw : s.writers = [] := by rw [PipeSys.writers, hwriteWait, hread.nodes]
    have hpos : 0 < size.toNat := Nat.pos_of_ne_zero fun h0 => hz (UInt32.toNat_inj.mp h0)
    refine ⟨⟨?_, ?_, ?_, ?_, ?_, fun t => by rw [h.pc t]; trivial, h.sleep⟩, ?_⟩
    · rw [hp]
      exact ⟨hpos, Nat.zero_le _, hpos, (Fifo.ringAt_zero hpos).symm⟩
    · rw [hr, hreadWait]
      exact hread
    · rw [hw, hwriteWait]
      exact hread
    · constructor <;> simp [chan, hr, hw, h.woken, h.pc, PipePc.asleep]
    · constructor <;> simp [chan, hr, hw]
    · intro _
      rw [hr, hw]
      exact ⟨fun hne => absurd rfl hne, fun hne => absurd rfl hne⟩

end PipeSys

/--
**When no wake-up at a pipe is lost.**

From a new pipe on, whatever any threads write and read with whatever lengths and
timeouts: in every state without a woken thread that has still to run its loop again,
readers wait for an empty pipe only and writers for a full one, if and only if each
round of the last woken thread wakes somebody, has nobody waiting on its own side, or
fills (empties) the pipe.
-/
theorem pipe_wakeups_along_run {cfg : Config} {s s' : PipeSys} {labels : List PipeLabel}
    (h : s.Initial) (hr : run (PipeSys.step cfg) s labels = some s') :
    Always (PipeSys.step cfg) PipeSys.NoLostWakeup s labels
      ↔ Along (PipeSys.step cfg) PipeSys.Settles s labels := by
  obtain ⟨hinv, hq⟩ := PipeSys.Inv.initial h
  refine always_iff_along (Q := PipeSys.Inv) ?_ ?_ hinv hq hr
  · intro s l s' h hs
    exact (h.step hs).1
  · intro s l s' h hq hs
    exact (h.step hs).2 hq

/-- A reader waits for one byte and gets it from a write of one byte. -/
theorem pipe_wakeups_along_run_one :
    Always (PipeSys.step ⟨1000, 10, true⟩) PipeSys.NoLostWakeup (pipeReady ⟨1000, 10, true⟩ 4)
      [.dispatch 1, .act (.read 1 (fun _ => 0) waitForever), .act .round, .dispatch 2,
        .act (.write [7] waitForever), .act .round, .dispatch 1, .act .round, .act .round] := by
  obtain ⟨s', hrun⟩ : ∃ s', run (PipeSys.step ⟨1000, 10, true⟩) (pipeReady ⟨1000, 10, true⟩ 4)
      [.dispatch 1, .act (.read 1 (fun _ => 0) waitForever), .act .round, .dispatch 2,
        .act (.write [7] waitForever), .act .round, .dispatch 1, .act .round, .act .round]
      = some s' := Option.isSome_iff_exists.mp (by decide +kernel)
  exact (pipe_wakeups_along_run (pipeReady_initial _ (by decide)) hrun).mpr (by decide +kernel)

/-- Two readers wait for one byte each; one write of two bytes wakes the first of them only,
and it leaves the second byte to nobody. -/
theorem pipe_write_wakes_one :
    (pipeReady ⟨1000, 10, true⟩ 4).Initial
      ∧ ∃ s', run (PipeSys.step ⟨1000, 10, true⟩) (pipeReady ⟨1000, 10, true⟩ 4)
        [.dispatch 1, .act (.read 1 (fun _ => 0) waitForever), .act .round,
          .dispatch 2, .act (.read 1 (fun _ => 0) waitForever), .act .round,
          .dispatch 3, .act (.write [7, 8] waitForever), .act .round, .act .round,
          .dispatch 1, .act .round, .act .round] = some s'
      ∧ s'.obj.woken = [] ∧ s'.readers = [2] ∧ s'.obj.p.used = 1 ∧ ¬ s'.NoLostWakeup := by
  obtain ⟨s', hrun, hfacts⟩ : ∃ s', run (PipeSys.step ⟨1000, 10, true⟩)
      (pipeReady ⟨1000, 10, true⟩ 4)
        [.dispatch 1, .act (.read 1 (fun _ => 0) waitForever), .act .round,
          .dispatch 2, .act (.read 1 (fun _ => 0) waitForever), .act .round,
          .dispatch 3, .act (.write [7, 8] waitForever), .act .round, .act .round,
          .dispatch 1, .act .round, .act .round] = some s'
      ∧ (s'.obj.woken, s'.readers, s'.obj.p.used) = ([], [2], 1) :=
    Option.map_eq_some_iff.mp (by decide +kernel)
  simp only [Prod.mk.injEq] at hfacts
  obtain ⟨hwoken, hreaders, hused⟩ := hfacts
  refine ⟨pipeReady_initial _ (by decide), s', hrun, hwoken, hreaders, hused, fun hlaw => ?_⟩
  have hzero := (hlaw hwoken).1 (by rw [hreaders]; simp)
  rw [hused] at hzero
  exact absurd hzero (by decide)

end VibeRtos
