import VibeRtos.Kernel.System
import VibeRtos.Lib.Fifo
import VibeRtos.Lib.Runs

/-!
# Message queues are FIFO channels

The ring of a message queue holds its pending messages from `head` on. Each section
of `put`, `get`, `peek` and `purge` does to them what the channel of `Fifo` does,
and the machine acts on a queue through these sections only, whoever runs them and
in whatever order.
-/

namespace VibeRtos

open Kernel ByteMem Fifo Runs

/-! ## The ring -/

/-- The indices of a queue are those of a ring, and its buffer fits in the address space. -/
structure Msgq.Ring (q : Msgq) : Prop where
  fits : q.msgSize.toNat * q.maxMsgs.toNat ≤ 2 ^ 32
  pos : 0 < q.maxMsgs.toNat
  used : q.used.toNat ≤ q.maxMsgs.toNat
  head : q.head.toNat < q.maxMsgs.toNat
  tail : q.tail.toNat = ringAt q.maxMsgs.toNat q.head.toNat q.used.toNat

/-- The pending messages, oldest first. -/
def Msgq.contents (q : Msgq) : List (List UInt8) :=
  (List.range q.used.toNat).map fun j =>
    slice q.buffer (ringAt q.maxMsgs.toNat q.head.toNat j * q.msgSize.toNat) q.msgSize.toNat

variable {q : Msgq}

theorem Msgq.Ring.tail_lt (h : q.Ring) : q.tail.toNat < q.maxMsgs.toNat := by
  rw [h.tail]
  exact ringAt_lt h.pos

/-- The 32-bit offset of a slot does not wrap. -/
theorem Msgq.Ring.offset (h : q.Ring) {i : UInt32} (hi : i.toNat < q.maxMsgs.toNat) :
    (i * q.msgSize).toNat = i.toNat * q.msgSize.toNat := by
  rw [UInt32.toNat_mul, Nat.mod_eq_of_lt]
  rcases Nat.eq_zero_or_pos q.msgSize.toNat with h0 | h0
  · rw [h0, Nat.mul_zero]
    decide
  · have hlt : i.toNat * q.msgSize.toNat < q.maxMsgs.toNat * q.msgSize.toNat :=
      Nat.mul_lt_mul_of_pos_right hi h0
    have hfits := h.fits
    rw [Nat.mul_comm] at hfits
    omega

theorem Msgq.Ring.slot_eq (h : q.Ring) {i : UInt32} (hi : i.toNat < q.maxMsgs.toNat) :
    q.slot i = slice q.buffer (i.toNat * q.msgSize.toNat) q.msgSize.toNat := by
  rw [Msgq.slot, h.offset hi]

/-- The slot at `head` holds the oldest message. -/
theorem Msgq.Ring.oldest (h : q.Ring) (hu : q.used > 0) :
    q.contents.head? = some (q.slot q.head) := by
  have hpos : 0 < q.used.toNat := UInt32.lt_iff_toNat_lt.mp hu
  obtain ⟨n, hn⟩ := Nat.exists_eq_succ_of_ne_zero (Nat.pos_iff_ne_zero.mp hpos)
  rw [h.slot_eq h.head, Msgq.contents, hn, List.range_succ_eq_map]
  simp [ringAt_zero h.head]

/-- The slots of two different indices do not overlap. -/
theorem slots_disjoint {i j n : Nat} (h : i ≠ j) : i * n + n ≤ j * n ∨ j * n + n ≤ i * n := by
  rcases Nat.lt_or_gt_of_ne h with hlt | hlt
  · refine Or.inl ?_
    have hle : (i + 1) * n ≤ j * n := Nat.mul_le_mul_right n hlt
    rwa [Nat.add_mul, Nat.one_mul] at hle
  · refine Or.inr ?_
    have hle : (j + 1) * n ≤ i * n := Nat.mul_le_mul_right n hlt
    rwa [Nat.add_mul, Nat.one_mul] at hle

theorem toNat_succ {x n : UInt32} (h : x < n) : (x + 1).toNat = x.toNat + 1 := by
  have hlt := UInt32.lt_iff_toNat_lt.mp h
  have hn := n.toNat_lt
  rw [UInt32.toNat_add, UInt32.toNat_one, Nat.mod_eq_of_lt (by omega)]

theorem toNat_pred {x : UInt32} (h : x > 0) : (x - 1).toNat = x.toNat - 1 := by
  have hpos : 0 < x.toNat := UInt32.lt_iff_toNat_lt.mp h
  have hle : (1 : UInt32) ≤ x := UInt32.le_iff_toNat_le.mpr hpos
  rw [UInt32.toNat_sub_of_le _ _ hle, UInt32.toNat_one]

theorem Msgq.Ring.push (h : q.Ring) (hu : q.used < q.maxMsgs) (data : Nat → UInt8) :
    (q.push data).Ring := by
  have hused := UInt32.lt_iff_toNat_lt.mp hu
  have htail : q.tail < q.maxMsgs := UInt32.lt_iff_toNat_lt.mpr h.tail_lt
  refine ⟨h.fits, h.pos, ?_, h.head, ?_⟩
  · show (q.used + 1).toNat ≤ q.maxMsgs.toNat
    rw [toNat_succ hu]
    omega
  · show ((q.tail + 1) % q.maxMsgs).toNat = ringAt q.maxMsgs.toNat q.head.toNat (q.used + 1).toNat
    rw [UInt32.toNat_mod, toNat_succ htail, toNat_succ hu, h.tail, ringAt, ringAt, Nat.mod_add_mod,
      Nat.add_assoc]

/-- A push appends the message. -/
theorem Msgq.Ring.contents_push (h : q.Ring) (hu : q.used < q.maxMsgs) (data : Nat → UInt8) :
    (q.push data).contents = q.contents ++ [q.message data] := by
  have hused := UInt32.lt_iff_toNat_lt.mp hu
  have hsucc : (q.push data).used.toNat = q.used.toNat + 1 := toNat_succ hu
  rw [Msgq.contents, hsucc, List.range_succ, List.map_append]
  congr 1
  · -- the older messages are in other slots
    refine List.map_congr_left fun j hj => ?_
    have hne : ringAt q.maxMsgs.toNat q.head.toNat j ≠ q.tail.toNat := by
      rw [h.tail]
      exact ringAt_ne (List.mem_range.mp hj) hused
    show slice (blit q.buffer (q.tail * q.msgSize).toNat data q.msgSize.toNat) _ _ = _
    rw [h.offset h.tail_lt]
    exact slice_blit_ne (slots_disjoint hne)
  · show [slice (blit q.buffer (q.tail * q.msgSize).toNat data q.msgSize.toNat)
      (ringAt q.maxMsgs.toNat q.head.toNat q.used.toNat * q.msgSize.toNat) q.msgSize.toNat] = _
    rw [h.offset h.tail_lt, ← h.tail, slice_blit]
    rfl

theorem Msgq.Ring.head_next (h : q.Ring) :
    ((q.head + 1) % q.maxMsgs).toNat = (q.head.toNat + 1) % q.maxMsgs.toNat := by
  have hhead : q.head < q.maxMsgs := UInt32.lt_iff_toNat_lt.mpr h.head
  rw [UInt32.toNat_mod, toNat_succ hhead]

theorem Msgq.Ring.pop (h : q.Ring) (hu : q.used > 0) : q.pop.Ring := by
  have hpos : 0 < q.used.toNat := UInt32.lt_iff_toNat_lt.mp hu
  have hused := h.used
  refine ⟨h.fits, h.pos, ?_, ?_, ?_⟩
  · show (q.used - 1).toNat ≤ q.maxMsgs.toNat
    rw [toNat_pred hu]
    omega
  · show ((q.head + 1) % q.maxMsgs).toNat < q.maxMsgs.toNat
    rw [h.head_next]
    exact Nat.mod_lt _ h.pos
  · show q.tail.toNat
      = ringAt q.maxMsgs.toNat ((q.head + 1) % q.maxMsgs).toNat (q.used - 1).toNat
    rw [h.head_next, toNat_pred hu, ringAt_next, h.tail]
    congr 1
    omega

/-- A pop drops the oldest message. -/
theorem Msgq.Ring.contents_pop (h : q.Ring) (hu : q.used > 0) :
    q.pop.contents = q.contents.tail := by
  have hpos : 0 < q.used.toNat := UInt32.lt_iff_toNat_lt.mp hu
  obtain ⟨n, hn⟩ := Nat.exists_eq_succ_of_ne_zero (Nat.pos_iff_ne_zero.mp hpos)
  have hpred : q.pop.used.toNat = n := by
    show (q.used - 1).toNat = n
    rw [toNat_pred hu, hn]
    rfl
  rw [Msgq.contents, Msgq.contents, hpred, hn, List.range_succ_eq_map, List.map_cons,
    List.tail_cons, List.map_map]
  refine List.map_congr_left fun j _ => ?_
  show slice q.buffer (ringAt q.maxMsgs.toNat ((q.head + 1) % q.maxMsgs).toNat j * _) _ = _
  rw [h.head_next, ringAt_next]
  rfl

theorem msgqInit_ring {buffer : Mem} {msgSize maxMsgs : UInt32}
    (h : msgqInit buffer msgSize maxMsgs = some q)
    (hfit : msgSize.toNat * maxMsgs.toNat ≤ 2 ^ 32) : q.Ring ∧ q.contents = [] := by
  unfold msgqInit at h
  split at h
  · exact absurd h (by simp)
  · rename_i hz
    obtain rfl := Option.some.inj h
    have hmax : 0 < maxMsgs.toNat := by
      refine Nat.pos_of_ne_zero fun h0 => hz (Or.inr ?_)
      exact UInt32.toNat_inj.mp h0
    refine ⟨⟨hfit, hmax, Nat.zero_le _, hmax, ?_⟩, rfl⟩
    show 0 = ringAt maxMsgs.toNat 0 0
    exact (ringAt_zero hmax).symm

/-! ## Sections -/

/-- An IRQ-locked section on a queue. -/
inductive MsgqOp where
  | put (self : Tid) (data : Nat → UInt8) (timeout : UInt32)
  | putRetry (data : Nat → UInt8)
  | get (self : Tid) (timeout : UInt32)
  | getRetry
  | peek
  | purge

/-- The queue after a section, and what the section's result shows of the channel. -/
def MsgqOp.exec (k : Kernel) (q : Msgq) : MsgqOp → Msgq × Option (Fifo.Event (List UInt8))
  | .put self data timeout =>
      let r := msgqPut k q self data timeout
      (r.2.1, if r.2.2 = .resched .ok then some (.put (q.message data)) else none)
  | .putRetry data =>
      let r := msgqPutRetry q data
      (r.1, if r.2 = .ok then some (.put (q.message data)) else none)
  | .get self timeout =>
      let r := msgqGet k q self timeout
      (r.2.1, match r.2.2 with
        | .resched (.ok, msg) => some (.take msg)
        | _ => none)
  | .getRetry =>
      let r := msgqGetRetry q
      (r.1, if r.2.1 = .ok then some (.take r.2.2) else none)
  | .peek =>
      let r := msgqPeek q
      (q, if r.1 = .ok then some (.look r.2) else none)
  | .purge => ((msgqPurge k q).2, some .purge)

/-- A section keeps the ring, and the channel allows what it shows. -/
theorem MsgqOp.exec_refines (h : q.Ring) (k : Kernel) (op : MsgqOp) :
    (op.exec k q).1.Ring
      ∧ replay q.contents (op.exec k q).2.toList = some (op.exec k q).1.contents := by
  cases op with
  | put self data timeout =>
      unfold MsgqOp.exec msgqPut
      by_cases hu : q.used < q.maxMsgs
      · simp only [hu, if_true]
        refine ⟨⟨h.fits, h.pos, (h.push hu data).used, h.head, (h.push hu data).tail⟩, ?_⟩
        exact congrArg some (h.contents_push hu data).symm
      · simp only [hu, if_false]
        split
        · exact ⟨h, rfl⟩
        · exact ⟨⟨h.fits, h.pos, h.used, h.head, h.tail⟩, rfl⟩
  | putRetry data =>
      unfold MsgqOp.exec msgqPutRetry
      by_cases hu : q.used < q.maxMsgs
      · simp only [hu, if_true]
        exact ⟨h.push hu data, congrArg some (h.contents_push hu data).symm⟩
      · simp only [hu, if_false]
        exact ⟨h, rfl⟩
  | get self timeout =>
      unfold MsgqOp.exec msgqGet
      by_cases hu : q.used > 0
      · simp only [hu, if_true]
        have hp := h.pop hu
        refine ⟨⟨hp.fits, hp.pos, hp.used, hp.head, hp.tail⟩, ?_⟩
        rw [Option.toList_some, replay, observe_take (h.oldest hu), ← h.contents_pop hu]
        rfl
      · simp only [hu, if_false]
        split
        · exact ⟨h, rfl⟩
        · exact ⟨⟨h.fits, h.pos, h.used, h.head, h.tail⟩, rfl⟩
  | getRetry =>
      unfold MsgqOp.exec msgqGetRetry
      by_cases hu : q.used > 0
      · simp only [hu, if_true]
        refine ⟨h.pop hu, ?_⟩
        rw [Option.toList_some, replay, observe_take (h.oldest hu), ← h.contents_pop hu]
        rfl
      · simp only [hu, if_false]
        exact ⟨h, rfl⟩
  | peek =>
      unfold MsgqOp.exec msgqPeek
      by_cases hz : q.used = 0
      · simp only [hz, if_true]
        exact ⟨h, rfl⟩
      · simp only [hz, if_false]
        have hu : q.used > 0 := UInt32.pos_iff_ne_zero.mpr hz
        refine ⟨h, ?_⟩
        rw [if_pos trivial, Option.toList_some, replay, observe_look (h.oldest hu)]
        rfl
  | purge =>
      refine ⟨⟨h.fits, h.pos, Nat.zero_le _, h.pos, ?_⟩, rfl⟩
      show 0 = ringAt q.maxMsgs.toNat 0 0
      exact (ringAt_zero h.pos).symm

/-! ## The machine -/

/-- The section on queue `i` a call starts with. -/
def Call.msgqOp (i : Nat) (self : Tid) : Call → Option MsgqOp
  | .msgqPut j data timeout => if j = i then some (.put self data timeout) else none
  | .msgqGet j timeout => if j = i then some (.get self timeout) else none
  | .msgqPeek j => if j = i then some .peek else none
  | .msgqPurge j => if j = i then some .purge else none
  | _ => none

/-- The section on queue `i` a call goes on with. -/
def After.msgqOp (i : Nat) : After → Option MsgqOp
  | .msgqPutRetry j data => if j = i then some (.putRetry data) else none
  | .msgqGetRetry j => if j = i then some .getRetry else none
  | _ => none

/-- The section on queue `i` that a step is. -/
def Sys.msgqOp (s : Sys) (i : Nat) : Sys.Label → Option MsgqOp
  | .call c => s.k.current.bind fun self => c.msgqOp i self
  | .cont => s.k.current.bind fun self =>
      match s.pc self with
      | .at a => a.msgqOp i
      | _ => none
  | _ => none

/-- Queue `i` after the section, if there is one. -/
def Sys.msgqAfter (s : Sys) (i : Nat) (op : Option MsgqOp) : Msgq :=
  match op with
  | some op => (op.exec s.k (s.msgq i)).1
  | none => s.msgq i

@[simp] theorem setPc_msgq (s : Sys) (t : Tid) (p : Pc) : (s.setPc t p).msgq = s.msgq := rfl

theorem Sys.enter_msgq {cfg : Config} {s s' : Sys} {self : Tid} {c : Call}
    (h : s.enter cfg self c = some s') (i : Nat) :
    s'.msgq i = s.msgqAfter i (c.msgqOp i self) := by
  cases c with
  | msgqPut j data timeout =>
      obtain rfl := Option.some.inj h
      by_cases hij : j = i
      · subst hij; simp [Call.msgqOp, Sys.msgqAfter, MsgqOp.exec]
      · simp [Call.msgqOp, Sys.msgqAfter, hij, Ne.symm hij]
  | msgqGet j timeout =>
      obtain rfl := Option.some.inj h
      by_cases hij : j = i
      · subst hij; simp [Call.msgqOp, Sys.msgqAfter, MsgqOp.exec]
      · simp [Call.msgqOp, Sys.msgqAfter, hij, Ne.symm hij]
  | msgqPeek j =>
      obtain rfl := Option.some.inj h
      by_cases hij : j = i <;> simp [Call.msgqOp, Sys.msgqAfter, MsgqOp.exec, hij]
  | msgqPurge j =>
      obtain rfl := Option.some.inj h
      by_cases hij : j = i
      · subst hij; simp [Call.msgqOp, Sys.msgqAfter, MsgqOp.exec]
      · simp [Call.msgqOp, Sys.msgqAfter, hij, Ne.symm hij]
  | threadCreate t entry arg attr stack heapStack =>
      obtain rfl := Option.some.inj h
      split <;> rfl
  | threadResume t => cases t <;> (obtain rfl := Option.some.inj h; rfl)
  | mutexLock m timeout =>
      obtain ⟨r, -, rfl⟩ := Option.map_eq_some_iff.mp h
      rfl
  | _ =>
      obtain rfl := Option.some.inj h
      rfl

theorem Sys.resume_msgq (s : Sys) (self : Tid) (a : After) (i : Nat) :
    (s.resume self a).msgq i = s.msgqAfter i (a.msgqOp i) := by
  cases a with
  | msgqPutRetry j data =>
      by_cases hij : j = i
      · subst hij; simp [Sys.resume, After.msgqOp, Sys.msgqAfter, MsgqOp.exec]
      · simp [Sys.resume, After.msgqOp, Sys.msgqAfter, hij, Ne.symm hij]
  | msgqGetRetry j =>
      by_cases hij : j = i
      · subst hij; simp [Sys.resume, After.msgqOp, Sys.msgqAfter, MsgqOp.exec]
      · simp [Sys.resume, After.msgqOp, Sys.msgqAfter, hij, Ne.symm hij]
  | pipeWrite p src written timeout stopAt =>
      rw [Sys.resume]
      split <;> rfl
  | pipeRead p len dst readCnt timeout stopAt =>
      rw [Sys.resume]
      split <;> rfl
  | _ => rfl

/-- A step of the machine acts on a queue through at most one section. -/
theorem Sys.step_msgq {cfg : Config} {s s' : Sys} {l : Sys.Label} (h : s.step cfg l = some s')
    (i : Nat) : s'.msgq i = s.msgqAfter i (s.msgqOp i l) := by
  cases l with
  | boot t entry arg attr stack heapStack =>
      rw [Sys.step] at h
      split at h
      · exact absurd h (by simp)
      · obtain rfl := Option.some.inj h
        split <;> rfl
  | start =>
      rw [Sys.step] at h
      split at h
      · exact absurd h (by simp)
      · obtain rfl := Option.some.inj h
        rfl
  | call c =>
      rw [Sys.step] at h
      split at h
      · exact absurd h (by simp)
      · rename_i self hself
        split at h
        · rw [Sys.msgqOp, hself]
          exact Sys.enter_msgq h i
        · exact absurd h (by simp)
  | cont =>
      rw [Sys.step] at h
      split at h
      · exact absurd h (by simp)
      · rename_i self hself
        split at h
        · exact absurd h (by simp)
        · rename_i a ha
          obtain rfl := Option.some.inj h
          rw [Sys.msgqOp, hself, Option.bind_some, ha]
          rfl
        · rename_i a ha
          obtain rfl := Option.some.inj h
          rw [Sys.msgqOp, hself, Option.bind_some, ha]
          exact Sys.resume_msgq s self a i
  | tick =>
      obtain rfl := Option.some.inj h
      rfl
  | isrSemGive j =>
      obtain rfl := Option.some.inj h
      split <;> rfl
  | isrEventPost j flags =>
      obtain rfl := Option.some.inj h
      rfl

/-- What a run shows of queue `i`, in commit order. -/
def Sys.history (cfg : Config) (i : Nat) : Sys → List Sys.Label → List (Fifo.Event (List UInt8))
  | _, [] => []
  | s, l :: ls =>
      match s.step cfg l with
      | none => []
      | some s' =>
          ((s.msgqOp i l).bind fun op => (op.exec s.k (s.msgq i)).2).toList
            ++ Sys.history cfg i s' ls

theorem msgq_run {cfg : Config} {i : Nat} {labels : List Sys.Label} : ∀ {s s' : Sys},
    (s.msgq i).Ring → run (Sys.step cfg) s labels = some s' →
    (s'.msgq i).Ring
      ∧ replay (s.msgq i).contents (Sys.history cfg i s labels) = some (s'.msgq i).contents := by
  induction labels with
  | nil =>
    intro s s' h hr
    obtain rfl := Option.some.inj hr
    exact ⟨h, rfl⟩
  | cons l ls ih =>
    intro s s' h hr
    obtain ⟨t, ht, hr'⟩ := run_cons.mp hr
    have hq := Sys.step_msgq ht i
    rw [Sys.history, ht]
    dsimp only
    cases hop : s.msgqOp i l with
    | none =>
        rw [hop] at hq
        obtain ⟨hring, hrep⟩ := ih (by rw [hq]; exact h) hr'
        rw [hq] at hrep
        exact ⟨hring, hrep⟩
    | some op =>
        rw [hop] at hq
        obtain ⟨hone, hobs⟩ := op.exec_refines h s.k
        obtain ⟨hring, hrep⟩ := ih (by rw [hq]; exact hone) hr'
        rw [hq] at hrep
        refine ⟨hring, ?_⟩
        rw [replay_append, Option.bind_some, hobs]
        exact hrep

/--
**A message queue is a FIFO channel.**

From `vibe_msgq_init` on, whatever any threads do in whatever order, the indices
stay those of a ring, and the log of committed puts, gets, peeks and purges is one
a FIFO channel allows, ending with the messages in the ring. So every get and peek
shows the oldest message, and the messages put since the last purge are those taken
since, followed by those still in the ring.
-/
theorem msgq_fifo {cfg : Config} {s s' : Sys} {labels : List Sys.Label} {i : Nat}
    {buffer : Mem} {msgSize maxMsgs : UInt32}
    (hinit : msgqInit buffer msgSize maxMsgs = some (s.msgq i))
    (hfit : msgSize.toNat * maxMsgs.toNat ≤ 2 ^ 32)
    (hr : run (Sys.step cfg) s labels = some s') :
    let q := s'.msgq i
    let log := Sys.history cfg i s labels
    (q.used ≤ q.maxMsgs ∧ q.head < q.maxMsgs ∧ q.tail < q.maxMsgs
        ∧ q.tail.toNat = (q.head.toNat + q.used.toNat) % q.maxMsgs.toNat)
      ∧ replay [] log = some q.contents
      ∧ puts [] log = takes [] log ++ q.contents := by
  obtain ⟨hring, hempty⟩ := msgqInit_ring hinit hfit
  obtain ⟨hring', hrep⟩ := msgq_run hring hr
  rw [hempty] at hrep
  refine ⟨⟨?_, ?_, ?_, hring'.tail⟩, hrep, puts_eq_takes_append [] hrep⟩
  · exact UInt32.le_iff_toNat_le.mpr hring'.used
  · exact UInt32.lt_iff_toNat_lt.mpr hring'.head
  · exact UInt32.lt_iff_toNat_lt.mpr hring'.tail_lt

/-- Before the scheduler starts, with a queue of two messages of two bytes. -/
def twoMessages : Sys :=
  { Sys.bss ⟨1000, 10, true⟩ (fun _ => threadDefine [] 512 0 0 0 5) none with
    msgq := fun _ => ⟨fun _ => 0, 2, 2, 0, 0, 0, listInit, listInit⟩ }

/-- Thread 1 fills the queue and blocks with a third message; thread 2 takes one and yields; the put
is retried, and thread 1 takes one as well. -/
def blockedPut : List Sys.Label :=
  [.boot 1 0x100 0 (some ⟨512, 5, none, true, -1⟩) (some 0x2000) none,
    .boot 2 0x100 0 (some ⟨512, 5, none, true, -1⟩) (some 0x3000) none, .start,
    .call (.msgqPut 0 (fun j => UInt8.ofNat (1 + j)) 0), .cont, .cont,
    .call (.msgqPut 0 (fun j => UInt8.ofNat (3 + j)) 0), .cont, .cont,
    .call (.msgqPut 0 (fun j => UInt8.ofNat (5 + j)) waitForever), .cont,
    .call (.msgqGet 0 0), .cont, .cont, .call .threadYield, .cont,
    .cont, .cont, .call (.msgqGet 0 0)]

/-- **Three messages through two slots**: the third is put by the retry of the blocked call, in the
slot that the first one left. -/
theorem msgq_fifo_blocked :
    ∃ s', run (Sys.step ⟨1000, 10, true⟩) twoMessages blockedPut = some s'
      ∧ Sys.history ⟨1000, 10, true⟩ 0 twoMessages blockedPut
        = [.put [1, 2], .put [3, 4], .take [1, 2], .put [5, 6], .take [3, 4]]
      ∧ (s'.msgq 0).contents = [[5, 6]]
      ∧ ((s'.msgq 0).used ≤ (s'.msgq 0).maxMsgs ∧ (s'.msgq 0).head < (s'.msgq 0).maxMsgs
        ∧ (s'.msgq 0).tail < (s'.msgq 0).maxMsgs ∧ (s'.msgq 0).tail.toNat
          = ((s'.msgq 0).head.toNat + (s'.msgq 0).used.toNat) % (s'.msgq 0).maxMsgs.toNat)
      ∧ puts [] (Sys.history ⟨1000, 10, true⟩ 0 twoMessages blockedPut)
        = takes [] (Sys.history ⟨1000, 10, true⟩ 0 twoMessages blockedPut) ++ [[5, 6]] := by
  obtain ⟨s', hrun, hleft⟩ : ∃ s', run (Sys.step ⟨1000, 10, true⟩) twoMessages blockedPut = some s'
      ∧ (s'.msgq 0).contents = [[5, 6]] :=
    Option.map_eq_some_iff.mp (by decide +kernel)
  have hlog : Sys.history ⟨1000, 10, true⟩ 0 twoMessages blockedPut
      = [.put [1, 2], .put [3, 4], .take [1, 2], .put [5, 6], .take [3, 4]] := by decide +kernel
  have hinit : msgqInit (fun _ => 0) 2 2 = some (twoMessages.msgq 0) := rfl
  obtain ⟨hring, -, hfifo⟩ := msgq_fifo hinit (by decide) hrun
  rw [hleft] at hfifo
  exact ⟨s', hrun, hlog, hleft, hring, hfifo⟩

end VibeRtos
