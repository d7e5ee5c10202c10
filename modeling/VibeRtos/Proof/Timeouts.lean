import VibeRtos.Kernel.System
import VibeRtos.Lib.Runs

/-!
# Finite timeouts

A blocking call stores its deadline and links the caller on a wait list. The tick
handler only looks at the sleep list, so the deadline is never acted upon: whatever
the primitive and the state it blocks in, after any number of ticks the caller is
still linked on the wait list.
-/

namespace VibeRtos

open Links Kernel ByteMem Runs

/-! ## Ticks leave the wait lists alone -/

theorem wakeLoop_waitNode (now : UInt32) :
    ∀ (fuel : Nat) (k : Kernel) (o : Option Tid), (wakeLoop now fuel k o).waitNode = k.waitNode
  | 0, _, _ => rfl
  | _ + 1, _, none => rfl
  | fuel + 1, k, some t => by
      rw [wakeLoop]
      split
      · exact wakeLoop_waitNode now fuel _ _
      · rfl

theorem schedTimesliceTick_waitNode (cfg : Config) (k : Kernel) :
    (k.schedTimesliceTick cfg).waitNode = k.waitNode := by
  unfold schedTimesliceTick
  split
  · rfl
  · split
    · rfl
    · split
      · rfl
      · split
        · rfl
        · dsimp only
          split <;> rfl

theorem schedReschedule_waitNode (k : Kernel) : k.schedReschedule.waitNode = k.waitNode := by
  unfold schedReschedule
  split
  · rfl
  · split
    · rfl
    · split
      · rfl
      · exact switchTo_waitNode k _

theorem sysTickHandler_waitNode (cfg : Config) (k : Kernel) :
    (sysTickHandler cfg k).waitNode = k.waitNode := by
  unfold sysTickHandler schedWakeExpired
  rw [schedReschedule_waitNode, schedTimesliceTick_waitNode, wakeLoop_waitNode]

/-! ## Wait lists -/

/-- A pointer of the list leads to `t`. -/
def Linked (mem : Tid → Link Tid) (l : VList Tid) (t : Tid) : Prop :=
  l.head = some t ∨ l.tail = some t ∨ ∃ u, (mem u).next = some t

theorem linked_append (mem : Tid → Link Tid) (l : VList Tid) (t : Tid) :
    Linked (listAppend mem l t).1 (listAppend mem l t).2 t := by
  refine Or.inr (Or.inl ?_)
  unfold listAppend
  cases l.tail <;> rfl

theorem linked_insertAfter (mem : Tid → Link Tid) (l : VList Tid) (after t : Tid) :
    Linked (listInsertAfter mem l after t).1 (listInsertAfter mem l after t).2 t := by
  refine Or.inr (Or.inr ⟨after, ?_⟩)
  unfold listInsertAfter
  simp [setNext]

theorem linked_mutexQueue {k k' : Kernel} {l l' : VList Tid} {self : Tid}
    (h : mutexQueue k l self = some (k', l')) : Linked k'.waitNode l' self := by
  unfold mutexQueue at h
  split at h
  · split at h
    · obtain ⟨rfl, rfl⟩ := Prod.mk.inj (Option.some.inj h)
      exact linked_insertAfter _ _ _ _
    · exact absurd h (by simp)
  · obtain ⟨rfl, rfl⟩ := Prod.mk.inj (Option.some.inj h)
    exact linked_append _ _ _

/-! ## Blocking -/

/-- In state `s` the call that `self` makes, or is inside of, with timeout `T` must block; it
leaves state `s'`, with `self` on `list`, and would return `r` on a timeout. -/
inductive Blocks (cfg : Config) (s : Sys) (self : Tid) (T : UInt32) :
    WaitList → Ret → Sys → Prop where
  | mutexLock {s' : Sys} (i : Nat) (owner : Tid) (howner : (s.mutex i).owner = some owner)
      (hne : owner ≠ self) (hT : T ≠ noWait)
      (hs : s.enter cfg self (.mutexLock i T) = some s') :
      Blocks cfg s self T (.mutex i) (.err .etimeout) s'
  | semTake {s' : Sys} (i : Nat) (hfull : ¬ (s.sem i).count > 0) (hT : T ≠ noWait)
      (hs : s.enter cfg self (.semTake i T) = some s') :
      Blocks cfg s self T (.sem i) (.err .etimeout) s'
  | msgqPut {s' : Sys} (i : Nat) (data : Nat → UInt8)
      (hfull : ¬ (s.msgq i).used < (s.msgq i).maxMsgs) (hT : T ≠ noWait)
      (hs : s.enter cfg self (.msgqPut i data T) = some s') :
      Blocks cfg s self T (.msgqWrite i) (.err .etimeout) s'
  | msgqGet {s' : Sys} (i : Nat) (hempty : ¬ (s.msgq i).used > 0) (hT : T ≠ noWait)
      (hs : s.enter cfg self (.msgqGet i T) = some s') :
      Blocks cfg s self T (.msgqRead i) (.msg .etimeout []) s'
  | eventWait {s' : Sys} (i : Nat) (flags : UInt32) (mode : EventWaitMode) (hflags : flags ≠ 0)
      (hunsat : ¬ flagsSatisfied (s.event i).flags flags mode) (hT : T ≠ noWait)
      (hs : s.enter cfg self (.eventWait i flags mode T) = some s') :
      Blocks cfg s self T (.event i) (.err .etimeout) s'
  | memPoolAlloc {s' : Sys} (i : Nat) (hempty : (s.pool i).freeList = 0) (hT : T ≠ noWait)
      (hs : s.enter cfg self (.memPoolAlloc i T) = some s') :
      Blocks cfg s self T (.pool i) (.ptr 0) s'
  | pipeWrite (i : Nat) (src : List UInt8) (written : Nat) (stopAt : UInt32)
      (hmore : written < src.length) (hfull : ¬ (s.pipe i).size - (s.pipe i).used > 0)
      (hT : T ≠ noWait) (hwait : ¬ (stopAt ≠ waitForever ∧ s.k.tickCount ≥ stopAt)) :
      Blocks cfg s self T (.pipeWrite i) (.count (intOfSize written))
        (s.resume self (.pipeWrite i src written T stopAt))
  | pipeRead (i len : Nat) (dst : Mem) (stopAt : UInt32) (hmore : 0 < len)
      (hempty : ¬ (s.pipe i).used > 0) (hT : T ≠ noWait)
      (hwait : ¬ (stopAt ≠ waitForever ∧ s.k.tickCount ≥ stopAt)) :
      Blocks cfg s self T (.pipeRead i) (.read 0 [])
        (s.resume self (.pipeRead i len dst 0 T stopAt))

/-- A step that may release a waiter of the list. -/
def Sys.Releases (s : Sys) : WaitList → Sys.Label → Prop
  | .mutex i, .call (.mutexUnlock j) => i = j
  | .sem i, .call (.semGive j) => i = j
  | .sem i, .isrSemGive j => i = j
  | .msgqRead i, .call (.msgqPut j ..) => i = j
  | .msgqWrite i, .call (.msgqGet j _) => i = j
  | .msgqWrite i, .call (.msgqPurge j) => i = j
  | .event i, .call (.eventPost j _) => i = j
  | .event i, .isrEventPost j _ => i = j
  | .pool i, .call (.memPoolFree j _) => i = j
  | .pipeRead i, .cont => ∃ t src written T stopAt, s.k.current = some t
      ∧ s.pc t = .at (.pipeWrite i src written T stopAt)
  | .pipeWrite i, .cont => ∃ t len dst readCnt T stopAt, s.k.current = some t
      ∧ s.pc t = .at (.pipeRead i len dst readCnt T stopAt)
  | _, _ => False

def Sys.Label.isTick : Sys.Label → Bool
  | .tick => true
  | _ => false

/-- After the call blocked in state `s`: whatever happens, once `T` ticks have passed without a
release the caller is in a run queue, off the wait list, and about to return `r`. -/
def TimeoutHonoured (cfg : Config) (s : Sys) (self : Tid) (T : UInt32) (list : WaitList)
    (r : Ret) : Prop :=
  ∀ labels s', run (Sys.step cfg) s labels = some s' →
    Along (Sys.step cfg) (fun s l => ¬ s.Releases list l) s labels →
    (labels.filter Sys.Label.isTick).length = T.toNat →
    (∃ p, self ∈ listNodes s'.k.schedNode (s'.k.runQueues p))
      ∧ ¬ Linked s'.k.waitNode (list.anchor s') self
      ∧ ∀ more s'' q, run (Sys.step cfg) s' more = some s'' →
          Always (Sys.step cfg) (fun s => s.pc self ≠ .user) s' more →
          s''.pc self = .at (.ret q) → q = r

/-- A caller that blocks is linked on the wait list. -/
theorem Blocks.linked {cfg : Config} {s s' : Sys} {self : Tid} {T : UInt32} {list : WaitList}
    {r : Ret} (h : Blocks cfg s self T list r s') :
    Linked s'.k.waitNode (list.anchor s') self := by
  cases h with
  | mutexLock i owner howner hne hT hs =>
      obtain ⟨⟨k', m', f⟩, hl, rfl⟩ := Option.map_eq_some_iff.mp hs
      unfold VibeRtos.mutexLock at hl
      rw [if_neg (fun he => hne (Option.some.inj (howner.symm.trans he))), howner] at hl
      simp only [hT, if_false] at hl
      obtain ⟨⟨k₁, l⟩, hq, heq⟩ := Option.map_eq_some_iff.mp hl
      obtain ⟨rfl, rfl, rfl⟩ := by simpa using heq
      have hlinked := linked_mutexQueue hq
      simpa [WaitList.anchor, Sys.setPc] using hlinked
  | semTake i hfull hT hs =>
      obtain rfl := Option.some.inj hs
      simp only [WaitList.anchor, Sys.setPc, VibeRtos.semTake, hfull, hT, if_false,
        Function.update_self]
      exact linked_append _ _ _
  | msgqPut i data hfull hT hs =>
      obtain rfl := Option.some.inj hs
      simp only [WaitList.anchor, Sys.setPc, VibeRtos.msgqPut, hfull, hT, if_false,
        Function.update_self]
      exact linked_append _ _ _
  | msgqGet i hempty hT hs =>
      obtain rfl := Option.some.inj hs
      simp only [WaitList.anchor, Sys.setPc, VibeRtos.msgqGet, hempty, hT, if_false,
        Function.update_self]
      exact linked_append _ _ _
  | eventWait i flags mode hflags hunsat hT hs =>
      obtain rfl := Option.some.inj hs
      simp only [WaitList.anchor, Sys.setPc, VibeRtos.eventWait, hflags, hunsat, hT, if_false,
        Function.update_self]
      exact linked_append _ _ _
  | memPoolAlloc i hempty hT hs =>
      obtain rfl := Option.some.inj hs
      simp only [WaitList.anchor, Sys.setPc, VibeRtos.memPoolAlloc, hempty, hT, if_false,
        Function.update_self, ne_eq, not_true_eq_false]
      exact linked_append _ _ _
  | pipeWrite i src written stopAt hmore hfull hT hwait =>
      simp only [WaitList.anchor, Sys.resume, hmore, if_true, Sys.setPc, pipeWriteRound, hfull, hT,
        hwait, if_false, Function.update_self]
      exact linked_append _ _ _
  | pipeRead i len dst stopAt hmore hempty hT hwait =>
      simp only [WaitList.anchor, Sys.resume, hmore, if_true, Sys.setPc, pipeReadRound, hempty, hT,
        hwait, if_false, false_or, gt_iff_lt, Nat.lt_irrefl, Function.update_self]
      exact linked_append _ _ _

/-! ## Ticks alone -/

/-- A run of ticks is possible in any state, and leaves every wait list alone. -/
theorem run_ticks (cfg : Config) (n : Nat) : ∀ s : Sys,
    ∃ s', run (Sys.step cfg) s (List.replicate n .tick) = some s'
      ∧ s'.k.waitNode = s.k.waitNode ∧ ∀ list : WaitList, list.anchor s' = list.anchor s := by
  induction n with
  | zero => exact fun s => ⟨s, rfl, rfl, fun _ => rfl⟩
  | succ n ih =>
    intro s
    obtain ⟨s', hr, hnode, hanchor⟩ := ih { s with k := sysTickHandler cfg s.k }
    refine ⟨s', ?_, ?_, fun list => ?_⟩
    · rw [List.replicate_succ]
      exact run_cons.mpr ⟨_, rfl, hr⟩
    · rw [hnode]
      exact sysTickHandler_waitNode cfg s.k
    · rw [hanchor list]
      cases list <;> rfl

theorem along_ticks (cfg : Config) (n : Nat) (list : WaitList) : ∀ s : Sys,
    Along (Sys.step cfg) (fun s l => ¬ s.Releases list l) s (List.replicate n .tick) := by
  induction n with
  | zero => exact fun _ => trivial
  | succ n ih =>
    intro s
    rw [List.replicate_succ]
    refine ⟨?_, fun s' _ => ih s'⟩
    cases list <;> exact id

theorem filter_ticks (n : Nat) :
    ((List.replicate n Sys.Label.tick).filter Sys.Label.isTick).length = n := by
  rw [List.filter_replicate]
  exact List.length_replicate

/-- A caller that is linked on the list when it blocks is still linked after the ticks. -/
theorem linked_not_honoured {cfg : Config} {s : Sys} {self : Tid} {T : UInt32} {list : WaitList}
    {r : Ret} (h : Linked s.k.waitNode (list.anchor s) self) :
    ¬ TimeoutHonoured cfg s self T list r := by
  intro hhon
  obtain ⟨s', hr, hnode, hanchor⟩ := run_ticks cfg T.toNat s
  have hoff := (hhon _ s' hr (along_ticks cfg _ list s) (filter_ticks _)).2.1
  rw [hnode, hanchor list] at hoff
  exact hoff h

/--
**No finite timeout is ever honoured.**

For each of the eight blocking primitives, in every state in which the call must
block and for every timeout, the ticks go by and the caller stays on the wait list.
-/
theorem timeout_never_honoured {cfg : Config} {s s' : Sys} {self : Tid} {T : UInt32}
    {list : WaitList} {r : Ret} (h : Blocks cfg s self T list r s') :
    ¬ TimeoutHonoured cfg s' self T list r :=
  linked_not_honoured h.linked

/-- Taking an empty semaphore with a timeout of 5 ticks. -/
theorem timeout_never_honoured_sem :
    ∃ s', Sys.enter ⟨1000, 10, true⟩
        (Sys.bss ⟨1000, 10, true⟩ (fun _ => threadDefine [] 512 0 0 0 5) none) 1 (.semTake 0 5)
        = some s'
      ∧ ¬ TimeoutHonoured ⟨1000, 10, true⟩ s' 1 5 (.sem 0) (.err .etimeout) :=
  ⟨_, rfl, timeout_never_honoured (Blocks.semTake 0 (by decide) (by decide) rfl)⟩

/-- Thread 1 takes an empty semaphore with a timeout of 5 ticks and blocks; 20 ticks later it is
still WAITING at the head of the wait list and in no run queue. -/
theorem sem_take_outlives_timeout :
    let s₀ := Sys.bss ⟨1000, 10, true⟩ (fun _ => threadDefine [] 512 0 0 0 5) (some 9)
    let blocked := [.boot 9 0x200 0 (some ⟨256, 0, none, true, -1⟩) (some 0x1000) none,
      .boot 1 0x100 0 (some ⟨512, 5, none, true, -1⟩) (some 0x2000) none, .start,
      .call (.semTake 0 5)]
    (∃ s, run (Sys.step ⟨1000, 10, true⟩) s₀ blocked = some s
        ∧ ¬ TimeoutHonoured ⟨1000, 10, true⟩ s 1 5 (.sem 0) (.err .etimeout))
      ∧ ∃ s, run (Sys.step ⟨1000, 10, true⟩) s₀ (blocked ++ .cont :: List.replicate 20 .tick)
          = some s
        ∧ (s.sem 0).waitList.head = some 1 ∧ (s.k.thr 1).state = .waiting
        ∧ (s.k.runQueues 5).head = none := by
  intro s₀ blocked
  obtain ⟨s, hrun, hhead⟩ : ∃ s, run (Sys.step ⟨1000, 10, true⟩) s₀ blocked = some s
      ∧ (s.sem 0).waitList.head = some 1 := Option.map_eq_some_iff.mp (by decide +kernel)
  obtain ⟨s', hrun', hfacts⟩ : ∃ s, run (Sys.step ⟨1000, 10, true⟩) s₀
      (blocked ++ .cont :: List.replicate 20 .tick) = some s
      ∧ ((s.sem 0).waitList.head, (s.k.thr 1).state, (s.k.runQueues 5).head)
        = (some 1, .waiting, none) := Option.map_eq_some_iff.mp (by decide +kernel)
  refine ⟨⟨s, hrun, linked_not_honoured (Or.inl hhead)⟩, s', hrun', ?_⟩
  simpa using hfacts

end VibeRtos
