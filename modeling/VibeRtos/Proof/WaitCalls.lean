import VibeRtos.Proof.SemTokens
import VibeRtos.Proof.Spare
import VibeRtos.Proof.WaitLists

/-!
# Kernel calls and the wait lists

Every section of a kernel call leaves the wait lists alone, takes threads off one of
them, or links its caller on one, and its caller was on none. `Fair` records, next to
the lists, who may become the owner of a mutex and who starts to wait for a token.
-/

namespace VibeRtos

open Links Kernel ByteMem

/-- Inside a take that has blocked. -/
def Pc.InTake (p : Pc) : Prop := p = .resched .semTakeWake ∨ p = .at .semTakeWake

/-- What a step does to the lists `xs`: who leaves one is released from it, a mutex goes to its
locker or to one of its waiters, and a take that blocks is on a list. -/
structure Fair (s : Sys) (l : Sys.Label) (s' : Sys) (xs ys : WaitList → List Tid) : Prop where
  left : ∀ {L : WaitList} {t}, t ∈ xs L → t ∉ ys L → L.ReleasedBy s l
  owner : ∀ {m t}, (s'.mutex m).owner = some t → (s.mutex m).owner = some t
    ∨ (∃ timeout, l = .call (.mutexLock m timeout) ∧ s.k.current = some t) ∨ t ∈ xs (.mutex m)
  took : ∀ {t}, (s'.pc t).InTake → (s.pc t).InTake ∨ ∃ i, t ∈ ys (.sem i)

/-- No waiter's program point changes, and nobody starts to wait for a token. -/
structure Quiet (s s' : Sys) (xs : WaitList → List Tid) : Prop where
  waiters : ∀ M, ∀ t ∈ xs M, s'.pc t = s.pc t
  took : ∀ t, (s'.pc t).InTake → (s.pc t).InTake

variable {cfg : Config} {s s' : Sys} {xs ys : WaitList → List Tid} {L : WaitList} {self t : Tid}
  {l : Sys.Label} {p : Pc}

theorem Quiet.refl (h : s'.pc = s.pc) : Quiet s s' xs :=
  ⟨fun _ _ _ => by rw [h], fun t => by rw [h]; exact id⟩

/-- The thread moves that is on no list. -/
theorem Quiet.move (hself : ∀ M, self ∉ xs M) (hpc : s'.pc = Function.update s.pc self p)
    (hp : ¬ p.InTake) : Quiet s s' xs := by
  refine ⟨fun M t ht => ?_, fun t ht => ?_⟩
  · have hne : t ≠ self := fun he => hself M (he ▸ ht)
    rw [hpc, Function.update_of_ne hne]
  · rw [hpc] at ht
    by_cases hts : t = self
    · subst hts
      rw [Function.update_self] at ht
      exact absurd ht hp
    · rwa [Function.update_of_ne hts] at ht

theorem not_inTake_ret (r : Ret) : ¬ (Pc.at (.ret r)).InTake := by simp [Pc.InTake]

theorem not_inTake_resched (r : Ret) : ¬ (Pc.resched (.ret r)).InTake := by simp [Pc.InTake]

theorem not_inTake_user : ¬ Pc.user.InTake := by simp [Pc.InTake]

namespace Waiters

/-! ## The three kinds of sections -/

/-- The lists stay as they are. -/
theorem stays (h : Waiters s xs) (hk : SparesLinked xs s.k s'.k)
    (hcur : s'.k.current = s.k.current) (hanchor : ∀ M : WaitList, M.anchor s' = M.anchor s)
    (howner : ∀ {m t}, (s'.mutex m).owner = some t → (s.mutex m).owner = some t
      ∨ (∃ timeout, l = .call (.mutexLock m timeout) ∧ s.k.current = some t) ∨ t ∈ xs (.mutex m))
    (hq : Quiet s s' xs) : ∃ ys, Waiters s' ys ∧ Fair s l s' xs ys :=
  ⟨xs, h.same hk hcur hanchor hq.waiters,
    fun hin hout => absurd hin hout, howner, fun ht => Or.inl (hq.took _ ht)⟩

/-- Threads are taken off `L`. -/
theorem releases (h : Waiters s xs) {zs : List Tid}
    (hr : Releases s.k (xs L) s'.k (L.anchor s') zs)
    (hanchor : ∀ M : WaitList, M ≠ L → M.anchor s' = M.anchor s) (hL : L.ReleasedBy s l)
    (howner : ∀ {m t}, (s'.mutex m).owner = some t → (s.mutex m).owner = some t
      ∨ (∃ timeout, l = .call (.mutexLock m timeout) ∧ s.k.current = some t) ∨ t ∈ xs (.mutex m))
    (hq : Quiet s s' xs) : ∃ ys, Waiters s' ys ∧ Fair s l s' xs ys := by
  refine ⟨_, h.release hr hanchor hq.waiters, fun {M t} hin hout => ?_, howner,
    fun ht => Or.inl (hq.took _ ht)⟩
  by_cases hM : M = L
  · exact hM ▸ hL
  · rw [Function.update_of_ne hM] at hout
    exact absurd hin hout

/-- The current thread is linked on `L`. -/
theorem blocks (h : Waiters s xs) (L : WaitList) (a : After) {zs : List Tid}
    (hself : ∀ M, self ∉ xs M)
    (hL : ListRep s'.k.waitNode (L.anchor s') zs) (hzs : ∀ t, t ∈ zs ↔ t = self ∨ t ∈ xs L)
    (hwait : (s'.k.thr self).state = .waiting)
    (hnode : ∀ t, t ∉ xs L → t ≠ self → s'.k.waitNode t = s.k.waitNode t)
    (hstate : ∀ t, t ≠ self → (s.k.thr t).state = .waiting → (s'.k.thr t).state = .waiting)
    (hcur : s'.k.current = s.k.current)
    (hanchor : ∀ M : WaitList, M ≠ L → M.anchor s' = M.anchor s) (ha : L.Wakes a)
    (howner : ∀ m, (s'.mutex m).owner = (s.mutex m).owner)
    (hpc : s'.pc = Function.update s.pc self (.resched a)) :
    ∃ ys, Waiters s' ys ∧ Fair s l s' xs ys := by
  refine ⟨_, h.block hself hL hzs hwait hnode hstate hcur hanchor ha hpc, fun {M t} hin hout => ?_,
    fun {m t} ho => Or.inl (howner m ▸ ho), fun {t} ht => ?_⟩
  · by_cases hM : M = L
    · subst hM
      rw [Function.update_self] at hout
      exact absurd ((hzs t).mpr (Or.inr hin)) hout
    · rw [Function.update_of_ne hM] at hout
      exact absurd hin hout
  · rw [hpc] at ht
    by_cases hts : t = self
    · -- only a semaphore's list wakes at the end of a take
      subst hts
      rw [Function.update_self] at ht
      obtain rfl : a = .semTakeWake := by
        rcases ht with ht | ht
        · exact Pc.resched.inj ht
        · exact absurd ht (by simp)
      cases L with
      | sem i => exact Or.inr ⟨i, by rw [Function.update_self]; exact (hzs t).mpr (Or.inl rfl)⟩
      | _ => exact absurd ha (by simp [WaitList.Wakes])
    · rw [Function.update_of_ne hts] at ht
      exact Or.inl ht

/-- The same at the end of the list, as every primitive but the mutex does it. -/
theorem blocks_append (h : Waiters s xs) (L : WaitList) (a : After) {stop : UInt32}
    (hself : ∀ M, self ∉ xs M)
    (hk : s'.k = ((s.k.block self stop).waitAppend (L.anchor s) self).1)
    (hL : L.anchor s' = ((s.k.block self stop).waitAppend (L.anchor s) self).2)
    (hanchor : ∀ M : WaitList, M ≠ L → M.anchor s' = M.anchor s) (ha : L.Wakes a)
    (hmutex : s'.mutex = s.mutex) (hpc : s'.pc = Function.update s.pc self (.resched a)) :
    ∃ ys, Waiters s' ys ∧ Fair s l s' xs ys := by
  have hp := (h.parked L).park (hself L) stop
  rw [← hk, ← hL] at hp
  refine h.blocks L a hself hp.rep (fun t => ?_) (hp.waiting self (by simp)) (fun t ht hne => ?_)
    (fun t hne hw => ?_) (by rw [hk]; rfl) hanchor ha (fun m => by rw [hmutex]) hpc
  · simp [or_comm]
  · rw [hk]
    exact (h.parked L).rep.append_frame ht hne
  · rw [hk]
    show ((s.k.block self stop).thr t).state = _
    rw [Kernel.block, modThread_of_ne _ _ _ hne]
    exact hw

end Waiters

/-! ## Where the anchors are -/

/-- The objects of `s'` are those of `s`, for one kind at most with another one at `i`. -/
inductive Objects (s s' : Sys) : WaitList → Prop where
  | none {L : WaitList} (hm : s'.mutex = s.mutex) (hs : s'.sem = s.sem) (hq : s'.msgq = s.msgq)
      (he : s'.event = s.event) (hp : s'.pool = s.pool) (hi : s'.pipe = s.pipe) : Objects s s' L
  | mutex (i : Nat) (v : Mutex) (hm : s'.mutex = Function.update s.mutex i v) (hs : s'.sem = s.sem)
      (hq : s'.msgq = s.msgq) (he : s'.event = s.event) (hp : s'.pool = s.pool)
      (hi : s'.pipe = s.pipe) : Objects s s' (.mutex i)
  | sem (i : Nat) (v : Sem) (hm : s'.mutex = s.mutex) (hs : s'.sem = Function.update s.sem i v)
      (hq : s'.msgq = s.msgq) (he : s'.event = s.event) (hp : s'.pool = s.pool)
      (hi : s'.pipe = s.pipe) : Objects s s' (.sem i)
  | msgqRead (i : Nat) (v : Msgq) (hw : v.writeWait = (s.msgq i).writeWait)
      (hm : s'.mutex = s.mutex) (hs : s'.sem = s.sem) (hq : s'.msgq = Function.update s.msgq i v)
      (he : s'.event = s.event) (hp : s'.pool = s.pool) (hi : s'.pipe = s.pipe) :
      Objects s s' (.msgqRead i)
  | msgqWrite (i : Nat) (v : Msgq) (hw : v.readWait = (s.msgq i).readWait)
      (hm : s'.mutex = s.mutex) (hs : s'.sem = s.sem) (hq : s'.msgq = Function.update s.msgq i v)
      (he : s'.event = s.event) (hp : s'.pool = s.pool) (hi : s'.pipe = s.pipe) :
      Objects s s' (.msgqWrite i)
  | event (i : Nat) (v : Event) (hm : s'.mutex = s.mutex) (hs : s'.sem = s.sem)
      (hq : s'.msgq = s.msgq) (he : s'.event = Function.update s.event i v) (hp : s'.pool = s.pool)
      (hi : s'.pipe = s.pipe) : Objects s s' (.event i)
  | pool (i : Nat) (v : MemPool) (hm : s'.mutex = s.mutex) (hs : s'.sem = s.sem)
      (hq : s'.msgq = s.msgq) (he : s'.event = s.event) (hp : s'.pool = Function.update s.pool i v)
      (hi : s'.pipe = s.pipe) : Objects s s' (.pool i)
  | pipeRead (i : Nat) (v : Pipe) (hw : v.writeWait = (s.pipe i).writeWait)
      (hm : s'.mutex = s.mutex) (hs : s'.sem = s.sem) (hq : s'.msgq = s.msgq)
      (he : s'.event = s.event) (hp : s'.pool = s.pool)
      (hi : s'.pipe = Function.update s.pipe i v) : Objects s s' (.pipeRead i)
  | pipeWrite (i : Nat) (v : Pipe) (hw : v.readWait = (s.pipe i).readWait)
      (hm : s'.mutex = s.mutex) (hs : s'.sem = s.sem) (hq : s'.msgq = s.msgq)
      (he : s'.event = s.event) (hp : s'.pool = s.pool)
      (hi : s'.pipe = Function.update s.pipe i v) : Objects s s' (.pipeWrite i)

/-- A field of the object at `j`, when only the one at `i` is another. -/
theorem update_field {α β : Type} {f : Nat → α} {g : α → β} {i j : Nat} {v : α}
    (h : j = i → g v = g (f i)) : g (Function.update f i v j) = g (f j) := by
  by_cases hj : j = i
  · subst hj
    rw [Function.update_self, h rfl]
  · rw [Function.update_of_ne hj]

/-- Only the anchor of `L` may be another. -/
theorem Objects.others (h : Objects s s' L) (M : WaitList) (hM : M ≠ L) :
    M.anchor s' = M.anchor s := by
  cases h with
  | none hm hs hq he hp hi => cases M <;> simp only [WaitList.anchor, hm, hs, hq, he, hp, hi]
  | mutex i v hm hs hq he hp hi =>
      cases M <;> simp only [WaitList.anchor, hm, hs, hq, he, hp, hi]
      exact update_field fun hj => absurd (by rw [hj]) hM
  | sem i v hm hs hq he hp hi =>
      cases M <;> simp only [WaitList.anchor, hm, hs, hq, he, hp, hi]
      exact update_field fun hj => absurd (by rw [hj]) hM
  | msgqRead i v hw hm hs hq he hp hi =>
      cases M <;> simp only [WaitList.anchor, hm, hs, hq, he, hp, hi]
      · exact update_field fun hj => absurd (by rw [hj]) hM
      · exact update_field fun _ => hw
  | msgqWrite i v hw hm hs hq he hp hi =>
      cases M <;> simp only [WaitList.anchor, hm, hs, hq, he, hp, hi]
      · exact update_field fun _ => hw
      · exact update_field fun hj => absurd (by rw [hj]) hM
  | event i v hm hs hq he hp hi =>
      cases M <;> simp only [WaitList.anchor, hm, hs, hq, he, hp, hi]
      exact update_field fun hj => absurd (by rw [hj]) hM
  | pool i v hm hs hq he hp hi =>
      cases M <;> simp only [WaitList.anchor, hm, hs, hq, he, hp, hi]
      exact update_field fun hj => absurd (by rw [hj]) hM
  | pipeRead i v hw hm hs hq he hp hi =>
      cases M <;> simp only [WaitList.anchor, hm, hs, hq, he, hp, hi]
      · exact update_field fun hj => absurd (by rw [hj]) hM
      · exact update_field fun _ => hw
  | pipeWrite i v hw hm hs hq he hp hi =>
      cases M <;> simp only [WaitList.anchor, hm, hs, hq, he, hp, hi]
      · exact update_field fun _ => hw
      · exact update_field fun hj => absurd (by rw [hj]) hM

/-- The anchor of `L` is the same, too. -/
theorem Objects.all (h : Objects s s' L) (hL : L.anchor s' = L.anchor s) (M : WaitList) :
    M.anchor s' = M.anchor s := by
  by_cases hM : M = L
  · rw [hM, hL]
  · exact h.others M hM

/-! ## The primitives -/

namespace Waiters

/-- Nothing happens to the lists, whatever else is stored in the object. -/
theorem quiets (h : Waiters s xs) (hk : s'.k = s.k) (hobj : Objects s s' L)
    (hv : L.anchor s' = L.anchor s) (hmutex : s'.mutex = s.mutex) (hq : Quiet s s' xs) :
    ∃ ys, Waiters s' ys ∧ Fair s l s' xs ys :=
  h.stays (by rw [hk]; exact (SparesWaiting.refl _).linked) (by rw [hk]) (hobj.all hv)
    (fun ho => Or.inl (by rwa [hmutex] at ho)) hq

/-- The head of the list is woken. -/
theorem wakes (h : Waiters s xs) (L : WaitList) (hk : s'.k = (s.k.wakeHead (L.anchor s)).1)
    (hobj : Objects s s' L) (hv : L.anchor s' = (s.k.wakeHead (L.anchor s)).2)
    (hmutex : s'.mutex = s.mutex) (hl : L.ReleasedBy s l) (hq : Quiet s s' xs) :
    ∃ ys, Waiters s' ys ∧ Fair s l s' xs ys := by
  have hr := wakeHead_releases (h.parked L)
  rw [← hk, ← hv] at hr
  exact h.releases hr hobj.others hl (fun ho => Or.inl (by rwa [hmutex] at ho)) hq

theorem semTaking (h : Waiters s xs) (hself : ∀ M, self ∉ xs M) {i : Nat} {timeout : UInt32}
    {r : Kernel × Sem × Flow Err} (hr : VibeRtos.semTake s.k (s.sem i) self timeout = r)
    (hk : s'.k = r.1) (hobj : Objects s s' (.sem i))
    (hv : WaitList.anchor s' (.sem i) = r.2.1.waitList) (hmutex : s'.mutex = s.mutex)
    (hpc : s'.pc = Function.update s.pc self (r.2.2.toPc .err .semTakeWake)) :
    ∃ ys, Waiters s' ys ∧ Fair s l s' xs ys := by
  unfold VibeRtos.semTake at hr
  split at hr
  · subst hr
    exact h.quiets hk hobj hv hmutex (.move hself hpc (not_inTake_ret _))
  · split at hr
    · subst hr
      exact h.quiets hk hobj hv hmutex (.move hself hpc (not_inTake_ret _))
    · subst hr
      exact h.blocks_append (.sem i) .semTakeWake hself hk hv hobj.others trivial hmutex hpc

theorem semGiving (h : Waiters s xs) {i : Nat} {r : Kernel × Sem × Flow Err}
    (hr : VibeRtos.semGive s.k (s.sem i) = r) (hk : s'.k = r.1) (hobj : Objects s s' (.sem i))
    (hv : WaitList.anchor s' (.sem i) = r.2.1.waitList) (hmutex : s'.mutex = s.mutex)
    (hl : WaitList.ReleasedBy s (.sem i) l) (hq : Quiet s s' xs) :
    ∃ ys, Waiters s' ys ∧ Fair s l s' xs ys := by
  have hp := h.parked (.sem i)
  cases hxs : xs (.sem i) with
  | nil =>
      rw [hxs] at hp
      rw [semGive_nil hp.rep] at hr
      split at hr <;> subst hr
      · exact h.quiets hk hobj hv hmutex hq
      · exact h.quiets hk hobj hv hmutex hq
  | cons x zs =>
      rw [hxs] at hp
      rw [semGive_cons hp] at hr
      subst hr
      exact h.wakes (.sem i) hk hobj hv hmutex hl hq

/-- The two lists of a message queue; a section changes one of them. -/
structure MsgqLists (s s' : Sys) (i : Nat) (q : Msgq) : Prop where
  here : s'.msgq i = q
  reads : q.writeWait = (s.msgq i).writeWait → Objects s s' (.msgqRead i)
  writes : q.readWait = (s.msgq i).readWait → Objects s s' (.msgqWrite i)

theorem msgqPutting (h : Waiters s xs) (hself : ∀ M, self ∉ xs M) {i : Nat} {data : Nat → UInt8}
    {timeout : UInt32} {r : Kernel × Msgq × Flow Err}
    (hr : VibeRtos.msgqPut s.k (s.msgq i) self data timeout = r) (hk : s'.k = r.1)
    (hobj : MsgqLists s s' i r.2.1) (hmutex : s'.mutex = s.mutex)
    (hpc : s'.pc = Function.update s.pc self (r.2.2.toPc .err (.msgqPutRetry i data))) :
    ∃ ys, Waiters s' ys ∧ Fair s (.call (.msgqPut i data timeout)) s' xs ys := by
  have hread : WaitList.anchor s' (.msgqRead i) = r.2.1.readWait := by
    rw [WaitList.anchor, hobj.here]
  have hwrite : WaitList.anchor s' (.msgqWrite i) = r.2.1.writeWait := by
    rw [WaitList.anchor, hobj.here]
  unfold VibeRtos.msgqPut at hr
  split at hr
  · subst hr
    exact h.wakes (.msgqRead i) hk (hobj.reads rfl) hread hmutex rfl
      (.move hself hpc (not_inTake_resched _))
  · split at hr
    · subst hr
      exact h.quiets hk (hobj.reads rfl) hread hmutex (.move hself hpc (not_inTake_ret _))
    · subst hr
      exact h.blocks_append (.msgqWrite i) (.msgqPutRetry i data) hself hk hwrite
        (hobj.writes rfl).others rfl hmutex hpc

theorem msgqGetting (h : Waiters s xs) (hself : ∀ M, self ∉ xs M) {i : Nat}
    {timeout : UInt32} {r : Kernel × Msgq × Flow (Err × List UInt8)}
    (hr : VibeRtos.msgqGet s.k (s.msgq i) self timeout = r) (hk : s'.k = r.1)
    (hobj : MsgqLists s s' i r.2.1) (hmutex : s'.mutex = s.mutex)
    (hpc : s'.pc = Function.update s.pc self
      (r.2.2.toPc (fun v => .msg v.1 v.2) (.msgqGetRetry i))) :
    ∃ ys, Waiters s' ys ∧ Fair s (.call (.msgqGet i timeout)) s' xs ys := by
  have hread : WaitList.anchor s' (.msgqRead i) = r.2.1.readWait := by
    rw [WaitList.anchor, hobj.here]
  have hwrite : WaitList.anchor s' (.msgqWrite i) = r.2.1.writeWait := by
    rw [WaitList.anchor, hobj.here]
  unfold VibeRtos.msgqGet at hr
  split at hr
  · subst hr
    exact h.wakes (.msgqWrite i) hk (hobj.writes rfl) hwrite hmutex rfl
      (.move hself hpc (not_inTake_resched _))
  · split at hr
    · subst hr
      exact h.quiets hk (hobj.reads rfl) hread hmutex (.move hself hpc (not_inTake_ret _))
    · subst hr
      exact h.blocks_append (.msgqRead i) (.msgqGetRetry i) hself hk hread
        (hobj.reads rfl).others rfl hmutex hpc

theorem msgqPurging (h : Waiters s xs) (hself : ∀ M, self ∉ xs M) {i : Nat} {r : Kernel × Msgq}
    (hr : VibeRtos.msgqPurge s.k (s.msgq i) = r) (hk : s'.k = r.1)
    (hobj : MsgqLists s s' i r.2) (hmutex : s'.mutex = s.mutex)
    (hpc : s'.pc = Function.update s.pc self (.resched (.ret .void))) :
    ∃ ys, Waiters s' ys ∧ Fair s (.call (.msgqPurge i)) s' xs ys := by
  have hwrite : WaitList.anchor s' (.msgqWrite i) = r.2.writeWait := by
    rw [WaitList.anchor, hobj.here]
  subst hr
  obtain ⟨zs, hall⟩ := @wakeAll_releases walkBound _ _ _ (h.parked (.msgqWrite i))
  have hrel : Releases s.k (xs (.msgqWrite i)) s'.k (WaitList.anchor s' (.msgqWrite i)) zs := by
    rw [hk, hwrite]
    exact hall
  exact h.releases hrel (hobj.writes rfl).others rfl (fun ho => Or.inl (by rwa [hmutex] at ho))
    (.move hself hpc (not_inTake_resched _))

theorem eventPosting (h : Waiters s xs) {i : Nat} {flags : UInt32}
    {r : Kernel × Event × EventCtxMem}
    (hr : VibeRtos.eventPost s.k (s.event i) s.eventCtx flags = r) (hk : s'.k = r.1)
    (hobj : Objects s s' (.event i)) (hv : s'.event i = r.2.1) (hmutex : s'.mutex = s.mutex)
    (hl : WaitList.ReleasedBy s (.event i) l) (hq : Quiet s s' xs) :
    ∃ ys, Waiters s' ys ∧ Fair s l s' xs ys := by
  have hanchor : WaitList.anchor s' (.event i) = r.2.1.waitList := by rw [WaitList.anchor, hv]
  subst hr
  have hp : Parked s.k (s.event i).waitList ([] ++ xs (.event i)) := h.parked (.event i)
  have hhead : (s.event i).waitList.head = (xs (.event i)).head? := hp.rep.head
  obtain ⟨zs, hloop⟩ := @eventPostLoop_releases ((s.event i).flags ||| flags) walkBound _ _
    s.eventCtx _ _ hp
  rw [← hhead, List.nil_append] at hloop
  have hrel : Releases s.k (xs (.event i)) s'.k (WaitList.anchor s' (.event i)) zs := by
    rw [hk, hanchor]
    exact hloop
  exact h.releases hrel hobj.others hl (fun ho => Or.inl (by rwa [hmutex] at ho)) hq

theorem eventWaiting (h : Waiters s xs) (hself : ∀ M, self ∉ xs M) {i : Nat} {flags : UInt32}
    {mode : EventWaitMode} {timeout : UInt32} {ctx : Option Nat}
    {r : Kernel × Event × EventCtxMem × Flow Err}
    (hr : VibeRtos.eventWait s.k (s.event i) s.eventCtx self flags mode timeout = r)
    (hk : s'.k = r.1) (hobj : Objects s s' (.event i)) (hv : s'.event i = r.2.1)
    (hmutex : s'.mutex = s.mutex)
    (hpc : s'.pc = Function.update s.pc self (r.2.2.2.toPc .err (.eventWaitWake ctx))) :
    ∃ ys, Waiters s' ys ∧ Fair s l s' xs ys := by
  have hanchor : WaitList.anchor s' (.event i) = r.2.1.waitList := by rw [WaitList.anchor, hv]
  unfold VibeRtos.eventWait at hr
  split at hr
  · subst hr
    exact h.quiets hk hobj hanchor hmutex (.move hself hpc (not_inTake_ret _))
  · split at hr
    · subst hr
      exact h.quiets hk hobj hanchor hmutex (.move hself hpc (not_inTake_ret _))
    · split at hr
      · subst hr
        exact h.quiets hk hobj hanchor hmutex (.move hself hpc (not_inTake_ret _))
      · subst hr
        exact h.blocks_append (.event i) (.eventWaitWake ctx) hself hk hanchor hobj.others trivial
          hmutex hpc

theorem memPoolAllocating (h : Waiters s xs) (hself : ∀ M, self ∉ xs M) {i : Nat}
    {timeout : UInt32} {r : Kernel × MemPool × Flow Nat}
    (hr : VibeRtos.memPoolAlloc s.k s.mem (s.pool i) self timeout = r) (hk : s'.k = r.1)
    (hobj : Objects s s' (.pool i)) (hv : s'.pool i = r.2.1) (hmutex : s'.mutex = s.mutex)
    (hpc : s'.pc = Function.update s.pc self (match r.2.2 with
        | .done blk => if blk ≠ 0 then .at (.memPoolClear i blk) else .at (.ret (.ptr 0))
        | f => f.toPc .ptr (.memPoolAllocRetry i))) :
    ∃ ys, Waiters s' ys ∧ Fair s l s' xs ys := by
  have hanchor : WaitList.anchor s' (.pool i) = r.2.1.waitList := by rw [WaitList.anchor, hv]
  have hdone : ∀ blk : Nat, ¬ Pc.InTake
      (if blk ≠ 0 then .at (.memPoolClear i blk) else .at (.ret (.ptr 0))) := by
    intro blk
    split <;> simp [Pc.InTake]
  unfold VibeRtos.memPoolAlloc at hr
  split at hr
  · subst hr
    exact h.quiets hk hobj hanchor hmutex (.move hself hpc (hdone _))
  · split at hr
    · subst hr
      exact h.quiets hk hobj hanchor hmutex (.move hself hpc (hdone 0))
    · subst hr
      exact h.blocks_append (.pool i) (.memPoolAllocRetry i) hself hk hanchor hobj.others rfl
        hmutex hpc

theorem memPoolFreeing (h : Waiters s xs) (hself : ∀ M, self ∉ xs M) {i ptr : Nat}
    {r : Kernel × Mem × MemPool × Flow Err}
    (hr : VibeRtos.memPoolFree s.k s.mem (s.pool i) ptr = r) (hk : s'.k = r.1)
    (hobj : Objects s s' (.pool i)) (hv : s'.pool i = r.2.2.1) (hmutex : s'.mutex = s.mutex)
    (hpc : s'.pc = Function.update s.pc self (r.2.2.2.toPc .err (.memPoolAllocRetry i))) :
    ∃ ys, Waiters s' ys ∧ Fair s (.call (.memPoolFree i ptr)) s' xs ys := by
  have hanchor : WaitList.anchor s' (.pool i) = r.2.2.1.waitList := by rw [WaitList.anchor, hv]
  unfold VibeRtos.memPoolFree at hr
  dsimp only at hr
  split at hr
  · subst hr
    exact h.quiets hk hobj hanchor hmutex (.move hself hpc (not_inTake_ret _))
  · subst hr
    exact h.wakes (.pool i) hk hobj hanchor hmutex rfl (.move hself hpc (not_inTake_resched _))

/-- The two lists of a pipe; a round changes one of them. -/
structure PipeLists (s s' : Sys) (i : Nat) (p : Pipe) : Prop where
  here : s'.pipe i = p
  reads : p.writeWait = (s.pipe i).writeWait → Objects s s' (.pipeRead i)
  writes : p.readWait = (s.pipe i).readWait → Objects s s' (.pipeWrite i)

theorem pipeWriting (h : Waiters s xs) (hcur : s.k.current = some self)
    (hself : ∀ M, self ∉ xs M) {i : Nat} {src : List UInt8} {written : Nat}
    {timeout stopAt : UInt32} {r : Kernel × Pipe × PipeFlow Nat}
    (hat : s.pc self = .at (.pipeWrite i src written timeout stopAt))
    (hr : pipeWriteRound s.k (s.pipe i) self src written timeout stopAt = r) (hk : s'.k = r.1)
    (hobj : PipeLists s s' i r.2.1) (hmutex : s'.mutex = s.mutex)
    (hpc : s'.pc = Function.update s.pc self (match r.2.2 with
        | .ret => .at (.ret (.count (intOfSize written)))
        | .loop written => .resched (.pipeWrite i src written timeout stopAt))) :
    ∃ ys, Waiters s' ys ∧ Fair s .cont s' xs ys := by
  have hread : WaitList.anchor s' (.pipeRead i) = r.2.1.readWait := by
    rw [WaitList.anchor, hobj.here]
  have hwrite : WaitList.anchor s' (.pipeWrite i) = r.2.1.writeWait := by
    rw [WaitList.anchor, hobj.here]
  unfold pipeWriteRound at hr
  dsimp only at hr
  split at hr
  · -- the bytes go in, and a reader is woken
    have hwaits := pipePush_waits (s.pipe i)
      ((src.drop written).take
        (min (src.length - written) ((s.pipe i).size - (s.pipe i).used).toNat))
    subst hr
    rw [hwaits.1] at hk hread
    exact h.wakes (.pipeRead i) hk (hobj.reads hwaits.2) hread hmutex
      ⟨self, src, written, timeout, stopAt, hcur, hat⟩ (.move hself hpc (by simp [Pc.InTake]))
  · split at hr
    · subst hr
      exact h.quiets hk (hobj.reads rfl) hread hmutex (.move hself hpc (not_inTake_ret _))
    · split at hr
      · subst hr
        exact h.quiets hk (hobj.reads rfl) hread hmutex (.move hself hpc (not_inTake_ret _))
      · subst hr
        exact h.blocks_append (.pipeWrite i) (.pipeWrite i src written timeout stopAt) hself hk
          hwrite (hobj.writes rfl).others rfl hmutex hpc

theorem pipeReading (h : Waiters s xs) (hcur : s.k.current = some self)
    (hself : ∀ M, self ∉ xs M) {i len : Nat} {dst : Mem} {readCnt : Nat}
    {timeout stopAt : UInt32} {r : Kernel × Pipe × PipeFlow (Mem × Nat)} {got : Ret}
    (hat : s.pc self = .at (.pipeRead i len dst readCnt timeout stopAt))
    (hr : pipeReadRound s.k (s.pipe i) self len dst readCnt timeout stopAt = r) (hk : s'.k = r.1)
    (hobj : PipeLists s s' i r.2.1) (hmutex : s'.mutex = s.mutex)
    (hpc : s'.pc = Function.update s.pc self (match r.2.2 with
        | .ret => .at (.ret got)
        | .loop done => .resched (.pipeRead i len done.1 done.2 timeout stopAt))) :
    ∃ ys, Waiters s' ys ∧ Fair s .cont s' xs ys := by
  have hread : WaitList.anchor s' (.pipeRead i) = r.2.1.readWait := by
    rw [WaitList.anchor, hobj.here]
  have hwrite : WaitList.anchor s' (.pipeWrite i) = r.2.1.writeWait := by
    rw [WaitList.anchor, hobj.here]
  unfold pipeReadRound at hr
  dsimp only at hr
  split at hr
  · -- the bytes go out, and a writer is woken
    have hwaits := pipePull_waits (min (len - readCnt) (s.pipe i).used.toNat) (s.pipe i) dst readCnt
    subst hr
    rw [hwaits.2] at hk hwrite
    exact h.wakes (.pipeWrite i) hk (hobj.writes hwaits.1) hwrite hmutex
      ⟨self, len, dst, readCnt, timeout, stopAt, hcur, hat⟩
      (.move hself hpc (by simp [Pc.InTake]))
  · split at hr
    · subst hr
      exact h.quiets hk (hobj.reads rfl) hread hmutex (.move hself hpc (not_inTake_ret _))
    · split at hr
      · subst hr
        exact h.quiets hk (hobj.reads rfl) hread hmutex (.move hself hpc (not_inTake_ret _))
      · subst hr
        exact h.blocks_append (.pipeRead i) (.pipeRead i len dst readCnt timeout stopAt) hself hk
          hread (hobj.reads rfl).others rfl hmutex hpc

/-- The owner of one mutex changes at most. -/
theorem owner_update {i m : Nat} {v : Mutex} (hm : s'.mutex = Function.update s.mutex i v)
    (ho : (s'.mutex m).owner = some t) : (s.mutex m).owner = some t ∨ m = i ∧ v.owner = some t := by
  rw [hm] at ho
  by_cases hmi : m = i
  · subst hmi
    rw [Function.update_self] at ho
    exact Or.inr ⟨rfl, ho⟩
  · rw [Function.update_of_ne hmi] at ho
    exact Or.inl ho

/-- The mutex keeps its owner and its list. -/
theorem mutexKept (h : Waiters s xs) (hk : s'.k = s.k) {i : Nat} {v : Mutex}
    (hobj : Objects s s' (.mutex i)) (hmutex : s'.mutex = Function.update s.mutex i v)
    (howner : v.owner = (s.mutex i).owner) (hlist : v.waitList = (s.mutex i).waitList)
    (hq : Quiet s s' xs) : ∃ ys, Waiters s' ys ∧ Fair s l s' xs ys := by
  have hanchor : WaitList.anchor s' (.mutex i) = WaitList.anchor s (.mutex i) := by
    rw [WaitList.anchor, hmutex, Function.update_self]
    exact hlist
  refine h.stays (by rw [hk]; exact (SparesWaiting.refl _).linked) (by rw [hk]) (hobj.all hanchor)
    (fun {m t} ho => ?_) hq
  rcases owner_update hmutex ho with hold | ⟨rfl, hnew⟩
  · exact Or.inl hold
  · exact Or.inl (howner.symm.trans hnew)

theorem mutexLocking (h : Waiters s xs) (hcur : s.k.current = some self)
    (hself : ∀ M, self ∉ xs M) {i : Nat} {timeout : UInt32} {r : Kernel × Mutex × Flow Err}
    (hr : VibeRtos.mutexLock s.k (s.mutex i) self timeout = some r) (hk : s'.k = r.1)
    (hobj : Objects s s' (.mutex i)) (hmutex : s'.mutex = Function.update s.mutex i r.2.1)
    (hpc : s'.pc = Function.update s.pc self (r.2.2.toPc .err (.mutexLockWake i))) :
    ∃ ys, Waiters s' ys ∧ Fair s (.call (.mutexLock i timeout)) s' xs ys := by
  have hanchor : WaitList.anchor s' (.mutex i) = r.2.1.waitList := by
    rw [WaitList.anchor, hmutex, Function.update_self]
  obtain ⟨k', m', f⟩ := r
  -- a caller that gets the mutex is its owner, and nobody else becomes one
  have hgets : m'.owner = some self → k' = s.k → m'.waitList = (s.mutex i).waitList →
      ∀ e, f = .done e → ∃ ys, Waiters s' ys ∧ Fair s (.call (.mutexLock i timeout)) s' xs ys := by
    rintro howner rfl hlist e rfl
    refine h.stays (by rw [hk]; exact (SparesWaiting.refl _).linked) (by rw [hk])
      (hobj.all (hanchor.trans hlist))
      (fun {m t} ho => ?_) (.move hself hpc (not_inTake_ret _))
    rcases owner_update hmutex ho with hold | ⟨rfl, hnew⟩
    · exact Or.inl hold
    · have hnew' : m'.owner = some t := hnew
      obtain rfl : self = t := Option.some.inj (howner.symm.trans hnew')
      exact Or.inr (Or.inl ⟨timeout, rfl, hcur⟩)
  rcases mutexLock_cases (h.parked (.mutex i)).rep (hself (.mutex i)) hr with
    ⟨howner, hk', rfl, rfl⟩ | ⟨-, hk', rfl, rfl⟩ | ⟨owner, -, -, -, rfl, rfl, rfl⟩
    | ⟨owner, -, hne, -, rfl, ⟨stop, hthr⟩, hcur', ⟨list, pre, post, rfl, hxs, hrep⟩, hframe⟩
  · exact hgets howner hk' rfl _ rfl
  · exact hgets rfl hk' rfl _ rfl
  · -- busy: nothing changes
    exact h.mutexKept hk hobj hmutex rfl rfl (.move hself hpc (not_inTake_ret _))
  · have hk' : s'.k = k' := hk
    rw [← hk'] at hthr hcur' hrep hframe
    refine h.blocks (.mutex i) (.mutexLockWake i) hself (by rw [hanchor]; exact hrep)
      (fun t => ?_) ?_ hframe (fun t ht hw => ?_) hcur'
      hobj.others rfl (fun m => ?_) hpc
    · rw [hxs]
      simp only [List.mem_append, List.mem_cons]
      tauto
    · rw [hthr, blockedThr, Function.update_self]
    · rw [hthr, blockedThr, Function.update_of_ne ht]
      by_cases hto : t = owner
      · subst hto
        rw [Function.update_self]
        exact hw
      · rw [Function.update_of_ne hto]
        exact hw
    · rw [hmutex]
      exact update_field fun _ => rfl

theorem mutexUnlocking (h : Waiters s xs) (hself : ∀ M, self ∉ xs M) {i : Nat}
    {r : Kernel × Mutex × Flow Err} (hr : VibeRtos.mutexUnlock s.k (s.mutex i) self = r)
    (hk : s'.k = r.1) (hobj : Objects s s' (.mutex i))
    (hmutex : s'.mutex = Function.update s.mutex i r.2.1)
    (hpc : s'.pc = Function.update s.pc self (r.2.2.toPc .err (.mutexLockWake i))) :
    ∃ ys, Waiters s' ys ∧ Fair s (.call (.mutexUnlock i)) s' xs ys := by
  have hanchor : WaitList.anchor s' (.mutex i) = r.2.1.waitList := by
    rw [WaitList.anchor, hmutex, Function.update_self]
  have hstate : ∀ (th : Tid → Thread) u, th = Function.update s.k.thr self
      { s.k.thr self with priority := (s.mutex i).ownerOrigPrio } →
      (th u).state = (s.k.thr u).state := by
    rintro th u rfl
    by_cases hu : u = self
    · rw [hu, Function.update_self]
    · rw [Function.update_of_ne hu]
  rcases @mutexUnlock_cases _ _ self _ (h.parked (.mutex i)).rep with
    ⟨-, heq⟩ | ⟨-, -, heq⟩ | ⟨-, -, -, k', heq, hthr, hcur', hnode⟩
    | ⟨-, -, next, rest, hxs, k', l', th, heq, hth, hthr, hcur', hrep, hframe⟩
  · rw [heq] at hr
    subst hr
    exact h.mutexKept hk hobj hmutex rfl rfl (.move hself hpc (not_inTake_ret _))
  · rw [heq] at hr
    subst hr
    exact h.mutexKept hk hobj hmutex rfl rfl (.move hself hpc (not_inTake_ret _))
  · rw [heq] at hr
    subst hr
    refine h.stays ?_ (by rw [hk]; exact hcur') (hobj.all hanchor) (fun {m t} ho => ?_)
      (.move hself hpc (not_inTake_resched _))
    · rw [hk]
      exact (SparesWaiting.of_thr hnode fun t ht => (hstate _ t hthr).trans ht).linked
    · rcases owner_update hmutex ho with hold | ⟨rfl, hnew⟩
      · exact Or.inl hold
      · exact absurd hnew (by simp)
  · rw [heq] at hr
    subst hr
    have hnd := (h.parked (.mutex i)).nodup
    rw [hxs] at hnd
    have hother : ∀ t, t ≠ next → (k'.thr t).state = (s.k.thr t).state := by
      intro t ht
      rw [hthr, Function.update_of_ne ht]
      exact hstate th t hth
    have hrel : Releases s.k (xs (.mutex i)) s'.k (WaitList.anchor s' (.mutex i)) rest := by
      rw [hk, hanchor, hxs]
      refine ⟨⟨hrep, fun t ht => ?_⟩, fun t ht => List.mem_cons_of_mem _ ht, fun t ht => ?_, hcur'⟩
      · have hne : t ≠ next := fun he => (List.nodup_cons.mp hnd).1 (he ▸ ht)
        rw [hother t hne]
        exact (h.parked (.mutex i)).waiting t (by rw [hxs]; exact List.mem_cons_of_mem _ ht)
      · have hne : t ≠ next := fun he => ht (he ▸ List.mem_cons_self)
        exact ⟨hframe t (by rw [hxs]; exact ht), hother t hne⟩
    refine h.releases hrel hobj.others rfl (fun {m t} ho => ?_)
      (.move hself hpc (not_inTake_resched _))
    rcases owner_update hmutex ho with hold | ⟨rfl, hnew⟩
    · exact Or.inl hold
    · obtain rfl : next = t := Option.some.inj hnew
      exact Or.inr (Or.inr (by rw [hxs]; exact List.mem_cons_self))

/-! ## Lifecycle calls -/

/-- A section of a call about `t`, which is not WAITING; the caller and `t` may move. -/
theorem lifecycle (h : Waiters s xs) (hself : ∀ M, self ∉ xs M) (k' : Kernel) {q : Pc}
    (hk : SparesLinked xs s.k k') (hcur : k'.current = s.k.current) (hs : s'.k = k')
    (hobj : Objects s s' (.mutex 0)) (hmutex : s'.mutex = s.mutex) (ht : ∀ M, t ∉ xs M)
    (hpc : s'.pc = Function.update (Function.update s.pc t q) self p) (hp : ¬ p.InTake)
    (hq : q.InTake → (s.pc t).InTake) : ∃ ys, Waiters s' ys ∧ Fair s l s' xs ys := by
  refine h.stays (by rw [hs]; exact hk) (by rw [hs]; exact hcur)
    (hobj.all (by rw [WaitList.anchor, WaitList.anchor, hmutex]))
    (fun ho => Or.inl (by rwa [hmutex] at ho)) ⟨fun M u hu => ?_, fun u hu => ?_⟩
  · have hus : u ≠ self := fun he => hself M (he ▸ hu)
    have hut : u ≠ t := fun he => ht M (he ▸ hu)
    rw [hpc, Function.update_of_ne hus, Function.update_of_ne hut]
  · rw [hpc] at hu
    by_cases hus : u = self
    · subst hus
      rw [Function.update_self] at hu
      exact absurd hu hp
    · rw [Function.update_of_ne hus] at hu
      by_cases hut : u = t
      · subst hut
        rw [Function.update_self] at hu
        exact hq hu
      · rwa [Function.update_of_ne hut] at hu

/-- A section of a call that only its caller moves in. -/
theorem lifecycle_self (h : Waiters s xs) (hself : ∀ M, self ∉ xs M) (k' : Kernel)
    (hk : SparesLinked xs s.k k') (hcur : k'.current = s.k.current) (hs : s'.k = k')
    (hobj : Objects s s' (.mutex 0)) (hmutex : s'.mutex = s.mutex)
    (hpc : s'.pc = Function.update s.pc self p) (hp : ¬ p.InTake) :
    ∃ ys, Waiters s' ys ∧ Fair s l s' xs ys :=
  h.lifecycle hself k' hk hcur hs hobj hmutex hself
    (by rw [hpc, Function.update_eq_self]) hp id

end Waiters

theorem threadCreate_current (cfg : Config) (k : Kernel) (t : Tid) (entry arg : Nat)
    (attr : Option ThreadAttr) (stack heapStack : Option Nat) :
    (threadCreate cfg k t entry arg attr stack heapStack).2.current = k.current := by
  unfold threadCreate
  split
  · rfl
  · split
    · rfl
    · split
      · rfl
      · dsimp only
        split <;> rfl

theorem threadDelete_current (k : Kernel) (t : Tid) : (threadDelete k t).current = k.current := by
  unfold threadDelete
  dsimp only
  split <;> rfl

theorem threadSuspend_current (k : Kernel) (t : Tid) :
    (threadSuspend k t).2.current = k.current := by
  unfold threadSuspend
  split
  · rfl
  · dsimp only
    split <;> rfl

theorem threadResume_current (k : Kernel) (t : Tid) :
    (threadResume k t).2.current = k.current := by
  unfold threadResume
  split <;> rfl

theorem threadRestart_current (k : Kernel) (t : Tid) :
    (threadRestart k t).current = k.current := by
  unfold threadRestart
  dsimp only
  split
  · rfl
  · split <;> rfl

theorem threadSetPriority_current (k : Kernel) (t : Tid) (priority : UInt8) :
    (threadSetPriority k t priority).2.current = k.current := by
  unfold threadSetPriority
  split
  · rfl
  · dsimp only
    split <;> rfl

theorem anchor_update_sem {i : Nat} {v w : Sem} (h : v.waitList = w.waitList) :
    (Function.update s.sem i v i).waitList = w.waitList := by rw [Function.update_self, h]

/-- A give does not wait. -/
theorem semGive_notTake (k : Kernel) (sem : Sem) :
    ¬ ((VibeRtos.semGive k sem).2.2.toPc .err .semTakeWake).InTake := by
  unfold VibeRtos.semGive
  split
  · exact not_inTake_resched _
  · split <;> exact not_inTake_ret _

namespace Waiters

/-! ## The first section of a call -/

theorem enter (h : Waiters s xs) (hcur : s.k.current = some self) (huser : s.pc self = .user)
    {c : Call} (hc : c.Respects s.k self) (hs : s.enter cfg self c = some s') :
    ∃ ys, Waiters s' ys ∧ Fair s (.call c) s' xs ys := by
  have hself : ∀ M, self ∉ xs M := h.not_mem_user hcur (by rw [huser]; simp)
  have hnone : ∀ {s' : Sys}, s'.mutex = s.mutex → s'.sem = s.sem → s'.msgq = s.msgq →
      s'.event = s.event → s'.pool = s.pool → s'.pipe = s.pipe → Objects s s' (.mutex 0) :=
    fun hm hs hq he hp hi => .none hm hs hq he hp hi
  have hothers : ∀ k' : Kernel, k'.waitNode = s.k.waitNode →
      (∀ u, u ≠ self → (k'.thr u).state = (s.k.thr u).state) → SparesLinked xs s.k k' := by
    intro k' hnode hthr M u hu hw
    have hne : u ≠ self := fun he => hself M (he ▸ hu)
    exact ⟨by rw [hnode], (hthr u hne).trans hw⟩
  cases c with
  | threadCreate t entry arg attr stack heapStack =>
      obtain rfl := Option.some.inj hs
      have ht := h.not_mem hc
      have hk := sparesWaiting_create hc cfg entry arg attr stack heapStack
      have hcur' := threadCreate_current cfg s.k t entry arg attr stack heapStack
      split
      · exact h.lifecycle hself _ hk.linked hcur' rfl (hnone rfl rfl rfl rfl rfl rfl) rfl ht rfl
          (not_inTake_ret _) fun hu => absurd hu not_inTake_user
      · exact h.lifecycle_self hself _ hk.linked hcur' rfl (hnone rfl rfl rfl rfl rfl rfl) rfl rfl
          (not_inTake_ret _)
  | threadDelete t =>
      obtain rfl := Option.some.inj hs
      refine h.lifecycle_self hself _ (sparesWaiting_delete hc).linked
        (threadDelete_current _ _) rfl
        (hnone rfl rfl rfl rfl rfl rfl) rfl rfl ?_
      split <;> simp [Pc.InTake]
  | threadSuspend t =>
      obtain rfl := Option.some.inj hs
      refine h.lifecycle_self hself _ (sparesWaiting_suspend hc).linked
        (threadSuspend_current _ _) rfl
        (hnone rfl rfl rfl rfl rfl rfl) rfl rfl ?_
      split <;> simp [Pc.InTake]
  | threadResume t =>
      cases t with
      | none =>
          obtain rfl := Option.some.inj hs
          exact h.lifecycle_self hself s.k (SparesWaiting.refl _).linked rfl rfl
            (hnone rfl rfl rfl rfl rfl rfl) rfl rfl
            (not_inTake_ret _)
      | some t =>
          obtain rfl := Option.some.inj hs
          refine h.lifecycle_self hself _ sparesWaiting_resume.linked (threadResume_current _ _) rfl
            (hnone rfl rfl rfl rfl rfl rfl) rfl rfl ?_
          split <;> simp [Pc.InTake]
  | threadSleep ms =>
      obtain rfl := Option.some.inj hs
      exact h.lifecycle_self hself (threadSleep cfg s.k self ms) (hothers _ rfl fun u hu => by
          show (((s.k.schedDequeue self).modThread self fun th => { th with
            timeout := s.k.tickCount + msToTicks cfg ms, state := .sleeping }).thr u).state = _
          rw [modThread_of_ne _ _ _ hu]
          rfl) rfl rfl
        (hnone rfl rfl rfl rfl rfl rfl) rfl rfl (not_inTake_resched _)
  | threadYield =>
      obtain rfl := Option.some.inj hs
      exact h.lifecycle_self hself (threadYield s.k self) (hothers _ rfl fun u hu => by
          show (((s.k.schedDequeue self).schedEnqueue self).thr u).state = _
          rw [schedEnqueue_thr, Function.update_of_ne hu]
          rfl) rfl rfl
        (hnone rfl rfl rfl rfl rfl rfl) rfl rfl (not_inTake_resched _)
  | threadRestart t =>
      obtain rfl := Option.some.inj hs
      exact h.lifecycle hself _ (sparesWaiting_restart hc).linked (threadRestart_current _ _) rfl
        (hnone rfl rfl rfl rfl rfl rfl) rfl (h.not_mem hc) rfl (not_inTake_ret _)
        fun hu => absurd hu not_inTake_user
  | threadSetPriority t priority =>
      obtain rfl := Option.some.inj hs
      refine h.lifecycle_self hself _ (sparesWaiting_setPriority priority).linked
        (threadSetPriority_current _ _ _) rfl (hnone rfl rfl rfl rfl rfl rfl) rfl rfl ?_
      split <;> simp [Pc.InTake]
  | schedLock =>
      obtain rfl := Option.some.inj hs
      exact h.lifecycle_self hself s.k.schedLock
        (SparesWaiting.of_thr rfl fun _ => id).linked rfl rfl
        (hnone rfl rfl rfl rfl rfl rfl) rfl rfl (not_inTake_ret _)
  | schedUnlock =>
      obtain rfl := Option.some.inj hs
      refine h.lifecycle_self hself _ (SparesWaiting.linked ?_) (schedUnlock_current _) rfl
        (hnone rfl rfl rfl rfl rfl rfl) rfl rfl (by simp [Pc.InTake])
      unfold schedUnlock
      split
      · exact .of_thr rfl fun _ => id
      · exact .refl _
  | mutexLock i timeout =>
      obtain ⟨r, hr, rfl⟩ := Option.map_eq_some_iff.mp hs
      exact h.mutexLocking hcur hself hr rfl (.mutex i _ rfl rfl rfl rfl rfl rfl) rfl rfl
  | mutexUnlock i =>
      obtain rfl := Option.some.inj hs
      exact h.mutexUnlocking hself rfl rfl (.mutex i _ rfl rfl rfl rfl rfl rfl) rfl rfl
  | semTake i timeout =>
      obtain rfl := Option.some.inj hs
      exact h.semTaking hself rfl rfl (.sem i _ rfl rfl rfl rfl rfl rfl)
        (anchor_update_sem rfl) rfl rfl
  | semGive i =>
      obtain rfl := Option.some.inj hs
      refine h.semGiving rfl rfl (.sem i _ rfl rfl rfl rfl rfl rfl) (anchor_update_sem rfl) rfl rfl
        (.move hself rfl ?_)
      exact semGive_notTake s.k (s.sem i)
  | semReset i =>
      obtain rfl := Option.some.inj hs
      exact h.quiets rfl (.sem i _ rfl rfl rfl rfl rfl rfl) (anchor_update_sem rfl) rfl
        (.move hself rfl (not_inTake_ret _))
  | msgqPut i data timeout =>
      obtain rfl := Option.some.inj hs
      exact h.msgqPutting hself rfl rfl ⟨Function.update_self _ _ _,
        fun hw => .msgqRead i _ hw rfl rfl rfl rfl rfl rfl,
        fun hw => .msgqWrite i _ hw rfl rfl rfl rfl rfl rfl⟩ rfl rfl
  | msgqGet i timeout =>
      obtain rfl := Option.some.inj hs
      exact h.msgqGetting hself rfl rfl ⟨Function.update_self _ _ _,
        fun hw => .msgqRead i _ hw rfl rfl rfl rfl rfl rfl,
        fun hw => .msgqWrite i _ hw rfl rfl rfl rfl rfl rfl⟩ rfl rfl
  | msgqPeek i =>
      obtain rfl := Option.some.inj hs
      exact h.quiets rfl (hnone rfl rfl rfl rfl rfl rfl) rfl rfl
        (.move hself rfl (not_inTake_ret _))
  | msgqPurge i =>
      obtain rfl := Option.some.inj hs
      exact h.msgqPurging hself rfl rfl ⟨Function.update_self _ _ _,
        fun hw => .msgqRead i _ hw rfl rfl rfl rfl rfl rfl,
        fun hw => .msgqWrite i _ hw rfl rfl rfl rfl rfl rfl⟩ rfl rfl
  | eventPost i flags =>
      obtain rfl := Option.some.inj hs
      exact h.eventPosting rfl rfl (.event i _ rfl rfl rfl rfl rfl rfl) (Function.update_self _ _ _)
        rfl rfl (.move hself rfl (not_inTake_resched _))
  | eventClear i flags =>
      obtain rfl := Option.some.inj hs
      refine h.quiets rfl (.event i _ rfl rfl rfl rfl rfl rfl) ?_ rfl
        (.move hself rfl (not_inTake_ret _))
      show (Function.update s.event i _ i).waitList = _
      rw [Function.update_self]
      rfl
  | eventWait i flags mode timeout =>
      obtain rfl := Option.some.inj hs
      exact h.eventWaiting hself rfl rfl (.event i _ rfl rfl rfl rfl rfl rfl)
        (Function.update_self _ _ _) rfl rfl
  | memPoolAlloc i timeout =>
      obtain rfl := Option.some.inj hs
      exact h.memPoolAllocating hself rfl rfl (.pool i _ rfl rfl rfl rfl rfl rfl)
        (Function.update_self _ _ _) rfl rfl
  | memPoolFree i ptr =>
      obtain rfl := Option.some.inj hs
      exact h.memPoolFreeing hself rfl rfl (.pool i _ rfl rfl rfl rfl rfl rfl)
        (Function.update_self _ _ _) rfl rfl
  | pipeWrite i src timeout =>
      obtain rfl := Option.some.inj hs
      exact h.quiets rfl (hnone rfl rfl rfl rfl rfl rfl) rfl rfl
        (.move hself rfl (by simp [Pc.InTake]))
  | pipeRead i len dst timeout =>
      obtain rfl := Option.some.inj hs
      exact h.quiets rfl (hnone rfl rfl rfl rfl rfl rfl) rfl rfl
        (.move hself rfl (by simp [Pc.InTake]))

/-! ## The further sections of a call -/

theorem resume (h : Waiters s xs) (hcur : s.k.current = some self) {a : After}
    (hat : s.pc self = .at a) : ∃ ys, Waiters (s.resume self a) ys
      ∧ Fair s .cont (s.resume self a) xs ys := by
  have hself : ∀ M, self ∉ xs M := h.not_mem_user hcur (by rw [hat]; simp)
  have hnone : ∀ {s' : Sys}, s'.mutex = s.mutex → s'.sem = s.sem → s'.msgq = s.msgq →
      s'.event = s.event → s'.pool = s.pool → s'.pipe = s.pipe → Objects s s' (.mutex 0) :=
    fun hm hs hq he hp hi => .none hm hs hq he hp hi
  cases a with
  | ret r =>
      exact h.quiets rfl (hnone rfl rfl rfl rfl rfl rfl) rfl rfl (.move hself rfl not_inTake_user)
  | resumeCheck t =>
      refine h.quiets rfl (hnone rfl rfl rfl rfl rfl rfl) rfl rfl (.move hself rfl ?_)
      split <;> simp [Pc.InTake]
  | unlockCheck =>
      refine h.quiets rfl (hnone rfl rfl rfl rfl rfl rfl) rfl rfl (.move hself rfl ?_)
      split <;> simp [Pc.InTake]
  | mutexLockWake m =>
      exact h.quiets rfl (hnone rfl rfl rfl rfl rfl rfl) rfl rfl
        (.move hself rfl (not_inTake_ret _))
  | semTakeWake =>
      exact h.quiets rfl (hnone rfl rfl rfl rfl rfl rfl) rfl rfl
        (.move hself rfl (not_inTake_ret _))
  | msgqPutRetry i data =>
      refine h.quiets rfl (.msgqRead i _ ?_ rfl rfl rfl rfl rfl rfl) ?_ rfl
        (.move hself rfl (not_inTake_ret _))
      · unfold VibeRtos.msgqPutRetry
        split <;> rfl
      · show (Function.update s.msgq i _ i).readWait = _
        rw [Function.update_self]
        unfold VibeRtos.msgqPutRetry
        split <;> rfl
  | msgqGetRetry i =>
      refine h.quiets rfl (.msgqRead i _ ?_ rfl rfl rfl rfl rfl rfl) ?_ rfl
        (.move hself rfl (not_inTake_ret _))
      · unfold VibeRtos.msgqGetRetry
        split <;> rfl
      · show (Function.update s.msgq i _ i).readWait = _
        rw [Function.update_self]
        unfold VibeRtos.msgqGetRetry
        split <;> rfl
  | eventWaitWake ctx =>
      exact h.quiets rfl (hnone rfl rfl rfl rfl rfl rfl) rfl rfl
        (.move hself rfl (not_inTake_ret _))
  | memPoolAllocRetry i =>
      refine h.quiets rfl (.pool i _ rfl rfl rfl rfl rfl rfl) ?_ rfl (.move hself rfl ?_)
      · show (Function.update s.pool i _ i).waitList = _
        rw [Function.update_self]
        unfold VibeRtos.memPoolAllocRetry
        split <;> rfl
      · split <;> simp [Pc.InTake]
  | memPoolClear i blk =>
      exact h.quiets rfl (hnone rfl rfl rfl rfl rfl rfl) rfl rfl
        (.move hself rfl (not_inTake_ret _))
  | pipeWrite i src written timeout stopAt =>
      rw [Sys.resume]
      split
      · exact h.pipeWriting hcur hself hat rfl rfl ⟨Function.update_self _ _ _,
          fun hw => .pipeRead i _ hw rfl rfl rfl rfl rfl rfl,
          fun hw => .pipeWrite i _ hw rfl rfl rfl rfl rfl rfl⟩ rfl rfl
      · exact h.quiets rfl (hnone rfl rfl rfl rfl rfl rfl) rfl rfl
          (.move hself rfl (not_inTake_ret _))
  | pipeRead i len dst readCnt timeout stopAt =>
      rw [Sys.resume]
      dsimp only
      split
      · exact h.pipeReading hcur hself hat rfl rfl ⟨Function.update_self _ _ _,
          fun hw => .pipeRead i _ hw rfl rfl rfl rfl rfl rfl,
          fun hw => .pipeWrite i _ hw rfl rfl rfl rfl rfl rfl⟩ rfl rfl
      · exact h.quiets rfl (hnone rfl rfl rfl rfl rfl rfl) rfl rfl
          (.move hself rfl (not_inTake_ret _))

end Waiters

end VibeRtos
