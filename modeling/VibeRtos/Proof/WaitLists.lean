import VibeRtos.Kernel.Grants
import VibeRtos.Proof.MutexSteps
import VibeRtos.Proof.Parked

/-!
# All wait lists at once

`Waiters s xs`: every wait list `L` of the machine holds the threads `xs L`, each of them
WAITING and inside a call that waits on `L`, none of them on two lists. The current
thread may be among them only until its next reschedule. One rule for each way in which
a section can leave the lists: untouched, with one thread more, or with some less.
-/

namespace VibeRtos

open Links Kernel

/-! ## Sections of the kernel -/

/-- The WAITING threads keep their wait nodes and go on waiting. -/
def SparesWaiting (k k' : Kernel) : Prop :=
  ∀ t, (k.thr t).state = .waiting → k'.waitNode t = k.waitNode t ∧ (k'.thr t).state = .waiting

section Spares

variable {k k' k'' : Kernel} {t : Tid}

theorem SparesWaiting.refl (k : Kernel) : SparesWaiting k k := fun _ h => ⟨rfl, h⟩

theorem SparesWaiting.trans (h : SparesWaiting k k') (h' : SparesWaiting k' k'') :
    SparesWaiting k k'' := by
  intro t ht
  obtain ⟨hn, hs⟩ := h t ht
  obtain ⟨hn', hs'⟩ := h' t hs
  exact ⟨hn'.trans hn, hs'⟩

/-- Control blocks are changed, but for no WAITING thread the state. -/
theorem SparesWaiting.of_thr (hnode : k'.waitNode = k.waitNode)
    (hthr : ∀ t, (k.thr t).state = .waiting → (k'.thr t).state = .waiting) : SparesWaiting k k' :=
  fun t ht => ⟨by rw [hnode], hthr t ht⟩

theorem sparesWaiting_mod (f : Thread → Thread)
    (hf : (k.thr t).state = .waiting → (f (k.thr t)).state = .waiting) :
    SparesWaiting k (k.modThread t f) := by
  refine .of_thr rfl fun u hu => ?_
  by_cases hut : u = t
  · subst hut
    rw [modThread_self]
    exact hf hu
  · rw [modThread_of_ne _ _ _ hut]
    exact hu

theorem sparesWaiting_enqueue (ht : (k.thr t).state ≠ .waiting) :
    SparesWaiting k (k.schedEnqueue t) := by
  refine .of_thr rfl fun u hu => ?_
  have hut : u ≠ t := fun he => ht (he ▸ hu)
  rw [schedEnqueue_thr, Function.update_of_ne hut]
  exact hu

theorem sparesWaiting_dequeue : SparesWaiting k (k.schedDequeue t) := .of_thr rfl fun _ => id

theorem sparesWaiting_dequeue_if (p : Prop) [Decidable p] :
    SparesWaiting k (if p then k.schedDequeue t else k) := by
  split
  · exact sparesWaiting_dequeue
  · exact .refl k

theorem dequeue_if_state (p : Prop) [Decidable p] (u : Tid) :
    ((if p then k.schedDequeue t else k).thr u).state = (k.thr u).state := by
  split <;> rfl

theorem sparesWaiting_create (ht : (k.thr t).state ≠ .waiting) (cfg : Config) (entry arg : Nat)
    (attr : Option ThreadAttr) (stack heapStack : Option Nat) :
    SparesWaiting k (threadCreate cfg k t entry arg attr stack heapStack).2 := by
  unfold threadCreate
  split
  · exact .refl k
  · split
    · exact .refl k
    · split
      · exact .refl k
      · dsimp only
        split
        · exact .refl k
        · intro u hu
          have hut : u ≠ t := fun he => ht (he ▸ hu)
          refine ⟨Function.update_of_ne hut _ _, ?_⟩
          rw [schedEnqueue_thr, Function.update_of_ne hut]
          dsimp only
          rw [Function.update_of_ne hut]
          exact hu

theorem sparesWaiting_delete (ht : (k.thr t).state ≠ .waiting) :
    SparesWaiting k (threadDelete k t) := by
  unfold threadDelete
  refine (sparesWaiting_dequeue_if _).trans (sparesWaiting_mod _ fun h => ?_)
  rw [dequeue_if_state] at h
  exact absurd h ht

theorem sparesWaiting_suspend (ht : (k.thr t).state ≠ .waiting) :
    SparesWaiting k (threadSuspend k t).2 := by
  unfold threadSuspend
  split
  · exact .refl k
  · dsimp only
    refine (sparesWaiting_dequeue_if _).trans (sparesWaiting_mod _ fun h => ?_)
    rw [dequeue_if_state] at h
    exact absurd h ht

theorem sparesWaiting_resume : SparesWaiting k (threadResume k t).2 := by
  unfold threadResume
  split
  · exact .refl k
  · rename_i hsusp
    refine sparesWaiting_enqueue ?_
    rw [not_not.mp hsusp]
    decide

theorem sparesWaiting_requeue (ht : (k.thr t).state ≠ .waiting) :
    SparesWaiting k ((k.schedDequeue t).schedEnqueue t) :=
  sparesWaiting_dequeue.trans (sparesWaiting_enqueue ht)

theorem sparesWaiting_restart (ht : (k.thr t).state ≠ .waiting) :
    SparesWaiting k (threadRestart k t) := by
  unfold threadRestart
  dsimp only
  refine SparesWaiting.trans (.trans ?_ (sparesWaiting_mod _ ?_)) (sparesWaiting_enqueue ?_)
  · split
    · exact sparesWaiting_dequeue
    · split
      · exact .of_thr rfl fun _ => id
      · exact .refl k
  · intro h
    refine absurd h ?_
    split
    · exact ht
    · split <;> exact ht
  · rw [modThread_self]
    simp

theorem sparesWaiting_setPriority (priority : UInt8) :
    SparesWaiting k (threadSetPriority k t priority).2 := by
  unfold threadSetPriority
  split
  · exact .refl k
  · dsimp only
    by_cases hready : (k.thr t).state = .ready
    · simp only [if_pos hready]
      refine SparesWaiting.trans sparesWaiting_dequeue (.trans (sparesWaiting_mod _ ?_)
        (sparesWaiting_enqueue ?_))
      · exact fun h => h
      · rw [modThread_self]
        show (k.thr t).state ≠ _
        rw [hready]
        decide
    · simp only [if_neg hready]
      exact sparesWaiting_mod _ fun h => h

theorem sparesWaiting_switchTo (ht : (k.thr t).state ≠ .waiting) :
    SparesWaiting k (k.switchTo t) := by
  refine .of_thr (switchTo_waitNode k t) fun u hu => ?_
  obtain ⟨st, hst, hcase⟩ := switchTo_thr k t u
  rw [hst]
  rcases hcase with ⟨hold, -⟩ | ⟨-, -, hsame⟩
  · rcases hold with rfl | hact
    · exact absurd hu ht
    · rw [hu] at hact
      exact absurd hact (by decide)
  · exact hsame.trans hu

theorem sparesWaiting_wakeLoop {now : UInt32} : ∀ {fuel : Nat} {k : Kernel} {o : Option Tid},
    wakeSafe now fuel k o → SparesWaiting k (wakeLoop now fuel k o)
  | 0, k, _, _ => .refl k
  | _ + 1, k, none, _ => .refl k
  | fuel + 1, k, some t, h => by
      rw [wakeLoop]
      rw [wakeSafe] at h
      split
      · rename_i hdue
        rw [if_pos hdue] at h
        obtain ⟨hw, hrest⟩ := (Bool.and_eq_true _ _).mp h
        have hremove : SparesWaiting k (k.sleepRemove t) := .of_thr rfl fun _ => id
        exact (hremove.trans (sparesWaiting_enqueue (of_decide_eq_true hw))).trans
          (sparesWaiting_wakeLoop hrest)
      · exact .refl k

theorem sparesWaiting_timeslice (cfg : Config) (k : Kernel) :
    SparesWaiting k (k.schedTimesliceTick cfg) := by
  unfold schedTimesliceTick
  split
  · exact .refl k
  · split
    · exact .refl k
    · split
      · exact .refl k
      · rename_i hrun
        split
        · exact .of_thr rfl fun _ => id
        · dsimp only
          split
          · refine SparesWaiting.trans (.of_thr rfl fun _ => id) (sparesWaiting_requeue ?_)
            exact not_not.mp hrun ▸ (by decide)
          · exact .of_thr rfl fun _ => id

end Spares

/-! ## Sections that wake -/

section Wake

variable {k : Kernel} {l : VList Tid} {xs : List Tid}

/-- What a release does: the list holds `ys` of the threads `xs`, and no other thread is woken. -/
structure Releases (k : Kernel) (xs : List Tid) (k' : Kernel) (l' : VList Tid) (ys : List Tid) :
    Prop where
  parked : Parked k' l' ys
  sub : ∀ t ∈ ys, t ∈ xs
  frame : ∀ t, t ∉ xs → k'.waitNode t = k.waitNode t ∧ (k'.thr t).state = (k.thr t).state
  current : k'.current = k.current

theorem Parked.releases (h : Parked k l xs) : Releases k xs k l xs :=
  ⟨h, fun _ => id, fun _ _ => ⟨rfl, rfl⟩, rfl⟩

theorem wakeHead_releases (h : Parked k l xs) :
    Releases k xs (k.wakeHead l).1 (k.wakeHead l).2 xs.tail := by
  cases xs with
  | nil =>
      rw [wakeHead_nil h.rep]
      exact h.releases
  | cons x xs =>
      obtain ⟨hp, hthr, hframe, hcur, -⟩ := wakeHead_cons h
      refine ⟨hp, fun t ht => List.mem_cons_of_mem _ ht, fun t ht => ⟨hframe t ht, ?_⟩, hcur⟩
      have htx : t ≠ x := fun he => ht (he ▸ List.mem_cons_self)
      rw [hthr, Function.update_of_ne htx]

theorem wakeAll_releases : ∀ {fuel : Nat} {k : Kernel} {l : VList Tid} {xs : List Tid},
    Parked k l xs →
    ∃ ys, Releases k xs (Kernel.wakeAll fuel k l).1 (Kernel.wakeAll fuel k l).2 ys
  | 0, _, _, xs, h => ⟨xs, h.releases⟩
  | fuel + 1, k, l, xs, h => by
      cases xs with
      | nil =>
          rw [Kernel.wakeAll, waitGetHead_nil h.rep]
          exact ⟨[], h.releases⟩
      | cons x xs =>
          have hone := wakeHead_releases h
          have hw : Kernel.wakeAll (fuel + 1) k l
              = Kernel.wakeAll fuel (k.wakeHead l).1 (k.wakeHead l).2 := by
            obtain ⟨k', l', hget, -⟩ := waitGetHead_cons h.rep
            rw [Kernel.wakeAll, Kernel.wakeHead, hget]
          rw [hw]
          obtain ⟨ys, hrest⟩ := wakeAll_releases hone.parked
          refine ⟨ys, hrest.parked, fun t ht => hone.sub t (hrest.sub t ht), fun t ht => ?_,
            hrest.current.trans hone.current⟩
          obtain ⟨hn, hs⟩ := hone.frame t ht
          obtain ⟨hn', hs'⟩ := hrest.frame t fun hin => ht (hone.sub t hin)
          exact ⟨hn'.trans hn, hs'.trans hs⟩

/-- The loop of `vibe_event_post`, behind the threads `pre` that it has left on the list. -/
theorem eventPostLoop_releases (flags : UInt32) : ∀ {fuel : Nat} {k : Kernel} {l : VList Tid}
    {ctxs : EventCtxMem} {pre post : List Tid}, Parked k l (pre ++ post) →
    ∃ ys, Releases k (pre ++ post) (eventPostLoop flags fuel k l ctxs post.head?).1
      (eventPostLoop flags fuel k l ctxs post.head?).2.1 ys
  | 0, _, _, _, pre, post, h => ⟨pre ++ post, h.releases⟩
  | fuel + 1, _, _, _, pre, [], h => ⟨pre ++ [], h.releases⟩
  | fuel + 1, k, l, ctxs, pre, t :: post, h => by
      have hnext : (k.waitNode t).next = post.head? := by rw [h.rep.chain.at]; simp
      have hskip : ∃ ys, Releases k (pre ++ t :: post)
          (eventPostLoop flags fuel k l ctxs post.head?).1
          (eventPostLoop flags fuel k l ctxs post.head?).2.1 ys := by
        have happ : pre ++ t :: post = (pre ++ [t]) ++ post := by simp
        rw [happ] at h ⊢
        exact eventPostLoop_releases flags h
      rw [List.head?_cons, eventPostLoop, hnext]
      dsimp only
      split
      · exact hskip
      · split
        · -- the thread is taken off the list and enqueued
          have hin : t ∈ pre ++ t :: post := by simp
          have hsub : ∀ u ∈ pre ++ post, u ∈ pre ++ t :: post := by
            intro u hu
            rcases List.mem_append.mp hu with hpre | hpost
            · exact List.mem_append_left _ hpre
            · exact List.mem_append_right _ (List.mem_cons_of_mem _ hpost)
          obtain ⟨ys, hrest⟩ := eventPostLoop_releases flags h.release
          refine ⟨ys, hrest.parked, fun u hu => hsub u (hrest.sub u hu), fun u hu => ?_,
            hrest.current⟩
          obtain ⟨hn, hs⟩ := hrest.frame u fun hmem => hu (hsub u hmem)
          have hut : u ≠ t := fun he => hu (he ▸ hin)
          refine ⟨hn.trans (h.rep.remove_frame hin hu), hs.trans ?_⟩
          rw [schedEnqueue_thr, Function.update_of_ne hut]
          rfl
        · exact hskip

end Wake

/-! ## The wait lists of the machine -/

/-- Every list `L` holds the threads `xs L`, blocked in calls that wait on it. -/
structure Waiters (s : Sys) (xs : WaitList → List Tid) : Prop where
  parked : ∀ L : WaitList, Parked s.k (L.anchor s) (xs L)
  once : ∀ {L M : WaitList} {t}, t ∈ xs L → t ∈ xs M → L = M
  inCall : ∀ {L : WaitList} {t}, t ∈ xs L → L.Holds (s.pc t)
  /-- the current thread has yet to give the CPU away -/
  running : ∀ {L : WaitList} {t}, s.k.current = some t → t ∈ xs L → ∃ a, s.pc t = .resched a

/-- The threads of the lists keep their wait nodes and go on waiting. -/
def SparesLinked (xs : WaitList → List Tid) (k k' : Kernel) : Prop :=
  ∀ M, ∀ t ∈ xs M, (k.thr t).state = .waiting →
    k'.waitNode t = k.waitNode t ∧ (k'.thr t).state = .waiting

theorem SparesWaiting.linked {k k' : Kernel} {xs : WaitList → List Tid} (h : SparesWaiting k k') :
    SparesLinked xs k k' := fun _ t _ ht => h t ht

namespace Waiters

variable {s s' : Sys} {xs : WaitList → List Tid} {L : WaitList} {self t : Tid} {ys : List Tid}

theorem nodes (h : Waiters s xs) (L : WaitList) : L.nodes s = xs L := (h.parked L).nodes

theorem blockedOn (h : Waiters s xs) (ht : t ∈ xs L) : s.BlockedOn t L :=
  ⟨(h.parked L).waiting t ht, h.inCall ht⟩

/-- A thread that is not WAITING is on no list. -/
theorem not_mem (h : Waiters s xs) (ht : (s.k.thr t).state ≠ .waiting) (L : WaitList) :
    t ∉ xs L := fun hin => ht ((h.parked L).waiting t hin)

/-- Neither is the current thread in its own code or between two reschedules. -/
theorem not_mem_user (h : Waiters s xs) (hcur : s.k.current = some self)
    (hpc : ∀ a, s.pc self ≠ .resched a) (L : WaitList) : self ∉ xs L := fun hin =>
  let ⟨a, ha⟩ := h.running hcur hin
  hpc a ha

/-- The lists stay as they are. -/
theorem same (h : Waiters s xs) (hk : SparesLinked xs s.k s'.k) (hcur : s'.k.current = s.k.current)
    (hanchor : ∀ M : WaitList, M.anchor s' = M.anchor s)
    (hpc : ∀ M, ∀ t ∈ xs M, s'.pc t = s.pc t) : Waiters s' xs := by
  constructor
  case parked =>
      intro M
      have hw := (h.parked M).waiting
      rw [hanchor M]
      exact ⟨(h.parked M).rep.congr fun t ht => (hk M t ht (hw t ht)).1,
        fun t ht => (hk M t ht (hw t ht)).2⟩
  case once => exact h.once
  case inCall =>
      intro M t ht
      rw [hpc M t ht]
      exact h.inCall ht
  case running =>
      intro M t ht hin
      rw [hcur] at ht
      rw [hpc M t hin]
      exact h.running ht hin

/-- One list changes, and the others stay as they are. -/
theorem change (h : Waiters s xs) (hL : Parked s'.k (L.anchor s') ys)
    (hother : ∀ M : WaitList, M ≠ L → Parked s'.k (M.anchor s') (xs M))
    (hcur : s'.k.current = s.k.current) (hpc : ∀ M, ∀ t ∈ xs M, s'.pc t = s.pc t)
    (hnew : ∀ t ∈ ys, t ∈ xs L ∨ (∀ M, t ∉ xs M) ∧ ∃ a, L.Wakes a ∧ s'.pc t = .resched a) :
    Waiters s' (Function.update xs L ys) := by
  have hold : ∀ M t, M ≠ L → t ∈ Function.update xs L ys M → t ∈ xs M := by
    intro M t hM ht
    rwa [Function.update_of_ne hM] at ht
  constructor
  case parked =>
      intro M
      by_cases hM : M = L
      · subst hM
        rw [Function.update_self]
        exact hL
      · rw [Function.update_of_ne hM]
        exact hother M hM
  case once =>
      -- a new thread was on no list, and the others on one
      have hcross : ∀ {M t}, M ≠ L → t ∈ xs M → t ∉ ys := by
        intro M t hM hin hys
        rcases hnew t hys with hL | ⟨hout, -⟩
        · exact hM (h.once hin hL)
        · exact hout M hin
      intro M N t hM hN
      by_cases hML : M = L <;> by_cases hNL : N = L
      · rw [hML, hNL]
      · subst hML
        rw [Function.update_self] at hM
        exact absurd hM (hcross hNL (hold N t hNL hN))
      · subst hNL
        rw [Function.update_self] at hN
        exact absurd hN (hcross hML (hold M t hML hM))
      · exact h.once (hold M t hML hM) (hold N t hNL hN)
  case inCall =>
      intro M t ht
      by_cases hM : M = L
      · subst hM
        rw [Function.update_self] at ht
        rcases hnew t ht with hin | ⟨-, a, ha, hp⟩
        · rw [hpc M t hin]
          exact h.inCall hin
        · exact ⟨a, ha, Or.inl hp⟩
      · rw [hpc M t (hold M t hM ht)]
        exact h.inCall (hold M t hM ht)
  case running =>
      intro M t hc ht
      rw [hcur] at hc
      by_cases hM : M = L
      · subst hM
        rw [Function.update_self] at ht
        rcases hnew t ht with hin | ⟨-, a, -, hp⟩
        · rw [hpc M t hin]
          exact h.running hc hin
        · exact ⟨a, hp⟩
      · rw [hpc M t (hold M t hM ht)]
        exact h.running hc (hold M t hM ht)

/-- A section takes threads off `L`. -/
theorem release (h : Waiters s xs) (hr : Releases s.k (xs L) s'.k (L.anchor s') ys)
    (hanchor : ∀ M : WaitList, M ≠ L → M.anchor s' = M.anchor s)
    (hpc : ∀ M, ∀ t ∈ xs M, s'.pc t = s.pc t) : Waiters s' (Function.update xs L ys) := by
  refine h.change hr.parked (fun M hM => ?_) hr.current hpc fun t ht => Or.inl (hr.sub t ht)
  have hout : ∀ t ∈ xs M, t ∉ xs L := fun t ht hin => hM (h.once ht hin)
  rw [hanchor M hM]
  exact (h.parked M).congr (fun t ht => (hr.frame t (hout t ht)).1)
    fun t ht => (hr.frame t (hout t ht)).2

/-- The current thread is linked on `L`, and its call goes on at `a` from there. -/
theorem block (h : Waiters s xs) {a : After} (hself : ∀ M, self ∉ xs M)
    (hL : ListRep s'.k.waitNode (L.anchor s') ys)
    (hys : ∀ t, t ∈ ys ↔ t = self ∨ t ∈ xs L)
    (hwait : (s'.k.thr self).state = .waiting)
    (hnode : ∀ t, t ∉ xs L → t ≠ self → s'.k.waitNode t = s.k.waitNode t)
    (hstate : ∀ t, t ≠ self → (s.k.thr t).state = .waiting → (s'.k.thr t).state = .waiting)
    (hcur : s'.k.current = s.k.current)
    (hanchor : ∀ M : WaitList, M ≠ L → M.anchor s' = M.anchor s) (ha : L.Wakes a)
    (hpc : s'.pc = Function.update s.pc self (.resched a)) :
    Waiters s' (Function.update xs L ys) := by
  have hne : ∀ {M t}, t ∈ xs M → t ≠ self := fun {M t} ht he => hself M (he ▸ ht)
  refine h.change ⟨hL, fun t ht => ?_⟩ (fun M hM => ?_) hcur (fun M t ht => ?_) fun t ht => ?_
  · rcases (hys t).mp ht with rfl | hin
    · exact hwait
    · exact hstate t (hne hin) ((h.parked L).waiting t hin)
  · rw [hanchor M hM]
    refine ⟨(h.parked M).rep.congr fun t ht => ?_, fun t ht => ?_⟩
    · exact hnode t (fun hin => hM (h.once ht hin)) (hne ht)
    · exact hstate t (hne ht) ((h.parked M).waiting t ht)
  · rw [hpc, Function.update_of_ne (hne ht)]
  · rcases (hys t).mp ht with rfl | hin
    · exact Or.inr ⟨hself, a, ha, by rw [hpc, Function.update_self]⟩
    · exact Or.inl hin

end Waiters

end VibeRtos
