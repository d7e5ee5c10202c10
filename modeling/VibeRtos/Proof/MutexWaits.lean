import VibeRtos.Proof.MutexSteps

/-!
# Who waits for which mutex

`Waits s w`: the wait list of mutex `m` holds the threads `w m`, all of them blocked in
a lock of `m`, none of them its owner. `Change` says what a step does to owners,
counts, wait lists and priorities; `Waits.step` shows that the machine's steps are
exactly that and keep `Waits`.
-/

namespace VibeRtos

open Links Kernel MutexSys

/-- The wait lists of the mutexes. -/
structure Waits (s : MutexSys) (w : Nat → List Tid) : Prop where
  rep : ∀ m, ListRep s.k.waitNode (s.mutex m).waitList (w m)
  once : ∀ {m n t}, t ∈ w m → t ∈ w n → m = n
  waiting : ∀ {m t}, t ∈ w m → (s.k.thr t).state = .waiting ∧ s.pc t = .waiting m
  notOwner : ∀ {m t}, t ∈ w m → (s.mutex m).owner ≠ some t
  free : ∀ {m}, (s.mutex m).owner = none → w m = []
  /-- a caller that is blocked and no longer queued has been given the mutex -/
  handed : ∀ {m t}, s.pc t = .waiting m → t ∈ w m ∨ (s.mutex m).owner = some t

/-- Nobody's priority or base priority changes. -/
def SamePrio (s s' : MutexSys) : Prop := ∀ u, (s'.k.thr u).priority = (s.k.thr u).priority
  ∧ (s'.k.thr u).basePriority = (s.k.thr u).basePriority

/-- Only `t`'s priority changes, to `p`. -/
def SetPrio (s s' : MutexSys) (t : Tid) (p : Prio) : Prop :=
  ∀ u, (s'.k.thr u).priority = (if u = t then p else (s.k.thr u).priority)
    ∧ (s'.k.thr u).basePriority = (s.k.thr u).basePriority

/-- What a step does to the mutexes, the wait lists, the counts and the priorities. -/
inductive Change (s : MutexSys) (w : Nat → List Tid) :
    Label → MutexSys → (Nat → List Tid) → Prop where
  /-- a dispatch, a return, a busy trylock or a refused unlock -/
  | still {l : Label} {s' : MutexSys} (hmutex : s'.mutex = s.mutex) (hlocks : s'.locks = s.locks)
      (hunlocks : s'.unlocks = s.unlocks) (hprio : SamePrio s s')
      (hrefused : ∀ m, l = .unlock m → (s.mutex m).owner ≠ s.k.current)
      (hbusy : ∀ m timeout, l = .lock m timeout → timeout = noWait) :
      Change s w l s' w
  | relock {l : Label} {s' : MutexSys} (self : Tid) (m : Nat) (timeout : UInt32)
      (hlabel : l = .lock m timeout ∨ l = .trylock m) (hself : s.k.current = some self)
      (howner : (s.mutex m).owner = some self)
      (hmutex : s'.mutex = Function.update s.mutex m
        { s.mutex m with lockCount := (s.mutex m).lockCount + 1 })
      (hlocks : s'.locks = bump s.locks self m) (hunlocks : s'.unlocks = s.unlocks)
      (hprio : SamePrio s s') : Change s w l s' w
  | acquire {l : Label} {s' : MutexSys} (self : Tid) (m : Nat) (timeout : UInt32)
      (hlabel : l = .lock m timeout ∨ l = .trylock m) (hself : s.k.current = some self)
      (howner : (s.mutex m).owner = none)
      (hmutex : s'.mutex = Function.update s.mutex m { s.mutex m with
        owner := some self, lockCount := 1, ownerOrigPrio := (s.k.thr self).priority })
      (hlocks : s'.locks = bump s.locks self m) (hunlocks : s'.unlocks = s.unlocks)
      (hprio : SamePrio s s') : Change s w l s' w
  | block {s' : MutexSys} (self owner : Tid) (m : Nat) (timeout : UInt32)
      (pre post : List Tid) (hself : s.k.current = some self)
      (hfar : ∀ n, self ∉ w n)
      (howner : (s.mutex m).owner = some owner) (hne : owner ≠ self) (hwait : timeout ≠ noWait)
      (hw : w m = pre ++ post)
      (hmutex : ∃ list, s'.mutex = Function.update s.mutex m { s.mutex m with waitList := list })
      (hlocks : s'.locks = s.locks) (hunlocks : s'.unlocks = s.unlocks)
      (hprio : SetPrio s s' owner (max (s.k.thr owner).priority (s.k.thr self).priority)) :
      Change s w (.lock m timeout) s' (Function.update w m (pre ++ self :: post))
  | release {s' : MutexSys} (self : Tid) (m : Nat) (hself : s.k.current = some self)
      (howner : (s.mutex m).owner = some self) (hmore : (s.mutex m).lockCount - 1 > 0)
      (hmutex : s'.mutex = Function.update s.mutex m
        { s.mutex m with lockCount := (s.mutex m).lockCount - 1 })
      (hlocks : s'.locks = s.locks) (hunlocks : s'.unlocks = bump s.unlocks self m)
      (hprio : SamePrio s s') : Change s w (.unlock m) s' w
  | free {s' : MutexSys} (self : Tid) (m : Nat) (hself : s.k.current = some self)
      (hfar : ∀ n, self ∉ w n)
      (howner : (s.mutex m).owner = some self) (hlast : (s.mutex m).lockCount - 1 = 0)
      (hw : w m = [])
      (hmutex : s'.mutex = Function.update s.mutex m
        { s.mutex m with owner := none, lockCount := 0 })
      (hlocks : s'.locks = s.locks) (hunlocks : s'.unlocks = bump s.unlocks self m)
      (hprio : SetPrio s s' self (s.mutex m).ownerOrigPrio) : Change s w (.unlock m) s' w
  | handOff {s' : MutexSys} (self next : Tid) (rest : List Tid) (m : Nat)
      (hself : s.k.current = some self) (hfar : ∀ n, self ∉ w n)
      (howner : (s.mutex m).owner = some self) (hlast : (s.mutex m).lockCount - 1 = 0)
      (hw : w m = next :: rest)
      (hmutex : ∃ list, s'.mutex = Function.update s.mutex m
        { owner := some next, lockCount := 1, waitList := list,
          ownerOrigPrio := (s.k.thr next).basePriority })
      (hlocks : s'.locks = bump s.locks next m) (hunlocks : s'.unlocks = bump s.unlocks self m)
      (hprio : SetPrio s s' self (s.mutex m).ownerOrigPrio) :
      Change s w (.unlock m) s' (Function.update w m rest)

variable {s s' : MutexSys} {w : Nat → List Tid} {self : Tid} {m : Nat}

/-- A thread that can run is in no wait list. -/
theorem Waits.not_mem (h : Waits s w) (hact : (s.k.thr self).state.Active) (n : Nat) :
    self ∉ w n := by
  intro hmem
  rw [(h.waiting hmem).1] at hact
  exact absurd hact (by decide)

/-- The wait lists are unaffected by what happens to threads outside them. -/
theorem Waits.congr (h : Waits s w) (hwait : s'.k.waitNode = s.k.waitNode)
    (hlist : ∀ n, (s'.mutex n).waitList = (s.mutex n).waitList)
    (howner : ∀ n, (s'.mutex n).owner = (s.mutex n).owner)
    (hstate : ∀ n t, t ∈ w n → (s'.k.thr t).state = (s.k.thr t).state)
    (hpc : s'.pc = s.pc) : Waits s' w where
  rep n := by rw [hwait, hlist n]; exact h.rep n
  once := h.once
  waiting := by
    intro n t ht
    rw [hstate n t ht, hpc]
    exact h.waiting ht
  notOwner := by
    intro n t ht
    rw [howner n]
    exact h.notOwner ht
  free := by
    intro n hn
    rw [howner n] at hn
    exact h.free hn
  handed := by
    intro n t ht
    rw [hpc] at ht
    rw [howner n]
    exact h.handed ht

theorem Waits.dispatch (h : Waits s w) {t : Tid} (hready : (s.k.thr t).state = .ready) :
    Waits { s with k := s.k.switchTo t } w
      ∧ Change s w (.dispatch t) { s with k := s.k.switchTo t } w := by
  have hsame : ∀ u, ∃ st, (s.k.switchTo t).thr u = { s.k.thr u with state := st }
      ∧ ((s.k.thr u).state = .waiting → st = .waiting) := by
    intro u
    obtain ⟨st, hst, hcase⟩ := switchTo_thr s.k t u
    refine ⟨st, hst, fun hwait => ?_⟩
    rcases hcase with ⟨hold, -⟩ | ⟨-, -, heq⟩
    · rcases hold with hut | hold
      · rw [hut, hready] at hwait
        exact absurd hwait (by simp)
      · rw [hwait] at hold
        exact absurd hold (by decide)
    · rw [heq, hwait]
  have hwait := switchTo_waitNode s.k t
  refine ⟨h.congr hwait (fun _ => rfl) (fun _ => rfl) ?_ rfl, ?_⟩
  · intro n u hu
    obtain ⟨st, hst, hkeep⟩ := hsame u
    have hw := (h.waiting hu).1
    show ((s.k.switchTo t).thr u).state = _
    rw [hst, hw]
    exact hkeep hw
  · refine Change.still rfl rfl rfl (fun u => ?_) (by simp) (by simp)
    obtain ⟨st, hst, -⟩ := hsame u
    show ((s.k.switchTo t).thr u).priority = _ ∧ ((s.k.switchTo t).thr u).basePriority = _
    rw [hst]
    exact ⟨rfl, rfl⟩

/-- A returning caller leaves `vibe_mutex_lock` as the owner. -/
theorem Waits.wake (h : Waits s w) (hact : (s.k.thr self).state.Active) :
    Waits (s.wake self) w ∧ Change s w .wake (s.wake self) w := by
  refine ⟨⟨h.rep, h.once, ?_, h.notOwner, h.free, ?_⟩,
    Change.still rfl rfl rfl (fun _ => ⟨rfl, rfl⟩) (by simp) (by simp)⟩
  · intro n t ht
    have hne : t ≠ self := by
      intro he
      exact h.not_mem hact n (he ▸ ht)
    show _ ∧ Function.update s.pc self .run t = _
    rw [Function.update_of_ne hne]
    exact h.waiting ht
  · intro n t ht
    have ht' : Function.update s.pc self .run t = .waiting n := ht
    rw [Function.update_apply] at ht'
    split at ht'
    · exact absurd ht' (by simp)
    · exact h.handed ht'

/-- Only mutex `m` and its wait list change: what has to be shown is about them. -/
theorem Waits.update (h : Waits s w) {mx : Mutex} {xs : List Tid}
    (hmutex : s'.mutex = Function.update s.mutex m mx)
    (hrep : ListRep s'.k.waitNode mx.waitList xs)
    (hframe : ∀ x, x ∉ w m → x ∉ xs → s'.k.waitNode x = s.k.waitNode x)
    (hnew : ∀ t ∈ xs, ∀ n, n ≠ m → t ∉ w n)
    (hwait : ∀ t ∈ xs, (s'.k.thr t).state = .waiting ∧ s'.pc t = .waiting m)
    (hothers : ∀ n, n ≠ m → ∀ t ∈ w n, (s'.k.thr t).state = .waiting ∧ s'.pc t = .waiting n)
    (howner : ∀ t ∈ xs, mx.owner ≠ some t) (hfree : mx.owner = none → xs = [])
    (hhanded : ∀ t, s'.pc t = .waiting m → t ∈ xs ∨ mx.owner = some t)
    (hpc : ∀ n, n ≠ m → ∀ t, s'.pc t = .waiting n → s.pc t = .waiting n) :
    Waits s' (Function.update w m xs) := by
  refine ⟨?_, ?_, ?_, ?_, ?_, ?_⟩
  · intro n
    rw [hmutex]
    by_cases hn : n = m
    · subst hn
      rw [Function.update_self, Function.update_self]
      exact hrep
    · rw [Function.update_of_ne hn, Function.update_of_ne hn]
      refine (h.rep n).congr fun x hx => hframe x ?_ ?_
      · intro hxm
        exact hn (h.once hx hxm)
      · intro hxs
        exact hnew x hxs n hn hx
  · intro a b t ha hb
    rw [Function.update_apply] at ha hb
    split at ha <;> split at hb
    · rename_i ham hbm
      rw [ham, hbm]
    · rename_i hbm
      exact absurd hb (hnew t ha b hbm)
    · rename_i ham _
      exact absurd ha (hnew t hb a ham)
    · exact h.once ha hb
  · intro n t ht
    rw [Function.update_apply] at ht
    split at ht
    · rename_i hn
      rw [hn]
      exact hwait t ht
    · rename_i hn
      exact hothers n hn t ht
  · intro n t ht
    rw [Function.update_apply] at ht
    rw [hmutex, Function.update_apply]
    split at ht
    · rename_i hn
      rw [if_pos hn]
      exact howner t ht
    · rename_i hn
      rw [if_neg hn]
      exact h.notOwner ht
  · intro n hnone
    rw [hmutex, Function.update_apply] at hnone
    rw [Function.update_apply]
    split at hnone
    · rename_i hn
      rw [if_pos hn]
      exact hfree hnone
    · rename_i hn
      rw [if_neg hn]
      exact h.free hnone
  · intro n t ht
    rw [hmutex, Function.update_apply, Function.update_apply]
    split
    · rename_i hn
      rw [hn] at ht
      exact hhanded t ht
    · rename_i hn
      exact h.handed (hpc n hn t ht)

/-- The same when the wait list of `m` and the threads in the lists stay as they are. -/
theorem Waits.update_same (h : Waits s w) {mx : Mutex}
    (hmutex : s'.mutex = Function.update s.mutex m mx)
    (hlist : mx.waitList = (s.mutex m).waitList) (hnode : s'.k.waitNode = s.k.waitNode)
    (hstate : ∀ n t, t ∈ w n → (s'.k.thr t).state = (s.k.thr t).state) (hpc : s'.pc = s.pc)
    (howner : ∀ t ∈ w m, mx.owner ≠ some t) (hfree : mx.owner = none → w m = [])
    (hhanded : ∀ t, s.pc t = .waiting m → t ∈ w m ∨ mx.owner = some t) : Waits s' w := by
  have hstay : ∀ n t, t ∈ w n → (s'.k.thr t).state = .waiting ∧ s'.pc t = .waiting n := by
    intro n t ht
    rw [hstate n t ht, hpc]
    exact h.waiting ht
  have hup : Waits s' (Function.update w m (w m)) := by
    refine h.update hmutex ?_ (fun x _ _ => by rw [hnode]) ?_ (hstay m) (fun n _ => hstay n) howner
      hfree ?_ ?_
    · rw [hlist, hnode]
      exact h.rep m
    · intro t ht n hn htn
      exact hn (h.once htn ht)
    · rw [hpc]
      exact hhanded
    · intro n _ t
      rw [hpc]
      exact id
  rwa [Function.update_eq_self] at hup

theorem Waits.lock (h : Waits s w) {timeout : UInt32} {l : Label}
    (hself : s.k.current = some self) (hact : (s.k.thr self).state.Active)
    (hlabel : l = .lock m timeout ∨ l = .trylock m ∧ timeout = noWait)
    (hs : s.lock self m timeout = some s') : ∃ w', Waits s' w' ∧ Change s w l s' w' := by
  have hlabel' : l = .lock m timeout ∨ l = .trylock m := hlabel.imp_right And.left
  have hfar := h.not_mem hact
  obtain ⟨⟨k', mx, f⟩, hl, rfl⟩ := Option.map_eq_some_iff.mp hs
  rcases mutexLock_cases (h.rep m) (hfar m) hl with
    ⟨howner, rfl, rfl, rfl⟩ | ⟨howner, rfl, rfl, rfl⟩ | ⟨owner, howner, hne, hnowait, rfl, rfl, rfl⟩
    | ⟨owner, howner, hne, hwait, rfl, ⟨stop, hthr⟩, -, ⟨list, pre, post, rfl, hw, hrep⟩, hframe⟩
  · refine ⟨w, h.update_same rfl rfl rfl (fun _ _ _ => rfl) rfl ?_ ?_ ?_,
      Change.relock self m timeout hlabel' hself howner rfl rfl rfl (fun _ => ⟨rfl, rfl⟩)⟩
    · exact fun t ht => h.notOwner ht
    · exact fun hnone => h.free hnone
    · exact fun t ht => h.handed ht
  · -- a free mutex has no waiters
    have hnil := h.free howner
    refine ⟨w, h.update_same rfl rfl rfl (fun _ _ _ => rfl) rfl ?_ ?_ ?_,
      Change.acquire self m timeout hlabel' hself howner rfl rfl rfl (fun _ => ⟨rfl, rfl⟩)⟩
    · intro t ht
      rw [hnil] at ht
      exact absurd ht (by simp)
    · exact fun _ => hnil
    · intro t ht
      rcases h.handed ht with hin | hown
      · exact Or.inl hin
      · rw [howner] at hown
        exact absurd hown (by simp)
  · refine ⟨w, h.update_same rfl rfl rfl (fun _ _ _ => rfl) rfl ?_ ?_ ?_, ?_⟩
    · exact fun t ht => h.notOwner ht
    · exact fun hnone => h.free hnone
    · exact fun t ht => h.handed ht
    · refine Change.still ?_ rfl rfl (fun _ => ⟨rfl, rfl⟩) ?_ ?_
      · exact Function.update_eq_self m s.mutex
      · intro n hn
        rcases hlabel' with hl' | hl' <;> rw [hl'] at hn <;> exact absurd hn (by simp)
      · intro n t hn
        rcases hlabel with hl' | hl'
        · rw [hl'] at hn
          cases hn
          exact hnowait
        · rw [hl'.1] at hn
          exact absurd hn (by simp)
  · have hlock : l = .lock m timeout := by
      rcases hlabel with hl' | hl'
      · exact hl'
      · exact absurd hl'.2 hwait
    subst hlock
    have hstate : ∀ u, u ≠ self → (k'.thr u).state = (s.k.thr u).state := by
      intro u hu
      rw [hthr, blockedThr, Function.update_of_ne hu, Function.update_apply]
      split
      · rename_i huo
        rw [huo]
      · rfl
    have hother : ∀ n t, t ∈ w n → t ≠ self ∧ (k'.thr t).state = .waiting
        ∧ Function.update s.pc self (.waiting m) t = .waiting n := by
      intro n t ht
      have hts : t ≠ self := by
        intro he
        exact hfar n (he ▸ ht)
      rw [hstate t hts, Function.update_of_ne hts]
      exact ⟨hts, h.waiting ht⟩
    have hold : ∀ t ∈ pre ++ self :: post, t = self ∨ t ∈ w m := by
      intro t ht
      rw [hw]
      simp only [List.mem_append, List.mem_cons] at ht ⊢
      tauto
    refine ⟨_, h.update rfl hrep ?_ ?_ ?_ ?_ ?_ ?_ ?_ ?_, Change.block self owner m timeout pre post
      hself hfar howner hne hwait hw ⟨list, rfl⟩ rfl rfl ?_⟩
    · intro x hx hxs
      refine hframe x hx ?_
      intro he
      exact hxs (by simp [he])
    · intro t ht n hn htn
      rcases hold t ht with hts | htm
      · exact hfar n (hts ▸ htn)
      · exact hn (h.once htn htm)
    · intro t ht
      rcases hold t ht with hts | htm
      · subst hts
        refine ⟨?_, Function.update_self _ _ _⟩
        show (k'.thr t).state = _
        rw [hthr, blockedThr, Function.update_self]
      · exact (hother m t htm).2
    · exact fun n _ t ht => (hother n t ht).2
    · intro t ht he
      have he' : (s.mutex m).owner = some t := he
      rcases hold t ht with hts | htm
      · rw [howner, hts] at he'
        exact hne (Option.some.inj he')
      · exact h.notOwner htm he'
    · intro hnone
      have hnone' : (s.mutex m).owner = none := hnone
      rw [howner] at hnone'
      exact absurd hnone' (by simp)
    · intro t ht
      have ht' : Function.update s.pc self (.waiting m) t = .waiting m := ht
      by_cases hts : t = self
      · exact Or.inl (by simp [hts])
      · rw [Function.update_of_ne hts] at ht'
        rcases h.handed ht' with hin | hown
        · rw [hw] at hin
          refine Or.inl ?_
          simp only [List.mem_append, List.mem_cons] at hin ⊢
          tauto
        · exact Or.inr hown
    · intro n hn t ht
      have ht' : Function.update s.pc self (.waiting m) t = .waiting n := ht
      rw [Function.update_apply] at ht'
      split at ht'
      · exact absurd (MutexPc.waiting.inj ht').symm hn
      · exact ht'
    · intro u
      show (k'.thr u).priority = _ ∧ (k'.thr u).basePriority = _
      rw [hthr, blockedThr]
      by_cases hus : u = self
      · subst hus
        rw [Function.update_self, if_neg hne.symm]
        exact ⟨rfl, rfl⟩
      · rw [Function.update_of_ne hus, Function.update_apply]
        split
        · rename_i huo
          rw [huo]
          exact ⟨rfl, rfl⟩
        · exact ⟨rfl, rfl⟩

theorem Waits.unlock (h : Waits s w) (hself : s.k.current = some self)
    (hact : (s.k.thr self).state.Active) (hpc : s.pc self = .run) :
    ∃ w', Waits (s.unlock self m) w' ∧ Change s w (.unlock m) (s.unlock self m) w' := by
  have hfar := h.not_mem hact
  have hself_ne : ∀ {n t}, t ∈ w n → t ≠ self := by
    intro n t ht he
    exact hfar n (he ▸ ht)
  -- the unlocker is not behind a lock of `m`
  have hrunning : ∀ {n t}, s.pc t = .waiting n → t ≠ self := by
    intro n t ht he
    rw [he, hpc] at ht
    exact absurd ht (by simp)
  unfold MutexSys.unlock
  have hcases := @mutexUnlock_cases s.k (s.mutex m) self (w m) (h.rep m)
  rcases hcases with
    ⟨howner, heq⟩ | ⟨howner, hmore, heq⟩ | ⟨howner, hlast, hnil, k', heq, hthr, hcur, hnode⟩
    | ⟨howner, hlast, next, rest, hw, k', list, th, heq, hth, hthr, hcur, hrep, hframe⟩
  · rw [heq]
    refine ⟨w, h.update_same rfl rfl rfl (fun _ _ _ => rfl) rfl (fun t ht => h.notOwner ht)
      (fun hnone => h.free hnone) (fun t ht => h.handed ht), Change.still ?_ ?_ rfl
      (fun _ => ⟨rfl, rfl⟩) ?_ (by simp)⟩
    · exact Function.update_eq_self m s.mutex
    · dsimp only
      split
      · rw [if_neg (fun hc => howner hc.1)]
      · rfl
    · intro n hn
      cases hn
      rw [hself]
      exact howner
  · rw [heq]
    refine ⟨w, h.update_same rfl rfl rfl (fun _ _ _ => rfl) rfl (fun t ht => h.notOwner ht)
      (fun hnone => h.free hnone) (fun t ht => h.handed ht),
      Change.release self m hself howner hmore rfl ?_ (by simp) (fun _ => ⟨rfl, rfl⟩)⟩
    dsimp only
    rw [howner]
    simp
  · rw [heq]
    have hstate : ∀ n t, t ∈ w n → (k'.thr t).state = (s.k.thr t).state := by
      intro n t ht
      rw [hthr, Function.update_of_ne (hself_ne ht)]
    refine ⟨w, h.update_same rfl rfl hnode hstate rfl ?_ (fun _ => hnil) ?_,
      Change.free self m hself hfar howner hlast hnil rfl rfl (by simp) ?_⟩
    · exact fun t _ => by simp
    · intro t ht
      rcases h.handed ht with hin | hown
      · exact Or.inl hin
      · rw [howner] at hown
        exact absurd (Option.some.inj hown).symm (hrunning ht)
    · intro u
      show (k'.thr u).priority = _ ∧ (k'.thr u).basePriority = _
      rw [hthr, Function.update_apply]
      split
      · rename_i hu
        rw [hu]
        exact ⟨rfl, rfl⟩
      · exact ⟨rfl, rfl⟩
  · rw [heq]
    have hmem : ∀ t, t ∈ w m ↔ t = next ∨ t ∈ rest := by
      intro t
      rw [hw]
      exact List.mem_cons
    have hnext : next ∈ w m := (hmem next).mpr (Or.inl rfl)
    have hns : next ≠ self := hself_ne hnext
    have hnd : ∀ t ∈ rest, t ≠ next := by
      intro t ht he
      have hnodup := (h.rep m).nodup
      rw [hw] at hnodup
      exact (List.nodup_cons.mp hnodup).1 (he ▸ ht)
    have hstay : ∀ n t, t ∈ w n → t ≠ next → (k'.thr t).state = .waiting ∧ s.pc t = .waiting n := by
      intro n t ht htn
      rw [hthr, Function.update_of_ne htn, hth, Function.update_of_ne (hself_ne ht)]
      exact h.waiting ht
    refine ⟨_, h.update rfl hrep ?_ ?_ ?_ ?_ ?_ ?_ ?_ ?_, Change.handOff self next rest m hself hfar
      howner hlast hw ⟨list, ?_⟩ ?_ (by simp) ?_⟩
    · exact fun x hx _ => hframe x hx
    · intro t ht n hn htn
      exact hn (h.once htn ((hmem t).mpr (Or.inr ht)))
    · exact fun t ht => hstay m t ((hmem t).mpr (Or.inr ht)) (hnd t ht)
    · intro n hn t ht
      refine hstay n t ht ?_
      intro he
      exact hn (h.once (he ▸ ht) hnext)
    · intro t ht he
      exact hnd t ht (Option.some.inj he).symm
    · intro hnone
      exact absurd hnone (by simp)
    · intro t ht
      rcases h.handed ht with hin | hown
      · rcases (hmem t).mp hin with htn | hin
        · exact Or.inr (by rw [htn])
        · exact Or.inl hin
      · rw [howner] at hown
        exact absurd (Option.some.inj hown).symm (hrunning ht)
    · exact fun n _ t ht => ht
    · dsimp only
      rw [hth, Function.update_of_ne hns]
    · dsimp only
      rw [if_pos ⟨howner, hns⟩]
    · intro u
      show (k'.thr u).priority = _ ∧ (k'.thr u).basePriority = _
      rw [hthr, Function.update_apply, hth]
      by_cases hun : u = next
      · subst hun
        rw [if_pos rfl, Function.update_of_ne hns, if_neg hns]
        exact ⟨rfl, rfl⟩
      · rw [if_neg hun, Function.update_apply]
        split
        · rename_i hus
          rw [hus]
          exact ⟨rfl, rfl⟩
        · exact ⟨rfl, rfl⟩

/-- **Every step of the machine is a `Change` and keeps `Waits`.** -/
theorem Waits.step (h : Waits s w) {l : Label} (hs : s.step l = some s') :
    ∃ w', Waits s' w' ∧ Change s w l s' w' := by
  rcases step_cases hs with ⟨t, rfl, hready, rfl⟩ | ⟨self, hself, hact, hstep⟩
  · exact ⟨w, h.dispatch hready⟩
  · rcases hstep with ⟨m, timeout, hlabel, hpc, hlock⟩ | ⟨rfl, -, rfl⟩ | ⟨m, rfl, hpc, rfl⟩
    · exact h.lock hself hact hlabel hlock
    · exact ⟨w, h.wake hact⟩
    · exact h.unlock hself hact hpc

theorem Waits.initial (h : s.Initial) : Waits s fun _ => [] where
  rep m := by
    rw [h.mutex m]
    exact listRep_init _
  once := by
    intro m n t ht
    exact absurd ht (by simp)
  waiting := by
    intro m t ht
    exact absurd ht (by simp)
  notOwner := by
    intro m t ht
    exact absurd ht (by simp)
  free := fun _ => rfl
  handed := by
    intro m t ht
    rw [h.pc t] at ht
    exact absurd ht (by simp)

theorem Waits.waiters (h : Waits s w) (m : Nat) : s.waiters m = w m :=
  (h.rep m).nodes (length_le_walkBound (h.rep m).nodup)

end VibeRtos
