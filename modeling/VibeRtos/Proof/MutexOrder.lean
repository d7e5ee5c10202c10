import VibeRtos.Kernel.MutexOrder
import VibeRtos.Proof.MutexWaits

/-!
# Mutexes are handed over in order

`vibe_mutex_lock` looks for the first waiter of lower priority and links the caller in
front of it, behind that waiter's predecessor. Where the first waiter itself is of lower
priority there is no predecessor: the lists keep their order exactly as long as nobody
more urgent than the first waiter blocks.
-/

namespace VibeRtos

open Links Kernel MutexSys PrioFifo

/-! ## The insertion -/

section Insertion

variable {k k' : Kernel} {l l' : VList Tid} {self : Tid} {xs : List Tid}

/-- In front of a less urgent first waiter there is nothing to link behind. -/
theorem mutexQueue_none (hrep : ListRep k.waitNode l xs) :
    mutexQueue k l self = none
      ↔ ∃ head ∈ xs.head?, (k.thr head).priority < (k.thr self).priority := by
  have hnodes : listNodes k.waitNode l = xs := hrep.nodes (length_le_walkBound hrep.nodup)
  unfold mutexQueue
  rw [hnodes]
  cases hfind : xs.find? fun t => (k.thr t).priority < (k.thr self).priority with
  | none =>
      have hnot := List.find?_eq_none.mp hfind
      constructor
      · simp
      · rintro ⟨head, hhead, hlt⟩
        exact absurd (decide_eq_true hlt) (hnot head (List.mem_of_mem_head? hhead))
  | some t =>
      obtain ⟨ht, pre, post, rfl, hpre⟩ := List.find?_eq_some_iff_append.mp hfind
      have hat : k.waitNode t = ⟨pre.getLast?, post.head?⟩ := by simpa using hrep.chain.at
      dsimp only
      rw [hat]
      cases pre with
      | nil => simpa using ht
      | cons head pre =>
          have hge := hpre head (by simp)
          have hlast : (head :: pre).getLast? ≠ none := by simp
          cases hp : (head :: pre).getLast? with
          | none => exact absurd hp hlast
          | some p => simpa using hge

/-- Otherwise the caller goes in front of the first less urgent waiter. -/
theorem mutexQueue_some (hrep : ListRep k.waitNode l xs) (hself : self ∉ xs)
    (hord : Sorted (fun t => (k.thr t).priority) xs) (h : mutexQueue k l self = some (k', l')) :
    ∃ pre post, xs = pre ++ post ∧ ListRep k'.waitNode l' (pre ++ self :: post)
      ∧ (∀ t ∈ pre, (k.thr self).priority ≤ (k.thr t).priority)
      ∧ ∀ t ∈ post, (k.thr t).priority < (k.thr self).priority := by
  have hnodes : listNodes k.waitNode l = xs := hrep.nodes (length_le_walkBound hrep.nodup)
  unfold mutexQueue at h
  rw [hnodes] at h
  split at h
  · rename_i t hfind
    obtain ⟨ht, pre, post, rfl, hpre⟩ := List.find?_eq_some_iff_append.mp hfind
    have hat : k.waitNode t = ⟨pre.getLast?, post.head?⟩ := by simpa using hrep.chain.at
    rw [hat] at h
    cases hlast : pre.getLast? with
    | none =>
        rw [hlast] at h
        exact absurd h (by simp)
    | some p =>
        rw [hlast] at h
        obtain ⟨init, rfl⟩ := List.getLast?_eq_some_iff.mp hlast
        obtain ⟨rfl, rfl⟩ := Prod.mk.inj (Option.some.inj h)
        have hrep' : ListRep k.waitNode l (init ++ p :: t :: post) := by simpa using hrep
        have hins := hrep'.insertAfter (n := self) (by simpa using hself)
        refine ⟨init ++ [p], t :: post, rfl, by simpa using hins, ?_, ?_⟩
        · intro u hu
          simpa using hpre u hu
        · have hlt : (k.thr t).priority < (k.thr self).priority := by simpa using ht
          have htail := (List.pairwise_cons.mp (List.pairwise_append.mp hord).2.1).1
          intro u hu
          rcases List.mem_cons.mp hu with rfl | hu
          · exact hlt
          · exact (htail u hu).trans_lt hlt
  · rename_i hfind
    obtain ⟨rfl, rfl⟩ := Prod.mk.inj (Option.some.inj h)
    refine ⟨xs, [], by simp, hrep.append hself, ?_, by simp⟩
    intro t ht
    simpa using List.find?_eq_none.mp hfind t ht

end Insertion

/-! ## Locking -/

section Locking

variable {s s' : MutexSys} {w w' : Nat → List Tid} {self owner : Tid} {m : Nat} {timeout : UInt32}

/-- The kernel in which a blocking caller looks for its place. -/
def lockKernel (s : MutexSys) (self owner : Tid) (timeout : UInt32) : Kernel :=
  let k := mutexBoost s.k self owner
  k.block self (k.deadline timeout)

theorem lockKernel_waitNode : (lockKernel s self owner timeout).waitNode = s.k.waitNode :=
  (mutexBoost_frame s.k self owner).1

theorem lockKernel_prio {t : Tid} (hne : t ≠ owner) :
    ((lockKernel s self owner timeout).thr t).priority = s.prio t := by
  show (Function.update ((mutexBoost s.k self owner).schedDequeue self).thr self _ t).priority = _
  rw [Function.update_apply]
  split
  · rename_i hts
    subst hts
    rw [schedDequeue_thr, mutexBoost_thr, Function.update_of_ne hne]
    rfl
  · rw [schedDequeue_thr, mutexBoost_thr, Function.update_of_ne hne]
    rfl

theorem lock_eq (howner : (s.mutex m).owner = some owner) (hne : owner ≠ self)
    (hwait : timeout ≠ noWait) : s.lock self m timeout =
      (mutexQueue (lockKernel s self owner timeout) (s.mutex m).waitList self).map fun r => { s with
        k := r.1
        mutex := Function.update s.mutex m { s.mutex m with waitList := r.2 }
        pc := Function.update s.pc self (.waiting m) } := by
  have hself : (s.mutex m).owner ≠ some self := by
    rw [howner]
    exact fun he => hne (Option.some.inj he)
  unfold MutexSys.lock mutexLock
  rw [if_neg hself, howner]
  simp only [if_neg hwait, Option.map_map]
  refine congrArg (Option.map · _) (funext fun r => ?_)
  simp [howner]

/-- A lock blocks when another thread owns the mutex and the caller may wait. -/
theorem lock_pc (h : s.lock self m timeout = some s') (hpc : s.pc self = .run) :
    s'.pc self = .waiting m
      ↔ ∃ owner, (s.mutex m).owner = some owner ∧ owner ≠ self ∧ timeout ≠ noWait := by
  have hrun : s.pc self ≠ .waiting m := by
    rw [hpc]
    simp
  obtain ⟨⟨k', mx, f⟩, hl, rfl⟩ := Option.map_eq_some_iff.mp h
  unfold mutexLock at hl
  split at hl
  · rename_i hown
    obtain ⟨-, -, rfl⟩ := by simpa using hl
    simp [hrun, hown]
  · rename_i hown
    split at hl
    · rename_i hnone
      obtain ⟨-, -, rfl⟩ := by simpa using hl
      simp [hrun, hnone]
    · rename_i owner howner
      have hne : owner ≠ self := by
        intro he
        exact hown (he ▸ howner)
      split at hl
      · rename_i hno
        obtain ⟨-, -, rfl⟩ := by simpa using hl
        simp [hrun, hno]
      · rename_i hwait
        obtain ⟨r, -, heq⟩ := Option.map_eq_some_iff.mp hl
        obtain ⟨-, -, rfl⟩ := by simpa using heq
        simp [howner, hne, hwait]

theorem Waits.rep_lockKernel (h : Waits s w) (m : Nat) :
    ListRep (lockKernel s self owner timeout).waitNode (s.mutex m).waitList (w m) := by
  rw [lockKernel_waitNode]
  exact h.rep m

/-- The waiters of a mutex do not own it: boosting the owner leaves their priorities. -/
theorem Waits.prio_lockKernel (h : Waits s w) (self : Tid) (timeout : UInt32)
    (howner : (s.mutex m).owner = some owner) :
    ∀ t ∈ w m, ((lockKernel s self owner timeout).thr t).priority = s.prio t := by
  intro t ht
  refine lockKernel_prio ?_
  intro he
  exact h.notOwner ht (he ▸ howner)

/-- A lock that blocks goes through when the first waiter is at least as urgent as the caller. -/
theorem Waits.lock_isSome (h : Waits s w) (hb : MutexOrder.Blocks s self owner m timeout) :
    (s.lock self m timeout).isSome ↔ ∀ head ∈ (w m).head?, s.prio self ≤ s.prio head := by
  obtain ⟨-, -, -, howner, hne, hwait⟩ := hb
  have hself : ((lockKernel s self owner timeout).thr self).priority = s.prio self :=
    lockKernel_prio hne.symm
  rw [lock_eq howner hne hwait, Option.isSome_map, Option.isSome_iff_ne_none, Ne,
    mutexQueue_none (h.rep_lockKernel m), hself]
  push Not
  refine forall_congr' fun head => imp_congr_right fun hhead => ?_
  rw [h.prio_lockKernel self timeout howner head (List.mem_of_mem_head? hhead)]

/-- It links the caller behind the waiters that are at least as urgent. -/
theorem Waits.lock_waiters (h : Waits s w) (hb : MutexOrder.Blocks s self owner m timeout)
    (hord : Sorted s.prio (w m)) (hs : s.lock self m timeout = some s') :
    ∃ pre post, w m = pre ++ post ∧ s'.waiters m = pre ++ self :: post
      ∧ (∀ t ∈ pre, s.prio self ≤ s.prio t) ∧ ∀ t ∈ post, s.prio t < s.prio self := by
  obtain ⟨-, hact, -, howner, hne, hwait⟩ := hb
  have hself : ((lockKernel s self owner timeout).thr self).priority = s.prio self :=
    lockKernel_prio hne.symm
  have hprio := h.prio_lockKernel self timeout howner
  have hfar := h.not_mem hact m
  rw [lock_eq howner hne hwait] at hs
  obtain ⟨⟨k', l'⟩, hq, rfl⟩ := Option.map_eq_some_iff.mp hs
  have hord' : Sorted (fun t => ((lockKernel s self owner timeout).thr t).priority)
      (w m) := by
    refine hord.imp_of_mem fun {b c} hb hc hle => ?_
    show ((lockKernel s self owner timeout).thr c).priority
      ≤ ((lockKernel s self owner timeout).thr b).priority
    rw [hprio _ hb, hprio _ hc]
    exact hle
  obtain ⟨pre, post, hw, hrep, hpre, hpost⟩ := mutexQueue_some (h.rep_lockKernel m) hfar hord' hq
  rw [hself] at hpre hpost
  refine ⟨pre, post, hw, ?_, ?_, ?_⟩
  · unfold MutexSys.waiters
    dsimp only
    rw [Function.update_self]
    exact hrep.nodes (length_le_walkBound hrep.nodup)
  · intro t ht
    rw [← hprio t (by simp [hw, ht])]
    exact hpre t ht
  · intro t ht
    rw [← hprio t (by simp [hw, ht])]
    exact hpost t ht

end Locking

/-! ## What every step keeps -/

/-- The lists are in order, and the record says who arrived when. -/
structure Arrivals (s : MutexOrder) (w : Nat → List Tid) : Prop where
  waits : Waits s.sys w
  sorted : ∀ m, Sorted s.sys.prio (w m)
  arrival : ∀ m p, (w m).filter (fun t => s.sys.prio t = p) = fifo (s.log m) p

variable {s s' : MutexOrder} {w w' : Nat → List Tid}

theorem Arrivals.initial (h : s.Initial) : Arrivals s fun _ => [] where
  waits := Waits.initial h.sys
  sorted _ := List.Pairwise.nil
  arrival m p := by
    rw [h.log m]
    rfl

/-- Who is not in the list is not in the record. -/
theorem Arrivals.fifo_leave (h : Arrivals s w) {m : Nat} {t : Tid} (ht : t ∉ w m) (p : Prio) :
    fifo (leave (s.log m) t) p = fifo (s.log m) p := by
  rw [PrioFifo.fifo_leave, ← h.arrival]
  refine List.filter_eq_self.mpr fun u hu => ?_
  have hne : u ≠ t := by
    rintro rfl
    exact ht (List.mem_of_mem_filter hu)
  simpa using hne

/-- What has to be shown of a step: mutex `m`'s list, its record, and that no waiter's
priority changes. -/
theorem Arrivals.update (h : Arrivals s w) {m : Nat} {xs : List Tid} {log : List (Tid × Prio)}
    (hw : Waits s'.sys (Function.update w m xs))
    (hprio : ∀ n, ∀ t ∈ w n, s'.sys.prio t = s.sys.prio t)
    (hlog : s'.log = Function.update s.log m log) (hsorted : Sorted s'.sys.prio xs)
    (harrival : ∀ p, xs.filter (fun t => s'.sys.prio t = p) = fifo log p) :
    Arrivals s' (Function.update w m xs) := by
  have hkeep : ∀ n p, (w n).filter (fun t => s'.sys.prio t = p)
      = (w n).filter fun t => s.sys.prio t = p := by
    intro n p
    refine List.filter_congr fun t ht => ?_
    rw [hprio n t ht]
  refine ⟨hw, fun n => ?_, fun n p => ?_⟩
  · rw [Function.update_apply]
    split
    · exact hsorted
    · refine (h.sorted n).imp_of_mem fun hb hc hle => ?_
      rw [hprio n _ hb, hprio n _ hc]
      exact hle
  · rw [hlog, Function.update_apply, Function.update_apply]
    split
    · exact harrival p
    · rw [hkeep]
      exact h.arrival n p

/-- The same when no list changes and the record only loses who does not wait. -/
theorem Arrivals.keep (h : Arrivals s w) (hw : Waits s'.sys w)
    (hprio : ∀ n, ∀ t ∈ w n, s'.sys.prio t = s.sys.prio t)
    (hlog : s'.log = s.log
      ∨ ∃ m t, t ∉ w m ∧ s'.log = Function.update s.log m (leave (s.log m) t)) :
    Arrivals s' w := by
  refine ⟨hw, fun n => ?_, fun n p => ?_⟩
  · refine (h.sorted n).imp_of_mem fun hb hc hle => ?_
    rw [hprio n _ hb, hprio n _ hc]
    exact hle
  · have hkeep : (w n).filter (fun t => s'.sys.prio t = p) = fifo (s.log n) p := by
      rw [← h.arrival]
      refine List.filter_congr fun t ht => ?_
      rw [hprio n t ht]
    rw [hkeep]
    rcases hlog with hlog | ⟨m, t, ht, hlog⟩
    · rw [hlog]
    · rw [hlog, Function.update_apply]
      split
      · rename_i hn
        subst hn
        exact (h.fifo_leave ht p).symm
      · rfl

theorem SamePrio.prio {t t' : MutexSys} (h : SamePrio t t') (u : Tid) : t'.prio u = t.prio u :=
  (h u).1

theorem SetPrio.prio {t t' : MutexSys} {o : Tid} {p : Prio} (h : SetPrio t t' o p) {u : Tid}
    (hu : u ≠ o ∨ p = t.prio o) : t'.prio u = t.prio u := by
  show (t'.k.thr u).priority = _
  rw [(h u).1]
  split
  · rename_i huo
    subst huo
    rcases hu with hu | hu
    · exact absurd rfl hu
    · exact hu
  · rfl

/-! ## The record -/

section Record

variable {t : MutexSys} {self : Tid} {m : Nat} {timeout : UInt32} {l : Label}

theorem step_lock (hs : s.sys.step (.lock m timeout) = some t)
    (hself : s.sys.k.current = some self) :
    (s.sys.k.thr self).state.Active ∧ s.sys.pc self = .run
      ∧ s.sys.lock self m timeout = some t := by
  rcases step_cases hs with ⟨u, hl, -⟩ | ⟨self', hself', hact, hstep⟩
  · exact absurd hl (by simp)
  · obtain rfl : self = self' := Option.some.inj (hself.symm.trans hself')
    rcases hstep with ⟨m', timeout', hl | ⟨hl, -⟩, hpc, hlock⟩ | ⟨hl, -⟩ | ⟨m', hl, -⟩
    · obtain ⟨rfl, rfl⟩ := Label.lock.inj hl
      exact ⟨hact, hpc, hlock⟩
    · exact absurd hl (by simp)
    · exact absurd hl (by simp)
    · exact absurd hl (by simp)

/-- A lock is recorded when it blocks. -/
theorem record_block {owner : Tid} (hs : s.sys.step (.lock m timeout) = some t)
    (hb : MutexOrder.Blocks s.sys self owner m timeout) : s.record (.lock m timeout) t
      = Function.update s.log m (arrive (s.log m) self (s.sys.prio self)) := by
  obtain ⟨hself, hact, hpc, howner, hne, hwait⟩ := hb
  have hwaits := (lock_pc (step_lock hs hself).2.2 hpc).mpr ⟨owner, howner, hne, hwait⟩
  simp [MutexOrder.record, hself, hwaits]

theorem record_go (hs : s.sys.step l = some t) (hl : l = .lock m timeout ∨ l = .trylock m)
    (hself : s.sys.k.current = some self)
    (hgo : ∀ owner, (s.sys.mutex m).owner = some owner → owner = self ∨ timeout = noWait) :
    s.record l t = s.log := by
  rcases hl with rfl | rfl
  · obtain ⟨-, hpc, hlock⟩ := step_lock hs hself
    have hruns : t.pc self ≠ .waiting m := by
      rw [Ne, lock_pc hlock hpc]
      rintro ⟨owner, howner, hne, hwait⟩
      rcases hgo owner howner with h | h
      · exact hne h
      · exact hwait h
    simp [MutexOrder.record, hself, hruns]
  · rfl

end Record

/-- **Every step keeps the order, if nobody is raised while it waits.** -/
theorem Arrivals.step (h : Arrivals s w) {l : Label} (hu : s.Unraised l)
    (hs : s.step l = some s') : ∃ w', Arrivals s' w' := by
  obtain ⟨t, ht, rfl⟩ := Option.map_eq_some_iff.mp hs
  obtain ⟨w', hw', hc⟩ := h.waits.step ht
  cases hc with
  | still hmutex hlocks hunlocks hprio hrefused hbusy =>
      refine ⟨w, h.keep hw' (fun n u _ => hprio.prio u) ?_⟩
      cases l with
      | dispatch u => exact Or.inl rfl
      | trylock m => exact Or.inl rfl
      | wake => exact Or.inl rfl
      | lock m timeout =>
          cases hself : s.sys.k.current with
          | none =>
              rw [MutexSys.step, act, hself] at ht
              exact absurd ht (by simp)
          | some self =>
              exact Or.inl (record_go ht (Or.inl rfl) hself fun _ _ => Or.inr (hbusy m timeout rfl))
      | unlock m =>
          cases howner : (s.sys.mutex m).owner with
          | none => exact Or.inl (by simp [MutexOrder.record, hmutex, howner])
          | some owner =>
              refine Or.inr ⟨m, owner, fun hmem => h.waits.notOwner hmem howner, ?_⟩
              simp [MutexOrder.record, hmutex, howner]
  | relock self m timeout hlabel hself howner hmutex hlocks hunlocks hprio =>
      refine ⟨w, h.keep hw' (fun n u _ => hprio.prio u) (Or.inl ?_)⟩
      refine record_go ht hlabel hself fun owner ho => Or.inl ?_
      exact Option.some.inj (ho.symm.trans howner)
  | acquire self m timeout hlabel hself howner hmutex hlocks hunlocks hprio =>
      refine ⟨w, h.keep hw' (fun n u _ => hprio.prio u) (Or.inl ?_)⟩
      refine record_go ht hlabel hself fun owner ho => ?_
      rw [howner] at ho
      exact absurd ho (by simp)
  | block self owner m timeout pre post hself hfar howner hne hwait hw hmutex hlocks hunlocks
    hprio =>
      obtain ⟨hact, hpc, hlock⟩ := step_lock ht hself
      have hb : MutexOrder.Blocks s.sys self owner m timeout :=
        ⟨hself, hact, hpc, howner, hne, hwait⟩
      -- the owner is not raised, or it waits for nothing
      have hstay : ∀ n, ∀ u ∈ w n, t.prio u = s.sys.prio u := by
        intro n u hmem
        refine hprio.prio ?_
        by_cases huo : u = owner
        · subst huo
          refine Or.inr (max_eq_left ?_)
          by_contra hlt
          refine hu self hself u howner hb (not_le.mp hlt) ?_
          unfold Queued
          rw [(h.waits.waiting hmem).2]
          show u ∈ s.sys.waiters n
          rw [h.waits.waiters]
          exact hmem
        · exact Or.inl huo
      have hself' : t.prio self = s.sys.prio self := hprio.prio (Or.inl hne.symm)
      obtain ⟨pre', post', hw'', hlist, hpre, hpost⟩ := h.waits.lock_waiters hb (h.sorted m) hlock
      rw [hw'.waiters, Function.update_self] at hlist
      have hmem : ∀ u ∈ pre' ++ self :: post', t.prio u = s.sys.prio u := by
        intro u hmem
        rcases List.mem_append.mp hmem with hin | hin
        · exact hstay m u (by simp [hw'', hin])
        · rcases List.mem_cons.mp hin with rfl | hin
          · exact hself'
          · exact hstay m u (by simp [hw'', hin])
      rw [hlist] at hw'
      have hsorted : Sorted s.sys.prio (pre' ++ self :: post') :=
        Sorted.insert (hw'' ▸ h.sorted m) hpre hpost
      refine ⟨_, h.update hw' hstay (record_block ht hb) ?_ ?_⟩
      · refine hsorted.imp_of_mem fun {b c} hb hc hle => ?_
        show t.prio c ≤ t.prio b
        rw [hmem b hb, hmem c hc]
        exact hle
      · intro p
        have hold : (pre' ++ post').filter (fun u => s.sys.prio u = p) = fifo (s.log m) p := by
          rw [← hw'', h.arrival]
        rw [List.filter_congr (q := fun u => decide (s.sys.prio u = p)) fun u hin => by
          show decide (t.prio u = p) = _
          rw [hmem u hin]]
        rw [filter_insert hpost, fifo_arrive, hold]
  | release self m hself howner hmore hmutex hlocks hunlocks hprio =>
      refine ⟨w, h.keep hw' (fun n u _ => hprio.prio u) (Or.inr ⟨m, self, ?_, ?_⟩)⟩
      · exact fun hmem => h.waits.notOwner hmem howner
      · simp [MutexOrder.record, hmutex, howner]
  | free self m hself hfar howner hlast hw hmutex hlocks hunlocks hprio =>
      refine ⟨w, h.keep hw' (fun n u hmem => hprio.prio (Or.inl ?_)) (Or.inl ?_)⟩
      · exact fun he => hfar n (he ▸ hmem)
      · simp [MutexOrder.record, hmutex]
  | handOff self next rest m hself hfar howner hlast hw hmutex hlocks hunlocks hprio =>
      have hstay : ∀ n, ∀ u ∈ w n, t.prio u = s.sys.prio u :=
        fun n u hmem => hprio.prio (Or.inl fun he => hfar n (he ▸ hmem))
      have hrest : ∀ u ∈ rest, t.prio u = s.sys.prio u :=
        fun u hmem => hstay m u (by simp [hw, hmem])
      have hnodup : next ∉ rest := by
        have hnd := (h.waits.rep m).nodup
        rw [hw] at hnd
        exact (List.nodup_cons.mp hnd).1
      have hsorted : Sorted s.sys.prio rest := (List.pairwise_cons.mp (hw ▸ h.sorted m)).2
      obtain ⟨list, hmutex⟩ := hmutex
      have hlog : s.record (.unlock m) t = Function.update s.log m (leave (s.log m) next) := by
        simp [MutexOrder.record, hmutex]
      refine ⟨_, h.update hw' hstay hlog ?_ ?_⟩
      · refine hsorted.imp_of_mem fun {b c} hb hc hle => ?_
        show t.prio c ≤ t.prio b
        rw [hrest b hb, hrest c hc]
        exact hle
      · intro p
        rw [PrioFifo.fifo_leave, ← h.arrival, hw, List.filter_filter,
          List.filter_cons_of_neg (by simp)]
        refine List.filter_congr fun u hmem => ?_
        have hne : u ≠ next := by
          rintro rfl
          exact hnodup hmem
        simp [hrest u hmem, hne]

/-- **What is promised of a step holds unless the caller is more urgent than the first waiter.** -/
theorem Arrivals.inOrder_iff (h : Arrivals s w) (l : Label) :
    s.InOrder l ↔ s.BehindHead l := by
  constructor
  · intro hin
    cases l with
    | lock m timeout =>
        intro self _ owner _ hb head hhead
        rw [h.waits.waiters] at hhead
        exact (h.waits.lock_isSome hb).mp (hin.anchor m timeout self owner rfl hb) head hhead
    | _ => trivial
  · intro hbehind
    refine ⟨fun m => ?_, fun m p => ?_, ?_, ?_⟩
    · rw [h.waits.waiters]
      exact h.sorted m
    · rw [h.waits.waiters]
      exact h.arrival m p
    · rintro m timeout self owner rfl hb
      rw [h.waits.lock_isSome hb, ← h.waits.waiters]
      exact hbehind self hb.1 owner hb.2.2.2.1 hb
    · rintro m self rfl - howner hlast hne
      rw [h.waits.waiters] at hne
      rcases mutexUnlock_cases (h.waits.rep m) with
        ⟨hno, -⟩ | ⟨-, hmore, -⟩ | ⟨-, -, hnil, -⟩ | ⟨-, -, next, rest, hw, k', list, th, heq, -⟩
      · exact absurd howner hno
      · rw [hlast] at hmore
        exact absurd hmore (by decide)
      · exact absurd hnil hne
      · refine ⟨next, by simp [MutexSys.unlock, heq], ?_⟩
        exact (hw ▸ h.sorted m : Sorted s.sys.prio (next :: rest)).first fun p => hw ▸ h.arrival m p

/--
**Wait order of the mutexes.** In a run in which no thread is raised while it waits, every
wait list is ordered by priority and arrival, every caller that blocks has an anchor, and
every last unlock hands the mutex to the earliest among the most urgent waiters: exactly
when no caller is more urgent than the first waiter it has to stand behind.
-/
theorem mutex_order_iff (s : MutexOrder) (h : s.Initial) (ls : List Label)
    (hu : Runs.Along MutexOrder.step MutexOrder.Unraised s ls) :
    Runs.Along MutexOrder.step MutexOrder.InOrder s ls
      ↔ Runs.Along MutexOrder.step MutexOrder.BehindHead s ls := by
  refine Runs.along_iff_along_of (Q := fun s => ∃ w, Arrivals s w) ?_ ?_ ⟨_, .initial h⟩ hu
  · rintro s l s' ⟨w, hw⟩ hu hs
    exact hw.step hu hs
  · rintro s l ⟨w, hw⟩ -
    exact hw.inOrder_iff l

/-- Threads 1 to 3 are READY, and thread 3 is more urgent. -/
def threeReady : MutexOrder where
  sys := {
    k := (((Kernel.bss ⟨1000, 10, true⟩
      (fun t => threadDefine [] 512 0 0 0 (if t = 3 then 7 else 5))
      none).schedEnqueue 1).schedEnqueue 2).schedEnqueue 3
    mutex := fun _ => mutexInit
    pc := fun _ => .run
    locks := fun _ _ => 0
    unlocks := fun _ _ => 0 }
  log := fun _ => []

theorem threeReady_initial : threeReady.Initial :=
  ⟨⟨fun _ => rfl, fun _ => rfl, fun _ _ => rfl, fun _ _ => rfl⟩, fun _ => rfl⟩

/-- Threads 3 and 2 wait for mutex 0, in the order of their priorities. -/
theorem mutex_order_iff_two :
    let ls : List Label := [.dispatch 1, .lock 0 waitForever, .dispatch 3, .lock 0 waitForever,
      .dispatch 2, .lock 0 waitForever, .dispatch 1, .unlock 0]
    Runs.Along MutexOrder.step MutexOrder.Unraised threeReady ls
      ∧ Runs.Along MutexOrder.step MutexOrder.InOrder threeReady ls := by
  intro ls
  have hu : Runs.Along MutexOrder.step MutexOrder.Unraised threeReady ls := by decide +kernel
  have hbehind : Runs.Along MutexOrder.step MutexOrder.BehindHead threeReady ls := by
    decide +kernel
  exact ⟨hu, (mutex_order_iff threeReady threeReady_initial ls hu).mpr hbehind⟩

/-- Thread 3 waits for a mutex that thread 2, of lower priority, waits for: it is linked behind
`NULL`. -/
theorem null_anchor :
    let ls : List Label := [.dispatch 1, .lock 0 waitForever, .dispatch 2, .lock 0 waitForever,
      .dispatch 3]
    threeReady.Initial
      ∧ Runs.Along MutexOrder.step MutexOrder.Unraised threeReady (ls ++ [.lock 0 waitForever])
      ∧ ∃ s', Runs.run MutexOrder.step threeReady ls = some s'
        ∧ MutexOrder.Blocks s'.sys 3 1 0 waitForever
        ∧ s'.sys.lock 3 0 waitForever = none
        ∧ ¬ s'.InOrder (.lock 0 waitForever) := by
  intro ls
  refine ⟨threeReady_initial, by decide +kernel, ?_⟩
  obtain ⟨s', hrun, hfacts⟩ : ∃ s', Runs.run MutexOrder.step threeReady ls = some s'
      ∧ decide (MutexOrder.Blocks s'.sys 3 1 0 waitForever
        ∧ (s'.sys.lock 3 0 waitForever).isNone) = true :=
    Option.map_eq_some_iff.mp (by decide +kernel)
  obtain ⟨hb, hnone⟩ := of_decide_eq_true hfacts
  have hlock : s'.sys.lock 3 0 waitForever = none := Option.isNone_iff_eq_none.mp hnone
  refine ⟨s', hrun, hb, hlock, fun hin => ?_⟩
  have hsome := hin.anchor 0 waitForever 3 1 rfl hb
  rw [hlock] at hsome
  exact absurd hsome (by simp)

end VibeRtos
