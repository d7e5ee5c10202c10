import VibeRtos.Kernel.LockSystem
import VibeRtos.Proof.EventWakeups
import VibeRtos.Proof.Placement
import VibeRtos.Proof.WaitCalls

/-!
# A locked scheduler defers and loses nothing

Every section of a release takes threads off a wait list or the sleep list and enqueues
them. While the scheduler is locked nobody leaves a run queue again, but for the running
thread at the end of its slice, which goes to the back: the queues are what they were, and
behind that the arrivals in order. The reschedule after the last unlock takes the first of
them all.
-/

namespace VibeRtos

open Links Kernel

/-! ## Becoming ready -/

/-- The threads `ts`, in no run queue, are enqueued in order. -/
structure Readies (k : Kernel) (ts : List Tid) (k' : Kernel) : Prop where
  thr : ∀ u, k'.thr u = if u ∈ ts then { k.thr u with state := .ready } else k.thr u
  queues : ∀ {qs : Prio → List Tid}, QueuesRep k qs → ts.Nodup → (∀ t ∈ ts, ∀ p, t ∉ qs p) →
    QueuesRep k' fun p => qs p ++ ts.filter fun t => (k.thr t).priority = p
  current : k'.current = k.current
  idle : k'.idle = k.idle

section Readies

variable {k k' k'' : Kernel} {ts us : List Tid} {t : Tid}

theorem Readies.priority (h : Readies k ts k') (u : Tid) :
    (k'.thr u).priority = (k.thr u).priority := by
  rw [h.thr u]
  split <;> rfl

/-- Nobody is enqueued. -/
theorem Readies.none (hthr : k'.thr = k.thr) (hn : k'.schedNode = k.schedNode)
    (hq : k'.runQueues = k.runQueues) (hm : k'.readyMask = k.readyMask)
    (hc : k'.current = k.current) (hi : k'.idle = k.idle) : Readies k [] k' where
  thr u := by rw [hthr]; rfl
  queues h _ _ := by simpa using h.congr hn hq hm
  current := hc
  idle := hi

theorem Readies.one : Readies k [t] (k.schedEnqueue t) where
  thr u := by
    rw [schedEnqueue_thr, Function.update_apply]
    by_cases hut : u = t
    · rw [hut, if_pos rfl, if_pos List.mem_cons_self]
    · rw [if_neg hut, if_neg (by simpa using hut)]
  queues {qs} h _ hout := by
    have hq := h.enqueue (hout t List.mem_cons_self)
    have heq : Function.update qs (k.thr t).priority (qs (k.thr t).priority ++ [t])
        = fun p => qs p ++ [t].filter fun u => (k.thr u).priority = p := by
      funext p
      by_cases hp : p = (k.thr t).priority
      · rw [hp, Function.update_self]
        simp
      · rw [Function.update_of_ne hp]
        simp [Ne.symm hp]
    rwa [heq] at hq
  current := rfl
  idle := rfl

theorem Readies.trans (h : Readies k ts k') (h' : Readies k' us k'') :
    Readies k (ts ++ us) k'' where
  thr u := by
    rw [h'.thr u, h.thr u]
    by_cases hts : u ∈ ts <;> by_cases hus : u ∈ us <;> simp [hts, hus]
  queues {qs} hq hnd hout := by
    obtain ⟨hts, hus, hdisj⟩ := List.nodup_append.mp hnd
    have hone := h.queues hq hts fun t ht => hout t (List.mem_append_left _ ht)
    have htwo := h'.queues hone hus fun t ht p hp => by
      rcases List.mem_append.mp hp with hp | hp
      · exact hout t (List.mem_append_right _ ht) p hp
      · exact hdisj t (List.mem_of_mem_filter hp) t ht rfl
    simpa only [h.priority, List.filter_append, List.append_assoc] using htwo
  current := h'.current.trans h.current
  idle := h'.idle.trans h.idle

theorem Readies.foldl : ∀ (ts : List Tid) (k : Kernel), Readies k ts (ts.foldl schedEnqueue k)
  | [], _ => .none rfl rfl rfl rfl rfl rfl
  | t :: ts, k => (Readies.one (t := t)).trans (Readies.foldl ts (k.schedEnqueue t))

theorem foldl_enqueue_sleep : ∀ (ts : List Tid) (k : Kernel),
    (ts.foldl schedEnqueue k).sleepNode = k.sleepNode
      ∧ (ts.foldl schedEnqueue k).sleepList = k.sleepList
  | [], _ => ⟨rfl, rfl⟩
  | t :: ts, k => foldl_enqueue_sleep ts (k.schedEnqueue t)

/-- The head of a wait list is woken. -/
theorem wakeHead_readies {l : VList Tid} {xs : List Tid} (h : ListRep k.waitNode l xs) :
    Readies k xs.head?.toList (k.wakeHead l).1
      ∧ ListRep (k.wakeHead l).1.waitNode (k.wakeHead l).2 xs.tail
      ∧ (∀ y, y ∉ xs → (k.wakeHead l).1.waitNode y = k.waitNode y)
      ∧ (k.wakeHead l).1.sleepNode = k.sleepNode ∧ (k.wakeHead l).1.sleepList = k.sleepList := by
  cases xs with
  | nil =>
      rw [wakeHead_nil h]
      exact ⟨.none rfl rfl rfl rfl rfl rfl, h, fun _ _ => rfl, rfl, rfl⟩
  | cons x xs =>
      have hhead : l.head = some x := h.head
      have hstep : k.wakeHead l = ((k.waitRemove l x).1.schedEnqueue x, (k.waitRemove l x).2) := by
        rw [Kernel.wakeHead, Kernel.waitGetHead, hhead]
      rw [hstep]
      refine ⟨?_, @ListRep.remove _ _ _ _ _ [] xs h, ?_, rfl, rfl⟩
      · have hremove : Readies k [] (k.waitRemove l x).1 := .none rfl rfl rfl rfl rfl rfl
        exact hremove.trans .one
      · exact fun y hy => h.remove_frame List.mem_cons_self hy

/-- The tick handler wakes the sleepers up to the first whose time has not come. -/
theorem wakeLoop_readies (now : UInt32) : ∀ {ys : List Tid} {fuel : Nat} {k : Kernel},
    ListRep k.sleepNode k.sleepList ys → ys.length ≤ fuel →
    Readies k (expiring k now ys) (Kernel.wakeLoop now fuel k ys.head?)
      ∧ ListRep (Kernel.wakeLoop now fuel k ys.head?).sleepNode
        (Kernel.wakeLoop now fuel k ys.head?).sleepList (dozing k now ys)
      ∧ (Kernel.wakeLoop now fuel k ys.head?).waitNode = k.waitNode := by
  intro ys
  induction ys with
  | nil =>
      intro fuel k h _
      have hstop : Kernel.wakeLoop now fuel k none = k := by cases fuel <;> rfl
      rw [List.head?_nil, hstop]
      exact ⟨.none rfl rfl rfl rfl rfl rfl, h, rfl⟩
  | cons t rest ih =>
      intro fuel k h hfuel
      cases fuel with
      | zero => simp at hfuel
      | succ fuel =>
        have hnext : (k.sleepNode t).next = rest.head? := by
          rw [h.chain.1]
          simp
        rw [List.head?_cons, Kernel.wakeLoop]
        by_cases hdue : (k.thr t).timeout ≤ now
        · rw [if_pos hdue, hnext]
          have hnd : t ∉ rest := (List.nodup_cons.mp h.nodup).1
          have hrest : ListRep (k.sleepRemove t).sleepNode (k.sleepRemove t).sleepList rest :=
            @ListRep.remove _ _ _ _ _ [] rest h
          obtain ⟨hready, hrep, hwait⟩ :=
            @ih fuel ((k.sleepRemove t).schedEnqueue t) hrest (by simpa using hfuel)
          have htimeout : ∀ u ∈ rest, (((k.sleepRemove t).schedEnqueue t).thr u).timeout
              = (k.thr u).timeout := by
            intro u hu
            have hut : u ≠ t := fun he => hnd (he ▸ hu)
            simp [hut]
          rw [expiring_congr htimeout] at hready
          rw [dozing_congr htimeout] at hrep
          have hexpiring : expiring k now (t :: rest) = [t] ++ expiring k now rest := by
            simp [expiring, hdue]
          have hdozing : dozing k now (t :: rest) = dozing k now rest := by
            simp [dozing, hdue]
          rw [hexpiring, hdozing]
          have hremove : Readies k [] (k.sleepRemove t) := .none rfl rfl rfl rfl rfl rfl
          exact ⟨(hremove.trans .one).trans hready, hrep, hwait⟩
        · rw [if_neg hdue]
          have hnone : expiring k now (t :: rest) = [] := by simp [expiring, hdue]
          have hall : dozing k now (t :: rest) = t :: rest := by simp [dozing, hdue]
          rw [hnone, hall]
          exact ⟨.none rfl rfl rfl rfl rfl rfl, h, rfl⟩

end Readies

/-! ## The lists of the machine -/

/-- The run queues hold `qs`, the sleep list `ys` and the wait lists `xs`, each thread where its
state says. -/
structure Consistent (s : Sys) (qs : Prio → List Tid) (ys : List Tid) (xs : WaitList → List Tid) :
    Prop where
  queues : QueuesRep s.k qs
  active : ∀ {t p}, t ∈ qs p → (s.k.thr t).state.Active ∧ (s.k.thr t).priority = p
  sleepers : ListRep s.k.sleepNode s.k.sleepList ys
  asleep : ∀ {t}, t ∈ ys → (s.k.thr t).state = .sleeping
  waiters : ∀ L : WaitList, ListRep s.k.waitNode (L.anchor s) (xs L)
  waiting : ∀ {L t}, t ∈ xs L → (s.k.thr t).state = .waiting
  once : ∀ {L M t}, t ∈ xs L → t ∈ xs M → L = M
  /-- the running thread is in its run queue, too -/
  running : ∀ {t}, s.k.current = some t → (s.k.thr t).state = .running →
    t ∈ qs (s.k.thr t).priority

/-- The queues once the threads `ts` have gone to the back, in order. -/
def moved (k : Kernel) (qs : Prio → List Tid) (ts : List Tid) (p : Prio) : List Tid :=
  (qs p).filter (fun t => t ∉ ts) ++ ts.filter fun t => (k.thr t).priority = p

/-- What sections under the lock make of the queues `qs`. -/
structure Deferred (s s' : Sys) (qs : Prio → List Tid) (ts : List Tid) : Prop where
  linked : ∃ ys xs, Consistent s' (moved s'.k qs ts) ys xs
  current : s'.k.current = s.k.current
  nodup : ts.Nodup
  ready : ∀ t ∈ ts, (s'.k.thr t).state = .ready
  /-- only the running thread was in a queue already -/
  fresh : ∀ t ∈ ts, (∀ p, t ∉ qs p) ∨ (s.k.thr t).state = .running
  keeps : ∀ t p, t ∈ qs p → (s'.k.thr t).priority = (s.k.thr t).priority
    ∧ ((s.k.thr t).state = .ready → (s'.k.thr t).state = .ready)

section Deferred

variable {s s' s'' : Sys} {qs : Prio → List Tid} {ys ys' : List Tid} {xs xs' : WaitList → List Tid}
  {ts us : List Tid} {t : Tid}

theorem moved_nil (k : Kernel) (qs : Prio → List Tid) : moved k qs [] = qs := by
  funext p
  simp [moved]

theorem mem_moved (k : Kernel) (qs : Prio → List Tid) {p : Prio} (ht : t ∈ ts)
    (hp : (k.thr t).priority = p) :
    t ∈ moved k qs ts p := by
  refine List.mem_append_right _ (List.mem_filter.mpr ⟨ht, ?_⟩)
  simpa using hp

/-- Nobody leaves a queue. -/
theorem Deferred.mem (hd : Deferred s s' qs ts) (h : Consistent s qs ys xs) {p : Prio}
    (ht : t ∈ qs p) : t ∈ moved s'.k qs ts p := by
  by_cases hts : t ∈ ts
  · exact mem_moved _ _ hts ((hd.keeps t p ht).1.trans (h.active ht).2)
  · exact List.mem_append_left _ (List.mem_filter.mpr ⟨ht, by simpa using hts⟩)

theorem moved_moved {k k' : Kernel} (hdisj : ∀ t ∈ us, t ∉ ts)
    (hprio : ∀ t ∈ ts, (k'.thr t).priority = (k.thr t).priority) :
    moved k' (moved k qs ts) us = moved k' qs (ts ++ us) := by
  funext p
  have hts : (ts.filter fun t => (k.thr t).priority = p).filter (fun t => t ∉ us)
      = ts.filter fun t => (k'.thr t).priority = p := by
    rw [List.filter_filter]
    refine List.filter_congr fun t ht => ?_
    have hus : t ∉ us := fun hu => hdisj t hu ht
    simp [hus, hprio t ht]
  have hqs : ((qs p).filter fun t => t ∉ ts).filter (fun t => t ∉ us)
      = (qs p).filter fun t => t ∉ ts ++ us := by
    rw [List.filter_filter]
    refine List.filter_congr fun t _ => ?_
    by_cases hts : t ∈ ts <;> by_cases hus : t ∈ us <;> simp [hts, hus]
  show ((qs p).filter _ ++ ts.filter _).filter _ ++ us.filter _
    = (qs p).filter _ ++ (ts ++ us).filter _
  rw [List.filter_append, List.filter_append, hts, hqs, List.append_assoc]

/-- **Runs of sections compose.** -/
theorem Deferred.trans (h : Consistent s qs ys xs) (hd : Deferred s s' qs ts)
    (hd' : Deferred s' s'' (moved s'.k qs ts) us) : Deferred s s'' qs (ts ++ us) := by
  have hin : ∀ t ∈ ts, t ∈ moved s'.k qs ts (s'.k.thr t).priority :=
    fun t ht => mem_moved _ _ ht rfl
  -- who has just arrived is READY and in its queue, so it cannot arrive again
  have hdisj : ∀ t ∈ us, t ∉ ts := by
    intro t hus hts
    rcases hd'.fresh t hus with hout | hrun
    · exact hout _ (hin t hts)
    · rw [hd.ready t hts] at hrun
      exact absurd hrun (by simp)
  have hprio : ∀ t ∈ ts, (s''.k.thr t).priority = (s'.k.thr t).priority :=
    fun t ht => (hd'.keeps t _ (hin t ht)).1
  refine ⟨?_, hd'.current.trans hd.current, ?_, ?_, ?_, ?_⟩
  · rw [← moved_moved hdisj hprio]
    exact hd'.linked
  · refine List.nodup_append.mpr ⟨hd.nodup, hd'.nodup, ?_⟩
    rintro t hts u hus rfl
    exact hdisj t hus hts
  · intro t ht
    rcases List.mem_append.mp ht with ht | ht
    · exact (hd'.keeps t _ (hin t ht)).2 (hd.ready t ht)
    · exact hd'.ready t ht
  · intro t ht
    rcases List.mem_append.mp ht with ht | ht
    · exact hd.fresh t ht
    · by_cases hq : ∃ p, t ∈ qs p
      · obtain ⟨p, hp⟩ := hq
        refine Or.inr ?_
        rcases hd'.fresh t ht with hout | hrun
        · exact absurd (hd.mem h hp) (hout p)
        · rcases (h.active hp).1 with hready | hrun'
          · rw [(hd.keeps t p hp).2 hready] at hrun
            exact absurd hrun (by simp)
          · exact hrun'
      · exact Or.inl fun p hp => hq ⟨p, hp⟩
  · intro t p ht
    obtain ⟨hp, hr⟩ := hd.keeps t p ht
    obtain ⟨hp', hr'⟩ := hd'.keeps t p (hd.mem h ht)
    exact ⟨hp'.trans hp, fun hready => hr' (hr hready)⟩

/-- Threads in no run queue become ready: what has to be shown is about the other lists. -/
theorem Consistent.readies (h : Consistent s qs ys xs) (ys' : List Tid)
    (xs' : WaitList → List Tid) (hr : Readies s.k ts s'.k) (hnd : ts.Nodup)
    (hout : ∀ t ∈ ts, ∀ p, t ∉ qs p)
    (hsleep : ListRep s'.k.sleepNode s'.k.sleepList ys') (hys : ∀ t ∈ ys', t ∈ ys ∧ t ∉ ts)
    (hwait : ∀ L : WaitList, ListRep s'.k.waitNode (L.anchor s') (xs' L))
    (hxs : ∀ L, ∀ t ∈ xs' L, t ∈ xs L ∧ t ∉ ts) : Deferred s s' qs ts := by
  have hmoved : moved s'.k qs ts
      = fun p => qs p ++ ts.filter fun t => (s.k.thr t).priority = p := by
    funext p
    have hsame : (qs p).filter (fun t => t ∉ ts) = qs p := by
      refine List.filter_eq_self.mpr fun t ht => ?_
      have hts : t ∉ ts := fun hts => hout t hts p ht
      simpa using hts
    simp only [moved, hsame, hr.priority]
  have hother : ∀ {t}, t ∉ ts → s'.k.thr t = s.k.thr t := by
    intro t ht
    rw [hr.thr t, if_neg ht]
  have hready : ∀ t ∈ ts, (s'.k.thr t).state = .ready := by
    intro t ht
    rw [hr.thr t, if_pos ht]
  refine ⟨⟨ys', xs', ?_⟩, hr.current, hnd, hready, fun t ht => Or.inl (hout t ht), ?_⟩
  · rw [hmoved]
    refine ⟨hr.queues h.queues hnd hout, ?_, hsleep, ?_, hwait, ?_, ?_, ?_⟩
    · intro t p ht
      rcases List.mem_append.mp ht with ht | ht
      · rw [hother fun hts => hout t hts p ht]
        exact h.active ht
      · obtain ⟨hts, hp⟩ := List.mem_filter.mp ht
        rw [hr.priority]
        exact ⟨Or.inl (hready t hts), of_decide_eq_true hp⟩
    · intro t ht
      rw [hother (hys t ht).2]
      exact h.asleep (hys t ht).1
    · intro L t ht
      rw [hother (hxs L t ht).2]
      exact h.waiting (hxs L t ht).1
    · intro L M t hL hM
      exact h.once (hxs L t hL).1 (hxs M t hM).1
    · intro t hcur hrun
      rw [hr.current] at hcur
      have hts : t ∉ ts := by
        intro hts
        rw [hready t hts] at hrun
        exact absurd hrun (by simp)
      rw [hr.priority]
      rw [hother hts] at hrun
      exact List.mem_append_left _ (h.running hcur hrun)
  · intro t p ht
    rw [hother fun hts => hout t hts p ht]
    exact ⟨rfl, id⟩

/-- A thread that sleeps or waits is in no run queue. -/
theorem Consistent.out_of_state (h : Consistent s qs ys xs) (ht : ¬ (s.k.thr t).state.Active)
    (p : Prio) :
    t ∉ qs p := fun hp => ht (h.active hp).1

theorem Consistent.asleep_out (h : Consistent s qs ys xs) (ht : t ∈ ys) : ∀ p, t ∉ qs p :=
  h.out_of_state (by rw [h.asleep ht]; exact not_active_sleeping)

theorem Consistent.waiting_out (h : Consistent s qs ys xs) {L : WaitList} (ht : t ∈ xs L) :
    ∀ p, t ∉ qs p :=
  h.out_of_state (by rw [h.waiting ht]; decide)

theorem Consistent.not_asleep (h : Consistent s qs ys xs) {L : WaitList} (ht : t ∈ xs L) :
    t ∉ ys := by
  intro hy
  have hs := h.asleep hy
  rw [h.waiting ht] at hs
  exact absurd hs (by simp)

/-- Nothing happens to the lists. -/
theorem Consistent.still (h : Consistent s qs ys xs) (hr : Readies s.k [] s'.k)
    (hsn : s'.k.sleepNode = s.k.sleepNode) (hsl : s'.k.sleepList = s.k.sleepList)
    (hwn : s'.k.waitNode = s.k.waitNode) (hanchor : ∀ L : WaitList, L.anchor s' = L.anchor s) :
    Deferred s s' qs [] := by
  refine h.readies ys xs hr List.nodup_nil (by simp) ?_ (by simp) (fun L => ?_)
    (by simp)
  · rw [hsn, hsl]
    exact h.sleepers
  · rw [hwn, hanchor L]
    exact h.waiters L

/-- The head of a wait list is woken. -/
theorem Consistent.wakeHead (h : Consistent s qs ys xs) (L : WaitList)
    (hk : s'.k = (s.k.wakeHead (L.anchor s)).1) (hobj : Objects s s' L)
    (hv : L.anchor s' = (s.k.wakeHead (L.anchor s)).2) : Deferred s s' qs (xs L).head?.toList := by
  obtain ⟨hr, hrep, hframe, hsn, hsl⟩ := wakeHead_readies (h.waiters L)
  have hnd := (h.waiters L).nodup
  have hhead : ∀ t ∈ (xs L).head?.toList, t ∈ xs L := by
    intro t ht
    exact List.mem_of_mem_head? (by simpa using ht)
  have htail : ∀ t ∈ (xs L).tail, t ∉ (xs L).head?.toList := by
    intro t ht
    cases hx : xs L with
    | nil => simp
    | cons x rest =>
        rw [hx] at ht hnd
        have hne : t ≠ x := fun he => (List.nodup_cons.mp hnd).1 (he ▸ ht)
        simpa using hne
  rw [← hk] at hr hrep hframe hsn hsl
  rw [← hv] at hrep
  refine h.readies ys (Function.update xs L (xs L).tail) hr ?_
    (fun t ht => h.waiting_out (hhead t ht)) ?_ ?_ (fun M => ?_) (fun M t ht => ?_)
  · cases (xs L).head? <;> simp
  · rw [hsn, hsl]
    exact h.sleepers
  · exact fun t ht => ⟨ht, fun hts => h.not_asleep (hhead t hts) ht⟩
  · by_cases hM : M = L
    · subst hM
      rw [Function.update_self]
      exact hrep
    · rw [Function.update_of_ne hM, hobj.others M hM]
      exact (h.waiters M).congr fun x hx => hframe x fun hxL => hM (h.once hx hxL)
  · rw [Function.update_apply] at ht
    split at ht
    · rename_i hM
      subst hM
      exact ⟨List.mem_of_mem_tail ht, htail t ht⟩
    · rename_i hM
      exact ⟨ht, fun hts => hM (h.once ht (hhead t hts))⟩

end Deferred

/-! ## The sections -/

section Sections

open LockSys

variable {cfg : Config} {s : LockSys} {qs : Prio → List Tid} {ys : List Tid}
  {xs : WaitList → List Tid}

theorem Consistent.queue (h : Consistent s.sys qs ys xs) (p : Prio) : s.queue p = qs p :=
  (h.queues.rep p).nodes (length_le_walkBound (h.queues.rep p).nodup)

theorem Consistent.sleepers_eq (h : Consistent s.sys qs ys xs) : s.sleepers = ys :=
  h.sleepers.nodes (length_le_walkBound h.sleepers.nodup)

theorem Consistent.nodes (h : Consistent s.sys qs ys xs) (L : WaitList) : L.nodes s.sys = xs L :=
  (h.waiters L).nodes (length_le_walkBound (h.waiters L).nodup)

/-- Sections that touch neither threads nor lists. -/
theorem Consistent.idles (h : Consistent s.sys qs ys xs) {k' : Kernel} (hthr : k'.thr = s.sys.k.thr)
    (hn : k'.schedNode = s.sys.k.schedNode) (hq : k'.runQueues = s.sys.k.runQueues)
    (hm : k'.readyMask = s.sys.k.readyMask) (hc : k'.current = s.sys.k.current)
    (hi : k'.idle = s.sys.k.idle) (hsn : k'.sleepNode = s.sys.k.sleepNode)
    (hsl : k'.sleepList = s.sys.k.sleepList) (hwn : k'.waitNode = s.sys.k.waitNode) :
    Deferred s.sys { s.sys with k := k' } qs [] :=
  h.still (.none hthr hn hq hm hc hi) hsn hsl hwn fun L => by cases L <;> rfl

theorem Consistent.resume (h : Consistent s.sys qs ys xs) (t : Tid) :
    Deferred s.sys (s.exec cfg (.threadResume t)).sys qs (readied cfg s (.threadResume t)) := by
  by_cases hst : (s.sys.k.thr t).state = .suspended
  · have hk : (s.exec cfg (.threadResume t)).sys.k = s.sys.k.schedEnqueue t := by
      simp [exec, threadResume, hst]
    have hts : readied cfg s (.threadResume t) = [t] := if_pos hst
    rw [hts]
    refine h.readies ys xs (by rw [hk]; exact .one) (by simp) ?_ ?_ ?_
      (fun L => ?_) ?_
    · intro u hu
      obtain rfl := List.mem_singleton.mp hu
      exact h.out_of_state (by rw [hst]; exact not_active_suspended)
    · rw [hk]
      exact h.sleepers
    · intro u hu
      refine ⟨hu, fun hut => ?_⟩
      obtain rfl := List.mem_singleton.mp hut
      have hs := h.asleep hu
      rw [hst] at hs
      exact absurd hs (by simp)
    · have hL : L.anchor (s.exec cfg (.threadResume t)).sys = L.anchor s.sys := by cases L <;> rfl
      rw [hk, hL]
      exact h.waiters L
    · intro L u hu
      refine ⟨hu, fun hut => ?_⟩
      obtain rfl := List.mem_singleton.mp hut
      have hw := h.waiting hu
      rw [hst] at hw
      exact absurd hw (by simp)
  · have hk : (s.exec cfg (.threadResume t)).sys = s.sys := by
      simp [exec, threadResume, hst]
    have hts : readied cfg s (.threadResume t) = [] := if_neg hst
    rw [hk, hts]
    exact h.idles rfl rfl rfl rfl rfl rfl rfl rfl rfl

/-- `s` with another control block for `t`, out of every list. -/
def freed (s : Sys) (t : Tid) (th : Thread) (n : UInt32) : Sys :=
  { s with k := { s.k with
    nextThreadId := n
    thr := Function.update s.k.thr t th
    schedNode := Function.update s.k.schedNode t listNodeInit
    waitNode := Function.update s.k.waitNode t listNodeInit
    sleepNode := Function.update s.k.sleepNode t listNodeInit } }

/-- Whatever is stored in a free control block, the lists stay as they are. -/
theorem Consistent.cleared (h : Consistent s.sys qs ys xs) {t : Tid} (hq : ∀ p, t ∉ qs p)
    (hy : t ∉ ys) (hx : ∀ L, t ∉ xs L) {th : Thread} (n : UInt32) (hrun : th.state ≠ .running) :
    Consistent (freed s.sys t th n) qs ys xs
      ∧ Deferred s.sys (freed s.sys t th n) qs [] := by
  have hne : ∀ {xs : List Tid}, t ∉ xs → ∀ x ∈ xs, x ≠ t := by
    intro xs ht x hx he
    exact ht (he ▸ hx)
  have hthr : ∀ {u}, u ≠ t → (freed s.sys t th n).k.thr u = s.sys.k.thr u :=
    fun hu => Function.update_of_ne hu _ _
  have hc : Consistent (freed s.sys t th n) qs ys xs := by
    refine ⟨⟨fun p => ?_, h.queues.disjoint, h.queues.mask⟩, ?_, ?_, ?_, fun L => ?_, ?_, h.once,
      ?_⟩
    · exact (h.queues.rep p).congr fun x hx' => Function.update_of_ne (hne (hq p) x hx') _ _
    · intro u p hu
      rw [hthr (hne (hq p) u hu)]
      exact h.active hu
    · exact h.sleepers.congr fun x hx' => Function.update_of_ne (hne hy x hx') _ _
    · intro u hu
      rw [hthr (hne hy u hu)]
      exact h.asleep hu
    · have hL : L.anchor (freed s.sys t th n) = L.anchor s.sys := by cases L <;> rfl
      rw [hL]
      exact (h.waiters L).congr fun x hx' => Function.update_of_ne (hne (hx L) x hx') _ _
    · intro L u hu
      rw [hthr (hne (hx L) u hu)]
      exact h.waiting hu
    · intro u hcur hstate
      by_cases hut : u = t
      · subst hut
        have hself : (freed s.sys u th n).k.thr u = th := Function.update_self _ _ _
        rw [hself] at hstate
        exact absurd hstate hrun
      · rw [hthr hut] at hstate ⊢
        exact h.running hcur hstate
  refine ⟨hc, ⟨ys, xs, ?_⟩, rfl, List.nodup_nil, by simp, by simp, fun u p hu => ?_⟩
  · rw [moved_nil]
    exact hc
  · rw [hthr (hne (hq p) u hu)]
    exact ⟨rfl, id⟩

theorem Consistent.create (h : Consistent s.sys qs ys xs) {t : Tid} {entry arg : Nat}
    {attr : Option ThreadAttr} {stack heapStack : Option Nat}
    (hf : s.Fresh (.threadCreate t entry arg attr stack heapStack)) :
    Deferred s.sys (s.exec cfg (.threadCreate t entry arg attr stack heapStack)).sys qs
      (readied cfg s (.threadCreate t entry arg attr stack heapStack)) := by
  have hrefused : ∀ {e : Err}, ¬ Accepted entry attr stack heapStack →
      threadCreate cfg s.sys.k t entry arg attr stack heapStack = (e, s.sys.k) →
      Deferred s.sys (s.exec cfg (.threadCreate t entry arg attr stack heapStack)).sys qs
        (readied cfg s (.threadCreate t entry arg attr stack heapStack)) := by
    intro e hno heq
    have hts : readied cfg s (.threadCreate t entry arg attr stack heapStack) = [] := if_neg hno
    rw [hts]
    simp only [exec, heq]
    exact h.idles rfl rfl rfl rfl rfl rfl rfl rfl rfl
  cases attr with
  | none => exact hrefused (e := .einval) (by simp [Accepted]) rfl
  | some a =>
    by_cases hentry : entry = 0
    · exact hrefused (e := .einval) (by simp [Accepted, hentry]) (by simp [threadCreate, hentry])
    · by_cases hprio : a.priority > prioMax
      · refine hrefused (e := .einval) ?_ (by simp [threadCreate, hentry, hprio])
        simp only [Accepted, Option.any_some, decide_eq_true_eq]
        exact fun ha => absurd hprio (UInt8.not_lt.mpr ha.2.1)
      · cases hst : stack.or heapStack with
        | none =>
            refine hrefused (e := .enomem) (by simp [Accepted, hst]) ?_
            simp [threadCreate, hentry, hprio, hst]
        | some buf =>
            have hacc : Accepted entry (some a) stack heapStack := by
              refine ⟨hentry, ?_, by simp [hst]⟩
              simpa using UInt8.not_lt.mp hprio
            obtain ⟨hq, hy, hx⟩ := hf hacc
            simp only [h.queue, h.sleepers_eq, h.nodes] at hq hy hx
            have hts : readied cfg s (.threadCreate t entry arg (some a) stack heapStack) = [t] :=
              if_pos hacc
            rw [hts]
            have hk : ∃ (th : Thread) (n : UInt32), th.state ≠ .running
                ∧ (threadCreate cfg s.sys.k t entry arg (some a) stack heapStack).2
                  = (freed s.sys t th n).k.schedEnqueue t := by
              unfold threadCreate
              simp only [hentry, if_false, dif_neg hprio, hst]
              exact ⟨_, _, by simp [newThread], rfl⟩
            obtain ⟨th, n, hrun, hk⟩ := hk
            obtain ⟨hc, hd⟩ := h.cleared hq hy hx n hrun
            refine Deferred.trans h hd ?_
            rw [moved_nil]
            refine hc.readies ys xs ?_ (by simp) ?_ ?_ ?_ (fun L => ?_) ?_
            · simp only [exec, hk]
              exact .one
            · intro u hu
              obtain rfl := List.mem_singleton.mp hu
              exact hq
            · simp only [exec, hk]
              exact hc.sleepers
            · intro u hu
              refine ⟨hu, fun hut => ?_⟩
              obtain rfl := List.mem_singleton.mp hut
              exact hy hu
            · have hL : L.anchor (s.exec cfg (.threadCreate t entry arg (some a) stack
                  heapStack)).sys = L.anchor (freed s.sys t th n) := by cases L <;> rfl
              rw [hL]
              simp only [exec, hk]
              exact hc.waiters L
            · intro L u hu
              refine ⟨hu, fun hut => ?_⟩
              obtain rfl := List.mem_singleton.mp hut
              exact hx L hu

/-- A section that does nothing to the kernel. -/
theorem Consistent.quiet (h : Consistent s.sys qs ys xs) {s' : Sys} {L : WaitList}
    (hk : s'.k = s.sys.k) (hobj : Objects s.sys s' L) (hv : L.anchor s' = L.anchor s.sys) :
    Deferred s.sys s' qs [] :=
  h.still (by rw [hk]; exact .none rfl rfl rfl rfl rfl rfl) (by rw [hk]) (by rw [hk]) (by rw [hk])
    (hobj.all hv)

theorem Consistent.semGive (h : Consistent s.sys qs ys xs) (i : Nat) :
    Deferred s.sys (s.exec cfg (.semGive i)).sys qs (readied cfg s (.semGive i)) := by
  have hobj : Objects s.sys (s.exec cfg (.semGive i)).sys (.sem i) :=
    .sem i _ rfl rfl rfl rfl rfl rfl
  have hts : readied cfg s (.semGive i) = (xs (.sem i)).head?.toList := by
    rw [readied, h.nodes]
  have hanchor : (WaitList.sem i).anchor (s.exec cfg (.semGive i)).sys
      = (VibeRtos.semGive s.sys.k (s.sys.sem i)).2.1.waitList := by
    simp [exec, WaitList.anchor]
  have hhead : (s.sys.sem i).waitList.head = (xs (.sem i)).head? := (h.waiters (.sem i)).head
  rw [hts]
  cases hx : xs (.sem i) with
  | nil =>
      -- nobody waits: at most the count changes
      rw [hx] at hhead
      have hgive : (VibeRtos.semGive s.sys.k (s.sys.sem i)).1 = s.sys.k
          ∧ (VibeRtos.semGive s.sys.k (s.sys.sem i)).2.1.waitList = (s.sys.sem i).waitList := by
        unfold VibeRtos.semGive Kernel.waitGetHead
        rw [hhead]
        dsimp only [List.head?_nil]
        split <;> exact ⟨rfl, rfl⟩
      exact h.quiet hgive.1 hobj (hanchor.trans hgive.2)
  | cons t rest =>
      rw [hx] at hhead
      have hgive : (VibeRtos.semGive s.sys.k (s.sys.sem i)).1
            = (s.sys.k.wakeHead (s.sys.sem i).waitList).1
          ∧ (VibeRtos.semGive s.sys.k (s.sys.sem i)).2.1.waitList
            = (s.sys.k.wakeHead (s.sys.sem i).waitList).2 := by
        unfold VibeRtos.semGive Kernel.wakeHead Kernel.waitGetHead
        rw [hhead]
        exact ⟨rfl, rfl⟩
      rw [← hx]
      exact h.wakeHead (.sem i) hgive.1 hobj (hanchor.trans hgive.2)

theorem Consistent.memPoolFree (h : Consistent s.sys qs ys xs) (i ptr : Nat) :
    Deferred s.sys (s.exec cfg (.memPoolFree i ptr)).sys qs
      (readied cfg s (.memPoolFree i ptr)) := by
  have hobj : Objects s.sys (s.exec cfg (.memPoolFree i ptr)).sys (.pool i) :=
    .pool i _ rfl rfl rfl rfl rfl rfl
  by_cases hin : ptr ≠ 0 ∧ (s.sys.pool i).blocks ≤ ptr ∧ ptr < (s.sys.pool i).blocks
      + ((s.sys.pool i).numBlocks * (s.sys.pool i).blockSize).toNat
  · have hok : ¬ (ptr = 0 ∨ ptr < (s.sys.pool i).blocks ∨ ptr ≥ (s.sys.pool i).blocks
        + ((s.sys.pool i).numBlocks * (s.sys.pool i).blockSize).toNat) := by omega
    have hts : readied cfg s (.memPoolFree i ptr) = (xs (.pool i)).head?.toList := by
      rw [readied, if_pos hin, h.nodes]
    rw [hts]
    refine h.wakeHead (.pool i) ?_ hobj ?_
    · simp only [exec, VibeRtos.memPoolFree, if_neg hok]
      rfl
    · simp only [exec, VibeRtos.memPoolFree, if_neg hok, WaitList.anchor, Function.update_self]
  · have hno : ptr = 0 ∨ ptr < (s.sys.pool i).blocks ∨ ptr ≥ (s.sys.pool i).blocks
        + ((s.sys.pool i).numBlocks * (s.sys.pool i).blockSize).toNat := by omega
    have hts : readied cfg s (.memPoolFree i ptr) = [] := by rw [readied, if_neg hin]
    rw [hts]
    refine h.quiet ?_ hobj ?_
    · simp only [exec, VibeRtos.memPoolFree, if_pos hno]
    · simp only [exec, VibeRtos.memPoolFree, if_pos hno, WaitList.anchor, Function.update_self]

theorem Consistent.msgqPut (h : Consistent s.sys qs ys xs) (i : Nat) (self : Tid)
    (data : Nat → UInt8) :
    Deferred s.sys (s.exec cfg (.msgqPut i self data)).sys qs
      (readied cfg s (.msgqPut i self data)) := by
  by_cases hroom : (s.sys.msgq i).used < (s.sys.msgq i).maxMsgs
  · have hts : readied cfg s (.msgqPut i self data) = (xs (.msgqRead i)).head?.toList := by
      rw [readied, if_pos hroom, h.nodes]
    rw [hts]
    refine h.wakeHead (.msgqRead i) ?_ (.msgqRead i _ ?_ rfl rfl rfl rfl rfl rfl) ?_
    all_goals simp only [exec, VibeRtos.msgqPut, if_pos hroom, WaitList.anchor,
      Function.update_self]
    all_goals rfl
  · have hts : readied cfg s (.msgqPut i self data) = [] := by rw [readied, if_neg hroom]
    rw [hts]
    refine h.quiet (L := .msgqRead i) ?_ (.msgqRead i _ ?_ rfl rfl rfl rfl rfl rfl) ?_
    all_goals simp only [exec, VibeRtos.msgqPut, if_neg hroom, if_true, WaitList.anchor,
      Function.update_self]

theorem Consistent.msgqGet (h : Consistent s.sys qs ys xs) (i : Nat) (self : Tid) :
    Deferred s.sys (s.exec cfg (.msgqGet i self)).sys qs (readied cfg s (.msgqGet i self)) := by
  by_cases hmsg : (s.sys.msgq i).used > 0
  · have hts : readied cfg s (.msgqGet i self) = (xs (.msgqWrite i)).head?.toList := by
      rw [readied, if_pos hmsg, h.nodes]
    rw [hts]
    refine h.wakeHead (.msgqWrite i) ?_ (.msgqWrite i _ ?_ rfl rfl rfl rfl rfl rfl) ?_
    all_goals simp only [exec, VibeRtos.msgqGet, if_pos hmsg, WaitList.anchor,
      Function.update_self]
    all_goals rfl
  · have hts : readied cfg s (.msgqGet i self) = [] := by rw [readied, if_neg hmsg]
    rw [hts]
    refine h.quiet (L := .msgqWrite i) ?_ (.msgqWrite i _ ?_ rfl rfl rfl rfl rfl rfl) ?_
    all_goals simp only [exec, VibeRtos.msgqGet, if_neg hmsg, if_true, WaitList.anchor,
      Function.update_self]

theorem Consistent.eventPost (h : Consistent s.sys qs ys xs) (i : Nat) (flags : UInt32) :
    Deferred s.sys (s.exec cfg (.eventPost i flags)).sys qs
      (readied cfg s (.eventPost i flags)) := by
  have hpark : Parked s.sys.k (s.sys.event i).waitList (xs (.event i)) :=
    ⟨h.waiters (.event i), fun t ht => h.waiting ht⟩
  have hnd := hpark.nodup
  have hhead : (s.sys.event i).waitList.head = (xs (.event i)).head? := (h.waiters (.event i)).head
  have hloop : Posted (s.meets ((s.sys.event i).flags ||| flags)) s.sys.k s.sys.eventCtx []
      (xs (.event i)) _ :=
    eventPostLoop_posted ((s.sys.event i).flags ||| flags)
      (s.meets ((s.sys.event i).flags ||| flags)) (xs (.event i)) [] (length_le_walkBound hnd)
      hpark fun _ _ => rfl
  have hts : readied cfg s (.eventPost i flags)
      = (xs (.event i)).filter (s.meets ((s.sys.event i).flags ||| flags)) := by
    rw [readied, h.nodes]
  rw [hts]
  generalize s.meets ((s.sys.event i).flags ||| flags) = sat at hloop ⊢
  obtain ⟨zs, hrel⟩ := @eventPostLoop_releases ((s.sys.event i).flags ||| flags) walkBound _ _
    s.sys.eventCtx [] _ hpark
  rw [← hhead] at hloop hrel
  obtain ⟨hleft, hwoken, -, -, -⟩ := hloop
  have hframe := hrel.frame
  generalize hr : eventPostLoop ((s.sys.event i).flags ||| flags) walkBound s.sys.k
    (s.sys.event i).waitList s.sys.eventCtx (s.sys.event i).waitList.head = r at hleft hwoken hframe
  have hk : (s.exec cfg (.eventPost i flags)).sys.k = r.1 := by
    rw [← hr]
    rfl
  have hanchor : (WaitList.event i).anchor (s.exec cfg (.eventPost i flags)).sys = r.2.1 := by
    rw [← hr]
    simp [exec, VibeRtos.eventPost, WaitList.anchor]
  have hobj : Objects s.sys (s.exec cfg (.eventPost i flags)).sys (.event i) :=
    .event i _ rfl rfl rfl rfl rfl rfl
  have hready : Readies s.sys.k ((xs (.event i)).filter sat) r.1 := by
    have hfold := Readies.foldl ((xs (.event i)).filter sat) s.sys.k
    have hlast : Readies (((xs (.event i)).filter sat).foldl schedEnqueue s.sys.k) [] r.1 := by
      rw [hwoken]
      exact .none rfl rfl rfl rfl rfl rfl
    simpa using hfold.trans hlast
  have hsame : r.1.sleepNode = s.sys.k.sleepNode ∧ r.1.sleepList = s.sys.k.sleepList := by
    rw [hwoken]
    exact foldl_enqueue_sleep _ _
  have hin : ∀ t ∈ (xs (.event i)).filter sat, t ∈ xs (.event i) :=
    fun t ht => List.mem_of_mem_filter ht
  refine h.readies ys
    (Function.update xs (.event i) ((xs (.event i)).filter fun t => !sat t))
    (by rw [hk]; exact hready) (hnd.filter _) (fun t ht => h.waiting_out (hin t ht)) ?_ ?_
    (fun M => ?_) (fun M t ht => ?_)
  · rw [hk, hsame.1, hsame.2]
    exact h.sleepers
  · exact fun t ht => ⟨ht, fun hts => h.not_asleep (hin t hts) ht⟩
  · rw [hk]
    by_cases hM : M = .event i
    · subst hM
      rw [Function.update_self, hanchor]
      simpa using hleft.rep
    · rw [Function.update_of_ne hM, hobj.others M hM]
      exact (h.waiters M).congr fun x hx => (hframe x fun hxL => hM (h.once hx hxL)).1
  · rw [Function.update_apply] at ht
    split at ht
    · rename_i hM
      subst hM
      obtain ⟨hmem, hno⟩ := List.mem_filter.mp ht
      refine ⟨hmem, fun hts => ?_⟩
      have hyes := (List.mem_filter.mp hts).2
      rw [hyes] at hno
      exact absurd hno (by simp)
    · rename_i hM
      exact ⟨ht, fun hts => hM (h.once ht (hin t hts))⟩

theorem Consistent.wakeExpired (h : Consistent s.sys qs ys xs) :
    Deferred s.sys (s.exec cfg .wakeExpired).sys qs (readied cfg s .wakeExpired) := by
  obtain ⟨hr, hrep, hwait⟩ := wakeLoop_readies s.sys.k.tickCount h.sleepers
    (length_le_walkBound h.sleepers.nodup)
  have hhead : s.sys.k.sleepList.head = ys.head? := h.sleepers.head
  have hk : (s.exec cfg .wakeExpired).sys.k
      = Kernel.wakeLoop s.sys.k.tickCount walkBound s.sys.k ys.head? := by
    rw [← hhead]
    rfl
  have hts : readied cfg s .wakeExpired = expiring s.sys.k s.sys.k.tickCount ys := by
    rw [readied, h.sleepers_eq]
    rfl
  have hsplit := expiring_append_dozing s.sys.k s.sys.k.tickCount ys
  have hnd := h.sleepers.nodup
  rw [← hsplit] at hnd
  obtain ⟨hnd, -, hdisj⟩ := List.nodup_append.mp hnd
  have hin : ∀ t ∈ expiring s.sys.k s.sys.k.tickCount ys, t ∈ ys := by
    intro t ht
    rw [← hsplit]
    exact List.mem_append_left _ ht
  rw [hts]
  refine h.readies (dozing s.sys.k s.sys.k.tickCount ys) xs (by rw [hk]; exact hr)
    hnd (fun t ht => h.asleep_out (hin t ht)) (by rw [hk]; exact hrep) ?_ (fun L => ?_) ?_
  · intro t ht
    refine ⟨?_, fun hts => hdisj t hts t ht rfl⟩
    rw [← hsplit]
    exact List.mem_append_right _ ht
  · have hL : L.anchor (s.exec cfg .wakeExpired).sys = L.anchor s.sys := by cases L <;> rfl
    rw [hk, hwait, hL]
    exact h.waiters L
  · exact fun L t ht => ⟨ht, fun hts => h.not_asleep ht (hin t hts)⟩

/-- A thread leaves its queue and enters it again at the end. -/
theorem QueuesRep.requeue {k : Kernel} {t : Tid} (h : QueuesRep k qs)
    (hmem : t ∈ qs (k.thr t).priority) : QueuesRep ((k.schedDequeue t).schedEnqueue t) fun p =>
      (qs p).filter (fun u => u ∉ [t]) ++ [t].filter fun u => (k.thr u).priority = p := by
  have hnot : ∀ p, t ∉ Function.update qs (k.thr t).priority
      ((qs (k.thr t).priority).erase t) p := by
    intro p hp
    rw [Function.update_apply] at hp
    split at hp
    · exact (h.rep _).nodup.not_mem_erase hp
    · rename_i hne
      exact hne (h.disjoint hp hmem)
  have hin := (h.dequeue hmem).enqueue hnot
  convert hin using 1
  funext p
  rw [schedDequeue_thr]
  by_cases hp : p = (k.thr t).priority
  · rw [hp, Function.update_self, Function.update_self, (h.rep _).nodup.erase_eq_filter]
    simp only [bne, beq_eq_decide]
    simp
  · rw [Function.update_of_ne hp, Function.update_of_ne hp]
    have hsame : (qs p).filter (fun u => u ∉ [t]) = qs p := by
      refine List.filter_eq_self.mpr fun u hu => ?_
      have hut : u ≠ t := by
        rintro rfl
        exact hp (h.disjoint hu hmem)
      simpa using hut
    rw [hsame]
    simp [Ne.symm hp]

/-- The count of a queue says whether it holds more than one thread. -/
theorem Consistent.count (h : Consistent s.sys qs ys xs) (p : Prio) :
    listCount (s.sys.k.runQueues p) > 1 ↔ 1 < (s.queue p).length := by
  have hrep := h.queues.rep p
  have hbound : (qs p).length < 2 ^ 32 := by
    have hle := hrep.nodup.length_le_card
    rw [Fintype.card_fin] at hle
    omega
  rw [h.queue, listCount, hrep.count, gt_iff_lt, UInt32.lt_iff_toNat_lt,
    UInt32.toNat_ofNat_of_lt' hbound]
  rfl

/-- A slice that is not over is counted down at most. -/
theorem timeslice_still (hno : ∀ t, ¬ Rotates cfg s t) (h : Consistent s.sys qs ys xs) :
    ∃ n, s.sys.k.schedTimesliceTick cfg = { s.sys.k with sliceLeft := n } := by
  unfold schedTimesliceTick
  split
  · exact ⟨_, rfl⟩
  · rename_i hms
    split
    · exact ⟨_, rfl⟩
    · rename_i t hcur
      split
      · exact ⟨_, rfl⟩
      · rename_i hrun
        split
        · exact ⟨_, rfl⟩
        · rename_i hleft
          dsimp only
          split
          · rename_i hcount
            refine absurd ⟨hms, hcur, not_not.mp hrun, UInt32.not_lt.mp hleft, ?_⟩ (hno t)
            exact (h.count _).mp hcount
          · exact ⟨_, rfl⟩

theorem timeslice_rotates {t : Tid} (hrot : Rotates cfg s t) (h : Consistent s.sys qs ys xs) :
    s.sys.k.schedTimesliceTick cfg
      = ({ s.sys.k with sliceLeft := msToTicks cfg cfg.timesliceMs }.schedDequeue t).schedEnqueue
        t := by
  obtain ⟨hms, hcur, hrun, hleft, hlen⟩ := hrot
  have hcount := (h.count _).mpr hlen
  unfold schedTimesliceTick
  rw [if_neg hms]
  split
  · rename_i hnone
    rw [hcur] at hnone
    exact absurd hnone (by simp)
  · rename_i u hcur'
    obtain rfl : t = u := Option.some.inj (hcur.symm.trans hcur')
    rw [if_neg (not_not.mpr hrun), if_neg (UInt32.not_lt.mpr hleft)]
    exact if_pos hcount

/-- The running thread goes to the back of its queue. -/
theorem Consistent.timeslice (h : Consistent s.sys qs ys xs) :
    Deferred s.sys (s.exec cfg .timeslice).sys qs (readied cfg s .timeslice) := by
  by_cases hrot : ∃ t, Rotates cfg s t
  · obtain ⟨t, hrot⟩ := hrot
    have hts : readied cfg s .timeslice = [t] := by
      rw [readied, hrot.2.1]
      exact if_pos hrot
    have hk : (s.exec cfg .timeslice).sys.k = _ := timeslice_rotates hrot h
    have hrun := hrot.2.2.1
    have hmem : t ∈ qs (s.sys.k.thr t).priority := h.running hrot.2.1 hrun
    have hthr : (s.exec cfg .timeslice).sys.k.thr
        = Function.update s.sys.k.thr t { s.sys.k.thr t with state := .ready } := by
      rw [hk]
      rfl
    have hprio : ∀ u, ((s.exec cfg .timeslice).sys.k.thr u).priority
        = (s.sys.k.thr u).priority := by
      intro u
      rw [hthr, Function.update_apply]
      split
      · rename_i hut
        rw [hut]
      · rfl
    have hother : ∀ {u}, u ≠ t → (s.exec cfg .timeslice).sys.k.thr u = s.sys.k.thr u := by
      intro u hu
      rw [hthr, Function.update_of_ne hu]
    have hself : ((s.exec cfg .timeslice).sys.k.thr t).state = .ready := by
      rw [hthr, Function.update_self]
    have hq : QueuesRep (s.exec cfg .timeslice).sys.k
        (moved (s.exec cfg .timeslice).sys.k qs [t]) := by
      have hbase : QueuesRep { s.sys.k with sliceLeft := msToTicks cfg cfg.timesliceMs } qs :=
        h.queues.congr rfl rfl rfl
      have hmoved : moved (s.exec cfg .timeslice).sys.k qs [t] = fun p =>
          (qs p).filter (fun u => u ∉ [t]) ++ [t].filter fun u => (s.sys.k.thr u).priority = p := by
        funext p
        simp only [moved, hprio]
      rw [hmoved, hk]
      exact hbase.requeue hmem
    rw [hts]
    refine ⟨⟨ys, xs, hq, ?_, ?_, ?_, fun L => ?_, ?_, h.once, ?_⟩, ?_, by simp, ?_, ?_, ?_⟩
    · intro u p hu
      rcases List.mem_append.mp hu with hu | hu
      · obtain ⟨hu, hne⟩ := List.mem_filter.mp hu
        rw [hother (by simpa using hne)]
        exact h.active hu
      · obtain ⟨hu, hp⟩ := List.mem_filter.mp hu
        obtain rfl := List.mem_singleton.mp hu
        exact ⟨Or.inl hself, of_decide_eq_true hp⟩
    · rw [hk]
      exact h.sleepers
    · intro u hu
      rw [hother fun hut => h.asleep_out hu _ (hut ▸ hmem)]
      exact h.asleep hu
    · have hL : L.anchor (s.exec cfg .timeslice).sys = L.anchor s.sys := by cases L <;> rfl
      rw [hk, hL]
      exact h.waiters L
    · intro L u hu
      rw [hother fun hut => h.waiting_out hu _ (hut ▸ hmem)]
      exact h.waiting hu
    · intro u hcur hu
      rw [hk] at hcur
      obtain rfl : t = u := Option.some.inj (hrot.2.1.symm.trans hcur)
      rw [hself] at hu
      exact absurd hu (by simp)
    · rw [hk]
      rfl
    · intro u hu
      obtain rfl := List.mem_singleton.mp hu
      exact hself
    · intro u hu
      obtain rfl := List.mem_singleton.mp hu
      exact Or.inr hrun
    · intro u p _
      refine ⟨hprio u, fun hready => ?_⟩
      by_cases hut : u = t
      · rw [hut]
        exact hself
      · rw [hother hut]
        exact hready
  · obtain ⟨n, hn⟩ := timeslice_still (fun t ht => hrot ⟨t, ht⟩) h
    have hts : readied cfg s .timeslice = [] := by
      rw [readied]
      split
      · exact if_neg fun ht => hrot ⟨_, ht⟩
      · rfl
    rw [hts]
    simp only [exec, hn]
    exact h.idles rfl rfl rfl rfl rfl rfl rfl rfl rfl

/-- **Every section under the lock defers.** -/
theorem Consistent.exec (h : Consistent s.sys qs ys xs) {l : Section} (hf : s.Fresh l)
    (hlock : s.Held l) :
    Deferred s.sys (s.exec cfg l).sys qs (readied cfg s l) := by
  cases l with
  | threadCreate t entry arg attr stack heapStack => exact h.create hf
  | threadResume t => exact h.resume t
  | semGive i => exact h.semGive i
  | eventPost i flags => exact h.eventPost i flags
  | memPoolFree i ptr => exact h.memPoolFree i ptr
  | workSubmit i w => exact h.idles rfl rfl rfl rfl rfl rfl rfl rfl rfl
  | msgqPut i self data => exact h.msgqPut i self data
  | msgqGet i self => exact h.msgqGet i self
  | tick => exact h.idles rfl rfl rfl rfl rfl rfl rfl rfl rfl
  | wakeExpired => exact h.wakeExpired
  | timeslice => exact h.timeslice
  | reschedule =>
      have hk : s.sys.k.schedReschedule = s.sys.k := if_pos (hlock rfl)
      simp only [LockSys.exec, hk]
      exact h.idles rfl rfl rfl rfl rfl rfl rfl rfl rfl
  | lock => exact h.idles rfl rfl rfl rfl rfl rfl rfl rfl rfl
  | unlock =>
      have hk : ∃ n, s.sys.k.schedUnlock = { s.sys.k with schedLockCount := n } := by
        unfold schedUnlock
        split <;> exact ⟨_, rfl⟩
      obtain ⟨n, hk⟩ := hk
      simp only [LockSys.exec, hk]
      exact h.idles rfl rfl rfl rfl rfl rfl rfl rfl rfl

end Sections

/-! ## Runs -/

section Runs

open LockSys

variable {cfg : Config} {s s' : LockSys} {qs : Prio → List Tid} {ys : List Tid}
  {xs : WaitList → List Tid}

/-- **A run under the lock defers.** -/
theorem Consistent.run : ∀ {ls : List Section} {s s' : LockSys} {qs : Prio → List Tid}
    {ys : List Tid} {xs : WaitList → List Tid}, Consistent s.sys qs ys xs →
    Runs.Along (LockSys.step cfg) LockSys.Fresh s ls →
    Runs.Along (LockSys.step cfg) LockSys.Held s ls →
    Runs.run (LockSys.step cfg) s ls = some s' → Deferred s.sys s'.sys qs (arrivals cfg s ls)
  | [], s, s', qs, ys, xs, h, _, _, hr => by
      obtain rfl := Option.some.inj hr
      exact h.idles rfl rfl rfl rfl rfl rfl rfl rfl rfl
  | l :: ls, s, s', qs, ys, xs, h, hf, hh, hr => by
      obtain ⟨t, ht, hr'⟩ := Runs.run_cons.mp hr
      obtain rfl : s.exec cfg l = t := Option.some.inj ht
      have hone : Deferred s.sys (s.exec cfg l).sys qs (readied cfg s l) := h.exec hf.1 hh.1
      obtain ⟨ys', xs', h'⟩ := hone.linked
      exact hone.trans h (h'.run (hf.2 _ rfl) (hh.2 _ rfl) hr')

/-- While the scheduler is locked every reschedule is held back. -/
theorem held_of_locked : ∀ {ls : List Section} {s : LockSys},
    Runs.Always (LockSys.step cfg) (fun s => 0 < s.lockCount) s ls →
    Runs.Along (LockSys.step cfg) LockSys.Held s ls
  | [], _, _ => trivial
  | _ :: _, _, h => ⟨fun _ => h.1, fun t ht => held_of_locked (h.2 t ht)⟩

/-- An unlocked reschedule runs the thread that `schedNextThread` selects. -/
theorem reschedule_current {k : Kernel} {t : Tid} (hzero : k.schedLockCount = 0)
    (hnext : k.schedNextThread = some t) : k.schedReschedule.current = some t := by
  unfold schedReschedule
  rw [if_neg (by rw [hzero]; exact lt_irrefl 0), hnext]
  dsimp only
  split
  · rename_i hcur
    exact hcur
  · exact switchTo_current k t

/-- The queues of `s'` are those of `s`, with the arrivals behind in order. -/
def Behind (s s' : LockSys) (arrived : List Tid) : Prop :=
  ∀ p, s'.queue p = (s.queue p).filter (fun t => t ∉ arrived)
    ++ arrived.filter fun t => (s'.sys.k.thr t).priority = p

theorem Deferred.behind {ts : List Tid} (hd : Deferred s.sys s'.sys qs ts)
    (h : Consistent s.sys qs ys xs) : Behind s s' ts := by
  obtain ⟨ys', xs', h'⟩ := hd.linked
  intro p
  rw [h.queue, h'.queue]
  rfl

/-- The thread selected heads the highest queue that is not empty; else it is the idle thread. -/
theorem Consistent.next (h : Consistent s.sys qs ys xs) {t : Tid}
    (hnext : s.sys.k.schedNextThread = some t) :
    (∃ p rest, s.queue p = t :: rest ∧ ∀ q, p < q → s.queue q = [])
      ∨ (∀ p, s.queue p = []) ∧ s.sys.k.idle = some t := by
  simp only [h.queue]
  rcases h.queues.next with ⟨hempty, hidle⟩ | ⟨p, u, rest, hp, habove, hu⟩
  · exact Or.inr ⟨hempty, hidle.symm.trans hnext⟩
  · obtain rfl : u = t := Option.some.inj (hu.symm.trans hnext)
    exact Or.inl ⟨p, rest, hp, habove⟩

/--
**The scheduler lock defers preemption and loses none.** From any state with consistent
lists, through any interleaving of sections under the lock: the current thread stays, the
threads made ready are queued once each, behind the others and in order of arrival. Where
the unlock has brought the count to zero, whatever interrupts do before its reschedule, that
reschedule runs the first thread of the highest queue that is not empty.
-/
theorem sched_lock_defers (h : Consistent s.sys qs ys xs) {ls : List Section}
    (hlocked : Runs.Always (LockSys.step cfg) (fun s => 0 < s.lockCount) s ls)
    (hfresh : Runs.Along (LockSys.step cfg) LockSys.Fresh s ls)
    (hr : Runs.run (LockSys.step cfg) s ls = some s') :
    s'.sys.k.current = s.sys.k.current
      ∧ Behind s s' (arrivals cfg s ls)
      ∧ (∀ t ∈ arrivals cfg s ls, (s'.sys.k.thr t).state = .ready
        ∧ ∀ p, (s'.queue p).count t = if p = (s'.sys.k.thr t).priority then 1 else 0)
      ∧ ∀ (ms : List Section) (u : LockSys),
        Runs.run (LockSys.step cfg) s' (.unlock :: ms) = some u →
        Runs.Along (LockSys.step cfg) LockSys.Fresh s' (.unlock :: ms) →
        Runs.Along (LockSys.step cfg) LockSys.Held s' (.unlock :: ms) → u.lockCount = 0 →
        Behind s u (arrivals cfg s ls ++ arrivals cfg s' (.unlock :: ms))
          ∧ ∀ t, u.sys.k.schedNextThread = some t →
            (u.exec cfg .reschedule).sys.k.current = some t
              ∧ ((∃ p rest, u.queue p = t :: rest ∧ ∀ q, p < q → u.queue q = [])
                ∨ (∀ p, u.queue p = []) ∧ u.sys.k.idle = some t) := by
  have hd := h.run hfresh (held_of_locked hlocked) hr
  obtain ⟨ys', xs', h'⟩ := hd.linked
  refine ⟨hd.current, hd.behind h, fun t ht => ⟨hd.ready t ht, fun p => ?_⟩, ?_⟩
  · have hmem := mem_moved s'.sys.k qs ht rfl
    rw [h'.queue]
    split
    · rename_i hp
      rw [hp]
      exact List.count_eq_one_of_mem (h'.queues.rep _).nodup hmem
    · rename_i hp
      exact List.count_eq_zero.mpr fun hin => hp (h'.queues.disjoint hin hmem)
  · intro ms u hu hfresh' hheld' hzero
    have hd' := h'.run hfresh' hheld' hu
    obtain ⟨ys'', xs'', h''⟩ := hd'.linked
    refine ⟨(hd.trans h hd').behind h, fun t ht => ⟨?_, h''.next ht⟩⟩
    exact reschedule_current hzero ht

/-- Nothing is linked yet. -/
theorem consistent_bss (cfg : Config) (thr : Tid → Thread) (idle : Option Tid) :
    Consistent (Sys.bss cfg thr idle) (fun _ => []) [] fun _ => [] where
  queues := ⟨fun _ => listRep_init _, by simp, by simp [Sys.bss, Kernel.bss]⟩
  active := by simp
  sleepers := listRep_init _
  asleep := by simp
  waiters L := by cases L <;> exact listRep_init _
  waiting := by simp
  once := by simp
  running := by
    intro t ht
    exact absurd ht (by simp [Sys.bss, Kernel.bss])

/-- Thread 1 has locked the scheduler; threads 2 and 3 are suspended, and 2 is more urgent. -/
def lockedOne : LockSys where
  sys := { Sys.bss ⟨1000, 1, true⟩ (fun t => threadDefine [] 512 0 0 0 (if t = 2 then 7 else 5))
      none with
    k := { (Kernel.bss ⟨1000, 1, true⟩ (fun t => threadDefine [] 512 0 0 0
        (if t = 2 then 7 else 5)) none).schedEnqueue 1 with
      current := some 1
      schedLockCount := 1 } }
  mem := fun _ => ⟨none, none, false⟩
  workq := fun _ => ⟨none, none, ⟨0, 0, listInit⟩⟩

theorem lockedOne_consistent : ∃ qs ys xs, Consistent lockedOne.sys qs ys xs := by
  have h0 := consistent_bss ⟨1000, 1, true⟩
    (fun t => threadDefine [] 512 0 0 0 (if t = 2 then 7 else 5)) none
  have hstate : (lockedOne.sys.k.thr 1).state = .ready := by decide +kernel
  have hready : Readies (Sys.bss ⟨1000, 1, true⟩
      (fun t => threadDefine [] 512 0 0 0 (if t = 2 then 7 else 5)) none).k [1] _ := Readies.one
  have hq := hready.queues h0.queues (by simp) (by simp)
  have hthr : ∀ u, lockedOne.sys.k.thr u = _ := hready.thr
  refine ⟨_, [], fun _ => [], hq.congr rfl rfl rfl, ?_, listRep_init _, by simp, ?_, by simp,
    by simp, ?_⟩
  · intro t p ht
    obtain ⟨hone, hp⟩ := List.mem_filter.mp ht
    obtain rfl := List.mem_singleton.mp hone
    refine ⟨Or.inl hstate, ?_⟩
    rw [hthr]
    simpa using hp
  · intro L
    cases L <;> exact listRep_init _
  · intro t hcur hrun
    obtain rfl : (1 : Tid) = t := Option.some.inj hcur
    rw [hstate] at hrun
    exact absurd hrun (by simp)

/-- Threads 3 and 2 are resumed under a nested lock; the last unlock runs thread 2. -/
theorem sched_lock_defers_two :
    let ls : List Section := [.threadResume 3, .reschedule, .lock, .tick, .wakeExpired, .timeslice,
      .reschedule, .threadResume 2, .unlock, .reschedule]
    ∃ s', Runs.run (LockSys.step ⟨1000, 1, true⟩) lockedOne ls = some s'
      ∧ s'.sys.k.current = some 1
      ∧ Behind lockedOne s' [3, 2]
      ∧ ((s'.exec ⟨1000, 1, true⟩ .unlock).exec ⟨1000, 1, true⟩ .reschedule).sys.k.current
        = some 2 := by
  intro ls
  obtain ⟨qs, ys, xs, h⟩ := lockedOne_consistent
  obtain ⟨s', hr, hfacts⟩ : ∃ s', Runs.run (LockSys.step ⟨1000, 1, true⟩) lockedOne ls = some s'
      ∧ decide ((s'.exec ⟨1000, 1, true⟩ .unlock).lockCount = 0
        ∧ (s'.exec ⟨1000, 1, true⟩ .unlock).sys.k.schedNextThread = some 2) = true :=
    Option.map_eq_some_iff.mp (by decide +kernel)
  obtain ⟨hzero, hnext⟩ := of_decide_eq_true hfacts
  have hlocked : Runs.Always (LockSys.step ⟨1000, 1, true⟩) (fun s => 0 < s.lockCount)
      lockedOne ls := by decide +kernel
  have hfresh : Runs.Along (LockSys.step ⟨1000, 1, true⟩) LockSys.Fresh lockedOne ls := by
    simp [ls, Runs.Along, LockSys.step, LockSys.Fresh]
  have harr : arrivals ⟨1000, 1, true⟩ lockedOne ls = [3, 2] := by decide +kernel
  obtain ⟨hcur, hbehind, -, hunlock⟩ := sched_lock_defers h hlocked hfresh hr
  rw [harr] at hbehind
  refine ⟨s', hr, hcur, hbehind, ?_⟩
  have hlast := hunlock [] _ rfl ⟨trivial, fun _ _ => trivial⟩
    ⟨fun hl => absurd hl (by simp), fun _ _ => trivial⟩ hzero
  exact (hlast.2 2 hnext).1

end Runs

end VibeRtos
